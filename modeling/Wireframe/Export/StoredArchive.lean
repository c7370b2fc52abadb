/-
Archives of files as they are.

An archive holds files one after the other and then a directory of them.  Each file is a sequence of
blocks that hold its bytes as they are, with a checksum.

* `encode` — an archive as bytes;
* `stored` — what writes such archives;
* `decode?` — the files of an archive that was written by `encode`;
* `checksum` — the checksum of a file.

Design notes:
* this is a zip archive: a local header before each file, a central directory, and its end; the data of
  a file are those of the method `deflate`, of which only stored blocks are used;
* numbers are written with the least significant byte first;
* sizes, offsets and the number of files have four or two bytes, and what does not fit is refused.
-/
import Wireframe.Export.Archive

namespace Wireframe.Export

open Files

namespace Archive

/-! ### Numbers and checksums -/

/-- The lowest `count` bytes of a number, the least significant first. -/
def numberBytes : (count : Nat) → Nat → Bytes
  | 0, _ => []
  | count + 1, n => UInt8.ofNat (n % 256) :: numberBytes count (n / 256)

/-- The number of some bytes, the least significant first. -/
def numberOf (bytes : Bytes) : Nat := bytes.foldr (fun b n => b.toNat + 256 * n) 0

/-- One bit of the checksum. -/
def checksumBit (crc : UInt32) : UInt32 :=
  if crc &&& 1 = 1 then (crc >>> 1) ^^^ 0xEDB88320 else crc >>> 1

/-- `count` bits of the checksum. -/
def checksumBits : (count : Nat) → UInt32 → UInt32
  | 0, crc => crc
  | count + 1, crc => checksumBits count (checksumBit crc)

/-- One byte of the checksum. -/
def checksumByte (crc : UInt32) (b : UInt8) : UInt32 := checksumBits 8 (crc ^^^ b.toUInt32)

/-- The checksum of some bytes. -/
def checksum (bytes : Bytes) : UInt32 := ~~~ (bytes.foldl checksumByte 0xFFFFFFFF)

/-! ### Blocks -/

/-- The largest block. -/
def blockLimit : Nat := 65535

/-- A block, the last one or not. -/
def block (last : Bool) (bytes : Bytes) : Bytes :=
  (if last then 1 else 0) :: numberBytes 2 bytes.length ++
    numberBytes 2 (blockLimit - bytes.length) ++ bytes

/-- Bytes in blocks; `fuel` bounds the number of blocks. -/
def blocksWithin : (fuel : Nat) → Bytes → Bytes
  | 0, bytes => block true bytes
  | fuel + 1, bytes =>
      if bytes.length ≤ blockLimit then block true bytes
      else block false (bytes.take blockLimit) ++ blocksWithin fuel (bytes.drop blockLimit)

/-- Bytes in blocks. -/
def blocks (bytes : Bytes) : Bytes := blocksWithin bytes.length bytes

/-- The bytes in blocks; `fuel` bounds the number of blocks. -/
def unblockWithin : (fuel : Nat) → Bytes → Option Bytes
  | 0, _ => none
  | fuel + 1, last :: low :: high :: _ :: _ :: rest =>
      let size := numberOf [low, high]
      if rest.length < size then none
      else if last = 1 then some (rest.take size)
      else (unblockWithin fuel (rest.drop size)).map (rest.take size ++ ·)
  | _, _ => none

/-- The bytes in blocks. -/
def unblock (bytes : Bytes) : Option Bytes := unblockWithin bytes.length bytes

/-! ### Writing -/

/-- The name of a file as bytes. -/
def Entry.nameBytes (entry : Entry) : Bytes := textBytes entry.name

/-- A file as it is stored. -/
structure Stored where
  entry : Entry
  data : Bytes
  crc : UInt32
deriving Inhabited

/-- Stores a file. -/
def Stored.of (entry : Entry) : Stored := ⟨entry, blocks entry.contents, checksum entry.contents⟩

/-- The mark in front of a file. -/
def fileMark : Bytes := [0x50, 0x4B, 0x03, 0x04]

/-- The mark in front of an entry of the directory. -/
def directoryMark : Bytes := [0x50, 0x4B, 0x01, 0x02]

/-- The mark in front of the end. -/
def endMark : Bytes := [0x50, 0x4B, 0x05, 0x06]

/-- What the file and its entry of the directory both say: version, that names are in UTF-8, that
blocks are used, the first day there is, checksum, sizes, and that there is nothing else. -/
def Stored.facts (stored : Stored) : Bytes :=
  numberBytes 2 20 ++ numberBytes 2 0x0800 ++ numberBytes 2 8 ++ numberBytes 2 0 ++
    numberBytes 2 0x21 ++ numberBytes 4 stored.crc.toNat ++ numberBytes 4 stored.data.length ++
    numberBytes 4 stored.entry.contents.length ++ numberBytes 2 stored.entry.nameBytes.length ++
    numberBytes 2 0

/-- A file. -/
def Stored.file (stored : Stored) : Bytes :=
  fileMark ++ stored.facts ++ stored.entry.nameBytes ++ stored.data

/-- An entry of the directory for the file at an offset. -/
def Stored.listing (stored : Stored) (offset : Nat) : Bytes :=
  directoryMark ++ numberBytes 2 (3 * 256 + 20) ++ stored.facts ++ numberBytes 2 0 ++
    numberBytes 2 0 ++ numberBytes 2 0 ++
    numberBytes 4 ((0o100000 + stored.entry.mode) * 65536) ++ numberBytes 4 offset ++
    stored.entry.nameBytes

/-- The directory of files, the first of which is at an offset. -/
def listings (offset : Nat) : List Stored → Bytes
  | [] => []
  | stored :: rest => stored.listing offset ++ listings (offset + stored.file.length) rest

/-- The files of an archive. -/
def filesOf (entries : List Entry) : Bytes := (entries.map Stored.of).flatMap Stored.file

/-- The directory of an archive. -/
def directoryOf (entries : List Entry) : Bytes := listings 0 (entries.map Stored.of)

/-- The end of an archive. -/
def endOf (entries : List Entry) : Bytes :=
  endMark ++ numberBytes 2 0 ++ numberBytes 2 0 ++
    numberBytes 2 entries.length ++ numberBytes 2 entries.length ++
    numberBytes 4 (directoryOf entries).length ++ numberBytes 4 (filesOf entries).length ++
    numberBytes 2 0

/-- An archive as bytes. -/
def encode (entries : List Entry) : Bytes :=
  filesOf entries ++ (directoryOf entries ++ endOf entries)

/-- A number of two bytes. -/
def isShort (n : Nat) : Bool := n < 65536

/-- A number of four bytes. -/
def isLong (n : Nat) : Bool := n < 4294967296

/-- What writes archives without compressing anything. -/
def stored : Archiver where
  start := fun added name =>
    if added.any (·.name == name) then .error "Duplicate filename"
    else if isShort (textBytes name).length then .ok ()
    else .error "File name is too long"
  write := fun _ entry =>
    if isLong (Stored.of entry).data.length then .ok () else .error "File is too large"
  finish := fun added =>
    if isShort added.length && isLong (directoryOf added).length && isLong (filesOf added).length then
      .ok (encode added)
    else .error "Archive is too large"

/-! ### Reading -/

/-- The first `count` bytes and the rest, if there are as many. -/
def split? (count : Nat) (bytes : Bytes) : Option (Bytes × Bytes) :=
  if bytes.length < count then none else some (bytes.take count, bytes.drop count)

/-- What follows a mark. -/
def after? (mark : Bytes) (bytes : Bytes) : Option Bytes := mark.isPrefixOf? bytes

/-- Name and contents of a file, and what follows it. -/
def readFile? (bytes : Bytes) : Option ((String × Bytes) × Bytes) := do
  let rest ← after? fileMark bytes
  let (_, rest) ← split? 14 rest
  let (dataSize, rest) ← split? 4 rest
  let (_, rest) ← split? 4 rest
  let (nameSize, rest) ← split? 2 rest
  let (_, rest) ← split? 2 rest
  let (name, rest) ← split? (numberOf nameSize) rest
  let (data, rest) ← split? (numberOf dataSize) rest
  return ((← bytesText? name, ← unblock data), rest)

/-- Whether a file may be run, by an entry of the directory, and what follows the entry. -/
def readListing? (bytes : Bytes) : Option (Bool × Bytes) := do
  let rest ← after? directoryMark bytes
  let (_, rest) ← split? 24 rest
  let (nameSize, rest) ← split? 2 rest
  let (_, rest) ← split? 8 rest
  let (attributes, rest) ← split? 4 rest
  let (_, rest) ← split? 4 rest
  let (_, rest) ← split? (numberOf nameSize) rest
  return (numberOf attributes / 65536 % 0o1000 = 0o755, rest)

/-- As many values as can be read one after the other, and what follows them; `fuel` bounds their
number. -/
def readAll {α : Type} (read? : Bytes → Option (α × Bytes)) : (fuel : Nat) → Bytes →
    List α × Bytes
  | 0, bytes => ([], bytes)
  | fuel + 1, bytes =>
      match read? bytes with
      | some (a, rest) =>
          let (more, rest) := readAll read? fuel rest
          (a :: more, rest)
      | none => ([], bytes)

/-- The files of an archive. -/
def decode? (bytes : Bytes) : Option (List Entry) :=
  let (files, rest) := readAll readFile? bytes.length bytes
  let (modes, rest) := readAll readListing? bytes.length rest
  if endMark.isPrefixOf rest ∧ files.length = modes.length then
    some ((files.zip modes).map fun (file, executable) => ⟨file.1, executable, file.2⟩)
  else none

example : checksum (textBytes "123456789") = 0xCBF43926 := by decide +kernel

end Archive

end Wireframe.Export
