/-
Reading an archive of files as they are.

What has been written into an archive is found in it again: numbers that fit into their bytes, the
blocks of a file, its header, and then all files with the entries of the directory.

* `numberOf_numberBytes` — numbers;
* `unblock_blocks` — bytes in blocks;
* `readFile?_file`, `readListing?_listing` — a file and its entry of the directory;
* `decode?_encode` — all files;
* `isReadBy_stored` — a reader finds what has been added.
-/
import Mathlib.Data.List.Basic
import Wireframe.Export.StoredArchive
import Wireframe.Proofs.Files.TextBytes

namespace Wireframe.Export.Archive

open Files

/-! ### Numbers -/

@[simp] theorem length_numberBytes (count n : Nat) : (numberBytes count n).length = count := by
  induction count generalizing n with
  | zero => rfl
  | succ count ih => rw [numberBytes, List.length_cons, ih]

theorem numberOf_cons (b : UInt8) (bytes : Bytes) :
    numberOf (b :: bytes) = b.toNat + 256 * numberOf bytes := rfl

/-- A number that fits into its bytes is read again. -/
theorem numberOf_numberBytes {count n : Nat} (h : n < 256 ^ count) :
    numberOf (numberBytes count n) = n := by
  induction count generalizing n with
  | zero => exact (Nat.lt_one_iff.mp h).symm
  | succ count ih =>
    have hrest : n / 256 < 256 ^ count := Nat.div_lt_of_lt_mul (by rwa [pow_succ'] at h)
    have hbyte : (UInt8.ofNat (n % 256)).toNat = n % 256 := by
      rw [UInt8.toNat_ofNat', Nat.mod_mod]
    rw [numberBytes, numberOf_cons, ih hrest, hbyte, Nat.mod_add_div]

/-! ### Pieces -/

theorem split?_append {count : Nat} {front : Bytes} (h : front.length = count) (rest : Bytes) :
    split? count (front ++ rest) = some (front, rest) := by
  subst h
  simp [split?]

theorem split?_length (front rest : Bytes) : split? front.length (front ++ rest) = some (front, rest) :=
  split?_append rfl rest

theorem split?_numberBytes (count n : Nat) (rest : Bytes) :
    split? count (numberBytes count n ++ rest) = some (numberBytes count n, rest) :=
  split?_append (length_numberBytes count n) rest

theorem after?_append (mark rest : Bytes) : after? mark (mark ++ rest) = some rest :=
  List.isPrefixOf?_eq_some_iff_append_eq.mpr rfl

/-! ### Blocks -/

/-- A block is undone, and what stands behind it if it is not the last one. -/
theorem unblockWithin_block {bytes : Bytes} (h : bytes.length ≤ blockLimit) (last : Bool)
    (fuel : Nat) (rest : Bytes) :
    unblockWithin (fuel + 1) (block last bytes ++ rest) =
      if last then some bytes else (unblockWithin fuel rest).map (bytes ++ ·) := by
  have hsize : numberOf (numberBytes 2 bytes.length) = bytes.length :=
    numberOf_numberBytes (Nat.lt_succ_of_le h)
  simp only [numberBytes] at hsize
  cases last <;> simp [block, numberBytes, unblockWithin, hsize]

theorem length_block (last : Bool) (bytes : Bytes) : (block last bytes).length = bytes.length + 5 := by
  simp [block]
  omega

theorem length_lt_length_blocksWithin (fuel : Nat) (bytes : Bytes) :
    bytes.length < (blocksWithin fuel bytes).length := by
  induction fuel generalizing bytes with
  | zero =>
    rw [blocksWithin, length_block]
    omega
  | succ fuel ih =>
    rw [blocksWithin]
    split
    · rw [length_block]
      omega
    · have hrest := ih (bytes.drop blockLimit)
      rw [List.length_drop] at hrest
      rw [List.length_append, length_block, List.length_take]
      omega

/-- Enough fuel on both sides: what is in blocks is found again. -/
theorem unblockWithin_blocksWithin {fuel more : Nat} {bytes : Bytes}
    (hfuel : bytes.length ≤ blockLimit * (fuel + 1)) (hmore : fuel < more) :
    unblockWithin more (blocksWithin fuel bytes) = some bytes := by
  obtain ⟨more, rfl⟩ : ∃ least, more = least + 1 := ⟨more - 1, by omega⟩
  induction fuel generalizing bytes more with
  | zero =>
    have hshort : bytes.length ≤ blockLimit := by omega
    have hblock := unblockWithin_block hshort true more []
    rwa [List.append_nil, if_pos rfl] at hblock
  | succ fuel ih =>
    rw [blocksWithin]
    split
    · rename_i hshort
      have hblock := unblockWithin_block hshort true more []
      rwa [List.append_nil, if_pos rfl] at hblock
    · -- a full block, and the rest in blocks of their own
      have htake : (bytes.take blockLimit).length ≤ blockLimit := by
        rw [List.length_take]
        omega
      have hdrop : (bytes.drop blockLimit).length ≤ blockLimit * (fuel + 1) := by
        rw [List.length_drop, Nat.sub_le_iff_le_add]
        exact hfuel
      obtain ⟨least, rfl⟩ : ∃ least, more = least + 1 := ⟨more - 1, by omega⟩
      rw [unblockWithin_block htake, if_neg Bool.false_ne_true, ih hdrop least (by omega),
        Option.map_some, List.take_append_drop]

theorem unblock_blocks (bytes : Bytes) : unblock (blocks bytes) = some bytes := by
  refine unblockWithin_blocksWithin ?_ (length_lt_length_blocksWithin _ _)
  rw [blockLimit]
  omega

/-! ### Files -/

theorem bytesText?_textBytes (text : String) : bytesText? (textBytes text) = some text := by
  have hbytes : (textBytes text).toByteArray = text.toByteArray := by
    conv => rhs; rw [← String.ofList_toList (s := text)]
    rw [textBytes_eq]
    rfl
  rw [bytesText?, hbytes, String.fromUTF8?, dif_pos text.isValidUTF8]
  rfl

/-- Name and data of an entry fit into the numbers of its header. -/
structure Fits (entry : Entry) : Prop where
  name : entry.nameBytes.length < 256 ^ 2
  data : (blocks entry.contents).length < 256 ^ 4

/-- A file as it is read: some bytes that are passed over, the sizes of the data, of the contents and of
the name, and then the name and the data. -/
theorem exists_file_eq (entry : Entry) : ∃ front : Bytes, front.length = 14 ∧
    (Stored.of entry).file = fileMark ++ (front ++ (numberBytes 4 (blocks entry.contents).length ++
      (numberBytes 4 entry.contents.length ++ (numberBytes 2 entry.nameBytes.length ++
        (numberBytes 2 0 ++ (entry.nameBytes ++ blocks entry.contents)))))) := by
  refine ⟨numberBytes 2 20 ++ numberBytes 2 0x0800 ++ numberBytes 2 8 ++ numberBytes 2 0 ++
    numberBytes 2 0x21 ++ numberBytes 4 (checksum entry.contents).toNat, by simp, ?_⟩
  simp only [Stored.file, Stored.facts, Stored.of, List.append_assoc]

/-- A file is read, whatever follows it. -/
theorem readFile?_file {entry : Entry} (h : Fits entry) (rest : Bytes) :
    readFile? ((Stored.of entry).file ++ rest) = some ((entry.name, entry.contents), rest) := by
  have hname := numberOf_numberBytes h.name
  have hdata := numberOf_numberBytes h.data
  have htext : bytesText? entry.nameBytes = some entry.name := bytesText?_textBytes entry.name
  obtain ⟨front, hfront, hfile⟩ := exists_file_eq entry
  simp only [hfile, List.append_assoc, readFile?, after?_append, split?_append hfront,
    split?_numberBytes, hname, hdata, split?_length, htext, unblock_blocks, Option.bind_eq_bind,
    Option.bind_some, Option.pure_def]

/-- An entry of the directory as it is read: the size of the name, the attributes, and the name. -/
theorem exists_listing_eq (entry : Entry) (offset : Nat) : ∃ front between : Bytes,
    front.length = 24 ∧ between.length = 8 ∧ (Stored.of entry).listing offset = directoryMark ++
      (front ++ (numberBytes 2 entry.nameBytes.length ++ (between ++
        (numberBytes 4 ((0o100000 + entry.mode) * 65536) ++
          (numberBytes 4 offset ++ entry.nameBytes))))) := by
  refine ⟨numberBytes 2 (3 * 256 + 20) ++ (numberBytes 2 20 ++ numberBytes 2 0x0800 ++
    numberBytes 2 8 ++ numberBytes 2 0 ++ numberBytes 2 0x21 ++
    numberBytes 4 (checksum entry.contents).toNat ++ numberBytes 4 (blocks entry.contents).length ++
    numberBytes 4 entry.contents.length),
    numberBytes 2 0 ++ numberBytes 2 0 ++ numberBytes 2 0 ++ numberBytes 2 0, by simp, by simp, ?_⟩
  simp only [Stored.listing, Stored.facts, Stored.of, List.append_assoc]

/-- The attributes of a file tell whether it may be run. -/
theorem decide_attributes (entry : Entry) :
    decide (numberOf (numberBytes 4 ((0o100000 + entry.mode) * 65536)) / 65536 % 0o1000 = 0o755) =
      entry.executable := by
  have hmode : entry.mode < 0o1000 := by
    rw [Entry.mode]
    split <;> decide
  rw [numberOf_numberBytes (by omega), Nat.mul_div_cancel _ (by decide), Entry.mode]
  cases entry.executable <;> rfl

/-- An entry of the directory is read, whatever follows it. -/
theorem readListing?_listing {entry : Entry} (h : Fits entry) (offset : Nat) (rest : Bytes) :
    readListing? ((Stored.of entry).listing offset ++ rest) = some (entry.executable, rest) := by
  have hname := numberOf_numberBytes h.name
  obtain ⟨front, between, hfront, hbetween, hlisting⟩ := exists_listing_eq entry offset
  simp only [hlisting, List.append_assoc, readListing?, after?_append, split?_append hfront,
    split?_append hbetween, split?_numberBytes, hname, split?_length, decide_attributes,
    Option.bind_eq_bind, Option.bind_some, Option.pure_def]

/-! ### All files -/

section All

variable {α : Type} {read? : Bytes → Option (α × Bytes)}

theorem readAll_of_some {bytes rest : Bytes} {a : α} {fuel : Nat}
    (h : read? bytes = some (a, rest)) (hfuel : 0 < fuel) :
    readAll read? fuel bytes =
      (a :: (readAll read? (fuel - 1) rest).1, (readAll read? (fuel - 1) rest).2) := by
  obtain ⟨less, rfl⟩ := Nat.exists_eq_add_one.mpr hfuel
  simp only [readAll, h, Nat.add_sub_cancel]

theorem readAll_of_none {bytes : Bytes} (h : read? bytes = none) (fuel : Nat) :
    readAll read? fuel bytes = ([], bytes) := by
  cases fuel with
  | zero => rfl
  | succ fuel => simp only [readAll, h]

end All

variable {entries : List Entry}

/-- All files are read, up to what is none. -/
theorem readAll_files {rest : Bytes} (hfits : ∀ entry ∈ entries, Fits entry)
    (hrest : readFile? rest = none) {fuel : Nat} (hfuel : entries.length ≤ fuel) :
    readAll readFile? fuel (filesOf entries ++ rest) =
      (entries.map fun entry => (entry.name, entry.contents), rest) := by
  induction entries generalizing fuel with
  | nil => exact readAll_of_none hrest fuel
  | cons entry entries ih =>
    obtain ⟨hentry, hentries⟩ := List.forall_mem_cons.mp hfits
    have hfiles : filesOf (entry :: entries) ++ rest =
        (Stored.of entry).file ++ (filesOf entries ++ rest) := by
      simp only [filesOf, List.map_cons, List.flatMap_cons, List.append_assoc]
    rw [hfiles, readAll_of_some (readFile?_file hentry _) (Nat.zero_lt_of_lt hfuel),
      ih hentries (Nat.le_sub_one_of_lt hfuel), List.map_cons]

/-- All entries of the directory are read, up to what is none. -/
theorem readAll_listings {rest : Bytes} (hfits : ∀ entry ∈ entries, Fits entry)
    (hrest : readListing? rest = none) {fuel : Nat} (hfuel : entries.length ≤ fuel) (offset : Nat) :
    readAll readListing? fuel (listings offset (entries.map .of) ++ rest) =
      (entries.map (·.executable), rest) := by
  induction entries generalizing fuel offset with
  | nil => exact readAll_of_none hrest fuel
  | cons entry entries ih =>
    obtain ⟨hentry, hentries⟩ := List.forall_mem_cons.mp hfits
    rw [List.map_cons, listings, List.append_assoc,
      readAll_of_some (readListing?_listing hentry offset _) (Nat.zero_lt_of_lt hfuel),
      ih hentries (Nat.le_sub_one_of_lt hfuel), List.map_cons]

/-- Behind the last file there is no file but the directory or the end. -/
theorem readFile?_directory (entries more : List Entry) :
    readFile? (directoryOf entries ++ endOf more) = none := by
  cases entries <;> rfl

theorem readListing?_endOf (entries : List Entry) : readListing? (endOf entries) = none := rfl

theorem length_le_length_filesOf (entries : List Entry) : entries.length ≤ (filesOf entries).length := by
  induction entries with
  | nil => exact Nat.zero_le _
  | cons entry entries ih =>
    simp only [filesOf, List.map_cons, List.flatMap_cons, List.length_append, List.length_cons,
      Stored.file, fileMark] at ih ⊢
    omega

/-- What has been written into an archive is found in it. -/
theorem decode?_encode (h : ∀ entry ∈ entries, Fits entry) : decode? (encode entries) = some entries := by
  have hfuel : entries.length ≤ (encode entries).length := by
    rw [encode, List.length_append]
    exact Nat.le_add_right_of_le (length_le_length_filesOf entries)
  have hfiles : readAll readFile? (encode entries).length (encode entries) =
      (entries.map fun entry => (entry.name, entry.contents), directoryOf entries ++ endOf entries) :=
    readAll_files h (readFile?_directory entries entries) hfuel
  have hlistings : readAll readListing? (encode entries).length (directoryOf entries ++ endOf entries) =
      (entries.map (·.executable), endOf entries) :=
    readAll_listings h (readListing?_endOf entries) hfuel 0
  have hend : endMark.isPrefixOf (endOf entries) = true := rfl
  simp only [decode?, hfiles, hlistings, hend, List.length_map, and_self, if_true, List.zip_map',
    List.map_map]
  exact congrArg some (List.map_id entries)

/-- What has been added one after the other fits. -/
theorem fits_of_takes (h : stored.Takes entries) : ∀ entry ∈ entries, Fits entry := by
  induction h with
  | nil => exact List.forall_mem_nil _
  | @concat added entry _ hstart hwrite ih =>
    have hname : isShort entry.nameBytes.length = true := by
      by_contra hlong
      simp only [stored, Entry.nameBytes] at hstart hlong
      rw [if_neg hlong] at hstart
      split at hstart <;> cases hstart
    have hdata : isLong (Stored.of entry).data.length = true := by
      by_contra hlong
      simp only [stored] at hwrite
      rw [if_neg hlong] at hwrite
      cases hwrite
    exact List.forall_mem_append.mpr
      ⟨ih, List.forall_mem_singleton.mpr ⟨of_decide_eq_true hname, of_decide_eq_true hdata⟩⟩

/-- A reader finds in an archive of files as they are what has been added to it. -/
theorem isReadBy_stored : stored.IsReadBy decode? := by
  intro entries bytes htakes hfinish
  have hbytes : encode entries = bytes := by
    simp only [stored] at hfinish
    split at hfinish
    · exact Except.ok.inj hfinish
    · cases hfinish
  rw [← hbytes]
  exact decode?_encode (fits_of_takes htakes)

end Wireframe.Export.Archive
