/-
Libraries.

Some of what the program does is done by libraries: they recognise images, write archives, and find
words for what is wrong with a text.  Whatever they do is up to them, and all that the program says of
them is here.

* `Libraries` — what is left to libraries.

Design notes:
* a text that is refused is refused by the readers of this library, and a reason in words is found by
  looking at the same text again; so each kind of text has words of its own;
* an image of whatever format has a size, or there is a reason why it has none.
-/
import Wireframe.Export.Archive

namespace Wireframe

/-- What is left to libraries. -/
structure Libraries where
  /-- Width and height of an image in pixels, or why they are not known. -/
  imageSize : Files.Bytes → Except String (Nat × Nat)
  /-- What is said of the answer of a detector in which no boxes can be read. -/
  answerRefusal : String → String
  /-- What is said of a document that is no design. -/
  documentRefusal : Files.Bytes → String
  /-- What is said of a text that is no settings. -/
  settingsRefusal : String → String
  /-- What writes archives. -/
  archiver : Export.Archiver

end Wireframe
