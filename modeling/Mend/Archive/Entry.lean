import Mend.Files.Path
import Mend.Install.Source

/-! What is common to archives: entries, which may be files, and numbers in bytes. -/
namespace Mend.Archive

/-- An entry of an archive: its path, whether it is a file, the size that the archive gives for it,
and its content. -/
structure Entry where
  path : String
  isFile : Bool
  size : Nat
  content : Source

/-- Whether an entry is a file of a name, in whatever directory. -/
def Entry.isNamed (e : Entry) (name : String) : Bool :=
  e.isFile && Path.fileName? e.path = some name

/-- Entries in order; the list ends where reading on fails. -/
abbrev Listing (ε : Type) := List (Except ε Entry)

/-- Each byte as the character of that number. -/
def latin (bs : List UInt8) : String := String.ofList (bs.map fun b => Char.ofNat b.toNat)

/-- The number in bytes, the lowest byte first. -/
def little : List UInt8 → Nat
  | [] => 0
  | b :: bs => b.toNat + 256 * little bs

/-- The number in bytes, the highest byte first. -/
def big (bs : List UInt8) : Nat := little bs.reverse

end Mend.Archive
