import Mend.Archive.Crc32
import Mend.Archive.Entry
import Mend.Archive.Inflate

/-! Entries of a zip file, as its directory at the end of the file lists them. -/
namespace Mend.Archive.Zip

/-- The marks in front of the parts of a zip file. -/
def endMark : List UInt8 := [0x50, 0x4b, 5, 6]

def directoryMark : List UInt8 := [0x50, 0x4b, 1, 2]

def localMark : List UInt8 := [0x50, 0x4b, 3, 4]

/-- The places of a mark in a text, in order. -/
def places (mark : List UInt8) : Nat → List UInt8 → List Nat
  | _, [] => []
  | i, b :: bs =>
    if (b :: bs).take mark.length = mark then i :: places mark (i + 1) bs
    else places mark (i + 1) bs

/-- A number of `length` bytes in a part. -/
def field (part : List UInt8) (start length : Nat) : Nat := little ((part.drop start).take length)

/-- An entry of the directory; its content lies behind a header at `start`. -/
structure Item where
  name : List UInt8
  madeBy : Nat
  flags : Nat
  method : Nat
  checksum : Nat
  packedSize : Nat
  size : Nat
  attributes : Nat
  start : Nat

namespace Item

variable (i : Item)

/-- The type bits of a mode that mean a link, both set. -/
def linkBits : Nat := 0o120000

/-- Attributes of files from Unix hold a mode. -/
def isLink : Bool :=
  i.attributes ≠ 0 && i.madeBy / 256 = 3 && (i.attributes >>> 16) &&& linkBits = linkBits

/-- The names of directories end in a slash of either kind. -/
def isFile : Bool :=
  i.name.getLast? ≠ some 0x2f && i.name.getLast? ≠ some 0x5c && !i.isLink

def isEncrypted : Bool := i.flags % 2 = 1

end Item

/-- Where the content behind the header at `start` begins. -/
def contentStart (file : List UInt8) (start : Nat) : Except String Nat :=
  let header := (file.drop start).take 30
  if header.length < 30 then .error "unexpected end of file"
  else if header.take 4 ≠ localMark then .error "Invalid local file header"
  else .ok (start + 30 + field header 26 2 + field header 28 2)

/-- The items of a directory that starts at `directory`; `shift` bytes stand in front of the
archive. With each item comes the rest of the directory. -/
def items (file : List UInt8) (directory shift : Nat) :
    Nat → List UInt8 → Except String (List Item)
  | 0, _ => .ok []
  | n + 1, bs => do
    let header := bs.take 46
    let rest := bs.drop 46
    let (name, extra, comment) := (field header 28 2, field header 30 2, field header 32 2)
    let start := field header 42 4 + shift
    if header.length < 46 || rest.length < name + extra + comment then
      .error "unexpected end of file"
    else if header.take 4 ≠ directoryMark then .error "Invalid Central Directory header"
    else if directory ≤ start then
      .error "A local file entry can't start after the central directory"
    else
      let content ← contentStart file start
      if directory < content then .error "File data can't start after the central directory"
      else
        let item : Item := {
          name := rest.take name
          madeBy := field header 4 2
          flags := field header 8 2
          method := field header 10 2
          checksum := field header 16 4
          packedSize := field header 20 4
          size := field header 24 4
          attributes := field header 38 4
          start }
        let more ← items file directory shift n (rest.drop (name + extra + comment))
        .ok (item :: more)

/-- The items that the end part at `stop` leads to. -/
def itemsAt (file : List UInt8) (stop : Nat) : Except String (List Item) := do
  let part := (file.drop stop).take 22
  let count := field part 8 2
  let offset := field part 16 4
  if part.length < 22 then .error "unexpected end of file"
  else if file.length < stop + 22 + field part 20 2 then .error "Invalid EOCD comment length"
  else if field part 4 2 ≠ field part 6 2 then
    .error "Support for multi-disk files is not implemented"
  else if count = 0 then .ok []
  else if stop ≤ offset then .error "Invalid CDFH offset in EOCD"
  else
    match places directoryMark offset ((file.take stop).drop offset) with
    | [] => .error "No CDFH found"
    | directory :: _ => items file directory (directory - offset) count (file.drop directory)

/-- The items of the last end part that leads to any. -/
def directory (file : List UInt8) : Except String (List Item) :=
  match (places endMark 0 file).reverse.findSome? fun stop => (itemsAt file stop).toOption with
  | some found => .ok found
  | none => .error "Could not find EOCD"

/-- One item for each name: the place of the first of that name, and the last of that name. -/
def unique (found : List Item) : List Item :=
  found.foldl (fun done i =>
    if done.any (·.name = i.name) then done.map fun d => if d.name = i.name then i else d
    else done ++ [i]) []

def badChecksum : String := "Invalid checksum"

/-- The content of an item, which may be stored as it is or compressed. -/
def Item.content (i : Item) (packed : List UInt8) : Except String Source :=
  let checked := fun (bytes : List UInt8) (failure? : Option String) =>
    let sound := (crc32 bytes).toNat = i.checksum
    { data := bytes, failure? := failure? <|> (if sound then none else some badChecksum) }
  if i.method = 0 then .ok (checked packed none)
  else if i.method = 8 then
    let r := inflate packed
    match r.ending with
    | .error .corrupt => .ok (checked r.bytes (some "corrupt deflate stream"))
    | _ => .ok (checked r.bytes none)
  else .error "Compression method not supported"

def Item.entry (file : List UInt8) (i : Item) : Except String Entry := do
  if i.isEncrypted then .error "Password required to decrypt file"
  else
    let start ← contentStart file i.start
    let content ← i.content ((file.drop start).take i.packedSize)
    .ok ⟨latin i.name, i.isFile, i.size, content⟩

/-- The entries of a zip file, unless it has no directory. -/
def entries (file : List UInt8) : Except String (Listing String) :=
  (directory file).map fun found => (unique found).map (Item.entry file)

end Mend.Archive.Zip
