import Mend.Archive.Entry
import Mend.Text.Blank

/-! Entries of a tar file: blocks with headers, each followed by the blocks of its content. -/
namespace Mend.Archive.Tar

def blockSize : Nat := 512

/-- The numbers of fields are below this one. -/
def sizeLimit : Nat := Nat.pow 2 64

/-- The part of a field in front of a zero byte. -/
def untilZero (bs : List UInt8) : List UInt8 := bs.takeWhile (· ≠ 0)

def field (header : List UInt8) (start length : Nat) : List UInt8 :=
  (header.drop start).take length

/-- The number of some digits; a plus may stand in front. -/
def digits? (base : Nat) (cs : List Char) : Option Nat :=
  let digits := (if cs.head? = some '+' then cs.drop 1 else cs).map fun c => c.toNat - '0'.toNat
  let wellFormed := cs.all fun c => c = '+' || ('0' ≤ c && c.toNat < '0'.toNat + base)
  let n := digits.foldl (base * · + ·) 0
  if digits.isEmpty || !wellFormed || '+' ∈ cs.drop 1 || sizeLimit ≤ n then none else some n

/-- A number in octal digits with blanks around them. -/
def octal (bs : List UInt8) : Except String Nat :=
  match String.fromUTF8? ⟨(untilZero bs).toArray⟩ with
  | none => .error "numeric field did not have utf-8 text"
  | some s =>
    match digits? 8 (Text.trim s.toList) with
    | some n => .ok n
    | none => .error "numeric field was not a number"

/-- A number in octal digits or, marked by the highest bit of the field, in bytes. -/
def number (bs : List UInt8) : Except String Nat :=
  match bs with
  | b :: _ => if b < 0x80 then octal bs else .ok (big (bs.drop (bs.length - 8)))
  | [] => octal bs

/-- The sum of a header's bytes, with blanks in place of the sum itself. -/
def checksum (header : List UInt8) : Nat :=
  (header.take 148 ++ header.drop 156).foldl (fun sum b => sum + b.toNat) (8 * 32)

/-- Whether a header has the marks of the two formats with more fields. -/
def isUnixStandard (header : List UInt8) : Bool := latin (field header 257 8) = "ustar\x0000"

def isGnu (header : List UInt8) : Bool := latin (field header 257 8) = "ustar  \x00"

/-- The type of an entry. -/
def kind (header : List UInt8) : Char := Char.ofNat ((header.drop 156).headD 0).toNat

/-- The path in a header itself. One of the formats has a directory apart from the name. -/
def headerPath (header : List UInt8) : String :=
  let name := untilZero (field header 0 100)
  match untilZero (field header 345 155) with
  | [] => latin name
  | directory => latin (if isUnixStandard header then directory ++ 0x2f :: name else name)

/-- What earlier entries say about the next one. -/
structure Notes where
  longPath? : Option (List UInt8) := none
  longLink? : Option (List UInt8) := none
  records? : Option (List UInt8) := none

/-- The lines of records, up to an empty one. -/
def recordLines (records : List UInt8) : List (List Char) :=
  (Path.splitAt '\n' (latin records).toList).takeWhile (!·.isEmpty)

/-- The key and the value of a line `length key=value`, where the length counts the whole line and
its end. -/
def record? (line : List Char) : Option (List Char × List Char) := do
  let length := line.takeWhile (· ≠ ' ')
  let rest := line.drop (length.length + 1)
  let n ← digits? 10 length
  if length.length = line.length || n ≠ line.length + 1 || '=' ∉ rest then none
  else some (rest.takeWhile (· ≠ '='), (rest.dropWhile (· ≠ '=')).drop 1)

namespace Notes

variable (n : Notes)

/-- Notes that no entry has followed yet. -/
def isEmpty : Bool := n.longPath?.isNone && n.longLink?.isNone && n.records?.isNone

def lines : List (List Char) := recordLines (n.records?.getD [])

/-- The size in the records, up to the first line that makes no sense. -/
def size? : Option Nat :=
  let records := (n.lines.map record?).takeWhile Option.isSome
  match records.filterMap id |>.find? (·.1 = "size".toList) with
  | some (_, value) => digits? 10 value
  | none => none

def path? : Option String :=
  match n.longPath? with
  | some bs => some (latin (if bs.getLast? = some 0 then bs.dropLast else bs))
  | none => ((n.lines.filterMap record?).find? (·.1 = "path".toList)).map (String.ofList ·.2)

end Notes

/-- The entries from a place in the data on. `skipped` bytes come before the next header, `failure?`
is what ends the data, and `notes` are about the next entry. -/
def entriesFrom (failure? : Option String) :
    Nat → Notes → Nat → List UInt8 → Listing String
  | 0, _, _, _ => []
  | fuel + 1, notes, skipped, data =>
    let stop := fun (reason : String) => [Except.error (failure?.getD reason)]
    let ending : Listing String :=
      if notes.isEmpty then [] else [.error "a future member is missing"]
    if data.length < skipped then stop "unexpected EOF during skip"
    else
      let data := data.drop skipped
      let header := data.take blockSize
      let rest := data.drop blockSize
      if data.isEmpty then
        match failure? with
        | some reason => [.error reason]
        | none => ending
      else if header.length < blockSize then stop "failed to read entire block"
      else if header.all (· = 0) then ending
      else
        let sizes : Except String Nat := do
          let sum ← octal (field header 148 8)
          if sum % Nat.pow 2 32 ≠ checksum header then .error "archive header checksum mismatch"
          else number (field header 124 12)
        match sizes with
        | .error reason => [.error reason]
        | .ok size =>
          let size := if size = 0 then notes.size?.getD 0 else size
          let padded := (size + blockSize - 1) / blockSize * blockSize
          let content : Source :=
            { data := rest.take size, failure? := if rest.length < size then failure? else none }
          let marked := isUnixStandard header || isGnu header
          let kind := kind header
          if sizeLimit ≤ padded then [.error "size overflow"]
          else if marked && (kind = 'L' || kind = 'K' || kind = 'x') then
            let known :=
              if kind = 'L' then notes.longPath? else if kind = 'K' then notes.longLink?
              else notes.records?
            if known.isSome then [.error "two notes describing the same member"]
            else if content.failure?.isSome then stop ""
            else
              let notes :=
                if kind = 'L' then { notes with longPath? := some content.data }
                else if kind = 'K' then { notes with longLink? := some content.data }
                else { notes with records? := some content.data }
              entriesFrom failure? fuel notes padded rest
          else if kind = 'S' && !isGnu header then
            [.error "sparse entry type listed but not GNU header"]
          else
            let path := notes.path?.getD (headerPath header)
            .ok ⟨path, kind = '0' || kind = '\x00', size, content⟩ ::
              entriesFrom failure? fuel {} padded rest

/-- The entries of a tar file; each takes a block at least. -/
def entries (file : Source) : Listing String :=
  entriesFrom file.failure? (file.data.length / blockSize + 2) {} 0 file.data

end Mend.Archive.Tar
