import Mend.Archive.Crc32
import Mend.Archive.Entry
import Mend.Archive.Inflate

/-! The first member of a gzip file: a header, compressed data, and a trailer to check it by. -/
namespace Mend.Archive.Gzip

def truncated : String := "unexpected end of gzip data"

def badHeader : String := "invalid gzip header"

def badData : String := "corrupt deflate stream"

def badChecksum : String := "corrupt gzip stream does not have a matching checksum"

/-- Skip a field that ends in a zero byte. -/
def skipText (bs : List UInt8) : Except String (List UInt8) :=
  match bs.dropWhile (· ≠ 0) with
  | [] => .error truncated
  | _ :: rest => .ok rest

/-- Skip a field that starts with its length. -/
def skipExtra : List UInt8 → Except String (List UInt8)
  | a :: b :: rest =>
    let n := little [a, b]
    if n ≤ rest.length then .ok (rest.drop n) else .error truncated
  | _ => .error truncated

/-- Skip a checksum of the header that came before it. -/
def skipChecksum (header : List UInt8) : List UInt8 → Except String (List UInt8)
  | a :: b :: rest =>
    if little [a, b] = (crc32 header).toNat % Nat.pow 2 16 then .ok rest else .error badChecksum
  | _ => .error truncated

/-- What follows the header. Its flags say which fields it has. -/
def skipHeader (file : List UInt8) : Except String (List UInt8) := do
  match file with
  | i :: d :: method :: flags :: _ :: _ :: _ :: _ :: _ :: _ :: rest =>
    let has := fun (n : Nat) => (flags.toNat >>> n) % 2 = 1
    if i ≠ 0x1f || d ≠ 0x8b || method ≠ 8 || Nat.pow 2 5 ≤ flags.toNat then .error badHeader
    else
      let rest ← if has 2 then skipExtra rest else .ok rest
      let rest ← if has 3 then skipText rest else .ok rest
      let rest ← if has 4 then skipText rest else .ok rest
      if has 1 then skipChecksum (file.take (file.length - rest.length)) rest else .ok rest
  | _ => .error truncated

/-- What is wrong with a trailer of some bytes, if anything. -/
def trailerFault? (bytes : List UInt8) (rest : List UInt8) : Option String :=
  if rest.length < 8 then some truncated
  else if little (rest.take 4) = (crc32 bytes).toNat &&
    little ((rest.drop 4).take 4) = bytes.length % Nat.pow 2 32 then none
  else some badChecksum

/-- The data in a gzip file. -/
def unpack (file : List UInt8) : Source :=
  match skipHeader file with
  | .error reason => { data := [], failure? := some reason }
  | .ok rest =>
    let r := inflate rest
    let failure? :=
      match r.ending with
      | .error .truncated => some truncated
      | .error .corrupt => some badData
      | .ok rest => trailerFault? r.bytes rest
    { data := r.bytes, failure? }

end Mend.Archive.Gzip
