import Mend.Archive.Huffman

/-! Compressed blocks: literals and copies of what came before, in words of canonical codes. -/
namespace Mend.Archive

/-- Decompression under way: the bits left, and the bytes so far with the last one first. -/
structure Inflate where
  bits : Bits
  out : List UInt8

namespace Inflate

/-- Bases and extra bits of copy lengths, from the symbol 257 on. -/
def lengthTable : Array (Nat × Nat) := #[
  (3, 0), (4, 0), (5, 0), (6, 0), (7, 0), (8, 0), (9, 0), (10, 0), (11, 1), (13, 1), (15, 1),
  (17, 1), (19, 2), (23, 2), (27, 2), (31, 2), (35, 3), (43, 3), (51, 3), (59, 3), (67, 4), (83, 4),
  (99, 4), (115, 4), (131, 5), (163, 5), (195, 5), (227, 5), (258, 0)]

/-- Bases and extra bits of copy distances. -/
def distanceTable : Array (Nat × Nat) := #[
  (1, 0), (2, 0), (3, 0), (4, 0), (5, 1), (7, 1), (9, 2), (13, 2), (17, 3), (25, 3), (33, 4),
  (49, 4), (65, 5), (97, 5), (129, 6), (193, 6), (257, 7), (385, 7), (513, 8), (769, 8), (1025, 9),
  (1537, 9), (2049, 10), (3073, 10), (4097, 11), (6145, 11), (8193, 12), (12289, 12), (16385, 13),
  (24577, 13)]

/-- A number given by the row of a table and extra bits. -/
def extended (table : Array (Nat × Nat)) (row : Nat) (bits : Bits) :
    Except Damage (Nat × Bits) :=
  match table[row]? with
  | none => .error .corrupt
  | some (base, extra) => do
    let (n, bits) ← bits.take extra
    .ok (base + n, bits)

/-- `n` bytes of a text over and over, put in front of `out`; `rest` is left of this turn. -/
def repeated (whole : List UInt8) : Nat → List UInt8 → List UInt8 → List UInt8
  | 0, _, out => out
  | n + 1, b :: rest, out => repeated whole n rest (b :: out)
  | n + 1, [], out =>
    match whole with
    | [] => out
    | b :: rest => repeated whole n rest (b :: out)

/-- A copy of the `length` bytes that start `distance` bytes back; those before the first byte are
zero. -/
def copyBack (length distance : Nat) (out : List UInt8) : List UInt8 :=
  let window := (out.take distance).reverse
  let window := List.replicate (distance - window.length) 0 ++ window
  repeated window length window out

/-- One symbol of a block: whether more follow, and what there is after it. -/
def symbol (literals distances : Code) (s : Inflate) : Except Damage (Bool × Inflate) := do
  let (symbol, bits) ← literals.decode s.bits
  if symbol < 256 then .ok (true, ⟨bits, UInt8.ofNat symbol :: s.out⟩)
  else if symbol = 256 then .ok (false, ⟨bits, s.out⟩)
  else
    let (length, bits) ← extended lengthTable (symbol - 257) bits
    let (row, bits) ← distances.decode bits
    let (distance, bits) ← extended distanceTable row bits
    .ok (true, ⟨bits, copyBack length distance s.out⟩)

/-- The symbols of a block up to its end mark. The bytes so far are kept also where the block is
damaged. -/
def symbols (literals distances : Code) : Nat → Inflate → Except Damage Unit × Inflate
  | 0, s => (.error .truncated, s)
  | fuel + 1, s =>
    match symbol literals distances s with
    | .error e => (.error e, s)
    | .ok (true, s) => symbols literals distances fuel s
    | .ok (false, s) => (.ok (), s)

/-- The codes of blocks that do not bring their own. -/
def fixedCodes : Code × Code :=
  (.ofLengths (List.replicate 144 8 ++ List.replicate 112 9 ++ List.replicate 24 7 ++
    List.replicate 8 8), .ofLengths (List.replicate 30 5))

/-- The order in which the lengths of the code for code lengths are written. -/
def lengthOrder : List Nat := [16, 17, 18, 0, 8, 7, 9, 6, 10, 5, 11, 4, 12, 3, 13, 2, 14, 1, 15]

/-- `n` numbers of `width` bits. -/
def numbers (width : Nat) : Nat → Bits → Except Damage (List Nat × Bits)
  | 0, bits => .ok ([], bits)
  | n + 1, bits => do
    let (a, bits) ← bits.take width
    let (as, bits) ← numbers width n bits
    .ok (a :: as, bits)

/-- Code lengths until there are `total`, the last one first. Three symbols repeat a length. -/
def codeLengths (code : Code) (total : Nat) :
    Nat → List Nat → Bits → Except Damage (List Nat × Bits)
  | 0, _, _ => .error .truncated
  | fuel + 1, lengths, bits => do
    if total ≤ lengths.length then
      if total = lengths.length then .ok (lengths, bits) else .error .corrupt
    else
      let (symbol, bits) ← code.decode bits
      if symbol < 16 then codeLengths code total fuel (symbol :: lengths) bits
      else if symbol = 16 then
        match lengths with
        | [] => .error .corrupt
        | l :: _ =>
          let (n, bits) ← bits.take 2
          codeLengths code total fuel (List.replicate (3 + n) l ++ lengths) bits
      else
        let (base, width) := if symbol = 17 then (3, 3) else (11, 7)
        let (n, bits) ← bits.take width
        codeLengths code total fuel (List.replicate (base + n) 0 ++ lengths) bits

/-- The codes that a block brings. -/
def ownCodes (bits : Bits) : Except Damage ((Code × Code) × Bits) := do
  let (literals, bits) ← bits.take 5
  let (distances, bits) ← bits.take 5
  let (count, bits) ← bits.take 4
  let (literals, distances) := (literals + 257, distances + 1)
  if 286 < literals || 30 < distances then .error .corrupt
  let (given, bits) ← numbers 3 (count + 4) bits
  let lengths := (List.range 19).map fun n => ((lengthOrder.zip given).lookup n).getD 0
  let code := Code.ofLengths lengths
  if !code.isFit then .error .corrupt
  let total := literals + distances
  let (lengths, bits) ← codeLengths code total (total + 1) [] bits
  let lengths := lengths.reverse
  let literals := Code.ofLengths (lengths.take literals)
  let distances := Code.ofLengths (lengths.drop (total - distances))
  if literals.isFit && distances.isFit then .ok ((literals, distances), bits) else .error .corrupt

/-- A block that is not compressed: its length, the length's complement, and its bytes. -/
def stored (s : Inflate) : Except Damage Unit × Inflate :=
  match s.bits.align with
  | a :: b :: c :: d :: rest =>
    let length := a.toNat + 256 * b.toNat
    if length + (c.toNat + 256 * d.toNat) = 0xffff then
      let out := (rest.take length).reverse ++ s.out
      (if length ≤ rest.length then .ok () else .error .truncated, ⟨⟨rest.drop length, 0⟩, out⟩)
    else (.error .corrupt, s)
  | _ => (.error .truncated, s)

/-- Block after block up to the one that is marked as the last; each takes three bits at least. -/
def blocks : Nat → Inflate → Except Damage Unit × Inflate
  | 0, s => (.error .truncated, s)
  | fuel + 1, s =>
    let header : Except Damage ((Nat × Nat) × Bits) := do
      let (last, bits) ← s.bits.take 1
      let (form, bits) ← bits.take 2
      .ok ((last, form), bits)
    match header with
    | .error e => (.error e, s)
    | .ok ((last, form), bits) =>
      let s := { s with bits }
      let coded := fun (codes : Code × Code) (s : Inflate) =>
        symbols codes.1 codes.2 (8 * s.bits.bytes.length + 1) s
      let (result, s) :=
        if form = 0 then stored s
        else if form = 1 then coded fixedCodes s
        else if form = 2 then
          match ownCodes bits with
          | .error e => (.error e, s)
          | .ok (codes, bits) => coded codes { s with bits }
        else (.error .corrupt, s)
      match result with
      | .error e => (.error e, s)
      | .ok () => if last = 1 then (.ok (), s) else blocks fuel s

end Inflate

/-- What compressed data holds: its bytes as far as they can be had, and either the data behind it
or what is wrong with it. -/
structure Inflated where
  bytes : List UInt8
  ending : Except Damage (List UInt8)

/-- Bytes come out in batches of this size. -/
def batchSize : Nat := 32768

/-- Decompress data. A batch in which it turns out to be corrupt is lost. -/
def inflate (data : List UInt8) : Inflated :=
  match Inflate.blocks (8 * data.length + 1) ⟨⟨data, 0⟩, []⟩ with
  | (.ok (), s) => ⟨s.out.reverse, .ok s.bits.align⟩
  | (.error .truncated, s) => ⟨s.out.reverse, .error .truncated⟩
  | (.error .corrupt, s) =>
    ⟨s.out.reverse.take (s.out.length / batchSize * batchSize), .error .corrupt⟩

end Mend.Archive
