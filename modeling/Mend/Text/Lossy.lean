/-! Text from bytes that need not be valid: what is no character becomes a replacement character. -/
namespace Mend.Text

def replacement : Char := '\ufffd'

/-- The range of the second byte, the number of further bytes, and the value of the first byte, for
a first byte of more than one. -/
def leadByte? (b : Nat) : Option ((Nat × Nat) × Nat × Nat) :=
  if 0xc2 ≤ b && b ≤ 0xdf then some ((0x80, 0xbf), 1, b - 0xc0)
  else if b = 0xe0 then some ((0xa0, 0xbf), 2, 0)
  else if b = 0xed then some ((0x80, 0x9f), 2, 0xd)
  else if 0xe1 ≤ b && b ≤ 0xef then some ((0x80, 0xbf), 2, b - 0xe0)
  else if b = 0xf0 then some ((0x90, 0xbf), 3, 0)
  else if b = 0xf4 then some ((0x80, 0x8f), 3, 4)
  else if 0xf1 ≤ b && b ≤ 0xf3 then some ((0x80, 0xbf), 3, b - 0xf0)
  else none

/-- Read on after a first byte: `n` bytes are missing, of which the next is in a range. Bytes that
began a character which does not go on are replaced together. -/
def continued : Nat → Nat × Nat → Nat → List UInt8 → Char × List UInt8
  | 0, _, value, bs => (Char.ofNat value, bs)
  | _ + 1, _, _, [] => (replacement, [])
  | n + 1, (low, high), value, b :: bs =>
    if low ≤ b.toNat && b.toNat ≤ high then
      continued n (0x80, 0xbf) (value * 64 + b.toNat % 64) bs
    else (replacement, b :: bs)

/-- The characters of bytes; each takes one byte at least. -/
def decodeFrom : Nat → List UInt8 → List Char
  | 0, _ | _ + 1, [] => []
  | fuel + 1, b :: bs =>
    if b < 0x80 then Char.ofNat b.toNat :: decodeFrom fuel bs
    else
      match leadByte? b.toNat with
      | none => replacement :: decodeFrom fuel bs
      | some (second, n, value) =>
        let (c, rest) := continued n second value bs
        c :: decodeFrom fuel rest

def decodeLossy (bs : List UInt8) : String := String.ofList (decodeFrom bs.length bs)

end Mend.Text
