/-! The checksum of gzip and zip: the remainder of a text as a polynomial over two elements. -/
namespace Mend.Archive

/-- The polynomial that remainders are taken by, its lowest power last. -/
def crcPolynomial : UInt32 := 0xedb88320

/-- `n` steps of the division. -/
def crcShift : Nat → UInt32 → UInt32
  | 0, c => c
  | n + 1, c => crcShift n (if c &&& 1 = 1 then (c >>> 1) ^^^ crcPolynomial else c >>> 1)

def crcByte (c : UInt32) (b : UInt8) : UInt32 := crcShift 8 (c ^^^ b.toUInt32)

/-- The remainder when `n` is left of the bytes before. Matching on it has each step worked out
before the next one. -/
def crcFrom : Nat → List UInt8 → UInt32
  | n, [] => UInt32.ofNat n
  | 0, b :: bs => crcFrom (crcByte 0 b).toNat bs
  | n + 1, b :: bs => crcFrom (crcByte (UInt32.ofNat (n + 1)) b).toNat bs

def crc32 (bs : List UInt8) : UInt32 := crcFrom 0xffffffff bs ^^^ 0xffffffff

/-- The checksum of the nine digits. -/
example : crc32 [49, 50, 51, 52, 53, 54, 55, 56, 57] = 0xcbf43926 := by
  decide +kernel

end Mend.Archive
