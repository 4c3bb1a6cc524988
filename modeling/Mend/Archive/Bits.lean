/-! Numbers from the bits of bytes, the lowest bit first. -/
namespace Mend.Archive

/-- What is wrong with compressed data: it stops too early, or it makes no sense. -/
inductive Damage
  | truncated
  | corrupt
deriving DecidableEq

/-- Bits still to be read: those of some bytes but for the first `used` of the first byte. -/
structure Bits where
  bytes : List UInt8
  used : Nat := 0

namespace Bits

def next : Bits → Except Damage (Nat × Bits)
  | ⟨[], _⟩ => .error .truncated
  | ⟨b :: bs, used⟩ =>
    .ok ((b.toNat >>> used) % 2, if used < 7 then ⟨b :: bs, used + 1⟩ else ⟨bs, 0⟩)

/-- The number in the next `n` bits. -/
def take : Nat → Bits → Except Damage (Nat × Bits)
  | 0, bits => .ok (0, bits)
  | n + 1, bits => do
    let (b, bits) ← bits.next
    let (high, bits) ← take n bits
    .ok (b + 2 * high, bits)

/-- The bytes from the next whole one on. -/
def align (bits : Bits) : List UInt8 :=
  if bits.used = 0 then bits.bytes else bits.bytes.drop 1

end Bits
end Mend.Archive
