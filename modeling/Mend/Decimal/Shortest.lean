/-! The shortest decimal that a binary number is the nearest one to, found by exact arithmetic. -/
namespace Mend.Decimal

/-- The number `digits * 10 ^ exponent`. -/
structure Scaled where
  digits : Nat
  exponent : Int
deriving DecidableEq, Repr

/-- The number `mantissa * 2 ^ exponent`. `isPowerEdge` says that the next smaller number is only
half as far away as the next larger one. -/
structure Binary where
  mantissa : Nat
  exponent : Int
  isPowerEdge : Bool
deriving DecidableEq, Repr

namespace Binary

/-- Numerator and denominator of the number in units of `10 ^ e`. -/
def inUnits (b : Binary) (e : Int) : Nat × Nat :=
  (b.mantissa * Nat.pow 2 b.exponent.toNat * Nat.pow 10 (-e).toNat,
    Nat.pow 2 (-b.exponent).toNat * Nat.pow 10 e.toNat)

/-- Whether no binary number is nearer to `d * 10 ^ e`; a tie goes to the even mantissa. -/
def isNearestTo (b : Binary) (d : Nat) (e : Int) : Bool :=
  let unit := Nat.pow 2 b.exponent.toNat * Nat.pow 10 (-e).toNat
  let (_, den) := b.inUnits e
  let low := (4 * b.mantissa - (if b.isPowerEdge then 1 else 2)) * unit
  let high := (4 * b.mantissa + 2) * unit
  let x := 4 * d * den
  if b.mantissa % 2 = 0 then low ≤ x && x ≤ high else low < x && x < high

/-- The exponent of the first decimal digit, for a number from `10 ^ (-fuel)` on. -/
def leadingExponent (b : Binary) (fuel : Nat) : Int :=
  let (num, den) := b.inUnits 0
  if den ≤ num then ((toString (num / den)).length : Int) - 1
  else
    match (List.range fuel).find? fun k => den ≤ num * Nat.pow 10 (k + 1) with
    | some k => -((k : Int) + 1)
    | none => -(fuel : Int)

/-- The decimal with last digit at `10 ^ e` that stands for the number, if there is one: the nearer
one of its neighbours, and of two equally near the even one. -/
def onGrid? (b : Binary) (e : Int) : Option Scaled :=
  let (num, den) := b.inUnits e
  let d := num / den
  let below := b.isNearestTo d e
  let above := b.isNearestTo (d + 1) e
  let lower := 2 * num < (2 * d + 1) * den || (2 * num = (2 * d + 1) * den && d % 2 = 0)
  if below && (lower || !above) then some ⟨d, e⟩
  else if above then some ⟨d + 1, e⟩
  else none

/-- The decimal with the fewest digits; seventeen are always enough for a double. -/
def shortest (b : Binary) : Scaled :=
  let lead := b.leadingExponent 400
  ((List.range 17).findSome? fun (n : Nat) => b.onGrid? (lead - n)).getD ⟨0, 0⟩

end Binary

/-- The mantissa and exponent of a finite, positive double. -/
def Binary.ofBits (bits : UInt64) : Binary :=
  let fraction : Nat := bits.toNat % Nat.pow 2 52
  let power : Nat := (bits.toNat >>> 52) % Nat.pow 2 11
  if power = 0 then ⟨fraction, -1074, false⟩
  else ⟨fraction + Nat.pow 2 52, (power : Int) - 1075, fraction = 0 && 1 < power⟩

/-- Digits without the zeros they end in. -/
def stripZeros : Nat → Scaled → Scaled
  | 0, d => d
  | fuel + 1, d =>
    if d.digits % 10 = 0 && d.digits ≠ 0 then stripZeros fuel ⟨d.digits / 10, d.exponent + 1⟩ else d

end Mend.Decimal
