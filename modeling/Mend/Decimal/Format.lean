import Mend.Decimal.Shortest

/-! Writing decimals, positionally or with an exponent. -/
namespace Mend.Decimal

/-- How a decimal is written: exponents of the first digit from `least` to `most` are written
positionally, others behind an `e` with their sign and at least `exponentDigits` digits. -/
structure Format where
  least : Int
  most : Int
  exponentDigits : Nat

def zeros (n : Nat) : List Char := List.replicate n '0'

def digitsOf (n : Nat) : List Char := Nat.toDigits 10 n

/-- Positional digits always have a point with a digit on either side. -/
def positional (digits : List Char) (exponent : Int) : List Char :=
  let whole := digits.length + exponent
  if 0 ≤ exponent then digits ++ zeros exponent.toNat ++ ['.', '0']
  else if 0 < whole then digits.take whole.toNat ++ '.' :: digits.drop whole.toNat
  else '0' :: '.' :: zeros (-whole).toNat ++ digits

def scientific (f : Format) (digits : List Char) (lead : Int) : List Char :=
  let fraction :=
    match digits with
    | d :: e :: rest => d :: '.' :: e :: rest
    | _ => digits
  let power := digitsOf lead.natAbs
  fraction ++ 'e' :: (if lead < 0 then '-' else '+') ::
    zeros (f.exponentDigits - power.length) ++ power

/-- A decimal without trailing zeros as text. -/
def Format.write (f : Format) (d : Scaled) : List Char :=
  let digits := digitsOf d.digits
  let lead := d.exponent + digits.length - 1
  if d.digits = 0 then ['0', '.', '0']
  else if f.least ≤ lead && lead ≤ f.most then positional digits d.exponent
  else scientific f digits lead

/-- The shortest text of a finite double. -/
def Format.writeDouble (f : Format) (x : Float) : List Char :=
  let bits := x.toBits
  let sign := if bits.toNat >>> 63 = 1 then ['-'] else []
  let b := Binary.ofBits bits
  sign ++ f.write (if b.mantissa = 0 then ⟨0, 0⟩ else stripZeros 400 b.shortest)

end Mend.Decimal
