import Mend.Archive.Bits

/-! Canonical codes, given by the lengths of their words. -/
namespace Mend.Archive

/-- The symbols of a code by the lengths of their words: first those with words of one bit, then
those with words of two bits, and so on, each in the order of the words. -/
abbrev Code := List (Array Nat)

namespace Code

/-- No word is longer. -/
def maxLength : Nat := 15

/-- The code whose symbol `n` has a word of the `n`-th length; no word where that is zero. -/
def ofLengths (lengths : List Nat) : Code :=
  (List.range maxLength).map fun n =>
    (lengths.zipIdx.filterMap fun (l, s) => if l = n + 1 then some s else none).toArray

/-- Words left unused among those of the greatest length, negative if too many are used. -/
def slack (c : Code) : Int :=
  c.foldl (fun left symbols => 2 * left - (symbols.size : Int)) 1

def symbolCount (c : Code) : Nat := c.foldl (fun count symbols => count + symbols.size) 0

/-- A code uses all words there are, unless it has one symbol at most. -/
def isFit (c : Code) : Bool := c.slack = 0 || c.symbolCount ≤ 1

/-- The next symbol. Of the words of each length the first `first` are longer words' beginnings or
shorter ones' continuations; `word` has been read so far. -/
def decodeFrom (word first : Nat) : Code → Bits → Except Damage (Nat × Bits)
  | [], _ => .error .corrupt
  | symbols :: longer, bits => do
    let (b, bits) ← bits.next
    let word := 2 * word + b
    let first := 2 * first
    match symbols[word - first]? with
    | some s => .ok (s, bits)
    | none => decodeFrom word (first + symbols.size) longer bits

def decode (c : Code) (bits : Bits) : Except Damage (Nat × Bits) := c.decodeFrom 0 0 bits

end Code
end Mend.Archive
