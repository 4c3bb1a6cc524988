/-! What an analyser reports. Its lines and columns count from one, and column zero says that no
column is known; documents count from zero. -/
namespace Mend

/-- The largest line number an analyser can report. -/
def maxLine : Nat := Nat.pow 2 64 - 1

/-- The lines from `first` to `last`, both included. -/
structure LineRange where
  first : Nat
  last : Nat
deriving DecidableEq, Repr

/-- A line number moved by `shift` lines, held within the numbers there are. -/
def shiftLine (line : Nat) (shift : Int) : Nat := min (line + shift).toNat maxLine

def LineRange.shifted (r : LineRange) (shift : Int) : LineRange :=
  ⟨shiftLine r.first shift, shiftLine r.last shift⟩

/-- One finding: which rule it breaks, what is said about it, and where. -/
structure Diagnostic where
  rule : String
  message : String
  file : String
  line : Nat
  column : Nat
  lineRange? : Option LineRange
  source : String
deriving DecidableEq, Repr

namespace Diagnostic

/-- The line of an unedited document that the finding is about. -/
def documentLine (d : Diagnostic) : Nat := d.line - 1

/-- How far the finding has moved once it is about document line `line`: the difference as a signed
64-bit word. -/
def lineShift (d : Diagnostic) (line : Nat) : Int := ((line : Int) - d.line).bmod (Nat.pow 2 64)

/-- The reported lines as lines of the document in which the finding is about line `line`. -/
def shiftedRange? (d : Diagnostic) (line : Nat) : Option LineRange :=
  d.lineRange?.map (·.shifted (d.lineShift line))

end Diagnostic
end Mend
