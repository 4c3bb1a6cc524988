import Mend.Text.Edit

/-! Fixes are descriptions: nothing is changed until a candidate is applied. -/
namespace Mend

/-- What taking up a candidate does. -/
inductive Action
  | edits (edits : List Edit)
  | rename (span : Span) (newName : String)
  | introduceConstant (span : Span) (literal : String)
  | openExplanation (url : String)
  | openSettings (page : String)
deriving DecidableEq, Repr

structure Candidate where
  label : String
  action : Action
deriving DecidableEq, Repr

def Candidate.edits? (c : Candidate) : Option (List Edit) :=
  match c.action with
  | .edits es => some es
  | _ => none

/-- The candidates for one finding, of which there may be none, and what to highlight. -/
structure Resolution where
  candidates : List Candidate
  highlight? : Option Span
deriving DecidableEq, Repr

namespace Resolution

def none : Resolution := ⟨[], .none⟩

def single (c : Candidate) (highlight? : Option Span) : Resolution := ⟨[c], highlight?⟩

def highlightOnly (highlight? : Option Span) : Resolution := ⟨[], highlight?⟩

/-- One candidate if there is one, and the highlight in any case. -/
def ofCandidate? (c? : Option Candidate) (highlight? : Option Span) : Resolution :=
  ⟨c?.toList, highlight?⟩

def hasFix (r : Resolution) : Bool := !r.candidates.isEmpty

end Resolution

/-- Why a finding cannot be resolved at all; that there is no fix is not an error. -/
inductive FixError
  | missingLineRange (rule : String)
deriving DecidableEq, Repr

def FixError.message : FixError → String
  | missingLineRange rule => s!"diagnostic for rule '{rule}' is missing its line range"

end Mend
