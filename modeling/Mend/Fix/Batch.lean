import Mend.Fix.Strategy

/-! Resolving many findings at once, and applying what was found from the end of the document
backwards, so that places known from the document as it was stay valid. -/
namespace Mend

/-- A finding with what can be done about it. -/
structure Inspection where
  diagnostic : Diagnostic
  resolution : Resolution
deriving DecidableEq, Repr

/-- Resolve findings, each at its document line. A finding that cannot be resolved is left out. -/
def inspect {ν : Type} (t : Tree ν) (d : Document) (findings : List (Diagnostic × Nat)) :
    List Inspection :=
  findings.filterMap fun (diag, line) =>
    match (Site.mk t d diag line).resolve with
    | .ok r => some ⟨diag, r⟩
    | .error _ => none

namespace Edit

/-- The smallest span around all edits of a list. -/
def extent : List Edit → Span
  | [] => ⟨0, 0⟩
  | [e] => e.span
  | e :: rest => ⟨min e.span.start (extent rest).start, max e.span.stop (extent rest).stop⟩

/-- Order of lists of edits by their extents, the one furthest to the end first. -/
def extentGe (a b : List Edit) : Bool :=
  let s := extent a
  let t := extent b
  t.start < s.start || (t.start = s.start && t.stop ≤ s.stop)

end Edit

/-- The edits of the first candidate that has any to offer. -/
def Resolution.firstEdits? (r : Resolution) : Option (List Edit) :=
  (r.candidates.findSome? Candidate.edits?).filter fun es => !es.isEmpty

/-- Edits applied so far; none of them reaches in front of `floor`. `taken` lists the candidates
that were applied, the last one first, which is the order of their places. -/
structure Application where
  document : Document
  floor : Nat
  taken : List (List Edit)
  skipped : Nat
deriving Repr

namespace Application

def start (d : Document) : Application := ⟨d, d.length, [], 0⟩

/-- The number of candidates applied. -/
def applied (a : Application) : Nat := a.taken.length

/-- Apply one candidate, or skip it if it reaches into text that has changed already. -/
def step (a : Application) (edits : List Edit) : Except EditError Application :=
  let s := Edit.extent edits
  if a.floor < s.stop then .ok { a with skipped := a.skipped + 1 }
  else
    match a.document.apply edits with
    | .ok d => .ok { a with document := d, floor := s.start, taken := edits :: a.taken }
    | .error e => .error e

def run (a : Application) : List (List Edit) → Except EditError Application
  | [] => .ok a
  | es :: rest =>
    match a.step es with
    | .ok b => run b rest
    | .error e => .error e

end Application

/-- The first edits of every resolution that has any, the candidate furthest to the end first. -/
def pendingEdits (resolutions : List Resolution) : List (List Edit) :=
  (resolutions.filterMap Resolution.firstEdits?).mergeSort Edit.extentGe

/-- Apply the first edits of every resolution. -/
def applyFixes (d : Document) (resolutions : List Resolution) : Except EditError Application :=
  (Application.start d).run (pendingEdits resolutions)

end Mend
