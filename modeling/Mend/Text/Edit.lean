import Mend.Text.Document

/-! Text edits. A list of edits says what replaces which spans of one document; the edits apply
all at once, in the order of their spans, and those that insert at one place keep their order. -/
namespace Mend

/-- What replaces a span; an empty span makes it an insertion and an empty text a deletion. -/
structure Edit where
  span : Span
  newText : String
deriving DecidableEq, Repr

/-- Why a list of edits does not apply. -/
inductive EditError
  | outOfRange (span : Span) (length : Nat)
  | overlap (offset : Nat)
deriving DecidableEq, Repr

namespace EditError

def message : EditError → String
  | outOfRange s length =>
    s!"edit range {s.start}..{s.stop} is outside the document ({length} chars)"
  | overlap offset => s!"edits overlap at offset {offset}"

end EditError

namespace Edit

def insert (offset : Nat) (newText : String) : Edit := ⟨Span.point offset, newText⟩

def delete (span : Span) : Edit := ⟨span, ""⟩

/-- The order in which edits apply: by start, and by end where the starts agree. -/
def le (a b : Edit) : Bool :=
  a.span.start < b.span.start || (a.span.start = b.span.start && a.span.stop ≤ b.span.stop)

/-- The first edit of a sorted list that reaches into its successor, by the place it reaches. -/
def overlap? : List Edit → Option Nat
  | a :: b :: rest => if b.span.start < a.span.stop then some b.span.start else overlap? (b :: rest)
  | _ => none

/-- The text from an offset on with a sorted list of edits applied; `cs` is that text before. -/
def splice (cs : List Char) (offset : Nat) : List Edit → List Char
  | [] => cs
  | e :: rest =>
    cs.take (e.span.start - offset) ++ e.newText.toList ++
      splice (cs.drop (e.span.stop - offset)) e.span.stop rest

end Edit

namespace Document

/-- The document's text after a list of edits, all of which address this document. -/
def edited (d : Document) (edits : List Edit) : Except EditError (List Char) :=
  let sorted := edits.mergeSort Edit.le
  match sorted.find? fun e => !decide (e.span.Within d.length) with
  | some e => .error (.outOfRange e.span d.length)
  | none =>
    match Edit.overlap? sorted with
    | some offset => .error (.overlap offset)
    | none => .ok (Edit.splice d.chars 0 sorted)

def apply (d : Document) (edits : List Edit) : Except EditError Document :=
  (d.edited edits).map Document.mk

@[simp] theorem edited_nil (d : Document) : d.edited [] = .ok d.chars := by
  simp [edited, Edit.overlap?, Edit.splice]

end Document
end Mend
