import Mend.Fix.Layout
import Mend.Fix.MissingCases
import Mend.Fix.Suppression
import Mend.Proofs.LineFeeds

/-! A document below whole lines that are put in front of it: its lines are those of the document,
only their numbers and places are moved. -/
namespace Mend

namespace Text

lemma startOf_append (ls ms : List (List Char)) (l : Nat) :
    startOf (ls ++ ms) (l + ls.length) = startOf ms l + ls.flatten.length := by
  rw [startOf, Nat.add_comm l, List.take_length_add_append, List.flatten_append, List.length_append,
    Nat.add_comm]
  rfl

/-- Behind the lines in front, an offset is on the line where it is without them. -/
lemma positionIn_append {ms : List (List Char)} (hms : ms ≠ []) (ls : List (List Char)) (o : Nat) :
    positionIn (ls ++ ms) (o + ls.flatten.length) =
      ((positionIn ms o).1 + ls.length, (positionIn ms o).2) := by
  induction ls with
  | nil => rfl
  | cons l ls ih =>
    obtain ⟨m, rest, hm⟩ := List.exists_cons_of_ne_nil (by simp [hms] : ls ++ ms ≠ [])
    have hoff : o + (l :: ls).flatten.length - l.length = o + ls.flatten.length := by
      simp only [List.flatten_cons, List.length_append]
      omega
    have hlt : ¬ o + (l :: ls).flatten.length < l.length := by
      simp only [List.flatten_cons, List.length_append]
      omega
    rw [List.cons_append, hm, positionIn, if_neg hlt, hoff, ← hm, ih]
    · simp [Nat.add_assoc]
    · simp

end Text

/-- The same edit of a document that has `n` more characters in front. -/
def Edit.shift (n : Nat) (e : Edit) : Edit := ⟨e.span.shift n, e.newText⟩

@[simp] lemma Edit.shift_insert (n o : Nat) (t : String) :
    (Edit.insert o t).shift n = .insert (o + n) t := rfl

namespace Document

/-- The document with a text in front of it. -/
def below (d : Document) (a : List Char) : Document := ⟨a ++ d.chars⟩

variable {a : List Char} {k : Nat} (d : Document) (l : Nat)

/-- The text in front of a document is `k` whole lines. -/
structure WholeLines (a : List Char) (k : Nat) : Prop where
  closed : Text.Closed a
  length_lines : (Text.lines a).length = k + 1

section

variable (h : WholeLines a k)

include h

lemma WholeLines.split : ∃ ls, ls.length = k ∧ ls.flatten = a ∧
    ∀ d : Document, (d.below a).lines = ls ++ d.lines := by
  obtain ⟨ls, hls, happ⟩ := Text.lines_append h.closed
  refine ⟨ls, ?_, by simpa [hls] using Text.flatten_lines a, fun d => happ d.chars⟩
  have := h.length_lines
  rw [hls] at this
  simpa using this

lemma lineCount_below : (d.below a).lineCount = d.lineCount + k := by
  obtain ⟨ls, hlen, _, hls⟩ := h.split
  simp [lineCount, hls, hlen, Nat.add_comm]

theorem lineStart?_below :
    (d.below a).lineStart? (l + k) = (d.lineStart? l).map (· + a.length) := by
  obtain ⟨ls, hlen, hflat, hls⟩ := h.split
  have hstart := Text.startOf_append ls d.lines l
  rw [hlen, hflat] at hstart
  unfold lineStart?
  rw [lineCount_below d h, hls, hstart]
  by_cases hl : l < d.lineCount <;> simp [hl]

theorem lineText?_below : (d.below a).lineText? (l + k) = d.lineText? l := by
  obtain ⟨ls, hlen, _, hls⟩ := h.split
  have hget : (ls ++ d.lines)[l + k]? = d.lines[l]? := by
    rw [List.getElem?_append_right (by omega), hlen, Nat.add_sub_cancel]
  simp only [lineText?, hls, hget]

theorem lineIndent_below : (d.below a).lineIndent (l + k) = d.lineIndent l := by
  simp only [lineIndent, lineText?_below d l h]

theorem lineStop?_below :
    (d.below a).lineStop? (l + k) = (d.lineStop? l).map (· + a.length) := by
  simp only [lineStop?, lineStart?_below d l h, lineText?_below d l h]
  cases d.lineStart? l with
  | none => rfl
  | some start =>
    cases d.lineText? l with
    | none => rfl
    | some line => simp [Nat.add_right_comm]

theorem lineSpan?_below :
    (d.below a).lineSpan? (l + k) = (d.lineSpan? l).map (·.shift a.length) := by
  simp only [lineSpan?, lineStart?_below d l h, lineStop?_below d l h]
  cases d.lineStart? l <;> cases d.lineStop? l <;> rfl

theorem position_below (o : Nat) :
    (d.below a).position (o + a.length) = ((d.position o).1 + k, (d.position o).2) := by
  obtain ⟨ls, hlen, hflat, hls⟩ := h.split
  have hne : d.lines ≠ [] := List.ne_nil_of_length_pos d.lineCount_pos
  have := Text.positionIn_append hne ls o
  rwa [hflat, hlen, ← hls] at this

theorem offset_below (column : Nat) :
    (d.below a).offset (l + k) column = d.offset l column + a.length := by
  simp only [offset, lineSpan?_below d l h]
  cases d.lineSpan? l with
  | none => simp [length, below, Nat.add_comm]
  | some s =>
    simp only [Option.map_some, Span.start_shift, Span.stop_shift]
    omega

theorem directiveAbove?_below (linter : String) :
    (d.below a).directiveAbove? (l + k) linter =
      (d.directiveAbove? l linter).map (Edit.shift a.length) := by
  simp only [directiveAbove?, lineStart?_below d l h, lineIndent_below d l h, Option.map_map]
  rfl

theorem appendClause?_below (brace : Nat) (clause : String) :
    (d.below a).appendClause? (brace + a.length) clause =
      (d.appendClause? brace clause).map (Edit.shift a.length) := by
  simp only [appendClause?, position_below d h, lineIndent_below d _ h, lineStart?_below d _ h]
  split
  · simp only [Option.map_map]
    rfl
  · rfl

theorem deleteEmptyLine?_below :
    (d.below a).deleteEmptyLine? (l + k) = (d.deleteEmptyLine? l).map (Edit.shift a.length) := by
  have hnext := lineStart?_below d (l + 1) h
  rw [Nat.add_right_comm] at hnext
  simp only [deleteEmptyLine?, lineSpan?_below d l h, hnext]
  cases d.lineSpan? l with
  | none => rfl
  | some s =>
    cases d.lineStart? (l + 1) with
    | none => rfl
    | some next =>
      by_cases hempty : s.start = s.stop <;> simp [hempty, Edit.shift, Edit.delete, Span.shift]

theorem linesIn_below (r : LineRange) :
    (d.below a).linesIn ⟨r.first + k, r.last + k⟩ = (d.linesIn r).map (· + k) := by
  have hfront : (List.range k).filter (fun l => r.first + k ≤ l && l ≤ r.last + k) = [] := by
    rw [List.filter_eq_nil_iff]
    intro l hl
    have := List.mem_range.1 hl
    simp
    omega
  simp only [linesIn, lineCount_below d h]
  rw [Nat.add_comm d.lineCount k, List.range_add, List.filter_append, hfront, List.nil_append,
    List.filter_map, funext fun l => Nat.add_comm k l]
  congr 1
  refine List.filter_congr fun l _ => ?_
  simp

theorem rangeSpan?_below (r : LineRange) :
    (d.below a).rangeSpan? ⟨r.first + k, r.last + k⟩ = (d.rangeSpan? r).map (·.shift a.length) := by
  simp only [rangeSpan?, lineStart?_below d _ h, lineStop?_below d _ h]
  cases d.lineStart? r.first with
  | none => rfl
  | some start =>
    cases d.lineStop? r.last with
    | none => rfl
    | some stop => by_cases hle : start ≤ stop <;> simp [hle, Span.shift]

/-- In front of the document is the end of a line. -/
lemma not_brace_below {o : Nat} (ho : o < a.length) (hlast : a.length ≤ o + 1) :
    (d.below a).char? o ≠ some '\x7d' := by
  have hne : a ≠ [] := List.ne_nil_of_length_pos (by omega)
  have hget : a[o]? = some '\n' := by
    rw [← h.closed.resolve_left hne, List.getLast?_eq_getElem?]
    congr 1
    omega
  rw [char?, below, List.getElem?_append_left ho, hget]
  decide

end

theorem char?_below (o : Nat) : (d.below a).char? (o + a.length) = d.char? o := by
  rw [char?, char?, below, List.getElem?_append_right (by omega), Nat.add_sub_cancel]

end Document
end Mend
