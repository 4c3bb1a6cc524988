import Mend.Proofs.Lines
import Mend.Proofs.Splice

/-! Edits that each stay within a line. They apply line by line: what they make of the text is, one
after the other, what they make of its lines. -/
namespace Mend.Document

variable {d : Document} {edits : Nat → List Edit} {new : List Char → Nat → List Char}

/-- The induction is on the lines from line `k` on. -/
lemma splice_linesFrom
    (h : ∀ l line, d.lines[l]? = some line →
      Edit.Fits (Text.startOf d.lines l) (Text.startOf d.lines (l + 1)) (edits l) ∧
        Edit.splice line (Text.startOf d.lines l) (edits l) = new line l)
    {ls : List (List Char)} {k : Nat} (hls : d.lines.drop k = ls) :
    Edit.Fits (Text.startOf d.lines k) d.length ((List.range' k ls.length).flatMap edits) ∧
      Edit.splice ls.flatten (Text.startOf d.lines k)
          ((List.range' k ls.length).flatMap edits) =
        (ls.zipIdx k).flatMap fun x => new x.1 x.2 := by
  induction ls generalizing k with
  | nil =>
    have hle := Text.startOf_le d.lines k
    rw [flatten_lines] at hle
    exact ⟨hle, rfl⟩
  | cons line rest ih =>
    have hget : d.lines[k]? = some line := by
      rw [← List.head?_drop, hls, List.head?_cons]
    have hrest : d.lines.drop (k + 1) = rest := by
      rw [← List.drop_drop, hls, List.drop_one, List.tail_cons]
    obtain ⟨hfits, hnew⟩ := h k line hget
    obtain ⟨hfits', hnew'⟩ := ih hrest
    have hstart := Text.startOf_succ hget
    have hlen : Text.startOf d.lines (k + 1) - Text.startOf d.lines k = line.length := by omega
    rw [List.length_cons, List.range'_succ, List.flatMap_cons]
    refine ⟨hfits.append hfits', ?_⟩
    rw [List.flatten_cons, Edit.splice_append hfits hfits' _ (by simp; omega), hlen,
      List.take_left, List.drop_left, hnew, hnew']
    rfl

/-- The edits of one line after those of the other fit the document, and they leave of every line
what they make of it. -/
theorem splice_lines (edits : Nat → List Edit) (new : List Char → Nat → List Char)
    (h : ∀ l line, d.lines[l]? = some line →
      Edit.Fits (Text.startOf d.lines l) (Text.startOf d.lines (l + 1)) (edits l) ∧
        Edit.splice line (Text.startOf d.lines l) (edits l) = new line l) :
    Edit.splice d.chars 0 ((List.range d.lineCount).flatMap edits) =
      d.lines.zipIdx.flatMap fun x => new x.1 x.2 := by
  have hall := (splice_linesFrom h (k := 0) List.drop_zero).2
  rwa [flatten_lines, Text.startOf_zero, ← List.range_eq_range'] at hall

end Mend.Document
