import Mend.Proofs.Positions
import Mend.Syntax.Locate

/-! Where findings are looked for. A column that the line does not reach is cut at the end of the
line, so that the place is on that line, unless the line ends with a terminator that counts as
text. -/
namespace Mend

namespace Text

variable {line : List Char}

lemma length_indent_le (line : List Char) : (indent line).length ≤ (content line).length := by
  induction line with
  | nil => exact Nat.le_refl _
  | cons c line ih =>
    by_cases hc : c = ' ' ∨ c = '\t'
    · have hbreak : isLineBreak c = false := by rcases hc with rfl | rfl <;> decide
      simpa [indent, content, hc, hbreak] using ih
    · simp [indent, hc]

end Text

namespace Document

variable {d : Document} {l k : Nat} {line : List Char}

/-- In front of its terminator a line has all its columns. -/
lemma position_of_le_content (h : d.lines[l]? = some line) (hk : k ≤ (Text.content line).length) :
    d.position (Text.startOf d.lines l + k) = (l, k) := by
  have hlen := Text.length_content_add_terminator line
  refine Text.positionIn_startOf_add h ?_
  rcases Text.terminator_of_lines h with ⟨ht, hlast⟩ | ⟨ht | ⟨c, -, ht⟩, -⟩
  · exact .inr ⟨hlast, by omega⟩
  · rw [ht, List.length_cons] at hlen
    exact .inl (by omega)
  · rw [ht, List.length_singleton] at hlen
    exact .inl (by omega)

/-- A column past the end of its line is cut there; if the terminator counts as text, it is cut
behind that, which is where the next line starts. -/
theorem position_offset (h : d.lines[l]? = some line) (c : Nat) :
    d.position (d.offset l c) =
      if Text.EndsOddly line ∧ (Text.content line).length < c then (l + 1, 0)
      else (l, min c (Text.content line).length) := by
  have hlen := Text.length_content_add_terminator line
  rw [offset_of_line h]
  by_cases hodd : Text.EndsOddly line
  · obtain ⟨hbare, e, ht, -⟩ := Text.bareLine_of_endsOddly h hodd
    rw [ht, List.length_singleton] at hlen
    rw [hbare]
    by_cases hc : (Text.content line).length < c
    · have hnext : l + 1 < d.lines.length := by
        rcases Text.terminator_of_lines h with ⟨hnil, -⟩ | ⟨-, hnext⟩
        · rw [ht] at hnil
          cases hnil
        · exact hnext
      have hget := List.getElem?_eq_getElem hnext
      rw [if_pos ⟨hodd, hc⟩, Nat.min_eq_right (by omega), ← Text.startOf_succ h]
      exact position_of_le_content hget (Nat.zero_le _)
    · have hmin : min c line.length = min c (Text.content line).length := by omega
      rw [if_neg (fun h => hc h.2), hmin]
      exact position_of_le_content h (Nat.min_le_right _ _)
  · rw [Text.bareLine_of_not_endsOddly hodd, if_neg (fun h => hodd h.1)]
    exact position_of_le_content h (Nat.min_le_right _ _)

lemma position_offset_iff (h : d.lines[l]? = some line) (c : Nat) :
    d.position (d.offset l c) = (l, min c (Text.content line).length) ↔
      (Text.EndsOddly line → c ≤ (Text.content line).length) := by
  rw [position_offset h]
  split
  · rename_i hpast
    simp [hpast.1, hpast.2]
  · rename_i hpast
    simpa using fun hodd => Nat.le_of_not_lt fun hlt => hpast ⟨hodd, hlt⟩

end Document

lemma anchor?_of_line {d : Document} {l : Nat} {line : List Char} (h : d.lines[l]? = some line)
    (diag : Diagnostic) : anchor? d diag l =
      some (if diag.column = 0 then Text.startOf d.lines l + (Text.indent line).length
        else d.offset l (diag.column - 1)) := by
  have hindent : (Text.indent line).length ≤ (Text.bareLine line).length := by
    rw [← Text.indent_bareLine]
    exact (List.takeWhile_sublist _).length_le
  rw [anchor?, Document.lineSpan?_of_line h]
  rcases diag.column with _ | column
  · simp only [Document.lineIndent_eq h, if_true]
    rw [Nat.min_eq_left (Nat.add_le_add_left hindent _)]
  · simp only [Document.offset_of_line h, Nat.succ_ne_zero, if_false, Nat.add_sub_cancel]
    rw [Nat.min_eq_left (by omega)]

/-- A finding has an anchor just on the lines that there are. The anchor is on its line, behind the
indentation if no column is reported, and else at the reported column, cut at the end of the line,
unless the line ends oddly and the column is behind its terminator. -/
theorem anchor?_position_iff (d : Document) (diag : Diagnostic) (l : Nat) :
    (anchor? d diag l = none ↔ d.lineCount ≤ l) ∧
      ∀ line, d.lines[l]? = some line →
        (∃ o, anchor? d diag l = some o ∧
          (diag.column = 0 → d.position o = (l, (Text.indent line).length)) ∧
          (diag.column ≠ 0 →
            (d.position o = (l, min (diag.column - 1) (Text.content line).length) ↔
              (Text.EndsOddly line → diag.column - 1 ≤ (Text.content line).length)))) ∧
        ∀ c, d.position (d.offset l c) = (l, min c (Text.content line).length) ↔
          (Text.EndsOddly line → c ≤ (Text.content line).length) := by
  refine ⟨?_, fun line h => ⟨⟨_, anchor?_of_line h diag, fun hzero => ?_, fun hcolumn => ?_⟩,
    Document.position_offset_iff h⟩⟩
  · rw [Document.lineCount, ← List.getElem?_eq_none_iff]
    cases h : d.lines[l]? with
    | none =>
      have hnone : d.lineStart? l = none :=
        if_neg (Nat.not_lt.2 (List.getElem?_eq_none_iff.1 h))
      simp [anchor?, Document.lineSpan?, hnone]
    | some line => simp [anchor?_of_line h]
  · rw [if_pos hzero]
    exact Document.position_of_le_content h (Text.length_indent_le line)
  · rw [if_neg hcolumn]
    exact Document.position_offset_iff h _

/-- Past the end of a line that ends with a line separator the anchor is on the next line. -/
theorem anchor?_behind_separator :
    let d : Document := ⟨"package a\n// x\u2028y\n".toList⟩
    let diag : Diagnostic := ⟨"godot", "", "a.go", 2, 99, none, "godot"⟩
    d.lines[1]? = some "// x\u2028".toList ∧ (Text.content "// x\u2028".toList).length = 4 ∧
      anchor? d diag diag.documentLine = some 15 ∧ d.position 15 = (2, 0) := by
  decide

end Mend
