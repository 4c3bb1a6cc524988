import Mathlib.Algebra.Group.Nat.Defs
import Mathlib.Data.List.Basic
import Mend.Go.View
import Mend.Proofs.LineEdits
import Mend.Proofs.LineEnds
import Mend.Proofs.Resolution

/-! Taking out empty lines. All other lines of the document stay as they were, and among those that
are left of the range none is empty, though a CR and a line feed may have met to be one line end. -/
namespace Mend

namespace LineRange

variable {r : LineRange} {ls : List (List Char)} {k i : Nat} {line : List Char}

/-- The line is one of the range, and it has a terminator and no other characters. -/
def Clears (r : LineRange) (x : List Char × Nat) : Prop :=
  (r.first ≤ x.2 ∧ x.2 ≤ r.last) ∧ x.1 ≠ [] ∧ Text.bareLine x.1 = []

instance (r : LineRange) : DecidablePred r.Clears := fun _ => inferInstanceAs (Decidable (_ ∧ _))

/-- The text of numbered lines without those that are cleared. -/
def cleared (r : LineRange) (xs : List (List Char × Nat)) : List Char :=
  (xs.filter fun x => ¬ r.Clears x).flatMap (·.1)

/-- How many lines are cleared. -/
def gone (r : LineRange) (xs : List (List Char × Nat)) : Nat := xs.countP fun x => r.Clears x

lemma cleared_cons_of_clears {x : List Char × Nat} (xs : List (List Char × Nat))
    (h : r.Clears x) : r.cleared (x :: xs) = r.cleared xs ∧ r.gone (x :: xs) = r.gone xs + 1 := by
  simp [cleared, gone, h]

lemma cleared_cons_of_not {x : List Char × Nat} (xs : List (List Char × Nat))
    (h : ¬ r.Clears x) :
    r.cleared (x :: xs) = x.1 ++ r.cleared xs ∧ r.gone (x :: xs) = r.gone xs := by
  simp [cleared, gone, h]

lemma cleared_eq (xs : List (List Char × Nat)) :
    r.cleared xs = xs.flatMap fun x => if r.Clears x then [] else x.1 := by
  induction xs with
  | nil => rfl
  | cons x xs ih =>
    by_cases h : r.Clears x
    · rw [(cleared_cons_of_clears xs h).1, ih, List.flatMap_cons, if_pos h, List.nil_append]
    · rw [(cleared_cons_of_not xs h).1, ih, List.flatMap_cons, if_neg h]

/-- A line that is left, and that the text then starts with, is empty if it starts with a line
feed. -/
lemma eq_of_head?_cleared {rest : List (List Char)}
    (hls : Text.lines (line :: rest).flatten = line :: rest) (hclear : ¬ r.Clears (line, k))
    (h : (r.cleared ((line :: rest).zipIdx k)).head? = some '\n') : line = ['\n'] := by
  rw [List.zipIdx_cons, (cleared_cons_of_not _ hclear).1] at h
  cases line with
  | nil =>
    cases rest with
    | nil => cases h
    | cons next rest =>
      exact absurd rfl (Text.ne_nil_of_lines_cons hls (List.cons_ne_nil next rest))
  | cons c line => exact Text.eq_of_head?_lines hls h

/-- If lines from inside the range come to start with a line feed, that is because all lines up to
the end of the range are gone. The induction is on the lines from line `k` on. -/
lemma last_lt_of_head?_cleared (hls : Text.lines ls.flatten = ls) (hk : r.first ≤ k)
    (h : (r.cleared (ls.zipIdx k)).head? = some '\n') : r.last < k + r.gone (ls.zipIdx k) := by
  induction ls generalizing k with
  | nil => cases hls
  | cons line rest ih =>
    by_cases hclear : r.Clears (line, k)
    · obtain ⟨htext, hgone⟩ := cleared_cons_of_clears (rest.zipIdx (k + 1)) hclear
      rw [List.zipIdx_cons, htext] at h
      have hne : rest ≠ [] := by
        rintro rfl
        cases h
      have hrest := ih (Text.lines_eq_cons hls hne).2.1 (Nat.le_add_right_of_le hk) h
      rw [List.zipIdx_cons]
      omega
    · have hfeed := eq_of_head?_cleared hls hclear h
      have hout : ¬ (r.first ≤ k ∧ k ≤ r.last) := by
        rintro hin
        exact hclear ⟨hin, by simp [hfeed], by rw [hfeed]; rfl⟩
      omega

/-- A line keeps its end, or a CR that ends it meets a line feed, and then the range goes no
further. -/
lemma endsLine_cleared {head : List Char} {rest : List (List Char)}
    (hls : Text.lines (head :: rest).flatten = head :: rest) (hne : rest ≠ []) :
    Text.EndsLine head (r.cleared (rest.zipIdx k)) ∨
      head.getLast? = some '\r' ∧ (r.cleared (rest.zipIdx k)).head? = some '\n' ∧
        r.last < k + r.gone (rest.zipIdx k) := by
  obtain ⟨-, hrest, hends⟩ := Text.lines_eq_cons hls hne
  by_cases hmeet : head.getLast? = some '\r' ∧ (r.cleared (rest.zipIdx k)).head? = some '\n'
  · obtain ⟨hcr, hfeed⟩ := hmeet
    refine .inr ⟨hcr, hfeed, last_lt_of_head?_cleared hrest ?_ hfeed⟩
    obtain ⟨next, others, rfl⟩ := List.exists_cons_of_ne_nil hne
    -- the next line is gone, since it did not start with the line feed
    by_cases hclear : r.Clears (next, k)
    · exact hclear.1.1
    · obtain rfl := eq_of_head?_cleared hrest hclear hfeed
      rcases hends with rfl | ⟨c, hlast, -, hfollow⟩
      · cases hcr
      · exact absurd rfl (hfollow (Option.some.inj (hlast.symm.trans hcr)))
  · exact .inl (hends.congr fun hcr hfeed => absurd ⟨hcr, hfeed⟩ hmeet)

/-- No line that is left of the range is empty. The induction is on the lines from line `k` on; as
lines are gone the range reaches less far. -/
theorem bareLine_ne_nil_of_cleared (hls : Text.lines ls.flatten = ls)
    (hline : (Text.lines (r.cleared (ls.zipIdx k)))[i]? = some line)
    (hi : i + 1 < (Text.lines (r.cleared (ls.zipIdx k))).length) (hfirst : r.first ≤ k + i)
    (hlast : k + i + r.gone (ls.zipIdx k) ≤ r.last) : Text.bareLine line ≠ [] := by
  induction ls generalizing k i with
  | nil => cases hls
  | cons head rest ih =>
    rw [List.zipIdx_cons] at hline hi hlast
    by_cases hclear : r.Clears (head, k)
    · obtain ⟨htext, hgone⟩ := cleared_cons_of_clears (rest.zipIdx (k + 1)) hclear
      rw [htext] at hline hi
      have hne : rest ≠ [] := by
        rintro rfl
        exact absurd hi (by simp [cleared, Text.lines])
      exact ih (Text.lines_eq_cons hls hne).2.1 hline hi (by omega) (by omega)
    obtain ⟨htext, hgone⟩ := cleared_cons_of_not (rest.zipIdx (k + 1)) hclear
    rw [htext] at hline hi
    have hne : rest ≠ [] := by
      rintro rfl
      rw [List.flatten_singleton] at hls
      simp [cleared, hls] at hi
    have hhead : head ≠ [] := Text.ne_nil_of_lines_cons hls hne
    have hkept : i = 0 → Text.bareLine head ≠ [] := by
      rintro rfl hbare
      exact hclear ⟨⟨hfirst, by omega⟩, hhead, hbare⟩
    rcases endsLine_cleared (k := k + 1) hls hne with hends | ⟨hcr, hfeed, hbehind⟩
    · rw [Text.lines_line_append hls hne hends] at hline hi
      cases i with
      | zero =>
        obtain rfl : head = line := by simpa using hline
        exact hkept rfl
      | succ i =>
        exact ih (Text.lines_eq_cons hls hne).2.1 (by simpa using hline) (by simpa using hi)
          (by omega) (by omega)
    · -- the line takes the line feed, and no other line is looked at
      obtain rfl : i = 0 := by omega
      obtain ⟨more, hmore⟩ := List.head?_eq_some_iff.1 hfeed
      obtain ⟨joined, hjoined, hbare⟩ := Text.lines_append_feed hls hcr more
      rw [hmore, hjoined] at hline
      obtain rfl : joined = line := by simpa using hline
      rw [hbare]
      exact hkept rfl

end LineRange

namespace Document

variable {d : Document} {r : LineRange} {l : Nat} {line : List Char}

/-- The empty lines of a range that have a line behind them. -/
def emptyLinesIn (d : Document) (r : LineRange) : List Nat :=
  (d.linesIn r).filter fun l => d.lineStart? l = d.lineStop? l ∧ l + 1 < d.lineCount

/-- The document without some of its lines. -/
def without (d : Document) (gone : List Nat) : Document :=
  ⟨(d.lines.zipIdx.filter fun x => x.2 ∉ gone).flatMap (·.1)⟩

/-- A line is deleted with its terminator if it is empty and has a line behind it. -/
lemma deleteEmptyLine?_eq_ite (d : Document) (l : Nat) :
    d.deleteEmptyLine? l = if d.lineStart? l = d.lineStop? l ∧ l + 1 < d.lineCount then
      some (.delete ⟨Text.startOf d.lines l, Text.startOf d.lines (l + 1)⟩) else none := by
  split
  · rename_i h
    obtain ⟨heq, hl⟩ := h
    have hstart : d.lineStart? l = some (Text.startOf d.lines l) :=
      lineStart?_eq_some.2 ⟨Nat.lt_of_succ_lt hl, rfl⟩
    exact deleteEmptyLine?_eq_some.2 ⟨_, _, hstart, heq.symm.trans hstart,
      lineStart?_eq_some.2 ⟨hl, rfl⟩, rfl⟩
  · rename_i h
    refine Option.eq_none_iff_forall_ne_some.2 fun e he => h ?_
    obtain ⟨start, next, hstart, hstop, hnext, -⟩ := deleteEmptyLine?_eq_some.1 he
    exact ⟨hstart.trans hstop.symm, (lineStart?_eq_some.1 hnext).1⟩

lemma mem_emptyLinesIn : l ∈ d.emptyLinesIn r ↔ l < d.lineCount ∧ (r.first ≤ l ∧ l ≤ r.last) ∧
    d.lineStart? l = d.lineStop? l ∧ l + 1 < d.lineCount := by
  simp only [emptyLinesIn, linesIn, List.mem_filter, List.mem_range, Bool.and_eq_true,
    decide_eq_true_eq, and_assoc]

/-- A line that has a line behind it is empty just if it is nothing but a terminator. -/
lemma clears_iff (h : d.lines[l]? = some line) : r.Clears (line, l) ↔ l ∈ d.emptyLinesIn r := by
  obtain ⟨hl, -⟩ := List.getElem?_eq_some_iff.1 h
  have hstart : d.lineStart? l = some (Text.startOf d.lines l) := lineStart?_eq_some.2 ⟨hl, rfl⟩
  have hstop : d.lineStop? l = some (Text.startOf d.lines l + (Text.bareLine line).length) :=
    lineStop?_eq_some.2 ⟨_, line, hstart, h, rfl⟩
  have hempty : d.lineStart? l = d.lineStop? l ↔ Text.bareLine line = [] := by
    rw [hstart, hstop, ← List.length_eq_zero_iff, Option.some_inj]
    omega
  have hbehind : Text.bareLine line = [] → (line ≠ [] ↔ l + 1 < d.lineCount) := by
    intro hbare
    refine ⟨fun hne => ?_, Text.ne_nil_of_lines h⟩
    have hlast := fun hlast => hne (Text.eq_nil_of_bareLine_last h hlast hbare)
    exact Nat.lt_of_le_of_ne hl hlast
  have hcount : l < d.lineCount := hl
  rw [LineRange.Clears, mem_emptyLinesIn, hempty]
  tauto

lemma emptyLinesIn_eq (d : Document) (r : LineRange) :
    d.emptyLinesIn r = (d.lines.zipIdx.filter fun x => r.Clears x).map (·.2) := by
  have hnumbers : List.range d.lineCount = d.lines.zipIdx.map (·.2) := by
    rw [List.zipIdx_map_snd, ← List.range_eq_range']
    rfl
  have hrange : d.emptyLinesIn r = (List.range d.lineCount).filter (· ∈ d.emptyLinesIn r) := by
    conv => lhs; rw [emptyLinesIn, linesIn, List.filter_filter]
    refine List.filter_congr fun l hl => ?_
    rw [Bool.eq_iff_iff]
    simp only [mem_emptyLinesIn, List.mem_range.1 hl, true_and, Bool.and_eq_true, decide_eq_true_eq]
    exact and_comm
  rw [hrange, hnumbers, List.filter_map]
  congr 1
  refine List.filter_congr fun x hx => decide_eq_decide.2 ?_
  exact (clears_iff (List.mem_zipIdx_iff_getElem?.1 hx)).symm

lemma without_emptyLinesIn (d : Document) (r : LineRange) :
    d.without (d.emptyLinesIn r) = ⟨r.cleared d.lines.zipIdx⟩ := by
  rw [without, LineRange.cleared]
  congr 2
  refine List.filter_congr fun x hx => decide_eq_decide.2 (not_congr ?_)
  exact (clears_iff (List.mem_zipIdx_iff_getElem?.1 hx)).symm

lemma length_emptyLinesIn (d : Document) (r : LineRange) :
    (d.emptyLinesIn r).length = r.gone d.lines.zipIdx := by
  rw [emptyLinesIn_eq, List.length_map, LineRange.gone, List.countP_eq_length_filter]

/-- What is deleted of a line. -/
def deletionsIn (d : Document) (r : LineRange) (l : Nat) : List Edit :=
  if l ∈ d.emptyLinesIn r then [.delete ⟨Text.startOf d.lines l, Text.startOf d.lines (l + 1)⟩]
  else []

lemma filterMap_deleteEmptyLine? (d : Document) (r : LineRange) :
    (d.linesIn r).filterMap d.deleteEmptyLine? =
      (List.range d.lineCount).flatMap (d.deletionsIn r) := by
  rw [linesIn, List.filterMap_filter, List.filterMap_eq_flatMap_toList]
  refine List.flatMap_congr fun l hl => ?_
  have hmem : l ∈ d.emptyLinesIn r ↔ (r.first ≤ l ∧ l ≤ r.last) ∧
      d.lineStart? l = d.lineStop? l ∧ l + 1 < d.lineCount := by
    rw [mem_emptyLinesIn, and_iff_right (List.mem_range.1 hl)]
  rw [deletionsIn, deleteEmptyLine?_eq_ite]
  by_cases hrange : r.first ≤ l ∧ l ≤ r.last
  · rw [and_iff_right hrange] at hmem
    rw [if_pos (by simpa using hrange), if_congr hmem rfl rfl]
    split <;> rfl
  · rw [if_neg (by simpa using hrange), if_neg fun h => hrange (hmem.1 h).1]
    rfl

/-- Deleting the empty lines of a range leaves the text of all others. -/
theorem splice_deleteEmptyLines (d : Document) (r : LineRange) :
    Edit.splice d.chars 0 ((d.linesIn r).filterMap d.deleteEmptyLine?) =
      (d.without (d.emptyLinesIn r)).chars := by
  have hsplice := d.splice_lines (d.deletionsIn r)
    (fun line l => if r.Clears (line, l) then [] else line) fun l line hline => by
      have hnext := Text.startOf_succ hline
      rw [deletionsIn]
      by_cases hclears : r.Clears (line, l)
      · rw [if_pos hclears, if_pos ((clears_iff hline).1 hclears)]
        exact ⟨⟨Nat.le_refl _, Text.startOf_mono d.lines (Nat.le_succ l), Nat.le_refl _⟩,
          by simp [Edit.splice, Edit.delete, hnext]⟩
      · rw [if_neg hclears, if_neg (mt (clears_iff hline).2 hclears)]
        exact ⟨by simp [hnext], rfl⟩
  rw [filterMap_deleteEmptyLine?, hsplice, without_emptyLinesIn, LineRange.cleared_eq]

/-- The lines that are left of a range hold no empty line. -/
theorem emptyLinesIn_without (h : r.first + (d.emptyLinesIn r).length ≤ r.last) :
    (d.without (d.emptyLinesIn r)).emptyLinesIn
      ⟨r.first, r.last - (d.emptyLinesIn r).length⟩ = [] := by
  rw [List.eq_nil_iff_forall_not_mem]
  intro l hmem
  obtain ⟨hl, ⟨hfirst, hlast⟩, -, hbehind⟩ := mem_emptyLinesIn.1 hmem
  obtain ⟨line, hline⟩ : ∃ line, (d.without (d.emptyLinesIn r)).lines[l]? = some line :=
    ⟨_, List.getElem?_eq_getElem hl⟩
  obtain ⟨-, -, hbare⟩ := (clears_iff hline).2 hmem
  rw [length_emptyLinesIn] at h hlast
  rw [without_emptyLinesIn] at hline hbehind
  have hlines : Text.lines d.lines.flatten = d.lines := by
    rw [flatten_lines]
    rfl
  exact LineRange.bareLine_ne_nil_of_cleared hlines hline hbehind (by simpa using hfirst)
    (by simp only at hlast; omega) hbare

end Document

/-- The same finding about other lines. -/
def Diagnostic.withRange (diag : Diagnostic) (r : LineRange) : Diagnostic :=
  { diag with lineRange? := some r }

/-- A smaller line number is smaller by as much when it has moved. -/
lemma shiftLine_sub {l k : Nat} {shift : Int} (hmax : ((l + k : Nat) : Int) + shift ≤ maxLine)
    (hk : k ≤ shiftLine (l + k) shift) : shiftLine l shift = shiftLine (l + k) shift - k := by
  unfold shiftLine at hk ⊢
  omega

/-- A range with fewer lines reaches less far by as much when it has moved. -/
lemma Diagnostic.shiftedRange?_withRange {diag : Diagnostic} {first last k line : Nat}
    (hbound : last + k < 2 ^ 63) (hk : k ≤ shiftLine (last + k) (diag.lineShift line)) :
    (diag.withRange ⟨first, last⟩).shiftedRange? line =
      some ⟨shiftLine first (diag.lineShift line),
        shiftLine (last + k) (diag.lineShift line) - k⟩ := by
  have hshift : diag.lineShift line < 2 ^ 63 :=
    Int.lt_of_lt_of_le (Int.bmod_lt (by decide)) (by decide)
  have hmax : ((last + k : Nat) : Int) + diag.lineShift line ≤ maxLine := by
    have : (maxLine : Int) = 2 ^ 63 + 2 ^ 63 - 1 := by decide
    omega
  rw [← shiftLine_sub hmax hk]
  rfl

namespace Site

variable {ν : Type} (s : Site ν)

/-- Empty lines of a range are offered to be deleted all at once. -/
lemma removeEmptyLinesIn_candidates (r : LineRange) :
    ((s.removeEmptyLinesIn r).candidates = [] ↔ s.document.emptyLinesIn r = []) ∧
      (s.document.emptyLinesIn r ≠ [] → ∃ c es, (s.removeEmptyLinesIn r).candidates = [c] ∧
        c.edits? = some es ∧
        s.document.apply es = .ok (s.document.without (s.document.emptyLinesIn r))) := by
  have hnone : (s.document.linesIn r).reverse.filterMap s.document.deleteEmptyLine? = [] ↔
      s.document.emptyLinesIn r = [] := by
    rw [List.filterMap_eq_nil_iff, Document.emptyLinesIn, List.filter_eq_nil_iff]
    simp only [List.mem_reverse, Document.deleteEmptyLine?_eq_ite, decide_eq_true_eq]
    exact forall₂_congr fun l _ => by simp
  unfold removeEmptyLinesIn
  simp only [List.isEmpty_iff, hnone]
  split
  · rename_i hempty
    exact ⟨iff_of_true rfl hempty, fun h => absurd hempty h⟩
  · rename_i hempty
    refine ⟨iff_of_false (List.cons_ne_nil _ _) hempty, fun _ => ⟨_, _, rfl, rfl, ?_⟩⟩
    rw [Document.apply_of_accepts (Document.accepts_deleteEmptyLines s.document r),
      Document.inOrder_deleteEmptyLines, Document.splice_deleteEmptyLines]

lemma resolveAt_removeEmptyLines {s : Site ν} {r : LineRange} (h : s.shiftedRange? = some r) :
    Strategy.removeEmptyLines.resolveAt s = .ok (s.removeEmptyLinesIn r) := by
  rw [Strategy.resolveAt, removeEmptyLines, h]

/-- Of the reported lines, moved to where they are now, all empty ones that have a line behind them
are deleted, and nothing else is. After that no empty line is found among those that are left of the
range: not by any finding about them, and so not by the same one with its last line earlier by as
many lines as are gone. -/
theorem removing_empty_lines {reported : LineRange}
    (hreported : s.diagnostic.lineRange? = some reported) :
    let d := s.document
    let range := reported.shifted (s.diagnostic.lineShift s.line)
    let gone := d.emptyLinesIn range
    (∃ r, Strategy.removeEmptyLines.resolveAt s = .ok r ∧ (r.candidates = [] ↔ gone = []) ∧
      (gone ≠ [] → ∃ c es, r.candidates = [c] ∧ c.edits? = some es ∧
        d.apply es = .ok (d.without gone))) ∧
    (range.first + gone.length ≤ range.last →
      (∀ {μ : Type} (s' : Site μ), s'.document = d.without gone →
        s'.shiftedRange? = some ⟨range.first, range.last - gone.length⟩ →
        ∃ r, Strategy.removeEmptyLines.resolveAt s' = .ok r ∧ r.candidates = []) ∧
      ∀ {μ : Type} (t : Tree μ) (last : Nat), reported.last = last + gone.length →
        reported.last < 2 ^ 63 →
        ∃ r, Strategy.removeEmptyLines.resolveAt ⟨t, d.without gone,
          s.diagnostic.withRange ⟨reported.first, last⟩, s.line⟩ = .ok r ∧ r.candidates = []) := by
  intro d range gone
  have hrange : s.shiftedRange? = some range := by
    rw [shiftedRange?, Diagnostic.shiftedRange?, hreported]
    rfl
  obtain ⟨hnone, hone⟩ := s.removeEmptyLinesIn_candidates range
  refine ⟨⟨_, resolveAt_removeEmptyLines hrange, hnone, hone⟩, fun hleft => ?_⟩
  have hagain : ∀ {μ : Type} (s' : Site μ), s'.document = d.without gone →
      s'.shiftedRange? = some ⟨range.first, range.last - gone.length⟩ →
      ∃ r, Strategy.removeEmptyLines.resolveAt s' = .ok r ∧ r.candidates = [] := by
    intro μ s' hdoc hrange'
    refine ⟨_, resolveAt_removeEmptyLines hrange', (s'.removeEmptyLinesIn_candidates _).1.2 ?_⟩
    rw [hdoc]
    exact Document.emptyLinesIn_without hleft
  refine ⟨hagain, fun t last hlast hbound => hagain _ rfl ?_⟩
  have hmoved : range = ⟨shiftLine reported.first (s.diagnostic.lineShift s.line),
      shiftLine (last + gone.length) (s.diagnostic.lineShift s.line)⟩ := by
    rw [← hlast]
    rfl
  rw [hmoved] at hleft ⊢
  exact Diagnostic.shiftedRange?_withRange (hlast ▸ hbound) (Nat.le_of_add_left_le hleft)

/-- An empty line between a CR and a line feed, which become one line end without it. -/
theorem removing_empty_lines_joined :
    let d := Document.ofString "a\r\r\n\nb\n"
    let diag : Diagnostic := ⟨"whitespace", "", "a.go", 1, 0, some ⟨1, 2⟩, "whitespace"⟩
    let e := Document.ofString "a\r\nb\n"
    ∃ r c es r', Strategy.removeEmptyLines.resolveAt ⟨(Go.parse d.chars).tree, d, diag, 0⟩ = .ok r ∧
      r.candidates = [c] ∧ c.edits? = some es ∧ d.apply es = .ok e ∧
      Strategy.removeEmptyLines.resolveAt
        ⟨(Go.parse e.chars).tree, e, diag.withRange ⟨1, 1⟩, 0⟩ = .ok r' ∧ r'.candidates = [] := by
  intro d diag e
  let s : Site _ := ⟨(Go.parse d.chars).tree, d, diag, 0⟩
  have hgone : d.emptyLinesIn ((LineRange.mk 1 2).shifted (diag.lineShift 0)) = [1] := by decide
  have hleft : d.without [1] = e := by decide
  have hreported : diag.lineRange? = some ⟨1, 2⟩ := rfl
  obtain ⟨⟨r, hr, -, hone⟩, hagain⟩ :=
    removing_empty_lines ⟨(Go.parse d.chars).tree, d, diag, 0⟩ hreported
  simp only [hgone, hleft] at hone hagain
  obtain ⟨c, es, hc, hes, happly⟩ := hone (by decide)
  obtain ⟨r', hr', hnone⟩ := (hagain (by decide)).2 (Go.parse e.chars).tree 1 rfl (by decide)
  exact ⟨r, c, es, r', hr, hc, hes, happly, hr', hnone⟩

end Site
end Mend
