import Mend.Proofs.Directives
import Mend.Proofs.LineEdits
import Mend.Proofs.NewLines
import Mend.Proofs.Selection

/-! Findings that are silenced on their lines, any number of them. All directives are put in, each
as a line of its own: above every line of the document stand those of the findings on it, that of
the last one first. -/
namespace Mend

section Keys

variable {α : Type} {f : α → Nat} {l : List α}

/-- What has the least key comes first. -/
lemma filter_append_filter_of_sorted {k : Nat} (hl : l.Pairwise fun x y => f x ≤ f y)
    (hk : ∀ x ∈ l, k ≤ f x) : l = l.filter (f · = k) ++ l.filter (¬ f · = k) := by
  induction l with
  | nil => rfl
  | cons x l ih =>
    obtain ⟨hx, hl⟩ := List.pairwise_cons.1 hl
    by_cases hxk : f x = k
    · have hrest := ih hl fun y hy => hk y (by simp [hy])
      rw [List.filter_cons_of_pos (by simpa using hxk),
        List.filter_cons_of_neg (by simpa using hxk), List.cons_append, ← hrest]
    · have hmore : ∀ y ∈ x :: l, ¬ f y = k := by
        intro y hy
        have hxk' := hk x (by simp)
        rcases List.mem_cons.1 hy with rfl | hy
        · exact hxk
        · have := hx y hy
          omega
      rw [List.filter_eq_nil_iff.2 (by simpa using hmore),
        List.filter_eq_self.2 (by simpa using hmore), List.nil_append]

/-- A list in the order of its keys is, for one key after the other, what has that key. -/
lemma eq_flatMap_filter {ks : List Nat} (hl : l.Pairwise fun x y => f x ≤ f y)
    (hks : ks.Pairwise (· < ·)) (hmem : ∀ x ∈ l, f x ∈ ks) :
    l = ks.flatMap fun k => l.filter (f · = k) := by
  induction ks generalizing l with
  | nil => simpa [List.eq_nil_iff_forall_not_mem] using hmem
  | cons k ks ih =>
    obtain ⟨hk, hks⟩ := List.pairwise_cons.1 hks
    have hleast : ∀ x ∈ l, k ≤ f x := by
      intro x hx
      rcases List.mem_cons.1 (hmem x hx) with h | h
      · exact Nat.le_of_eq h.symm
      · exact Nat.le_of_lt (hk _ h)
    have hrest := ih (l := l.filter (¬ f · = k)) (hl.sublist List.filter_sublist) hks fun x hx => by
      obtain ⟨hx, hne⟩ := List.mem_filter.1 hx
      exact (List.mem_cons.1 (hmem x hx)).resolve_left (by simpa using hne)
    have hsame : (ks.flatMap fun k' => (l.filter (¬ f · = k)).filter (f · = k')) =
        ks.flatMap fun k' => l.filter (f · = k') := by
      refine List.flatMap_congr fun k' hk' => ?_
      rw [List.filter_filter]
      refine List.filter_congr fun x _ => ?_
      have := hk k' hk'
      by_cases hx : f x = k'
      · simp [hx]; omega
      · simp [hx]
    rw [List.flatMap_cons, ← hsame, ← hrest]
    exact filter_append_filter_of_sorted hl hleast

end Keys

namespace Edit

variable {es : List Edit} {a b o : Nat}

lemma fits_of_points (hes : ∀ e ∈ es, e.span = .point a) (hab : a ≤ b) : Fits a b es := by
  induction es with
  | nil => exact hab
  | cons e es ih =>
    have he := hes e (by simp)
    rw [fits_cons, he]
    exact ⟨Nat.le_refl a, Nat.le_refl a, ih fun x hx => hes x (by simp [hx])⟩

/-- Insertions in order are those at the one offset after those at the other. -/
theorem inOrder_insertions {offsets : List Nat} (hoffsets : offsets.Pairwise (· < ·))
    (hes : ∀ e ∈ es, ∃ o ∈ offsets, e.span = .point o) :
    inOrder es = offsets.flatMap fun o => insertsAt o es := by
  have hsorted : (inOrder es).Pairwise fun x y => x.span.start ≤ y.span.start := by
    refine (List.pairwise_mergeSort le_trans le_total es).imp fun h => ?_
    simp only [le, Bool.or_eq_true, decide_eq_true_eq, Bool.and_eq_true] at h
    omega
  have hpoints : ∀ e ∈ inOrder es, ∃ o ∈ offsets, e.span = .point o :=
    fun e he => hes e (mem_inOrder.1 he)
  rw [eq_flatMap_filter hsorted hoffsets fun e he => by
    obtain ⟨o, ho, hspan⟩ := hpoints e he
    rwa [hspan]]
  refine List.flatMap_congr fun o _ => ?_
  rw [← insertsAt_inOrder]
  refine List.filter_congr fun e he => ?_
  obtain ⟨p, -, hspan⟩ := hpoints e he
  simp [hspan, Span.point]

end Edit

variable {ν : Type} {t : Tree ν} {d : Document} {findings : List (Diagnostic × Nat)}

/-- The directive that silences a finding on its line. -/
def Document.silencing (d : Document) (x : Diagnostic × Nat) : Edit :=
  .insert (Text.startOf d.lines x.2) (directiveLine (d.lineIndent x.2) x.1.linter)

/-- The findings are silenced on lines that the document has. -/
def Document.Silenced (d : Document) (findings : List (Diagnostic × Nat)) : Prop :=
  ∀ x ∈ findings, Strategy.ofRule x.1.rule = .suppressLine ∧ x.2 < d.lineCount

/-- Every one of them comes to one directive. -/
lemma firstEdits_inspect (h : d.Silenced findings) :
    firstEdits ((inspect t d findings).map (·.resolution)) =
      findings.map fun x => [d.silencing x] := by
  induction findings with
  | nil => rfl
  | cons x findings ih =>
    obtain ⟨hrule, hline⟩ := h x (by simp)
    have hrest := ih fun y hy => h y (by simp [hy])
    have hedit : d.directiveAbove? x.2 x.1.linter = some (d.silencing x) :=
      Document.directiveAbove?_eq_some.2 ⟨_, Document.lineStart?_eq_some.2 ⟨hline, rfl⟩, rfl⟩
    have hresolve : (Site.mk t d x.1 x.2).resolve =
        .ok (.ofCandidate? (some ⟨s!"Suppress '{x.1.linter}' for this line",
          .edits [d.silencing x]⟩) none) := by
      rw [Site.resolve, hrule, Strategy.resolveAt, Site.suppressLine, Site.suppressLineCandidate?,
        hedit]
      rfl
    rw [inspect, List.filterMap_cons]
    simp only [hresolve]
    rw [List.map_cons, firstEdits, List.filterMap_cons]
    exact congrArg _ hrest

/-- Directives at line starts go together, whatever their order and number. -/
lemma together_silencing (d : Document) (findings : List (Diagnostic × Nat)) :
    Edit.Together d.length (findings.map fun x => [d.silencing x]) where
  within es hes := by
    obtain ⟨x, -, rfl⟩ := List.mem_map.1 hes
    have hle := Text.startOf_le d.lines x.2
    rwa [Document.flatten_lines] at hle
  compatible := by
    refine List.pairwise_map.2 (List.pairwise_of_forall fun x y => ?_)
    exact Nat.le_total (Text.startOf d.lines x.2) (Text.startOf d.lines y.2)

lemma accepts_silencing (h : d.Silenced findings) {r : Resolution} {es : List Edit}
    (hr : r ∈ (inspect t d findings).map (·.resolution)) (hes : r.firstEdits? = some es) :
    ∃ x ∈ findings, es = [d.silencing x] ∧ d.Accepts es := by
  have hmem := List.mem_filterMap.2 ⟨r, hr, hes⟩
  rw [← firstEdits, firstEdits_inspect h] at hmem
  have hstop := (together_silencing d findings).within es hmem
  obtain ⟨x, hx, rfl⟩ := List.mem_map.1 hmem
  exact ⟨x, hx, rfl, (Document.accepts_singleton d _).2 ⟨Nat.le_refl _, hstop⟩⟩

/-- The directives above a line, that of the last finding first. -/
def Document.directivesAbove (d : Document) (findings : List (Diagnostic × Nat)) (l : Nat) :
    List Edit :=
  (findings.filter (·.2 = l)).reverse.map d.silencing

lemma directivesAbove_spec {l : Nat} {e : Edit} (he : e ∈ d.directivesAbove findings l) :
    e.span = .point (Text.startOf d.lines l) ∧
      ∃ x ∈ findings, e.newText = directiveLine (d.lineIndent l) x.1.linter := by
  obtain ⟨x, hx, rfl⟩ := List.mem_map.1 he
  obtain ⟨hmem, hl⟩ := List.mem_filter.1 (List.mem_reverse.1 hx)
  obtain rfl : x.2 = l := by simpa using hl
  exact ⟨rfl, x, hmem, rfl⟩

lemma map_newText_directivesAbove {l : Nat} {line : List Char} (h : d.lines[l]? = some line) :
    (d.directivesAbove findings l).map (·.newText.toList) =
      (findings.filter (·.2 = l)).reverse.map fun x =>
        Text.indent line ++ "//nolint:".toList ++ x.1.linter.toList ++ ['\n'] := by
  rw [Document.directivesAbove, List.map_map]
  refine List.map_congr_left fun x hx => ?_
  obtain rfl : x.2 = l := by simpa using (List.mem_filter.1 (List.mem_reverse.1 hx)).2
  rw [← Document.lineIndent_eq h, ← directiveLine_eq]
  rfl

/-- With the directives above each of its lines, a document has those as lines, too. -/
lemma lines_directivesAbove
    (hlinters : ∀ x ∈ findings, ∀ c ∈ x.1.linter.toList, Text.isLineBreak c = false) :
    Text.lines (Edit.splice d.chars 0
        ((List.range d.lineCount).flatMap (d.directivesAbove findings))) =
      d.lines.zipIdx.flatMap fun x =>
        (d.directivesAbove findings x.2).map (·.newText.toList) ++ [x.1] := by
  have hline : ∀ l, ∀ w ∈ (d.directivesAbove findings l).map (·.newText.toList),
      Text.OneLine w ∧ w.head? ≠ some '\n' := by
    intro l w hw
    obtain ⟨e, he, rfl⟩ := List.mem_map.1 hw
    obtain ⟨-, x, hx, htext⟩ := directivesAbove_spec he
    have hindent : ∀ c ∈ d.lineIndent l, c = ' ' ∨ c = '\t' := fun _ => Document.mem_lineIndent
    rw [htext]
    exact ⟨Text.oneLine_directiveLine hindent (hlinters x hx), Text.head?_directiveLine hindent⟩
  have hsplice := d.splice_lines (d.directivesAbove findings)
    (fun line l => ((d.directivesAbove findings l).map (·.newText.toList)).flatten ++ line)
    fun l line _ => by
      have hpoint : ∀ e ∈ d.directivesAbove findings l, e.span = .point (Text.startOf d.lines l) :=
        fun e he => (directivesAbove_spec he).1
      refine ⟨Edit.fits_of_points hpoint (Text.startOf_mono d.lines (Nat.le_succ l)), ?_⟩
      have hnew := Edit.splice_insertions hpoint line []
      rwa [List.append_nil, Edit.splice_nil, List.flatMap_def] at hnew
  rw [hsplice, Text.lines_interleave hline]
  rw [Document.flatten_lines]
  rfl

/-- Findings on lines are all answered, each by its directive; of those at one place that of the
last finding comes first. -/
lemma applyFixes_silencing (h : d.Silenced findings) :
    ∃ a, applyFixes d ((inspect t d findings).map (·.resolution)) = .ok a ∧ a.Sound d ∧
      a.skipped = 0 ∧ a.applied = findings.length ∧
      (∀ es ∈ a.taken, ∃ x ∈ findings, es = [d.silencing x]) ∧
      ∀ o, Edit.insertingAt o a.taken =
        (Edit.insertingAt o (findings.map fun x => [d.silencing x])).reverse := by
  have haccepts : ∀ r ∈ (inspect t d findings).map (·.resolution), ∀ es,
      r.firstEdits? = some es → d.Accepts es := by
    intro r hr es hes
    obtain ⟨-, -, -, haccepts⟩ := accepts_silencing h hr hes
    exact haccepts
  obtain ⟨a, ha, hsound, htaken, hskipped⟩ := applyFixes_together haccepts
    ((firstEdits_inspect h).symm ▸ together_silencing d findings)
  refine ⟨a, ha, hsound, hskipped, ?_, fun es hes => ?_, fun o => ?_⟩
  · rw [Application.applied, htaken, List.length_reverse, pendingEdits, List.length_mergeSort,
      ← firstEdits, firstEdits_inspect h, List.length_map]
  · obtain ⟨r, hr, hfirst⟩ := mem_pendingEdits.1 (List.mem_reverse.1 (htaken ▸ hes))
    obtain ⟨x, hx, hes, -⟩ := accepts_silencing h hr hfirst
    exact ⟨x, hx, hes⟩
  · rw [insertingAt_taken haccepts ha, firstEdits_inspect h]

/-- In the order of their places, such directives are those above one line after the other. -/
lemma inOrder_silencing (h : d.Silenced findings) {taken : List (List Edit)}
    (htaken : ∀ es ∈ taken, ∃ x ∈ findings, es = [d.silencing x])
    (hat : ∀ o, Edit.insertingAt o taken =
      (Edit.insertingAt o (findings.map fun x => [d.silencing x])).reverse) :
    Edit.inOrder taken.flatten =
      (List.range d.lineCount).flatMap (d.directivesAbove findings) := by
  have hpoints : ∀ e ∈ taken.flatten,
      ∃ o ∈ (List.range d.lineCount).map (Text.startOf d.lines), e.span = .point o := by
    intro e he
    obtain ⟨es, hes, he⟩ := List.mem_flatten.1 he
    obtain ⟨x, hx, rfl⟩ := htaken es hes
    obtain rfl := List.mem_singleton.1 he
    exact ⟨_, List.mem_map_of_mem (List.mem_range.2 (h x hx).2), rfl⟩
  have hascending : ((List.range d.lineCount).map (Text.startOf d.lines)).Pairwise (· < ·) := by
    refine List.pairwise_map.2 (List.pairwise_lt_range.imp_of_mem fun _ hm hlt => ?_)
    exact Text.startOf_lt_of_lt hlt (List.mem_range.1 hm)
  have hsingle : ∀ es ∈ taken, (∀ e ∈ es, e.span.start ≤ e.span.stop) ∧ Edit.Separate es := by
    intro es hes
    obtain ⟨x, -, rfl⟩ := htaken es hes
    exact ⟨by simp [Document.silencing, Edit.insert, Span.point], Edit.separate_singleton _⟩
  rw [Edit.inOrder_insertions hascending hpoints, List.flatMap_map]
  refine List.flatMap_congr fun l hl => ?_
  -- lines that start at the same place are the same line
  have hsame : (findings.filter fun x =>
      Edit.extent [d.silencing x] = .point (Text.startOf d.lines l)) =
        findings.filter (·.2 = l) := by
    refine List.filter_congr fun x hx => decide_eq_decide.2 ?_
    rw [← Text.startOf_inj (h x hx).2 (List.mem_range.1 hl)]
    exact (Edit.span_eq_point (e := d.silencing x)).trans (and_self_iff ..)
  rw [Edit.insertsAt_flatten hsingle, hat, Edit.insertingAt, List.filter_map,
    Document.directivesAbove, ← hsame, ← List.map_reverse, ← List.flatMap_def,
    List.map_eq_flatMap]
  rfl

/-- Findings that are silenced on their lines are all answered, whatever their order and however
many are on a line. The lines of the document stay as they were and in their order, and above each
stand the directives for the findings on it, indented like it, that of the last one first. -/
theorem silencing_batch (t : Tree ν) (d : Document) (findings : List (Diagnostic × Nat))
    (hrules : ∀ x ∈ findings, Strategy.ofRule x.1.rule = .suppressLine)
    (hlines : ∀ x ∈ findings, x.2 < d.lineCount)
    (hlinters : ∀ x ∈ findings, ∀ c ∈ x.1.linter.toList, Text.isLineBreak c = false) :
    ∃ a, applyFixes d ((inspect t d findings).map (·.resolution)) = .ok a ∧
      a.skipped = 0 ∧ a.applied = findings.length ∧
      a.document.lines = d.lines.zipIdx.flatMap fun (line, l) =>
        ((findings.filter (·.2 = l)).reverse.map fun x =>
          Text.indent line ++ "//nolint:".toList ++ x.1.linter.toList ++ ['\n']) ++ [line] := by
  have hsilenced : d.Silenced findings := fun x hx => ⟨hrules x hx, hlines x hx⟩
  obtain ⟨a, ha, hsound, hskipped, hcount, htaken, hat⟩ := applyFixes_silencing (t := t) hsilenced
  refine ⟨a, ha, hskipped, hcount, ?_⟩
  have hall := lines_directivesAbove (d := d) hlinters
  rw [← inOrder_silencing hsilenced htaken hat, ← hsound.chars_eq] at hall
  refine hall.trans (List.flatMap_congr fun x hx => ?_)
  rw [map_newText_directivesAbove (List.mem_zipIdx_iff_getElem?.1 hx)]

/-- Two findings on one line, one of which names its tool, and one on the empty line at the end. -/
theorem silencing_batch_shared_line :
    let d := Document.ofString "\tx()\r\n"
    let finding (rule source : String) (l : Nat) : Diagnostic × Nat :=
      (⟨rule, "", "a.go", l + 1, 0, none, source⟩, l)
    let findings := [finding "lll" "" 0, finding "G104" "gosec" 1, finding "errcheck" "" 0]
    ∃ a, applyFixes d ((inspect (Go.parse d.chars).tree d findings).map (·.resolution)) = .ok a ∧
      a.skipped = 0 ∧ a.applied = 3 ∧
      a.document.lines = ["\t//nolint:errcheck\n".toList, "\t//nolint:lll\n".toList,
        "\tx()\r\n".toList, "//nolint:gosec\n".toList, []] := by
  intro d finding findings
  have hlinters : ∀ x ∈ findings, x.1.linter.toList.all fun c => !Text.isLineBreak c := by decide
  obtain ⟨a, ha, hskipped, hcount, hlines⟩ := silencing_batch (Go.parse d.chars).tree d findings
    (by decide) (by decide) fun x hx => Text.unbroken_of_all (hlinters x hx)
  exact ⟨a, ha, hskipped, hcount, hlines.trans (by decide)⟩

end Mend
