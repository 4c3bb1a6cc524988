import Mend.Proofs.Go.Spans
import Mend.Proofs.LineEnds
import Mend.Proofs.Resolution
import Mend.Proofs.Suppression

/-! Fixes that put in one line. The document that they leave has the lines it had, with their
terminators, and one more: a directive above the line that it is for, indented like it, or an empty
line. -/
namespace Mend

/-- A directive is the indentation, the comment mark with the linter, and a line feed. -/
lemma directiveLine_eq (indent : List Char) (linter : String) :
    (directiveLine indent linter).toList =
      indent ++ "//nolint:".toList ++ linter.toList ++ ['\n'] := by
  simp [directiveLine, nolintDirective]

namespace Text

lemma indent_dropLast {line : List Char} {c : Char} (h : line.getLast? = some c)
    (hc : ¬ (c = ' ' ∨ c = '\t')) : indent line.dropLast = indent line := by
  obtain ⟨front, rfl⟩ := List.getLast?_eq_some_iff.1 h
  have hstop : [c].takeWhile (fun c => c = ' ' || c = '\t') = [] := by
    simpa [List.takeWhile_cons] using hc
  rw [List.dropLast_concat, indent, indent, List.takeWhile_append, hstop, List.append_nil]
  split
  · rename_i hall
    exact (List.takeWhile_prefix _).eq_of_length hall
  · rfl

/-- The indentation does not depend on the terminator. -/
lemma indent_bareLine (line : List Char) : indent (bareLine line) = indent line := by
  unfold bareLine
  simp only
  split
  · rename_i hfeed
    split
    · rename_i hcr
      rw [indent_dropLast hcr (by decide), indent_dropLast hfeed (by decide)]
    · exact indent_dropLast hfeed (by decide)
  · split
    · rename_i hcr
      exact indent_dropLast hcr (by decide)
    · rfl

lemma oneLine_directiveLine {indent : List Char} {linter : String}
    (hindent : ∀ c ∈ indent, c = ' ' ∨ c = '\t')
    (hlinter : ∀ c ∈ linter.toList, isLineBreak c = false) :
    OneLine (directiveLine indent linter).toList := by
  refine ⟨_, ?_, directiveLine_eq indent linter⟩
  intro c hc
  simp only [List.mem_append] at hc
  rcases hc with (hc | hc) | hc
  · rcases hindent c hc with rfl | rfl <;> decide
  · exact unbroken_of_all (by decide) c hc
  · exact hlinter c hc

/-- No directive starts with a line feed, which a CR in front of it would take. -/
lemma head?_directiveLine {indent : List Char} {linter : String}
    (hindent : ∀ c ∈ indent, c = ' ' ∨ c = '\t') :
    (directiveLine indent linter).toList.head? ≠ some '\n' := by
  rw [directiveLine_eq]
  cases indent with
  | nil => simp
  | cons c indent => rcases hindent c (by simp) with rfl | rfl <;> simp

end Text

namespace Document

variable {d : Document} {l o : Nat}

lemma lineIndent_eq {line : List Char} (h : d.lines[l]? = some line) :
    d.lineIndent l = Text.indent line := by
  rw [lineIndent, lineText?, h, Option.map_some, Option.map_some, Option.getD_some,
    Text.indent_bareLine]

/-- The line above ends with a CR on its own. -/
def BelowCR (d : Document) (l : Nat) : Prop :=
  ∃ k above, l = k + 1 ∧ d.lines[k]? = some above ∧ above.getLast? = some '\r'

lemma belowCR_of_getLast? (hl : l < d.lineCount)
    (h : (d.lines.take l).flatten.getLast? = some '\r') : d.BelowCR l := by
  cases l with
  | zero => simp at h
  | succ k =>
    obtain ⟨above, habove⟩ : ∃ above, d.lines[k]? = some above :=
      ⟨_, List.getElem?_eq_getElem (Nat.lt_of_succ_lt hl)⟩
    have hsome := List.getLast?_eq_some_getLast (Text.ne_nil_of_lines habove hl)
    rw [List.take_add_one, habove, Option.toList_some, List.flatten_append, List.flatten_singleton,
      List.getLast?_append, hsome, Option.some_or, ← hsome] at h
    exact ⟨k, above, rfl, habove, h⟩

/-- A line put in at the start of another one is one more line, unless it is taken for the end of
the line above. -/
theorem lines_apply_insert {w : String} (ho : d.lineStart? l = some o)
    (hw : Text.OneLine w.toList) (hcr : w.toList.head? = some '\n' → ¬ d.BelowCR l) :
    ∃ e, d.apply [.insert o w] = .ok e ∧ e.lines = d.lines.insertIdx l w.toList := by
  refine ⟨_, apply_insert (lineStart?_le ho), ?_⟩
  obtain ⟨hl, rfl⟩ := lineStart?_eq_some.1 ho
  have htake : d.chars.take (Text.startOf d.lines l) = (d.lines.take l).flatten := by
    have hsplit : (d.lines.take l).flatten ++ (d.lines.drop l).flatten = d.chars := by
      rw [← List.flatten_append, List.take_append_drop, flatten_lines]
    rw [← hsplit, Text.startOf, List.take_left]
  have hdrop : d.chars.drop (Text.startOf d.lines l) = (d.lines.drop l).flatten := by
    rw [← Text.drop_startOf, flatten_lines]
  have hends : Text.EndsLine (d.lines.take l).flatten w.toList := by
    refine (Text.lines_drop hl).2.congr fun hlast hhead => ?_
    exact absurd (belowCR_of_getLast? hl hlast) (hcr hhead)
  have hlines := Text.lines_insert hw hl hends
  rw [htake, hdrop, List.append_assoc]
  exact hlines

end Document

namespace Site

variable {ν : Type} {s : Site ν} {c : Candidate} {l o : Nat} {linter : String}

/-- The line above which a strategy puts its directive: that of the finding, or that on which the
function around it starts. -/
def PutsAbove (s : Site ν) (strategy : Strategy) (l : Nat) : Prop :=
  match strategy with
  | .suppressLine | .suppressNumber => l = s.line
  | _ => ∃ f, s.function? strategy = some f ∧ s.document.OnLine l (s.tree.span f).start

lemma reachable_function? {strategy : Strategy} {f : ν} (h : s.function? strategy = some f) :
    s.tree.Reachable f := by
  cases strategy with
  | suppressFunction _ => exact Tree.Reachable.locate? h
  | suppressParameter =>
    obtain ⟨p, hp, hf⟩ := Option.bind_eq_some_iff.1 h
    exact (Tree.Reachable.locate? hp).enclosing? hf
  | _ => cases h

/-- In a tree over the document a function starts on a line of it. -/
lemma putsAbove_of_silencedLine? (ht : s.tree.Within s.document.length) {strategy : Strategy}
    (h : s.silencedLine? strategy = some l) : s.PutsAbove strategy l := by
  have hstart : ∀ f, s.function? strategy = some f → (s.tree.span f).start ≤ s.document.length := by
    intro f hf
    obtain ⟨hle, hstop⟩ := ht f (reachable_function? hf)
    omega
  unfold silencedLine? at h
  split at h
  · exact (Option.some.inj h).symm
  · exact (Option.some.inj h).symm
  · obtain ⟨f, hf, rfl⟩ := Option.map_eq_some_iff.1 h
    unfold PutsAbove
    split
    · contradiction
    · contradiction
    · exact ⟨f, hf, Document.onLine_position (hstart f hf)⟩

/-- A directive is put in as a line of its own. -/
lemma Directs.lines (h : s.Directs c l linter o)
    (hlinter : ∀ x ∈ linter.toList, Text.isLineBreak x = false) :
    ∃ es e line, c.edits? = some es ∧ s.document.apply es = .ok e ∧
      s.document.lines[l]? = some line ∧
      e.lines = s.document.lines.insertIdx l
        (Text.indent line ++ "//nolint:".toList ++ linter.toList ++ ['\n']) := by
  have hindent : ∀ x ∈ s.document.lineIndent l, x = ' ' ∨ x = '\t' :=
    fun _ => Document.mem_lineIndent
  obtain ⟨e, he, hlines⟩ := Document.lines_apply_insert h.start
    (Text.oneLine_directiveLine hindent hlinter)
    fun hhead => absurd hhead (Text.head?_directiveLine hindent)
  obtain ⟨hl, -⟩ := Document.lineStart?_eq_some.1 h.start
  obtain ⟨line, hline⟩ : ∃ line, s.document.lines[l]? = some line :=
    ⟨_, List.getElem?_eq_getElem hl⟩
  rw [directiveLine_eq, Document.lineIndent_eq hline] at hlines
  exact ⟨_, e, line, h.edits, he, hline, hlines⟩

/-- To silence a linter is to put in one line and to leave all others as they were: a directive
with the indentation of the line below it, which is the line of the finding or the one on which the
function around it starts. To set a line off is to put in one empty line above it, if the line above
does not end with a CR on its own. A line can be silenced just if the document has it. -/
theorem silencing_adds_line (s : Site ν) (ht : s.tree.Within s.document.length) :
    (∀ strategy : Strategy, strategy.silences →
      (∀ x ∈ (strategy.silenced s.diagnostic).toList, Text.isLineBreak x = false) →
      ∃ r, strategy.resolveAt s = .ok r ∧ ∀ c ∈ r.candidates, ∃ es e l line,
        c.edits? = some es ∧ s.document.apply es = .ok e ∧ s.PutsAbove strategy l ∧
        s.document.lines[l]? = some line ∧
        e.lines = s.document.lines.insertIdx l (Text.indent line ++ "//nolint:".toList ++
          (strategy.silenced s.diagnostic).toList ++ ['\n'])) ∧
    (∃ r, Strategy.insertBlankLine.resolveAt s = .ok r ∧ ∀ c ∈ r.candidates, ∃ es e,
      c.edits? = some es ∧ s.document.apply es = .ok e ∧
      (¬ s.document.BelowCR s.line → e.lines = s.document.lines.insertIdx s.line ['\n'])) ∧
    ∃ r, Strategy.suppressLine.resolveAt s = .ok r ∧
      (r.candidates ≠ [] ↔ s.line < s.document.lineCount) := by
  refine ⟨fun strategy hs hlinter => ?_, ⟨_, rfl, fun c hc => ?_⟩, _, rfl, ?_⟩
  · obtain ⟨c?, highlight?, hr, hdirects⟩ := directs_resolveAt (s := s) hs
    refine ⟨_, hr, fun c hc => ?_⟩
    obtain rfl : c? = some c := by simpa [Resolution.ofCandidate?] using hc
    obtain ⟨l, o, hline, hdirects⟩ := hdirects c rfl
    obtain ⟨es, e, line, hes, he, hget, hlines⟩ := hdirects.lines hlinter
    exact ⟨es, e, l, line, hes, he, putsAbove_of_silencedLine? ht hline, hget, hlines⟩
  · obtain ⟨o, ho, hedits⟩ := offers_insertBlankLine hc
    have hone : Text.OneLine "\n".toList := ⟨[], by simp, rfl⟩
    by_cases hcr : s.document.BelowCR s.line
    · have hfits : s.document.Accepts [.insert o "\n"] :=
        (Document.accepts_singleton _ _).2 (Span.within_point (Document.lineStart?_le ho))
      exact ⟨_, _, hedits, Document.apply_of_accepts hfits, fun h => absurd hcr h⟩
    · obtain ⟨e, he, hlines⟩ := Document.lines_apply_insert ho hone fun _ => hcr
      exact ⟨_, e, hedits, he, fun _ => hlines⟩
  · rw [← Document.lineStart?_isSome]
    simp [suppressLine, suppressLineCandidate?, Document.directiveAbove?, Resolution.ofCandidate?,
      Option.isSome_iff_ne_none]

/-- A report in the body of a function, in a text whose lines end with CR and line feed. -/
theorem silencing_adds_line_crlf :
    let d := Document.ofString "package a\r\n\r\nfunc f() \x7b\r\n\x7d\r\n"
    let s : Site _ := ⟨(Go.parse d.chars).tree, d, ⟨"funlen", "", "a.go", 4, 0, none, "funlen"⟩, 3⟩
    ∃ e l line, d.apply [.insert 13 "//nolint:funlen\n"] = .ok e ∧
      s.PutsAbove (.suppressFunction "funlen") l ∧ d.lines[l]? = some line ∧
      e.lines = d.lines.insertIdx l
        (Text.indent line ++ "//nolint:".toList ++ "funlen".toList ++ ['\n']) := by
  intro d s
  let c : Candidate :=
    ⟨"Suppress 'funlen' for function 'f'", .edits [.insert 13 "//nolint:funlen\n"]⟩
  have hoffer : s.suppressFunction "funlen" = .single c (some ⟨18, 19⟩) := by decide +kernel
  obtain ⟨r, hr, h⟩ := (silencing_adds_line s (Go.tree_within d.chars)).1
    (.suppressFunction "funlen") rfl (Text.unbroken_of_all (by decide))
  obtain rfl := Except.ok.inj hr
  have hc : c ∈ (s.suppressFunction "funlen").candidates := by
    rw [hoffer]
    exact List.mem_singleton.2 rfl
  obtain ⟨es, e, l, line, hes, he, habove, hline, hlines⟩ := h c hc
  obtain rfl : [.insert 13 "//nolint:funlen\n"] = es := Option.some.inj hes
  exact ⟨e, l, line, he, habove, hline, hlines⟩

end Site
end Mend
