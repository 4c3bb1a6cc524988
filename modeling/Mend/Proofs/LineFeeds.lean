import Mend.Fix.Suppression
import Mend.Go.Parse
import Mend.Proofs.LineEnds

/-! Lines counted by line feeds, as analysers count them. A text that ends with a line feed is a
number of whole lines, and what follows it starts a line of its own; these lines are as many as the
line feeds just where nothing else breaks a line. -/
namespace Mend

namespace Text

/-- The text is empty or ends with a line feed. -/
def Closed (cs : List Char) : Prop := cs = [] ∨ cs.getLast? = some '\n'

instance (cs : List Char) : Decidable (Closed cs) := inferInstanceAs (Decidable (_ ∨ _))

/-- The number of line breaks that are no line feeds. A CR in front of a line feed is a part of
it. -/
def strayBreaks : List Char → Nat
  | [] => 0
  | '\r' :: '\n' :: rest => strayBreaks rest
  | c :: rest => (if isLineBreak c ∧ c ≠ '\n' then 1 else 0) + strayBreaks rest

/-- The offset behind the `k`-th line feed, which is where analysers start line `k + 1`. -/
def pastLineFeeds? : Nat → List Char → Option Nat
  | 0, _ => some 0
  | _ + 1, [] => none
  | k + 1, c :: rest =>
    (if c = '\n' then pastLineFeeds? k rest else pastLineFeeds? (k + 1) rest).map (· + 1)

variable {a cs : List Char} {k o : Nat}

lemma Closed.endsLine (h : Closed a) (y : List Char) : EndsLine a y :=
  h.imp_right fun hlast => ⟨'\n', hlast, by decide, fun h => absurd h (by decide)⟩

/-- The lines of a text that ends with a line feed do not depend on what follows. -/
theorem lines_append (h : Closed a) :
    ∃ ls, lines a = ls ++ [[]] ∧ ∀ y, lines (a ++ y) = ls ++ lines y := by
  obtain ⟨ls, hls, -⟩ := lines_append_of_endsLine (h.endsLine [])
  refine ⟨ls, hls, fun y => ?_⟩
  obtain ⟨ls', hls', happ⟩ := lines_append_of_endsLine (h.endsLine y)
  rwa [List.append_cancel_right (hls.symm.trans hls')]

/-- Every line but the last one ends with a line feed or with a stray break. -/
theorem length_lines (cs : List Char) :
    (lines cs).length = cs.count '\n' + strayBreaks cs + 1 := by
  fun_induction strayBreaks cs with
  | case1 => rfl
  | case2 rest ih => simp [lines, ih]; omega
  | case3 c rest hcr ih =>
    have hpos := length_lines_pos rest
    have hlines : lines (c :: rest) =
        if isLineBreak c then [c] :: lines rest else consFirst c (lines rest) := by
      rw [lines]
      exact hcr
    by_cases hc : c = '\n'
    · subst hc
      rw [hlines, if_pos (by decide)]
      simp [ih]
      omega
    · by_cases hbreak : isLineBreak c = true
      · simp [hlines, hbreak, hc, ih]
        omega
      · simp [hlines, hbreak, hc, ih]

lemma closed_cons {c : Char} (h : Closed a) (hc : a = [] → c = '\n') : Closed (c :: a) := by
  cases a with
  | nil => exact .inr (by simp [hc rfl])
  | cons d a => exact .inr (by simpa [Closed] using h)

/-- Up to where an analyser starts a line, a text has as many line feeds as there are lines. -/
lemma take_pastLineFeeds? (h : pastLineFeeds? k cs = some o) :
    Closed (cs.take o) ∧ (cs.take o).count '\n' = k ∧ o ≤ cs.length := by
  fun_induction pastLineFeeds? k cs generalizing o with
  | case1 =>
    obtain rfl := Option.some.inj h
    exact ⟨.inl (by simp), by simp, Nat.zero_le _⟩
  | case2 => cases h
  | case3 k c rest ih₁ ih₂ =>
    obtain ⟨p, hp, rfl⟩ := Option.map_eq_some_iff.1 h
    split at hp
    · rename_i hc
      obtain ⟨hclosed, hcount, hle⟩ := ih₁ hp
      exact ⟨closed_cons hclosed fun _ => hc, by simp [hc, hcount], by simpa using hle⟩
    · rename_i hc
      obtain ⟨hclosed, hcount, hle⟩ := ih₂ hp
      refine ⟨closed_cons hclosed fun hnil => ?_, by simp [hc, hcount], by simpa using hle⟩
      rw [hnil] at hcount
      cases hcount

/-- Lines with something in each of them start further and further on. -/
lemma startOf_lt {ls : List (List Char)} (hne : ∀ l ∈ ls, l ≠ []) (hk : k < ls.length) :
    startOf ls k < ls.flatten.length := by
  have hnext := startOf_succ (List.getElem?_eq_getElem hk)
  have hpos := List.length_pos_iff.2 (hne _ (List.getElem_mem hk))
  have hle := startOf_le ls (k + 1)
  omega

end Text

namespace Document

variable {a y : List Char} {k : Nat}

/-- The lines of a text start at the end of `a` with the line whose number is that of the lines in
`a`, and with no other one. -/
theorem lineStart?_append (h : Text.Closed a) (hk : k < (Text.lines a).length) :
    ∃ o, (Document.mk (a ++ y)).lineStart? k = some o ∧
      (o = a.length ↔ (Text.lines a).length = k + 1) := by
  obtain ⟨ls, hls, happ⟩ := Text.lines_append h
  have hne : ∀ l ∈ ls, l ≠ [] := by
    intro l hl
    obtain ⟨i, hi, rfl⟩ := List.getElem_of_mem hl
    have hline : (Text.lines a)[i]? = some ls[i] := by
      rw [hls, List.getElem?_append_left hi, List.getElem?_eq_getElem hi]
    exact Text.ne_nil_of_lines hline (by simp [hls, hi])
  have hflat : ls.flatten = a := by simpa [hls] using Text.flatten_lines a
  have hlen : (Text.lines a).length = ls.length + 1 := by simp [hls]
  have hkl : k ≤ ls.length := by omega
  have hstart : Text.startOf (ls ++ Text.lines y) k = Text.startOf ls k := by
    simp [Text.startOf, List.take_append_of_le_length hkl]
  have hpos := Text.length_lines_pos y
  refine ⟨_, lineStart?_eq_some.2 ⟨?_, rfl⟩, ?_⟩
  · simp only [lineCount, lines, happ, List.length_append]
    omega
  · rw [lines, happ, hstart, hlen]
    constructor
    · intro heq
      refine Classical.byContradiction fun hlt => ?_
      have := Text.startOf_lt hne (by omega : k < ls.length)
      rw [hflat] at this
      omega
    · intro heq
      obtain rfl : k = ls.length := by omega
      rw [Text.startOf_length, hflat]

/-- The document line of a finding starts where the analyser starts its line just where no other
line breaks stand in front of it, and so does what is put above that line. -/
theorem lineStart?_documentLine_iff {text : List Char} {diag : Diagnostic} {n o : Nat}
    (hline : diag.line = n + 1) (h : Text.pastLineFeeds? n text = some o) :
    ((Document.mk text).lineStart? diag.documentLine = some o ↔
        Text.strayBreaks (text.take o) = 0) ∧
      ∀ linter, ∃ e, (Document.mk text).directiveAbove? diag.documentLine linter = some e ∧
        (e.span = .point o ↔ Text.strayBreaks (text.take o) = 0) := by
  obtain ⟨hclosed, hcount, hle⟩ := Text.take_pastLineFeeds? h
  have hlines := Text.length_lines (text.take o)
  obtain ⟨p, hp, hiff⟩ := lineStart?_append (y := text.drop o) (k := n) hclosed (by omega)
  have hdoc : diag.documentLine = n := by simp [Diagnostic.documentLine, hline]
  rw [List.take_append_drop] at hp
  rw [List.length_take_of_le hle, hlines, hcount] at hiff
  have hplace : p = o ↔ Text.strayBreaks (text.take o) = 0 := by
    rw [hiff]
    omega
  rw [hdoc]
  refine ⟨by rw [hp, Option.some_inj, hplace], fun linter => ?_⟩
  refine ⟨_, by rw [directiveAbove?, hp]; rfl, ?_⟩
  rw [← hplace]
  simp [Edit.insert, Span.point]

/-- A CR in front of a line feed is no stray break. -/
theorem lineStart?_behind_crlf :
    let text := "package a\r\n\r\nvar x = 1\r\n".toList
    let diag : Diagnostic := ⟨"gosec", "", "a.go", 3, 0, none, "gosec"⟩
    (Document.mk text).lineStart? diag.documentLine = some 13 :=
  (lineStart?_documentLine_iff (n := 2) rfl (by decide)).1.2 (by decide)

/-- Behind a comment with a line separator in it a finding is looked for one line too early, which
is in the middle of the comment. -/
theorem lineStart?_behind_separator :
    let text := "package a\n\n// a\u2028b\nvar x = 1\n".toList
    let diag : Diagnostic := ⟨"gosec", "", "a.go", 4, 0, none, "gosec"⟩
    (Go.parse text).hasErrors = false ∧ diag.line = 3 + 1 ∧ Text.pastLineFeeds? 3 text = some 18 ∧
      (Document.mk text).lineStart? diag.documentLine = some 16 := by
  refine ⟨by decide +kernel, rfl, by decide, by decide⟩

end Document
end Mend
