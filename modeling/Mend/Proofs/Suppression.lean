import Mend.Proofs.Resolution

/-! What the strategies that silence a linter offer: one directive, above one line. -/
namespace Mend

namespace Document

variable {d : Document} {line : Nat}

theorem directiveAbove?_eq_some {linter : String} {e : Edit} :
    d.directiveAbove? line linter = some e ↔ ∃ o, d.lineStart? line = some o ∧
      e = .insert o (directiveLine (d.lineIndent line) linter) := by
  unfold directiveAbove?
  cases d.lineStart? line <;> simp [eq_comm]

theorem mem_lineIndent {c : Char} (h : c ∈ d.lineIndent line) : c = ' ' ∨ c = '\t' := by
  unfold lineIndent at h
  cases ht : d.lineText? line with
  | none => simp [ht] at h
  | some cs =>
    rw [ht] at h
    have hc := List.all_eq_true.1 List.all_takeWhile c h
    simpa using hc

end Document

namespace Strategy

/-- The strategies that silence a linter. -/
def silences : Strategy → Bool
  | suppressLine | suppressNumber | suppressParameter | suppressFunction _ => true
  | _ => false

/-- The linter that a strategy silences. -/
def silenced (diag : Diagnostic) : Strategy → String
  | suppressFunction linter => linter
  | _ => diag.linter

/-- The strategy that silences a linter for a function is that of the linter's own rule. -/
lemma eq_of_ofRule {rule linter : String} (h : ofRule rule = .suppressFunction linter) :
    linter = rule := by
  unfold ofRule ofRule? at h
  split at h <;> simp_all

end Strategy

namespace Site

variable {ν : Type} {s : Site ν} {c : Candidate} {line o : Nat} {linter : String}

/-- The function for which a strategy silences its linter. -/
def function? (s : Site ν) : Strategy → Option ν
  | .suppressFunction _ => s.locate? .functionDeclaration
  | .suppressParameter =>
    (s.locate? .parameterDeclaration).bind (s.tree.enclosing? .functionDeclaration)
  | _ => none

/-- The line above which a strategy puts its directive: that on which the function starts, if it is
one for functions, and that of the finding otherwise. -/
def silencedLine? (s : Site ν) : Strategy → Option Nat
  | .suppressLine | .suppressNumber => some s.line
  | strategy =>
    (s.function? strategy).map fun f => (s.document.position (s.tree.span f).start).1

/-- The candidate puts a directive above a line of the document, which starts at an offset. -/
structure Directs (s : Site ν) (c : Candidate) (line : Nat) (linter : String) (o : Nat) :
    Prop where
  start : s.document.lineStart? line = some o
  edits : c.edits? = some [.insert o (directiveLine (s.document.lineIndent line) linter)]

/-- The linter is the one that the finding names. -/
structure Silences (s : Site ν) (c : Candidate) (line : Nat) (linter : String) (o : Nat) : Prop
    extends s.Directs c line linter o where
  named : linter = s.diagnostic.linter ∨ linter = s.diagnostic.rule

lemma directs_of_suppressLineCandidate? (h : s.suppressLineCandidate? = some c) :
    ∃ o, s.Directs c s.line s.diagnostic.linter o := by
  obtain ⟨e, he, rfl⟩ := Option.map_eq_some_iff.1 h
  obtain ⟨o, ho, rfl⟩ := Document.directiveAbove?_eq_some.1 he
  exact ⟨o, ho, rfl⟩

lemma directs_of_suppressFunctionCandidate? {f : ν}
    (h : s.suppressFunctionCandidate? f linter = some c) :
    ∃ o, s.Directs c (s.document.position (s.tree.span f).start).1 linter o := by
  obtain ⟨e, he, rfl⟩ := Option.map_eq_some_iff.1 h
  obtain ⟨o, ho, rfl⟩ := Document.directiveAbove?_eq_some.1 he
  exact ⟨o, ho, rfl⟩

/-- What a strategy that silences a linter offers, if anything, is one directive above its line. -/
theorem directs_resolveAt {strategy : Strategy} (hs : strategy.silences) :
    ∃ c? highlight?, strategy.resolveAt s = .ok (.ofCandidate? c? highlight?) ∧
      ∀ c, c? = some c → ∃ line o, s.silencedLine? strategy = some line ∧
        s.Directs c line (strategy.silenced s.diagnostic) o := by
  have hline : ∀ c, s.suppressLineCandidate? = some c →
      ∃ line o, some s.line = some line ∧ s.Directs c line s.diagnostic.linter o := by
    intro c hc
    obtain ⟨o, ho⟩ := directs_of_suppressLineCandidate? hc
    exact ⟨s.line, o, rfl, ho⟩
  cases strategy with
  | suppressLine => exact ⟨_, _, rfl, hline⟩
  | suppressNumber =>
    simp only [Strategy.resolveAt, suppressNumber]
    split
    · exact ⟨_, _, rfl, hline⟩
    · exact ⟨none, none, rfl, by simp⟩
  | suppressFunction linter =>
    simp only [Strategy.resolveAt, suppressFunction]
    split
    · rename_i f hf
      refine ⟨_, _, rfl, fun c hc => ?_⟩
      obtain ⟨o, ho⟩ := directs_of_suppressFunctionCandidate? hc
      exact ⟨_, o, by simp [silencedLine?, function?, hf], ho⟩
    · exact ⟨none, none, rfl, by simp⟩
  | suppressParameter =>
    simp only [Strategy.resolveAt, suppressParameter]
    split
    · rename_i p hp
      refine ⟨_, _, rfl, fun c hc => ?_⟩
      obtain ⟨f, hf, hc⟩ := Option.bind_eq_some_iff.1 hc
      obtain ⟨o, ho⟩ := directs_of_suppressFunctionCandidate? hc
      exact ⟨_, o, by simp [silencedLine?, function?, hp, hf], ho⟩
    · exact ⟨none, none, rfl, by simp⟩
  | _ => cases hs

lemma named_silenced (s : Site ν) :
    (Strategy.ofRule s.diagnostic.rule).silenced s.diagnostic = s.diagnostic.linter ∨
      (Strategy.ofRule s.diagnostic.rule).silenced s.diagnostic = s.diagnostic.rule := by
  cases hstrategy : Strategy.ofRule s.diagnostic.rule with
  | suppressFunction linter => exact .inr (Strategy.eq_of_ofRule hstrategy)
  | _ => exact .inl rfl

/-- What is offered to silence a linter is one directive above some line. -/
theorem silences_resolve {r : Resolution} (hs : (Strategy.ofRule s.diagnostic.rule).silences)
    (hr : s.resolve = .ok r) (hc : c ∈ r.candidates) :
    r.candidates = [c] ∧ ∃ line linter o, s.Silences c line linter o := by
  obtain ⟨c?, highlight?, hresolve, hdirects⟩ := directs_resolveAt (s := s) hs
  obtain rfl := Except.ok.inj (hresolve.symm.trans hr)
  obtain rfl : c? = some c := by simpa [Resolution.ofCandidate?] using hc
  obtain ⟨line, o, -, hdirects⟩ := hdirects c rfl
  exact ⟨rfl, line, _, o, hdirects, named_silenced s⟩

/-- What is offered to silence a linter on its line is one directive above that line. -/
theorem silences_line {r : Resolution}
    (hs : Strategy.ofRule s.diagnostic.rule = .suppressLine ∨
      Strategy.ofRule s.diagnostic.rule = .suppressNumber)
    (hr : s.resolve = .ok r) (hc : c ∈ r.candidates) :
    r.candidates = [c] ∧ ∃ o, s.Silences c s.line s.diagnostic.linter o := by
  have hsilences : (Strategy.ofRule s.diagnostic.rule).silences := by
    rcases hs with hs | hs <;> rw [hs] <;> rfl
  have hline : s.silencedLine? (Strategy.ofRule s.diagnostic.rule) = some s.line ∧
      (Strategy.ofRule s.diagnostic.rule).silenced s.diagnostic = s.diagnostic.linter := by
    rcases hs with hs | hs <;> rw [hs] <;> exact ⟨rfl, rfl⟩
  obtain ⟨c?, highlight?, hresolve, hdirects⟩ := directs_resolveAt (s := s) hsilences
  obtain rfl := Except.ok.inj (hresolve.symm.trans hr)
  obtain rfl : c? = some c := by simpa [Resolution.ofCandidate?] using hc
  obtain ⟨line, o, hsome, hdirects⟩ := hdirects c rfl
  obtain rfl := Option.some.inj (hline.1.symm.trans hsome)
  rw [hline.2] at hdirects
  exact ⟨rfl, o, hdirects, .inl rfl⟩

end Site
end Mend
