import Mend.Fix.Strategy
import Mend.Proofs.Lines
import Mend.Proofs.Splice

/-! What resolving a finding offers fits the document, whatever the rule: edits that the document
accepts and a highlight inside it. -/
namespace Mend

namespace Tree

variable {ν : Type} {t : Tree ν} {k : NodeKind} {n m : ν}

theorem Reachable.enclosing? (hn : t.Reachable n) (h : t.enclosing? k n = some m) :
    t.Reachable m := by
  cases mem_of_enclosing? h with
  | head => exact hn
  | tail _ hm => exact hn.ancestor hm

theorem Reachable.enclosingAt? {o : Nat} (h : t.enclosingAt? k o = some m) : t.Reachable m := by
  obtain ⟨leaf, hleaf, hm⟩ := Option.bind_eq_some_iff.1 h
  exact (Reachable.leaf hleaf).enclosing? hm

theorem Reachable.lastChild? (hn : t.Reachable n) (h : t.lastChild? n = some m) :
    t.Reachable m :=
  hn.child (List.mem_of_getLast? h)

theorem Reachable.locate? {d : Document} {diag : Diagnostic} {line : Nat}
    (h : Mend.locate? t d diag line k = some m) : t.Reachable m := by
  unfold Mend.locate? at h
  split at h
  · rcases Option.or_eq_some_iff.1 h with h | ⟨_, h⟩
    · exact Reachable.enclosingAt? h
    · split at h
      · exact Reachable.enclosingAt? h
      · cases h
  · cases h

theorem kind_of_locate? {d : Document} {diag : Diagnostic} {line : Nat}
    (h : Mend.locate? t d diag line k = some m) : t.kind m = k := by
  have hat {o : Nat} (h : t.enclosingAt? k o = some m) : t.kind m = k := by
    obtain ⟨leaf, _, hm⟩ := Option.bind_eq_some_iff.1 h
    exact kind_of_enclosing? hm
  unfold Mend.locate? at h
  split at h
  · rcases Option.or_eq_some_iff.1 h with h | ⟨_, h⟩
    · exact hat h
    · split at h
      · exact hat h
      · cases h
  · cases h

end Tree

/-- The candidate's edits, if it has any, are accepted by the document, and only a single one is an
insertion. -/
def Candidate.Fits (d : Document) (c : Candidate) : Prop :=
  ∀ es, c.edits? = some es → d.Accepts es ∧ Edit.Separate es

/-- Every candidate fits the document, and the highlight lies in it. -/
structure Resolution.Fits (d : Document) (r : Resolution) : Prop where
  candidates : ∀ c ∈ r.candidates, c.Fits d
  within : ∀ s, r.highlight? = some s → s.Within d.length

namespace Resolution

variable {d : Document} {c : Candidate} {s? : Option Span}

theorem fits_none : none.Fits d where
  candidates := by simp [none]
  within := by simp [none]

theorem fits_highlightOnly (hs : ∀ s, s? = some s → s.Within d.length) :
    (highlightOnly s?).Fits d where
  candidates := by simp [highlightOnly]
  within := hs

theorem fits_single (hc : c.Fits d) (hs : ∀ s, s? = some s → s.Within d.length) :
    (single c s?).Fits d where
  candidates := by simpa [single] using hc
  within := hs

theorem fits_ofCandidate? {c? : Option Candidate} (hc : ∀ c, c? = some c → c.Fits d)
    (hs : ∀ s, s? = some s → s.Within d.length) : (ofCandidate? c? s?).Fits d where
  candidates := by simpa [ofCandidate?] using hc
  within := hs

end Resolution

theorem Candidate.fits_edit {d : Document} {e : Edit} {label : String}
    (h : e.span.Within d.length) : (Candidate.mk label (.edits [e])).Fits d := by
  intro es hes
  obtain rfl : [e] = es := by simpa [Candidate.edits?] using hes
  exact ⟨(Document.accepts_singleton d e).2 h, Edit.separate_singleton e⟩

/-- A candidate that describes what an editor does has no edits to be refused. -/
theorem Candidate.fits_of_edits?_eq_none {d : Document} {c : Candidate} (h : c.edits? = none) :
    c.Fits d := by
  simp [Fits, h]

/-- The finding's strategy works on a range of lines, and the finding has none. -/
def Diagnostic.NeedsLineRange (diag : Diagnostic) : Prop :=
  (Strategy.ofRule diag.rule = .removeEmptyLines ∨ Strategy.ofRule diag.rule = .markDuplicate) ∧
    diag.lineRange? = none

instance (diag : Diagnostic) : Decidable diag.NeedsLineRange :=
  inferInstanceAs (Decidable (_ ∧ _))

theorem Span.within_point {o n : Nat} (h : o ≤ n) : (Span.point o).Within n :=
  ⟨Nat.le_refl _, h⟩

namespace Document

variable {d : Document} {line : Nat}

theorem apply_insert {o : Nat} {w : String} (ho : o ≤ d.length) :
    d.apply [.insert o w] = .ok ⟨d.chars.take o ++ w.toList ++ d.chars.drop o⟩ :=
  apply_singleton (Span.within_point ho)

theorem within_directiveAbove? {linter : String} {e : Edit}
    (h : d.directiveAbove? line linter = some e) : e.span.Within d.length := by
  obtain ⟨start, hstart, rfl⟩ := Option.map_eq_some_iff.1 h
  exact Span.within_point (lineStart?_le hstart)

theorem within_appendClause? {brace : Nat} {clause : String} {e : Edit} (hb : brace ≤ d.length)
    (h : d.appendClause? brace clause = some e) : e.span.Within d.length := by
  unfold appendClause? at h
  simp only at h
  split at h
  · obtain ⟨start, hstart, rfl⟩ := Option.map_eq_some_iff.1 h
    exact Span.within_point (lineStart?_le hstart)
  · obtain rfl := Option.some.inj h
    exact Span.within_point hb

theorem deleteEmptyLine?_eq_some {e : Edit} : d.deleteEmptyLine? line = some e ↔
    ∃ start next, d.lineStart? line = some start ∧ d.lineStop? line = some start ∧
      d.lineStart? (line + 1) = some next ∧ e = .delete ⟨start, next⟩ := by
  unfold deleteEmptyLine?
  constructor
  · intro h
    split at h
    · rename_i s next hs hnext
      obtain ⟨hstart, hstop⟩ := lineSpan?_eq_some.1 hs
      split at h
      · rename_i heq
        exact ⟨s.start, next, hstart, by rw [hstop, heq], hnext, (Option.some.inj h).symm⟩
      · cases h
    · cases h
  · rintro ⟨start, next, hstart, hstop, hnext, rfl⟩
    rw [lineSpan?_eq_some (s := ⟨start, start⟩) |>.2 ⟨hstart, hstop⟩, hnext]
    simp

/-- Deleting an empty line deletes its terminator. -/
theorem deleteEmptyLine?_terminator {e : Edit} (h : d.deleteEmptyLine? line = some e) :
    ∃ w, w ≠ [] ∧ Text.bareLine w = [] ∧ e.newText = "" ∧
      e.span.stop = e.span.start + w.length ∧
      d.chars.drop e.span.start = w ++ d.chars.drop e.span.stop := by
  obtain ⟨start, next, hstart, hstop, hnext, rfl⟩ := deleteEmptyLine?_eq_some.1 h
  obtain ⟨start', w, hstart', hline, hbare⟩ := lineStop?_eq_some.1 hstop
  obtain rfl : start' = start := by simpa [hstart] using hstart'.symm
  obtain ⟨hlt, rfl⟩ := lineStart?_eq_some.1 hnext
  obtain ⟨_, hstarts⟩ := lineStart?_eq_some.1 hstart
  have hsucc := Text.startOf_succ hline
  have hdrop := Text.drop_startOf_line hline
  rw [flatten_lines, hstarts] at hdrop
  refine ⟨w, Text.ne_nil_of_lines hline hlt, List.length_eq_zero_iff.1 (by omega), rfl, ?_, hdrop⟩
  simp only [Edit.delete]
  omega

/-- The deletions of empty lines, taken from the top of the document down, fit it. -/
theorem fits_deleteEmptyLines (lines : List Nat) (hl : lines.Pairwise (· < ·)) {a : Nat}
    (ha : ∀ l ∈ lines, ∀ o, d.lineStart? l = some o → a ≤ o) (had : a ≤ d.length) :
    Edit.Fits a d.length (lines.filterMap d.deleteEmptyLine?) := by
  induction lines generalizing a with
  | nil => simpa using had
  | cons l lines ih =>
    obtain ⟨hlt, hrest⟩ := List.pairwise_cons.1 hl
    cases he : d.deleteEmptyLine? l with
    | none =>
      rw [List.filterMap_cons_none he]
      exact ih hrest (fun m hm => ha m (by simp [hm])) had
    | some e =>
      rw [List.filterMap_cons_some he]
      obtain ⟨start, next, hstart, _, hnext, rfl⟩ := deleteEmptyLine?_eq_some.1 he
      refine ⟨ha l (by simp) start hstart, lineStart?_mono hstart hnext (Nat.le_succ l), ?_⟩
      refine ih hrest (fun m hm o ho => ?_) (lineStart?_le hnext)
      exact lineStart?_mono hnext ho (hlt m hm)

theorem rangeSpan?_within {r : LineRange} {s : Span} (h : d.rangeSpan? r = some s) :
    s.Within d.length := by
  unfold rangeSpan? at h
  split at h
  · rename_i start stop _ hstop
    split at h
    · rename_i hle
      exact Option.some.inj h ▸ ⟨hle, lineStop?_le hstop⟩
    · cases h
  · cases h

/-- Deletions that fit in one order are that order, however they are listed. -/
theorem inOrder_eq_of_perm {a b : Nat} {xs ys : List Edit} (hperm : xs.Perm ys)
    (hfits : Edit.Fits a b ys) (hdelete : ∀ e ∈ xs, e.newText = "") : Edit.inOrder xs = ys := by
  have hsorted : (Edit.inOrder xs).Pairwise fun x y => Edit.le x y :=
    List.pairwise_mergeSort Edit.le_trans Edit.le_total xs
  refine List.Perm.eq_of_pairwise ?_ hsorted hfits.sorted
    ((List.mergeSort_perm xs Edit.le).trans hperm)
  intro x y hx hy hxy hyx
  have htx := hdelete x (Edit.mem_inOrder.1 hx)
  have hty := hdelete y (hperm.mem_iff.2 hy)
  simp only [Edit.le, Bool.or_eq_true, decide_eq_true_eq, Bool.and_eq_true] at hxy hyx
  obtain ⟨⟨s, p⟩, tx⟩ := x
  obtain ⟨⟨s', p'⟩, ty⟩ := y
  simp_all only [Edit.mk.injEq, Span.mk.injEq, and_true]
  omega

theorem pairwise_linesIn (d : Document) (r : LineRange) : (d.linesIn r).Pairwise (· < ·) :=
  List.Pairwise.filter _ List.pairwise_lt_range

theorem fits_linesIn (d : Document) (r : LineRange) :
    Edit.Fits 0 d.length ((d.linesIn r).filterMap d.deleteEmptyLine?) :=
  fits_deleteEmptyLines _ (pairwise_linesIn d r) (fun _ _ _ _ => Nat.zero_le _) (Nat.zero_le _)

theorem inOrder_deleteEmptyLines (d : Document) (r : LineRange) :
    Edit.inOrder ((d.linesIn r).reverse.filterMap d.deleteEmptyLine?) =
      (d.linesIn r).filterMap d.deleteEmptyLine? := by
  apply inOrder_eq_of_perm ((List.reverse_perm _).filterMap _) (fits_linesIn d r)
  intro e he
  obtain ⟨l, _, hl⟩ := List.mem_filterMap.1 he
  obtain ⟨start, next, _, _, _, rfl⟩ := deleteEmptyLine?_eq_some.1 hl
  rfl

theorem accepts_deleteEmptyLines (d : Document) (r : LineRange) :
    d.Accepts ((d.linesIn r).reverse.filterMap d.deleteEmptyLine?) := by
  unfold Document.Accepts
  rw [inOrder_deleteEmptyLines]
  exact fits_linesIn d r

end Document

namespace Site

variable {ν : Type} {s : Site ν}

theorem within_located (h : s.tree.Within s.document.length) {k : NodeKind} {n : ν}
    (hn : s.locate? k = some n) : (s.tree.span n).Within s.document.length :=
  h n (Tree.Reachable.locate? hn)

theorem within_name (h : s.tree.Within s.document.length) {n m : ν} (hn : s.tree.Reachable n)
    (hm : s.tree.name? n = some m) : (s.tree.span m).Within s.document.length :=
  h m (hn.name hm)

theorem fits_suppressLineCandidate? {c : Candidate} (h : s.suppressLineCandidate? = some c) :
    c.Fits s.document := by
  obtain ⟨e, he, rfl⟩ := Option.map_eq_some_iff.1 h
  exact Candidate.fits_edit (Document.within_directiveAbove? he)

theorem fits_suppressFunctionCandidate? {n : ν} {linter : String} {c : Candidate}
    (h : s.suppressFunctionCandidate? n linter = some c) : c.Fits s.document := by
  obtain ⟨e, he, rfl⟩ := Option.map_eq_some_iff.1 h
  exact Candidate.fits_edit (Document.within_directiveAbove? he)

theorem fits_suppressLine : s.suppressLine.Fits s.document :=
  Resolution.fits_ofCandidate? (fun _ => fits_suppressLineCandidate?) (by simp)

theorem fits_suppressNumber (h : s.tree.Within s.document.length) :
    s.suppressNumber.Fits s.document := by
  unfold suppressNumber
  split
  · rename_i literal hl
    refine Resolution.fits_ofCandidate? (fun _ => fits_suppressLineCandidate?) ?_
    simpa using within_located h hl
  · exact Resolution.fits_none

theorem fits_suppressFunction (h : s.tree.Within s.document.length) (linter : String) :
    (s.suppressFunction linter).Fits s.document := by
  unfold suppressFunction
  split
  · rename_i function hf
    refine Resolution.fits_ofCandidate? (fun _ => fits_suppressFunctionCandidate?) ?_
    intro span hspan
    obtain ⟨name, hname, rfl⟩ := Option.map_eq_some_iff.1 hspan
    exact within_name h (Tree.Reachable.locate? hf) hname
  · exact Resolution.fits_none

theorem fits_suppressParameter (h : s.tree.Within s.document.length) :
    s.suppressParameter.Fits s.document := by
  unfold suppressParameter
  split
  · rename_i parameter hp
    refine Resolution.fits_ofCandidate? (fun c hc => ?_) ?_
    · obtain ⟨function, _, hc⟩ := Option.bind_eq_some_iff.1 hc
      exact fits_suppressFunctionCandidate? hc
    · simpa using within_located h hp
  · exact Resolution.fits_none

theorem fits_discardTarget (h : s.tree.Within s.document.length) :
    s.discardTarget.Fits s.document := by
  unfold discardTarget
  split
  · rename_i target ht
    have hw := within_located h ht
    split
    · exact Resolution.fits_single (Candidate.fits_edit hw) (by simpa using hw)
    · exact Resolution.fits_none
  · exact Resolution.fits_none

theorem fits_narrowParameterType (h : s.tree.Within s.document.length) :
    s.narrowParameterType.Fits s.document := by
  unfold narrowParameterType
  split
  · rename_i type ht
    obtain ⟨parameter, hp, hlast⟩ := Option.bind_eq_some_iff.1 ht
    have hw := h type ((Tree.Reachable.locate? hp).lastChild? hlast)
    exact Resolution.fits_single (Candidate.fits_edit hw) (by simpa using hw)
  · exact Resolution.fits_none

theorem fits_extractConstant (h : s.tree.Within s.document.length) :
    s.extractConstant.Fits s.document := by
  unfold extractConstant
  split
  · rename_i literal hl
    exact Resolution.fits_single (Candidate.fits_of_edits?_eq_none rfl)
      (by simpa using within_located h hl)
  · exact Resolution.fits_none

theorem fits_externalTestPackage (h : s.tree.Within s.document.length) :
    s.externalTestPackage.Fits s.document := by
  unfold externalTestPackage
  split
  · rename_i name hn
    obtain ⟨clause, hc, hname⟩ := Option.bind_eq_some_iff.1 hn
    have hw := within_name h (Tree.Reachable.locate? hc) hname
    exact Resolution.fits_single (Candidate.fits_edit hw) (by simpa using hw)
  · exact Resolution.fits_none

theorem fits_printfName (h : s.tree.Within s.document.length) :
    s.printfName.Fits s.document := by
  unfold printfName
  split
  · rename_i name hn
    obtain ⟨function, hf, hname⟩ := Option.bind_eq_some_iff.1 hn
    have hw := within_name h (Tree.Reachable.locate? hf) hname
    exact Resolution.fits_single (Candidate.fits_of_edits?_eq_none rfl) (by simpa using hw)
  · exact Resolution.fits_none

theorem fits_endWithPeriod (h : s.tree.Within s.document.length) :
    s.endWithPeriod.Fits s.document := by
  unfold endWithPeriod
  split
  · rename_i comment hc
    have hw := within_located h hc
    exact Resolution.fits_single (Candidate.fits_edit hw) (by simpa using hw)
  · exact Resolution.fits_none

/-- What sets a line off is a line feed where it starts. -/
theorem offers_insertBlankLine {c : Candidate} (h : c ∈ s.insertBlankLine.candidates) :
    ∃ o, s.document.lineStart? s.line = some o ∧ c.edits? = some [.insert o "\n"] := by
  unfold insertBlankLine at h
  split at h
  · cases h
  · rename_i o ho
    split at h
    · split at h
      · obtain rfl := List.mem_singleton.1 h
        exact ⟨o, ho, rfl⟩
      · cases h
    · cases h

theorem fits_insertBlankLine (h : s.tree.Within s.document.length) :
    s.insertBlankLine.Fits s.document := by
  unfold insertBlankLine
  split
  · exact Resolution.fits_none
  · rename_i start hstart
    split
    · split
      · refine Resolution.fits_single
          (Candidate.fits_edit (Span.within_point (Document.lineStart?_le hstart))) ?_
        intro span hspan
        obtain ⟨leaf, hleaf, rfl⟩ := Option.map_eq_some_iff.1 hspan
        obtain ⟨o, _, hleaf⟩ := Option.bind_eq_some_iff.1 hleaf
        exact h leaf (.leaf hleaf)
      · exact Resolution.fits_none
    · exact Resolution.fits_none

theorem fits_appendCases? {switch : ν} {last? : Option ν} {cases : List Char} {e : Edit}
    (h : s.appendCases? switch last? cases = some e) : e.span.Within s.document.length := by
  unfold appendCases? at h
  simp only at h
  split at h
  · cases h
  · rename_i brace _
    split at h
    · rename_i hchar
      have hb : brace < s.document.length := (List.getElem?_eq_some_iff.1 hchar).1
      exact Document.within_appendClause? (Nat.le_of_lt hb) h
    · cases h

theorem fits_addMissingCases (h : s.tree.Within s.document.length) :
    s.addMissingCases.Fits s.document := by
  unfold addMissingCases
  split
  · exact Resolution.fits_none
  · rename_i switch hswitch
    have hcondition : ∀ span, (s.tree.condition? switch).map s.tree.span = some span →
        span.Within s.document.length := by
      intro span hspan
      obtain ⟨condition, hc, rfl⟩ := Option.map_eq_some_iff.1 hspan
      exact h condition ((Tree.Reachable.locate? hswitch).condition hc)
    simp only
    split
    · exact Resolution.fits_highlightOnly hcondition
    · refine Resolution.fits_ofCandidate? (fun c hc => ?_) hcondition
      obtain ⟨e, he, rfl⟩ := Option.map_eq_some_iff.1 hc
      obtain ⟨cases, _, he⟩ := Option.bind_eq_some_iff.1 he
      exact Candidate.fits_edit (fits_appendCases? he)

theorem fits_removeEmptyLinesIn (r : LineRange) :
    (s.removeEmptyLinesIn r).Fits s.document := by
  unfold removeEmptyLinesIn
  simp only
  split
  · exact Resolution.fits_highlightOnly fun _ => Document.rangeSpan?_within
  · refine Resolution.fits_single (fun es hes => ?_) fun _ => Document.rangeSpan?_within
    obtain rfl := Option.some.inj hes
    constructor
    · exact Document.accepts_deleteEmptyLines s.document r
    · intro e he
      obtain ⟨l, _, hl⟩ := List.mem_filterMap.1 he
      obtain ⟨w, hw, _, _, hstop, _⟩ := Document.deleteEmptyLine?_terminator hl
      have := List.length_pos_iff.2 hw
      exact .inr (by omega)

theorem fits_removeEmptyLines {r : Resolution} (h : s.removeEmptyLines = .ok r) :
    r.Fits s.document := by
  unfold removeEmptyLines at h
  split at h
  · rename_i range _
    exact Except.ok.inj h ▸ fits_removeEmptyLinesIn range
  · cases h

theorem fits_markDuplicate {r : Resolution} (h : s.markDuplicate = .ok r) :
    r.Fits s.document := by
  unfold markDuplicate at h
  split at h
  · exact Except.ok.inj h ▸ Resolution.fits_highlightOnly fun _ => Document.lineSpan?_within
  · cases h

/-- Whatever a strategy offers fits the document. -/
theorem fits_resolveAt (h : s.tree.Within s.document.length) {strategy : Strategy}
    {r : Resolution} (hr : strategy.resolveAt s = .ok r) : r.Fits s.document := by
  cases strategy
  case removeEmptyLines => exact fits_removeEmptyLines hr
  case markDuplicate => exact fits_markDuplicate hr
  all_goals obtain rfl := Except.ok.inj hr
  case suppressLine => exact fits_suppressLine
  case discardTarget => exact fits_discardTarget h
  case narrowParameterType => exact fits_narrowParameterType h
  case extractConstant => exact fits_extractConstant h
  case endWithPeriod => exact fits_endWithPeriod h
  case externalTestPackage => exact fits_externalTestPackage h
  case printfName => exact fits_printfName h
  case addMissingCases => exact fits_addMissingCases h
  case insertBlankLine => exact fits_insertBlankLine h
  case explain =>
    exact Resolution.fits_single (Candidate.fits_of_edits?_eq_none rfl) (by simp)
  case openFormatterSettings =>
    exact Resolution.fits_single (Candidate.fits_of_edits?_eq_none rfl) (by simp)
  case suppressNumber => exact fits_suppressNumber h
  case suppressParameter => exact fits_suppressParameter h
  case suppressFunction linter => exact fits_suppressFunction h linter

/-- A finding is refused just where a strategy that works on lines is given none. -/
theorem resolve_eq_error_iff : (∃ e, s.resolve = .error e) ↔ s.diagnostic.NeedsLineRange := by
  unfold resolve Diagnostic.NeedsLineRange
  cases hstrategy : Strategy.ofRule s.diagnostic.rule
  case removeEmptyLines =>
    cases hrange : s.diagnostic.lineRange? <;>
      simp [Strategy.resolveAt, removeEmptyLines, shiftedRange?, Diagnostic.shiftedRange?, hrange]
  case markDuplicate =>
    cases hrange : s.diagnostic.lineRange? <;>
      simp [Strategy.resolveAt, markDuplicate, hrange]
  all_goals simp [Strategy.resolveAt]

end Site
end Mend
