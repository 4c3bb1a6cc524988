import Mathlib.Algebra.Group.Nat.Defs
import Mathlib.Data.List.Forall2
import Mend.Fix.Strategy
import Mend.Proofs.MovedLines
import Mend.Syntax.Outline

/-! Findings that have moved with their text: whole lines in front of a document, which move its
tree along, move what is resolved by their length and change nothing else. -/
namespace Mend

/-- The same action in a document that has `n` more characters in front. -/
def Action.shift (n : Nat) : Action → Action
  | .edits es => .edits (es.map (Edit.shift n))
  | .rename span newName => .rename (span.shift n) newName
  | .introduceConstant span literal => .introduceConstant (span.shift n) literal
  | .openExplanation url => .openExplanation url
  | .openSettings page => .openSettings page

def Candidate.shift (n : Nat) (c : Candidate) : Candidate := ⟨c.label, c.action.shift n⟩

namespace Resolution

/-- Every span of a resolution moved: those inside its candidates, and the highlight. -/
def shift (n : Nat) (r : Resolution) : Resolution :=
  ⟨r.candidates.map (Candidate.shift n), r.highlight?.map (·.shift n)⟩

variable (n : Nat)

@[simp] lemma shift_none : none.shift n = none := rfl

@[simp] lemma shift_highlightOnly (highlight? : Option Span) :
    (highlightOnly highlight?).shift n = highlightOnly (highlight?.map (·.shift n)) := rfl

@[simp] lemma shift_single (c : Candidate) (highlight? : Option Span) :
    (single c highlight?).shift n = single (c.shift n) (highlight?.map (·.shift n)) := rfl

@[simp] lemma shift_ofCandidate? (c? : Option Candidate) (highlight? : Option Span) :
    (ofCandidate? c? highlight?).shift n =
      ofCandidate? (c?.map (Candidate.shift n)) (highlight?.map (·.shift n)) := by
  cases c? <;> rfl

end Resolution

section Trees

variable {ν ν' : Type} {n : Nat} {R : ν → ν' → Prop} {t : Tree ν} {t' : Tree ν'}

/-- From offset `n` on, the second tree is the first one moved by `n` characters: nodes that `R`
relates are the same but for their place. -/
structure Tree.Moved (t : Tree ν) (t' : Tree ν') (n : Nat) (R : ν → ν' → Prop) : Prop where
  leafAt? : ∀ o, Option.Rel R (t.leafAt? o) (t'.leafAt? (o + n))
  kind : ∀ {x y}, R x y → t'.kind y = t.kind x
  span : ∀ {x y}, R x y → t'.span y = (t.span x).shift n
  text : ∀ {x y}, R x y → t'.text y = t.text x
  ancestors : ∀ {x y}, R x y → List.Forall₂ R (t.ancestors x) (t'.ancestors y)
  children : ∀ {x y}, R x y → List.Forall₂ R (t.children x) (t'.children y)
  name? : ∀ {x y}, R x y → Option.Rel R (t.name? x) (t'.name? y)
  condition? : ∀ {x y}, R x y → Option.Rel R (t.condition? x) (t'.condition? y)

/-- The tree moved by `n` characters, with nothing in the text in front. -/
def Tree.translate (t : Tree ν) (n : Nat) : Tree ν where
  leafAt? o := if n ≤ o then t.leafAt? (o - n) else none
  kind := t.kind
  span x := (t.span x).shift n
  text := t.text
  ancestors := t.ancestors
  children := t.children
  name? := t.name?
  condition? := t.condition?

lemma rel_eq (o : Option ν) : Option.Rel Eq o o := by
  cases o with
  | none => exact .none
  | some x => exact .some rfl

theorem Tree.moved_translate (t : Tree ν) (n : Nat) : t.Moved (t.translate n) n Eq where
  leafAt? o := by simpa [translate] using rel_eq (t.leafAt? o)
  kind h := by rw [h]; rfl
  span h := by rw [h]; rfl
  text h := by rw [h]; rfl
  ancestors h := by rw [h]; exact List.forall₂_refl _
  children h := by rw [h]; exact List.forall₂_refl _
  name? h := by rw [h]; exact rel_eq _
  condition? h := by rw [h]; exact rel_eq _

lemma rel_cases {o : Option ν} {o' : Option ν'} (h : Option.Rel R o o') :
    (o = none ∧ o' = none) ∨ ∃ x y, o = some x ∧ o' = some y ∧ R x y := by
  cases h with
  | none => exact .inl ⟨rfl, rfl⟩
  | some h => exact .inr ⟨_, _, rfl, rfl, h⟩

lemma rel_find? {p : ν → Bool} {q : ν' → Bool} (hpq : ∀ {x y}, R x y → q y = p x)
    {xs : List ν} {ys : List ν'} (h : List.Forall₂ R xs ys) :
    Option.Rel R (xs.find? p) (ys.find? q) := by
  induction h with
  | nil => exact .none
  | @cons x y xs ys hxy _ ih =>
    by_cases hp : p x
    · simpa [hpq hxy, hp] using Option.Rel.some hxy
    · simpa [hpq hxy, hp] using ih

lemma rel_getLast? {xs : List ν} {ys : List ν'} (h : List.Forall₂ R xs ys) :
    Option.Rel R xs.getLast? ys.getLast? := by
  rw [← List.head?_reverse, ← List.head?_reverse]
  obtain ⟨hx, hy⟩ | ⟨x, y, xs', ys', hxy, _, hx, hy⟩ :=
    (List.forall₂_iff R _ _).1 (List.rel_reverse h)
  · rw [hx, hy]
    exact .none
  · rw [hx, hy]
    exact .some hxy

lemma rel_or {o p : Option ν} {o' p' : Option ν'} (ho : Option.Rel R o o')
    (hp : Option.Rel R p p') : Option.Rel R (o.or p) (o'.or p') := by
  cases ho with
  | none => exact hp
  | some h => exact .some h

lemma rel_bind {f : ν → Option ν} {g : ν' → Option ν'}
    (hfg : ∀ {x y}, R x y → Option.Rel R (f x) (g y)) {o : Option ν} {o' : Option ν'}
    (h : Option.Rel R o o') : Option.Rel R (o.bind f) (o'.bind g) := by
  cases h with
  | none => exact .none
  | some h => exact hfg h

namespace Tree.Moved

variable (h : t.Moved t' n R)

include h

lemma map_span {o : Option ν} {o' : Option ν'} (ho : Option.Rel R o o') :
    o'.map t'.span = (o.map t.span).map (·.shift n) := by
  cases ho with
  | none => rfl
  | some ho => exact congrArg some (h.span ho)

lemma enclosing? (kind : NodeKind) {x : ν} {y : ν'} (hxy : R x y) :
    Option.Rel R (t.enclosing? kind x) (t'.enclosing? kind y) :=
  rel_find? (fun hR => by rw [h.kind hR]) (.cons hxy (h.ancestors hxy))

lemma enclosingAt? (kind : NodeKind) (o : Nat) :
    Option.Rel R (t.enclosingAt? kind o) (t'.enclosingAt? kind (o + n)) :=
  rel_bind (h.enclosing? kind) (h.leafAt? o)

lemma lastChild? {x : ν} {y : ν'} (hxy : R x y) :
    Option.Rel R (t.lastChild? x) (t'.lastChild? y) :=
  rel_getLast? (h.children hxy)

end Tree.Moved

end Trees

/-- What is reported lies far in front of the last line there is, and its range does not reach
above the document once the finding has moved to line `line`. -/
structure Diagnostic.Movable (diag : Diagnostic) (line : Nat) : Prop where
  line_lt : diag.line < 2 ^ 62
  range_lt : ∀ r, diag.lineRange? = some r → r.first < 2 ^ 62 ∧ r.last < 2 ^ 62
  range_below : ∀ r, diag.lineRange? = some r →
    diag.line ≤ r.first + line ∧ diag.line ≤ r.last + line

namespace Diagnostic

variable {diag : Diagnostic} {line k : Nat}

lemma lineShift_eq (hdiag : diag.line < 2 ^ 62) (hline : line < 2 ^ 62) :
    diag.lineShift line = line - diag.line := by
  have hwords : Nat.pow 2 64 = 4 * 2 ^ 62 := by decide
  rw [lineShift, hwords]
  apply Int.bmod_eq_of_le_mul_two <;> omega

lemma shiftLine_eq {l : Nat} (hdiag : diag.line < 2 ^ 62) (hline : line < 2 ^ 62)
    (hl : l < 2 ^ 62) (hbelow : diag.line ≤ l + line) :
    shiftLine l (diag.lineShift line) = l + line - diag.line := by
  have hmax : (2 : Nat) ^ 63 ≤ maxLine := by decide
  rw [shiftLine, lineShift_eq hdiag hline]
  omega

theorem shiftedRange?_add (h : diag.Movable line) (hline : line + k < 2 ^ 62) :
    diag.shiftedRange? (line + k) =
      (diag.shiftedRange? line).map fun r => ⟨r.first + k, r.last + k⟩ := by
  simp only [shiftedRange?, Option.map_map]
  refine Option.map_congr fun r hr => ?_
  obtain ⟨hfirst, hlast⟩ := h.range_lt r hr
  obtain ⟨hfirst', hlast'⟩ := h.range_below r hr
  simp only [LineRange.shifted, Function.comp_apply,
    shiftLine_eq h.line_lt (by omega : line < 2 ^ 62) hfirst hfirst',
    shiftLine_eq h.line_lt (by omega : line < 2 ^ 62) hlast hlast',
    shiftLine_eq h.line_lt hline hfirst (by omega), shiftLine_eq h.line_lt hline hlast (by omega)]
  congr 1 <;> omega

end Diagnostic

/-- The second finding is the first one with `a`, which is `k` whole lines, in front of its
document. -/
structure Site.Below {ν ν' : Type} (s : Site ν) (s' : Site ν') (a : List Char) (k : Nat)
    (R : ν → ν' → Prop) : Prop where
  tree : s.tree.Moved s'.tree a.length R
  document : s'.document = s.document.below a
  diagnostic : s'.diagnostic = s.diagnostic
  line : s'.line = s.line + k
  lines : Document.WholeLines a k

namespace Site.Below

open Document

variable {ν ν' : Type} {s : Site ν} {s' : Site ν'} {a : List Char} {k : Nat} {R : ν → ν' → Prop}
  (h : s.Below s' a k R)

include h

lemma anchor? : s'.anchor? = s.anchor?.map (· + a.length) := by
  simp only [Site.anchor?, Mend.anchor?, h.document, h.diagnostic, h.line,
    lineSpan?_below s.document _ h.lines, lineIndent_below s.document _ h.lines,
    offset_below s.document _ h.lines]
  cases s.document.lineSpan? s.line with
  | none => rfl
  | some span =>
    cases s.diagnostic.column <;>
      simp only [Option.map_some, Span.start_shift, Span.stop_shift] <;> congr 1 <;> omega

/-- The character before the anchor is looked at only where it is on the anchor's line, so never in
the text in front. -/
lemma locate? (kind : NodeKind) : Option.Rel R (s.locate? kind) (s'.locate? kind) := by
  have hanchor := h.anchor?
  simp only [Site.anchor?] at hanchor
  have hstart :
      s'.document.lineStart? s'.line = (s.document.lineStart? s.line).map (· + a.length) := by
    rw [h.document, h.line, lineStart?_below _ _ h.lines]
  simp only [Site.locate?, Mend.locate?, hanchor, hstart]
  cases Mend.anchor? s.document s.diagnostic s.line with
  | none => exact .none
  | some o =>
    cases s.document.lineStart? s.line with
    | none => exact .none
    | some start =>
      refine rel_or (h.tree.enclosingAt? kind o) ?_
      by_cases hlt : start < o
      · have hbefore := h.tree.enclosingAt? kind (o - 1)
        rw [show o - 1 + a.length = o + a.length - 1 by omega] at hbefore
        simpa [hlt] using hbefore
      · simp [hlt]

lemma namedInMessage : s'.namedInMessage = s.namedInMessage := by
  rw [Site.namedInMessage, h.diagnostic, Site.namedInMessage]

lemma discardTarget : s'.discardTarget = s.discardTarget.shift a.length := by
  simp only [Site.discardTarget, h.namedInMessage]
  obtain ⟨hx, hy⟩ | ⟨x, y, hx, hy, hR⟩ := rel_cases (h.locate? .reference)
  · rw [hx, hy]
    rfl
  · simp only [hx, hy, h.tree.text hR, h.tree.span hR]
    split <;> rfl

lemma narrowParameterType :
    s'.narrowParameterType = s.narrowParameterType.shift a.length := by
  simp only [Site.narrowParameterType, h.namedInMessage]
  obtain ⟨hx, hy⟩ | ⟨x, y, hx, hy, hR⟩ :=
    rel_cases (rel_bind h.tree.lastChild? (h.locate? .parameterDeclaration))
  · rw [hx, hy]
    rfl
  · simp only [hx, hy, h.tree.span hR]
    rfl

lemma extractConstant : s'.extractConstant = s.extractConstant.shift a.length := by
  simp only [Site.extractConstant]
  obtain ⟨hx, hy⟩ | ⟨x, y, hx, hy, hR⟩ := rel_cases (h.locate? .stringLiteral)
  · rw [hx, hy]
    rfl
  · simp only [hx, hy, h.tree.text hR, h.tree.span hR]
    rfl

lemma externalTestPackage :
    s'.externalTestPackage = s.externalTestPackage.shift a.length := by
  simp only [Site.externalTestPackage]
  obtain ⟨hx, hy⟩ | ⟨x, y, hx, hy, hR⟩ :=
    rel_cases (rel_bind h.tree.name? (h.locate? .packageClause))
  · rw [hx, hy]
    rfl
  · simp only [hx, hy, h.tree.text hR, h.tree.span hR]
    rfl

lemma printfName : s'.printfName = s.printfName.shift a.length := by
  simp only [Site.printfName]
  obtain ⟨hx, hy⟩ | ⟨x, y, hx, hy, hR⟩ :=
    rel_cases (rel_bind h.tree.name? (h.locate? .functionDeclaration))
  · rw [hx, hy]
    rfl
  · simp only [hx, hy, h.tree.text hR, h.tree.span hR]
    rfl

lemma endWithPeriod : s'.endWithPeriod = s.endWithPeriod.shift a.length := by
  simp only [Site.endWithPeriod]
  obtain ⟨hx, hy⟩ | ⟨x, y, hx, hy, hR⟩ := rel_cases (h.locate? .comment)
  · rw [hx, hy]
    rfl
  · simp only [hx, hy, h.tree.text hR, h.tree.span hR]
    rfl

lemma insertBlankLine : s'.insertBlankLine = s.insertBlankLine.shift a.length := by
  have hleaf : Option.Rel R (s.anchor?.bind s.tree.leafAt?) (s'.anchor?.bind s'.tree.leafAt?) := by
    rw [h.anchor?]
    cases s.anchor? with
    | none => exact .none
    | some o => exact h.tree.leafAt? o
  simp only [Site.insertBlankLine, h.tree.map_span hleaf]
  rw [h.document, h.line, lineStart?_below _ _ h.lines]
  cases s.document.lineStart? s.line with
  | none => rfl
  | some start =>
    simp only [Option.map_some, char?_below]
    cases s.document.char? start with
    | none => rfl
    | some c =>
      by_cases hc : c = ' ' ∨ c = '\t' <;> simp [hc, Candidate.shift, Action.shift]

lemma missingLineRange : s'.missingLineRange = s.missingLineRange := by
  rw [Site.missingLineRange, h.diagnostic, Site.missingLineRange]

lemma markDuplicate :
    s'.markDuplicate = s.markDuplicate.map (Resolution.shift a.length) := by
  simp only [Site.markDuplicate, h.missingLineRange, h.diagnostic, h.document, h.line,
    lineSpan?_below _ _ h.lines]
  cases s.diagnostic.lineRange? <;> rfl

lemma removeEmptyLinesIn (r : LineRange) :
    s'.removeEmptyLinesIn ⟨r.first + k, r.last + k⟩ =
      (s.removeEmptyLinesIn r).shift a.length := by
  have hedits : ((s.document.linesIn r).map (· + k)).reverse.filterMap
        (s.document.below a).deleteEmptyLine? =
      ((s.document.linesIn r).reverse.filterMap s.document.deleteEmptyLine?).map
        (Edit.shift a.length) := by
    rw [← List.map_reverse, List.filterMap_map, List.map_filterMap]
    exact List.filterMap_congr fun l _ => deleteEmptyLine?_below _ l h.lines
  simp only [Site.removeEmptyLinesIn, h.document, linesIn_below _ h.lines,
    rangeSpan?_below _ h.lines, hedits, List.isEmpty_map]
  split <;> rfl

lemma removeEmptyLines (hm : s.diagnostic.Movable s.line) (hline : s.line + k < 2 ^ 62) :
    s'.removeEmptyLines = s.removeEmptyLines.map (Resolution.shift a.length) := by
  simp only [Site.removeEmptyLines, Site.shiftedRange?, h.diagnostic, h.line, h.missingLineRange,
    Diagnostic.shiftedRange?_add hm hline]
  cases s.diagnostic.shiftedRange? s.line with
  | none => rfl
  | some r => exact congrArg Except.ok (h.removeEmptyLinesIn r)

lemma suppressLineCandidate? :
    s'.suppressLineCandidate? = s.suppressLineCandidate?.map (Candidate.shift a.length) := by
  simp only [Site.suppressLineCandidate?, h.document, h.diagnostic, h.line,
    directiveAbove?_below _ _ h.lines, Option.map_map]
  rfl

lemma suppressLine : s'.suppressLine = s.suppressLine.shift a.length := by
  rw [Site.suppressLine, h.suppressLineCandidate?, Site.suppressLine,
    Resolution.shift_ofCandidate?, Option.map_none]

lemma suppressNumber : s'.suppressNumber = s.suppressNumber.shift a.length := by
  simp only [Site.suppressNumber, h.suppressLineCandidate?]
  obtain ⟨hx, hy⟩ | ⟨x, y, hx, hy, hR⟩ := rel_cases (h.locate? .numberLiteral)
  · rw [hx, hy]
    rfl
  · simp only [hx, hy, h.tree.span hR, Resolution.shift_ofCandidate?, Option.map_some]

lemma suppressFunctionCandidate? {x : ν} {y : ν'} (hR : R x y) (linter : String) :
    s'.suppressFunctionCandidate? y linter =
      (s.suppressFunctionCandidate? x linter).map (Candidate.shift a.length) := by
  simp only [Site.suppressFunctionCandidate?, h.document, h.tree.span hR, Span.start_shift,
    position_below _ h.lines, directiveAbove?_below _ _ h.lines, Option.map_map]
  obtain ⟨hx, hy⟩ | ⟨_, _, hx, hy, hname⟩ := rel_cases (h.tree.name? hR)
  · rw [hx, hy]
    rfl
  · simp only [hx, hy, h.tree.text hname]
    rfl

lemma suppressFunction (linter : String) :
    s'.suppressFunction linter = (s.suppressFunction linter).shift a.length := by
  simp only [Site.suppressFunction]
  obtain ⟨hx, hy⟩ | ⟨x, y, hx, hy, hR⟩ := rel_cases (h.locate? .functionDeclaration)
  · rw [hx, hy]
    rfl
  · simp only [hx, hy, h.suppressFunctionCandidate? hR, h.tree.map_span (h.tree.name? hR),
      Resolution.shift_ofCandidate?]

lemma suppressParameter : s'.suppressParameter = s.suppressParameter.shift a.length := by
  simp only [Site.suppressParameter]
  obtain ⟨hx, hy⟩ | ⟨x, y, hx, hy, hR⟩ := rel_cases (h.locate? .parameterDeclaration)
  · rw [hx, hy]
    rfl
  · simp only [hx, hy, h.tree.span hR, h.diagnostic, Resolution.shift_ofCandidate?,
      Option.map_some]
    congr 1
    obtain ⟨hf, hf'⟩ | ⟨f, f', hf, hf', hRf⟩ :=
      rel_cases (h.tree.enclosing? .functionDeclaration hR)
    · rw [hf, hf']
      rfl
    · simp only [hf, hf', Option.bind_some, h.suppressFunctionCandidate? hRf]

lemma clauses {x : ν} {y : ν'} (hR : R x y) :
    List.Forall₂ R (s.clauses x) (s'.clauses y) :=
  List.rel_filter (fun _ _ hxy => by simp only [h.tree.kind hxy]) (h.tree.children hR)

/-- A switch that stops at offset zero has no closing brace, and none shows up when the end of a
line comes to stand in front of it. -/
lemma appendCases? {x : ν} {y : ν'} (hR : R x y) {last? : Option ν} {last?' : Option ν'}
    (hlast : Option.Rel R last? last?') (cases : List Char) :
    s'.appendCases? y last?' cases =
      (s.appendCases? x last? cases).map (Edit.shift a.length) := by
  simp only [Site.appendCases?, h.document, h.tree.span hR, Span.stop_shift]
  cases hstop : (s.tree.span x).stop with
  | zero =>
    cases ha : a.length with
    | zero => rfl
    | succ n =>
      have hbrace := not_brace_below s.document h.lines (o := n) (by omega) (by omega)
      simp [hbrace]
  | succ brace =>
    rw [Nat.add_right_comm]
    simp only [char?_below]
    cases hlast with
    | none =>
      simp only [position_below _ h.lines, lineIndent_below _ _ h.lines,
        appendClause?_below _ h.lines]
      split <;> rfl
    | some hclause =>
      simp only [h.tree.span hclause, Span.start_shift, position_below _ h.lines,
        lineIndent_below _ _ h.lines, appendClause?_below _ h.lines]
      split <;> rfl

lemma addMissingCases : s'.addMissingCases = s.addMissingCases.shift a.length := by
  simp only [Site.addMissingCases, h.diagnostic]
  obtain ⟨hx, hy⟩ | ⟨x, y, hx, hy, hR⟩ := rel_cases (h.locate? .switchStatement)
  · rw [hx, hy]
    rfl
  · have hlast := rel_getLast? (h.clauses hR)
    have hdefault : ((s'.clauses y).getLast?.any fun c => s'.tree.kind c = .defaultClause) =
        (s.clauses x).getLast?.any fun c => s.tree.kind c = .defaultClause := by
      obtain ⟨hc, hc'⟩ | ⟨c, c', hc, hc', hRc⟩ := rel_cases hlast
      · rw [hc, hc']
        rfl
      · simp only [hc, hc', Option.any_some, h.tree.kind hRc]
    simp only [hx, hy, hdefault, h.tree.map_span (h.tree.condition? hR)]
    split
    · rfl
    · cases Wording.missingCases? s.diagnostic.message.toList with
      | none => rfl
      | some cases =>
        simp only [Option.bind_some, h.appendCases? hR hlast, Resolution.shift_ofCandidate?,
          Option.map_map]
        rfl

end Site.Below

/-- Whole lines in front of a document move what is resolved and change nothing else, whatever the
rule is. -/
theorem Site.resolve_below {ν ν' : Type} {s : Site ν} {s' : Site ν'} {a : List Char} {k : Nat}
    {R : ν → ν' → Prop} (h : s.Below s' a k R) (hm : s.diagnostic.Movable s.line)
    (hline : s.line + k < 2 ^ 62) :
    s'.resolve = s.resolve.map (Resolution.shift a.length) := by
  rw [Site.resolve, h.diagnostic, Site.resolve]
  cases Strategy.ofRule s.diagnostic.rule with
  | suppressLine => exact congrArg Except.ok h.suppressLine
  | discardTarget => exact congrArg Except.ok h.discardTarget
  | narrowParameterType => exact congrArg Except.ok h.narrowParameterType
  | removeEmptyLines => exact h.removeEmptyLines hm hline
  | extractConstant => exact congrArg Except.ok h.extractConstant
  | endWithPeriod => exact congrArg Except.ok h.endWithPeriod
  | externalTestPackage => exact congrArg Except.ok h.externalTestPackage
  | printfName => exact congrArg Except.ok h.printfName
  | addMissingCases => exact congrArg Except.ok h.addMissingCases
  | insertBlankLine => exact congrArg Except.ok h.insertBlankLine
  | explain url => rfl
  | openFormatterSettings => rfl
  | markDuplicate => exact h.markDuplicate
  | suppressNumber => exact congrArg Except.ok h.suppressNumber
  | suppressParameter => exact congrArg Except.ok h.suppressParameter
  | suppressFunction linter => exact congrArg Except.ok (h.suppressFunction linter)

/-- An empty line of a block that has moved down by two lines. -/
theorem Site.resolve_below_block :
    let t := Outline.tree #[⟨.sourceFile, ⟨0, 6⟩, "f \x7b\n\n\x7d".toList, none, none, none⟩] 6
    let diag : Diagnostic := ⟨"whitespace", "", "a.go", 1, 0, some ⟨1, 3⟩, "whitespace"⟩
    let d := Document.mk "f \x7b\n\n\x7d".toList
    (Site.mk t d diag 0).resolve =
        .ok ⟨[⟨"Remove whitespace", .edits [.delete ⟨4, 5⟩]⟩], some ⟨0, 6⟩⟩ ∧
      (Site.mk (t.translate 4) (d.below "a\r\n\n".toList) diag 2).resolve =
        .ok ⟨[⟨"Remove whitespace", .edits [.delete ⟨8, 9⟩]⟩], some ⟨4, 10⟩⟩ := by
  intro t diag d
  have hresolve : (Site.mk t d diag 0).resolve =
      .ok ⟨[⟨"Remove whitespace", .edits [.delete ⟨4, 5⟩]⟩], some ⟨0, 6⟩⟩ := by
    decide +kernel
  have hbelow : (Site.mk t d diag 0).Below
      (Site.mk (t.translate 4) (d.below "a\r\n\n".toList) diag 2) "a\r\n\n".toList 2 Eq :=
    ⟨t.moved_translate 4, rfl, rfl, rfl, by decide, by decide⟩
  have hmovable : diag.Movable 0 := ⟨by decide, by simp [diag], by simp [diag]⟩
  refine ⟨hresolve, ?_⟩
  rw [Site.resolve_below hbelow hmovable (by decide), hresolve]
  rfl

/-- The highlight moves as the candidates do, here to the line that has moved. -/
theorem Site.resolve_below_highlight :
    let t := Outline.tree #[⟨.sourceFile, ⟨0, 2⟩, "x\n".toList, none, none, none⟩] 2
    let diag : Diagnostic := ⟨"dupl", "", "a.go", 1, 0, some ⟨1, 1⟩, "dupl"⟩
    let s := Site.mk t ⟨"x\n".toList⟩ diag 0
    let s' := Site.mk (t.translate 1) (s.document.below ['\n']) diag 1
    s.Below s' ['\n'] 1 Eq ∧ diag.Movable 0 ∧
      s'.resolve ≠ s.resolve.map fun r =>
        ⟨r.candidates.map (Candidate.shift 1), r.highlight?⟩ := by
  intro t diag s s'
  refine ⟨⟨t.moved_translate 1, rfl, rfl, rfl, by decide, by decide⟩,
    ⟨by decide, by simp [diag], by simp [diag]⟩, ?_⟩
  decide +kernel

end Mend
