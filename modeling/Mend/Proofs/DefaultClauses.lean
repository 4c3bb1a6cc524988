import Mend.Fix.Strategy
import Mend.Proofs.Go.Origins
import Mend.Proofs.MissingCases

/-! Adding cases to switches with a default clause. A default clause keeps cases from being added
where it is the last clause, and not where it stands in front of other clauses. -/
namespace Mend

namespace Go

variable {text : List Char}

/-- What a switch over values consists of. -/
def expressionSwitch : Grammar.P := .seqs [
  .fixed "switch",
  .header (.seq (.opt Grammar.initializer) (.opt (.role .value (.symbol .expression)))),
  .fixed "\x7b", .inner (.many (.alt Grammar.expressionCase Grammar.defaultCase)), .fixed "\x7d"]

lemma Cursor.kind_of_switchStatement {c : Cursor} (h : c.nodeKind = .switchStatement) :
    c.node.kind = .expressionSwitchStatement :=
  List.mem_singleton.1 (kind_mem (h ▸ rfl))

/-- A switch in a Go file ends with its closing brace. -/
theorem exists_closingBrace (hvalid : (parse text).hasErrors = false) {c : Cursor}
    (hreach : (parse text).tree.Reachable c) (hkind : c.node.kind = .expressionSwitchStatement) :
    ∃ brace, c.node.span.stop = brace + 1 ∧ text[brace]? = some '}' := by
  obtain ⟨p, hp, r, a, s, hr, hreads, hswitch⟩ :=
    madeOf_of_reachable [expressionSwitch] hvalid rfl (by decide) (by decide +kernel)
      hreach hkind
  obtain rfl := List.mem_singleton.1 hp
  cases hreads with
  | seq hkeyword hreads => cases hreads with
    | seq hheader hreads => cases hreads with
      | seq hopen hreads => cases hreads with
        | seq hclauses hclose => cases hclose with
          | @token _ _ _ _ _ mark _ hclose =>
            have hr' := (hclauses.of (hopen.of (hheader.of (hkeyword.of hr).1).1).1).1
            obtain ⟨-, ⟨⟨rest, hrest⟩, -⟩, hlast, -⟩ := hr'.token? hclose
            obtain ⟨-, -, -, -, hacc, -, -⟩ := Reading.eq_of_token? hclose
            simp only [Terminal.accepts, Bool.and_eq_true, decide_eq_true_eq] at hacc
            refine ⟨mark.start, ?_, ?_⟩
            · rw [hswitch.stop, hlast, Token.stop, hacc.2]
              rfl
            · rw [← Nat.add_zero mark.start, ← List.getElem?_drop, ← hrest, hacc.2]
              rfl

end Go

namespace Site

/-- A clause can be put in front of any closing brace. -/
lemma exists_appendCases? {ν : Type} {s : Site ν} {switch : ν} {brace : Nat}
    (h : s.ClosedBy switch brace) (cases : List Char) :
    ∃ e, s.appendCases? switch (s.clauses switch).getLast? cases = some e := by
  obtain ⟨above, front, rest, below, hbrace⟩ := Document.exists_braceAt h.2
  rw [appendCases?_of_closedBy h]
  unfold Document.appendClause?
  simp only [hbrace.position, hbrace.lineStart?]
  split
  · exact ⟨_, rfl⟩
  · exact ⟨_, rfl⟩

/-- The last clause of a switch is a case. -/
def EndsInCase {ν : Type} (s : Site ν) (switch : ν) : Prop :=
  ∃ clause, (s.clauses switch).getLast? = some clause ∧ s.tree.kind clause = .caseClause

lemma endsInCase_iff {ν : Type} {s : Site ν} {switch : ν} (h : s.clauses switch ≠ []) :
    s.EndsInCase switch ↔ ¬ s.EndsInDefault switch := by
  have hlast := List.getLast?_eq_some_getLast h
  have hmem := (List.mem_filter.1 (List.getLast_mem h)).2
  simp only [Bool.or_eq_true, decide_eq_true_eq] at hmem
  constructor
  · rintro ⟨clause, hclause, hcase⟩ ⟨clause', hclause', hdefault⟩
    obtain rfl := Option.some.inj (hclause.symm.trans hclause')
    cases hcase.symm.trans hdefault
  · exact fun hends => ⟨_, hlast, hmem.resolve_right fun hdefault => hends ⟨_, hlast, hdefault⟩⟩

variable {text : List Char} {diag : Diagnostic} {line : Nat}

/-- A switch with a default clause is given cases just where its last clause is a case, so that the
default clause stands in front of it, and the message lists cases. -/
theorem default_overruled_iff (hvalid : (Go.parse text).hasErrors = false)
    (hrule : diag.rule = "exhaustive") {switch : Go.Cursor}
    (hswitch : (Site.mk (Go.parse text).tree ⟨text⟩ diag line).locate? .switchStatement =
      some switch)
    (hdefault : ∃ clause ∈ (Site.mk (Go.parse text).tree ⟨text⟩ diag line).clauses switch,
      clause.nodeKind = .defaultClause) :
    let s : Site Go.Cursor := ⟨(Go.parse text).tree, ⟨text⟩, diag, line⟩
    ∃ r, s.resolve = .ok r ∧ (r.candidates ≠ [] ↔ s.EndsInCase switch ∧
      ∃ part, Wording.Announces diag.message.toList part ∧ part ≠ []) := by
  intro s
  have hresolve : s.resolve = .ok s.addMissingCases := by
    have hstrategy : Strategy.ofRule diag.rule = .addMissingCases := by rw [hrule]; rfl
    rw [resolve, hstrategy]
    rfl
  obtain ⟨brace, hbrace⟩ : ∃ brace, s.ClosedBy switch brace :=
    Go.exists_closingBrace hvalid (Tree.Reachable.locate? hswitch)
      (Go.Cursor.kind_of_switchStatement (Tree.kind_of_locate? hswitch))
  obtain ⟨clause, hclause, -⟩ := hdefault
  refine ⟨_, hresolve, ?_⟩
  rw [endsInCase_iff (List.ne_nil_of_mem hclause)]
  constructor
  · intro hne
    obtain ⟨c, hc⟩ := List.exists_mem_of_ne_nil _ hne
    obtain ⟨hlast, part, e, hpart, -⟩ := (mem_addMissingCases hswitch).1 hc
    exact ⟨hlast, part, Wording.missingCases?_eq_some.1 hpart⟩
  · rintro ⟨hlast, part, hpart⟩
    obtain ⟨e, he⟩ := exists_appendCases? hbrace part
    exact List.ne_nil_of_mem ((mem_addMissingCases hswitch).2
      ⟨hlast, part, e, Wording.missingCases?_eq_some.2 hpart, he, rfl⟩)

/-- A default clause at the end of a switch: the cases are left to it. -/
theorem default_overruled_at_end :
    let text := "package a\n\nfunc f(d T) \x7b\n\tswitch d \x7b\n\tcase A:\n".toList ++
      "\tdefault:\n\t\x7d\n\x7d\n".toList
    let message := "missing cases in switch of type T: B"
    let s : Site Go.Cursor :=
      ⟨(Go.parse text).tree, ⟨text⟩, ⟨"exhaustive", message, "a.go", 4, 2, none, "exhaustive"⟩, 3⟩
    ∃ switch r, s.locate? .switchStatement = some switch ∧ s.resolve = .ok r ∧
      (∃ clause ∈ s.clauses switch, s.tree.kind clause = .defaultClause) ∧ r.candidates = [] := by
  intro text message s
  obtain ⟨hvalid, hkinds⟩ : (Go.parse text).hasErrors = false ∧
      (s.locate? .switchStatement).map (fun c => (s.clauses c).map s.tree.kind) =
        some [.caseClause, .defaultClause] := by
    decide +kernel
  obtain ⟨switch, hswitch, hkinds⟩ := Option.map_eq_some_iff.1 hkinds
  have hdefault : NodeKind.defaultClause ∈ (s.clauses switch).map s.tree.kind := by simp [hkinds]
  obtain ⟨r, hr, hiff⟩ := default_overruled_iff hvalid rfl hswitch (List.mem_map.1 hdefault)
  have hlast : (s.clauses switch).getLast?.map s.tree.kind = some .defaultClause := by
    rw [← List.getLast?_map, hkinds]
    rfl
  refine ⟨switch, r, hswitch, hr, List.mem_map.1 hdefault, ?_⟩
  by_contra hne
  obtain ⟨⟨clause, hclause, hcase⟩, -⟩ := hiff.1 hne
  rw [hclause, Option.map_some, Option.some.injEq] at hlast
  cases hcase.symm.trans hlast

/-- A default clause in front of a case: the missing case is added, and takes over a value that the
default clause has covered. -/
theorem default_overruled_in_front :
    let text := "package a\n\nfunc f(d T) \x7b\n\tswitch d \x7b\n\tdefault:\n".toList ++
      "\tcase A:\n\t\x7d\n\x7d\n".toList
    let message := "missing cases in switch of type T: B"
    let s : Site Go.Cursor :=
      ⟨(Go.parse text).tree, ⟨text⟩, ⟨"exhaustive", message, "a.go", 4, 2, none, "exhaustive"⟩, 3⟩
    (Go.parse text).hasErrors = false ∧ ∃ switch, s.locate? .switchStatement = some switch ∧
      (∃ clause ∈ s.clauses switch, s.tree.kind clause = .defaultClause) ∧
      s.resolve = .ok (.single
        ⟨"Add missing cases", .edits [.insert 56 "\tcase B:\n"]⟩ (some ⟨33, 34⟩)) := by
  intro text message s
  obtain ⟨hvalid, hkinds, hoffer⟩ : (Go.parse text).hasErrors = false ∧
      (s.locate? .switchStatement).map (fun c => (s.clauses c).map s.tree.kind) =
        some [.defaultClause, .caseClause] ∧
      s.addMissingCases = .single
        ⟨"Add missing cases", .edits [.insert 56 "\tcase B:\n"]⟩ (some ⟨33, 34⟩) := by
    decide +kernel
  obtain ⟨switch, hswitch, hkinds⟩ := Option.map_eq_some_iff.1 hkinds
  have hdefault : NodeKind.defaultClause ∈ (s.clauses switch).map s.tree.kind := by simp [hkinds]
  exact ⟨hvalid, switch, hswitch, List.mem_map.1 hdefault, congrArg Except.ok hoffer⟩

end Site
end Mend
