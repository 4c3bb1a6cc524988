import Mathlib.Data.List.Flatten
import Mend.Proofs.Insertions
import Mend.Proofs.Inspection
import Mend.Proofs.Suppression

/-! A directive and the line it is put above. What comes between them is what the findings in front
of the directive's own put in at the start of that line. -/
namespace Mend

variable {ν : Type} {t : Tree ν} {d : Document} {o : Nat}

/-- What findings insert at an offset, in the order in which it stands in the text: that of the last
finding comes first. -/
def inserted (t : Tree ν) (d : Document) (o : Nat) (findings : List (Diagnostic × Nat)) :
    List Edit :=
  (Edit.insertingAt o (firstEdits ((inspect t d findings).map (·.resolution)))).reverse.flatten

lemma inserted_append (xs ys : List (Diagnostic × Nat)) :
    inserted t d o (xs ++ ys) = inserted t d o ys ++ inserted t d o xs := by
  simp [inserted, inspect, firstEdits, Edit.insertingAt_append]

lemma inserted_singleton {diag : Diagnostic} {line : Nat} {r : Resolution} {es : List Edit}
    (hr : (Site.mk t d diag line).resolve = .ok r) (hes : r.firstEdits? = some es)
    (ho : Edit.extent es = .point o) : inserted t d o [(diag, line)] = es := by
  simp [inserted, inspect, hr, firstEdits, hes, Edit.insertingAt, ho]

/-- A text that is a directive line. -/
def IsDirective (text : List Char) : Prop :=
  ∃ indent linter, (∀ c ∈ indent, c = ' ' ∨ c = '\t') ∧
    (∀ c ∈ linter.toList, Text.isLineBreak c = false) ∧
      text = (directiveLine indent linter).toList

/-- What the edits insert is nothing but directive lines that are among them. -/
def OnlyDirectives (es : List Edit) : Prop :=
  ∃ directives : List Edit, directives.Sublist es ∧
    (∀ e ∈ directives, IsDirective e.newText.toList) ∧
    directives.flatMap (·.newText.toList) = es.flatMap (·.newText.toList)

/-- Nothing but directive lines is inserted just where every edit that inserts anything inserts a
directive line. -/
theorem onlyDirectives_iff (es : List Edit) :
    OnlyDirectives es ↔ ∀ e ∈ es, e.newText.toList ≠ [] → IsDirective e.newText.toList := by
  constructor
  · rintro ⟨directives, hsub, hdir, heq⟩
    induction hsub with
    | slnil => simp
    | @cons ds es e hsub ih =>
      have hlen := congrArg List.length heq
      have hle := (hsub.flatMap (·.newText.toList)).length_le
      rw [List.flatMap_cons] at heq hlen
      rw [List.length_append] at hlen
      have hnone : e.newText.toList = [] := List.length_eq_zero_iff.1 (by omega)
      rw [hnone, List.nil_append] at heq
      rw [List.forall_mem_cons]
      exact ⟨fun hne => absurd hnone hne, ih hdir heq⟩
    | @cons_cons ds es e hsub ih =>
      rw [List.flatMap_cons, List.flatMap_cons, List.append_cancel_left_eq] at heq
      rw [List.forall_mem_cons] at hdir ⊢
      exact ⟨fun _ => hdir.1, ih hdir.2 heq⟩
  · intro h
    refine ⟨es.filter fun e => e.newText.toList ≠ [], List.filter_sublist, fun e he => ?_, ?_⟩
    · obtain ⟨hmem, hne⟩ := List.mem_filter.1 he
      exact h e hmem (by simpa using hne)
    · clear h
      induction es with
      | nil => rfl
      | cons e es ih =>
        by_cases hne : e.newText.toList = []
        · rw [List.filter_cons_of_neg (by simpa using hne), List.flatMap_cons, hne, ih]
          rfl
        · rw [List.filter_cons_of_pos (by simpa using hne), List.flatMap_cons, List.flatMap_cons,
            ih]

lemma Resolution.firstEdits?_of_single {r : Resolution} {c : Candidate} {es : List Edit}
    (hr : r.candidates = [c]) (hes : c.edits? = some es) (hne : es ≠ []) :
    r.firstEdits? = some es := by
  simp [firstEdits?, hr, hes, hne]

/-- Findings that silence linters insert nothing but directive lines. -/
theorem onlyDirectives_of_silences {findings : List (Diagnostic × Nat)}
    (hnames : ∀ x ∈ findings, (∀ c ∈ x.1.linter.toList, Text.isLineBreak c = false) ∧
      ∀ c ∈ x.1.rule.toList, Text.isLineBreak c = false)
    (hs : ∀ x ∈ findings, (Strategy.ofRule x.1.rule).silences) :
    OnlyDirectives (inserted t d o findings) := by
  rw [onlyDirectives_iff]
  intro e he _
  obtain ⟨es, hes, he⟩ := List.mem_flatten.1 he
  obtain ⟨r, hr, hfirst⟩ := List.mem_filterMap.1 (List.mem_filter.1 (List.mem_reverse.1 hes)).1
  obtain ⟨i, hi, rfl⟩ := List.mem_map.1 hr
  obtain ⟨x, hx, _, hresolve⟩ := mem_inspect hi
  obtain ⟨c, hc, hedits⟩ := Resolution.edits?_of_firstEdits? hfirst
  obtain ⟨_, line, linter, p, hdirective⟩ := Site.silences_resolve (hs x hx) hresolve hc
  obtain rfl := Option.some.inj (hedits.symm.trans hdirective.edits)
  obtain rfl := List.mem_singleton.1 he
  refine ⟨_, linter, fun c => Document.mem_lineIndent, ?_, rfl⟩
  rcases hdirective.named with rfl | rfl
  · exact (hnames x hx).1
  · exact (hnames x hx).2

/-- A directive that silences a linter on its line is always applied. In the text that results there
stands, between the directive and what was at the start of its line, just what the findings in front
of its own insert there; it is nothing but other directive lines where each of them that inserts
anything inserts a directive line, and only there. -/
theorem directive_attached (ht : t.Within d.length) {before after : List (Diagnostic × Nat)}
    {diag : Diagnostic} {line : Nat} {r : Resolution} {c : Candidate}
    (hs : Strategy.ofRule diag.rule = .suppressLine ∨ Strategy.ofRule diag.rule = .suppressNumber)
    (hr : (Site.mk t d diag line).resolve = .ok r) (hc : c ∈ r.candidates) :
    let directive := directiveLine (d.lineIndent line) diag.linter
    let findings := before ++ (diag, line) :: after
    ∃ o a front behind, d.lineStart? line = some o ∧
      applyFixes d ((inspect t d findings).map (·.resolution)) = .ok a ∧
      Edit.inOrder a.taken.flatten =
        front ++ .insert o directive :: (inserted t d o before ++ behind) ∧
      Edit.Fits 0 o front ∧ Edit.Fits o d.length behind ∧ (∀ x ∈ behind, o < x.span.stop) ∧
      a.document.chars = Edit.splice (d.chars.take o) 0 front ++ directive.toList ++
        (inserted t d o before).flatMap (·.newText.toList) ++
        Edit.splice (d.chars.drop o) o behind ∧
      (OnlyDirectives (inserted t d o before) ↔
        ∀ e ∈ inserted t d o before, e.newText.toList ≠ [] → IsDirective e.newText.toList) := by
  intro directive findings
  obtain ⟨hone, o, hdirective⟩ := Site.silences_line hs hr hc
  have hfirst := Resolution.firstEdits?_of_single hone hdirective.edits (by simp)
  have hsplit : inserted t d o findings =
      inserted t d o after ++ .insert o directive :: inserted t d o before := by
    have hone : inserted t d o [(diag, line)] = [.insert o directive] :=
      inserted_singleton hr hfirst rfl
    rw [inserted_append, ← List.singleton_append, inserted_append, hone, List.append_assoc]
    rfl
  obtain ⟨a, front, behind, ha, horder, hfront, hbehind, hstop, hchars⟩ :=
    applyFixes_around (fun r hr es hes => accepts_inspect ht hr hes) hsplit
  exact ⟨o, a, front, behind, hdirective.start, ha, horder, hfront, hbehind, hstop, hchars,
    onlyDirectives_iff _⟩

/-- Two directives for one line: the one that was asked for last stands above the other. -/
theorem directive_above_directive :
    let d := Document.ofString "package a\n"
    let t := (Go.parse d.chars).tree
    let errcheck : Diagnostic := ⟨"errcheck", "", "a.go", 1, 0, none, "errcheck"⟩
    let gosec : Diagnostic := ⟨"gosec", "", "a.go", 1, 0, none, "gosec"⟩
    ∃ a front behind, applyFixes d ((inspect t d [(errcheck, 0), (gosec, 0)]).map (·.resolution)) =
        .ok a ∧ Edit.Fits 0 0 front ∧ (∀ x ∈ behind, 0 < x.span.stop) ∧
      a.document.chars = Edit.splice [] 0 front ++ "//nolint:gosec\n".toList ++
        "//nolint:errcheck\n".toList ++ Edit.splice "package a\n".toList 0 behind := by
  intro d t errcheck gosec
  let c : Candidate := ⟨"Suppress 'gosec' for this line", .edits [.insert 0 "//nolint:gosec\n"]⟩
  have hr : (Site.mk t d gosec 0).resolve = .ok (.single c none) := by rfl
  obtain ⟨o, a, front, behind, ho, ha, _, hfront, _, hbehind, hchars, _⟩ :=
    @directive_attached _ t d (Go.tree_within _) [(errcheck, 0)] [] gosec 0 (.single c none) c
      (.inl (by decide)) hr (List.mem_singleton.2 rfl)
  have hstart : d.lineStart? 0 = some 0 := by rfl
  obtain rfl : 0 = o := Option.some.inj (hstart.symm.trans ho)
  have hins : inserted t d 0 [(errcheck, 0)] = [.insert 0 "//nolint:errcheck\n"] := by rfl
  have hdirective : directiveLine (d.lineIndent 0) gosec.linter = "//nolint:gosec\n" := by rfl
  rw [hins, hdirective, List.flatMap_singleton, List.take_zero, List.drop_zero] at hchars
  exact ⟨a, front, behind, ha, hfront, hbehind, hchars⟩

lemma not_isDirective_lineFeed : ¬ IsDirective ['\n'] := by
  rintro ⟨indent, linter, _, _, h⟩
  have hlen := congrArg List.length h
  simp [directiveLine, nolintDirective] at hlen
  omega

/-- A directive for a line that was set off from the one above it: the empty line comes to stand
between the directive and the line. -/
theorem directive_above_blankLine :
    let d := Document.ofString "package a\n\nfunc f() \x7b\n\treturn\n\x7d\n"
    let t := (Go.parse d.chars).tree
    let nlreturn : Diagnostic := ⟨"nlreturn", "", "a.go", 4, 0, none, "nlreturn"⟩
    let gosec : Diagnostic := ⟨"gosec", "", "a.go", 4, 0, none, "gosec"⟩
    (∃ a, applyFixes d ((inspect t d [(nlreturn, 3), (gosec, 3)]).map (·.resolution)) = .ok a ∧
        a.document.text = "package a\n\nfunc f() \x7b\n\t//nolint:gosec\n\n\treturn\n\x7d\n") ∧
      ¬ OnlyDirectives (inserted t d 22 [(nlreturn, 3)]) := by
  intro d t nlreturn gosec
  have hins : inserted t d 22 [(nlreturn, 3)] = [.insert 22 "\n"] := by rfl
  constructor
  · have hfirst : firstEdits ((inspect t d [(nlreturn, 3), (gosec, 3)]).map (·.resolution)) =
        [[.insert 22 "\n"], [.insert 22 "\t//nolint:gosec\n"]] := by rfl
    have hpending : pendingEdits ((inspect t d [(nlreturn, 3), (gosec, 3)]).map (·.resolution)) =
        [[.insert 22 "\n"], [.insert 22 "\t//nolint:gosec\n"]] := by
      rw [pendingEdits, ← firstEdits, hfirst]
      exact List.mergeSort_of_pairwise (by decide)
    have happly (e : Document) (text : String) (h : 22 ≤ e.length) :
        e.apply [.insert 22 text] = .ok ⟨e.chars.take 22 ++ text.toList ++ e.chars.drop 22⟩ := by
      have hacc : e.Accepts [.insert 22 text] :=
        (Document.accepts_singleton _ _).2 (Span.within_point h)
      rw [Document.apply_of_accepts hacc, Edit.inOrder_singleton, Edit.splice_singleton]
      rfl
    let blank : List Edit := [.insert 22 "\n"]
    let set : Document := ⟨d.chars.take 22 ++ "\n".toList ++ d.chars.drop 22⟩
    have hblank : (Application.start d).step blank = .ok ⟨set, 22, [blank], 0⟩ :=
      Application.step_apply (by decide) (happly d "\n" (by decide))
    have hdirective : (Application.mk set 22 [blank] 0).step
        [.insert 22 "\t//nolint:gosec\n"] = .ok _ :=
      Application.step_apply (by decide) (happly set _ (by decide))
    rw [applyFixes, hpending, Application.run_cons hblank, Application.run_cons hdirective]
    exact ⟨_, rfl, by decide⟩
  · rw [hins, onlyDirectives_iff, List.forall_mem_singleton]
    intro h
    exact not_isDirective_lineFeed (h (by decide))

end Mend
