import Mend.Proofs.Batch
import Mend.Proofs.Go.Spans
import Mend.Proofs.Resolution

/-! Inspecting findings and applying what comes of it: nothing offered is refused, and nothing is
lost but the findings that lack the lines they are about. -/
namespace Mend

variable {ν : Type} {t : Tree ν} {d : Document} {findings : List (Diagnostic × Nat)}

lemma mem_inspect {i : Inspection} (h : i ∈ inspect t d findings) :
    ∃ x ∈ findings, i.diagnostic = x.1 ∧ (Site.mk t d x.1 x.2).resolve = .ok i.resolution := by
  obtain ⟨⟨diag, line⟩, hx, hi⟩ := List.mem_filterMap.1 h
  simp only at hi
  split at hi
  · rename_i r hr
    obtain rfl := Option.some.inj hi
    exact ⟨(diag, line), hx, rfl, hr⟩
  · cases hi

lemma Resolution.edits?_of_firstEdits? {r : Resolution} {es : List Edit}
    (h : r.firstEdits? = some es) : ∃ c ∈ r.candidates, c.edits? = some es :=
  List.exists_of_findSome?_eq_some (Option.filter_eq_some_iff.1 h).1

/-- The first edits of an inspection are accepted by the document it is about, and only a single one
is an insertion. -/
theorem accepts_inspect (ht : t.Within d.length) {r : Resolution}
    (hr : r ∈ (inspect t d findings).map (·.resolution)) {es : List Edit}
    (hes : r.firstEdits? = some es) : d.Accepts es ∧ Edit.Separate es := by
  obtain ⟨i, hi, rfl⟩ := List.mem_map.1 hr
  obtain ⟨x, _, _, hresolve⟩ := mem_inspect hi
  obtain ⟨c, hc, hedits⟩ := Resolution.edits?_of_firstEdits? hes
  have hfits : i.resolution.Fits d := Site.fits_resolveAt (s := ⟨t, d, x.1, x.2⟩) ht hresolve
  exact hfits.candidates c hc es hedits

/-- What is inspected, in the order of the findings: all that do not lack their lines. -/
theorem map_inspect (t : Tree ν) (d : Document) (findings : List (Diagnostic × Nat)) :
    (inspect t d findings).map (fun i => (i.diagnostic, Except.ok i.resolution)) =
      (findings.filter fun x => ¬ x.1.NeedsLineRange).map fun x =>
        (x.1, (Site.mk t d x.1 x.2).resolve) := by
  induction findings with
  | nil => rfl
  | cons x findings ih =>
    obtain ⟨diag, line⟩ := x
    have herror := Site.resolve_eq_error_iff (s := ⟨t, d, diag, line⟩)
    cases hr : (Site.mk t d diag line).resolve with
    | error e =>
      have hneeds : diag.NeedsLineRange := herror.1 ⟨e, hr⟩
      simpa [inspect, hr, hneeds] using ih
    | ok r =>
      have hneeds : ¬ diag.NeedsLineRange := by simpa [hr] using herror
      simpa [inspect, hr, hneeds] using ih

/-- Over a tree whose nodes lie in the document, as those of its Go tree do, every edit offered is
accepted and every highlight lies in the document; so the batch applies. Inspection keeps the order
of the findings and leaves out just those whose strategy works on lines and that have none. -/
theorem inspect_fits (d : Document) (findings : List (Diagnostic × Nat)) :
    (Go.parse d.chars).tree.Within d.length ∧
      ∀ {ν : Type} (t : Tree ν), t.Within d.length →
        (∀ x ∈ findings, ∀ r, (Site.mk t d x.1 x.2).resolve = .ok r →
          (∀ c ∈ r.candidates, ∀ es, c.edits? = some es → ∃ e, d.apply es = .ok e) ∧
          ∀ s, r.highlight? = some s → s.start ≤ s.stop ∧ s.stop ≤ d.length) ∧
        (∃ a, applyFixes d ((inspect t d findings).map (·.resolution)) = .ok a) ∧
        (inspect t d findings).map (fun i => (i.diagnostic, Except.ok i.resolution)) =
          (findings.filter fun x => ¬ x.1.NeedsLineRange).map fun x =>
            (x.1, (Site.mk t d x.1 x.2).resolve) := by
  refine ⟨Go.tree_within d.chars, fun t ht => ⟨fun x _ r hr => ?_, ?_, map_inspect t d findings⟩⟩
  · have hfits : r.Fits d := Site.fits_resolveAt (s := ⟨t, d, x.1, x.2⟩) ht hr
    exact ⟨fun c hc es hes => (d.accepts_iff es).1 (hfits.candidates c hc es hes).1, hfits.within⟩
  · obtain ⟨a, ha, _⟩ := applyFixes_sound fun r hr es hes => (accepts_inspect ht hr hes).1
    exact ⟨a, ha⟩

/-- Two findings about a package clause, one of which lacks the lines it is about. -/
theorem applyFixes_inspect_packageClause :
    let d := Document.ofString "package a\n"
    let findings : List (Diagnostic × Nat) := [
      (⟨"gosec", "", "a.go", 1, 0, none, "gosec"⟩, 0),
      (⟨"whitespace", "", "a.go", 1, 0, none, "whitespace"⟩, 0)]
    ∃ a, applyFixes d ((inspect (Go.parse d.chars).tree d findings).map (·.resolution)) = .ok a :=
  ((inspect_fits _ _).2 _ (inspect_fits _ []).1).2.1

end Mend
