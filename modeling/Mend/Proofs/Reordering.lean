import Mathlib.Data.List.Nodup
import Mend.Proofs.Insertions

/-! The order in which findings are reported. Whether a candidate is applied depends on its extent
and on the extents of those in front of it only, and the order of extents leaves no choice but among
equal ones; so reports in another order come to the same extents. -/
namespace Mend

namespace Edit

/-- The order in which extents are taken up: the one furthest to the end first. -/
def SpanGe (s t : Span) : Prop := t.start < s.start ∨ t.start = s.start ∧ t.stop ≤ s.stop

lemma extentGe_iff {x y : List Edit} : extentGe x y ↔ SpanGe (extent x) (extent y) := by
  simp [extentGe, SpanGe]

lemma SpanGe.antisymm {s t : Span} (hst : SpanGe s t) (hts : SpanGe t s) : s = t := by
  obtain ⟨a, b⟩ := s
  obtain ⟨c, d⟩ := t
  simp only [SpanGe, Span.mk.injEq] at *
  omega

end Edit

open Edit (extent)

namespace Application

variable {a b a' b' : Application} {es es' : List Edit}

/-- Two applications that have taken the same extents and skipped as many candidates. -/
structure Alike (a b : Application) : Prop where
  floor : a.floor = b.floor
  taken : a.taken.map extent = b.taken.map extent
  skipped : a.skipped = b.skipped

/-- Candidates of one extent are both taken or both skipped. -/
theorem Alike.step (h : a.Alike b) (hes : extent es = extent es') (ha : a.step es = .ok a')
    (hb : b.step es' = .ok b') : a'.Alike b' := by
  have hfloor := h.floor
  rcases step_cases ha with ⟨hskip, ha₁, ha₂, ha₃⟩ | ⟨hstop, ha₁, ha₂, ha₃⟩
  · rw [hes, hfloor] at hskip
    rcases step_cases hb with ⟨-, hb₁, hb₂, hb₃⟩ | ⟨hstop, -⟩
    · exact ⟨by rw [ha₁, hb₁, hfloor], by rw [ha₂, hb₂, h.taken], by rw [ha₃, hb₃, h.skipped]⟩
    · omega
  · rw [hes, hfloor] at hstop
    rcases step_cases hb with ⟨hskip, -⟩ | ⟨-, hb₁, hb₂, hb₃⟩
    · omega
    · refine ⟨by rw [ha₁, hb₁, hes], ?_, by rw [ha₃, hb₃, h.skipped]⟩
      rw [ha₂, hb₂, List.map_cons, List.map_cons, hes, h.taken]

/-- Runs over candidates of the same extents stay alike. -/
theorem Alike.run {pending pending' : List (List Edit)} (h : a.Alike b)
    (hextents : pending.map extent = pending'.map extent) (ha : a.run pending = .ok a')
    (hb : b.run pending' = .ok b') : a'.Alike b' := by
  induction pending generalizing a b pending' with
  | nil =>
    obtain rfl := List.map_eq_nil_iff.1 hextents.symm
    obtain rfl := Except.ok.inj ha
    obtain rfl := Except.ok.inj hb
    exact h
  | cons es rest ih =>
    obtain ⟨es', rest', rfl, hes, hrest⟩ := List.map_eq_cons_iff.1 hextents.symm
    rw [Application.run] at ha hb
    split at ha
    · rename_i c hc
      split at hb
      · rename_i c' hc'
        exact ih (h.step hes.symm hc hc') hrest.symm ha hb
      · cases hb
    · cases ha

end Application

variable {rs rs' : List Resolution}

lemma pendingEdits_perm (h : rs.Perm rs') : (pendingEdits rs).Perm (pendingEdits rs') :=
  (List.mergeSort_perm _ _).trans ((h.filterMap _).trans (List.mergeSort_perm _ _).symm)

lemma pairwise_pendingEdits (rs : List Resolution) :
    (pendingEdits rs).Pairwise fun x y => Edit.SpanGe (extent x) (extent y) :=
  (List.pairwise_mergeSort Edit.extentGe_trans Edit.extentGe_total _).imp Edit.extentGe_iff.1

/-- Whatever the order of the reports, the extents come up in the one order that they have. -/
theorem map_extent_pendingEdits (h : rs.Perm rs') :
    (pendingEdits rs).map extent = (pendingEdits rs').map extent := by
  have hsorted : ∀ rs, ((pendingEdits rs).map extent).Pairwise Edit.SpanGe :=
    fun rs => List.pairwise_map.2 (pairwise_pendingEdits rs)
  exact List.Perm.eq_of_pairwise (fun _ _ _ _ hst hts => hst.antisymm hts) (hsorted rs)
    (hsorted rs') ((pendingEdits_perm h).map extent)

/-- If no two candidates have the same extent, the candidates themselves come up in one order. -/
theorem pendingEdits_congr (h : rs.Perm rs') (hne : ((firstEdits rs).map extent).Nodup) :
    pendingEdits rs = pendingEdits rs' := by
  have hnodup : ((pendingEdits rs).map extent).Nodup :=
    ((List.mergeSort_perm _ _).map extent).nodup_iff.2 hne
  refine List.Perm.eq_of_pairwise ?_ (pairwise_pendingEdits rs) (pairwise_pendingEdits rs')
    (pendingEdits_perm h)
  intro x y hx hy hxy hyx
  have hy' : y ∈ pendingEdits rs := (pendingEdits_perm h).mem_iff.2 hy
  exact List.inj_on_of_nodup_map hnodup hx hy' (hxy.antisymm hyx)

/-- Reports in another order take the same extents and skip as many candidates; and if no two
candidates have the same extent, they leave the same text. -/
theorem applyFixes_perm (d : Document) (hperm : rs.Perm rs')
    (h : ∀ r ∈ rs, ∀ es, r.firstEdits? = some es → ∃ e, d.apply es = .ok e) :
    ∃ a b, applyFixes d rs = .ok a ∧ applyFixes d rs' = .ok b ∧
      a.taken.map extent = b.taken.map extent ∧ a.applied = b.applied ∧ a.skipped = b.skipped ∧
      (((firstEdits rs).map extent).Nodup → a.document = b.document) := by
  have haccepts : ∀ r ∈ rs, ∀ es, r.firstEdits? = some es → d.Accepts es := by
    intro r hr es hes
    exact (d.accepts_iff es).2 (h r hr es hes)
  obtain ⟨a, ha, -⟩ := applyFixes_sound haccepts
  obtain ⟨b, hb, -⟩ := applyFixes_sound fun r hr => haccepts r (hperm.mem_iff.2 hr)
  have hstart : (Application.start d).Alike (Application.start d) := ⟨rfl, rfl, rfl⟩
  have halike := hstart.run (map_extent_pendingEdits hperm) ha hb
  refine ⟨a, b, ha, hb, halike.taken, ?_, halike.skipped, fun hne => ?_⟩
  · simpa [Application.applied] using congrArg List.length halike.taken
  · rw [applyFixes, pendingEdits_congr hperm hne] at ha
    rw [Except.ok.inj (ha.symm.trans hb)]

/-- An insertion, the replacement in front of which it stands, and a replacement that is in the way
of both, reported the other way round. -/
theorem applyFixes_perm_insertion :
    let d : Document := ⟨['a', 'b', 'c']⟩
    let rs : List Resolution := [
      .single ⟨"", .edits [⟨⟨0, 2⟩, "y"⟩]⟩ none, .single ⟨"", .edits [.insert 1 "x"]⟩ none,
      .single ⟨"", .edits [⟨⟨1, 2⟩, "z"⟩]⟩ none]
    ∃ a b, applyFixes d rs = .ok a ∧ applyFixes d rs.reverse = .ok b ∧ a.applied = b.applied ∧
      a.skipped = b.skipped ∧ a.document = b.document := by
  intro d rs
  obtain ⟨a, b, ha, hb, -, happlied, hskipped, hdocument⟩ :=
    applyFixes_perm d (List.reverse_perm rs).symm fun r hr es hes => by
      refine (Document.accepts_iff d es).1 ?_
      simp only [rs, List.mem_cons, List.not_mem_nil, or_false] at hr
      rcases hr with rfl | rfl | rfl
      · obtain rfl : [Edit.mk ⟨0, 2⟩ "y"] = es := Option.some.inj hes
        simp [d, Span.Within, Document.length]
      · obtain rfl : [Edit.insert 1 "x"] = es := Option.some.inj hes
        simp [d, Edit.insert, Span.point, Span.Within, Document.length]
      · obtain rfl : [Edit.mk ⟨1, 2⟩ "z"] = es := Option.some.inj hes
        simp [d, Span.Within, Document.length]
  exact ⟨a, b, ha, hb, happlied, hskipped, hdocument (by decide)⟩

end Mend
