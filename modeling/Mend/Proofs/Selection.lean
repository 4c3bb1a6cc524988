import Mathlib.Data.List.Basic
import Mathlib.Order.Bounds.Defs
import Mend.Proofs.Insertions

/-! Which candidates of a batch are applied: as many as go together. Of all that are left, the one
that starts last is in the way of one other at most. Where several start at the same place the one
that stops last goes first, since an insertion goes together with what it stands in front of, but
once it has been applied nothing behind it can be. -/
namespace Mend

/-- Neither span reaches into the other. -/
def Span.Compatible (s t : Span) : Prop := s.stop ≤ t.start ∨ t.stop ≤ s.start

lemma Span.Compatible.symm {s t : Span} (h : s.Compatible t) : t.Compatible s := Or.symm h

namespace Edit

/-- Candidates that reach no further than an offset and go together. -/
structure Together (n : Nat) (chosen : List (List Edit)) : Prop where
  within : ∀ es ∈ chosen, (extent es).stop ≤ n
  compatible : chosen.Pairwise fun x y => (extent x).Compatible (extent y)

variable {n : Nat} {es : List Edit} {rest chosen : List (List Edit)}

lemma extent_start_le_stop (hes : ∀ e ∈ es, e.span.start ≤ e.span.stop) :
    (extent es).start ≤ (extent es).stop := by
  fun_induction extent es with
  | case1 => exact Nat.le_refl 0
  | case2 e => exact hes e (by simp)
  | case3 e rest _ ih =>
    have he := hes e (by simp)
    simp only
    omega

/-- A candidate reaches behind an offset if one of its edits does. -/
lemma lt_extent_stop {e : Edit} (he : e ∈ es) (hn : n < e.span.stop) : n < (extent es).stop :=
  Nat.lt_of_lt_of_le hn (extent_bounds he).2

lemma Together.perm (h : Together n chosen) {other : List (List Edit)} (hperm : chosen.Perm other) :
    Together n other :=
  ⟨fun x hx => h.within x (hperm.mem_iff.2 hx),
    (hperm.pairwise_iff fun hxy => hxy.symm).1 h.compatible⟩

/-- Of candidates that go together at most one reaches behind an offset that none starts behind. -/
lemma Together.length_filter_le (h : Together n chosen) {o : Nat}
    (ho : ∀ x ∈ chosen, (extent x).start ≤ o) :
    (chosen.filter fun x => !decide ((extent x).stop ≤ o)).length ≤ 1 := by
  have hbehind : ∀ x ∈ chosen.filter (fun x => !decide ((extent x).stop ≤ o)),
      (extent x).start ≤ o ∧ o < (extent x).stop := by
    intro x hx
    obtain ⟨hmem, hstop⟩ := List.mem_filter.1 hx
    exact ⟨ho x hmem, by simpa using hstop⟩
  have hpair := h.compatible.sublist (List.filter_sublist
    (p := fun x => !decide ((extent x).stop ≤ o)))
  rcases hl : chosen.filter (fun x => !decide ((extent x).stop ≤ o)) with _ | ⟨x, _ | ⟨y, l⟩⟩
  · exact Nat.zero_le 1
  · exact Nat.le_refl 1
  · rw [hl] at hpair hbehind
    have hx := hbehind x (by simp)
    have hy := hbehind y (by simp)
    have hxy : (extent x).Compatible (extent y) := (List.pairwise_cons.1 hpair).1 y (by simp)
    rcases hxy with hxy | hxy <;> omega

/-- Whatever is chosen from a list in order, all but one of it goes together with the first of the
list and in front of it. -/
theorem Together.exchange (h : Together n chosen) (hsub : chosen.Sublist (es :: rest))
    (hes : (extent es).start ≤ (extent es).stop) (horder : ∀ x ∈ rest, extentGe es x) :
    ∃ kept, kept.Sublist rest ∧ Together (extent es).start kept ∧
      chosen.length ≤ kept.length + 1 := by
  have hge : ∀ x ∈ rest, (extent x).start < (extent es).start ∨
      (extent x).start = (extent es).start ∧ (extent x).stop ≤ (extent es).stop := by
    intro x hx
    simpa [extentGe] using horder x hx
  cases hsub with
  | cons _ hsub =>
    have hstart : ∀ x ∈ chosen, (extent x).start ≤ (extent es).start := by
      intro x hx
      have := hge x (hsub.subset hx)
      omega
    refine ⟨chosen.filter fun x => (extent x).stop ≤ (extent es).start,
      List.filter_sublist.trans hsub, ⟨?_, h.compatible.sublist List.filter_sublist⟩, ?_⟩
    · intro x hx
      simpa using (List.mem_filter.1 hx).2
    · have hsplit := List.length_eq_length_filter_add (l := chosen)
        fun x => decide ((extent x).stop ≤ (extent es).start)
      have hbehind := h.length_filter_le hstart
      omega
  | cons_cons _ hsub =>
    rename_i kept
    obtain ⟨hes', hkept⟩ := List.pairwise_cons.1 h.compatible
    refine ⟨kept, hsub, ⟨?_, hkept⟩, by simp⟩
    intro x hx
    have := hge x (hsub.subset hx)
    -- What starts where an insertion stands and goes together with it stops there, too.
    rcases hes' x hx with hx | hx <;> omega

/-- The best choice from a list, the last one first: what goes together in front of an offset, and
nothing larger does. -/
structure Best (n : Nat) (pending best : List (List Edit)) : Prop where
  sublist : best.reverse.Sublist pending
  together : Together n best
  most : ∀ chosen, chosen.Sublist pending → Together n chosen → chosen.length ≤ best.length

variable {best : List (List Edit)}

lemma best_nil (n : Nat) : Best n [] [] where
  sublist := .slnil
  together := ⟨by simp, .nil⟩
  most chosen hsub _ := by
    obtain rfl := List.sublist_nil.1 hsub
    exact Nat.le_refl 0

/-- A candidate that reaches too far goes together with nothing. -/
lemma Best.skip (h : Best n rest best) (hes : n < (extent es).stop) : Best n (es :: rest) best where
  sublist := h.sublist.cons es
  together := h.together
  most chosen hsub htogether := by
    cases hsub with
    | cons _ hsub => exact h.most chosen hsub htogether
    | cons_cons _ _ =>
      have hwithin := htogether.within es (by simp)
      omega

/-- The first candidate in order is taken in exchange for one at most. -/
lemma Best.take (h : Best (extent es).start rest best) (hn : (extent es).stop ≤ n)
    (hes : (extent es).start ≤ (extent es).stop) (horder : ∀ x ∈ rest, extentGe es x) :
    Best n (es :: rest) (best ++ [es]) where
  sublist := by
    rw [List.reverse_append]
    exact h.sublist.cons_cons es
  together := by
    have hbest := h.together.within
    constructor
    · intro x hx
      rcases List.mem_append.1 hx with hx | hx
      · have := hbest x hx
        omega
      · rw [List.mem_singleton.1 hx]
        exact hn
    · refine List.pairwise_append.2 ⟨h.together.compatible, by simp, ?_⟩
      intro x hx y hy
      rw [List.mem_singleton.1 hy]
      exact .inl (hbest x hx)
  most chosen hsub htogether := by
    obtain ⟨kept, hkept, htogether', hlen⟩ := htogether.exchange hsub hes horder
    have hmost := h.most kept hkept htogether'
    simp only [List.length_append, List.length_singleton]
    omega

end Edit

namespace Application

variable {d : Document} {a : Application}

/-- A run over candidates in order makes the best choice in front of the floor. The induction is on
what is pending: the first one is skipped because it reaches too far, or it is taken. -/
theorem Sound.run_best {pending : List (List Edit)} (h : a.Sound d)
    (hp : ∀ es ∈ pending, es ≠ [] ∧ (∀ e ∈ es, e.span.start ≤ e.span.stop) ∧
      (d.Accepts es ∨ d.length < (Edit.extent es).stop))
    (hsorted : pending.Pairwise fun x y => Edit.extentGe x y) :
    ∃ b best, a.run pending = .ok b ∧ b.Sound d ∧ b.taken = best ++ a.taken ∧
      Edit.Best a.floor pending best := by
  induction pending generalizing a with
  | nil => exact ⟨a, [], rfl, h, rfl, Edit.best_nil a.floor⟩
  | cons es rest ih =>
    obtain ⟨hne, hes, hcase⟩ := hp es (by simp)
    obtain ⟨horder, hrest⟩ := List.pairwise_cons.1 hsorted
    have hp' := fun x hx => hp x (List.mem_cons_of_mem es hx)
    by_cases hfloor : a.floor < (Edit.extent es).stop
    · have hskip : Sound d { a with skipped := a.skipped + 1 } := ⟨h.fits, h.chars_eq⟩
      obtain ⟨b, best, hrun, hb, htaken, hbest⟩ := ih hskip hp' hrest
      have hrun' : a.run (es :: rest) = .ok b := by rw [run_cons (step_skip hfloor), hrun]
      exact ⟨b, best, hrun', hb, htaken, hbest.skip hfloor⟩
    · have hlength := h.floor_le
      have haccepts : d.Accepts es := by
        rcases hcase with hcase | hcase
        · exact hcase
        · omega
      obtain ⟨b, hstep, hb, -⟩ := h.step hne haccepts
      rcases step_cases hstep with ⟨hskip, -⟩ | ⟨hstop, hbfloor, hbtaken, -⟩
      · omega
      obtain ⟨c, best, hrun, hc, htaken, hbest⟩ := ih hb hp' hrest
      rw [hbfloor] at hbest
      have hrun' : a.run (es :: rest) = .ok c := by rw [run_cons hstep, hrun]
      have htaken' : c.taken = best ++ [es] ++ a.taken := by simp [htaken, hbtaken]
      exact ⟨c, best ++ [es], hrun', hc, htaken',
        hbest.take hstop (Edit.extent_start_le_stop hes) horder⟩

end Application

/-- Candidates that all go together are all applied. -/
theorem applyFixes_together {d : Document} {rs : List Resolution}
    (h : ∀ r ∈ rs, ∀ es, r.firstEdits? = some es → d.Accepts es)
    (htogether : Edit.Together d.length (firstEdits rs)) :
    ∃ a, applyFixes d rs = .ok a ∧ a.Sound d ∧ a.taken = (pendingEdits rs).reverse ∧
      a.skipped = 0 := by
  obtain ⟨a, ha, hsound, hsub, hcount⟩ := applyFixes_sound h
  have hp : ∀ es ∈ pendingEdits rs, es ≠ [] ∧ (∀ e ∈ es, e.span.start ≤ e.span.stop) ∧
      (d.Accepts es ∨ d.length < (Edit.extent es).stop) :=
    forall_pendingEdits fun r hr es hfirst =>
      have haccepts := h r hr es hfirst
      ⟨fun e he => (haccepts.bounds (Edit.mem_inOrder.2 he)).2.1, .inl haccepts⟩
  obtain ⟨b, best, hrun, -, htaken, hbest⟩ :=
    (Application.sound_start d).run_best hp
      (List.pairwise_mergeSort Edit.extentGe_trans Edit.extentGe_total _)
  obtain rfl : a = b := Except.ok.inj (ha.symm.trans hrun)
  obtain rfl : a.taken = best := by simpa [Application.start] using htaken
  have hmost := hbest.most _ (List.Sublist.refl _) (htogether.perm (List.mergeSort_perm _ _).symm)
  have hall : a.taken.reverse = pendingEdits rs := by
    refine hsub.eq_of_length_le ?_
    rwa [List.length_reverse]
  rw [← length_pendingEdits, ← hall, List.length_reverse, Application.applied] at hcount
  exact ⟨a, ha, hsound, by rw [← hall, List.reverse_reverse], by omega⟩

/-- From a batch of candidates, each of which is accepted or reaches behind the end of the document,
some are applied to it, and their number is the largest there is of candidates that go together. -/
theorem applyFixes_most (d : Document) (rs : List Resolution)
    (h : ∀ r ∈ rs, ∀ es, r.firstEdits? = some es → (∀ e ∈ es, e.span.start ≤ e.span.stop) ∧
      ((∃ e, d.apply es = .ok e) ∨ ∃ e ∈ es, d.length < e.span.stop)) :
    ∃ a, applyFixes d rs = .ok a ∧ d.apply a.taken.flatten = .ok a.document ∧
      a.taken.reverse.Sublist (pendingEdits rs) ∧
      IsGreatest {k | ∃ chosen, chosen.Sublist (firstEdits rs) ∧ Edit.Together d.length chosen ∧
        chosen.length = k} a.applied := by
  have hp : ∀ es ∈ pendingEdits rs, es ≠ [] ∧ (∀ e ∈ es, e.span.start ≤ e.span.stop) ∧
      (d.Accepts es ∨ d.length < (Edit.extent es).stop) := by
    refine forall_pendingEdits fun r hr es hfirst => ?_
    obtain ⟨hspans, hcase⟩ := h r hr es hfirst
    refine ⟨hspans, ?_⟩
    rcases hcase with happly | ⟨e, he, hbehind⟩
    · exact .inl ((d.accepts_iff es).2 happly)
    · exact .inr (Edit.lt_extent_stop he hbehind)
  have hperm : (pendingEdits rs).Perm (firstEdits rs) := List.mergeSort_perm _ _
  obtain ⟨a, best, hrun, hsound, htaken, hbest⟩ :=
    (Application.sound_start d).run_best hp
      (List.pairwise_mergeSort Edit.extentGe_trans Edit.extentGe_total _)
  obtain rfl : a.taken = best := by simpa [Application.start] using htaken
  refine ⟨a, hrun, hsound.apply_flatten, hbest.sublist, ?_, ?_⟩
  · obtain ⟨chosen, hchosen, hsub'⟩ := List.exists_perm_sublist hbest.sublist hperm
    refine ⟨chosen, hsub', hbest.together.perm ?_, ?_⟩
    · exact (List.reverse_perm a.taken).symm.trans hchosen.symm
    · rw [hchosen.length_eq, List.length_reverse]
      rfl
  · rintro k ⟨chosen, hchosen, htogether', rfl⟩
    obtain ⟨sorted, hsorted, hsub'⟩ := List.exists_perm_sublist hchosen hperm.symm
    rw [← hsorted.length_eq]
    exact hbest.most sorted hsub' (htogether'.perm hsorted.symm)

/-- An insertion goes together with the replacement behind it; a third candidate reaches behind the
end. -/
theorem applyFixes_most_insertion :
    let d : Document := ⟨['a', 'b']⟩
    let rs : List Resolution := [
      .single ⟨"", .edits [.insert 1 "x"]⟩ none, .single ⟨"", .edits [⟨⟨1, 2⟩, "c"⟩]⟩ none,
      .single ⟨"", .edits [⟨⟨0, 3⟩, "y"⟩]⟩ none]
    ∃ a, applyFixes d rs = .ok a ∧ d.apply a.taken.flatten = .ok a.document ∧
      a.taken.reverse.Sublist (pendingEdits rs) ∧
      IsGreatest {k | ∃ chosen, chosen.Sublist (firstEdits rs) ∧ Edit.Together d.length chosen ∧
        chosen.length = k} a.applied := by
  refine applyFixes_most _ _ fun r hr es hes => ?_
  simp only [List.mem_cons, List.not_mem_nil, or_false] at hr
  rcases hr with rfl | rfl | rfl
  · obtain rfl : [Edit.insert 1 "x"] = es := Option.some.inj hes
    refine ⟨by simp [Edit.insert, Span.point], .inl ((Document.accepts_iff _ _).1 ?_)⟩
    simp [Edit.insert, Span.point, Span.Within, Document.length]
  · obtain rfl : [Edit.mk ⟨1, 2⟩ "c"] = es := Option.some.inj hes
    refine ⟨by simp, .inl ((Document.accepts_iff _ _).1 ?_)⟩
    simp [Span.Within, Document.length]
  · obtain rfl : [Edit.mk ⟨0, 3⟩ "y"] = es := Option.some.inj hes
    exact ⟨by simp, .inr (by simp [Document.length])⟩

end Mend
