import Mend.Fix.Batch
import Mend.Proofs.Splice

/-! Applying candidates one at a time to a changing text is applying all of them at once to the
text as it was: what has been applied so far lies behind the floor, and the text in front of the
floor is still the original one. -/
namespace Mend

namespace Edit

/-- A text splits in one way into a part that satisfies a test and a part that fails it. -/
lemma append_split_unique {α : Type} {p : α → Prop} {l₁ l₂ m₁ m₂ : List α}
    (h : l₁ ++ l₂ = m₁ ++ m₂) (hl₁ : ∀ x ∈ l₁, p x) (hm₁ : ∀ x ∈ m₁, p x)
    (hl₂ : ∀ x ∈ l₂, ¬ p x) (hm₂ : ∀ x ∈ m₂, ¬ p x) : l₁ = m₁ ∧ l₂ = m₂ := by
  rcases List.append_eq_append_iff.1 h with ⟨as, rfl, rfl⟩ | ⟨as, rfl, rfl⟩
  · have : as = [] := List.eq_nil_iff_forall_not_mem.2 fun x hx =>
      hl₂ x (by simp [hx]) (hm₁ x (by simp [hx]))
    simp [this]
  · have : as = [] := List.eq_nil_iff_forall_not_mem.2 fun x hx =>
      hm₂ x (by simp [hx]) (hl₁ x (by simp [hx]))
    simp [this]

/-- Edits that all come first are sorted on their own; the sort is stable, so this needs no more
than that none of them comes after one of the others. -/
theorem inOrder_append {xs ys : List Edit} (h : ∀ x ∈ xs, ∀ y ∈ ys, le x y) :
    inOrder (xs ++ ys) = inOrder xs ++ inOrder ys := by
  induction xs with
  | nil => simp
  | cons x xs ih =>
    have hrest := ih fun z hz => h z (by simp [hz])
    obtain ⟨l₁, l₂, hl, hl', hl₁⟩ := List.mergeSort_cons le_trans le_total x (xs ++ ys)
    obtain ⟨m₁, m₂, hm, hm', hm₁⟩ := List.mergeSort_cons le_trans le_total x xs
    have hl₂ : ∀ y ∈ l₂, le x y := by
      have hs := List.pairwise_mergeSort le_trans le_total (x :: (xs ++ ys))
      rw [hl] at hs
      exact (List.pairwise_cons.1 (List.pairwise_append.1 hs).2.1).1
    have hm₂ : ∀ y ∈ m₂, le x y := by
      have hs := List.pairwise_mergeSort le_trans le_total (x :: xs)
      rw [hm] at hs
      exact (List.pairwise_cons.1 (List.pairwise_append.1 hs).2.1).1
    have hsplit : l₁ ++ l₂ = m₁ ++ (m₂ ++ inOrder ys) := by
      rw [← hl', ← List.append_assoc, ← hm']
      exact hrest
    obtain ⟨h₁, h₂⟩ := append_split_unique (p := fun y => ¬ le x y) hsplit
      (fun y hy => by simpa using hl₁ y hy) (fun y hy => by simpa using hm₁ y hy)
      (fun y hy => by simpa using hl₂ y hy) (fun y hy => by
        rcases List.mem_append.1 hy with hy | hy
        · simpa using hm₂ y hy
        · simpa using h x (by simp) y (mem_inOrder.1 hy))
    rw [List.cons_append, inOrder, hl, h₁, h₂]
    simp [inOrder, hm]

theorem extent_bounds {e : Edit} {es : List Edit} (he : e ∈ es) :
    (extent es).start ≤ e.span.start ∧ e.span.stop ≤ (extent es).stop := by
  fun_induction extent es with
  | case1 => cases he
  | case2 x =>
    obtain rfl := List.mem_singleton.1 he
    exact ⟨Nat.le_refl _, Nat.le_refl _⟩
  | case3 x rest _ ih =>
    simp only
    cases he with
    | head => omega
    | tail _ he =>
      have := ih he
      omega

/-- Accepted edits whose extent ends at or before an offset fit in front of it, and behind the
start of their extent. -/
theorem fits_extent {d : Document} {es : List Edit} {n : Nat} (hne : es ≠ []) (h : d.Accepts es)
    (hn : (extent es).stop ≤ n) : Fits (extent es).start n (inOrder es) := by
  obtain ⟨e, he⟩ := List.exists_mem_of_ne_nil es hne
  have hb := extent_bounds he
  have hw := h.bounds (mem_inOrder.2 he)
  refine h.between (by omega) (fun f hf => ?_) fun f hf => ?_
  · exact (extent_bounds (mem_inOrder.1 hf)).1
  · exact Nat.le_trans (extent_bounds (mem_inOrder.1 hf)).2 hn

theorem fits_zero {d : Document} {es : List Edit} {n : Nat} (h : d.Accepts es)
    (hn : (extent es).stop ≤ n) : Fits 0 n (inOrder es) :=
  h.between (Nat.zero_le n) (fun _ _ => Nat.zero_le _) fun _ hf =>
    Nat.le_trans (extent_bounds (mem_inOrder.1 hf)).2 hn

end Edit

namespace Application

/-- What has been applied fits behind the floor, and the document is the original one with just
that spliced in. -/
structure Sound (d : Document) (a : Application) : Prop where
  fits : Edit.Fits a.floor d.length (Edit.inOrder a.taken.flatten)
  chars_eq : a.document.chars = Edit.splice d.chars 0 (Edit.inOrder a.taken.flatten)

theorem sound_start (d : Document) : (start d).Sound d where
  fits := by simp [start]
  chars_eq := by simp [start, Edit.splice]

variable {d : Document} {a b : Application} {es : List Edit}

theorem Sound.floor_le (h : a.Sound d) : a.floor ≤ d.length := h.fits.start_le_stop

/-- In front of the floor nothing has changed. -/
theorem Sound.take_floor (h : a.Sound d) :
    a.document.chars.take a.floor = d.chars.take a.floor := by
  rw [h.chars_eq]
  exact Edit.take_splice h.fits d.chars h.floor_le

theorem Sound.floor_le_length (h : a.Sound d) : a.floor ≤ a.document.length := by
  have hlen := congrArg List.length h.take_floor
  have := h.floor_le
  simp only [List.length_take] at hlen
  simp only [Document.length] at *
  omega

/-- Edits of the original document that end at or before the floor fit the document as it is. -/
theorem Sound.accepts (h : a.Sound d) (hes : d.Accepts es)
    (hstop : (Edit.extent es).stop ≤ a.floor) : a.document.Accepts es :=
  Edit.fits_zero hes (Nat.le_trans hstop h.floor_le_length)

/-- Edits in front of the floor come first among all that have been applied. -/
theorem Sound.inOrder_append (h : a.Sound d) (hes : d.Accepts es)
    (hstop : (Edit.extent es).stop ≤ a.floor) :
    Edit.inOrder (es ++ a.taken.flatten) =
      Edit.inOrder es ++ Edit.inOrder a.taken.flatten := by
  apply Edit.inOrder_append
  intro x hx y hy
  have hxb := Edit.extent_bounds hx
  have hxs := (hes.bounds (Edit.mem_inOrder.2 hx)).2.1
  have hyb := h.fits.bounds (Edit.mem_inOrder.2 hy)
  simp only [Edit.le, Bool.or_eq_true, decide_eq_true_eq, Bool.and_eq_true]
  omega

theorem step_skip (h : a.floor < (Edit.extent es).stop) :
    a.step es = .ok { a with skipped := a.skipped + 1 } := by
  rw [step, if_pos h]

theorem step_apply {e : Document} (h : ¬ a.floor < (Edit.extent es).stop)
    (he : a.document.apply es = .ok e) :
    a.step es = .ok { a with
      document := e, floor := (Edit.extent es).start, taken := es :: a.taken } := by
  rw [step, if_neg h, he]

theorem run_cons {pending : List (List Edit)} (h : a.step es = .ok b) :
    a.run (es :: pending) = b.run pending := by
  rw [run, h]

/-- One step: the edits are skipped, or they are the latest of those applied. -/
theorem Sound.step (h : a.Sound d) (hne : es ≠ []) (hes : d.Accepts es) :
    ∃ b, a.step es = .ok b ∧ b.Sound d ∧
      (b.taken = a.taken ∧ b.skipped = a.skipped + 1 ∨
        b.taken = es :: a.taken ∧ b.skipped = a.skipped) := by
  by_cases hfloor : a.floor < (Edit.extent es).stop
  · exact ⟨_, step_skip hfloor, ⟨h.fits, h.chars_eq⟩, .inl ⟨rfl, rfl⟩⟩
  · have hstop : (Edit.extent es).stop ≤ a.floor := by omega
    refine ⟨_, step_apply hfloor (Document.apply_of_accepts (h.accepts hes hstop)),
      ⟨?_, ?_⟩, .inr ⟨rfl, rfl⟩⟩
    · simpa [h.inOrder_append hes hstop] using (Edit.fits_extent hne hes hstop).append h.fits
    · rw [List.flatten_cons, h.inOrder_append hes hstop, h.chars_eq]
      exact Edit.splice_splice (Edit.fits_zero hes hstop) h.fits d.chars h.floor_le

/-- A whole run: nothing is refused, what is applied comes from the pending lists in their order,
and every list is either applied or skipped. -/
theorem Sound.run {pending : List (List Edit)} (h : a.Sound d)
    (hp : ∀ es ∈ pending, es ≠ [] ∧ d.Accepts es) :
    ∃ b, a.run pending = .ok b ∧ b.Sound d ∧
      (∃ new, b.taken = new ++ a.taken ∧ new.reverse.Sublist pending) ∧
      b.applied + b.skipped = a.applied + a.skipped + pending.length := by
  induction pending generalizing a with
  | nil => exact ⟨a, rfl, h, ⟨[], rfl, .slnil⟩, rfl⟩
  | cons es rest ih =>
    obtain ⟨hne, hes⟩ := hp es (by simp)
    obtain ⟨b, hstep, hb, hcase⟩ := h.step hne hes
    obtain ⟨c, hrun, hc, ⟨new, hnew, hsub⟩, hcount⟩ := ih hb fun x hx => hp x (by simp [hx])
    refine ⟨c, by rw [run_cons hstep, hrun], hc, ?_, ?_⟩
    · rcases hcase with ⟨ht, _⟩ | ⟨ht, _⟩
      · exact ⟨new, by rw [hnew, ht], hsub.cons es⟩
      · refine ⟨new ++ [es], by rw [hnew, ht]; simp, ?_⟩
        rw [List.reverse_append]
        exact hsub.cons_cons es
    · rcases hcase with ⟨ht, hs⟩ | ⟨ht, hs⟩ <;>
        simp only [applied, ht, hs, List.length_cons] at hcount ⊢ <;> omega

end Application

theorem Resolution.firstEdits?_ne_nil {r : Resolution} {es : List Edit}
    (h : r.firstEdits? = some es) : es ≠ [] := by
  obtain ⟨_, hes⟩ := Option.filter_eq_some_iff.1 h
  simpa using hes

theorem mem_pendingEdits {rs : List Resolution} {es : List Edit} :
    es ∈ pendingEdits rs ↔ ∃ r ∈ rs, r.firstEdits? = some es := by
  simp [pendingEdits]

/-- What holds of the first edits of every resolution holds of all that is pending. -/
theorem forall_pendingEdits {rs : List Resolution} {p : List Edit → Prop}
    (h : ∀ r ∈ rs, ∀ es, r.firstEdits? = some es → p es) :
    ∀ es ∈ pendingEdits rs, es ≠ [] ∧ p es := by
  intro es hes
  obtain ⟨r, hr, hfirst⟩ := mem_pendingEdits.1 hes
  exact ⟨Resolution.firstEdits?_ne_nil hfirst, h r hr es hfirst⟩

theorem length_pendingEdits (rs : List Resolution) :
    (pendingEdits rs).length = rs.countP fun r => r.firstEdits?.isSome := by
  simp [pendingEdits, List.length_filterMap_eq_countP]

/-- The batch as a run from the start, with everything that is known of its end. -/
theorem applyFixes_sound {d : Document} {rs : List Resolution}
    (h : ∀ r ∈ rs, ∀ es, r.firstEdits? = some es → d.Accepts es) :
    ∃ a, applyFixes d rs = .ok a ∧ a.Sound d ∧ a.taken.reverse.Sublist (pendingEdits rs) ∧
      a.applied + a.skipped = rs.countP fun r => r.firstEdits?.isSome := by
  obtain ⟨a, hrun, ha, ⟨new, hnew, hsub⟩, hcount⟩ :=
    (Application.sound_start d).run (forall_pendingEdits h)
  refine ⟨a, hrun, ha, ?_, ?_⟩
  · simpa [hnew, Application.start] using hsub
  · rw [hcount, length_pendingEdits]
    simp [Application.start, Application.applied]

theorem Application.Sound.apply_flatten {d : Document} {a : Application} (h : a.Sound d) :
    d.apply a.taken.flatten = .ok a.document := by
  have hacc : d.Accepts a.taken.flatten :=
    h.fits.between (Nat.zero_le _) (fun _ _ => Nat.zero_le _) fun e he => (h.fits.bounds he).2.2
  rw [Document.apply_of_accepts hacc, ← h.chars_eq]

/-- Applying the first candidates one after the other, each to the text the ones before it left,
gives what all those applied give when they are applied at once to the text as it was; a candidate
applied later stands in front of those applied before it. -/
theorem applyFixes_eq_apply (d : Document) (rs : List Resolution)
    (h : ∀ r ∈ rs, ∀ es, r.firstEdits? = some es → ∃ e, d.apply es = .ok e) :
    ∃ a, applyFixes d rs = .ok a ∧ d.apply a.taken.flatten = .ok a.document ∧
      a.taken.reverse.Sublist (pendingEdits rs) ∧
      a.applied + a.skipped = rs.countP fun r => r.firstEdits?.isSome := by
  obtain ⟨a, hrun, ha, hsub, hcount⟩ := applyFixes_sound fun r hr es hes =>
    (d.accepts_iff es).2 (h r hr es hes)
  exact ⟨a, hrun, ha.apply_flatten, hsub, hcount⟩

/-- An insertion that touches a replacement: both apply. -/
theorem applyFixes_touching :
    let d : Document := ⟨['a', 'b']⟩
    let rs : List Resolution := [
      .single ⟨"", .edits [.insert 1 "x"]⟩ none, .single ⟨"", .edits [⟨⟨1, 2⟩, "c"⟩]⟩ none]
    ∃ a, applyFixes d rs = .ok a ∧ d.apply a.taken.flatten = .ok a.document ∧
      a.taken.reverse.Sublist (pendingEdits rs) ∧
      a.applied + a.skipped = rs.countP fun r => r.firstEdits?.isSome := by
  refine applyFixes_eq_apply _ _ fun r hr es hes => (Document.accepts_iff _ es).1 ?_
  simp only [List.mem_cons, List.not_mem_nil, or_false] at hr
  rcases hr with rfl | rfl
  · obtain rfl : [Edit.insert 1 "x"] = es := Option.some.inj hes
    simp [Edit.insert, Span.point, Span.Within, Document.length]
  · obtain rfl : [Edit.mk ⟨1, 2⟩ "c"] = es := Option.some.inj hes
    simp [Span.Within, Document.length]

end Mend
