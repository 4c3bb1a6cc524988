import Mend.Proofs.Batch

/-! Insertions in a batch. None of them is skipped, and those at one place stand in front of what
the text had there, the one that was found last first. -/
namespace Mend

section Sorting

variable {α : Type} {le : α → α → Bool} (trans : ∀ x y z, le x y → le y z → le x z)
  (total : ∀ x y, le x y || le y x)

include trans total

/-- Sorting is stable: elements that the order does not tell apart stay in their order. -/
lemma filter_mergeSort {p : α → Bool} (hp : ∀ x y, p x → p y → le x y) (l : List α) :
    (l.mergeSort le).filter p = l.filter p := by
  have hsorted : (l.filter p).Pairwise fun x y => le x y := by
    refine List.pairwise_of_forall_mem_list fun x hx y hy => ?_
    exact hp x y (List.mem_filter.1 hx).2 (List.mem_filter.1 hy).2
  have hsub := (List.sublist_mergeSort trans total hsorted List.filter_sublist).filter p
  have hlen := ((List.mergeSort_perm l le).filter p).length_eq
  rw [List.filter_filter] at hsub
  simp only [Bool.and_self] at hsub
  exact (hsub.eq_of_length hlen.symm).symm

/-- A sorted list is what comes before an element, what the order does not tell apart from it, and
what comes after it. -/
lemma sorted_split (x : α) {l : List α} (hl : l.Pairwise fun y z => le y z) :
    l = l.filter (fun y => !le x y) ++
      (l.filter (fun y => le x y && le y x) ++ l.filter fun y => !le y x) := by
  induction l with
  | nil => rfl
  | cons y l ih =>
    obtain ⟨hy, hl⟩ := List.pairwise_cons.1 hl
    have ih := ih hl
    cases hxy : le x y with
    | false =>
      have hyx : le y x = true := by simpa [hxy] using total x y
      simpa [hxy, hyx] using ih
    | true =>
      have hfront : l.filter (fun z => !le x z) = [] := by
        rw [List.filter_eq_nil_iff]
        intro z hz
        simpa using trans x y z hxy (hy z hz)
      rw [hfront, List.nil_append] at ih
      cases hyx : le y x with
      | true => simpa [hxy, hyx, hfront] using ih
      | false =>
        have hbehind : ∀ z ∈ l, le z x = false := by
          intro z hz
          by_cases hzx : le z x = true
          · rw [trans y z x (hy z hz) hzx] at hyx
            cases hyx
          · simpa using hzx
        have hnone : l.filter (fun z => le x z && le z x) = [] := by
          rw [List.filter_eq_nil_iff]
          intro z hz
          simp [hbehind z hz]
        rw [hnone, List.nil_append] at ih
        simpa [hxy, hyx, hfront, hnone] using ih

end Sorting

namespace Edit

/-- The edits among these that insert at an offset. -/
def insertsAt (o : Nat) (es : List Edit) : List Edit := es.filter fun e => e.span = .point o

@[simp] lemma mem_insertsAt {o : Nat} {es : List Edit} {e : Edit} :
    e ∈ insertsAt o es ↔ e ∈ es ∧ e.span = .point o := by
  simp [insertsAt]

lemma insertsAt_append (o : Nat) (xs ys : List Edit) :
    insertsAt o (xs ++ ys) = insertsAt o xs ++ insertsAt o ys := List.filter_append ..

lemma span_eq_point {e : Edit} {o : Nat} :
    e.span = .point o ↔ e.span.start = o ∧ e.span.stop = o := by
  obtain ⟨⟨start, stop⟩, _⟩ := e
  simp [Span.point]

/-- Edits in order insert at an offset what they insert there, in the order of the list. -/
lemma insertsAt_inOrder (o : Nat) (es : List Edit) : insertsAt o (inOrder es) = insertsAt o es := by
  refine filter_mergeSort le_trans le_total (fun x y hx hy => ?_) es
  simp only [decide_eq_true_eq] at hx hy
  simp [le, hx, hy]

/-- In order, the insertions at an offset stand as they were listed, behind the edits in front of
the offset and in front of those that reach behind it. -/
theorem inOrder_split (o : Nat) (es : List Edit) (hes : ∀ e ∈ es, e.span.start ≤ e.span.stop) :
    ∃ front behind, inOrder es = front ++ (insertsAt o es ++ behind) ∧
      ∀ e ∈ behind, o ≤ e.span.start ∧ o < e.span.stop := by
  have hsplit := sorted_split le_trans le_total (insert o "")
    (List.pairwise_mergeSort le_trans le_total es)
  have hpoint : ∀ e : Edit,
      (le (insert o "") e && le e (insert o "")) = decide (e.span = .point o) := by
    intro e
    rw [Bool.eq_iff_iff]
    simp only [le, Bool.and_eq_true, Bool.or_eq_true, decide_eq_true_eq, span_eq_point]
    simp only [insert, Span.point]
    omega
  simp only [hpoint] at hsplit
  refine ⟨_, _, hsplit.trans (by rw [← insertsAt_inOrder]; rfl), fun e he => ?_⟩
  obtain ⟨hmem, hle⟩ := List.mem_filter.1 he
  have hspan := hes e (mem_inOrder.1 hmem)
  have hnot : ¬ le e (insert o "") := by simpa using hle
  simp only [le, Bool.and_eq_true, Bool.or_eq_true, decide_eq_true_eq] at hnot
  simp only [insert, Span.point] at hnot
  omega

/-- Insertions at an offset put their texts there one after the other. -/
lemma splice_insertions {o : Nat} {ins : List Edit} (hins : ∀ e ∈ ins, e.span = .point o)
    (cs : List Char) (behind : List Edit) :
    splice cs o (ins ++ behind) =
      ins.flatMap (·.newText.toList) ++ splice cs o behind := by
  induction ins with
  | nil => rfl
  | cons e ins ih =>
    have he := hins e (by simp)
    have hrest := ih fun x hx => hins x (by simp [hx])
    simp [splice, he, Span.point, hrest]

/-- The lists among these whose edits all insert at an offset. -/
def insertingAt (o : Nat) (ess : List (List Edit)) : List (List Edit) :=
  ess.filter fun es => extent es = .point o

lemma insertingAt_append (o : Nat) (xs ys : List (List Edit)) :
    insertingAt o (xs ++ ys) = insertingAt o xs ++ insertingAt o ys := List.filter_append ..

lemma insertsAt_of_extent {o : Nat} {es : List Edit} (hes : ∀ e ∈ es, e.span.start ≤ e.span.stop)
    (h : extent es = .point o) : insertsAt o es = es := by
  refine List.filter_eq_self.2 fun e he => ?_
  have hb := extent_bounds he
  rw [h] at hb
  have := hes e he
  simp only [Span.point] at hb
  simpa [span_eq_point] using (by omega : e.span.start = o ∧ e.span.stop = o)

lemma insertsAt_eq_nil {o : Nat} {es : List Edit} (hes : Separate es)
    (h : extent es ≠ .point o) : insertsAt o es = [] := by
  refine List.filter_eq_nil_iff.2 fun e he hat => ?_
  simp only [decide_eq_true_eq] at hat
  rcases hes e he with rfl | hlt
  · exact h hat
  · simp [hat, Span.point] at hlt

/-- What is inserted at an offset comes from the lists that do nothing else. -/
theorem insertsAt_flatten {o : Nat} {ess : List (List Edit)}
    (hess : ∀ es ∈ ess, (∀ e ∈ es, e.span.start ≤ e.span.stop) ∧ Separate es) :
    insertsAt o ess.flatten = (insertingAt o ess).flatten := by
  induction ess with
  | nil => rfl
  | cons es ess ih =>
    obtain ⟨hes, hsep⟩ := hess es (by simp)
    have hrest := ih fun x hx => hess x (by simp [hx])
    rw [List.flatten_cons, insertsAt_append, hrest]
    by_cases h : extent es = .point o
    · rw [insertsAt_of_extent hes h]
      simp [insertingAt, h]
    · rw [insertsAt_eq_nil hsep h]
      simp [insertingAt, h]

lemma extentGe_trans (x y z : List Edit) (hxy : extentGe x y) (hyz : extentGe y z) :
    extentGe x z := by
  simp only [extentGe, Bool.or_eq_true, decide_eq_true_eq, Bool.and_eq_true] at *
  omega

lemma extentGe_total (x y : List Edit) : extentGe x y || extentGe y x := by
  simp only [extentGe, Bool.or_eq_true, decide_eq_true_eq, Bool.and_eq_true]
  omega

lemma insertingAt_mergeSort (o : Nat) (ess : List (List Edit)) :
    insertingAt o (ess.mergeSort extentGe) = insertingAt o ess := by
  refine filter_mergeSort extentGe_trans extentGe_total (fun x y hx hy => ?_) ess
  simp only [decide_eq_true_eq] at hx hy
  simp [extentGe, hx, hy]

end Edit

open Edit (insertingAt insertsAt Separate)

namespace Application

variable {d : Document} {a b : Application} {es : List Edit}

/-- What one step does: it skips the edits, or it takes them and they are the floor. -/
lemma step_cases (h : a.step es = .ok b) :
    a.floor < (Edit.extent es).stop ∧ b.floor = a.floor ∧ b.taken = a.taken ∧
        b.skipped = a.skipped + 1 ∨
      (Edit.extent es).stop ≤ a.floor ∧ b.floor = (Edit.extent es).start ∧
        b.taken = es :: a.taken ∧ b.skipped = a.skipped := by
  by_cases hfloor : a.floor < (Edit.extent es).stop
  · rw [step_skip hfloor] at h
    obtain rfl := Except.ok.inj h
    exact .inl ⟨hfloor, rfl, rfl, rfl⟩
  · rw [step, if_neg hfloor] at h
    split at h
    · obtain rfl := Except.ok.inj h
      exact .inr ⟨by omega, rfl, rfl, rfl⟩
    · cases h

/-- The floor stays behind the starts of all that is still pending, so an insertion, which ends
where it starts, is never skipped. -/
theorem run_insertions {pending : List (List Edit)} (h : a.run pending = .ok b)
    (hsorted : pending.Pairwise fun x y => Edit.extentGe x y)
    (hfloor : ∀ es ∈ pending, (Edit.extent es).start ≤ a.floor) (o : Nat) :
    ∃ new, b.taken = new ++ a.taken ∧ insertingAt o new.reverse = insertingAt o pending := by
  induction pending generalizing a with
  | nil =>
    obtain rfl := Except.ok.inj h
    exact ⟨[], rfl, rfl⟩
  | cons es rest ih =>
    obtain ⟨hes, hrest⟩ := List.pairwise_cons.1 hsorted
    rw [run] at h
    split at h
    · rename_i c hstep
      rcases step_cases hstep with ⟨hskip, hc, htaken, -⟩ | ⟨hstop, hc, htaken, -⟩
      · obtain ⟨new, hnew, hins⟩ := ih h hrest fun x hx => hc ▸ hfloor x (by simp [hx])
        have hstart := hfloor es (by simp)
        have hne : Edit.extent es ≠ .point o := by
          intro heq
          simp only [heq, Span.point] at hskip hstart
          omega
        exact ⟨new, by rw [hnew, htaken], by simpa [insertingAt, hne] using hins⟩
      · have hlater : ∀ x ∈ rest, (Edit.extent x).start ≤ c.floor := by
          intro x hx
          have hge := hes x hx
          simp only [Edit.extentGe, Bool.or_eq_true, decide_eq_true_eq, Bool.and_eq_true] at hge
          omega
        obtain ⟨new, hnew, hins⟩ := ih h hrest hlater
        refine ⟨new ++ [es], by rw [hnew, htaken]; simp, ?_⟩
        rw [List.reverse_append, Edit.insertingAt_append, hins, ← Edit.insertingAt_append]
        rfl
    · cases h

end Application

/-- The first edits of all resolutions that have any. -/
def firstEdits (rs : List Resolution) : List (List Edit) := rs.filterMap Resolution.firstEdits?

/-- The lists of edits that insert at an offset are all applied, in the order of the findings. -/
theorem insertingAt_taken {d : Document} {rs : List Resolution} {a : Application}
    (hrs : ∀ r ∈ rs, ∀ es, r.firstEdits? = some es → d.Accepts es)
    (h : applyFixes d rs = .ok a) (o : Nat) :
    insertingAt o a.taken = (insertingAt o (firstEdits rs)).reverse := by
  have hfloor : ∀ es ∈ pendingEdits rs,
      (Edit.extent es).start ≤ (Application.start d).floor := by
    intro es hes
    obtain ⟨hne, haccepts⟩ := forall_pendingEdits hrs es hes
    obtain ⟨e, he⟩ := List.exists_mem_of_ne_nil es hne
    have hb := Edit.extent_bounds he
    have hw := haccepts.bounds (Edit.mem_inOrder.2 he)
    simp only [Application.start]
    omega
  obtain ⟨new, hnew, hins⟩ := Application.run_insertions h
    (List.pairwise_mergeSort Edit.extentGe_trans Edit.extentGe_total _) hfloor o
  obtain rfl : a.taken = new := by simpa [Application.start] using hnew
  rw [pendingEdits, Edit.insertingAt_mergeSort] at hins
  rw [firstEdits, ← hins]
  simp [insertingAt]

/-- Around an edit that inserts at an offset: what is inserted there by findings in front of its own
stands behind it, and then comes what the text had there, with the edits behind the offset. -/
theorem applyFixes_around {d : Document} {rs : List Resolution}
    (hrs : ∀ r ∈ rs, ∀ es, r.firstEdits? = some es → d.Accepts es ∧ Separate es)
    {o : Nat} {before after : List Edit} {e : Edit}
    (hsplit : (insertingAt o (firstEdits rs)).reverse.flatten = after ++ e :: before) :
    ∃ a front behind, applyFixes d rs = .ok a ∧
      Edit.inOrder a.taken.flatten = front ++ e :: (before ++ behind) ∧
      Edit.Fits 0 o front ∧ Edit.Fits o d.length behind ∧ (∀ x ∈ behind, o < x.span.stop) ∧
      a.document.chars = Edit.splice (d.chars.take o) 0 front ++ e.newText.toList ++
        before.flatMap (·.newText.toList) ++ Edit.splice (d.chars.drop o) o behind := by
  obtain ⟨a, ha, hsound, hsub, _⟩ := applyFixes_sound fun r hr es hes => (hrs r hr es hes).1
  have hlists : ∀ es ∈ a.taken, (∀ e ∈ es, e.span.start ≤ e.span.stop) ∧ Separate es := by
    intro es hes
    obtain ⟨-, hacc, hsep⟩ := forall_pendingEdits hrs es (hsub.subset (List.mem_reverse.2 hes))
    exact ⟨fun e he => (hacc.bounds (Edit.mem_inOrder.2 he)).2.1, hsep⟩
  have hins : insertsAt o a.taken.flatten = after ++ e :: before := by
    rw [Edit.insertsAt_flatten hlists,
      insertingAt_taken (fun r hr es hes => (hrs r hr es hes).1) ha, hsplit]
  have hpoint : ∀ x ∈ after ++ e :: before, x.span = .point o := by
    intro x hx
    rw [← hins] at hx
    exact (Edit.mem_insertsAt.1 hx).2
  obtain ⟨front, behind, horder, hbehind⟩ := Edit.inOrder_split o a.taken.flatten fun x hx => by
    obtain ⟨es, hes, hx⟩ := List.mem_flatten.1 hx
    exact (hlists es hes).1 x hx
  have horder' : Edit.inOrder a.taken.flatten = (front ++ after) ++ e :: (before ++ behind) := by
    rw [horder, hins]
    simp
  have hfits : Edit.Fits 0 d.length (Edit.inOrder a.taken.flatten) :=
    hsound.fits.between (Nat.zero_le _) (fun _ _ => Nat.zero_le _) fun x hx =>
      (hsound.fits.bounds hx).2.2
  rw [horder'] at hfits
  obtain ⟨hfront, hrest⟩ := hfits.split
  have hstart : e.span.start = o := by rw [hpoint e (by simp), Span.point]
  rw [hstart] at hfront hrest
  have hlen : o ≤ 0 + d.chars.length := by simpa [Document.length] using hrest.start_le_stop
  have hins' : ∀ x ∈ e :: before, x.span = .point o := by
    intro x hx
    exact hpoint x (by simpa using Or.inr (List.mem_cons.1 hx))
  refine ⟨a, front ++ after, behind, ha, horder', hfront, ?_, fun x hx => (hbehind x hx).2, ?_⟩
  · exact @Edit.Fits.of_append _ _ (e :: before) _ hrest
  · rw [hsound.chars_eq, horder', Edit.splice_append hfront hrest d.chars hlen, ← List.cons_append,
      Edit.splice_insertions hins']
    simp

end Mend
