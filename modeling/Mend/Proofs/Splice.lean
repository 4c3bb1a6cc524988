import Mathlib.Tactic.Lemma
import Mend.Text.Edit

/-! Lists of edits that fit a text, and what applying them gives. Fitting lists, applied one after
the other from the end of the text, are one fitting list. -/
namespace Mend
namespace Edit

/-- Edits in the order of their places, all between two offsets, none of which reaches into the
next one. -/
def Fits (start stop : Nat) : List Edit → Prop
  | [] => start ≤ stop
  | e :: rest => start ≤ e.span.start ∧ e.span.start ≤ e.span.stop ∧ Fits e.span.stop stop rest

@[simp] theorem fits_nil (a b : Nat) : Fits a b [] ↔ a ≤ b := Iff.rfl

@[simp] theorem fits_cons (a b : Nat) (e : Edit) (es : List Edit) :
    Fits a b (e :: es) ↔
      a ≤ e.span.start ∧ e.span.start ≤ e.span.stop ∧ Fits e.span.stop b es := Iff.rfl

theorem Fits.start_le_stop {a b : Nat} {es : List Edit} (h : Fits a b es) : a ≤ b := by
  induction es generalizing a with
  | nil => exact h
  | cons e es ih =>
    obtain ⟨ha, he, hes⟩ := h
    have := ih hes
    omega

theorem Fits.append {a b c : Nat} {xs ys : List Edit} (hx : Fits a b xs) (hy : Fits b c ys) :
    Fits a c (xs ++ ys) := by
  induction xs generalizing a with
  | nil =>
    cases ys with
    | nil => exact Nat.le_trans hx hy
    | cons y ys => exact ⟨Nat.le_trans hx hy.1, hy.2⟩
  | cons e xs ih => exact ⟨hx.1, hx.2.1, ih hx.2.2⟩

theorem Fits.bounds {a b : Nat} {es : List Edit} (h : Fits a b es) {e : Edit} (he : e ∈ es) :
    a ≤ e.span.start ∧ e.span.start ≤ e.span.stop ∧ e.span.stop ≤ b := by
  induction es generalizing a with
  | nil => cases he
  | cons f es ih =>
    obtain ⟨ha, hf, hes⟩ := h
    cases he with
    | head => exact ⟨ha, hf, hes.start_le_stop⟩
    | tail _ he =>
      obtain ⟨h₁, h₂, h₃⟩ := ih hes he
      exact ⟨by omega, h₂, h₃⟩

/-- Fitting edits fit between any two offsets that hold them all. -/
theorem Fits.between {a b c d : Nat} {es : List Edit} (h : Fits a b es) (hcd : c ≤ d)
    (hc : ∀ e ∈ es, c ≤ e.span.start) (hd : ∀ e ∈ es, e.span.stop ≤ d) : Fits c d es := by
  induction es generalizing a c with
  | nil => exact hcd
  | cons e es ih =>
    obtain ⟨_, he, hes⟩ := h
    refine ⟨hc e (by simp), he, ih hes (hd e (by simp)) ?_ fun f hf => hd f (by simp [hf])⟩
    intro f hf
    exact (hes.bounds hf).1

/-- The edits in front of a given one end where it starts. -/
lemma Fits.split {a b : Nat} {xs ys : List Edit} {e : Edit} (h : Fits a b (xs ++ e :: ys)) :
    Fits a e.span.start xs ∧ Fits e.span.start b (e :: ys) := by
  induction xs generalizing a with
  | nil => exact ⟨h.1, Nat.le_refl _, h.2⟩
  | cons x xs ih =>
    obtain ⟨hxs, hys⟩ := ih h.2.2
    exact ⟨⟨h.1, h.2.1, hxs⟩, hys⟩

lemma Fits.of_append {a b : Nat} {xs ys : List Edit} (h : Fits a b (xs ++ ys)) : Fits a b ys := by
  induction xs generalizing a with
  | nil => exact h
  | cons x xs ih =>
    have hys := ih h.2.2
    refine hys.between h.start_le_stop (fun e he => ?_) fun e he => (hys.bounds he).2.2
    have hstart := (hys.bounds he).1
    exact Nat.le_trans (Nat.le_trans h.1 h.2.1) hstart

theorem Fits.sorted {a b : Nat} {es : List Edit} (h : Fits a b es) :
    es.Pairwise fun x y => le x y := by
  induction es generalizing a with
  | nil => exact .nil
  | cons e es ih =>
    obtain ⟨_, he, hes⟩ := h
    refine .cons (fun f hf => ?_) (ih hes)
    have := hes.bounds hf
    simp only [le, Bool.or_eq_true, decide_eq_true_eq, Bool.and_eq_true]
    omega

/-- A single edit, or edits of which none is an insertion. -/
def Separate (es : List Edit) : Prop := ∀ e ∈ es, es = [e] ∨ e.span.start < e.span.stop

lemma separate_singleton (e : Edit) : Separate [e] := by
  simp [Separate]

theorem le_trans (x y z : Edit) (hxy : le x y) (hyz : le y z) : le x z := by
  simp only [le, Bool.or_eq_true, decide_eq_true_eq, Bool.and_eq_true] at *
  omega

theorem le_total (x y : Edit) : le x y || le y x := by
  simp only [le, Bool.or_eq_true, decide_eq_true_eq, Bool.and_eq_true]
  omega

/-- Edits in the order in which they apply. -/
def inOrder (edits : List Edit) : List Edit := edits.mergeSort le

@[simp] theorem mem_inOrder {e : Edit} {es : List Edit} : e ∈ inOrder es ↔ e ∈ es :=
  List.mem_mergeSort

@[simp] theorem inOrder_nil : inOrder [] = [] := List.mergeSort_nil

@[simp] theorem inOrder_singleton (e : Edit) : inOrder [e] = [e] := List.mergeSort_singleton e

theorem splice_nil (cs : List Char) (o : Nat) : splice cs o [] = cs := rfl

theorem splice_singleton (cs : List Char) (e : Edit) :
    splice cs 0 [e] = cs.take e.span.start ++ e.newText.toList ++ cs.drop e.span.stop := by
  simp [splice]

/-- What is dropped up to one offset and then up to another is dropped up to the second. -/
lemma drop_sub_drop_sub (cs : List Char) {o a b : Nat} (hoa : o ≤ a) (hab : a ≤ b) :
    (cs.drop (a - o)).drop (b - a) = cs.drop (b - o) := by
  rw [List.drop_drop]
  congr 1
  omega

/-- Splicing leaves what is in front of the first edit alone. -/
theorem splice_of_fits {a b o : Nat} {es : List Edit} (h : Fits a b es) (hoa : o ≤ a)
    (cs : List Char) :
    splice cs o es = cs.take (a - o) ++ splice (cs.drop (a - o)) a es := by
  cases es with
  | nil => simp [splice]
  | cons e es =>
    obtain ⟨ha, he, _⟩ := h
    have htake : cs.take (e.span.start - o) =
        cs.take (a - o) ++ (cs.drop (a - o)).take (e.span.start - a) := by
      rw [← List.take_add]
      congr 1
      omega
    have hdrop := drop_sub_drop_sub cs hoa (Nat.le_trans ha he)
    simp only [splice, htake, hdrop, List.append_assoc]

/-- Edits in front of an offset and edits behind it apply to their own parts of the text. -/
theorem splice_append {a b m : Nat} {xs ys : List Edit} (hx : Fits a m xs) (hy : Fits m b ys)
    (cs : List Char) (hcs : m ≤ a + cs.length) :
    splice cs a (xs ++ ys) =
      splice (cs.take (m - a)) a xs ++ splice (cs.drop (m - a)) m ys := by
  induction xs generalizing a cs with
  | nil => simpa [splice] using splice_of_fits hy hx cs
  | cons e xs ih =>
    obtain ⟨ha, he, hxs⟩ := hx
    have hm := hxs.start_le_stop
    have hlen : m ≤ e.span.stop + (cs.drop (e.span.stop - a)).length := by
      rw [List.length_drop]; omega
    have htake : cs.take (e.span.start - a) = (cs.take (m - a)).take (e.span.start - a) := by
      rw [List.take_take]; congr 1; omega
    have hmid : (cs.drop (e.span.stop - a)).take (m - e.span.stop) =
        (cs.take (m - a)).drop (e.span.stop - a) := by
      rw [List.drop_take]; congr 1; omega
    have hend := drop_sub_drop_sub cs (Nat.le_trans ha he) hm
    simp only [List.cons_append, splice, List.append_assoc]
    rw [ih hxs _ hlen, htake, hmid, hend]

/-- What edits change leaves the text in front of them as it was. -/
theorem take_splice {m b : Nat} {es : List Edit} (h : Fits m b es) (cs : List Char)
    (hcs : m ≤ cs.length) : (splice cs 0 es).take m = cs.take m := by
  rw [splice_of_fits h (Nat.zero_le m) cs]
  simp [Nat.min_eq_left hcs]

/-- Edits in front of those that have been applied apply as if at the same time. -/
theorem splice_splice {b m : Nat} {xs ys : List Edit} (hx : Fits 0 m xs) (hy : Fits m b ys)
    (cs : List Char) (hcs : m ≤ cs.length) :
    splice (splice cs 0 ys) 0 xs = splice cs 0 (xs ++ ys) := by
  have hys := splice_of_fits hy (Nat.zero_le m) cs
  have hlen : m ≤ (splice cs 0 ys).length := by
    have := congrArg List.length (take_splice hy cs hcs)
    simp only [List.length_take] at this
    omega
  have hxs := splice_append hx ((fits_nil m m).2 (Nat.le_refl m)) (splice cs 0 ys) (by omega)
  rw [List.append_nil] at hxs
  rw [hxs, splice_append hx hy cs (by omega), Nat.sub_zero, take_splice hy cs hcs, splice_nil, hys]
  congr 1
  simp [Nat.min_eq_left hcs]

/-- Fitting is what the checks before an application find out. -/
theorem fits_iff {a n : Nat} (han : a ≤ n) (es : List Edit) :
    Fits a n es ↔ (∀ e ∈ es, e.span.Within n) ∧ overlap? es = none ∧
      ∀ e ∈ es.head?, a ≤ e.span.start := by
  induction es generalizing a with
  | nil => simp [overlap?, han]
  | cons e es ih =>
    rw [fits_cons]
    constructor
    · rintro ⟨ha, he, hes⟩
      obtain ⟨hw, ho, hh⟩ := (ih hes.start_le_stop).1 hes
      refine ⟨?_, ?_, by simpa using ha⟩
      · simpa [Span.Within, he, hes.start_le_stop] using hw
      · cases es with
        | nil => rfl
        | cons f es =>
          have hf : ¬ f.span.start < e.span.stop := by simpa using hh
          simpa [overlap?, hf] using ho
    · rintro ⟨hw, ho, hh⟩
      obtain ⟨he, hn⟩ := hw e (by simp)
      refine ⟨hh e rfl, he, (ih hn).2 ⟨fun f hf => hw f (by simp [hf]), ?_, ?_⟩⟩
      · cases es with
        | nil => rfl
        | cons f es =>
          rw [overlap?] at ho
          split at ho
          · cases ho
          · exact ho
      · cases es with
        | nil => simp
        | cons f es =>
          rw [overlap?] at ho
          split at ho
          · cases ho
          · simp; omega

end Edit

namespace Document

/-- The edits address this document and do not reach into one another. -/
def Accepts (d : Document) (edits : List Edit) : Prop :=
  Edit.Fits 0 d.length (Edit.inOrder edits)

theorem edited_of_fits {d : Document} {edits : List Edit} (h : d.Accepts edits) :
    d.edited edits = .ok (Edit.splice d.chars 0 (Edit.inOrder edits)) := by
  obtain ⟨hw, ho, _⟩ := (Edit.fits_iff (Nat.zero_le d.length) _).1 h
  have hf : (Edit.inOrder edits).find? (fun e => !decide (e.span.Within d.length)) = none := by
    rw [List.find?_eq_none]
    intro e he
    simpa using hw e he
  rw [Edit.inOrder] at hf ho
  simp only [edited, hf, ho]
  rfl

theorem accepts_of_edited {d : Document} {edits : List Edit} {cs : List Char}
    (h : d.edited edits = .ok cs) : d.Accepts edits := by
  simp only [edited] at h
  split at h
  · cases h
  · rename_i hf
    split at h
    · cases h
    · rename_i ho
      refine (Edit.fits_iff (Nat.zero_le d.length) _).2 ⟨fun e he => ?_, ho, by simp⟩
      simpa using List.find?_eq_none.1 hf e he

/-- Applying accepted edits splices them in. -/
theorem apply_of_accepts {d : Document} {edits : List Edit} (h : d.Accepts edits) :
    d.apply edits = .ok ⟨Edit.splice d.chars 0 (Edit.inOrder edits)⟩ := by
  rw [apply, edited_of_fits h]
  rfl

theorem accepts_of_apply {d e : Document} {edits : List Edit} (h : d.apply edits = .ok e) :
    d.Accepts edits := by
  rw [apply] at h
  cases hd : d.edited edits with
  | error x => rw [hd] at h; cases h
  | ok cs => exact accepts_of_edited hd

theorem accepts_iff (d : Document) (edits : List Edit) :
    d.Accepts edits ↔ ∃ e, d.apply edits = .ok e :=
  ⟨fun h => ⟨_, apply_of_accepts h⟩, fun ⟨_, h⟩ => accepts_of_apply h⟩

@[simp] theorem accepts_singleton (d : Document) (e : Edit) :
    d.Accepts [e] ↔ e.span.Within d.length := by
  simp [Accepts, Span.Within]

/-- One edit puts its text in the place of the characters it is about. -/
theorem apply_singleton {d : Document} {e : Edit} (h : e.span.Within d.length) :
    d.apply [e] =
      .ok ⟨d.chars.take e.span.start ++ e.newText.toList ++ d.chars.drop e.span.stop⟩ := by
  rw [apply_of_accepts ((accepts_singleton d e).2 h), Edit.inOrder_singleton,
    Edit.splice_singleton]

end Document
end Mend
