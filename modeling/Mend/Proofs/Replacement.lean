import Mathlib.Data.List.Basic
import Mend.Proofs.Bytes
import Mend.Proofs.Insertions

/-! What a list of edits makes of a document. Each range is replaced where it stands in the text as
it was, whichever way one goes about it: gap by gap, offset by offset, or from the end backwards in
the bytes of the text. -/
namespace Mend

namespace Edit

/-- No edit reaches into one that comes later. -/
def Apart (es : List Edit) : Prop := es.Pairwise fun x y => x.span.stop ≤ y.span.start

/-- The stretches between two offsets that edits in order leave alone: one in front of each edit and
one behind them all. -/
def gaps (start stop : Nat) : List Edit → List Span
  | [] => [⟨start, stop⟩]
  | e :: rest => ⟨start, e.span.start⟩ :: gaps e.span.stop stop rest

/-- The edits that come into play at an offset: what inserts there, in the order of the list, and
then what replaces the text from there on. -/
def startingAt (o : Nat) (es : List Edit) : List Edit :=
  insertsAt o es ++ es.filter fun e => e.span.start = o ∧ o < e.span.stop

/-- Some edit replaces the character at an offset. -/
def Covered (es : List Edit) (o : Nat) : Prop := ∃ e ∈ es, e.span.Contains o

instance (es : List Edit) (o : Nat) : Decidable (Covered es o) :=
  inferInstanceAs (Decidable (∃ e ∈ es, e.span.Contains o))

/-- The new texts of some edits one after the other. -/
def texts (es : List Edit) : List Char := es.flatMap (·.newText.toList)

end Edit

/-- Bytes with those from `start` to `stop` replaced. -/
def Text.replaceBytes (bs : List UInt8) (start stop : Nat) (new : List UInt8) : List UInt8 :=
  bs.take start ++ new ++ bs.drop stop

namespace Document

variable (d : Document)

/-- The gaps between edits in order, and between them the new texts. -/
def woven (es : List Edit) : List Char :=
  (List.zipWith (fun gap new => d.slice gap ++ new) (Edit.gaps 0 d.length es)
    (es.map (·.newText.toList) ++ [[]])).flatten

/-- What there is at an offset once edits have been applied: what comes into play there, and the
character that stood there unless it is replaced. -/
def standing (es : List Edit) (o : Nat) : List Char :=
  Edit.texts (Edit.startingAt o es) ++ if Edit.Covered es o then [] else (d.char? o).toList

/-- The text offset by offset. -/
def replaced (es : List Edit) : List Char := (List.range (d.length + 1)).flatMap (d.standing es)

/-- The bytes of the text after edits in order, the last of them applied first, each where its range
stands among the bytes of the text as it was. -/
def patched (es : List Edit) : List UInt8 :=
  es.foldr (fun e out => Text.replaceBytes out (Text.byteOffset d.chars e.span.start)
    (Text.byteOffset d.chars e.span.stop) (Text.utf8 e.newText.toList)) (Text.utf8 d.chars)

end Document

namespace Edit

theorem apart_cons {e : Edit} {es : List Edit} :
    Apart (e :: es) ↔ (∀ f ∈ es, e.span.stop ≤ f.span.start) ∧ Apart es :=
  List.pairwise_cons

/-- To fit is to lie within the text and apart: that neighbours do not overlap is enough for any two
edits, since none ends before it starts. -/
theorem fits_iff_apart {a n : Nat} (han : a ≤ n) (es : List Edit) :
    Fits a n es ↔ (∀ e ∈ es, e.span.Within n) ∧ Apart es ∧ ∀ e ∈ es, a ≤ e.span.start := by
  induction es generalizing a with
  | nil => simp [Apart, han]
  | cons e es ih =>
    rw [fits_cons, apart_cons]
    constructor
    · rintro ⟨ha, he, hes⟩
      obtain ⟨hwithin, hapart, hstart⟩ := (ih hes.start_le_stop).1 hes
      refine ⟨?_, ⟨hstart, hapart⟩, ?_⟩
      · intro f hf
        rcases List.mem_cons.1 hf with rfl | hf
        · exact ⟨he, hes.start_le_stop⟩
        · exact hwithin f hf
      · intro f hf
        rcases List.mem_cons.1 hf with rfl | hf
        · exact ha
        · have := hstart f hf
          omega
    · rintro ⟨hwithin, ⟨hstart, hapart⟩, ha⟩
      obtain ⟨he, hn⟩ := hwithin e (by simp)
      refine ⟨ha e (by simp), he, (ih hn).2 ⟨?_, hapart, hstart⟩⟩
      intro f hf
      exact hwithin f (by simp [hf])

/-- Overlaps are looked for from the front, and an edit on the way belongs to both sides. -/
lemma overlap?_append (xs : List Edit) (x : Edit) (ys : List Edit) :
    overlap? (xs ++ x :: ys) = (overlap? (xs ++ [x])).or (overlap? (x :: ys)) := by
  induction xs with
  | nil => rfl
  | cons a xs ih =>
    cases xs with
    | nil =>
      simp only [List.cons_append, List.nil_append, overlap?]
      split <;> rfl
    | cons b xs =>
      simp only [List.cons_append, overlap?] at ih ⊢
      split
      · rfl
      · exact ih

/-- What is found is where the first neighbours that overlap do so. -/
theorem overlap?_eq_some_iff {es : List Edit} {o : Nat} :
    overlap? es = some o ↔ ∃ front x y behind, es = front ++ x :: y :: behind ∧
      overlap? (front ++ [x]) = none ∧ y.span.start < x.span.stop ∧ o = y.span.start := by
  constructor
  · intro h
    fun_induction overlap? es with
    | case1 a b rest hover => exact ⟨[], a, b, rest, rfl, rfl, hover, (Option.some.inj h).symm⟩
    | case2 a b rest hapart ih =>
      obtain ⟨front, x, y, behind, heq, hnone, hover, ho⟩ := ih h
      refine ⟨a :: front, x, y, behind, by rw [heq, List.cons_append], ?_, hover, ho⟩
      cases front with
      | nil =>
        obtain rfl : b = x := (List.cons.inj heq).1
        simp [overlap?, hapart]
      | cons c front =>
        obtain rfl : b = c := (List.cons.inj heq).1
        simpa [overlap?, hapart] using hnone
    | case3 => cases h
  · rintro ⟨front, x, y, behind, rfl, hnone, hover, rfl⟩
    rw [overlap?_append, hnone, Option.none_or, overlap?, if_pos hover]

/-- Edits within the text are apart just if no neighbours overlap. -/
theorem overlap?_eq_none_iff {n : Nat} {es : List Edit} (hes : ∀ e ∈ es, e.span.Within n) :
    overlap? es = none ↔ Apart es := by
  have hfits := fits_iff (Nat.zero_le n) es
  rw [fits_iff_apart (Nat.zero_le n)] at hfits
  constructor
  · intro h
    exact (hfits.2 ⟨hes, h, by simp⟩).2.1
  · intro h
    exact (hfits.1 ⟨hes, h, by simp⟩).2.1

end Edit

namespace Document

open Edit

variable {d : Document} {a : Nat} {es : List Edit}

theorem accepts_iff_apart :
    d.Accepts es ↔ (∀ e ∈ es, e.span.Within d.length) ∧ Apart (inOrder es) := by
  simp [Accepts, fits_iff_apart (Nat.zero_le _)]

theorem splice_eq_woven (h : Fits a d.length es) :
    splice (d.chars.drop a) a es = (List.zipWith (fun gap new => d.slice gap ++ new)
      (gaps a d.length es) (es.map (·.newText.toList) ++ [[]])).flatten := by
  induction es generalizing a with
  | nil => simp [splice, gaps, slice, length]
  | cons e es ih =>
    obtain ⟨ha, he, hes⟩ := h
    have hgap : (d.chars.drop a).take (e.span.start - a) = d.slice ⟨a, e.span.start⟩ :=
      List.drop_take.symm
    have hrest : (d.chars.drop a).drop (e.span.stop - a) = d.chars.drop e.span.stop :=
      drop_sub_drop_sub d.chars (Nat.zero_le a) (Nat.le_trans ha he)
    rw [splice, hgap, hrest, ih hes]
    simp [gaps]

lemma standing_of_no_start {o : Nat} (h : ∀ e ∈ es, e.span.start ≠ o) :
    d.standing es o = if Covered es o then [] else (d.char? o).toList := by
  have hnone : startingAt o es = [] := by
    simp only [startingAt, insertsAt, List.append_eq_nil_iff, List.filter_eq_nil_iff]
    refine ⟨fun e he => ?_, fun e he => ?_⟩
    · have := h e he
      simp [span_eq_point, this]
    · simp [h e he]
  rw [standing, hnone]
  rfl

/-- An edit plays no part where it does not start and replaces nothing. -/
lemma standing_cons_of_apart {e : Edit} {o : Nat} (hstart : e.span.start ≠ o)
    (hcover : ¬ e.span.Contains o) : d.standing (e :: es) o = d.standing es o := by
  have hstarting : startingAt o (e :: es) = startingAt o es := by
    simp [startingAt, insertsAt, span_eq_point, hstart]
  have hcovered : Covered (e :: es) o ↔ Covered es o := by
    simp [Covered, hcover]
  simp only [standing, hstarting, hcovered]

/-- Without edits every character stands where it stood. -/
lemma flatMap_char? (d : Document) (a k : Nat) :
    (List.range' a k).flatMap (fun o => (d.char? o).toList) = (d.chars.drop a).take k := by
  induction k generalizing a with
  | zero => simp
  | succ k ih =>
    rw [List.range'_succ, List.flatMap_cons, ih]
    rcases Nat.lt_or_ge a d.chars.length with ha | ha
    · rw [List.drop_eq_getElem_cons ha, List.take_succ_cons]
      simp [char?, ha]
    · simp [char?, ha, List.drop_eq_nil_of_le, Nat.le_succ_of_le]

lemma range'_split {a b c : Nat} (hab : a ≤ b) (hbc : b ≤ c) :
    List.range' a (c - a) = List.range' a (b - a) ++ List.range' b (c - b) := by
  have happend : List.range' a (b - a) ++ List.range' (a + 1 * (b - a)) (c - b) =
      List.range' a (b - a + (c - b)) := List.range'_append
  have hb : a + 1 * (b - a) = b := by omega
  have hc : b - a + (c - b) = c - a := by omega
  rw [hb, hc] at happend
  exact happend.symm

/-- In front of all edits every character stands where it stood. -/
lemma flatMap_standing_before {b : Nat} (h : ∀ e ∈ es, b ≤ e.span.start) :
    (List.range' a (b - a)).flatMap (d.standing es) = (d.chars.drop a).take (b - a) := by
  rw [← flatMap_char?]
  apply List.flatMap_congr
  intro o ho
  have hob : o < b := by
    have := List.mem_range'_1.1 ho
    omega
  have hstart : ∀ e ∈ es, o < e.span.start := by
    intro e he
    exact Nat.lt_of_lt_of_le hob (h e he)
  rw [standing_of_no_start fun e he => Nat.ne_of_gt (hstart e he), if_neg]
  rintro ⟨e, he, hcontains⟩
  exact absurd hcontains.1 (Nat.not_le.2 (hstart e he))

/-- From where it stops an edit plays no part. -/
lemma flatMap_standing_behind {e : Edit} {b : Nat} (n : Nat) (hstart : e.span.start < b)
    (hstop : e.span.stop ≤ b) :
    (List.range' b (n - b)).flatMap (d.standing (e :: es)) =
      (List.range' b (n - b)).flatMap (d.standing es) := by
  apply List.flatMap_congr
  intro o ho
  obtain ⟨hbo, -⟩ := List.mem_range'_1.1 ho
  apply standing_cons_of_apart (by omega)
  intro hcontains
  exact absurd hcontains.2 (by omega)

/-- An insertion stands in front of all else at its place. -/
lemma standing_insertion {e : Edit} (he : e.span.start = e.span.stop) :
    d.standing (e :: es) e.span.start = e.newText.toList ++ d.standing es e.span.start := by
  have hpoint : e.span = .point e.span.start := span_eq_point.2 ⟨rfl, he.symm⟩
  have hnot : ¬ e.span.Contains e.span.start := by
    rw [hpoint]
    exact Span.not_contains_point _ _
  have hcovered : Covered (e :: es) e.span.start ↔ Covered es e.span.start := by
    simp [Covered, hnot]
  have hstarting : startingAt e.span.start (e :: es) = e :: startingAt e.span.start es := by
    simp [startingAt, insertsAt, ← hpoint, ← he]
  simp only [standing, hstarting, hcovered, texts, List.flatMap_cons, List.append_assoc]

/-- A replacement has its start to itself. -/
lemma standing_replacement {e : Edit} (he : e.span.start < e.span.stop)
    (h : ∀ f ∈ es, e.span.stop ≤ f.span.start) :
    d.standing (e :: es) e.span.start = e.newText.toList := by
  have hpoint : ¬ e.span = .point e.span.start := by
    rw [span_eq_point]
    omega
  have hinserts : es.filter (fun f => f.span = .point e.span.start) = [] := by
    apply List.filter_eq_nil_iff.2
    intro f hf
    have := h f hf
    simp only [span_eq_point, decide_eq_true_eq]
    omega
  have hreplaces : es.filter (fun f => f.span.start = e.span.start ∧ e.span.start < f.span.stop) =
      [] := by
    apply List.filter_eq_nil_iff.2
    intro f hf
    have := h f hf
    simp only [decide_eq_true_eq]
    omega
  have hstarting : startingAt e.span.start (e :: es) = [e] := by
    rw [startingAt, insertsAt, List.filter_cons_of_neg (by simpa using hpoint),
      List.filter_cons_of_pos (by simpa using he), hinserts, hreplaces, List.nil_append]
  have hcovered : Covered (e :: es) e.span.start := ⟨e, by simp, Nat.le_refl _, he⟩
  simp [standing, hstarting, hcovered, texts]

/-- It leaves nothing of what it covers. -/
lemma flatMap_standing_inside {e : Edit} (h : ∀ f ∈ es, e.span.stop ≤ f.span.start) :
    (List.range' (e.span.start + 1) (e.span.stop - (e.span.start + 1))).flatMap
      (d.standing (e :: es)) = [] := by
  apply List.flatMap_eq_nil_iff.2
  intro o ho
  obtain ⟨hstart, hstop⟩ := List.mem_range'_1.1 ho
  have hcovered : Covered (e :: es) o := ⟨e, by simp, by omega, by omega⟩
  rw [standing_of_no_start, if_pos hcovered]
  intro f hf
  rcases List.mem_cons.1 hf with rfl | hf
  · omega
  · have := h f hf
    omega

/-- Where an edit starts, its text comes first, and from where it stops it plays no part. -/
lemma flatMap_standing_cons {e : Edit} {n : Nat} (he : e.span.start ≤ e.span.stop)
    (hn : e.span.stop < n) (h : ∀ f ∈ es, e.span.stop ≤ f.span.start) :
    (List.range' e.span.start (n - e.span.start)).flatMap (d.standing (e :: es)) =
      e.newText.toList ++ (List.range' e.span.stop (n - e.span.stop)).flatMap (d.standing es) := by
  have hfirst : ∀ es, (List.range' e.span.start (n - e.span.start)).flatMap (d.standing es) =
      d.standing es e.span.start ++
        (List.range' (e.span.start + 1) (n - (e.span.start + 1))).flatMap (d.standing es) := by
    intro es
    rw [range'_split (Nat.le_succ e.span.start) (by omega), List.flatMap_append,
      Nat.succ_eq_add_one, Nat.add_sub_cancel_left]
    simp
  rcases Nat.eq_or_lt_of_le he with heq | hlt
  · rw [hfirst, standing_insertion heq, flatMap_standing_behind n (by omega) (by omega),
      List.append_assoc, ← hfirst, heq]
  · rw [hfirst, standing_replacement hlt h,
      range'_split (Nat.succ_le_of_lt hlt) (Nat.le_of_lt hn), List.flatMap_append,
      flatMap_standing_inside h, List.nil_append, flatMap_standing_behind n hlt (Nat.le_refl _)]

/-- The induction is on the edits: up to the first one all stands as it stood. -/
theorem splice_eq_standing (h : Fits a d.length es) :
    splice (d.chars.drop a) a es =
      (List.range' a (d.length + 1 - a)).flatMap (d.standing es) := by
  induction es generalizing a with
  | nil =>
    rw [flatMap_standing_before (by simp), splice, List.take_of_length_le]
    simp only [List.length_drop, length]
    omega
  | cons e es ih =>
    obtain ⟨ha, he, hes⟩ := h
    have hstop := hes.start_le_stop
    have hstarts : ∀ f ∈ e :: es, e.span.start ≤ f.span.start := by
      intro f hf
      rcases List.mem_cons.1 hf with rfl | hf
      · exact Nat.le_refl _
      · exact Nat.le_trans he (hes.bounds hf).1
    have hrest : (d.chars.drop a).drop (e.span.stop - a) = d.chars.drop e.span.stop :=
      drop_sub_drop_sub d.chars (Nat.zero_le a) (Nat.le_trans ha he)
    rw [range'_split ha (by omega), List.flatMap_append, flatMap_standing_before hstarts,
      flatMap_standing_cons he (by omega) fun f hf => (hes.bounds hf).1, splice, hrest,
      ih hes, List.append_assoc]

/-- At most one edit replaces the text from an offset on, so what comes into play there does not
depend on whether the edits are in order. -/
lemma standing_inOrder (h : Apart (inOrder es)) : d.standing (inOrder es) = d.standing es := by
  have hreplaces : ∀ o, (inOrder es).filter (fun e => e.span.start = o ∧ o < e.span.stop) =
      es.filter fun e => e.span.start = o ∧ o < e.span.stop := by
    intro o
    have hperm := (List.mergeSort_perm es le).filter fun e => e.span.start = o ∧ o < e.span.stop
    have hsub := h.sublist (List.filter_sublist
      (p := fun e : Edit => decide (e.span.start = o ∧ o < e.span.stop)))
    rw [inOrder] at hsub ⊢
    rcases hl : (es.mergeSort le).filter (fun e => e.span.start = o ∧ o < e.span.stop) with
      _ | ⟨x, _ | ⟨y, rest⟩⟩
    · rw [hl] at hperm
      rw [hl, List.nil_perm.1 hperm]
    · rw [hl] at hperm
      rw [hl, List.singleton_perm.1 hperm]
    · rw [hl] at hsub
      have hxy := (List.pairwise_cons.1 hsub).1 y (by simp)
      have hx := (List.mem_filter.1 (hl ▸ List.mem_cons_self)).2
      have hy := (List.mem_filter.1 (hl ▸ List.mem_cons_of_mem x List.mem_cons_self)).2
      simp only [decide_eq_true_eq] at hx hy
      omega
  funext o
  have hcovered : Covered (inOrder es) o ↔ Covered es o := by simp [Covered]
  simp only [standing, startingAt, insertsAt_inOrder, hreplaces, hcovered]

/-- The induction is on the edits. Those behind the first one leave the text in front of where it
stops as it was, so the bytes that its range has there are still those it had. -/
theorem patched_eq_utf8 (h : Fits a d.length es) :
    d.patched es = Text.utf8 (splice d.chars 0 es) := by
  induction es generalizing a with
  | nil => rfl
  | cons e es ih =>
    obtain ⟨ha, he, hes⟩ := h
    have hstop := hes.start_le_stop
    have hbehind : splice d.chars 0 es =
        d.chars.take e.span.stop ++ splice (d.chars.drop e.span.stop) e.span.stop es :=
      splice_of_fits hes (Nat.zero_le _) d.chars
    have hfront : d.chars.take e.span.stop = d.chars.take e.span.start ++
        (d.chars.drop e.span.start).take (e.span.stop - e.span.start) := by
      rw [← List.take_add]
      congr 1
      omega
    have htake : (Text.utf8 (splice d.chars 0 es)).take (Text.byteOffset d.chars e.span.start) =
        Text.utf8 (d.chars.take e.span.start) := by
      rw [hbehind, hfront, List.append_assoc]
      exact Text.take_utf8 _ _
    have hdrop : (Text.utf8 (splice d.chars 0 es)).drop (Text.byteOffset d.chars e.span.stop) =
        Text.utf8 (splice (d.chars.drop e.span.stop) e.span.stop es) := by
      rw [hbehind]
      exact Text.drop_utf8 _ _
    have hsplice : splice d.chars 0 (e :: es) = d.chars.take e.span.start ++ e.newText.toList ++
        splice (d.chars.drop e.span.stop) e.span.stop es := rfl
    rw [patched, List.foldr_cons, ← patched, ih hes, Text.replaceBytes, htake, hdrop, hsplice,
      Text.utf8_append, Text.utf8_append]

theorem apply_eq_ok_iff {r : Document} {edits : List Edit} :
    d.apply edits = .ok r ↔ d.Accepts edits ∧ r.chars = splice d.chars 0 (inOrder edits) := by
  constructor
  · intro h
    have haccepts := accepts_of_apply h
    rw [apply_of_accepts haccepts] at h
    exact ⟨haccepts, by rw [← Except.ok.inj h]⟩
  · rintro ⟨haccepts, hchars⟩
    rw [apply_of_accepts haccepts, ← hchars]

/-- The first edit in order that is out of range is what is reported, whatever else is wrong. -/
theorem apply_eq_outOfRange_iff {edits : List Edit} {s : Span} {n : Nat} :
    d.apply edits = .error (.outOfRange s n) ↔ n = d.length ∧ ∃ front e behind,
      inOrder edits = front ++ e :: behind ∧ (∀ x ∈ front, x.span.Within d.length) ∧
      ¬ e.span.Within d.length ∧ s = e.span := by
  have hfind : ∀ e : Edit,
      (inOrder edits).find? (fun e => !decide (e.span.Within d.length)) = some e ↔
        (!decide (e.span.Within d.length)) ∧ ∃ front behind, inOrder edits = front ++ e :: behind ∧
          ∀ x ∈ front, !(!decide (x.span.Within d.length)) :=
    fun e => List.find?_eq_some_iff_append
  constructor
  · intro h
    rw [apply, edited, ← inOrder] at h
    rcases hfirst : (inOrder edits).find? (fun e => !decide (e.span.Within d.length)) with _ | e
    · simp only [hfirst] at h
      split at h <;> simp [Except.map] at h
    · simp only [hfirst, Except.map, Except.error.injEq, EditError.outOfRange.injEq] at h
      obtain ⟨hout, front, behind, horder, hfront⟩ := (hfind e).1 hfirst
      exact ⟨h.2.symm, front, e, behind, horder, by simpa using hfront, by simpa using hout,
        h.1.symm⟩
  · rintro ⟨rfl, front, e, behind, horder, hfront, hout, rfl⟩
    have hfirst := (hfind e).2 ⟨by simpa using hout, front, behind, horder, by simpa using hfront⟩
    rw [apply, edited, ← inOrder]
    simp [hfirst, Except.map]

/-- If all are in range, the first neighbours in order that overlap are what is reported. -/
theorem apply_eq_overlap_iff {edits : List Edit} {o : Nat} :
    d.apply edits = .error (.overlap o) ↔ (∀ e ∈ edits, e.span.Within d.length) ∧
      ∃ front x y behind, inOrder edits = front ++ x :: y :: behind ∧ Apart (front ++ [x]) ∧
        y.span.start < x.span.stop ∧ o = y.span.start := by
  have hnone : (inOrder edits).find? (fun e => !decide (e.span.Within d.length)) = none ↔
      ∀ e ∈ edits, e.span.Within d.length := by simp [List.find?_eq_none]
  have hapart : ∀ front x y behind, inOrder edits = front ++ x :: y :: behind →
      (∀ e ∈ edits, e.span.Within d.length) →
      (overlap? (front ++ [x]) = none ↔ Apart (front ++ [x])) := by
    intro front x y behind horder hwithin
    apply overlap?_eq_none_iff
    intro e he
    apply hwithin e
    rw [← mem_inOrder, horder]
    rcases List.mem_append.1 he with he | he
    · exact List.mem_append_left _ he
    · simp [List.mem_singleton.1 he]
  rw [apply, edited, ← inOrder]
  constructor
  · intro h
    rcases hfirst : (inOrder edits).find? (fun e => !decide (e.span.Within d.length)) with _ | e
    · rcases hoverlap : overlap? (inOrder edits) with _ | o'
      · simp [hfirst, hoverlap, Except.map] at h
      · obtain rfl : o' = o := by simpa [hfirst, hoverlap, Except.map] using h
        obtain ⟨front, x, y, behind, horder, hfront, hxy, ho⟩ := overlap?_eq_some_iff.1 hoverlap
        have hwithin := hnone.1 hfirst
        exact ⟨hwithin, front, x, y, behind, horder,
          (hapart front x y behind horder hwithin).1 hfront, hxy, ho⟩
    · simp [hfirst, Except.map] at h
  · rintro ⟨hwithin, front, x, y, behind, horder, hfront, hxy, ho⟩
    have hoverlap := overlap?_eq_some_iff.2 ⟨front, x, y, behind, horder,
      (hapart front x y behind horder hwithin).2 hfront, hxy, ho⟩
    simp [hnone.2 hwithin, hoverlap, Except.map]

/-- Edits apply just if all are in range and none reaches into a later one, and then each range is
replaced where it stood: the new texts stand between the gaps, insertions at one offset in the order
of the list and in front of what is replaced from there on. Going from the end backwards in the
bytes of the text gives the same. Otherwise the first fault in order is what is reported. -/
theorem apply_replaces (d : Document) (edits : List Edit) :
    (∀ r, d.apply edits = .ok r ↔ (∀ e ∈ edits, e.span.Within d.length) ∧
      Apart (inOrder edits) ∧ r.chars = d.woven (inOrder edits)) ∧
    (∀ r, d.apply edits = .ok r →
      r.chars = d.replaced edits ∧ Text.utf8 r.chars = d.patched (inOrder edits)) ∧
    (∀ s n, d.apply edits = .error (.outOfRange s n) ↔ n = d.length ∧ ∃ front e behind,
      inOrder edits = front ++ e :: behind ∧ (∀ x ∈ front, x.span.Within d.length) ∧
      ¬ e.span.Within d.length ∧ s = e.span) ∧
    ∀ o, d.apply edits = .error (.overlap o) ↔ (∀ e ∈ edits, e.span.Within d.length) ∧
      ∃ front x y behind, inOrder edits = front ++ x :: y :: behind ∧ Apart (front ++ [x]) ∧
        y.span.start < x.span.stop ∧ o = y.span.start := by
  have hwoven : d.Accepts edits → splice d.chars 0 (inOrder edits) = d.woven (inOrder edits) :=
    fun h => splice_eq_woven h
  refine ⟨fun r => ?_, fun r hr => ?_, fun s n => apply_eq_outOfRange_iff,
    fun o => apply_eq_overlap_iff⟩
  · rw [apply_eq_ok_iff, ← and_assoc, ← accepts_iff_apart]
    constructor
    · rintro ⟨haccepts, hchars⟩
      exact ⟨haccepts, hchars.trans (hwoven haccepts)⟩
    · rintro ⟨haccepts, hchars⟩
      exact ⟨haccepts, hchars.trans (hwoven haccepts).symm⟩
  · obtain ⟨haccepts, hchars⟩ := apply_eq_ok_iff.1 hr
    constructor
    · have hapart := (accepts_iff_apart.1 haccepts).2
      rw [hchars, replaced, List.range_eq_range', ← standing_inOrder hapart]
      exact splice_eq_standing haccepts
    · rw [hchars, patched_eq_utf8 haccepts]

example : (Document.mk ['a', 'b']).replaced [⟨⟨1, 2⟩, "x"⟩, .insert 1 "1", .insert 1 "2"] =
    ['a', '1', '2', 'x'] := by decide

end Document
end Mend
