import Mathlib.Tactic.Lemma
import Mend.Install.Activity

/-! What a journal tells: the stages in their order, what was opened, what was read, and whether the
listener said stop. -/
namespace Mend

variable {φ : Type}

/-- The bytes that a read gives. -/
def ReadResult.given : ReadResult → List UInt8
  | .bytes bs => bs
  | _ => []

namespace Journal

/-- The stages reported, in the order of time. -/
def stages : Journal φ → List Stage
  | [] => []
  | .stage s :: j => stages j ++ [s]
  | _ :: j => stages j

/-- The stage reported last. -/
def stage? (j : Journal φ) : Option Stage := j.stages.getLast?

/-- The assets that were opened, the last one first, each with the stage at the time. -/
def openings : Journal φ → List (Asset × Option Stage)
  | [] => []
  | .opened a :: j => (a, stage? j) :: openings j
  | _ :: j => openings j

/-- The bytes that were read, in the order of time. -/
def received : Journal φ → List UInt8
  | [] => []
  | .read r :: j => received j ++ r.given
  | _ :: j => received j

/-- The bytes that were read while downloading. -/
def downloaded : Journal φ → List UInt8
  | [] => []
  | .read r :: j =>
    if stage? j = some .downloading then downloaded j ++ r.given else downloaded j
  | _ :: j => downloaded j

theorem stages_append (xs ys : Journal φ) : stages (xs ++ ys) = stages ys ++ stages xs := by
  fun_induction stages xs with
  | case1 => simp
  | case2 s j ih => simp [stages, ih]
  | case3 s j hs ih => cases s <;> simp_all [stages]

theorem received_append (xs ys : Journal φ) : received (xs ++ ys) = received ys ++ received xs := by
  fun_induction received xs with
  | case1 => simp
  | case2 bs j ih => simp [received, ih]
  | case3 s j hs ih =>
    rw [List.cons_append, received, ih]
    exact hs

end Journal

/-- Steps that report no stage or text and open nothing. -/
def Step.IsQuiet : Step φ → Prop
  | .stage _ | .status _ | .opened _ => False
  | _ => True

/-- Quiet steps other than being told to stop. -/
def Step.IsWork : Step φ → Prop
  | .asked stop => stop = false
  | s => s.IsQuiet

/-- Steps that put files in order. -/
def Step.IsChange : Step φ → Prop
  | .changed _ => True
  | _ => False

/-- Steps that reach out of the program: something is opened, read or changed. -/
def Step.Touches : Step φ → Prop
  | .opened _ | .read _ | .listed _ | .changed _ => True
  | _ => False

lemma Step.IsWork.isQuiet {s : Step φ} (h : s.IsWork) : s.IsQuiet := by
  cases s <;> first | exact trivial | exact h

lemma Step.IsChange.isWork {s : Step φ} (h : s.IsChange) : s.IsWork := by
  cases s <;> first | exact trivial | exact h.elim

namespace Journal

/-- All the steps are work. -/
def Calm (j : Journal φ) : Prop := ∀ s ∈ j, s.IsWork

/-- All the steps are changes. -/
def Changes (j : Journal φ) : Prop := ∀ s ∈ j, s.IsChange

/-- After some work the listener said stop, and from then on files were only put in order. -/
def Stopped (j : Journal φ) : Prop :=
  ∃ changes before : Journal φ, j = changes ++ .asked true :: before ∧ Changes changes ∧ Calm before

/-- The listener was heard: it said stop just if `r` is that of a copy that was cancelled. -/
def Heeds {ε : Type} (r : Except ε CopyOutcome) (j : Journal φ) : Prop :=
  match r with
  | .ok (.cancelled _) => Stopped j
  | _ => Calm j

/-- A read gave no bytes any more, and from then on files were only put in order. -/
def Exhausts (j : Journal φ) : Prop :=
  ∃ changes before : Journal φ, j = changes ++ .read (.bytes []) :: before ∧ Changes changes

variable {ε : Type} {r : Except ε CopyOutcome} {xs ys j : Journal φ} {s : Step φ}

@[simp] theorem calm_nil : Calm ([] : Journal φ) := by simp [Calm]

@[simp] theorem calm_cons : Calm (s :: j) ↔ s.IsWork ∧ Calm j := by simp [Calm]

@[simp] theorem calm_append : Calm (xs ++ ys) ↔ Calm xs ∧ Calm ys := by
  simp [Calm, or_imp, forall_and]

@[simp] theorem changes_nil : Changes ([] : Journal φ) := by simp [Changes]

@[simp] theorem changes_cons : Changes (s :: j) ↔ s.IsChange ∧ Changes j := by simp [Changes]

@[simp] theorem changes_append : Changes (xs ++ ys) ↔ Changes xs ∧ Changes ys := by
  simp [Changes, or_imp, forall_and]

lemma Changes.calm (h : Changes j) : Calm j := fun s hs => (h s hs).isWork

theorem Changes.received (h : Changes j) : j.received = [] := by
  induction j with
  | nil => rfl
  | cons s j ih =>
    have hrest := ih fun x hx => h x (List.mem_cons_of_mem s hx)
    cases s with
    | read r => exact (h _ List.mem_cons_self).elim
    | _ => exact hrest

lemma Calm.not_mem (h : Calm j) : .asked true ∉ j := fun hmem => by
  simpa [Step.IsWork] using h _ hmem

theorem Stopped.append (h : Stopped xs) (hy : Calm ys) : Stopped (xs ++ ys) := by
  obtain ⟨changes, before, rfl, hc, hb⟩ := h
  exact ⟨changes, before ++ ys, by simp, hc, calm_append.2 ⟨hb, hy⟩⟩

theorem Stopped.changes (h : Stopped ys) (hx : Changes xs) : Stopped (xs ++ ys) := by
  obtain ⟨changes, before, rfl, hc, hb⟩ := h
  exact ⟨xs ++ changes, before, by simp, changes_append.2 ⟨hx, hc⟩, hb⟩

lemma Exhausts.append (h : Exhausts xs) : Exhausts (xs ++ ys) := by
  obtain ⟨changes, before, rfl, hc⟩ := h
  exact ⟨changes, before ++ ys, by simp, hc⟩

lemma Exhausts.changes (h : Exhausts ys) (hx : Changes xs) : Exhausts (xs ++ ys) := by
  obtain ⟨changes, before, rfl, hc⟩ := h
  exact ⟨xs ++ changes, before, by simp, changes_append.2 ⟨hx, hc⟩⟩

theorem Heeds.append (h : Heeds r xs) (hy : Calm ys) : Heeds r (xs ++ ys) := by
  unfold Heeds at h ⊢
  split at h
  · exact h.append hy
  · exact calm_append.2 ⟨h, hy⟩

theorem Heeds.changes (h : Heeds r ys) (hx : Changes xs) : Heeds r (xs ++ ys) := by
  unfold Heeds at h ⊢
  split at h
  · exact h.changes hx
  · exact calm_append.2 ⟨hx.calm, h⟩

theorem heeds_error {e : ε} : Heeds (.error e) j ↔ Calm j := Iff.rfl

theorem heeds_completed {n : Nat} : Heeds (.ok (.completed n) : Except ε _) j ↔ Calm j := Iff.rfl

theorem heeds_cancelled {n : Nat} : Heeds (.ok (.cancelled n) : Except ε _) j ↔ Stopped j := Iff.rfl

/-- No stage was reported and nothing opened. -/
def Quiet (j : Journal φ) : Prop := ∀ s ∈ j, s.IsQuiet

lemma Calm.quiet (h : Calm j) : Quiet j := fun s hs => (h s hs).isQuiet

lemma Stopped.quiet (h : Stopped j) : Quiet j := by
  obtain ⟨changes, before, rfl, hc, hb⟩ := h
  intro s hs
  rcases List.mem_append.1 hs with hs | hs
  · exact hc.calm.quiet s hs
  · rcases List.mem_cons.1 hs with rfl | hs
    · exact trivial
    · exact hb.quiet s hs

theorem Heeds.quiet (h : Heeds r j) : Quiet j := by
  unfold Heeds at h
  split at h
  · exact Stopped.quiet h
  · exact Calm.quiet h

/-- A file was filled up, as what was to be put into it was more than it had room for. -/
def Overflows (limits : Limits) (j : Journal φ) : Prop :=
  ∃ fs p content, .changed (.write p content) ∈ j ∧ limits.room? fs p = some content.length

/-- After some work the listener said stop, but what had been read by then did not fit into its
file. -/
def Overruns (limits : Limits) (e : InstallError) (j : Journal φ) : Prop :=
  ∃ changes before : Journal φ, j = changes ++ .asked true :: before ∧ Changes changes ∧
    Calm before ∧ Overflows limits changes ∧ e = .io Refusal.full.message

/-- The listener was heard, as far as there was room for it. -/
def Minds (limits : Limits) (r : Except InstallError CopyOutcome) (j : Journal φ) : Prop :=
  Heeds r j ∨ ∃ e, r = .error e ∧ Overruns limits e j

variable {limits : Limits} {e : InstallError} {r : Except InstallError CopyOutcome}

lemma Overruns.stopped (h : Overruns limits e j) : Stopped j := by
  obtain ⟨changes, before, hj, hc, hb, -, -⟩ := h
  exact ⟨changes, before, hj, hc, hb⟩

lemma Overruns.append (h : Overruns limits e xs) (hy : Calm ys) :
    Overruns limits e (xs ++ ys) := by
  obtain ⟨changes, before, rfl, hc, hb, hfull, he⟩ := h
  exact ⟨changes, before ++ ys, by simp, hc, calm_append.2 ⟨hb, hy⟩, hfull, he⟩

lemma Overruns.changes (h : Overruns limits e ys) (hx : Changes xs) :
    Overruns limits e (xs ++ ys) := by
  obtain ⟨changes, before, rfl, hc, hb, ⟨fs, p, content, hwrite, hroom⟩, he⟩ := h
  exact ⟨xs ++ changes, before, by simp, changes_append.2 ⟨hx, hc⟩, hb,
    ⟨fs, p, content, by simp [hwrite], hroom⟩, he⟩

theorem Minds.append (h : Minds limits r xs) (hy : Calm ys) : Minds limits r (xs ++ ys) := by
  rcases h with h | ⟨e, hr, h⟩
  · exact .inl (h.append hy)
  · exact .inr ⟨e, hr, h.append hy⟩

theorem Minds.changes (h : Minds limits r ys) (hx : Changes xs) : Minds limits r (xs ++ ys) := by
  rcases h with h | ⟨e, hr, h⟩
  · exact .inl (h.changes hx)
  · exact .inr ⟨e, hr, h.changes hx⟩

lemma Minds.of_changes (h : Changes j) (e : InstallError) : Minds limits (.error e) j :=
  .inl (heeds_error.2 h.calm)

theorem Minds.quiet (h : Minds limits r j) : Quiet j := by
  rcases h with h | ⟨e, -, h⟩
  · exact h.quiet
  · exact h.stopped.quiet

theorem Minds.heeds {outcome : CopyOutcome} (h : Minds limits (.ok outcome) j) :
    Heeds (.ok outcome : Except InstallError _) j := by
  rcases h with h | ⟨e, hr, -⟩
  · exact h
  · cases hr

theorem minds_error : Minds limits (.error e) j ↔ Calm j ∨ Overruns limits e j := by
  simp [Minds, heeds_error]

/-- When a file is closed it comes out whether what was copied fits into it. -/
theorem Heeds.closed {result : Except String CopyOutcome} {fits : Bool} (h : Heeds result j)
    (hs : s.IsChange) (hfull : ¬ fits → Overflows limits [s]) :
    Minds limits (CopyOutcome.closed fits result) (s :: j) := by
  have hcalm : Calm j → Calm (s :: j) := fun hj => calm_cons.2 ⟨hs.isWork, hj⟩
  rcases result with reason | _ | _
  · exact .inl (hcalm h)
  · cases fits <;> exact .inl (hcalm h)
  · cases fits with
    | true =>
      have hchange : Changes [s] := by simp [hs]
      exact .inl (Stopped.changes h hchange)
    | false =>
      obtain ⟨changes, before, rfl, hc, hb⟩ := h
      obtain ⟨fs, p, content, hwrite, hroom⟩ := hfull (by simp)
      obtain rfl := List.mem_singleton.1 hwrite
      exact .inr ⟨_, rfl, _ :: changes, before, rfl, changes_cons.2 ⟨hs, hc⟩, hb,
        ⟨fs, p, content, List.mem_cons_self, hroom⟩, rfl⟩

theorem Quiet.stages (h : Quiet j) : j.stages = [] := by
  induction j with
  | nil => rfl
  | cons s j ih =>
    have hrest := ih fun x hx => h x (List.mem_cons_of_mem s hx)
    cases s with
    | stage s => exact (h _ List.mem_cons_self).elim
    | _ => exact hrest

theorem Quiet.stages_append (h : Quiet xs) : (xs ++ ys).stages = ys.stages := by
  rw [Journal.stages_append, h.stages, List.append_nil]

theorem Quiet.stage?_append (h : Quiet xs) : (xs ++ ys).stage? = ys.stage? := by
  rw [stage?, h.stages_append, stage?]

lemma Quiet.not_opened (h : Quiet j) (a : Asset) : .opened a ∉ j := fun hmem => h _ hmem

theorem openings_append (h : ∀ a, .opened a ∉ xs) : (xs ++ ys).openings = ys.openings := by
  induction xs with
  | nil => rfl
  | cons s xs ih =>
    have hrest := ih fun a ha => h a (List.mem_cons_of_mem s ha)
    cases s with
    | opened a => exact (h a List.mem_cons_self).elim
    | _ => exact hrest

theorem Changes.downloaded_append (h : Changes xs) : (xs ++ ys).downloaded = ys.downloaded := by
  induction xs with
  | nil => rfl
  | cons s xs ih =>
    have hrest := ih fun x hx => h x (List.mem_cons_of_mem s hx)
    cases s with
    | read r => exact (h _ List.mem_cons_self).elim
    | _ => exact hrest

/-- While downloading, what is read is downloaded. -/
theorem Quiet.downloaded_append (h : Quiet xs) (hy : ys.stage? = some .downloading) :
    (xs ++ ys).downloaded = ys.downloaded ++ xs.received := by
  induction xs with
  | nil => simp [received]
  | cons s xs ih =>
    have hxs : Quiet xs := fun x hx => h x (List.mem_cons_of_mem s hx)
    cases s with
    | read r =>
      rw [List.cons_append, downloaded, hxs.stage?_append, if_pos hy, ih hxs, received,
        List.append_assoc]
    | _ => exact ih hxs

/-- At another stage, what is read is not. -/
theorem Quiet.downloaded_eq (h : Quiet xs) (hy : ys.stage? ≠ some .downloading) :
    (xs ++ ys).downloaded = ys.downloaded := by
  induction xs with
  | nil => rfl
  | cons s xs ih =>
    have hxs : Quiet xs := fun x hx => h x (List.mem_cons_of_mem s hx)
    cases s with
    | read r =>
      rw [List.cons_append, downloaded, hxs.stage?_append, if_neg hy]
      exact ih hxs
    | _ => exact ih hxs

end Journal
end Mend
