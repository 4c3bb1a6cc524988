import Mathlib.Tactic.Lemma
import Mend.Install.Activity

/-! How activities end: with a result or an error, and in a world. How one that is made of others
ends follows from how those end, so that no later proof looks into the monad. -/
namespace Mend

variable {φ α β : Type}

namespace World

/-- The world once a step has been noted. -/
def noted (w : World φ) (s : Step φ) : World φ := { w with journal := s :: w.journal }

@[simp] theorem files_noted (w : World φ) (s : Step φ) : (w.noted s).files = w.files := rfl

@[simp] theorem journal_noted (w : World φ) (s : Step φ) :
    (w.noted s).journal = s :: w.journal := rfl

end World

namespace Activity

/-- Started in the world `w`, the activity ends with `r` in the world `v`. -/
def Ends (act : Activity φ α) (w : World φ) (r : Except InstallError α) (v : World φ) : Prop :=
  (act.run.run w).run = (r, v)

theorem ends_run (act : Activity φ α) (w : World φ) :
    act.Ends w (act.run.run w).run.1 (act.run.run w).run.2 :=
  rfl

theorem exists_ends (act : Activity φ α) (w : World φ) : ∃ r v, act.Ends w r v :=
  ⟨_, _, ends_run act w⟩

variable {w v : World φ} {r : Except InstallError α} {act : Activity φ α}

theorem Ends.unique {r' : Except InstallError α} {v' : World φ} (h : act.Ends w r v)
    (h' : act.Ends w r' v') : r = r' ∧ v = v' :=
  Prod.mk.inj (h.symm.trans h')

lemma ends_of_run {r' : Except InstallError α} {v' : World φ}
    (h : (act.run.run w).run = (r', v')) : act.Ends w r v ↔ r = r' ∧ v = v' := by
  rw [Ends, h, Prod.mk.injEq, eq_comm, eq_comm (a := v')]

@[simp] theorem ends_pure {a : α} : (pure a : Activity φ α).Ends w r v ↔ r = .ok a ∧ v = w :=
  ends_of_run rfl

@[simp] theorem ends_throw {e : InstallError} :
    (throw e : Activity φ α).Ends w r v ↔ r = .error e ∧ v = w :=
  ends_of_run rfl

@[simp] theorem ends_get {r : Except InstallError (World φ)} :
    (get : Activity φ (World φ)).Ends w r v ↔ r = .ok w ∧ v = w :=
  ends_of_run rfl

@[simp] theorem ends_set {r : Except InstallError PUnit} {u : World φ} :
    (set u : Activity φ PUnit).Ends w r v ↔ r = .ok ⟨⟩ ∧ v = u :=
  ends_of_run rfl

@[simp] theorem ends_modify {r : Except InstallError PUnit} {f : World φ → World φ} :
    (modify f : Activity φ PUnit).Ends w r v ↔ r = .ok ⟨⟩ ∧ v = f w :=
  ends_of_run rfl

lemma run_bind {f : α → Activity φ β} :
    ((act >>= f).run.run w).run = match (act.run.run w).run with
      | (.ok a, u) => ((f a).run.run u).run
      | (.error e, u) => (.error e, u) := by
  rw [ExceptT.run_bind, StateT.run_bind]
  rcases act.run.run w with ⟨_ | _, _⟩ <;> rfl

/-- Of two activities in a row the first fails, or the second goes on from where it ended. -/
theorem ends_bind {f : α → Activity φ β} {r : Except InstallError β} :
    (act >>= f).Ends w r v ↔
      (∃ e, act.Ends w (.error e) v ∧ r = .error e) ∨
        ∃ a u, act.Ends w (.ok a) u ∧ (f a).Ends u r v := by
  simp only [Ends, run_bind]
  rcases (act.run.run w).run with ⟨_ | a, u⟩ <;> grind

theorem Ends.bind {f : α → Activity φ β} {r : Except InstallError β} (h : (act >>= f).Ends w r v) :
    (∃ e, act.Ends w (.error e) v ∧ r = .error e) ∨
      ∃ a u, act.Ends w (.ok a) u ∧ (f a).Ends u r v :=
  ends_bind.1 h

theorem ends_bind_of_ok {f : α → Activity φ β} {r : Except InstallError β} {a : α}
    (h : act.Ends w (.ok a) v) {u : World φ} : (act >>= f).Ends w r u ↔ (f a).Ends v r u := by
  rw [ends_bind]
  constructor
  · rintro (⟨e, he, _⟩ | ⟨b, u', hb, hf⟩)
    · cases (h.unique he).1
    · obtain ⟨hab, rfl⟩ := h.unique hb
      cases hab
      exact hf
  · exact fun hf => .inr ⟨a, v, h, hf⟩

@[simp] theorem ends_get_bind {f : World φ → Activity φ α} :
    (get >>= f).Ends w r v ↔ (f w).Ends w r v :=
  ends_bind_of_ok (ends_get.2 ⟨rfl, rfl⟩)

/-- What fails is handled from where it ended. -/
theorem ends_tryCatch {f : InstallError → Activity φ α} :
    (tryCatch act f).Ends w r v ↔
      (∃ a, act.Ends w (.ok a) v ∧ r = .ok a) ∨
        ∃ e u, act.Ends w (.error e) u ∧ (f e).Ends u r v := by
  have hrun : ((tryCatch act f).run.run w).run = match (act.run.run w).run with
      | (.ok a, u) => (.ok a, u)
      | (.error e, u) => ((f e).run.run u).run := by
    rw [ExceptT.run_tryCatch, StateT.run_bind]
    rcases act.run.run w with ⟨_ | _, _⟩ <;> rfl
  simp only [Ends, hrun]
  rcases (act.run.run w).run with ⟨_ | a, u⟩ <;> grind

variable {path : String}

@[simp] theorem ends_note {s : Step φ} {r : Except InstallError Unit} :
    (note s).Ends w r v ↔ r = .ok () ∧ v = w.noted s :=
  ends_of_run rfl

@[simp] theorem ends_ask {listener : Listener φ} {r : Except InstallError Bool} :
    (ask listener).Ends w r v ↔
      r = .ok (listener w.journal) ∧ v = w.noted (.asked (listener w.journal)) :=
  ends_of_run rfl

@[simp] theorem ends_note_bind {s : Step φ} {f : Unit → Activity φ α} :
    (note s >>= f).Ends w r v ↔ (f ()).Ends (w.noted s) r v :=
  ends_bind_of_ok (ends_note.2 ⟨rfl, rfl⟩)

@[simp] theorem ends_ask_bind {listener : Listener φ} {f : Bool → Activity φ α} :
    (ask listener >>= f).Ends w r v ↔
      (f (listener w.journal)).Ends (w.noted (.asked (listener w.journal))) r v :=
  ends_bind_of_ok (ends_ask.2 ⟨rfl, rfl⟩)

theorem ends_ofFile_ok {x : Except FileError α} {a : α} :
    (ofFile path x).Ends w (.ok a) v ↔ x = .ok a ∧ v = w := by
  cases x <;> simp [ofFile, eq_comm]

theorem ends_ofFile_error {x : Except FileError α} {e : InstallError} :
    (ofFile path x).Ends w (.error e) v ↔
      ∃ fault, x = .error fault ∧ e = .ofFile path fault ∧ v = w := by
  cases x <;> simp [ofFile]

theorem ends_place_ok {p : Place} :
    (place path).Ends w (.ok p) v ↔ w.files.place path = .ok p ∧ v = w := by
  rw [place, ends_get_bind, ends_ofFile_ok]

theorem ends_place_error {e : InstallError} :
    (place path).Ends w (.error e) v ↔
      ∃ fault, w.files.place path = .error fault ∧ e = .ofFile path fault ∧ v = w := by
  rw [place, ends_get_bind, ends_ofFile_error]

variable {limits : Limits}

theorem ends_change_ok {c : Change} :
    (change limits path c).Ends w (.ok ()) v ↔
      ∃ fs, limits.change w.files c = .ok fs ∧ v = ⟨fs, .changed c :: w.journal⟩ := by
  rw [Activity.change, ends_get_bind]
  cases limits.change w.files c <;> simp

/-- A change that is not possible leaves all as it is. -/
theorem ends_change_error {c : Change} {e : InstallError} :
    (change limits path c).Ends w (.error e) v ↔
      ∃ fault, limits.change w.files c = .error fault ∧ e = .ofFault path fault ∧ v = w := by
  rw [Activity.change, ends_get_bind]
  cases limits.change w.files c <;> simp

/-- Discarding a file never fails; the file stays where it cannot be removed. -/
theorem ends_discard {p : Place} {r : Except InstallError Unit} :
    (discard limits path p).Ends w r v ↔ r = .ok () ∧
      ((∃ fs, limits.change w.files (.remove p) = .ok fs ∧
        v = ⟨fs, .changed (.remove p) :: w.journal⟩) ∨
      (∃ fault, limits.change w.files (.remove p) = .error fault) ∧ v = w) := by
  rw [discard, ends_tryCatch]
  constructor
  · rintro (⟨_, hremove, rfl⟩ | ⟨e, u, hremove, hpure⟩)
    · exact ⟨rfl, .inl (ends_change_ok.1 hremove)⟩
    · obtain ⟨fault, hfault, -, rfl⟩ := ends_change_error.1 hremove
      obtain ⟨rfl, rfl⟩ := ends_pure.1 hpure
      exact ⟨rfl, .inr ⟨⟨fault, hfault⟩, rfl⟩⟩
  · rintro ⟨rfl, hremove | ⟨⟨fault, hfault⟩, rfl⟩⟩
    · exact .inl ⟨(), ends_change_ok.2 hremove, rfl⟩
    · exact .inr ⟨_, v, ends_change_error.2 ⟨fault, hfault, rfl, rfl⟩, ends_pure.2 ⟨rfl, rfl⟩⟩

@[simp] theorem ends_ofExcept {x : Except InstallError α} :
    (MonadExcept.ofExcept x : Activity φ α).Ends w r v ↔ r = x ∧ v = w := by
  cases x
  · exact ends_throw
  · exact ends_pure

/-- What was copied is written at once, as far as there is room, whatever came of copying. -/
theorem ends_copyTo [Fraction φ] {plan : CopyPlan φ} {source : Source} {p : Place}
    {r : Except InstallError CopyOutcome} :
    (copyTo limits plan source path p).Ends w r v ↔ ∃ result t written,
      plan.copy (.buffered (limits.room? w.files p)) { source, journal := w.journal } =
        (result, t) ∧
      (change limits path (.write p (limits.fitting w.files p (source.taken t.source)))).Ends
        { w with journal := t.journal } written v ∧
      r = written.bind fun _ =>
        CopyOutcome.closed (limits.fits w.files p (source.taken t.source)) result := by
  rw [copyTo, ends_get_bind]
  rcases plan.copy _ { source, journal := w.journal } with ⟨result, t⟩
  dsimp only
  rw [ends_bind_of_ok (ends_set.2 ⟨rfl, rfl⟩), ends_bind]
  constructor
  · rintro (⟨e, hchange, rfl⟩ | ⟨_, u, hchange, hclosed⟩)
    · exact ⟨result, t, .error e, rfl, hchange, rfl⟩
    · obtain ⟨rfl, rfl⟩ := ends_ofExcept.1 hclosed
      exact ⟨result, t, .ok (), rfl, hchange, rfl⟩
  · rintro ⟨_, _, written, ⟨rfl, rfl⟩, hchange, rfl⟩
    cases written with
    | error e => exact .inl ⟨e, hchange, rfl⟩
    | ok _ => exact .inr ⟨(), v, hchange, ends_ofExcept.2 ⟨rfl, rfl⟩⟩

end Activity

theorem InstallError.ofFile_ne_missing (path name : String) (e : FileError) :
    InstallError.ofFile path e ≠ .missingExecutable name := by
  cases e <;> simp [ofFile]

theorem InstallError.ofFault_ne_missing (path name : String) (fault : Fault) :
    InstallError.ofFault path fault ≠ .missingExecutable name := by
  rcases fault with e | ⟨_ | _⟩
  · exact ofFile_ne_missing path name e
  · simp [ofFault]
  · simp [ofFault]

end Mend
