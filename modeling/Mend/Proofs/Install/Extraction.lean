import Mend.Proofs.Install.Archives
import Mend.Proofs.Install.Staging

/-! Taking the executable out of an archive: the first file of its name is put in its place. -/
namespace Mend

open Archive

namespace Activity

variable {φ : Type} {w v : World φ} {name target : String} {format : ArchiveFormat}
  {file : List UInt8} {r : Except InstallError CopyOutcome} {limits : Limits}

/-- What extracting a file from a listing has come to. Short of success nothing that had been there
has changed. -/
structure Extracts (limits : Limits) (listing : Listing InstallError) (name target : String)
    (fs fs' : Files) (r : Except InstallError CopyOutcome) (steps : Journal φ) : Prop where
  minds : steps.Minds limits r
  missing : ∀ n, r = .error (.missingExecutable n) → n = name ∧ listing.HasNone name
  spares : (∀ n, r ≠ .ok (.completed n)) → fs.Spares limits (fs.wayTo target) fs'
  installs : ∀ n, r = .ok (.completed n) → ∃ entry, listing.IsFirst name entry ∧
    Files.Installs target entry.content.data (fs.wayTo target) fs fs' ∧
    entry.content.failure? = none

variable {listing : Listing InstallError} {fs fs' : Files} {steps : Journal φ}

/-- An entry that is none of the name is passed over. -/
lemma Extracts.cons {entry : Entry} (h : Extracts limits listing name target fs fs' r steps)
    (hentry : ¬ entry.isNamed name) :
    Extracts limits (.ok entry :: listing) name target fs fs' r
      (steps ++ [.listed entry.path, .asked false]) where
  minds := h.minds.append (by simp [Step.IsWork, Step.IsQuiet])
  missing n hn := by
    obtain ⟨rfl, hnone⟩ := h.missing n hn
    exact ⟨rfl, hnone.cons hentry⟩
  spares := h.spares
  installs n hn := by
    obtain ⟨first, hfirst, hrest⟩ := h.installs n hn
    exact ⟨first, hfirst.cons hentry, hrest⟩

/-- The first file of the name is what is put in its place. -/
lemma Attempts.extracts {entry : Entry} (h : Attempts limits entry target fs fs' r steps)
    (hentry : entry.isNamed name) (honest : entry.content.Honest) :
    Extracts limits (.ok entry :: listing) name target fs fs' r
      (steps ++ [.listed entry.path, .asked false]) where
  minds := h.minds.append (by simp [Step.IsWork, Step.IsQuiet])
  missing n hn := (h.not_missing n hn).elim
  spares := h.spares
  installs n hn := by
    obtain ⟨content, hinstalls, hcontent⟩ := h.installs n hn
    obtain ⟨rfl, hfailure⟩ := hcontent honest
    exact ⟨entry, ⟨[], listing, rfl, by simp, hentry⟩, hinstalls, hfailure⟩

variable [Fraction φ]

/-- The induction is on the entries: the listener is asked, and the next one is passed over, put in
its place, or cannot be read. -/
theorem installFirst_ends {plan : CopyPlan φ} (honest : ∀ e, .ok e ∈ listing → e.content.Honest)
    (hsound : ∀ e, .error e ∈ listing → ∀ n, e ≠ .missingExecutable n)
    (h : (installFirst limits plan name target listing).Ends w r v) :
    ∃ steps, v.journal = steps ++ w.journal ∧
      Extracts limits listing name target w.files v.files r steps := by
  induction listing generalizing w with
  | nil =>
    obtain ⟨rfl, rfl⟩ := ends_throw.1 h
    refine ⟨[], rfl, .of_changes Journal.changes_nil _, fun n hn => ?_,
      fun _ => (Files.Evolves.refl _).spares, by simp⟩
    cases hn
    exact ⟨rfl, [], rfl, by simp⟩
  | cons next rest ih =>
    unfold installFirst at h
    rw [ends_ask_bind] at h
    cases hstop : plan.listener w.journal with
    | true =>
      rw [hstop] at h
      obtain ⟨rfl, rfl⟩ := ends_pure.1 h
      exact ⟨[.asked true], rfl, .inl ⟨[], [], rfl, Journal.changes_nil, Journal.calm_nil⟩,
        by simp, fun _ => (Files.Evolves.refl _).spares, by simp⟩
    | false =>
      rw [hstop] at h
      cases next with
      | error e =>
        obtain ⟨rfl, rfl⟩ := ends_throw.1 h
        refine ⟨[.asked false], rfl, .inl (by simp [Journal.heeds_error, Step.IsWork]),
          fun n hn => ?_, fun _ => (Files.Evolves.refl _).spares, by simp⟩
        exact (hsound e List.mem_cons_self n (Except.error.inj hn)).elim
      | ok entry =>
        simp only [Bool.false_eq_true, if_false, ends_note_bind] at h
        split at h
        · next hentry =>
          obtain ⟨steps, hjournal, hattempts⟩ := install_ends h
          exact ⟨_, by simp [hjournal],
            hattempts.extracts hentry (honest entry List.mem_cons_self)⟩
        · next hentry =>
          obtain ⟨steps, hjournal, hextracts⟩ :=
            ih (fun e he => honest e (List.mem_cons_of_mem _ he))
              (fun e he => hsound e (List.mem_cons_of_mem _ he)) h
          exact ⟨_, by simp [hjournal], hextracts.cons hentry⟩

/-- Extracting from an archive that is there: it cannot be read, or not as an archive, or the first
file of the name is taken from what it lists. -/
theorem extract_ends {plan : CopyPlan φ} {archive : String}
    (hread : w.files.read archive = .ok file)
    (h : (extract limits plan format archive name target).Ends w r v) :
    (∃ e, r = .error e ∧ v = w ∧ ∀ n, e ≠ .missingExecutable n) ∨
      ∃ listing steps, format.entries file = .ok listing ∧ v.journal = steps ++ w.journal ∧
        Extracts limits listing name target w.files v.files r steps := by
  rw [extract, ends_get_bind] at h
  cases hlimited : limits.read w.files archive with
  | error e =>
    rw [hlimited] at h
    obtain ⟨rfl, rfl⟩ := ends_throw.1 h
    exact .inl ⟨_, rfl, rfl, by simp⟩
  | ok file' =>
  obtain rfl := Except.ok.inj (hread.symm.trans (Limits.read_eq_ok hlimited))
  rw [hlimited] at h
  dsimp only at h
  cases hentries : format.entries file with
  | error e =>
    rw [hentries] at h
    obtain ⟨rfl, rfl⟩ := ends_throw.1 h
    exact .inl ⟨e, rfl, rfl, fun n => ArchiveFormat.error_ne_missing (.inl hentries)⟩
  | ok listing =>
    rw [hentries] at h
    obtain ⟨steps, hjournal, hextracts⟩ := installFirst_ends
      (fun e he => (ArchiveFormat.holds_of_mem_entries hentries he).honest)
      (fun e he n => ArchiveFormat.error_ne_missing (.inr ⟨listing, hentries, he⟩)) h
    exact .inr ⟨listing, steps, rfl, hjournal, hextracts⟩

end Activity
end Mend
