import Mend.Proofs.Install.Course

/-! The stages that an installation reports: they come in their order, and the last one says how it
ended. -/
namespace Mend

namespace Stage

/-- The stages of an installation that is finished, but for the last one. -/
def order : List Stage :=
  [.idle, .resolvingPlatform, .fetchingMetadata, .downloading, .decompressing, .settingPermissions]

end Stage

namespace Installer

open Activity

variable {φ : Type} [Fraction φ] {i : Installer φ} {files : Files} {p : Platform} {a : Asset}
  {r : Except InstallError InstallOutcome} {w : World φ}

lemma stages_opening (a : Asset) : (opening a : Journal φ).stages = Stage.order.take 4 := rfl

lemma Downloads.stages {archive : String} {fs : Files} {r : Except InstallError CopyOutcome}
    {steps : Journal φ} (h : i.Downloads a archive files fs r steps) :
    (steps ++ opening a).stages = Stage.order.take 4 := by
  rw [h.minds.quiet.stages_append, stages_opening]

lemma Downloads.stages_starting {archive : String} {fs : Files}
    {r : Except InstallError CopyOutcome} {steps : Journal φ}
    (h : i.Downloads a archive files fs r steps) (p : Platform) :
    (i.starting p ++ (steps ++ opening a)).stages = Stage.order.take 5 := by
  rw [Journal.stages_append, h.stages]
  rfl

omit [Fraction φ] in
lemma Extracts.stages {listing : Archive.Listing InstallError} {name target : String}
    {fs fs' : Files} {r : Except InstallError CopyOutcome} {steps : Journal φ}
    {limits : Limits} (h : Extracts limits listing name target fs fs' r steps) :
    steps.stages = [] := h.minds.quiet.stages

lemma Unpacks.stages {archive : String} {file : List UInt8} {fs : Files} {steps : Journal φ}
    (h : i.Unpacks p archive file files fs r steps) :
    match r with
      | .ok (.installed _) => steps.stages = [.settingPermissions, .ready]
      | .ok (.cancelled _) => steps.stages = [.cancelled]
      | .error _ => steps.stages = [] ∨ steps.stages = [.settingPermissions] := by
  cases h with
  | unreadable => exact .inl rfl
  | failed _ extracts => exact .inl (Extracts.stages extracts)
  | stopped _ extracts =>
    dsimp only
    rw [Journal.stages, Extracts.stages extracts]
    rfl
  | extracted _ _ _ calm _ finishes =>
    cases finishes with
    | forbidden removes =>
      exact .inr (by
        simp [Journal.stages_append, Journal.stages, calm.quiet.stages, removes.calm.quiet.stages])
    | installed removes permits =>
      simp [Journal.stages_append, Journal.stages, calm.quiet.stages, removes.calm.quiet.stages,
        permits.calm.quiet.stages]

/-- The stages by the time a course is over; of an error there still is to tell. -/
theorem Course.stages (h : i.Course files r w) :
    match r with
    | .ok (.installed _) => w.journal.stages = Stage.order ++ [.ready]
    | .ok (.cancelled _) => ∃ n ∈ [3, 4, 5], w.journal.stages = Stage.order.take n ++ [.cancelled]
    | .error _ => ∃ n, 2 ≤ n ∧ n ≤ 6 ∧ w.journal.stages = Stage.order.take n := by
  cases h with
  | unresolved => exact ⟨2, by decide, by decide, rfl⟩
  | unlisted => exact ⟨3, by decide, by decide, rfl⟩
  | declined => exact ⟨3, by decide, rfl⟩
  | unfit => exact ⟨3, by decide, by decide, rfl⟩
  | undelivered _ downloads => exact ⟨4, by decide, by decide, downloads.stages⟩
  | interrupted _ downloads =>
    refine ⟨4, by decide, ?_⟩
    rw [Journal.stages, downloads.stages]
  | @delivered p _ _ _ _ _ _ _ _ downloads unpacks =>
    have hstages := downloads.stages_starting p
    have hmore := unpacks.stages
    rcases r with e | path | download?
    · rcases hmore with hmore | hmore
      · refine ⟨5, by decide, by decide, ?_⟩
        rw [Journal.stages_append, hstages, hmore, List.append_nil]
      · refine ⟨6, by decide, by decide, ?_⟩
        rw [Journal.stages_append, hstages, hmore]
        rfl
    · dsimp only
      rw [Journal.stages_append, hstages, hmore]
      rfl
    · exact ⟨5, by decide, by rw [Journal.stages_append, hstages, hmore]⟩

lemma Unpacks.not_opened {archive : String} {file : List UInt8} {fs : Files} {steps : Journal φ}
    (h : i.Unpacks p archive file files fs r steps) (a : Asset) : .opened a ∉ steps := by
  cases h with
  | unreadable => simp
  | failed _ extracts => exact extracts.minds.quiet.not_opened a
  | stopped _ extracts => simpa using extracts.minds.quiet.not_opened a
  | extracted _ _ _ calm _ finishes =>
    cases finishes with
    | forbidden removes => simp [calm.quiet.not_opened, removes.calm.quiet.not_opened]
    | installed removes permits =>
      simp [calm.quiet.not_opened, removes.calm.quiet.not_opened, permits.calm.quiet.not_opened]

lemma openings_opening (a : Asset) : (opening a : Journal φ).openings = [(a, some .downloading)] :=
  rfl

/-- At most one asset is opened, the one that is chosen, and while downloading. -/
theorem Course.openings (h : i.Course files r w) :
    w.journal.openings = [] ∨
      ∃ p a, i.Chooses p a ∧ w.journal.openings = [(a, some .downloading)] := by
  cases h with
  | unresolved | unlisted | declined | unfit => exact .inl rfl
  | undelivered chooses downloads =>
    refine .inr ⟨_, _, chooses, ?_⟩
    rw [Journal.openings_append downloads.minds.quiet.not_opened, openings_opening]
  | interrupted chooses downloads =>
    refine .inr ⟨_, _, chooses, ?_⟩
    rw [Journal.openings, Journal.openings_append downloads.minds.quiet.not_opened,
      openings_opening]
    simp
  | delivered chooses downloads unpacks =>
    refine .inr ⟨_, _, chooses, ?_⟩
    rw [Journal.openings_append unpacks.not_opened, Journal.openings_append (by simp [starting]),
      Journal.openings_append downloads.minds.quiet.not_opened, openings_opening]

/-- Without an asset that is chosen nothing is reached out for. -/
theorem Course.untouched (h : i.Course files r w) (hnone : ¬ ∃ p a, i.Chooses p a) :
    w.files = files ∧ ∀ s ∈ w.journal, ¬ s.Touches := by
  cases h with
  | unresolved | unlisted | declined | unfit => exact ⟨rfl, by simp [Step.Touches, looking]⟩
  | undelivered chooses | interrupted chooses | delivered chooses =>
    exact (hnone ⟨_, _, chooses⟩).elim

/-- The stages that are reported are the first ones in their order and one that says how the
installation ended, and nothing comes after that. At most one asset is opened. -/
theorem run_stages (i : Installer φ) (files : Files) :
    ∃ r w, i.run.Ends ⟨files, []⟩ r w ∧
      (∃ n last, w.journal.stages = Stage.order.take n ++ [last] ∧ n ≤ 6 ∧
        last ∈ [Stage.ready, .cancelled, .failed] ∧
        ((last = .ready ↔ ∃ path, r = .ok (.installed path)) ∧ (last = .ready → n = 6)) ∧
        ((last = .cancelled ↔ ∃ download?, r = .ok (.cancelled download?)) ∧
          (last = .cancelled → n = 3 ∨ n = 4 ∨ n = 5)) ∧
        ((last = .failed ↔ ∃ e, r = .error e) ∧ (last = .failed → 2 ≤ n))) ∧
      (w.journal.openings = [] ∨
        ∃ p a, i.Chooses p a ∧ w.journal.openings = [(a, some .downloading)]) ∧
      ((¬ ∃ p a, i.Chooses p a) → w.files = files ∧ ∀ s ∈ w.journal, ¬ s.Touches) := by
  obtain ⟨r, w, hends⟩ := exists_ends i.run ⟨files, []⟩
  refine ⟨r, w, hends, ?_⟩
  rcases run_ends hends with ⟨path | download?, rfl, hcourse⟩ | ⟨e, u, rfl, hcourse, rfl⟩
  · exact ⟨⟨6, .ready, hcourse.stages, by decide, by simp, by simp⟩, hcourse.openings,
      hcourse.untouched⟩
  · obtain ⟨n, hn, hstages⟩ := hcourse.stages
    have hn' : n = 3 ∨ n = 4 ∨ n = 5 := by simpa using hn
    exact ⟨⟨n, .cancelled, hstages, by omega, by simp, by simpa using hn'⟩, hcourse.openings,
      hcourse.untouched⟩
  · obtain ⟨n, hn, hn', hstages⟩ := hcourse.stages
    refine ⟨⟨n, .failed, by simp [Journal.stages, hstages], hn', by simp, by simpa using hn⟩,
      ?_, ?_⟩
    · simpa [Journal.openings] using hcourse.openings
    · intro hnone
      simpa [Step.Touches] using hcourse.untouched hnone

end Installer
end Mend
