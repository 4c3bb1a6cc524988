import Mend.Proofs.Install.Course

/-! Stopping an installation. The listener is heard whenever it says stop: from then on files are
only put in order, and what was downloaded is kept, unless there is no room for it. -/
namespace Mend

namespace Installer

open Activity

variable {φ : Type} [Fraction φ] {i : Installer φ} {files fs fs' : Files} {p : Platform} {a : Asset}
  {steps before : Journal φ}

/-- The download by the time of the steps `before`: its file holds what was read of the asset. Once
it is unpacked, the asset had been read to its end. -/
structure Keeps (i : Installer φ) (p : Platform) (a : Asset) (source : Source) (fs : Files)
    (before : Journal φ) : Prop where
  chooses : i.Chooses p a
  fetched : i.client.fetch a = .ok source
  file : fs.read (i.archive p a) = .ok before.downloaded
  given : before.downloaded <+: source.data
  stage : before.stage? = some .downloading ∨ before.stage? = some .decompressing ∧
    (∃ later earlier : Journal φ, before = later ++ .read (.bytes []) :: earlier ∧
      earlier.stage? = some .downloading ∧ earlier.downloaded = before.downloaded) ∧
    (source.Honest → before.downloaded = source.data ∧ source.failure? = none)

lemma not_mem_opening (a : Asset) : (.asked true : Step φ) ∉ opening a := by
  simp [opening, looking]

/-- A download that was stopped. -/
lemma Downloads.keeps_stopped {n : Nat} (chooses : i.Chooses p a)
    (h : i.Downloads a (i.archive p a) files fs (.ok (.cancelled n)) steps) :
    ∃ (changes before : Journal φ) (source : Source),
      steps = changes ++ .asked true :: before ∧ changes.Changes ∧
      .asked true ∉ before ++ opening a ∧ i.Keeps p a source fs (before ++ opening a) := by
  obtain ⟨changes, before, rfl, hchanges, hbefore⟩ := Journal.heeds_cancelled.1 h.minds.heeds
  obtain ⟨source, mode, hfetch, hplace, hnode, hfills⟩ := h.filled _ rfl
  have hreceived : Journal.received (changes ++ .asked true :: before) = before.received := by
    rw [Journal.received_append, hchanges.received, List.append_nil]
    rfl
  have hdownloaded := downloaded_opening a hbefore.quiet
  refine ⟨changes, before, source, rfl, hchanges, ?_, chooses, hfetch, ?_, ?_, .inl ?_⟩
  · simp [hbefore.not_mem, not_mem_opening]
  · rw [hdownloaded, ← hreceived]
    exact Files.read_of_place hplace hnode
  · rw [hdownloaded, ← hreceived]
    exact hfills.given
  · rw [hbefore.quiet.stage?_append, stage?_opening]

/-- A download that is complete, while it is unpacked. -/
lemma Downloads.keeps_unpacked {n : Nat} {listing : Archive.Listing InstallError} {m : Nat}
    {more : Journal φ} {name target : String} (chooses : i.Chooses p a)
    (h : i.Downloads a (i.archive p a) files fs (.ok (.completed n)) steps)
    (extracts : Extracts i.host.limits listing name target fs fs' (.ok (.cancelled m)) more) :
    ∃ (changes before : Journal φ) (source : Source),
      more = changes ++ .asked true :: before ∧ changes.Changes ∧
      .asked true ∉ before ++ (i.starting p ++ (steps ++ opening a)) ∧
      i.Keeps p a source fs' (before ++ (i.starting p ++ (steps ++ opening a))) := by
  obtain ⟨changes, before, rfl, hchanges, hbefore⟩ :=
    Journal.heeds_cancelled.1 extracts.minds.heeds
  obtain ⟨source, mode, hfetch, hplace, hnode, hfills⟩ := h.filled _ rfl
  have hcalm := Journal.heeds_completed.1 h.minds.heeds
  have hstage := i.stage?_starting p (steps ++ opening a)
  have hdownloaded : Journal.downloaded (before ++ (i.starting p ++ (steps ++ opening a))) =
      steps.received := by
    rw [hbefore.quiet.downloaded_eq (by simp [hstage]), ← downloaded_opening a hcalm.quiet]
    rfl
  have hspares := extracts.spares (by simp)
  refine ⟨changes, before, source, rfl, hchanges, ?_, chooses, hfetch, ?_, ?_, .inr ⟨?_, ?_, ?_⟩⟩
  · simp [hbefore.not_mem, hcalm.not_mem, not_mem_opening, starting]
  · rw [hdownloaded]
    exact Files.read_of_place (hspares.place hplace) (hspares.file hnode)
  · rw [hdownloaded]
    exact hfills.given
  · rw [hbefore.quiet.stage?_append, hstage]
  · obtain ⟨changes', earlier, rfl, hchanges'⟩ := hfills.exhausts n rfl
    have hquiet : earlier.Quiet := fun s hs => hcalm.quiet s (by simp [hs])
    refine ⟨before ++ (i.starting p ++ changes'), earlier ++ opening a, by simp, ?_, ?_⟩
    · rw [hquiet.stage?_append, stage?_opening]
    · rw [hdownloaded, downloaded_opening a hquiet, Journal.received_append, hchanges'.received]
      simp [Journal.received, ReadResult.given]
  · rw [hdownloaded]
    exact hfills.complete n rfl

/-- What a run comes to in which the listener said stop after the steps `before`: files were put in
order, and that it was cancelled is all that was reported. -/
def Heeded (i : Installer φ) (files : Files) (r : Except InstallError InstallOutcome)
    (w : World φ) : Prop :=
  ∃ (changes before : Journal φ) (download? : Option String),
    r = .ok (.cancelled download?) ∧
    w.journal = .stage .cancelled :: (changes ++ .asked true :: before) ∧ changes.Changes ∧
    .asked true ∉ before ∧
    match download? with
    | none => before.stage? = some .fetchingMetadata ∧ changes = [] ∧ w.files = files ∧
        ∀ s ∈ before, ¬ s.Touches
    | some path => ∃ p a source, path = i.archive p a ∧ i.Keeps p a source w.files before

/-- What the steps of a run come to that failed since what had been read when the listener said stop
was more than its file had room for. -/
def Overran (i : Installer φ) (r : Except InstallError InstallOutcome) (j : Journal φ) : Prop :=
  ∃ changes before : Journal φ, r = .error (.io Refusal.full.message) ∧
    j = changes ++ .asked true :: before ∧ changes.Changes ∧ .asked true ∉ before ∧
    changes.Overflows i.host.limits

omit [Fraction φ] in
lemma overran_of_overruns {e : InstallError} (h : steps.Overruns i.host.limits e)
    (hbefore : .asked true ∉ before) : i.Overran (.error e) (steps ++ before) := by
  obtain ⟨changes, first, rfl, hchanges, hfirst, hfull, rfl⟩ := h
  exact ⟨changes, first ++ before, rfl, by simp, hchanges, by simp [hfirst.not_mem, hbefore], hfull⟩

variable {r : Except InstallError InstallOutcome} {w : World φ}

theorem Course.heeds (h : i.Course files r w) :
    (.asked true ∉ w.journal ∧ ∀ download?, r ≠ .ok (.cancelled download?)) ∨
      i.Heeded files r w ∨ i.Overran r w.journal := by
  cases h with
  | unresolved | unlisted | unfit => exact .inl ⟨by simp [looking], by simp⟩
  | declined =>
    refine .inr (.inl ⟨[], .fraction metadataShare :: looking, none, rfl, rfl, Journal.changes_nil,
      by simp [looking], rfl, rfl, rfl, by simp [looking, Step.Touches]⟩)
  | undelivered _ downloads =>
    rcases Journal.minds_error.1 downloads.minds with hcalm | hruns
    · exact .inl ⟨by simp [hcalm.not_mem, not_mem_opening], by simp⟩
    · exact .inr (.inr (overran_of_overruns hruns (not_mem_opening _)))
  | interrupted chooses downloads =>
    obtain ⟨changes, before, source, rfl, hchanges, hbefore, hkeeps⟩ :=
      downloads.keeps_stopped chooses
    exact .inr (.inl ⟨changes, _, _, rfl, by simp, hchanges, hbefore, _, _, source, rfl, hkeeps⟩)
  | delivered chooses downloads unpacks =>
    have hcalm := Journal.heeds_completed.1 downloads.minds.heeds
    cases unpacks with
    | unreadable =>
      exact .inl ⟨by simp [hcalm.not_mem, not_mem_opening, starting], by simp⟩
    | failed _ extracts =>
      rcases Journal.minds_error.1 extracts.minds with hcalm' | hruns
      · exact .inl ⟨by simp [hcalm.not_mem, hcalm'.not_mem, not_mem_opening, starting], by simp⟩
      · refine .inr (.inr (overran_of_overruns hruns ?_))
        simp [hcalm.not_mem, not_mem_opening, starting]
    | stopped _ extracts =>
      obtain ⟨changes, before, source, rfl, hchanges, hbefore, hkeeps⟩ :=
        downloads.keeps_unpacked chooses extracts
      exact .inr (.inl
        ⟨changes, _, _, rfl, by simp, hchanges, hbefore, _, _, source, rfl, hkeeps⟩)
    | extracted _ _ _ calm _ finishes =>
      cases finishes with
      | forbidden removes =>
        refine .inl ⟨?_, by simp⟩
        simp [hcalm.not_mem, calm.not_mem, removes.calm.not_mem, not_mem_opening, starting]
      | installed removes permits =>
        refine .inl ⟨?_, by simp⟩
        simp [hcalm.not_mem, calm.not_mem, removes.calm.not_mem, permits.calm.not_mem,
          not_mem_opening, starting]

/-- Either the listener never says stop, and then the installation is not cancelled, or it is heard
when it does, or it says stop when more has been read than there is room for. -/
theorem run_heeds (i : Installer φ) (files : Files) :
    ∃ r w, i.run.Ends ⟨files, []⟩ r w ∧
      ((.asked true ∉ w.journal ∧ ∀ download?, r ≠ .ok (.cancelled download?)) ∨
        i.Heeded files r w ∨ ∃ j, w.journal = .stage .failed :: j ∧ i.Overran r j) := by
  obtain ⟨r, w, hends⟩ := exists_ends i.run ⟨files, []⟩
  refine ⟨r, w, hends, ?_⟩
  rcases run_ends hends with ⟨outcome, rfl, hcourse⟩ | ⟨e, u, rfl, hcourse, rfl⟩
  · rcases hcourse.heeds with hasked | hheeded | ⟨-, -, hr, -⟩
    · exact .inl hasked
    · exact .inr (.inl hheeded)
    · cases hr
  · rcases hcourse.heeds with ⟨hasked, -⟩ | ⟨-, -, download?, hr, -⟩ | hran
    · exact .inl ⟨by simpa using hasked, by simp⟩
    · cases hr
    · exact .inr (.inr ⟨_, rfl, hran⟩)

end Installer
end Mend
