import Mend.Proofs.Install.Phases

/-! The courses that an installation may take, one for each way it may end. What is said about all
installations is proved by going through them. -/
namespace Mend

open Archive

namespace Platform

theorem error_ne_missing {system architecture : String} {distribution? : Option String}
    {e : InstallError} (h : ofNames system architecture distribution? = .error e) (name : String) :
    e ≠ .missingExecutable name := by
  rintro rfl
  unfold ofNames OperatingSystem.ofName Architecture.ofName at h
  grind [Except.map]

lemma getLast?_append {c : Char} {s t : String} (h : t.toList.getLast? = some c) :
    (s ++ t).toList.getLast? = some c := by
  rw [String.toList_append, List.getLast?_append, h, Option.some_or]

lemma getLast?_join {c : Char} {rest : String} (base : String) (h : rest.toList.getLast? = some c) :
    (Path.join base rest).toList.getLast? = some c := by
  unfold Path.join
  split_ifs
  · exact h
  · exact getLast?_append h
  · exact getLast?_append h

/-- The name of an asset ends otherwise than that of an executable does, so neither is ever taken
for the other. -/
theorem reach_assetName_ne (p : Platform) (files : Files) (version base base' : String) :
    files.reach (Path.join base (p.assetName version)) ≠
      files.reach (Path.join base' p.executable) := by
  intro heq
  have hends : ∃ c c', (p.assetName version).toList.getLast? = some c ∧
      p.executable.toList.getLast? = some c' ∧ c ≠ c' ∧ c ∉ ['/', '.'] ∧ c' ∉ ['/', '.'] := by
    rcases p with ⟨_ | _ | _ | d, architecture⟩
    · exact ⟨'p', 'e', getLast?_append (by decide : "zip".toList.getLast? = some 'p'),
        (by decide : (linterName ++ ".exe").toList.getLast? = some 'e'), by decide⟩
    all_goals
      exact ⟨'z', 't', getLast?_append (by decide : "tar.gz".toList.getLast? = some 'z'),
        (by decide : linterName.toList.getLast? = some 't'), by decide⟩
  obtain ⟨c, c', hc, hc', hne, hname, hname'⟩ := hends
  obtain ⟨front, name, hreach, hlast⟩ := files.exists_reach
    (getLast?_join base hc) (by grind) (by grind)
  obtain ⟨front', name', hreach', hlast'⟩ := files.exists_reach
    (getLast?_join base' hc') (by grind) (by grind)
  rw [hreach, hreach'] at heq
  obtain rfl : name = name' := by simpa using (List.append_inj' heq rfl).2
  exact hne (Option.some.inj (hlast.symm.trans hlast'))

end Platform

namespace Release

variable {release : Release} {name : String} {a : Asset} {e : InstallError}

theorem select_eq_ok (h : release.select name = .ok a) :
    release.assets.filter (·.name = name) = [a] := by
  unfold select at h
  split at h
  · next hfound => rw [hfound, Except.ok.inj h]
  · cases h

theorem select_eq_error (h : release.select name = .error e) :
    (∀ a, release.assets.filter (·.name = name) ≠ [a]) ∧
      ∀ missing, e ≠ .missingExecutable missing := by
  unfold select at h
  split at h
  · cases h
  · next hne =>
    obtain rfl := Except.error.inj h
    exact ⟨hne, by simp⟩

end Release

namespace Installer

open Activity

variable {φ : Type} (i : Installer φ)

/-- The installation is for a platform and an asset: the only one of its name in the latest
release. -/
def Chooses (p : Platform) (a : Asset) : Prop :=
  i.platform = .ok p ∧ ∃ release version, i.client.latest = .ok release ∧
    release.version? = some version ∧ release.assets.filter (·.name = p.assetName version) = [a]

/-- Where an asset is downloaded to. -/
def archive (p : Platform) (a : Asset) : String := Path.join (i.tempDirectory p) a.name

variable {i} {p p' : Platform} {a a' : Asset} {files : Files}

theorem Chooses.unique (h : i.Chooses p a) (h' : i.Chooses p' a') : p = p' ∧ a = a' := by
  obtain ⟨hp, release, version, hrelease, hversion, ha⟩ := h
  obtain ⟨hp', release', version', hrelease', hversion', ha'⟩ := h'
  obtain rfl := Except.ok.inj (hp.symm.trans hp')
  obtain rfl := Except.ok.inj (hrelease.symm.trans hrelease')
  obtain rfl := Option.some.inj (hversion.symm.trans hversion')
  exact ⟨rfl, (List.cons.inj (ha.symm.trans ha')).1⟩

lemma Chooses.name (h : i.Chooses p a) : ∃ version, a.name = p.assetName version := by
  obtain ⟨-, release, version, -, -, ha⟩ := h
  have hmem : a ∈ release.assets.filter (·.name = p.assetName version) := by simp [ha]
  exact ⟨version, by simpa using (List.mem_filter.1 hmem).2⟩

theorem Chooses.apart (h : i.Chooses p a) (files : Files) :
    files.reach (i.archive p a) ≠ files.reach (i.target p) := by
  obtain ⟨version, hname⟩ := h.name
  rw [archive, hname]
  exact p.reach_assetName_ne files version _ _

lemma not_chooses_of_unversioned {release : Release} (hlatest : i.client.latest = .ok release)
    (hversion : release.version? = none) (p : Platform) (a : Asset) : ¬ i.Chooses p a := by
  rintro ⟨-, release', version, hlatest', hversion', -⟩
  obtain rfl := Except.ok.inj (hlatest.symm.trans hlatest')
  cases hversion.symm.trans hversion'

/-- An asset that is chosen is the only one of its name. -/
lemma not_chooses_of_select {release : Release} {version : String} {e : InstallError}
    (hplatform : i.platform = .ok p) (hlatest : i.client.latest = .ok release)
    (hversion : release.version? = some version)
    (hselect : release.select (p.assetName version) = .error e) (p' : Platform) (a : Asset) :
    ¬ i.Chooses p' a := by
  rintro ⟨hplatform', release', version', hlatest', hversion', ha⟩
  obtain rfl := Except.ok.inj (hplatform.symm.trans hplatform')
  obtain rfl := Except.ok.inj (hlatest.symm.trans hlatest')
  obtain rfl := Option.some.inj (hversion.symm.trans hversion')
  exact (Release.select_eq_error hselect).1 a ha

lemma platform_ne_missing {e : InstallError} (h : i.platform = .error e) (name : String) :
    e ≠ .missingExecutable name := by
  unfold platform at h
  split at h
  · cases h
  · exact Platform.error_ne_missing h name

variable [Fraction φ]

/-- The steps up to looking up the release. -/
def looking : Journal φ :=
  [.status "Getting latest release meta", .stage .fetchingMetadata, .stage .resolvingPlatform,
    .stage .idle]

/-- The steps up to opening an asset. -/
def opening (a : Asset) : Journal φ :=
  .opened a :: .status ("Downloading " ++ a.name) :: .stage .downloading :: .asked false ::
    .fraction metadataShare :: looking

/-- The steps that start unpacking for a platform. -/
def starting (i : Installer φ) (p : Platform) : Journal φ :=
  [.status ("Decompressing to " ++ i.target p), .stage .decompressing]

lemma stage?_opening (a : Asset) : (opening a : Journal φ).stage? = some .downloading := rfl

lemma downloaded_opening (a : Asset) {steps : Journal φ} (h : steps.Quiet) :
    (steps ++ opening a).downloaded = steps.received := by
  rw [h.downloaded_append (stage?_opening a)]
  rfl

omit [Fraction φ] in
lemma stage?_starting (i : Installer φ) (p : Platform) (j : Journal φ) :
    Journal.stage? (i.starting p ++ j) = some .decompressing := by
  simp [starting, Journal.stage?, Journal.stages]

/-- How the stages go from the files at the start to a result and a world. -/
inductive Course (i : Installer φ) (files : Files) :
    Except InstallError InstallOutcome → World φ → Prop
  | unresolved {e : InstallError} (unresolved : i.platform = .error e) :
    Course i files (.error e) ⟨files, [.stage .resolvingPlatform, .stage .idle]⟩
  | unlisted {p : Platform} {e : InstallError} (resolved : i.platform = .ok p)
    (unlisted : i.client.latest = .error e) : Course i files (.error e) ⟨files, looking⟩
  | declined : Course i files (.ok (.cancelled none))
    ⟨files, .stage .cancelled :: .asked true :: .fraction metadataShare :: looking⟩
  | unfit {e : InstallError} (unfit : ∀ p a, ¬ i.Chooses p a)
    (not_missing : ∀ name, e ≠ .missingExecutable name) :
    Course i files (.error e) ⟨files, .asked false :: .fraction metadataShare :: looking⟩
  | undelivered {p : Platform} {a : Asset} {e : InstallError} {fs : Files} {steps : Journal φ}
    (chooses : i.Chooses p a)
    (downloads : i.Downloads a (i.archive p a) files fs (.error e) steps) :
    Course i files (.error e) ⟨fs, steps ++ opening a⟩
  | interrupted {p : Platform} {a : Asset} {n : Nat} {fs : Files} {steps : Journal φ}
    (chooses : i.Chooses p a)
    (downloads : i.Downloads a (i.archive p a) files fs (.ok (.cancelled n)) steps) :
    Course i files (.ok (.cancelled (some (i.archive p a))))
      ⟨fs, .stage .cancelled :: (steps ++ opening a)⟩
  | delivered {p : Platform} {a : Asset} {n : Nat} {fs fs' : Files} {steps more : Journal φ}
    {r : Except InstallError InstallOutcome} (chooses : i.Chooses p a)
    (downloads : i.Downloads a (i.archive p a) files fs (.ok (.completed n)) steps)
    (unpacks : i.Unpacks p (i.archive p a) steps.received fs fs' r more) :
    Course i files r ⟨fs', more ++ (i.starting p ++ (steps ++ opening a))⟩

variable {r : Except InstallError InstallOutcome} {w : World φ}

theorem stages_ends (h : i.stages.Ends ⟨files, [.stage .idle]⟩ r w) : i.Course files r w := by
  unfold stages at h
  rw [ends_note_bind] at h
  rcases h.bind with ⟨e, hlift, rfl⟩ | ⟨p, u, hlift, h⟩
  · obtain ⟨hplatform, rfl⟩ := ends_liftError_error.1 hlift
    exact .unresolved hplatform
  obtain ⟨hplatform, rfl⟩ := ends_liftError_ok.1 hlift
  rw [ends_note_bind, ends_note_bind] at h
  rcases h.bind with ⟨e, hlift, rfl⟩ | ⟨release, u, hlift, h⟩
  · obtain ⟨hlatest, rfl⟩ := ends_liftError_error.1 hlift
    exact .unlisted hplatform hlatest
  obtain ⟨hlatest, rfl⟩ := ends_liftError_ok.1 hlift
  rw [ends_note_bind, ends_ask_bind] at h
  cases hstop : i.listener _ with
  | true =>
    rw [hstop, if_pos rfl, cancel, ends_note_bind] at h
    obtain ⟨rfl, rfl⟩ := ends_pure.1 h
    exact .declined
  | false =>
  rw [hstop, if_neg (by decide)] at h
  rcases hversion : release.version? with _ | version
  · rw [hversion] at h
    obtain ⟨rfl, rfl⟩ := ends_throw.1 h
    exact .unfit (not_chooses_of_unversioned hlatest hversion) (by simp)
  rw [hversion] at h
  dsimp only at h
  rcases h.bind with ⟨e, hlift, rfl⟩ | ⟨a, u, hlift, h⟩
  · obtain ⟨hselect, rfl⟩ := ends_liftError_error.1 hlift
    exact .unfit (not_chooses_of_select hplatform hlatest hversion hselect)
      (Release.select_eq_error hselect).2
  obtain ⟨hselect, rfl⟩ := ends_liftError_ok.1 hlift
  have hchooses : i.Chooses p a :=
    ⟨hplatform, release, version, hlatest, hversion, Release.select_eq_ok hselect⟩
  rw [ends_note_bind, ends_note_bind] at h
  rcases h.bind with ⟨e, hdownload, rfl⟩ | ⟨outcome, u, hdownload, h⟩
  · obtain ⟨steps, hjournal, hdownloads⟩ := download_ends hdownload
    obtain ⟨fs, journal⟩ := w
    obtain rfl : journal = _ := hjournal
    exact .undelivered hchooses hdownloads
  obtain ⟨steps, hjournal, hdownloads⟩ := download_ends hdownload
  obtain ⟨fs, journal⟩ := u
  obtain rfl : journal = _ := hjournal
  cases outcome with
  | cancelled n =>
    dsimp only at h
    rw [cancel, ends_note_bind] at h
    obtain ⟨rfl, rfl⟩ := ends_pure.1 h
    exact .interrupted hchooses hdownloads
  | completed n =>
    have hhere : fs.here = files.here := hdownloads.evolves.here
    have hreach : ∀ path, fs.reach path = files.reach path := fun path => Files.reach_congr hhere
    obtain ⟨source, mode, -, hplace, hnode, -⟩ := hdownloads.filled _ rfl
    obtain ⟨more, hjournal, hunpacks⟩ := unpack_ends h (by rw [hreach]; exact hplace)
      (by rw [hreach]; exact hnode) (by rw [hreach, hreach]; exact hchooses.apart files)
    obtain ⟨fs', journal⟩ := w
    obtain rfl : journal = _ := hjournal
    exact .delivered hchooses hdownloads hunpacks

/-- A run takes the course of its stages, and reports that it failed where these end with an
error. -/
theorem run_ends (h : i.run.Ends ⟨files, []⟩ r w) :
    (∃ outcome, r = .ok outcome ∧ i.Course files (.ok outcome) w) ∨
      ∃ e u, r = .error e ∧ i.Course files (.error e) u ∧ w = u.noted (.stage .failed) := by
  unfold run at h
  rw [ends_note_bind] at h
  rcases ends_tryCatch.1 h with ⟨outcome, hstages, rfl⟩ | ⟨e, u, hstages, h⟩
  · exact .inl ⟨outcome, rfl, stages_ends hstages⟩
  · rw [ends_note_bind] at h
    obtain ⟨rfl, rfl⟩ := ends_throw.1 h
    exact .inr ⟨e, u, rfl, stages_ends hstages, rfl⟩

end Installer
end Mend
