import Mend.Proofs.Install.Footprints
import Mend.Proofs.Install.Outcome

/-! Where an installation may leave traces. A download whose name is the name of a file stays in the
directory for downloads, and all else in the destination. -/
namespace Mend

open Change

namespace Platform

variable (p : Platform) (version : String)

lemma head?_assetName : (p.assetName version).toList.head? = some 'g' := by
  have hhead : linterName.toList.head? = some 'g' := by decide
  simp [assetName, hhead]

lemma getLast?_assetName :
    ∃ c, (p.assetName version).toList.getLast? = some c ∧ c ≠ '/' ∧ c ≠ '.' := by
  have hsuffix : ∃ c, p.format.suffix.toList.getLast? = some c ∧ c ≠ '/' ∧ c ≠ '.' := by
    cases p.format with
    | zip => exact ⟨'p', by decide⟩
    | tarGz => exact ⟨'z', by decide⟩
  obtain ⟨c, hc, hslash, hdot⟩ := hsuffix
  exact ⟨c, getLast?_append hc, hslash, hdot⟩

lemma isName_executable : Path.IsName p.executable := by
  have hplain : Path.IsName linterName := ⟨by decide, 'g', by decide, by decide⟩
  have hsuffix : Path.IsName (linterName ++ ".exe") := ⟨by decide, 'g', by decide, by decide⟩
  unfold executable
  split
  · exact hsuffix
  · exact hplain

end Platform

/-- The asset is kept where it is downloaded to: its name has no slash, or it names a directory that
cannot be made. -/
def Asset.Stays (a : Asset) : Prop :=
  '/' ∈ a.name.toList → ∃ piece ∈ Path.parent a.name, '\x00' ∈ piece.toList

namespace Installer

open Activity

variable {φ : Type} {i : Installer φ} {files : Files} {p : Platform} {a : Asset}

/-- The places whose files an installation may touch: the download right below the directory for
downloads, and right below the destination the executable and what is staged for it. -/
def ownFiles (i : Installer φ) (p : Platform) (a : Asset) (files : Files) : Set Place :=
  {q | q = files.reach (i.tempDirectory p) ++ [a.name] ∨
    q = files.reach i.destination ++ [p.executable] ∨
    ∃ fs : Files, q = files.reach i.destination ++ [fs.freshName]}

/-- The places where an installation may make directories: these two, and those on the way to
them. -/
def ownDirectories (i : Installer φ) (p : Platform) (files : Files) : Set Place :=
  {q | q ∈ files.lineage (i.tempDirectory p) ∨ q ∈ files.lineage i.destination}

/-- A change that is the installation's own business. -/
def Confines (i : Installer φ) (files : Files) (c : Change) : Prop :=
  ∃ p a, i.Chooses p a ∧ c.Within (i.ownFiles p a files) (i.ownDirectories p files)

lemma obeys_liftError {α : Type} {P : Change → Prop} {Q : α → Prop} {x : Except InstallError α}
    (h : ∀ a, x = .ok a → Q a) : Obeys files P (liftError x : Activity φ α) Q := by
  cases x with
  | error e => exact obeys_throw e
  | ok a => exact obeys_pure (h a rfl)

lemma obeys_cancel {P : Change → Prop} (download? : Option String) :
    Obeys files P (cancel download? : Activity φ InstallOutcome) fun _ => True := by
  apply obeys_note_bind (by simp)
  exact obeys_pure trivial

variable {touched made : Set Place} {archive : String}

lemma obeys_makeRunnable {limits : Limits} {path : String} (h : files.reach path ∈ touched) :
    Obeys files (Within touched made) (makeRunnable limits path : Activity φ Unit)
      fun _ => True := by
  have hgrant : Obeys files (Within touched made) (grantRunning limits path : Activity φ Unit)
      fun _ => True := by
    apply (obeys_place path).bind
    rintro _ rfl
    apply obeys_get_bind
    intro w _
    split
    · split
      · exact obeys_pure trivial
      · exact obeys_change (within_of_files rfl h)
    · exact obeys_throw _
  exact hgrant.tryCatch fun _ => obeys_throw _

variable [Fraction φ]

/-- What follows once there is a directory to download to. -/
lemma obeys_store (source : Source) (htouched : files.reach archive ∈ touched) :
    Obeys files (Within touched made) (do
      let p ← place archive
      change i.host.limits archive (.create p Files.plainMode)
      copyTo i.host.limits (i.plan downloadStretch a.size) source archive p) fun _ => True := by
  apply (obeys_place archive).bind
  rintro _ rfl
  apply (obeys_change (within_of_files rfl htouched)).bind
  intro _ _
  exact obeys_copyTo htouched

theorem obeys_download (hmade : ∀ q ∈ files.wayTo archive, q ∈ made)
    (htouched : files.reach archive ∈ touched) :
    Obeys files (Within touched made) (i.download a archive) fun _ => True := by
  apply obeys_note_bind (by simp)
  apply (obeys_liftError (Q := fun _ => True) fun _ _ => trivial).bind
  intro source _
  apply (obeys_makeParent hmade).bind
  intro _ _
  exact obeys_store source htouched

/-- Nothing is downloaded to a directory that cannot be made. -/
lemma obeys_download_of_zeroByte {P : Change → Prop} {Q : CopyOutcome → Prop}
    (h : ∃ piece ∈ Path.parent archive, '\x00' ∈ piece.toList) :
    Obeys files P (i.download a archive) Q := by
  apply obeys_note_bind (by simp)
  apply (obeys_liftError (Q := fun _ => True) fun _ _ => trivial).bind
  intro source _
  apply (obeys_makeParent_of_zeroByte (Q := fun _ => False) h).bind
  exact fun _ hfalse => hfalse.elim

theorem obeys_unpack (hmade : ∀ q ∈ files.wayTo (i.target p), q ∈ made)
    (harchive : files.reach archive ∈ touched) (htarget : files.reach (i.target p) ∈ touched)
    (hstaged : ∀ fs : Files, files.directory (i.target p) ++ [fs.freshName] ∈ touched) :
    Obeys files (Within touched made) (i.unpack p archive) fun _ => True := by
  unfold unpack
  dsimp only
  apply obeys_note_bind (by simp)
  apply obeys_note_bind (by simp)
  apply (obeys_extract hmade htarget hstaged).bind
  intro outcome _
  cases outcome with
  | cancelled n => exact obeys_cancel _
  | completed n =>
    have hremove : Obeys files (Within touched made)
        (do change i.host.limits archive (.remove (← place archive)) : Activity φ Unit)
        fun _ => True := by
      apply (obeys_place archive).bind
      rintro _ rfl
      exact obeys_change (within_of_files rfl harchive)
    apply (hremove.tryCatch fun _ => obeys_pure trivial).bind
    intro _ _
    apply obeys_note_bind (by simp)
    apply (obeys_makeRunnable htarget).bind
    intro _ _
    apply obeys_note_bind (by simp)
    apply obeys_note_bind (by simp)
    exact obeys_pure trivial

/-- An installation does to files what downloading and unpacking what it chooses does. -/
theorem obeys_run {P : Change → Prop} {D : Asset → Prop}
    (hdownload : ∀ p a, i.Chooses p a → Obeys files P (i.download a (i.archive p a)) fun _ => D a)
    (hunpack : ∀ p a, i.Chooses p a → D a →
      Obeys files P (i.unpack p (i.archive p a)) fun _ => True) :
    Obeys files P i.run fun _ => True := by
  have hstages : Obeys files P i.stages fun _ => True := by
    unfold stages
    apply obeys_note_bind (by simp)
    apply (obeys_liftError (Q := fun p => i.platform = .ok p) fun _ h => h).bind
    intro p hp
    apply obeys_note_bind (by simp)
    apply obeys_note_bind (by simp)
    apply (obeys_liftError (Q := fun l => i.client.latest = .ok l) fun _ h => h).bind
    intro release hrelease
    apply obeys_note_bind (by simp)
    apply (obeys_ask i.listener).bind
    intro stop _
    split
    · exact obeys_cancel none
    split
    · exact obeys_throw _
    next version hversion =>
    apply (obeys_liftError (Q := fun a => i.Chooses p a) ?_).bind
    · intro a hchooses
      apply obeys_note_bind (by simp)
      apply obeys_note_bind (by simp)
      apply (hdownload p a hchooses).bind
      intro outcome hdone
      cases outcome with
      | cancelled n => exact obeys_cancel _
      | completed n => exact hunpack p a hchooses hdone
    · intro a hselect
      exact ⟨hp, release, version, hrelease, hversion, Release.select_eq_ok hselect⟩
  unfold run
  apply obeys_note_bind (by simp)
  apply hstages.tryCatch
  intro e
  apply obeys_note_bind (by simp)
  exact obeys_throw e

omit [Fraction φ] in
lemma Chooses.parent_archive (h : i.Chooses p a) :
    Path.parent (i.archive p a) = Path.components (i.tempDirectory p) ++ Path.parent a.name := by
  obtain ⟨version, hname⟩ := h.name
  have hhead : a.name.toList.head? = some 'g' := hname ▸ p.head?_assetName version
  exact Path.parent_join _ hhead (by decide) (by decide)

omit [Fraction φ] in
lemma Chooses.start_archive (h : i.Chooses p a) :
    files.start (i.archive p a) = files.start (i.tempDirectory p) := by
  obtain ⟨version, hname⟩ := h.name
  have hhead : a.name.toList.head? = some 'g' := hname ▸ p.head?_assetName version
  exact files.start_join _ (by simp [Path.isAbsolute, hhead])

omit [Fraction φ] in
/-- A chosen asset without a slash in its name has the name of a file. -/
lemma Chooses.isName (h : i.Chooses p a) (hslash : '/' ∉ a.name.toList) : Path.IsName a.name := by
  obtain ⟨version, hname⟩ := h.name
  exact ⟨hslash, 'g', hname ▸ p.head?_assetName version, by decide⟩

/-- The traces of an installation are confined if what it chooses stays where downloads go. -/
theorem run_confined {r : Except InstallError InstallOutcome} {w : World φ}
    (hstays : ∀ p a, i.Chooses p a → a.Stays) (hends : i.run.Ends ⟨files, []⟩ r w) {c : Change}
    (hc : .changed c ∈ w.journal) : i.Confines files c := by
  have hdownload : ∀ p a, i.Chooses p a → Obeys files (i.Confines files)
      (i.download a (i.archive p a)) fun _ => '/' ∉ a.name.toList := by
    intro p a hchooses
    by_cases hslash : '/' ∈ a.name.toList
    · apply obeys_download_of_zeroByte
      obtain ⟨piece, hpiece, hzero⟩ := hstays p a hchooses hslash
      exact ⟨piece, hchooses.parent_archive ▸ List.mem_append_right _ hpiece, hzero⟩
    · have hname := hchooses.isName hslash
      have hreach : files.reach (i.archive p a) ∈ i.ownFiles p a files :=
        .inl (files.reach_join_name _ hname)
      have hway : ∀ q ∈ files.wayTo (i.archive p a), q ∈ i.ownDirectories p files := by
        intro q hq
        exact .inl (files.wayTo_join_name _ hname ▸ hq)
      apply (obeys_download hway hreach).mono
      · exact fun c hc => ⟨p, a, hchooses, hc⟩
      · exact fun _ _ => hslash
  have hunpack : ∀ p a, i.Chooses p a → '/' ∉ a.name.toList →
      Obeys files (i.Confines files) (i.unpack p (i.archive p a)) fun _ => True := by
    intro p a hchooses hslash
    have harchive : files.reach (i.archive p a) ∈ i.ownFiles p a files :=
      .inl (files.reach_join_name _ (hchooses.isName hslash))
    have htarget : files.reach (i.target p) ∈ i.ownFiles p a files :=
      .inr (.inl (files.reach_join_name _ p.isName_executable))
    have hway : ∀ q ∈ files.wayTo (i.target p), q ∈ i.ownDirectories p files := by
      intro q hq
      exact .inr (files.wayTo_join_name _ p.isName_executable ▸ hq)
    have hstaged : ∀ fs : Files,
        files.directory (i.target p) ++ [fs.freshName] ∈ i.ownFiles p a files := by
      intro fs
      refine .inr (.inr ⟨fs, ?_⟩)
      rw [target, files.directory_join_name _ p.isName_executable]
    apply (obeys_unpack hway harchive htarget hstaged).mono
    · exact fun c hc => ⟨p, a, hchooses, hc⟩
    · exact fun _ _ => trivial
  obtain ⟨⟨-, steps, hsteps, -, hconfines⟩, -⟩ :=
    obeys_run hdownload hunpack ⟨files, []⟩ r w rfl hends
  rw [hsteps, List.append_nil] at hc
  exact hconfines c hc

/-- The name of an asset asks for a directory: all those on the way to the directory for downloads
are there, but not the first one of the name. -/
structure Asks (i : Installer φ) (p : Platform) (a : Asset) (files : Files) (name : String) :
    Prop where
  parent : ∃ more, Path.parent a.name = name :: more
  step : ∀ q : Place, q.step name = q ++ [name]
  zeroByte : ∀ piece ∈ Path.parent (i.archive p a), '\x00' ∉ piece.toList
  there : ∀ q ∈ files.start (i.tempDirectory p) :: files.lineage (i.tempDirectory p),
    files.node? q = some .directory
  absent : files.node? (files.reach (i.tempDirectory p) ++ [name]) = none

variable {w v : World φ} {name : String}

omit [Fraction φ] in
lemma makeParent_tells {r : Except InstallError Place} (hchooses : i.Chooses p a)
    (hasks : i.Asks p a w.files name) (hends : (makeParent {} (i.archive p a)).Ends w r v) :
    .changed (.makeDirectory (w.files.reach (i.tempDirectory p) ++ [name])) ∈ v.journal := by
  obtain ⟨more, hparent⟩ := hasks.parent
  have hpieces : Path.parent (i.archive p a) =
      Path.components (i.tempDirectory p) ++ name :: more := by
    rw [hchooses.parent_archive, hparent]
  have hreach : (Path.components (i.tempDirectory p)).foldl Place.step
      (w.files.start (i.tempDirectory p)) = w.files.reach (i.tempDirectory p) :=
    Files.foldl_step_components _ _
  have hzero : ¬ (Path.parent (i.archive p a)).any ('\x00' ∈ ·.toList) = true := by
    simpa using hasks.zeroByte
  unfold makeParent at hends
  dsimp only at hends
  rw [if_neg hzero, ends_get_bind, hpieces, hchooses.start_archive] at hends
  have hmade := makeDirectories_tells hasks.there (hasks.step _) (hreach ▸ hasks.absent) hends
  rw [hreach] at hmade
  exact hmade

theorem download_tells {r : Except InstallError CopyOutcome} {source : Source}
    (hlimits : i.host.limits = {}) (hchooses : i.Chooses p a) (hasks : i.Asks p a w.files name)
    (hfetch : i.client.fetch a = .ok source)
    (hends : (i.download a (i.archive p a)).Ends w r v) :
    .changed (.makeDirectory (w.files.reach (i.tempDirectory p) ++ [name])) ∈ v.journal := by
  rw [download, ends_note_bind, ends_bind_of_ok (ends_liftError_ok.2 ⟨hfetch, rfl⟩)] at hends
  rcases hends.bind with ⟨e, hmake, -⟩ | ⟨directory, u, hmake, hrest⟩ <;> rw [hlimits] at hmake
  · exact makeParent_tells (w := w.noted (.opened a)) hchooses hasks hmake
  · have hmade := makeParent_tells (w := w.noted (.opened a)) hchooses hasks hmake
    apply Obeys.told (P := Within Set.univ Set.univ) (Q := fun _ => True) _ rfl hrest hmade
    exact obeys_store source trivial

/-- A run that nothing stops makes the directory. -/
theorem run_tells_directory {r : Except InstallError InstallOutcome} {source : Source}
    (hlimits : i.host.limits = {}) (hchooses : i.Chooses p a) (hasks : i.Asks p a files name)
    (hlistener : ∀ j, i.listener j = false) (hfetch : i.client.fetch a = .ok source)
    (hends : i.run.Ends ⟨files, []⟩ r w) :
    .changed (.makeDirectory (files.reach (i.tempDirectory p) ++ [name])) ∈ w.journal := by
  have hstages : ∀ r u, i.stages.Ends ⟨files, [.stage .idle]⟩ r u →
      .changed (.makeDirectory (files.reach (i.tempDirectory p) ++ [name])) ∈ u.journal := by
    intro r u h
    have hfound := hchooses
    obtain ⟨hplatform, release, version, hlatest, hversion, hfilter⟩ := hfound
    have hselect : release.select (p.assetName version) = .ok a := by
      rw [Release.select, hfilter]
    unfold stages at h
    rw [ends_note_bind, ends_bind_of_ok (ends_liftError_ok.2 ⟨hplatform, rfl⟩), ends_note_bind,
      ends_note_bind, ends_bind_of_ok (ends_liftError_ok.2 ⟨hlatest, rfl⟩), ends_note_bind,
      ends_ask_bind, hlistener, if_neg (by decide), hversion] at h
    dsimp only at h
    rw [ends_bind_of_ok (ends_liftError_ok.2 ⟨hselect, rfl⟩), ends_note_bind,
      ends_note_bind] at h
    rcases h.bind with ⟨e, hdownload, -⟩ | ⟨outcome, u', hdownload, hrest⟩
    · have hmade := download_tells hlimits hchooses hasks hfetch hdownload
      exact hmade
    · have hmade := download_tells hlimits hchooses hasks hfetch hdownload
      cases outcome with
      | cancelled n => exact (obeys_cancel (P := fun _ => True) _).told rfl hrest hmade
      | completed n =>
        have hunpack : Obeys u'.files (Within Set.univ Set.univ) (i.unpack p (i.archive p a)) _ :=
          obeys_unpack (fun _ _ => trivial) trivial trivial fun _ => trivial
        exact hunpack.told rfl hrest hmade
  unfold run at hends
  rw [ends_note_bind] at hends
  rcases ends_tryCatch.1 hends with ⟨outcome, hends, -⟩ | ⟨e, u, hends, hrest⟩
  · exact hstages _ _ hends
  · have hmade := hstages _ _ hends
    rw [ends_note_bind] at hrest
    obtain ⟨-, rfl⟩ := ends_throw.1 hrest
    exact List.mem_cons_of_mem _ hmade

/-- Installs a release to `bin` by way of `tmp`, from empty archives. -/
def byTmp (p : Platform) (release : Release) : Installer φ where
  client := ⟨.ok release, fun _ => .ok ⟨[], [], none⟩⟩
  settings := { platform? := some p, tempDirectory? := some "tmp" }
  host := { system := "linux", architecture := "x86_64", tempDirectory := "/tmp" }
  listener := fun _ => false
  destination := "bin"

/-- Files with the directory `tmp` and nothing else. -/
def onlyTmp : Files := ⟨[(["tmp"], .directory)], []⟩

omit [Fraction φ] in
lemma not_confines_byTmp (release : Release) (name : String) :
    ¬ (byTmp p release : Installer φ).Confines onlyTmp (.makeDirectory ["tmp", name]) := by
  rintro ⟨p', a', -, hwithin⟩
  have hown := hwithin.directories ["tmp", name] (by simp [Change.directories])
  have htmp : onlyTmp.lineage "tmp" = [["tmp"]] := by decide
  have hbin : onlyTmp.lineage "bin" = [["bin"]] := by decide
  have hmem : ["tmp", name] ∈ onlyTmp.lineage "tmp" ∨ ["tmp", name] ∈ onlyTmp.lineage "bin" := hown
  simp [htmp, hbin] at hmem

omit [Fraction φ] in
/-- An asset that does not stay asks for a directory in `tmp`. -/
lemma exists_asks_byTmp {release : Release} (hchooses : (byTmp p release : Installer φ).Chooses p a)
    (hstrays : ¬ a.Stays) : ∃ name, (byTmp p release : Installer φ).Asks p a onlyTmp name := by
  obtain ⟨version, hname⟩ := hchooses.name
  simp only [Asset.Stays, Classical.not_imp, not_exists, not_and] at hstrays
  obtain ⟨hslash, hzero⟩ := hstrays
  have hhead : a.name.toList.head? = some 'g' := hname ▸ p.head?_assetName version
  obtain ⟨c, hlast, hslash', hdot'⟩ := p.getLast?_assetName version
  obtain ⟨name, more, hparent, hg⟩ := Path.exists_parent hslash hhead (by decide) (by decide)
    (hname ▸ hlast) hslash' hdot'
  have hne : ∀ text : String, text.toList.head? ≠ some 'g' → name ≠ text := by
    rintro _ htext rfl
    exact htext hg
  have hthere : ∀ q ∈ onlyTmp.start "tmp" :: onlyTmp.lineage "tmp",
      onlyTmp.node? q = some .directory := by decide
  refine ⟨name, ⟨more, hparent⟩, fun q => ?_, ?_, hthere, ?_⟩
  · exact Place.step_name (hne _ (by decide)) (hne _ (by decide)) (hne _ (by decide))
  · have htmp : Path.components "tmp" = ["tmp"] := by decide
    have hway : Path.parent ((byTmp p release : Installer φ).archive p a) =
        "tmp" :: Path.parent a.name := by
      rw [hchooses.parent_archive]
      exact congrArg (· ++ Path.parent a.name) htmp
    rw [hway, List.forall_mem_cons]
    exact ⟨by decide, hzero⟩
  · have hreach : onlyTmp.reach "tmp" = ["tmp"] := by decide
    have habsent : onlyTmp.node? (onlyTmp.reach "tmp" ++ [name]) = none := by
      rw [hreach]
      simp [onlyTmp, Files.node?]
    exact habsent

/-- An installation changes nothing without telling. Whatever the directories and the files, all
that is changed is confined, just when the release has no asset for the platform that strays from
the directory for downloads. -/
theorem run_confined_iff :
    (∀ (i : Installer φ) files r w, i.run.Ends ⟨files, []⟩ r w →
      Journal.replay files w.journal = .ok w.files) ∧
    ∀ (platform : Except InstallError Platform) (latest : Except InstallError Release),
      (∀ (i : Installer φ), i.platform = platform → i.client.latest = latest →
        ∀ files r w, i.run.Ends ⟨files, []⟩ r w →
          ∀ c, .changed c ∈ w.journal → i.Confines files c) ↔
      ∀ p release version a, platform = .ok p → latest = .ok release →
        release.version? = some version →
        release.assets.filter (·.name = p.assetName version) = [a] → a.Stays := by
  constructor
  · intro i files r w hends
    have hobeys : Obeys files (Within Set.univ Set.univ) i.run fun _ => True :=
      obeys_run (D := fun _ => True)
        (fun p a _ => obeys_download (fun _ _ => trivial) trivial)
        fun p a _ _ => obeys_unpack (fun _ _ => trivial) trivial trivial fun _ => trivial
    obtain ⟨⟨-, steps, hsteps, hreplay, -⟩, -⟩ := hobeys ⟨files, []⟩ r w rfl hends
    rw [hsteps, List.append_nil]
    exact hreplay
  intro platform latest
  constructor
  · intro hall p release version a hplatform hlatest hversion hfilter
    apply Classical.byContradiction
    intro hstrays
    have hchooses : (byTmp p release : Installer φ).Chooses p a :=
      ⟨rfl, release, version, rfl, hversion, hfilter⟩
    obtain ⟨name, hasks⟩ := exists_asks_byTmp hchooses hstrays
    obtain ⟨r, w, hends⟩ := exists_ends (byTmp p release : Installer φ).run ⟨onlyTmp, []⟩
    have hmade := run_tells_directory rfl hchooses hasks (fun _ => rfl) rfl hends
    have hreach : onlyTmp.reach "tmp" = ["tmp"] := by decide
    have hconfines := hall (byTmp p release) hplatform.symm hlatest.symm onlyTmp r w hends _ hmade
    exact not_confines_byTmp release name (hreach ▸ hconfines)
  · intro hstays i hplatform hlatest files r w hends c hc
    apply run_confined _ hends hc
    intro p a hchooses
    obtain ⟨hplatform', release, version, hlatest', hversion, hfilter⟩ := hchooses
    exact hstays p release version a (hplatform ▸ hplatform') (hlatest ▸ hlatest') hversion hfilter

/-- A release whose tag leads back out of every directory. -/
def escaping : Installer Float :=
  { sample "tmp" [] stopSecond with
    client := {
      latest := .ok ⟨"", "v/../../x", [⟨"golangci-lint-/../../x-linux-amd64.tar.gz", 0, "u"⟩]⟩
      fetch := fun _ => .ok ⟨[], [], none⟩ } }

/-- Its download is neither in `tmp` nor in `bin`. -/
theorem run_confined_escaping :
    ∃ r w, escaping.run.Ends ⟨⟨[], []⟩, []⟩ r w ∧
      r.toOption = some (.cancelled (some "tmp/golangci-lint-/../../x-linux-amd64.tar.gz")) ∧
      w.files.node? ["x-linux-amd64.tar.gz"] = some (.file [] Files.plainMode) ∧
      ∃ c, .changed c ∈ w.journal ∧ ¬ escaping.Confines ⟨[], []⟩ c := by
  have htold : ((escaping.run.run.run ⟨⟨[], []⟩, []⟩).run.2.journal.any fun s =>
      ["x-linux-amd64.tar.gz"] ∈ s.files) = true := by decide +kernel
  obtain ⟨s, hs, hmem⟩ := List.any_eq_true.1 htold
  refine ⟨_, _, ends_run _ _, by decide +kernel, by decide +kernel, ?_⟩
  obtain ⟨c, rfl, hc⟩ := Step.exists_change (by simpa using hmem)
  refine ⟨c, hs, ?_⟩
  rintro ⟨p, a, -, hwithin⟩
  have htmp : Files.reach ⟨[], []⟩ "tmp" = ["tmp"] := by decide
  have hbin : Files.reach ⟨[], []⟩ "bin" = ["bin"] := by decide
  have hown : ["x-linux-amd64.tar.gz"] = Files.reach ⟨[], []⟩ "tmp" ++ [a.name] ∨
      ["x-linux-amd64.tar.gz"] = Files.reach ⟨[], []⟩ "bin" ++ [p.executable] ∨
      ∃ fs : Files, ["x-linux-amd64.tar.gz"] = Files.reach ⟨[], []⟩ "bin" ++ [fs.freshName] :=
    hwithin.files _ hc
  simp [htmp, hbin] at hown

end Installer
end Mend
