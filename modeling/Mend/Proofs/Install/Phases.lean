import Mathlib.Tactic.SplitIfs
import Mend.Install.Latest
import Mend.Proofs.Install.Extraction

/-! Downloading an asset and unpacking it, each with all that it may come to. -/
namespace Mend

open Archive

namespace Installer

open Activity

variable {φ : Type} {i : Installer φ} {w v : World φ} {p : Platform} {a : Asset}
  {archive : String}

theorem ends_liftError_ok {α : Type} {x : Except InstallError α} {b : α} :
    (liftError x : Activity φ α).Ends w (.ok b) v ↔ x = .ok b ∧ v = w := by
  cases x <;> simp [liftError, eq_comm]

theorem ends_liftError_error {α : Type} {x : Except InstallError α} {e : InstallError} :
    (liftError x : Activity φ α).Ends w (.error e) v ↔ x = .error e ∧ v = w := by
  cases x <;> simp [liftError, eq_comm]

/-- What downloading an asset has come to. A download that ended without an error, also one that was
stopped, is a file with just what was read. -/
structure Downloads (i : Installer φ) (a : Asset) (archive : String) (fs fs' : Files)
    (r : Except InstallError CopyOutcome) (steps : Journal φ) : Prop where
  minds : steps.Minds i.host.limits r
  evolves : Files.Evolves [fs.reach archive] (fs.wayTo archive) fs fs'
  missing : ∀ n, r = .error (.missingExecutable n) →
    i.client.fetch a = .error (.missingExecutable n)
  filled : ∀ outcome, r = .ok outcome → ∃ source mode, i.client.fetch a = .ok source ∧
    fs'.place archive = .ok (fs.reach archive) ∧
    fs'.node? (fs.reach archive) = some (.file steps.received mode) ∧
    Fills i.host.limits source r steps

variable [Fraction φ]

theorem download_ends {r : Except InstallError CopyOutcome}
    (h : (i.download a archive).Ends w r v) :
    ∃ steps, v.journal = steps ++ .opened a :: w.journal ∧
      Downloads i a archive w.files v.files r steps := by
  rw [download, ends_note_bind] at h
  rcases h.bind with ⟨e, hlift, rfl⟩ | ⟨source, u, hlift, h⟩
  · obtain ⟨hfetch, rfl⟩ := ends_liftError_error.1 hlift
    refine ⟨[], rfl, .of_changes Journal.changes_nil e, .refl _, fun n hn => ?_, by simp⟩
    rw [hfetch, Except.error.inj hn]
  obtain ⟨hfetch, rfl⟩ := ends_liftError_ok.1 hlift
  rcases h.bind with ⟨e, hparent, rfl⟩ | ⟨directory, u, hparent, h⟩
  · obtain ⟨⟨steps, hjournal, hchanges⟩, hfiles, hmissing⟩ := makeParent_ends hparent
    exact ⟨steps, hjournal, .of_changes hchanges e,
      hfiles.mono (List.nil_subset _) (List.Subset.refl _),
      fun n hn => (hmissing n (by rw [Except.error.inj hn])).elim, by simp⟩
  obtain ⟨⟨before, hjournal, hbefore⟩, hfiles, -⟩ := makeParent_ends hparent
  replace hfiles := hfiles.mono (List.nil_subset [w.files.reach archive]) (List.Subset.refl _)
  have herror : ∀ e : InstallError, (∀ n, e ≠ .missingExecutable n) →
      Downloads i a archive w.files u.files (.error e) before := fun e he =>
    ⟨.of_changes hbefore e, hfiles, fun n hn => (he n (Except.error.inj hn)).elim,
      by simp⟩
  rcases h.bind with ⟨e, hplace, rfl⟩ | ⟨q, u', hplace, h⟩
  · obtain ⟨fault, -, rfl, rfl⟩ := ends_place_error.1 hplace
    exact ⟨before, hjournal, herror _ fun n => InstallError.ofFile_ne_missing _ _ _⟩
  obtain ⟨hplace, rfl⟩ := ends_place_ok.1 hplace
  obtain rfl : q = w.files.reach archive :=
    (Files.place_eq_ok hplace).trans (Files.reach_congr hfiles.here)
  rcases h.bind with ⟨e, hcreate, rfl⟩ | ⟨_, u', hcreate, h⟩
  · obtain ⟨fault, -, rfl, rfl⟩ := ends_change_error.1 hcreate
    exact ⟨before, hjournal, herror _ fun n => InstallError.ofFault_ne_missing _ _ _⟩
  obtain ⟨fs, hfs, rfl⟩ := ends_change_ok.1 hcreate
  obtain ⟨mode, hput, hmode⟩ := Files.change_create (Limits.change_eq_ok_iff.1 hfs).1
  obtain ⟨steps, kept, hfills, hjournal', hwritten, hkept⟩ := copyTo_ends hput.at h
  have hopened : Journal.Changes
      (.changed (.create (w.files.reach archive) Files.plainMode) :: before) := by
    simp [Step.IsChange, hbefore]
  obtain ⟨hfills', hreceived⟩ := hfills.append hopened
  have hwhole := hput.trans hwritten
  have hchange := hwhole.evolves (by
    rcases hmode with ⟨hnone, -⟩ | ⟨content, hcontent⟩ <;> simp [*])
  have hevolves := hfiles.trans (hchange.mono (List.Subset.refl _) (List.nil_subset _))
  refine ⟨_, by simp [hjournal', hjournal], hfills'.minds, hevolves,
    fun n hn => (hfills.not_missing n hn).elim,
    fun outcome hr => ⟨source, mode, hfetch, ?_, ?_, hfills'⟩⟩
  · exact hchange.place hplace
  · rw [hreceived, ← hkept outcome hr]
    exact hwhole.at

omit [Fraction φ] in
lemma and_runBits (mode : Nat) : (mode ||| 0o755) &&& Files.runBits = Files.runBits := by
  apply Nat.eq_of_testBit_eq
  intro n
  have hbits : 0o755 &&& Files.runBits = Files.runBits := by decide
  have hbit := congrArg (fun m => Nat.testBit m n) hbits
  simp only [Nat.testBit_and, Nat.testBit_or] at hbit ⊢
  grind

variable {limits : Limits}

omit [Fraction φ] in
/-- A file that is there is made to run, whatever its mode, if its mode may be changed. -/
theorem grantRunning_ends {path : String} {q : Place} {content : List UInt8} {mode : Nat}
    {r : Except InstallError Unit} (h : (grantRunning limits path).Ends w r v)
    (hplace : w.files.place path = .ok q) (hq : w.files.node? q = some (.file content mode)) :
    r = .ok () ∧ (∃ steps, v.journal = steps ++ w.journal ∧ steps.Changes) ∧
      (∃ mode', mode' &&& Files.runBits = Files.runBits ∧
        w.files.Put v.files q (some (.file content mode'))) ∨
      (∃ e, r = .error e) ∧ v = w ∧ ¬ limits.Permits := by
  rw [grantRunning, ends_bind_of_ok (ends_place_ok.2 ⟨hplace, rfl⟩), ends_get_bind, hq] at h
  dsimp only at h
  split at h
  · next hmode =>
    obtain ⟨rfl, rfl⟩ := ends_pure.1 h
    exact .inl ⟨rfl, ⟨[], rfl, Journal.changes_nil⟩, mode, hmode, .refl hq⟩
  · obtain ⟨fs', hfs', hput⟩ := Files.change_setMode hq (mode ||| 0o755)
    cases r with
    | ok =>
      obtain ⟨fs, hfs, rfl⟩ := ends_change_ok.1 h
      obtain rfl := Except.ok.inj (hfs'.symm.trans (Limits.change_eq_ok_iff.1 hfs).1)
      exact .inl ⟨rfl, ⟨[_], rfl, by simp [Step.IsChange]⟩, _, and_runBits mode, hput⟩
    | error e =>
      obtain ⟨fault, hfault, -, rfl⟩ := ends_change_error.1 h
      exact .inr ⟨⟨e, rfl⟩, rfl, fun permits => by simp [permits.change hfs' rfl] at hfault⟩

omit [Fraction φ] in
theorem makeRunnable_ends {path : String} {q : Place} {content : List UInt8} {mode : Nat}
    {r : Except InstallError Unit} (h : (makeRunnable limits path).Ends w r v)
    (hplace : w.files.place path = .ok q) (hq : w.files.node? q = some (.file content mode)) :
    r = .ok () ∧ (∃ steps, v.journal = steps ++ w.journal ∧ steps.Changes) ∧
      (∃ mode', mode' &&& Files.runBits = Files.runBits ∧
        w.files.Put v.files q (some (.file content mode'))) ∨
      r = .error (.permissionDenied path) ∧ v = w ∧ ¬ limits.Permits := by
  rcases ends_tryCatch.1 h with ⟨_, hgrant, rfl⟩ | ⟨e, u, hgrant, hthrow⟩
  · rcases grantRunning_ends hgrant hplace hq with hgranted | ⟨⟨e, he⟩, -⟩
    · exact .inl hgranted
    · cases he
  · obtain ⟨rfl, rfl⟩ := ends_throw.1 hthrow
    rcases grantRunning_ends hgrant hplace hq with ⟨he, -⟩ | ⟨-, rfl, hforbids⟩
    · cases he
    · exact .inr ⟨rfl, rfl, hforbids⟩

omit [Fraction φ] in
/-- A file that is there is removed, if that may be done. -/
lemma tryRemove_ends {q : Place} {content : List UInt8} {mode : Nat} {r : Except InstallError Unit}
    (h : (tryCatch (do change limits archive (.remove (← place archive))) fun _ => return () :
      Activity φ Unit).Ends w r v)
    (hplace : w.files.place archive = .ok q) (hq : w.files.node? q = some (.file content mode)) :
    r = .ok () ∧ (∃ steps, v.journal = steps ++ w.journal ∧ steps.Changes) ∧
      ∃ n, w.files.Put v.files q n ∧ (limits.Permits → n = none) := by
  obtain ⟨fs', hfs', hput⟩ := Files.change_remove hq
  rcases ends_tryCatch.1 h with ⟨_, hremove, rfl⟩ | ⟨e, u, hremove, hpure⟩
  · rw [ends_bind_of_ok (ends_place_ok.2 ⟨hplace, rfl⟩)] at hremove
    obtain ⟨fs, hfs, rfl⟩ := ends_change_ok.1 hremove
    obtain rfl := Except.ok.inj (hfs'.symm.trans (Limits.change_eq_ok_iff.1 hfs).1)
    exact ⟨rfl, ⟨[_], rfl, by simp [Step.IsChange]⟩, none, hput, fun _ => rfl⟩
  · obtain ⟨rfl, rfl⟩ := ends_pure.1 hpure
    rw [ends_bind_of_ok (ends_place_ok.2 ⟨hplace, rfl⟩)] at hremove
    obtain ⟨fault, hfault, -, rfl⟩ := ends_change_error.1 hremove
    exact ⟨rfl, ⟨[], rfl, Journal.changes_nil⟩, _, .refl rfl,
      fun permits => by simp [permits.change hfs' rfl] at hfault⟩

/-- What finishing an installation has come to, with the archive at the place `q` and the target at
the place `t`: all that can go wrong is that a permission is missing. -/
inductive Finishes (limits : Limits) (target : String) (q t : Place) (content : List UInt8)
    (fs fs' : Files) : Except InstallError InstallOutcome → Journal φ → Prop
  | forbidden {removing : Journal φ} (removes : removing.Changes)
    (forbids : ¬ limits.Permits) : Finishes limits target q t content fs fs'
      (.error (.permissionDenied target)) (.stage .settingPermissions :: removing)
  | installed {mode : Nat} {removing permitting : Journal φ} (removes : removing.Changes)
    (permits : permitting.Changes) (evolves : Files.Evolves [q, t] [] fs fs')
    (gone : limits.Permits → fs'.node? q = none) (named : fs'.place target = .ok t)
    (there : fs'.node? t = some (.file content mode))
    (runnable : mode &&& Files.runBits = Files.runBits) :
    Finishes limits target q t content fs fs' (.ok (.installed target))
      (.fraction Fraction.one :: .stage .ready :: permitting ++
        .stage .settingPermissions :: removing)

lemma finish_ends {target : String} {q t : Place} {file content : List UInt8} {mode mode' : Nat}
    {r : Except InstallError InstallOutcome}
    (h : (do
      tryCatch (do change limits archive (.remove (← place archive))) fun _ => return ()
      note (.stage .settingPermissions)
      makeRunnable limits target
      note (.stage .ready)
      note (.fraction Fraction.one)
      return .installed target : Activity φ InstallOutcome).Ends w r v)
    (harchive : w.files.place archive = .ok q) (hq : w.files.node? q = some (.file file mode))
    (htarget : w.files.place target = .ok t) (ht : w.files.node? t = some (.file content mode'))
    (happart : q ≠ t) :
    ∃ steps, v.journal = steps ++ w.journal ∧
      Finishes limits target q t content w.files v.files r steps := by
  rcases h.bind with ⟨e, hremove, -⟩ | ⟨_, u, hremove, h⟩
  · cases (tryRemove_ends hremove harchive hq).1
  obtain ⟨-, ⟨removing, hjournal, hremoves⟩, n, hput, hgone⟩ :=
    tryRemove_ends hremove harchive hq
  rw [ends_note_bind] at h
  have hremoved := hput.evolves (by simp [hq])
  have htarget' : u.files.place target = .ok t := hremoved.place htarget
  have ht' : u.files.node? t = some (.file content mode') := (hput.away happart.symm).trans ht
  rcases h.bind with ⟨e, hrun, rfl⟩ | ⟨_, u', hrun, h⟩
  · rcases makeRunnable_ends hrun htarget' ht' with ⟨he, -⟩ | ⟨he, rfl, hforbids⟩
    · cases he
    · obtain rfl := Except.error.inj he
      exact ⟨_, by simp [hjournal], .forbidden hremoves hforbids⟩
  obtain ⟨-, ⟨permitting, hjournal', hpermits⟩, mode, hmode, hruns⟩ | ⟨he, -⟩ :=
    makeRunnable_ends hrun htarget' ht'
  · rw [ends_note_bind, ends_note_bind] at h
    obtain ⟨rfl, rfl⟩ := ends_pure.1 h
    have hpermitted := hruns.evolves (by simp [ht'])
    refine ⟨_, by simp [hjournal, hjournal'], .installed hremoves hpermits ?_ (fun permits => ?_)
      (hpermitted.place htarget') hruns.at hmode⟩
    · exact (hremoved.mono (by simp) (List.Subset.refl _)).trans
        (hpermitted.mono (by simp) (List.Subset.refl _))
    · exact (hruns.away happart).trans (hput.at.trans (hgone permits))
  · cases he

/-- What unpacking the archive `file` has come to. -/
inductive Unpacks (i : Installer φ) (p : Platform) (archive : String) (file : List UInt8)
    (fs : Files) : Files → Except InstallError InstallOutcome → Journal φ → Prop
  | unreadable {e : InstallError} (not_missing : ∀ name, e ≠ .missingExecutable name) :
    Unpacks i p archive file fs fs (.error e) []
  | failed {listing : Listing InstallError} {fs' : Files} {e : InstallError} {steps : Journal φ}
    (readable : p.format.entries file = .ok listing)
    (extracts : Extracts i.host.limits listing p.executable (i.target p) fs fs' (.error e) steps) :
    Unpacks i p archive file fs fs' (.error e) steps
  | stopped {listing : Listing InstallError} {fs' : Files} {n : Nat} {steps : Journal φ}
    (readable : p.format.entries file = .ok listing)
    (extracts : Extracts i.host.limits listing p.executable (i.target p) fs fs'
      (.ok (.cancelled n)) steps) :
    Unpacks i p archive file fs fs' (.ok (.cancelled (some archive))) (.stage .cancelled :: steps)
  | extracted {listing : Listing InstallError} {fs' fs'' : Files} {entry : Entry}
    {extracting finishing : Journal φ} {r : Except InstallError InstallOutcome}
    (readable : p.format.entries file = .ok listing)
    (first : listing.IsFirst p.executable entry) (sound : entry.content.failure? = none)
    (calm : extracting.Calm)
    (installs : Files.Installs (i.target p) entry.content.data (fs.wayTo (i.target p)) fs fs')
    (finishes : Finishes i.host.limits (i.target p) (fs.reach archive) (fs.reach (i.target p))
      entry.content.data fs' fs'' r finishing) :
    Unpacks i p archive file fs fs'' r (finishing ++ extracting)

theorem unpack_ends {file : List UInt8} {mode : Nat} {r : Except InstallError InstallOutcome}
    (h : (i.unpack p archive).Ends w r v)
    (hplace : w.files.place archive = .ok (w.files.reach archive))
    (hfile : w.files.node? (w.files.reach archive) = some (.file file mode))
    (happart : w.files.reach archive ≠ w.files.reach (i.target p)) :
    ∃ steps, v.journal = steps ++ .status ("Decompressing to " ++ i.target p) ::
        .stage .decompressing :: w.journal ∧
      Unpacks i p archive file w.files v.files r steps := by
  unfold unpack at h
  dsimp only at h
  rw [ends_note_bind, ends_note_bind] at h
  have hread : ((w.noted (.stage .decompressing)).noted
      (.status ("Decompressing to " ++ i.target p))).files.read archive = .ok file :=
    Files.read_of_place hplace hfile
  rcases h.bind with ⟨e, hextract, rfl⟩ | ⟨outcome, u, hextract, h⟩
  · rcases extract_ends hread hextract with
      ⟨e', hee', rfl, hmissing⟩ | ⟨listing, steps, hlisting, hjournal, hr⟩
    · obtain rfl := Except.error.inj hee'
      exact ⟨[], rfl, .unreadable hmissing⟩
    · exact ⟨steps, hjournal, .failed hlisting hr⟩
  rcases extract_ends hread hextract with
    ⟨e', hee', -⟩ | ⟨listing, steps, hlisting, hjournal, hr⟩
  · cases hee'
  cases outcome with
  | cancelled n =>
    dsimp only at h
    rw [cancel, ends_note_bind] at h
    obtain ⟨rfl, rfl⟩ := ends_pure.1 h
    exact ⟨.stage .cancelled :: steps, by simp [hjournal], .stopped hlisting hr⟩
  | completed n =>
    obtain ⟨entry, hfirst, hinstalls, hsound⟩ := hr.installs n rfl
    simp only [World.files_noted] at hinstalls
    have harchive : u.files.node? (w.files.reach archive) = some (.file file mode) := by
      rcases hinstalls.evolves.away (w.files.reach archive) (by simpa using happart) with h | h
      · rw [h, hfile]
      · simp [hfile] at h
    obtain ⟨finishing, hjournal', hfinishes⟩ := finish_ends h (hinstalls.evolves.place hplace)
      harchive hinstalls.place hinstalls.node happart
    exact ⟨finishing ++ steps, by simp [hjournal, hjournal'], .extracted hlisting hfirst hsound
      (Journal.heeds_completed.1 hr.minds.heeds) hinstalls hfinishes⟩

end Installer
end Mend
