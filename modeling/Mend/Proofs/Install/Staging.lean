import Mend.Install.Extract
import Mend.Proofs.Install.Copying
import Mend.Proofs.Install.Endings
import Mend.Proofs.Install.Places
import Mend.Proofs.Limits

/-! Putting a file in its place. It is staged beside the place under a name that nothing has, so
until it is moved there nothing but directories has come into being. -/
namespace Mend

open Archive

variable {φ : Type}

namespace Files

lemma le_foldl_max {n m : Nat} {ns : List Nat} (h : m ≤ n ∨ m ∈ ns) : m ≤ ns.foldl max n := by
  induction ns generalizing n with
  | nil => simpa using h
  | cons k ns ih =>
    rcases h with h | h
    · exact ih (.inl (by omega))
    · rcases List.mem_cons.1 h with rfl | h
      · exact ih (.inl (by omega))
      · exact ih (.inr h)

/-- Nothing has the name of staged files. -/
theorem node?_freshName (fs : Files) (p : Place) : fs.node? (p ++ [fs.freshName]) = none := by
  have hlen : ∀ x ∈ fs.nodes, (x.1.getLast?.getD "").length < fs.freshName.length := by
    intro x hx
    have hle : (x.1.getLast?.getD "").length ≤
        (fs.nodes.map fun y => (y.1.getLast?.getD "").length).foldl max 0 :=
      le_foldl_max (.inr (List.mem_map_of_mem (f := fun y => (y.1.getLast?.getD "").length) hx))
    have hstem : ".staged-".length = 8 := by decide
    simp only [freshName, String.length_append, String.length_ofList, List.length_replicate]
    omega
  rw [node?, if_neg (by simp), Option.map_eq_none_iff, List.find?_eq_none]
  intro x hx heq
  have hx' := hlen x hx
  rw [decide_eq_true_eq] at heq
  simp [heq] at hx'

/-- What may have become of files when a file was put where a path leads to: it is there, and apart
from that nothing has changed but that directories were made at some of the places `made`. -/
structure Installs (target : String) (content : List UInt8) (made : List Place) (fs fs' : Files) :
    Prop where
  evolves : Evolves [fs.reach target] made fs fs'
  node : fs'.node? (fs.reach target) = some (.file content stagedMode)
  place : fs'.place target = .ok (fs.reach target)

variable {fs fs' fs'' : Files} {target : String} {content : List UInt8} {made : List Place}

theorem Installs.after (h : Evolves [] made fs fs') (h' : Installs target content made fs' fs'') :
    Installs target content made fs fs'' := by
  have hreach : fs'.reach target = fs.reach target := reach_congr h.here
  exact ⟨(h.mono (by simp) (List.Subset.refl _)).trans (hreach ▸ h'.evolves), hreach ▸ h'.node,
    hreach ▸ h'.place⟩

/-- What giving up on putting a file somewhere may leave: directories at some of the places `made`,
and what was staged where it cannot be removed. Nothing that had been there has changed. -/
def Spares (limits : Limits) (made : List Place) (fs fs' : Files) : Prop :=
  ∃ left : List Place, (∀ q ∈ left, fs.node? q = none) ∧ (limits.Permits → left = []) ∧
    Evolves left made fs fs'

variable {limits : Limits} {q : Place} {mode : Nat}

lemma Evolves.spares (h : Evolves [] made fs fs') : Spares limits made fs fs' :=
  ⟨[], by simp, fun _ => rfl, h⟩

lemma Spares.evolves (h : Spares limits made fs fs') (permits : limits.Permits) :
    Evolves [] made fs fs' := by
  obtain ⟨left, -, hleft, h⟩ := h
  exact hleft permits ▸ h

lemma Spares.place {path : String} (h : Spares limits made fs fs') (hq : fs.place path = .ok q) :
    fs'.place path = .ok q := by
  obtain ⟨left, -, -, h⟩ := h
  exact h.place hq

/-- Files that were there are as they were. -/
theorem Spares.file (h : Spares limits made fs fs') (hq : fs.node? q = some (.file content mode)) :
    fs'.node? q = some (.file content mode) := by
  obtain ⟨left, hnone, -, h⟩ := h
  rcases h.away q fun hmem => by simp [hnone q hmem] at hq with hsame | ⟨hq', -⟩
  · rw [hsame, hq]
  · simp [hq'] at hq

theorem Spares.after (h : Evolves [] made fs fs') (h' : Spares limits made fs' fs'') :
    Spares limits made fs fs'' := by
  obtain ⟨left, hnone, hleft, h'⟩ := h'
  refine ⟨left, fun q hq => ?_, hleft, (h.mono (by simp) (List.Subset.refl _)).trans h'⟩
  rcases h.away q (by simp) with hsame | ⟨hq', -⟩
  · rw [← hsame, hnone q hq]
  · exact hq'

/-- A file that was staged where nothing had been is moved: apart from the target all is as before
it was staged. -/
theorem installs_of_move {staged q : Place} (hnone : fs.node? staged = none)
    (hput : fs.Put fs' staged (some (.file content stagedMode))) (hplace : fs'.place target = .ok q)
    (hmove : fs'.change (.move staged q) = .ok fs'') : Installs target content made fs fs'' := by
  obtain rfl : q = fs.reach target := (place_eq_ok hplace).trans (reach_congr hput.here)
  obtain ⟨hq, fs₁, haway, hback⟩ := change_move hput.at hmove
  have hsame : ∀ x, fs₁.node? x = fs.node? x := by
    intro x
    by_cases hx : x = staged
    · rw [hx, haway.at, hnone]
    · rw [haway.away hx, hput.away hx]
  have hq₁ : fs₁.node? (fs.reach target) ≠ some .directory := by
    rw [haway.node?]
    split_ifs
    · simp
    · exact hq
  have htarget := hback.evolves hq₁
  refine ⟨(evolves_of_node?_eq (haway.here.trans hput.here) hsame).trans
    (htarget.mono (List.Subset.refl _) (by simp)), hback.at, ?_⟩
  exact htarget.place ((haway.evolves (by simp [hput.at])).place hplace)

/-- A file that was staged where nothing had been is removed: all is as before. -/
theorem change_remove_staged (made : List Place) {staged : Place} {mode : Nat}
    (hnone : fs.node? staged = none) (hput : fs.Put fs' staged (some (.file content mode))) :
    ∃ fs'', fs'.change (.remove staged) = .ok fs'' ∧ Evolves [] made fs fs'' := by
  obtain ⟨fs'', hchange, haway⟩ := change_remove hput.at
  refine ⟨fs'', hchange, evolves_of_node?_eq (haway.here.trans hput.here) fun x => ?_⟩
  by_cases hx : x = staged
  · rw [hx, haway.at, hnone]
  · rw [haway.away hx, hput.away hx]

end Files

namespace Activity

variable {w v : World φ} {path target : String} {limits : Limits}

/-- What making directories at some of the places `made` has come to: no more happens than that
those that are missing come into being. -/
structure Makes (made : List Place) (w v : World φ) (r : Except InstallError Place) : Prop where
  changes : ∃ steps, v.journal = steps ++ w.journal ∧ steps.Changes
  evolves : Files.Evolves [] made w.files v.files
  not_missing : ∀ name, r ≠ .error (.missingExecutable name)

/-- Making directories that fails before anything is made. -/
lemma makes_of_error (made : List Place) (w : World φ) {e : InstallError}
    (he : ∀ name, e ≠ .missingExecutable name) : Makes made w w (.error e) where
  changes := ⟨[], rfl, Journal.changes_nil⟩
  evolves := .refl _
  not_missing name h := he name (Except.error.inj h)

/-- The induction is on the pieces of the path: the next directory is there, or it is made. -/
theorem makeDirectories_ends {p : Place} {pieces : List String} {r : Except InstallError Place}
    (h : (makeDirectories limits path p pieces).Ends w r v) : Makes (p.stops pieces) w v r := by
  induction pieces generalizing p w with
  | nil =>
    obtain ⟨rfl, rfl⟩ := ends_pure.1 h
    exact ⟨⟨[], rfl, Journal.changes_nil⟩, .refl _, by simp⟩
  | cons piece rest ih =>
    rw [makeDirectories, ends_get_bind] at h
    rcases h.bind with ⟨e, hq, rfl⟩ | ⟨q, u, hq, hrest⟩
    · obtain ⟨fault, -, rfl, rfl⟩ := ends_ofFile_error.1 hq
      exact makes_of_error _ _ fun name => InstallError.ofFile_ne_missing _ _ _
    obtain ⟨henter, rfl⟩ := ends_ofFile_ok.1 hq
    obtain ⟨-, rfl⟩ := Files.enter_eq_ok_iff.1 henter
    rw [ends_get_bind] at hrest
    split at hrest
    · obtain ⟨hsteps, hfiles, hr⟩ := ih hrest
      exact ⟨hsteps, hfiles.mono (List.Subset.refl _) (by simp [Place.stops]), hr⟩
    rcases hrest.bind with ⟨e, hmake, rfl⟩ | ⟨_, u', hmake, hrest⟩
    · obtain ⟨fault, -, rfl, rfl⟩ := ends_change_error.1 hmake
      exact makes_of_error _ _ fun name => InstallError.ofFault_ne_missing _ _ _
    obtain ⟨fs, hfs, rfl⟩ := ends_change_ok.1 hmake
    obtain ⟨⟨steps, hsteps, hchanges⟩, hfiles, hr⟩ := ih hrest
    obtain ⟨hnone, hput⟩ := Files.change_makeDirectory (Limits.change_eq_ok_iff.1 hfs).1
    have hmade := Files.Put.evolves_made hnone hput
    refine ⟨⟨steps ++ [.changed (.makeDirectory (p.step piece))], ?_, ?_⟩, ?_, hr⟩
    · rw [hsteps, List.append_assoc, List.singleton_append]
    · simp [hchanges, Step.IsChange]
    · exact (hmade.mono (List.Subset.refl _) (by simp [Place.stops])).trans
        (hfiles.mono (List.Subset.refl _) (by simp [Place.stops]))

theorem makeParent_ends {r : Except InstallError Place}
    (h : (makeParent limits path).Ends w r v) : Makes (w.files.wayTo path) w v r := by
  unfold makeParent at h
  dsimp only at h
  split at h
  · obtain ⟨rfl, rfl⟩ := ends_throw.1 h
    exact makes_of_error _ _ fun name => InstallError.ofFile_ne_missing _ _ _
  · rw [ends_get_bind] at h
    exact makeDirectories_ends h

/-- A file that was staged where nothing had been is discarded. -/
theorem discard_ends (made : List Place) {fs : Files} {staged : Place} {content : List UInt8}
    {mode : Nat} {r : Except InstallError Unit} (hnone : fs.node? staged = none)
    (hput : fs.Put w.files staged (some (.file content mode)))
    (h : (discard limits path staged).Ends w r v) :
    r = .ok () ∧ (∃ steps, v.journal = steps ++ w.journal ∧ steps.Changes) ∧
      fs.Spares limits made v.files := by
  obtain ⟨fs', hfs', hevolves⟩ := Files.change_remove_staged made hnone hput
  obtain ⟨rfl, ⟨fs'', hfs'', rfl⟩ | ⟨⟨fault, hfault⟩, rfl⟩⟩ := ends_discard.1 h
  · obtain rfl := Except.ok.inj (hfs'.symm.trans (Limits.change_eq_ok_iff.1 hfs'').1)
    exact ⟨rfl, ⟨[_], rfl, by simp [Step.IsChange]⟩, hevolves.spares⟩
  · refine ⟨rfl, ⟨[], rfl, Journal.changes_nil⟩, [staged], by simpa using hnone, fun permits => ?_,
      (hput.evolves (by simp [hnone])).mono (List.Subset.refl _) (List.nil_subset _)⟩
    simp [permits.change hfs' rfl] at hfault

/-- Steps that read from a source, and how copying it ended. -/
structure Fills (limits : Limits) (source : Source) (r : Except InstallError CopyOutcome)
    (steps : Journal φ) : Prop where
  minds : steps.Minds limits r
  given : steps.received <+: source.data
  exhausts : ∀ n, r = .ok (.completed n) → steps.Exhausts
  complete : ∀ n, r = .ok (.completed n) → source.Honest →
    steps.received = source.data ∧ source.failure? = none
  not_missing : ∀ name, r ≠ .error (.missingExecutable name)

/-- Changes before do not matter. -/
lemma Fills.append {source : Source} {r : Except InstallError CopyOutcome} {steps : Journal φ}
    (h : Fills limits source r steps) {before : Journal φ} (hbefore : before.Changes) :
    Fills limits source r (steps ++ before) ∧ (steps ++ before).received = steps.received := by
  have hreceived : (steps ++ before).received = steps.received := by
    rw [Journal.received_append, hbefore.received, List.nil_append]
  refine ⟨⟨h.minds.append hbefore.calm, ?_, fun n hn => (h.exhausts n hn).append, ?_,
    h.not_missing⟩, hreceived⟩
  · rw [hreceived]
    exact h.given
  · rw [hreceived]
    exact h.complete

variable [Fraction φ]

/-- Copying to a file. If that did not fail, the file holds just what was read. -/
theorem copyTo_ends {plan : CopyPlan φ} {source : Source} {p : Place} {content : List UInt8}
    {mode : Nat} {r : Except InstallError CopyOutcome}
    (hp : w.files.node? p = some (.file content mode))
    (h : (copyTo limits plan source path p).Ends w r v) :
    ∃ steps kept, Fills limits source r steps ∧ v.journal = steps ++ w.journal ∧
      w.files.Put v.files p (some (.file kept mode)) ∧
      ∀ outcome, r = .ok outcome → kept = steps.received := by
  obtain ⟨result, t, written, hcopy, hends, rfl⟩ := ends_copyTo.1 h
  obtain ⟨steps, hsteps⟩ := plan.exists_copied (.buffered (limits.room? w.files p))
    { source, journal := w.journal }
  rw [hcopy] at hsteps
  have htaken : source.taken t.source = steps.received := hsteps.taken
  have hgiven : steps.received <+: source.data := ⟨_, hsteps.rest⟩
  rw [htaken] at hends ⊢
  obtain ⟨files, hchange, hput⟩ :=
    Files.change_write hp (limits.fitting w.files p steps.received)
  obtain ⟨rfl, rfl⟩ := hends.unique
    (ends_change_ok.2 ⟨files, Limits.change_eq_ok_iff.2 ⟨hchange, rfl⟩, rfl⟩)
  dsimp only [Except.bind]
  have hminds : Journal.Minds limits
      (CopyOutcome.closed (limits.fits w.files p steps.received) result)
      (.changed (.write p (limits.fitting w.files p steps.received)) :: steps) :=
    hsteps.heeds.closed trivial fun hfull => ⟨_, p, _, by simp, Limits.room?_of_not_fits hfull⟩
  have hjournal : t.journal = steps ++ w.journal := hsteps.journal
  refine ⟨_, _, ⟨hminds, hgiven, fun n hn => ?_, fun n hn honest => ?_, fun name => ?_⟩,
    by simp [hjournal], hput, fun outcome hr => ?_⟩
  · obtain ⟨-, rfl⟩ := CopyOutcome.closed_eq_ok_iff.1 hn
    have hwrite : Journal.Changes
        [(.changed (.write p (limits.fitting w.files p steps.received)) : Step φ)] := by
      simp [Step.IsChange]
    exact (hsteps.exhausts n rfl).changes hwrite
  · obtain ⟨-, rfl⟩ := CopyOutcome.closed_eq_ok_iff.1 hn
    obtain ⟨hrest, hfailure⟩ := hsteps.complete n rfl honest
    have hall := hsteps.rest
    rw [hrest, List.append_nil] at hall
    exact ⟨hall, hfailure⟩
  · exact CopyOutcome.closed_ne_missing _ _ _
  · exact Limits.fitting_of_fits (CopyOutcome.closed_eq_ok_iff.1 hr).1

omit [Fraction φ] in
/-- A staged file stays where it is if it cannot be moved. -/
theorem settle_ends (made : List Place) {fs : Files} {staged : Place} {content : List UInt8}
    {outcome : CopyOutcome} {r : Except InstallError Unit} (hnone : fs.node? staged = none)
    (hput : fs.Put w.files staged (some (.file content stagedMode)))
    (h : (settle limits staged target outcome).Ends w r v) :
    (∃ steps, v.journal = steps ++ w.journal ∧ steps.Changes) ∧
      match outcome, r with
      | .completed _, .ok () => Files.Installs target content made fs v.files
      | .completed _, .error e => v.files = w.files ∧ ∀ name, e ≠ .missingExecutable name
      | .cancelled _, .ok () => fs.Spares limits made v.files
      | .cancelled _, .error _ => False := by
  cases outcome with
  | completed n =>
    rw [settle] at h
    rcases h.bind with ⟨e, hplace, rfl⟩ | ⟨q, u, hplace, hmove⟩
    · obtain ⟨fault, -, rfl, rfl⟩ := ends_place_error.1 hplace
      exact ⟨⟨[], rfl, Journal.changes_nil⟩, rfl, fun name => InstallError.ofFile_ne_missing _ _ _⟩
    obtain ⟨hplace, rfl⟩ := ends_place_ok.1 hplace
    cases r with
    | error e =>
      obtain ⟨fault, -, rfl, rfl⟩ := ends_change_error.1 hmove
      exact ⟨⟨[], rfl, Journal.changes_nil⟩, rfl,
        fun name => InstallError.ofFault_ne_missing _ _ _⟩
    | ok =>
      obtain ⟨fs', hfs', rfl⟩ := ends_change_ok.1 hmove
      exact ⟨⟨[_], rfl, by simp [Step.IsChange]⟩,
        Files.installs_of_move hnone hput hplace (Limits.change_eq_ok_iff.1 hfs').1⟩
  | cancelled n =>
    obtain ⟨rfl, hchanges, hspares⟩ := discard_ends made hnone hput h
    exact ⟨hchanges, hspares⟩

/-- Copying to a staged file and settling it. If that fails, the file is still there. -/
theorem copyTo_settle_ends (made : List Place) {plan : CopyPlan φ} {source : Source} {fs : Files}
    {staged : Place} {r : Except InstallError CopyOutcome} (hnone : fs.node? staged = none)
    (hput : fs.Put w.files staged (some (.file [] stagedMode)))
    (h : (do
      let outcome ← copyTo limits plan source target staged
      settle limits staged target outcome
      return outcome : Activity φ CopyOutcome).Ends w r v) :
    ∃ steps, v.journal = steps ++ w.journal ∧ steps.Minds limits r ∧
      (∀ name, r ≠ .error (.missingExecutable name)) ∧
      match r with
      | .ok (.completed _) => ∃ content, Files.Installs target content made fs v.files ∧
          (source.Honest → content = source.data ∧ source.failure? = none)
      | .ok (.cancelled _) => fs.Spares limits made v.files
      | .error _ => ∃ content, fs.Put v.files staged (some (.file content stagedMode)) := by
  rcases h.bind with ⟨e, hcopy, rfl⟩ | ⟨outcome, u, hcopy, h⟩
  · obtain ⟨steps, kept, hfills, hjournal, hwritten, -⟩ := copyTo_ends hput.at hcopy
    exact ⟨steps, hjournal, hfills.minds, hfills.not_missing, _, hput.trans hwritten⟩
  obtain ⟨steps, kept, hfills, hjournal, hwritten, hkept⟩ := copyTo_ends hput.at hcopy
  obtain rfl := hkept outcome rfl
  have hstaged := hput.trans hwritten
  rcases h.bind with ⟨e, hsettle, rfl⟩ | ⟨_, u', hsettle, h⟩
  · obtain ⟨⟨changes, hjournal', hchanges⟩, hr⟩ := settle_ends made hnone hstaged hsettle
    cases outcome with
    | completed n =>
      obtain ⟨hsame, hmissing⟩ := hr
      refine ⟨changes ++ steps, by simp [hjournal', hjournal], ?_,
        fun name hname => hmissing name (Except.error.inj hname), ⟨_, hsame ▸ hstaged⟩⟩
      have hcalm := Journal.heeds_completed.1 hfills.minds.heeds
      exact .inl (Journal.calm_append.2 ⟨hchanges.calm, hcalm⟩)
    | cancelled n => exact hr.elim
  obtain ⟨rfl, rfl⟩ := ends_pure.1 h
  obtain ⟨⟨changes, hjournal', hchanges⟩, hr⟩ := settle_ends made hnone hstaged hsettle
  refine ⟨changes ++ steps, by simp [hjournal', hjournal], hfills.minds.changes hchanges,
    by simp, ?_⟩
  cases outcome with
  | completed n => exact ⟨_, hr, hfills.complete n rfl⟩
  | cancelled n => exact hr

/-- What a try to put an entry in its place has come to. Short of success nothing that had been
there has changed. -/
structure Attempts (limits : Limits) (entry : Entry) (target : String) (fs fs' : Files)
    (r : Except InstallError CopyOutcome) (steps : Journal φ) : Prop where
  minds : steps.Minds limits r
  not_missing : ∀ name, r ≠ .error (.missingExecutable name)
  spares : (∀ n, r ≠ .ok (.completed n)) → fs.Spares limits (fs.wayTo target) fs'
  installs : ∀ n, r = .ok (.completed n) →
    ∃ content, Files.Installs target content (fs.wayTo target) fs fs' ∧
      (entry.content.Honest → content = entry.content.data ∧ entry.content.failure? = none)

omit [Fraction φ] in
/-- Directories were made on the way before the try. -/
lemma Attempts.after {entry : Entry} {fs fs' fs'' : Files} {r : Except InstallError CopyOutcome}
    {steps before : Journal φ} (h : Attempts limits entry target fs' fs'' r steps)
    (hfiles : Files.Evolves [] (fs.wayTo target) fs fs') (hbefore : before.Calm) :
    Attempts limits entry target fs fs'' r (steps ++ before) where
  minds := h.minds.append hbefore
  not_missing := h.not_missing
  spares hne := .after hfiles (Files.wayTo_congr hfiles.here ▸ h.spares hne)
  installs n hn := by
    obtain ⟨content, hinstalls, hcontent⟩ := h.installs n hn
    rw [Files.wayTo_congr hfiles.here] at hinstalls
    exact ⟨content, hinstalls.after hfiles, hcontent⟩

/-- Filling a file that was staged where nothing had been. It is settled, or discarded. -/
theorem fill_ends {plan : CopyPlan φ} {entry : Entry} {fs : Files} {staged : Place}
    {r : Except InstallError CopyOutcome} (hnone : fs.node? staged = none)
    (hput : fs.Put w.files staged (some (.file [] stagedMode)))
    (h : (tryCatch
      (do
        let outcome ← copyTo limits plan entry.content target staged
        settle limits staged target outcome
        return outcome)
      fun e => do
        discard limits target staged
        throw e : Activity φ CopyOutcome).Ends w r v) :
    ∃ steps, v.journal = steps ++ w.journal ∧
      Attempts limits entry target fs v.files r steps := by
  rcases ends_tryCatch.1 h with ⟨outcome, hbody, rfl⟩ | ⟨e, u, hbody, h⟩
  · obtain ⟨steps, hjournal, hminds, hmissing, hr⟩ :=
      copyTo_settle_ends (fs.wayTo target) hnone hput hbody
    refine ⟨steps, hjournal, hminds, hmissing, fun hne => ?_, fun n hn => ?_⟩
    · cases outcome with
      | completed n => exact (hne n rfl).elim
      | cancelled n => exact hr
    · cases hn
      exact hr
  obtain ⟨steps, hjournal, hminds, hmissing, ⟨content, hstill⟩⟩ :=
    copyTo_settle_ends (fs.wayTo target) hnone hput hbody
  rcases h.bind with ⟨e', hdiscard, -⟩ | ⟨_, u', hdiscard, h⟩
  · cases (discard_ends (fs.wayTo target) hnone hstill hdiscard).1
  obtain ⟨-, ⟨changes, hjournal', hchanges⟩, hspares⟩ :=
    discard_ends (fs.wayTo target) hnone hstill hdiscard
  obtain ⟨rfl, rfl⟩ := ends_throw.1 h
  exact ⟨changes ++ steps, by simp [hjournal', hjournal], hminds.changes hchanges, hmissing,
    fun _ => hspares, by simp⟩

theorem install_ends {plan : CopyPlan φ} {entry : Entry} {r : Except InstallError CopyOutcome}
    (h : (install limits plan entry target).Ends w r v) :
    ∃ steps, v.journal = steps ++ w.journal ∧
      Attempts limits entry target w.files v.files r steps := by
  unfold install at h
  rcases h.bind with ⟨e, hparent, rfl⟩ | ⟨directory, u, hparent, h⟩
  · obtain ⟨⟨steps, hjournal, hchanges⟩, hfiles, hmissing⟩ := makeParent_ends hparent
    exact ⟨steps, hjournal, .of_changes hchanges e,
      fun name hname => hmissing name (by rw [Except.error.inj hname]), fun _ => hfiles.spares,
      by simp⟩
  obtain ⟨⟨before, hjournal, hbefore⟩, hfiles, -⟩ := makeParent_ends hparent
  rw [ends_get_bind] at h
  have hnone := u.files.node?_freshName directory
  generalize directory ++ [u.files.freshName] = staged at h hnone
  rcases h.bind with ⟨e, hcreate, rfl⟩ | ⟨_, u₁, hcreate, h⟩
  · obtain ⟨fault, -, rfl, rfl⟩ := ends_change_error.1 hcreate
    exact ⟨before, hjournal, .of_changes hbefore _, fun name hname =>
      InstallError.ofFault_ne_missing _ _ _ (Except.error.inj hname), fun _ => hfiles.spares,
      by simp⟩
  obtain ⟨fs, hfs, rfl⟩ := ends_change_ok.1 hcreate
  -- Nothing is at the staged place, so the new file has the mode that is asked for.
  obtain ⟨mode, hput, hmode⟩ := Files.change_create (Limits.change_eq_ok_iff.1 hfs).1
  obtain rfl : mode = stagedMode := by simpa [hnone] using hmode
  obtain ⟨steps, hjournal', hattempts⟩ := fill_ends hnone hput h
  exact ⟨steps ++ (.changed (.create staged stagedMode) :: before),
    by rw [hjournal', hjournal]; simp,
    hattempts.after hfiles (Journal.calm_cons.2 ⟨trivial, hbefore.calm⟩)⟩

end Activity
end Mend
