import Mathlib.Algebra.Order.Ring.Rat
import Mathlib.Tactic.Linarith
import Mathlib.Tactic.NormNum
import Mend.Proofs.Install.Tracking
import Mend.Proofs.Install.Transfers

/-! The progress that an installation reports, in exact numbers: it never runs backwards, each stage
has its stretch of it, and it is complete when the installation is ready. -/
namespace Mend

/-- Exact numbers. -/
instance : Fraction ℚ := { decidableLT := inferInstance }

namespace Fraction

lemma zero_rat : (zero : ℚ) = 0 := Nat.cast_zero

lemma one_rat : (one : ℚ) = 1 := Nat.cast_one

lemma ofParts_eq (n total : Nat) : (ofParts n total : ℚ) = min ((n : ℚ) / total) 1 := by
  have h : (ofParts n total : ℚ) = if (1 : ℚ) < (n : ℚ) / total then 1 else (n : ℚ) / total := by
    unfold ofParts
    rw [one_rat]
  rw [h]
  split
  · next hlt => exact (min_eq_right hlt.le).symm
  · next hle => exact (min_eq_left (not_lt.1 hle)).symm

lemma ofParts_mono {n m : Nat} (total : Nat) (h : n ≤ m) :
    (ofParts n total : ℚ) ≤ ofParts m total := by
  rw [ofParts_eq, ofParts_eq]
  gcongr

lemma clamp_eq (f : ℚ) : clamp f = max 0 (min f 1) := by
  unfold clamp
  rw [zero_rat, one_rat]
  split_ifs with hneg hlarge <;> grind

end Fraction

namespace Stretch

variable {s : Stretch ℚ} {f g : ℚ}

lemma place_eq (s : Stretch ℚ) (f : ℚ) : s.place f = s.start + s.width * max 0 (min f 1) := by
  rw [← Fraction.clamp_eq]
  rfl

lemma place_mono (hwidth : 0 ≤ s.width) (h : f ≤ g) : s.place f ≤ s.place g := by
  rw [place_eq, place_eq]
  gcongr

lemma start_le_place (hwidth : 0 ≤ s.width) (f : ℚ) : s.start ≤ s.place f := by
  rw [place_eq]
  have hpart : 0 ≤ s.width * max 0 (min f 1) := mul_nonneg hwidth (le_max_left _ _)
  linarith

lemma place_le (hwidth : 0 ≤ s.width) (f : ℚ) : s.place f ≤ s.start + s.width := by
  rw [place_eq]
  have hpart : s.width * max 0 (min f 1) ≤ s.width * 1 := by
    gcongr
    exact max_le zero_le_one (min_le_right _ _)
  linarith

end Stretch

/-- Fractions that never run backwards, from `lo` to `hi`. -/
structure Rises (lo hi : ℚ) (fs : List ℚ) : Prop where
  le : lo ≤ hi
  sorted : fs.Pairwise (· ≤ ·)
  within : ∀ f ∈ fs, lo ≤ f ∧ f ≤ hi

namespace Rises

variable {lo hi hi' f : ℚ} {fs : List ℚ}

lemma nil (h : lo ≤ hi) : Rises lo hi [] := ⟨h, .nil, by simp⟩

lemma mono (h : Rises lo hi fs) (hle : hi ≤ hi') : Rises lo hi' fs :=
  ⟨h.le.trans hle, h.sorted, fun f hf => ⟨(h.within f hf).1, (h.within f hf).2.trans hle⟩⟩

lemma concat (h : Rises lo hi fs) (hle : hi ≤ f) : Rises lo f (fs ++ [f]) := by
  refine ⟨h.le.trans hle, ?_, ?_⟩
  · rw [List.pairwise_append]
    refine ⟨h.sorted, List.pairwise_singleton _ _, fun g hg f' hf' => ?_⟩
    obtain rfl := List.mem_singleton.1 hf'
    exact (h.within g hg).2.trans hle
  · intro g hg
    rcases List.mem_append.1 hg with hg | hg
    · exact ⟨(h.within g hg).1, (h.within g hg).2.trans hle⟩
    · obtain rfl := List.mem_singleton.1 hg
      exact ⟨h.le.trans hle, le_refl _⟩

/-- The last fraction is not below the others. -/
lemma of_concat (h : Rises lo hi (fs ++ [f])) : Rises lo f fs ∧ f ≤ hi := by
  obtain ⟨hsorted, -, hlast⟩ := List.pairwise_append.1 h.sorted
  obtain ⟨hlo, hhi⟩ := h.within f (by simp)
  refine ⟨⟨hlo, hsorted, fun g hg => ⟨(h.within g (by simp [hg])).1, ?_⟩⟩, hhi⟩
  exact hlast g hg f (List.mem_singleton_self f)

end Rises

namespace CopyPlan

variable {p : CopyPlan ℚ} {s : Stretch ℚ}

/-- The more is written, the further is what is reported. -/
theorem rises_shares (hplace : p.place = s.place) (hwidth : 0 ≤ s.width)
    (cs : List (List UInt8)) :
    Rises s.start (s.place (Fraction.ofParts cs.flatten.length p.total)) (p.shares cs) := by
  induction cs with
  | nil => exact .nil (Stretch.start_le_place hwidth _)
  | cons c earlier ih =>
    rw [shares, hplace]
    apply ih.concat
    apply Stretch.place_mono hwidth
    apply Fraction.ofParts_mono
    simp

/-- Copying within a stretch reports fractions that rise within it. -/
theorem Accounted.rises {sink : Sink} {source : Source} {before steps : Journal ℚ}
    {r : Except String CopyOutcome} {t : Transfer ℚ}
    (h : p.Accounted sink source before r t steps) (hplace : p.place = s.place)
    (hwidth : 0 ≤ s.width) : Rises s.start (s.start + s.width) steps.fractions := by
  rw [h.fractions]
  split
  · exact .nil (le_add_of_nonneg_right hwidth)
  · exact (rises_shares hplace hwidth t.chunks).mono (Stretch.place_le hwidth _)

end CopyPlan

/-- The fractions that belong to a stage. -/
def Stage.Allows : Stage → ℚ → Prop
  | fetchingMetadata, f => f = 1 / 5
  | downloading, f => 1 / 5 ≤ f ∧ f ≤ 4 / 5
  | decompressing, f => 4 / 5 ≤ f ∧ f ≤ 1
  | ready, f => f = 1
  | _, _ => False

namespace Journal

/-- After the steps so far the fraction may be reported: it belongs to the stage, nothing further
has been reported, and the installation has been neither cancelled nor given up. -/
structure Admits (j : Journal ℚ) (f : ℚ) : Prop where
  allowed : ∃ s, j.stage? = some s ∧ s.Allows f
  highest : ∀ g ∈ j.fractions, g ≤ f
  running : .cancelled ∉ j.stages ∧ .failed ∉ j.stages

/-- All the fractions were reported when they might be. -/
def Admitted (j : Journal ℚ) : Prop := ∀ f earlier, .fraction f :: earlier <:+ j → Admits earlier f

variable {j steps : Journal ℚ} {s : Step ℚ} {st : Stage} {f lo hi top : ℚ}

lemma stages_cons_still (hs : s.IsStill) (j : Journal ℚ) : stages (s :: j) = j.stages := by
  cases s <;> first | rfl | exact hs.elim

lemma fraction?_of_still (hs : s.IsStill) : s.fraction? = none := by
  cases s <;> first | rfl | exact hs.elim

lemma stage?_cons (st : Stage) (j : Journal ℚ) : stage? (.stage st :: j) = some st := by
  simp [stage?, stages]

lemma admitted_cons (hs : s.fraction? = none) : Admitted (s :: j) ↔ Admitted j := by
  have hne : ∀ f earlier, ¬ Step.fraction f :: earlier = s :: j := by
    rintro f earlier h
    obtain ⟨rfl, -⟩ := List.cons.inj h
    cases hs
  simp [Admitted, List.suffix_cons_iff, hne]

lemma admitted_cons_fraction : Admitted (.fraction f :: j) ↔ j.Admits f ∧ Admitted j := by
  constructor
  · intro h
    exact ⟨h f j (List.suffix_refl _), fun g earlier hmem => h g earlier (hmem.trans
      (List.suffix_cons _ _))⟩
  · rintro ⟨hadmits, hrest⟩ g earlier hmem
    rcases List.suffix_cons_iff.1 hmem with hmem | hmem
    · obtain ⟨hg, rfl⟩ := List.cons.inj hmem
      rw [Step.fraction.inj hg]
      exact hadmits
    · exact hrest g earlier hmem

lemma mem_fractions (h : .fraction f ∈ j) : f ∈ j.fractions := by
  simp only [fractions, List.mem_reverse, List.mem_filterMap]
  exact ⟨_, h, rfl⟩

lemma admitted_of_nil (h : j.fractions = []) : Admitted j := by
  intro f earlier hmem
  have hf : f ∈ j.fractions := mem_fractions (hmem.subset List.mem_cons_self)
  rw [h] at hf
  cases hf

/-- The induction is on the steps. -/
theorem Admitted.sorted (h : Admitted j) : j.fractions.Pairwise (· ≤ ·) := by
  induction j with
  | nil => exact .nil
  | cons s j ih =>
    cases s with
    | fraction f =>
      obtain ⟨hadmits, hrest⟩ := admitted_cons_fraction.1 h
      simpa [List.pairwise_append, ih hrest] using hadmits.highest
    | _ => simpa using ih ((admitted_cons rfl).1 h)

/-- The stages so far are `ss`, and no fraction has been reported. -/
structure Early (ss : List Stage) (j : Journal ℚ) : Prop where
  stages : j.stages = ss
  fractions : j.fractions = []

/-- Reporting has begun, at one fifth. -/
structure Begun (j : Journal ℚ) : Prop where
  first : j.fractions.head? = some (1 / 5)
  admitted : Admitted j

/-- Reporting has come to the fraction `top` at a stage of an installation that goes on. -/
structure Stands (st : Stage) (top : ℚ) (j : Journal ℚ) : Prop extends Begun j where
  stage : j.stage? = some st
  running : .cancelled ∉ j.stages ∧ .failed ∉ j.stages
  highest : ∀ f ∈ j.fractions, f ≤ top

lemma Early.stage {ss : List Stage} (h : Early ss j) (st : Stage) :
    Early (ss ++ [st]) (.stage st :: j) :=
  ⟨by simp [Journal.stages, h.stages], by simpa using h.fractions⟩

lemma Early.status {ss : List Stage} (h : Early ss j) (text : String) :
    Early ss (.status text :: j) :=
  ⟨h.stages, by simpa using h.fractions⟩

lemma Begun.stage (h : Begun j) (st : Stage) : Begun (.stage st :: j) :=
  ⟨by simpa using h.first, (admitted_cons rfl).2 h.admitted⟩

theorem Stands.steady (st : Stage) (top : ℚ) : Steady (Stands st top) := by
  intro s j hs h
  have hstages := stages_cons_still hs j
  have hfractions : fractions (s :: j) = j.fractions := by
    rw [fractions_cons, fraction?_of_still hs, Option.toList_none, List.append_nil]
  refine ⟨⟨hfractions ▸ h.first, (admitted_cons (fraction?_of_still hs)).2 h.admitted⟩, ?_,
    hstages ▸ h.running, hfractions ▸ h.highest⟩
  rw [stage?, hstages]
  exact h.stage

lemma Stands.enter {st' : Stage} (h : Stands st top j) (hcancelled : st' ≠ .cancelled)
    (hfailed : st' ≠ .failed) : Stands st' top (.stage st' :: j) where
  toBegun := h.toBegun.stage st'
  stage := stage?_cons st' j
  running := by simp [stages, h.running, hcancelled.symm, hfailed.symm]
  highest := by simpa using h.highest

lemma Stands.fraction (h : Stands st top j) (hle : top ≤ f) (hallows : st.Allows f) :
    Stands st f (.fraction f :: j) where
  first := by
    rw [fractions_cons, List.head?_append, h.first]
    rfl
  admitted := admitted_cons_fraction.2
    ⟨⟨⟨st, h.stage, hallows⟩, fun g hg => (h.highest g hg).trans hle, h.running⟩, h.admitted⟩
  stage := h.stage
  running := h.running
  highest g hg := by
    have hg' : g ∈ j.fractions ∨ g = f := by simpa using hg
    rcases hg' with hg | rfl
    · exact (h.highest g hg).trans hle
    · exact le_refl _

lemma Stands.mono (h : Stands st lo j) (hle : lo ≤ hi) : Stands st hi j :=
  { h with highest := fun f hf => (h.highest f hf).trans hle }

/-- The first fraction is reported while the metadata are looked up. -/
lemma Early.begin (h : Early [.idle, .resolvingPlatform, .fetchingMetadata] j) :
    Stands .fetchingMetadata (1 / 5) (.fraction (1 / 5) :: j) where
  first := by simp [h.fractions]
  admitted := admitted_cons_fraction.2 ⟨⟨⟨.fetchingMetadata, by simp [stage?, h.stages], rfl⟩,
    by simp [h.fractions], by simp [h.stages]⟩, admitted_of_nil h.fractions⟩
  stage := by simp [stage?, Journal.stages, h.stages]
  running := by simp [Journal.stages, h.stages]
  highest := by simp [h.fractions]

/-- Quiet steps whose fractions rise from where reporting stands. The induction is on the steps. -/
theorem Stands.append (h : Stands st lo j) (hquiet : steps.Quiet)
    (hrises : Rises lo hi steps.fractions) (hallows : ∀ f, lo ≤ f → f ≤ hi → st.Allows f) :
    Stands st hi (steps ++ j) := by
  induction steps generalizing hi with
  | nil => exact h.mono hrises.le
  | cons s steps ih =>
    obtain ⟨hs, hsteps⟩ := (quiet_cons s steps).1 hquiet
    rw [List.cons_append]
    cases s with
    | stage => exact hs.elim
    | fraction f =>
      rw [fractions_cons] at hrises
      obtain ⟨hrest, hhi⟩ := hrises.of_concat
      have hbelow := ih hsteps hrest fun g hlo hf => hallows g hlo (hf.trans hhi)
      exact (hbelow.fraction (le_refl f) (hallows f hrest.le hhi)).mono hhi
    | _ => exact Stands.steady st hi _ _ trivial (ih hsteps (by simpa using hrises) hallows)

end Journal

namespace Activity

open Journal

/-- Copying within the stretch of a stage. -/
theorem leads_copyTo {limits : Limits} {plan : CopyPlan ℚ} {s : Stretch ℚ} {st : Stage} {lo hi : ℚ}
    (hplace : plan.place = s.place) (hlo : s.start = lo) (hhi : s.start + s.width = hi)
    (hle : lo ≤ hi) (hallows : ∀ f, lo ≤ f → f ≤ hi → st.Allows f) (source : Source)
    (path : String) (p : Place) :
    Leads (Stands st lo) (copyTo limits plan source path p) fun _ => Stands st hi := by
  subst hlo hhi
  have hwidth : 0 ≤ s.width := by linarith
  intro w r v hw hends
  obtain ⟨result, t, written, hcopy, hchange, -⟩ := ends_copyTo.1 hends
  have hunderway :=
    CopyPlan.underway_start plan (.buffered (limits.room? w.files p)) source w.journal
  obtain ⟨steps, haccounted⟩ :=
    CopyPlan.accounted_of_underway plan _ source w.journal _ [] hunderway
  rw [hcopy] at haccounted
  have hcopied : Stands st (s.start + s.width) t.journal := by
    rw [haccounted.journal]
    exact hw.append haccounted.quiet (haccounted.rises hplace hwidth) hallows
  exact preserves_change (Stands.steady st _) _ _ written v hcopied hchange

end Activity

namespace Installer

open Activity Journal

variable {i : Installer ℚ} {p : Platform} {a : Asset} {archive : String}

lemma metadataShare_rat : (metadataShare : ℚ) = 1 / 5 := by
  unfold metadataShare
  norm_num

lemma downloadStretch_rat : (downloadStretch : Stretch ℚ) = ⟨1 / 5, 3 / 5⟩ := by
  unfold downloadStretch metadataShare downloadShare
  norm_num

lemma extractStretch_rat : (extractStretch : Stretch ℚ) = ⟨4 / 5, 1 / 5⟩ := by
  unfold extractStretch extractStart metadataShare downloadShare
  rw [Fraction.one_rat]
  norm_num

/-- The release's metadata arrive: the platform is known, and the client answers. -/
def Arrives (i : Installer ℚ) : Prop :=
  (∃ p, i.platform = .ok p) ∧ ∃ release, i.client.latest = .ok release

/-- What is reported by the time of the journal `j` is in order: it begins at one fifth once the
metadata have arrived, and each fraction was reported when it might be. -/
def InOrder (i : Installer ℚ) (j : Journal ℚ) : Prop :=
  i.Arrives ∧ Begun j ∨ ¬ i.Arrives ∧ j.fractions = []

/-- The last report of an installation that is ready. -/
def IsComplete (j : Journal ℚ) : Prop :=
  ∃ earlier, j = .fraction 1 :: earlier ∧ stage? earlier = some .ready

/-- What is reported by the end is in order, and complete if something is installed. -/
def Reports (i : Installer ℚ) (r : Except InstallError InstallOutcome) (j : Journal ℚ) : Prop :=
  i.InOrder j ∧ ∀ path, r = .ok (.installed path) → IsComplete j

/-- The download takes the stretch from one fifth to four fifths. -/
theorem leads_download (i : Installer ℚ) (a : Asset) (archive : String) :
    Leads (Stands .downloading (1 / 5)) (i.download a archive)
      fun _ => Stands .downloading (4 / 5) := by
  have hsteady := Stands.steady .downloading (1 / 5)
  have hmono : ∀ j, Stands .downloading (1 / 5) j → Stands .downloading (4 / 5) j :=
    fun j h => h.mono (by norm_num)
  apply (preserves_note (s := .opened a) hsteady trivial).bind_leads hmono
  intro _
  refine leads_liftError_bind (fun _ _ => hmono) fun source _ => ?_
  apply (preserves_makeParent hsteady).bind_leads hmono
  intro _
  apply (preserves_place archive).bind_leads hmono
  intro q
  apply (preserves_change hsteady _).bind_leads hmono
  intro _
  refine leads_copyTo (s := downloadStretch) rfl ?_ ?_ (by norm_num) ?_ source archive q
  · rw [downloadStretch_rat]
  · rw [downloadStretch_rat]
    norm_num
  · exact fun f hlo hhi => ⟨hlo, hhi⟩

/-- Extracting takes the stretch from four fifths to the whole. -/
theorem leads_extracting (i : Installer ℚ) (format : ArchiveFormat)
    (archive name target : String) :
    Leads (Stands .decompressing (4 / 5))
      (extract i.host.limits (i.plan extractStretch 0) format archive name target)
      fun _ => Stands .decompressing 1 := by
  apply leads_extract (Stands.steady _ _) (Stands.steady _ _)
  · exact fun j h => h.mono (by norm_num)
  · intro total source path p
    refine leads_copyTo (s := extractStretch) rfl ?_ ?_ (by norm_num) ?_ source path p
    · rw [extractStretch_rat]
    · rw [extractStretch_rat]
      norm_num
    · exact fun f hlo hhi => ⟨hlo, hhi⟩

lemma leads_cancel {I : Journal ℚ → Prop} (harrives : i.Arrives) (hI : ∀ j, I j → Begun j)
    (download? : Option String) :
    Leads I (cancel download? : Activity ℚ InstallOutcome) i.Reports := by
  refine leads_note_bind (J := Begun) ?_ fun j h => (hI j h).stage _
  exact leads_pure fun j h => ⟨.inl ⟨harrives, h⟩, by simp⟩

/-- Unpacking goes on from the download, and completes the progress unless something goes wrong. -/
theorem leads_unpack (harrives : i.Arrives) (p : Platform) (archive : String) :
    Leads (Stands .downloading (4 / 5)) (i.unpack p archive) i.Reports := by
  unfold unpack
  dsimp only
  have hextracting := Stands.steady .decompressing (4 / 5)
  have hextracted := Stands.steady .decompressing 1
  have hpermitted := Stands.steady .settingPermissions 1
  have hreports : ∀ st (e : InstallError) j, Stands st 1 j → i.Reports (.error e) j :=
    fun st e j h => ⟨.inl ⟨harrives, h.toBegun⟩, by simp⟩
  refine leads_note_bind (J := Stands .decompressing (4 / 5)) ?_
    fun j h => h.enter (by decide) (by decide)
  refine leads_note_bind ?_ fun j => hextracting _ j trivial
  refine (leads_extracting i p.format archive p.executable (i.target p)).bind (hreports _) ?_
  intro outcome
  cases outcome with
  | cancelled n => exact leads_cancel harrives (fun j h => h.toBegun) _
  | completed n =>
    have hremove : Preserves (Stands .decompressing 1)
        (do change i.host.limits archive (.remove (← place archive)) : Activity ℚ Unit) :=
      (preserves_place archive).bind_preserves fun _ => preserves_change hextracted _
    have htry : Preserves (Stands .decompressing 1)
        (tryCatch (do change i.host.limits archive (.remove (← place archive))) fun _ => return ()
          : Activity ℚ Unit) :=
      hremove.tryCatch (fun _ _ h => h) fun _ => preserves_pure
    refine htry.bind (hreports _) fun _ => ?_
    refine leads_note_bind (J := Stands .settingPermissions 1) ?_
      fun j h => h.enter (by decide) (by decide)
    refine (preserves_makeRunnable hpermitted).bind (hreports _) fun _ => ?_
    refine leads_note_bind (J := Stands .ready 1) ?_ fun j h => h.enter (by decide) (by decide)
    refine leads_note_bind (J := fun j => Begun j ∧ IsComplete j) ?_ fun j h => ?_
    · exact leads_pure fun j h => ⟨.inl ⟨harrives, h.1⟩, fun _ _ => h.2⟩
    · rw [Fraction.one_rat]
      exact ⟨(h.fraction (le_refl 1) rfl).toBegun, j, rfl, h.stage⟩

/-- Up to the download one fraction is reported, once the metadata have arrived. -/
theorem leads_stages (i : Installer ℚ) : Leads (Early [.idle]) i.stages i.Reports := by
  unfold stages
  refine leads_note_bind ?_ fun j h => h.stage .resolvingPlatform
  refine leads_liftError_bind (fun e he j h => ?_) fun p hp => ?_
  · refine ⟨.inr ⟨?_, h.fractions⟩, by simp⟩
    rintro ⟨⟨p, hp⟩, -⟩
    cases he.symm.trans hp
  refine leads_note_bind ?_ fun j h => h.stage .fetchingMetadata
  refine leads_note_bind ?_ fun j h => h.status "Getting latest release meta"
  refine leads_liftError_bind (fun e he j h => ?_) fun release hrelease => ?_
  · refine ⟨.inr ⟨?_, h.fractions⟩, by simp⟩
    rintro ⟨-, release, hrelease⟩
    cases he.symm.trans hrelease
  have harrives : i.Arrives := ⟨⟨p, hp⟩, release, hrelease⟩
  have hreports : ∀ st top (e : InstallError) j, Stands st top j → i.Reports (.error e) j :=
    fun st top e j h => ⟨.inl ⟨harrives, h.toBegun⟩, by simp⟩
  rw [metadataShare_rat]
  refine leads_note_bind ?_ fun j h => h.begin
  have hsteady := Stands.steady .fetchingMetadata (1 / 5)
  refine (preserves_ask hsteady i.listener).bind (hreports _ _) fun stop => ?_
  split
  · exact leads_cancel harrives (fun j h => h.toBegun) none
  split
  · exact leads_throw (hreports _ _ _)
  refine leads_liftError_bind (fun e _ => hreports _ _ e) fun a _ => ?_
  refine leads_note_bind (J := Stands .downloading (1 / 5)) ?_
    fun j h => h.enter (by decide) (by decide)
  refine leads_note_bind ?_ fun j => Stands.steady .downloading (1 / 5) _ j trivial
  refine (leads_download i a _).bind (hreports _ _) fun outcome => ?_
  cases outcome with
  | cancelled n => exact leads_cancel harrives (fun j h => h.toBegun) _
  | completed n => exact leads_unpack harrives p _

/-- That an installation failed is no fraction. -/
theorem leads_run (i : Installer ℚ) : Leads (fun j => j = []) i.run i.Reports := by
  unfold run
  refine leads_note_bind (J := Early [.idle]) ?_ fun j h => ?_
  · refine (leads_stages i).tryCatch (fun _ _ h => h) fun e => ?_
    refine leads_note_bind (J := i.InOrder) ?_ fun j h => ?_
    · exact leads_throw fun j h => ⟨h, by simp⟩
    · rcases h.1 with ⟨harrives, hbegun⟩ | ⟨hnever, hnone⟩
      · exact .inl ⟨harrives, hbegun.stage .failed⟩
      · exact .inr ⟨hnever, by simpa using hnone⟩
  · rw [h]
    exact ⟨rfl, rfl⟩

/-- The fractions that an installation reports never run backwards. They begin at one fifth, which
is reported just if the metadata arrive; each belongs to its stage, and none is reported once the
installation is cancelled or given up; and the whole is the last report of one that is finished. -/
theorem run_progress (i : Installer ℚ) (files : Files) :
    ∃ r w, i.run.Ends ⟨files, []⟩ r w ∧
      w.journal.fractions.Pairwise (· ≤ ·) ∧
      (i.Arrives ∧ w.journal.fractions.head? = some (1 / 5) ∨
        ¬ i.Arrives ∧ w.journal.fractions = []) ∧
      (∀ f earlier, .fraction f :: earlier <:+ w.journal →
        (∃ s, Journal.stage? earlier = some s ∧ s.Allows f) ∧
        .cancelled ∉ Journal.stages earlier ∧ .failed ∉ Journal.stages earlier) ∧
      ∀ path, r = .ok (.installed path) →
        ∃ earlier, w.journal = .fraction 1 :: earlier ∧ stage? earlier = some .ready := by
  obtain ⟨r, w, hends⟩ := exists_ends i.run ⟨files, []⟩
  obtain ⟨horder, hcomplete⟩ := leads_run i ⟨files, []⟩ r w rfl hends
  have hadmitted : Admitted w.journal := by
    rcases horder with ⟨-, hbegun⟩ | ⟨-, hnone⟩
    · exact hbegun.admitted
    · exact admitted_of_nil hnone
  refine ⟨r, w, hends, hadmitted.sorted, ?_, fun f earlier hmem => ?_, hcomplete⟩
  · rcases horder with ⟨harrives, hbegun⟩ | ⟨hnever, hnone⟩
    · exact .inl ⟨harrives, hbegun.first⟩
    · exact .inr ⟨hnever, hnone⟩
  · obtain ⟨hallowed, -, hrunning⟩ := hadmitted f earlier hmem
    exact ⟨hallowed, hrunning⟩

end Installer

end Mend
