import Mend.Install.Latest
import Mend.Proofs.Install.Endings

/-! What becomes of a journal: from what is known of it when an activity is started follows what is
known when it has ended. Most steps of an installation report neither a stage nor a fraction; what
such steps leave alone is kept by all that is only done to files. -/
namespace Mend

variable {φ α β : Type}

/-- Steps that report neither a stage nor a fraction. -/
def Step.IsStill : Step φ → Prop
  | .stage _ | .fraction _ => False
  | _ => True

/-- What holds of a journal is kept by still steps. -/
def Journal.Steady (I : Journal φ → Prop) : Prop := ∀ s j, s.IsStill → I j → I (s :: j)

namespace Activity

/-- Started with a journal that `I` holds of, the activity ends with a result and a journal that `Q`
holds of. -/
def Leads (I : Journal φ → Prop) (act : Activity φ α)
    (Q : Except InstallError α → Journal φ → Prop) : Prop :=
  ∀ w r v, I w.journal → act.Ends w r v → Q r v.journal

variable {I J : Journal φ → Prop} {Q : Except InstallError α → Journal φ → Prop}
  {R : Except InstallError β → Journal φ → Prop} {act : Activity φ α}

theorem Leads.bind {f : α → Activity φ β} (h : Leads I act Q)
    (herror : ∀ e j, Q (.error e) j → R (.error e) j) (hf : ∀ a, Leads (Q (.ok a)) (f a) R) :
    Leads I (act >>= f) R := by
  intro w r v hw hends
  rcases hends.bind with ⟨e, hact, rfl⟩ | ⟨a, u, hact, hrest⟩
  · exact herror e v.journal (h w _ v hw hact)
  · exact hf a u r v (h w _ u hw hact) hrest

theorem Leads.tryCatch {f : InstallError → Activity φ α}
    {P : Except InstallError α → Journal φ → Prop} (h : Leads I act Q)
    (hok : ∀ a j, Q (.ok a) j → P (.ok a) j) (hf : ∀ e, Leads (Q (.error e)) (f e) P) :
    Leads I (tryCatch act f) P := by
  intro w r v hw hends
  rcases ends_tryCatch.1 hends with ⟨a, hact, rfl⟩ | ⟨e, u, hact, hrest⟩
  · exact hok a v.journal (h w _ v hw hact)
  · exact hf e u r v (h w _ u hw hact) hrest

lemma leads_pure {a : α} (h : ∀ j, I j → Q (.ok a) j) : Leads I (pure a : Activity φ α) Q := by
  intro w r v hw hends
  obtain ⟨rfl, rfl⟩ := ends_pure.1 hends
  exact h _ hw

lemma leads_throw {e : InstallError} (h : ∀ j, I j → Q (.error e) j) :
    Leads I (throw e : Activity φ α) Q := by
  intro w r v hw hends
  obtain ⟨rfl, rfl⟩ := ends_throw.1 hends
  exact h _ hw

lemma leads_get_bind {f : World φ → Activity φ α} (hf : ∀ w, Leads I (f w) Q) :
    Leads I (get >>= f) Q := by
  intro w r v hw hends
  exact hf w w r v hw (ends_get_bind.1 hends)

lemma leads_note_bind {s : Step φ} {f : Unit → Activity φ α} (hf : Leads J (f ()) Q)
    (hs : ∀ j, I j → J (s :: j)) : Leads I (note s >>= f) Q := by
  intro w r v hw hends
  exact hf _ r v (hs _ hw) (ends_note_bind.1 hends)

lemma leads_liftError_bind {x : Except InstallError α} {f : α → Activity φ β}
    (herror : ∀ e, x = .error e → ∀ j, I j → R (.error e) j)
    (hf : ∀ a, x = .ok a → Leads I (f a) R) : Leads I (Installer.liftError x >>= f) R := by
  intro w r v hw hends
  cases x with
  | error e =>
    rcases hends.bind with ⟨e', hthrow, rfl⟩ | ⟨a, u, hthrow, -⟩
    · obtain ⟨he, rfl⟩ := ends_throw.1 hthrow
      obtain rfl := Except.error.inj he
      exact herror e' rfl v.journal hw
    · cases (ends_throw.1 hthrow).1
  | ok a => exact hf a rfl w r v hw hends

/-- Whatever comes of the activity, `I` is kept. -/
def Preserves (I : Journal φ → Prop) (act : Activity φ α) : Prop := Leads I act fun _ => I

/-- What holds in the end goes on to hold if what comes after keeps it. -/
theorem Leads.bind_preserves {f : α → Activity φ β} (h : Leads I act fun _ => J)
    (hf : ∀ a, Preserves J (f a)) : Leads I (act >>= f) fun _ => J :=
  h.bind (fun _ _ hj => hj) hf

/-- What is kept still holds when the next activity starts. -/
theorem Preserves.bind_leads {f : α → Activity φ β} (h : Preserves I act) (hIJ : ∀ j, I j → J j)
    (hf : ∀ a, Leads I (f a) fun _ => J) : Leads I (act >>= f) fun _ => J :=
  Leads.bind h (fun _ => hIJ) hf

lemma preserves_pure {a : α} : Preserves I (pure a : Activity φ α) := leads_pure fun _ h => h

lemma preserves_throw {e : InstallError} : Preserves I (throw e : Activity φ α) :=
  leads_throw fun _ h => h

lemma preserves_note (steady : Journal.Steady I) {s : Step φ} (hs : s.IsStill) :
    Preserves I (note s) := by
  intro w r v hw hends
  obtain ⟨-, rfl⟩ := ends_note.1 hends
  exact steady _ _ hs hw

lemma preserves_ask (steady : Journal.Steady I) (listener : Listener φ) :
    Preserves I (ask listener) := by
  intro w r v hw hends
  obtain ⟨-, rfl⟩ := ends_ask.1 hends
  exact steady _ _ trivial hw

lemma preserves_ofFile {path : String} {x : Except FileError α} :
    Preserves I (ofFile path x : Activity φ α) := by
  cases x with
  | error e => exact preserves_throw
  | ok a => exact preserves_pure

lemma preserves_place (path : String) : Preserves I (place path : Activity φ Place) :=
  leads_get_bind fun _ => preserves_ofFile

variable {path target : String} {limits : Limits}

lemma preserves_change (steady : Journal.Steady I) (c : Change) :
    Preserves I (change limits path c : Activity φ Unit) := by
  intro w r v hw hends
  cases r with
  | error e =>
    obtain ⟨-, -, -, rfl⟩ := ends_change_error.1 hends
    exact hw
  | ok =>
    obtain ⟨fs, -, rfl⟩ := ends_change_ok.1 hends
    exact steady _ _ trivial hw

lemma preserves_discard (steady : Journal.Steady I) (p : Place) :
    Preserves I (discard limits path p : Activity φ Unit) :=
  (preserves_change steady _).tryCatch (fun _ _ h => h) fun _ => preserves_pure

/-- The induction is on the pieces of the path. -/
lemma preserves_makeDirectories (steady : Journal.Steady I) (p : Place) (pieces : List String) :
    Preserves I (makeDirectories limits path p pieces : Activity φ Place) := by
  induction pieces generalizing p with
  | nil => exact preserves_pure
  | cons piece rest ih =>
    rw [makeDirectories]
    apply leads_get_bind
    intro w
    apply preserves_ofFile.bind_preserves
    intro q
    apply leads_get_bind
    intro w
    split
    · exact ih q
    · exact (preserves_change steady _).bind_preserves fun _ => ih q

lemma preserves_makeParent (steady : Journal.Steady I) :
    Preserves I (makeParent limits path : Activity φ Place) := by
  unfold makeParent
  dsimp only
  split
  · exact preserves_throw
  · exact leads_get_bind fun _ => preserves_makeDirectories steady _ _

lemma preserves_settle (steady : Journal.Steady I) (staged : Place) (outcome : CopyOutcome) :
    Preserves I (settle limits staged target outcome : Activity φ Unit) := by
  cases outcome with
  | completed n => exact (preserves_place target).bind_preserves fun _ => preserves_change steady _
  | cancelled n => exact preserves_discard steady _

lemma preserves_makeRunnable (steady : Journal.Steady I) :
    Preserves I (Installer.makeRunnable limits path : Activity φ Unit) := by
  have hgrant : Preserves I (Installer.grantRunning limits path : Activity φ Unit) := by
    apply (preserves_place path).bind_preserves
    intro p
    apply leads_get_bind
    intro w
    split
    · split
      · exact preserves_pure
      · exact preserves_change steady _
    · exact preserves_throw
  exact hgrant.tryCatch (fun _ _ h => h) fun _ => preserves_throw

variable [Fraction φ] {plan : CopyPlan φ}

/-- What copying leads to, installing leads to as well. -/
theorem leads_install {entry : Archive.Entry} (hI : Journal.Steady I) (hJ : Journal.Steady J)
    (hIJ : ∀ j, I j → J j) (hcopy : ∀ total source path p,
      Leads I (copyTo limits { plan with total } source path p) fun _ => J) :
    Leads I (install limits plan entry target) fun _ => J := by
  unfold install
  apply (preserves_makeParent hI).bind_leads hIJ
  intro directory
  apply leads_get_bind
  intro w
  apply (preserves_change hI _).bind_leads hIJ
  intro _
  have hstaged : Leads I (do
      let outcome ← copyTo limits { plan with total := entry.size } entry.content target
        (directory ++ [w.files.freshName])
      settle limits (directory ++ [w.files.freshName]) target outcome
      return outcome) fun _ => J := by
    apply (hcopy _ _ _ _).bind_preserves
    intro outcome
    exact (preserves_settle hJ _ outcome).bind_preserves fun _ => preserves_pure
  refine hstaged.tryCatch (fun _ _ h => h) ?_
  intro e
  exact (preserves_discard hJ _).bind_preserves fun _ => preserves_throw

/-- The induction is on the entries. -/
theorem leads_installFirst {name : String} (hI : Journal.Steady I) (hJ : Journal.Steady J)
    (hIJ : ∀ j, I j → J j) (hcopy : ∀ total source path p,
      Leads I (copyTo limits { plan with total } source path p) fun _ => J)
    (listing : Archive.Listing InstallError) :
    Leads I (installFirst limits plan name target listing) fun _ => J := by
  induction listing with
  | nil => exact leads_throw hIJ
  | cons next rest ih =>
    unfold installFirst
    apply (preserves_ask hI plan.listener).bind_leads hIJ
    intro stop
    split
    · exact leads_pure hIJ
    · cases next with
      | error e => exact leads_throw hIJ
      | ok entry =>
        apply (preserves_note (s := .listed entry.path) hI trivial).bind_leads hIJ
        intro _
        split
        · exact leads_install hI hJ hIJ hcopy
        · exact ih

theorem leads_extract {format : ArchiveFormat} {archive name : String} (hI : Journal.Steady I)
    (hJ : Journal.Steady J) (hIJ : ∀ j, I j → J j) (hcopy : ∀ total source path p,
      Leads I (copyTo limits { plan with total } source path p) fun _ => J) :
    Leads I (extract limits plan format archive name target) fun _ => J := by
  unfold extract
  apply leads_get_bind
  intro w
  split
  · exact leads_throw hIJ
  · split
    · exact leads_throw hIJ
    · exact leads_installFirst hI hJ hIJ hcopy _

end Activity
end Mend
