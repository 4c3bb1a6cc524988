import Mathlib.Data.Set.Defs
import Mend.Install.Latest
import Mend.Proofs.Install.Endings
import Mend.Proofs.Install.Joining
import Mend.Proofs.Limits

/-! What activities do to files, told by the changes that they add to the journal. An activity that
is made of others adds no other changes than these do. -/
namespace Mend

variable {φ α β : Type}

/-- A change leaves the directory that relative paths start from. -/
lemma Files.here_change {fs fs' : Files} {c : Change} (h : fs.change c = .ok fs') :
    fs'.here = fs.here := by
  have hset : ∀ (fs : Files) p n, (fs.set p n).here = fs.here := fun _ _ _ => rfl
  have herase : ∀ (fs : Files) p, (fs.erase p).here = fs.here := fun _ _ => rfl
  cases c <;> grind [Files.change]

namespace Journal

/-- The files after all the changes that a journal tells of. -/
def replay (fs : Files) : Journal φ → Except FileError Files
  | [] => .ok fs
  | .changed c :: j => (replay fs j).bind (·.change c)
  | _ :: j => replay fs j

lemma replay_append (fs : Files) (xs ys : Journal φ) :
    (xs ++ ys).replay fs = (ys.replay fs).bind (replay · xs) := by
  induction xs with
  | nil =>
    rw [List.nil_append]
    cases ys.replay fs <;> rfl
  | cons s xs ih =>
    cases s with
    | changed c =>
      rw [List.cons_append, replay, ih]
      cases ys.replay fs <;> rfl
    | _ => exact ih

lemma replay_of_not_changed (fs : Files) {j : Journal φ} (h : ∀ c, .changed c ∉ j) :
    replay fs j = .ok fs := by
  induction j with
  | nil => rfl
  | cons s j ih =>
    have hrest : replay fs j = .ok fs := ih fun c hc => h c (List.mem_cons_of_mem s hc)
    cases s with
    | changed c => exact absurd List.mem_cons_self (h c)
    | _ => exact hrest

end Journal

namespace Activity

/-- From one world to another relative paths have stayed the same. The changes on the way have all
been told of, and are among those that `P` allows. -/
structure Obeyed (files : Files) (P : Change → Prop) (w v : World φ) : Prop where
  here : v.files.here = files.here
  journal : ∃ steps, v.journal = steps ++ w.journal ∧ steps.replay w.files = .ok v.files ∧
    ∀ c, .changed c ∈ steps → P c

/-- Started where relative paths are those of `files`, the activity makes only changes that `P`
allows, and its results are as `Q` says. -/
def Obeys (files : Files) (P : Change → Prop) (act : Activity φ α) (Q : α → Prop) : Prop :=
  ∀ w r v, w.files.here = files.here → act.Ends w r v →
    Obeyed files P w v ∧ ∀ a, r = .ok a → Q a

variable {files : Files} {P : Change → Prop} {Q : α → Prop} {R : β → Prop} {w u v : World φ}
  {act : Activity φ α} {r : Except InstallError α} {path : String} {limits : Limits}

/-- Steps without a change. -/
lemma obeyed_of_not_changed (steps : Journal φ) (hw : w.files.here = files.here)
    (h : ∀ c, .changed c ∉ steps) : Obeyed files P w { w with journal := steps ++ w.journal } :=
  ⟨hw, steps, rfl, Journal.replay_of_not_changed _ h, fun c hc => absurd hc (h c)⟩

lemma Obeyed.refl (h : w.files.here = files.here) : Obeyed files P w w :=
  obeyed_of_not_changed [] h (by simp)

lemma Obeyed.trans (h : Obeyed files P w u) (h' : Obeyed files P u v) : Obeyed files P w v := by
  obtain ⟨before, hbefore, hreplay, hP⟩ := h.journal
  obtain ⟨after, hafter, hreplay', hP'⟩ := h'.journal
  refine ⟨h'.here, after ++ before, ?_, ?_, fun c hc => ?_⟩
  · rw [hafter, hbefore, List.append_assoc]
  · rw [Journal.replay_append, hreplay]
    exact hreplay'
  · rcases List.mem_append.1 hc with hc | hc
    · exact hP' c hc
    · exact hP c hc

lemma obeys_pure {a : α} (h : Q a) : Obeys files P (pure a : Activity φ α) Q := by
  intro w r v hw hends
  obtain ⟨rfl, rfl⟩ := ends_pure.1 hends
  refine ⟨.refl hw, fun b hb => ?_⟩
  rw [← Except.ok.inj hb]
  exact h

lemma obeys_throw (e : InstallError) : Obeys files P (throw e : Activity φ α) Q := by
  intro w r v hw hends
  obtain ⟨rfl, rfl⟩ := ends_throw.1 hends
  exact ⟨.refl hw, by simp⟩

/-- What comes after may rely on the result of what came before. -/
theorem Obeys.bind {f : α → Activity φ β} (h : Obeys files P act Q)
    (hf : ∀ a, Q a → Obeys files P (f a) R) : Obeys files P (act >>= f) R := by
  intro w r v hw hends
  rcases hends.bind with ⟨e, hact, rfl⟩ | ⟨a, u, hact, hrest⟩
  · exact ⟨(h w _ v hw hact).1, by simp⟩
  · obtain ⟨hobeyed, hQ⟩ := h w _ u hw hact
    obtain ⟨hobeyed', hR⟩ := hf a (hQ a rfl) u r v hobeyed.here hrest
    exact ⟨hobeyed.trans hobeyed', hR⟩

theorem Obeys.tryCatch {f : InstallError → Activity φ α} (h : Obeys files P act Q)
    (hf : ∀ e, Obeys files P (f e) Q) : Obeys files P (tryCatch act f) Q := by
  intro w r v hw hends
  rcases ends_tryCatch.1 hends with ⟨a, hact, rfl⟩ | ⟨e, u, hact, hrest⟩
  · exact h w _ v hw hact
  · obtain ⟨hobeyed, -⟩ := h w _ u hw hact
    obtain ⟨hobeyed', hQ⟩ := hf e u r v hobeyed.here hrest
    exact ⟨hobeyed.trans hobeyed', hQ⟩

lemma Obeys.mono {P' : Change → Prop} {Q' : α → Prop} (h : Obeys files P act Q)
    (hP : ∀ c, P c → P' c) (hQ : ∀ a, Q a → Q' a) : Obeys files P' act Q' := by
  intro w r v hw hends
  obtain ⟨hobeyed, hr⟩ := h w r v hw hends
  obtain ⟨steps, hsteps, hreplay, hchanges⟩ := hobeyed.journal
  exact ⟨⟨hobeyed.here, steps, hsteps, hreplay, fun c hc => hP c (hchanges c hc)⟩,
    fun a ha => hQ a (hr a ha)⟩

/-- What has been told stays told. -/
lemma Obeys.told {s : Step φ} (h : Obeys files P act Q) (hw : w.files.here = files.here)
    (hends : act.Ends w r v) (hs : s ∈ w.journal) : s ∈ v.journal := by
  obtain ⟨⟨-, steps, hsteps, -⟩, -⟩ := h w r v hw hends
  rw [hsteps]
  exact List.mem_append_right steps hs

lemma obeys_get_bind {f : World φ → Activity φ α}
    (hf : ∀ w, w.files.here = files.here → Obeys files P (f w) Q) :
    Obeys files P (get >>= f) Q := by
  intro w r v hw hends
  exact hf w hw w r v hw (ends_get_bind.1 hends)

lemma obeys_note {s : Step φ} (hs : ∀ c, s ≠ .changed c) :
    Obeys files P (note s) fun _ => True := by
  intro w r v hw hends
  obtain ⟨-, rfl⟩ := ends_note.1 hends
  have hnone : ∀ c, .changed c ∉ [s] := fun c hc => hs c (List.mem_singleton.1 hc).symm
  exact ⟨obeyed_of_not_changed [s] hw hnone, fun _ _ => trivial⟩

/-- Notes are no changes. -/
lemma obeys_note_bind {s : Step φ} {f : Unit → Activity φ α} (hs : ∀ c, s ≠ .changed c)
    (hf : Obeys files P (f ()) Q) : Obeys files P (note s >>= f) Q :=
  (obeys_note hs).bind fun _ _ => hf

lemma obeys_ask (listener : Listener φ) : Obeys files P (ask listener) fun _ => True := by
  intro w r v hw hends
  obtain ⟨-, rfl⟩ := ends_ask.1 hends
  exact ⟨obeyed_of_not_changed [_] hw (by simp), fun _ _ => trivial⟩

lemma obeys_ofFile {x : Except FileError α} (h : ∀ a, x = .ok a → Q a) :
    Obeys files P (ofFile path x : Activity φ α) Q := by
  cases x with
  | error e => exact obeys_throw _
  | ok a => exact obeys_pure (h a rfl)

lemma obeys_place (path : String) :
    Obeys files P (place path : Activity φ Place) fun p => p = files.reach path := by
  apply obeys_get_bind
  intro w hw
  apply obeys_ofFile
  intro p hp
  rw [Files.place_eq_ok hp, Files.reach_congr hw]

lemma obeys_change {c : Change} (hc : P c) :
    Obeys files P (change limits path c : Activity φ Unit) fun _ => True := by
  intro w r v hw hends
  refine ⟨?_, fun _ _ => trivial⟩
  cases r with
  | error e =>
    obtain ⟨fault, -, -, rfl⟩ := ends_change_error.1 hends
    exact .refl hw
  | ok =>
    obtain ⟨fs, hfs, rfl⟩ := ends_change_ok.1 hends
    replace hfs := (Limits.change_eq_ok_iff.1 hfs).1
    refine ⟨(Files.here_change hfs).trans hw, [.changed c], rfl, hfs, fun c' hc' => ?_⟩
    cases List.mem_singleton.1 hc'
    exact hc

lemma obeys_discard {p : Place} (hp : P (.remove p)) :
    Obeys files P (discard limits path p : Activity φ Unit) fun _ => True :=
  (obeys_change hp).tryCatch fun _ => obeys_pure trivial

end Activity

namespace Change

/-- The places whose files a change touches. -/
def files : Change → List Place
  | .makeDirectory _ => []
  | .create p _ | .write p _ | .setMode p _ | .remove p => [p]
  | .move p q => [p, q]

/-- The places where a change makes directories. -/
def directories : Change → List Place
  | .makeDirectory p => [p]
  | _ => []

/-- A change that touches files at some places only, and makes directories at some others. -/
structure Within (touched made : Set Place) (c : Change) : Prop where
  files : ∀ q ∈ c.files, q ∈ touched
  directories : ∀ q ∈ c.directories, q ∈ made

variable {touched made : Set Place} {p q : Place}

lemma within_makeDirectory (h : p ∈ made) : Within touched made (.makeDirectory p) :=
  ⟨by simp [files], by simpa [directories] using h⟩

lemma within_move (hp : p ∈ touched) (hq : q ∈ touched) : Within touched made (.move p q) :=
  ⟨by simpa [files] using ⟨hp, hq⟩, by simp [directories]⟩

/-- A change of the file at one place. -/
lemma within_of_files {c : Change} (hc : c.files = [p]) (hp : p ∈ touched) :
    Within touched made c := by
  constructor
  · simpa [hc] using hp
  · cases c <;> simp_all [files, directories]

end Change

/-- The places whose files a step touches. -/
def Step.files : Step φ → List Place
  | .changed c => c.files
  | _ => []

lemma Step.exists_change {s : Step φ} {p : Place} (h : p ∈ s.files) :
    ∃ c, s = .changed c ∧ p ∈ c.files := by
  cases s with
  | changed c => exact ⟨c, rfl, h⟩
  | _ => cases h

namespace Activity

open Change

variable {files : Files} {touched made : Set Place} {path target : String} {p : Place}
  {limits : Limits}

/-- The induction is on the pieces of the path. -/
lemma obeys_makeDirectories {pieces : List String} (hmade : ∀ q ∈ p.stops pieces, q ∈ made) :
    Obeys files (Within touched made) (makeDirectories limits path p pieces : Activity φ Place)
      fun q => q = pieces.foldl Place.step p := by
  induction pieces generalizing p with
  | nil => exact obeys_pure rfl
  | cons piece rest ih =>
    simp only [Place.stops, List.forall_mem_cons] at hmade
    obtain ⟨hpiece, hrest⟩ := hmade
    rw [makeDirectories]
    apply obeys_get_bind
    intro w _
    have henter : ∀ q, w.files.enter p piece = .ok q → q = p.step piece :=
      fun q hq => (Files.enter_eq_ok_iff.1 hq).2
    apply (obeys_ofFile henter).bind
    rintro _ rfl
    apply obeys_get_bind
    intro w _
    split
    · exact ih hrest
    · exact (obeys_change (within_makeDirectory hpiece)).bind fun _ _ => ih hrest

/-- A directory whose name has a zero byte in it cannot be made. -/
lemma obeys_makeParent_of_zeroByte {P : Change → Prop} {Q : Place → Prop}
    (h : ∃ piece ∈ Path.parent path, '\x00' ∈ piece.toList) :
    Obeys files P (makeParent limits path : Activity φ Place) Q := by
  have hany : (Path.parent path).any ('\x00' ∈ ·.toList) = true := by simpa using h
  unfold makeParent
  dsimp only
  rw [if_pos hany]
  exact obeys_throw _

/-- Without limits the first directory that is missing on the way is made, whatever comes of the
others: the induction is on the pieces that lead through directories. -/
lemma makeDirectories_tells {front rest : List String} {piece : String} {w v : World φ}
    {r : Except InstallError Place}
    (hdirs : ∀ q ∈ p :: p.stops front, w.files.node? q = some .directory)
    (hstep : (front.foldl Place.step p).step piece = front.foldl Place.step p ++ [piece])
    (hnone : w.files.node? (front.foldl Place.step p ++ [piece]) = none)
    (hends : (makeDirectories {} path p (front ++ piece :: rest)).Ends w r v) :
    .changed (.makeDirectory (front.foldl Place.step p ++ [piece])) ∈ v.journal := by
  induction front generalizing p with
  | nil =>
    have hp : w.files.node? p = some .directory := hdirs p List.mem_cons_self
    have henter : w.files.enter p piece = .ok (p ++ [piece]) :=
      Files.enter_eq_ok_iff.2 ⟨hp, hstep.symm⟩
    obtain ⟨fs, hfs⟩ : ∃ fs, Limits.change {} w.files (.makeDirectory (p ++ [piece])) = .ok fs := by
      simp only [List.foldl_nil] at hnone
      simp [Limits.change_eq_ok_iff, Limits.refusal?, Files.change, hnone, Files.isDirectory, hp]
    have habsent : ¬ w.files.isDirectory (p ++ [piece]) := by
      simp only [List.foldl_nil] at hnone
      simp [Files.isDirectory, hnone]
    have hmake : (change {} path (.makeDirectory (p ++ [piece]))).Ends w (.ok ())
        ⟨fs, .changed (.makeDirectory (p ++ [piece])) :: w.journal⟩ :=
      ends_change_ok.2 ⟨fs, hfs, rfl⟩
    rw [List.nil_append, makeDirectories, ends_get_bind,
      ends_bind_of_ok (ends_ofFile_ok.2 ⟨henter, rfl⟩), ends_get_bind, if_neg habsent,
      ends_bind_of_ok hmake] at hends
    have hrest : Obeys fs (Within Set.univ Set.univ)
        (makeDirectories {} path (p ++ [piece]) rest : Activity φ Place) _ :=
      obeys_makeDirectories fun _ _ => trivial
    exact hrest.told rfl hends List.mem_cons_self
  | cons next front ih =>
    simp only [Place.stops, List.forall_mem_cons] at hdirs
    obtain ⟨hp, hnext, hrest⟩ := hdirs
    have henter : w.files.enter p next = .ok (p.step next) := Files.enter_eq_ok_iff.2 ⟨hp, rfl⟩
    have hthere : w.files.isDirectory (p.step next) := by simp [Files.isDirectory, hnext]
    rw [List.cons_append, makeDirectories, ends_get_bind,
      ends_bind_of_ok (ends_ofFile_ok.2 ⟨henter, rfl⟩), ends_get_bind, if_pos hthere] at hends
    exact ih (List.forall_mem_cons.2 ⟨hnext, hrest⟩) hstep hnone hends

lemma obeys_makeParent (hmade : ∀ q ∈ files.wayTo path, q ∈ made) :
    Obeys files (Within touched made) (makeParent limits path : Activity φ Place)
      fun q => q = files.directory path := by
  unfold makeParent
  dsimp only
  split
  · exact obeys_throw _
  · apply obeys_get_bind
    intro w hw
    rw [Files.start_congr hw]
    exact obeys_makeDirectories hmade

lemma obeys_settle {staged : Place} (outcome : CopyOutcome) (hstaged : staged ∈ touched)
    (htarget : files.reach target ∈ touched) :
    Obeys files (Within touched made) (settle limits staged target outcome : Activity φ Unit)
      fun _ => True := by
  cases outcome with
  | completed n =>
    apply (obeys_place target).bind
    rintro _ rfl
    exact obeys_change (within_move hstaged htarget)
  | cancelled n => exact obeys_discard (within_of_files rfl hstaged)

variable [Fraction φ]

/-- Copying tells of no changes: the induction is on what is left to read. -/
lemma exists_copy_steps (plan : CopyPlan φ) (sink : Sink) (t : Transfer φ) :
    ∃ steps, (plan.copy sink t).2.journal = steps ++ t.journal ∧ ∀ c, .changed c ∉ steps := by
  fun_induction CopyPlan.copy plan sink t with
  | case1 t stop journal hstop => exact ⟨[.asked stop], rfl, by simp⟩
  | case2 t stop journal hstop source hread ih =>
    obtain ⟨steps, hsteps, hnone⟩ := ih
    exact ⟨steps ++ [.read .interrupted, .asked stop], by simp [hsteps, journal], by simp [hnone]⟩
  | case3 t stop journal hstop reason source hread =>
    exact ⟨[.read (.failed reason), .asked stop], rfl, by simp⟩
  | case4 t stop journal hstop source hread =>
    exact ⟨[.read (.bytes []), .asked stop], rfl, by simp⟩
  | case5 t stop journal hstop b bs source hread journal' reason hsink =>
    exact ⟨[.read (.bytes (b :: bs)), .asked stop], rfl, by simp⟩
  | case6 t stop journal hstop b bs source hread journal' hsink count ih =>
    obtain ⟨steps, hsteps, hnone⟩ := ih
    have hreport : ∀ c, .changed c ∉ plan.report count := by
      intro c
      unfold CopyPlan.report
      split <;> simp
    exact ⟨steps ++ (plan.report count ++ [.read (.bytes (b :: bs)), .asked stop]),
      by simp [hsteps, journal', journal], by simp [hnone, hreport]⟩

lemma obeys_copyTo {plan : CopyPlan φ} {source : Source} (hp : p ∈ touched) :
    Obeys files (Within touched made) (copyTo limits plan source path p) fun _ => True := by
  intro w r v hw hends
  obtain ⟨result, t, written, hcopy, hchange, -⟩ := ends_copyTo.1 hends
  obtain ⟨steps, hjournal, hnone⟩ := exists_copy_steps plan
    (.buffered (limits.room? w.files p)) { source, journal := w.journal }
  rw [hcopy] at hjournal
  have hcopied : Obeyed files (Within touched made) w { w with journal := t.journal } :=
    hjournal ▸ obeyed_of_not_changed steps hw hnone
  have hwrite : ∀ content, Obeys files (Within touched made)
      (change limits path (.write p content) : Activity φ Unit) fun _ => True :=
    fun content => obeys_change (within_of_files rfl hp)
  exact ⟨hcopied.trans (hwrite _ _ _ v hcopied.here hchange).1, fun _ _ => trivial⟩

/-- Installing touches the target and a file staged beside it. -/
theorem obeys_install {plan : CopyPlan φ} {entry : Archive.Entry}
    (hmade : ∀ q ∈ files.wayTo target, q ∈ made) (htarget : files.reach target ∈ touched)
    (hstaged : ∀ fs : Files, files.directory target ++ [fs.freshName] ∈ touched) :
    Obeys files (Within touched made) (install limits plan entry target) fun _ => True := by
  unfold install
  apply (obeys_makeParent hmade).bind
  rintro _ rfl
  apply obeys_get_bind
  intro w _
  have hplace := hstaged w.files
  apply (obeys_change (within_of_files rfl hplace)).bind
  intro _ _
  apply Obeys.tryCatch
  · apply (obeys_copyTo hplace).bind
    intro outcome _
    apply (obeys_settle outcome hplace htarget).bind
    intro _ _
    exact obeys_pure trivial
  · intro e
    apply (obeys_discard (within_of_files rfl hplace)).bind
    intro _ _
    exact obeys_throw e

/-- The induction is on the entries. -/
lemma obeys_installFirst {plan : CopyPlan φ} {name : String}
    {listing : Archive.Listing InstallError} (hmade : ∀ q ∈ files.wayTo target, q ∈ made)
    (htarget : files.reach target ∈ touched)
    (hstaged : ∀ fs : Files, files.directory target ++ [fs.freshName] ∈ touched) :
    Obeys files (Within touched made) (installFirst limits plan name target listing)
      fun _ => True := by
  induction listing with
  | nil => exact obeys_throw _
  | cons next rest ih =>
    unfold installFirst
    apply (obeys_ask plan.listener).bind
    intro stop _
    split
    · exact obeys_pure trivial
    · cases next with
      | error e => exact obeys_throw e
      | ok entry =>
        apply obeys_note_bind (by simp)
        split
        · exact obeys_install hmade htarget hstaged
        · exact ih

theorem obeys_extract {plan : CopyPlan φ} {format : ArchiveFormat} {archive name : String}
    (hmade : ∀ q ∈ files.wayTo target, q ∈ made) (htarget : files.reach target ∈ touched)
    (hstaged : ∀ fs : Files, files.directory target ++ [fs.freshName] ∈ touched) :
    Obeys files (Within touched made) (extract limits plan format archive name target)
      fun _ => True := by
  unfold extract
  apply obeys_get_bind
  intro w _
  split
  · exact obeys_throw _
  · split
    · exact obeys_throw _
    · exact obeys_installFirst hmade htarget hstaged

end Activity
end Mend
