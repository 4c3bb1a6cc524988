import Mend.Proofs.Install.Journals

/-! Copying: nothing is lost between the source and what was read, whatever a sink refuses, and once
the listener says stop nothing more is read. -/
namespace Mend

variable {φ : Type}

namespace Source

/-- A read gives no bytes at the end of the data only. -/
def Honest (s : Source) : Prop := ∀ n, .upTo n ∈ s.plans → 0 < n

/-- A source before and after a read. -/
structure Reads (s s' : Source) (r : ReadResult) : Prop where
  data : r.given ++ s'.data = s.data
  failure : s'.failure? = s.failure?
  plans : s'.plans ⊆ s.plans
  ending : r = .bytes [] → s.Honest → s.data = [] ∧ s.failure? = none

variable {s s' : Source} {limit : Nat} {r : ReadResult}

lemma take_ending (h : s.take limit = (.bytes [], s')) (hlimit : 0 < limit) :
    s.data = [] ∧ s.failure? = none := by
  unfold take at h
  split at h
  · cases (Prod.mk.inj h).1
  · next hne =>
    have hdata : s.data = [] := by
      have htake := ReadResult.bytes.inj (Prod.mk.inj h).1
      rcases List.take_eq_nil_iff.1 htake with h | h
      · exact absurd h (Nat.ne_of_gt hlimit)
      · exact h
    exact ⟨hdata, Option.eq_none_iff_forall_ne_some.2 fun reason hf => hne reason hdata hf⟩

lemma take_keeps (h : s.take limit = (r, s')) :
    r.given ++ s'.data = s.data ∧ s'.failure? = s.failure? ∧ s'.plans = s.plans := by
  unfold take at h
  split at h
  · obtain ⟨rfl, rfl⟩ := Prod.mk.inj h
    exact ⟨rfl, rfl, rfl⟩
  · obtain ⟨rfl, rfl⟩ := Prod.mk.inj h
    exact ⟨List.take_append_drop limit s.data, rfl, rfl⟩

theorem reads_read (h : s.read limit = (r, s')) (hlimit : 0 < limit) : s.Reads s' r := by
  unfold read at h
  split at h
  · obtain ⟨hdata, hfailure, hplans⟩ := take_keeps h
    exact ⟨hdata, hfailure, by simp [hplans], fun hr _ => take_ending (hr ▸ h) hlimit⟩
  · next n rest hp =>
    obtain ⟨hdata, hfailure, hplans⟩ := take_keeps h
    refine ⟨hdata, hfailure, by simp [hplans, hp], fun hr honest => ?_⟩
    have hn : 0 < n := honest n (by simp [hp])
    exact take_ending (s := { s with plans := rest }) (hr ▸ h) (by omega)
  · next hp =>
    obtain ⟨rfl, rfl⟩ := Prod.mk.inj h
    exact ⟨rfl, rfl, by simp [hp], by simp⟩
  · next hp =>
    obtain ⟨rfl, rfl⟩ := Prod.mk.inj h
    exact ⟨rfl, rfl, by simp [hp], by simp⟩

lemma Reads.honest (h : s.Reads s' r) (honest : s.Honest) : s'.Honest :=
  fun n hn => honest n (h.plans hn)

end Source

namespace CopyOutcome

variable {fits : Bool} {result : Except String CopyOutcome} {outcome : CopyOutcome}

theorem closed_eq_ok_iff : closed fits result = .ok outcome ↔ fits ∧ result = .ok outcome := by
  cases result <;> cases fits <;> simp [closed]

lemma closed_ne_missing (fits : Bool) (result : Except String CopyOutcome) (name : String) :
    closed fits result ≠ .error (.missingExecutable name) := by
  cases result <;> cases fits <;> simp [closed]

end CopyOutcome

namespace CopyPlan

open Source

/-- Copying from `t` to `t'`: the steps it takes, and what comes of them. -/
structure Copied (t t' : Transfer φ) (r : Except String CopyOutcome) (steps : Journal φ) :
    Prop where
  journal : t'.journal = steps ++ t.journal
  heeds : steps.Heeds r
  rest : steps.received ++ t'.source.data = t.source.data
  exhausts : ∀ n, r = .ok (.completed n) → steps.Exhausts
  complete : ∀ n, r = .ok (.completed n) → t.source.Honest →
    t'.source.data = [] ∧ t.source.failure? = none

variable {t t' : Transfer φ} {r : Except String CopyOutcome} {steps : Journal φ}

/-- Copying that takes a read first. -/
lemma Copied.cons {u : Transfer φ} {x : ReadResult} (first : Journal φ)
    (h : Copied u t' r steps) (hread : t.source.Reads u.source x) (hcalm : first.Calm)
    (hjournal : u.journal = first ++ t.journal) (hreceived : first.received = x.given) :
    Copied t t' r (steps ++ first) where
  journal := by rw [h.journal, hjournal, List.append_assoc]
  heeds := h.heeds.append hcalm
  rest := by
    rw [Journal.received_append, hreceived, List.append_assoc, h.rest, hread.data]
  exhausts n hr := (h.exhausts n hr).append
  complete n hr honest := by
    obtain ⟨hdata, hfailure⟩ := h.complete n hr (hread.honest honest)
    exact ⟨hdata, hread.failure ▸ hfailure⟩

/-- What was taken from the source is what was read. -/
theorem Copied.taken (h : Copied t t' r steps) : t.source.taken t'.source = steps.received := by
  have hlen : t.source.data.length - t'.source.data.length = steps.received.length := by
    rw [← h.rest, List.length_append, Nat.add_sub_cancel]
  rw [Source.taken, hlen, ← h.rest, List.take_left]

variable [Fraction φ]

lemma calm_report (p : CopyPlan φ) (n : Nat) : (p.report n).Calm := by
  unfold report
  split
  · exact Journal.calm_nil
  · exact Journal.calm_cons.2 ⟨trivial, Journal.calm_nil⟩

lemma received_report (p : CopyPlan φ) (n : Nat) : (p.report n).received = [] := by
  unfold report
  split <;> rfl

/-- What copying does, also where a chunk is refused: the induction is on what is left to read. -/
theorem exists_copied (p : CopyPlan φ) (sink : Sink) (t : Transfer φ) :
    ∃ steps, Copied t (p.copy sink t).2 (p.copy sink t).1 steps := by
  have hlimit : 0 < max p.chunkSize 1 := by omega
  fun_induction CopyPlan.copy p sink t with
  | case1 t stop journal hstop =>
    refine ⟨[.asked stop], rfl, ?_, rfl, by simp, by simp⟩
    exact ⟨[], [], by rw [hstop]; rfl, Journal.changes_nil, Journal.calm_nil⟩
  | case2 t stop journal hstop source hread ih =>
    have hgo : stop = false := by simpa using hstop
    obtain ⟨steps, hsteps⟩ := ih
    refine ⟨_, hsteps.cons [.read .interrupted, .asked stop] (reads_read hread hlimit) ?_ rfl rfl⟩
    simp [Step.IsWork, Step.IsQuiet, hgo]
  | case3 t stop journal hstop reason source hread =>
    have hgo : stop = false := by simpa using hstop
    refine ⟨[.read (.failed reason), .asked stop], rfl, ?_, (reads_read hread hlimit).data,
      by simp, by simp⟩
    simp [Journal.heeds_error, Step.IsWork, Step.IsQuiet, hgo]
  | case4 t stop journal hstop source hread =>
    have hgo : stop = false := by simpa using hstop
    have hreads := reads_read hread hlimit
    refine ⟨[.read (.bytes []), .asked stop], rfl, ?_, hreads.data,
      fun _ _ => ⟨[], _, rfl, Journal.changes_nil⟩, fun _ _ honest => ?_⟩
    · simp [Journal.heeds_completed, Step.IsWork, Step.IsQuiet, hgo]
    · obtain ⟨hdata, hfailure⟩ := hreads.ending rfl honest
      exact ⟨hreads.data.trans hdata, hfailure⟩
  | case5 t stop journal hstop b bs source hread journal' reason hsink =>
    have hgo : stop = false := by simpa using hstop
    refine ⟨[.read (.bytes (b :: bs)), .asked stop], rfl, ?_, (reads_read hread hlimit).data,
      by simp, by simp⟩
    simp [Journal.heeds_error, Step.IsWork, Step.IsQuiet, hgo]
  | case6 t stop journal hstop b bs source hread journal' hsink count ih =>
    have hgo : stop = false := by simpa using hstop
    obtain ⟨steps, hsteps⟩ := ih
    refine ⟨_, hsteps.cons (p.report count ++ [.read (.bytes (b :: bs)), .asked stop])
      (reads_read hread hlimit) ?_ (by simp [journal', journal]) ?_⟩
    · simp [calm_report, Step.IsWork, Step.IsQuiet, hgo]
    · simp [Journal.received_append, received_report, Journal.received]

end CopyPlan
end Mend
