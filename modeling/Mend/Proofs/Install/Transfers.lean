import Mend.Proofs.Install.Copying

/-! What copying does with data, told in full: what was asked and read, which chunks were written,
what was reported, and how it ended. The main statement holds for every way in which reading,
writing and listening may go. -/
namespace Mend

variable {φ : Type}

namespace Step

@[simp] def read? : Step φ → Option ReadResult
  | .read r => some r
  | _ => none

@[simp] def asked? : Step φ → Option Bool
  | .asked stop => some stop
  | _ => none

@[simp] def fraction? : Step φ → Option φ
  | .fraction f => some f
  | _ => none

end Step

namespace Journal

/-- What the reads gave, the last one first. -/
def reads (j : Journal φ) : List ReadResult := j.filterMap Step.read?

/-- What the listener answered, the last answer first. -/
def polls (j : Journal φ) : List Bool := j.filterMap Step.asked?

/-- The fractions reported, in the order of time. -/
def fractions (j : Journal φ) : List φ := (j.filterMap Step.fraction?).reverse

variable (s : Step φ) (j : Journal φ)

@[simp] theorem reads_cons : reads (s :: j) = s.read?.toList ++ reads j := by
  cases s <;> rfl

@[simp] theorem polls_cons : polls (s :: j) = s.asked?.toList ++ polls j := by
  cases s <;> rfl

@[simp] theorem fractions_cons : fractions (s :: j) = fractions j ++ s.fraction?.toList := by
  cases s <;> simp [fractions, List.filterMap_cons]

lemma quiet_cons : Quiet (s :: j) ↔ s.IsQuiet ∧ Quiet j := by
  simp [Quiet]

theorem fractions_append (xs ys : Journal φ) :
    fractions (xs ++ ys) = fractions ys ++ fractions xs := by
  simp [fractions]

end Journal

namespace Source

variable {s s' s'' : Source} {limit : Nat} {r : ReadResult} {rs : List ReadResult}
  {cs : List (List UInt8)} {c : List UInt8}

/-- Read from again and again, at most `limit` bytes at a time, the source `s` gives `rs`, the last
one first, and is `s'` then. -/
inductive Gives (limit : Nat) (s : Source) : List ReadResult → Source → Prop
  | nothing : Gives limit s [] s
  | next {rs : List ReadResult} {r : ReadResult} {s' s'' : Source} (h : Gives limit s rs s')
    (read : s'.read limit = (r, s'')) : Gives limit s (r :: rs) s''

/-- The reads went well: each gave bytes or was interrupted. The chunks are those that were given,
both with the last one first. -/
inductive Passed : List ReadResult → List (List UInt8) → Prop
  | nothing : Passed [] []
  | interrupted {rs : List ReadResult} {cs : List (List UInt8)} (h : Passed rs cs) :
    Passed (.interrupted :: rs) cs
  | chunk {rs : List ReadResult} {cs : List (List UInt8)} {c : List UInt8} (h : Passed rs cs)
    (some : c ≠ []) : Passed (.bytes c :: rs) (c :: cs)

lemma length_take_le (h : s.take limit = (.bytes c, s')) : c.length ≤ limit := by
  unfold take at h
  split at h
  · cases (Prod.mk.inj h).1
  · obtain rfl := ReadResult.bytes.inj (Prod.mk.inj h).1
    exact List.length_take_le limit s.data

theorem length_read_le (h : s.read limit = (.bytes c, s')) : c.length ≤ limit := by
  unfold read at h
  split at h
  · exact length_take_le h
  · exact Nat.le_trans (length_take_le h) (Nat.min_le_right _ _)
  all_goals cases (Prod.mk.inj h).1

/-- What was given and what is left are the data. -/
theorem Gives.data (h : s.Gives limit rs s') (hlimit : 0 < limit) :
    (rs.map ReadResult.given).reverse.flatten ++ s'.data = s.data := by
  induction h with
  | nothing => rfl
  | next h hread ih => simpa [(reads_read hread hlimit).data] using ih

theorem Gives.length_le (h : s.Gives limit rs s') (hc : .bytes c ∈ rs) : c.length ≤ limit := by
  induction h with
  | nothing => cases hc
  | next h hread ih =>
    rcases List.mem_cons.1 hc with rfl | hc
    · exact length_read_le hread
    · exact ih hc

lemma Gives.honest (h : s.Gives limit rs s') (hlimit : 0 < limit) (honest : s.Honest) :
    s'.Honest ∧ s'.failure? = s.failure? := by
  induction h with
  | nothing => exact ⟨honest, rfl⟩
  | next h hread ih =>
    have hreads := reads_read hread hlimit
    exact ⟨hreads.honest ih.1, hreads.failure.trans ih.2⟩

lemma Passed.given (h : Passed rs cs) :
    (rs.map ReadResult.given).reverse.flatten = cs.reverse.flatten := by
  induction h with
  | nothing => rfl
  | interrupted h ih => simpa [ReadResult.given] using ih
  | chunk h _ ih => simp [ReadResult.given, ih]

lemma Passed.mem (h : Passed rs cs) (hc : c ∈ cs) : .bytes c ∈ rs ∧ c ≠ [] := by
  induction h with
  | nothing => cases hc
  | interrupted h ih => exact ⟨List.mem_cons_of_mem _ (ih hc).1, (ih hc).2⟩
  | chunk h hne ih =>
    rcases List.mem_cons.1 hc with rfl | hc
    · exact ⟨List.mem_cons_self, hne⟩
    · exact ⟨List.mem_cons_of_mem _ (ih hc).1, (ih hc).2⟩

/-- Each read that goes well leaves less to read. -/
theorem Passed.length_le (h : Passed rs cs) (hgives : s.Gives limit rs s') :
    rs.length + s'.size ≤ s.size := by
  induction h generalizing s' with
  | nothing =>
    cases hgives
    simp
  | interrupted h ih =>
    cases hgives with
    | next hgives hread =>
      have hless := size_read_lt_of_interrupted hread
      have hrest := ih hgives
      simp only [List.length_cons]
      omega
  | @chunk rs cs c h hne ih =>
    obtain ⟨b, bs, rfl⟩ := List.exists_cons_of_ne_nil hne
    cases hgives with
    | next hgives hread =>
      have hless := size_read_lt hread
      have hrest := ih hgives
      simp only [List.length_cons]
      omega

end Source

namespace CopyPlan

open Source

variable [Fraction φ]

/-- The fractions for chunks, in the order of time; of the chunks the last one is first. -/
def shares (p : CopyPlan φ) : List (List UInt8) → List φ
  | [] => []
  | c :: earlier =>
    shares p earlier ++ [p.place (Fraction.ofParts (c :: earlier).flatten.length p.total)]

@[simp] theorem length_shares (p : CopyPlan φ) (cs : List (List UInt8)) :
    (p.shares cs).length = cs.length := by
  induction cs with
  | nil => rfl
  | cons c earlier ih => simp [shares, ih]

/-- What was asked and read by the time that the source `source` has become `s`: the answers are
those of the listener, who never said stop. -/
structure Watched (p : CopyPlan φ) (source : Source) (before : Journal φ) (s : Source)
    (steps : Journal φ) : Prop where
  heard : ∀ stop earlier, .asked stop :: earlier <:+ steps → stop = p.listener (earlier ++ before)
  gives : source.Gives (max p.chunkSize 1) steps.reads s
  polls : steps.polls = List.replicate steps.reads.length false
  quiet : steps.Quiet

/-- Copying under way: what was read has also been written and reported. -/
structure Underway (p : CopyPlan φ) (sink : Sink) (source : Source) (before : Journal φ)
    (t : Transfer φ) (steps : Journal φ) : Prop where
  watched : p.Watched source before t.source steps
  journal : t.journal = steps ++ before
  passed : Passed steps.reads t.chunks
  accepted : ∀ c earlier, c :: earlier <:+ t.chunks → sink earlier c = none
  count : t.count = t.written.length
  fractions : steps.fractions = if p.total = 0 then [] else p.shares t.chunks

/-- How copying may end, and with what result: the data end, the listener says stop, a read fails,
or a chunk is refused. All that was read before has been written. -/
inductive Ending (sink : Sink) (t : Transfer φ) (steps : Journal φ) :
    Except String CopyOutcome → Prop
  | completed {rs : List ReadResult} (reads : steps.reads = .bytes [] :: rs)
    (passed : Passed rs t.chunks) : Ending sink t steps (.ok (.completed t.written.length))
  | cancelled {earlier : Journal φ} (stopped : steps = .asked true :: earlier)
    (first : true ∉ earlier.polls) (passed : Passed steps.reads t.chunks) :
    Ending sink t steps (.ok (.cancelled t.written.length))
  | failed {rs : List ReadResult} {reason : String} (reads : steps.reads = .failed reason :: rs)
    (passed : Passed rs t.chunks) : Ending sink t steps (.error reason)
  | refused {rs : List ReadResult} {c : List UInt8} {reason : String}
    (reads : steps.reads = .bytes c :: rs) (some : c ≠ []) (passed : Passed rs t.chunks)
    (refuses : sink t.chunks c = .some reason) : Ending sink t steps (.error reason)

/-- Copying from `source` that ended with `r` in `t`, told by its steps. -/
structure Accounted (p : CopyPlan φ) (sink : Sink) (source : Source) (before : Journal φ)
    (r : Except String CopyOutcome) (t : Transfer φ) (steps : Journal φ) : Prop where
  journal : t.journal = steps ++ before
  quiet : steps.Quiet
  /-- The answers among the steps are those of the listener. -/
  heard : ∀ stop earlier, .asked stop :: earlier <:+ steps → stop = p.listener (earlier ++ before)
  /-- The reads among the steps are those of the source. -/
  gives : source.Gives (max p.chunkSize 1) steps.reads t.source
  ending : Ending sink t steps r
  bounded : steps.reads.length ≤ source.plans.length + source.data.length + 1
  polls : steps.polls.length = steps.reads.length + if true ∈ steps.polls then 1 else 0
  cancelled : true ∈ steps.polls ↔ ∃ n, r = .ok (.cancelled n)
  accepted : ∀ c earlier, c :: earlier <:+ t.chunks → sink earlier c = none
  pieces : ∀ c ∈ t.chunks, c ≠ [] ∧ c.length ≤ max p.chunkSize 1
  /-- What was written, a chunk that was refused and what is left are the data. -/
  kept : ∃ refused, t.written ++ refused ++ t.source.data = source.data ∧
    (refused ≠ [] → ∃ reason, r = .error reason ∧ sink t.chunks refused = some reason)
  whole : ∀ n, r = .ok (.completed n) → source.Honest →
    t.written = source.data ∧ source.failure? = none
  fractions : steps.fractions = if p.total = 0 then [] else p.shares t.chunks
  reported : steps.fractions.length = if p.total = 0 then 0 else t.chunks.length

variable {p : CopyPlan φ} {sink : Sink} {source s s' : Source} {before steps : Journal φ}
  {t : Transfer φ} {x : ReadResult} {r : Except String CopyOutcome}

omit [Fraction φ] in
/-- The listener lets the next read happen. -/
lemma Watched.read (h : p.Watched source before s steps)
    (hgo : p.listener (steps ++ before) = false)
    (hread : s.read (max p.chunkSize 1) = (x, s')) :
    p.Watched source before s' (.read x :: .asked false :: steps) where
  heard stop earlier hmem := by
    simp only [List.suffix_cons_iff, List.cons.injEq, reduceCtorEq, false_and, false_or] at hmem
    rcases hmem with ⟨hstop, rfl⟩ | hmem
    · rw [hgo]
      exact Step.asked.inj hstop
    · exact h.heard stop earlier hmem
  gives := .next h.gives hread
  polls := by simp [h.polls, List.replicate_succ]
  quiet := (Journal.quiet_cons _ _).2 ⟨trivial, (Journal.quiet_cons _ _).2 ⟨trivial, h.quiet⟩⟩

/-- Reports are neither questions nor reads. -/
lemma Watched.report (h : p.Watched source before s steps) (n : Nat) :
    p.Watched source before s (p.report n ++ steps) := by
  unfold CopyPlan.report
  split
  · exact h
  · refine ⟨fun stop earlier hmem => h.heard stop earlier ?_, h.gives, h.polls,
      (Journal.quiet_cons _ _).2 ⟨trivial, h.quiet⟩⟩
    simpa [List.suffix_cons_iff] using hmem

lemma underway_start (p : CopyPlan φ) (sink : Sink) (source : Source) (before : Journal φ) :
    p.Underway sink source before { source, journal := before } [] where
  watched := ⟨by simp, .nothing, rfl, by simp [Journal.Quiet]⟩
  journal := rfl
  passed := .nothing
  accepted := by simp
  count := rfl
  fractions := by split <;> rfl

lemma Underway.reported (h : p.Underway sink source before t steps) :
    steps.fractions.length = if p.total = 0 then 0 else t.chunks.length := by
  rw [h.fractions]
  split
  · rfl
  · exact length_shares p t.chunks

/-- An interrupted read changes nothing but the source's plans. -/
lemma Underway.interrupted (h : p.Underway sink source before t steps)
    (hgo : p.listener t.journal = false)
    (hread : t.source.read (max p.chunkSize 1) = (.interrupted, s')) :
    p.Underway sink source before
      { t with
        source := s', journal := .read .interrupted :: .asked (p.listener t.journal) :: t.journal }
      (.read .interrupted :: .asked false :: steps) where
  watched := h.watched.read (h.journal ▸ hgo) hread
  journal := by
    rw [hgo, h.journal]
    rfl
  passed := .interrupted h.passed
  accepted := h.accepted
  count := h.count
  fractions := h.fractions

/-- A chunk that is read and accepted is written and reported. -/
lemma Underway.chunk {c : List UInt8} (h : p.Underway sink source before t steps)
    (hgo : p.listener t.journal = false)
    (hread : t.source.read (max p.chunkSize 1) = (.bytes c, s')) (hc : c ≠ [])
    (haccepted : sink t.chunks c = none) :
    p.Underway sink source before
      { source := s', chunks := c :: t.chunks, count := t.count + c.length,
        journal := p.report (t.count + c.length) ++
          .read (.bytes c) :: .asked (p.listener t.journal) :: t.journal }
      (p.report (t.count + c.length) ++ .read (.bytes c) :: .asked false :: steps) where
  watched := (h.watched.read (h.journal ▸ hgo) hread).report _
  journal := by
    rw [hgo, h.journal]
    simp
  passed := by
    have hreads : Journal.reads (p.report (t.count + c.length) ++ .read (.bytes c) ::
        .asked false :: steps) = .bytes c :: steps.reads := by
      unfold CopyPlan.report
      split <;> rfl
    rw [hreads]
    exact .chunk h.passed hc
  accepted d earlier hmem := by
    rcases List.suffix_cons_iff.1 hmem with hmem | hmem
    · obtain ⟨rfl, rfl⟩ := List.cons.inj hmem
      exact haccepted
    · exact h.accepted d earlier hmem
  count := by simp [h.count, Transfer.written]
  fractions := by
    have hcount : t.count + c.length = (c :: t.chunks).flatten.length := by
      simp [h.count, Transfer.written, Nat.add_comm]
    rw [Journal.fractions_append]
    have hfractions : Journal.fractions (.read (.bytes c) :: .asked false :: steps) =
        steps.fractions := rfl
    rw [hfractions, h.fractions, CopyPlan.report, hcount]
    split
    · rfl
    · rfl

lemma Underway.kept (h : p.Underway sink source before t steps) :
    t.written ++ t.source.data = source.data := by
  rw [← h.watched.gives.data (by omega), h.passed.given]
  rfl

lemma Underway.pieces (h : p.Underway sink source before t steps) :
    ∀ c ∈ t.chunks, c ≠ [] ∧ c.length ≤ max p.chunkSize 1 := by
  intro c hc
  obtain ⟨hmem, hne⟩ := h.passed.mem hc
  exact ⟨hne, h.watched.gives.length_le hmem⟩

lemma Underway.bounded (h : p.Underway sink source before t steps) :
    steps.reads.length ≤ source.plans.length + source.data.length := by
  have hlength := h.passed.length_le h.watched.gives
  exact Nat.le_trans (Nat.le_add_right _ _) hlength

/-- The listener says stop. -/
lemma Underway.stop (h : p.Underway sink source before t steps)
    (hstop : p.listener t.journal = true) :
    p.Accounted sink source before (.ok (.cancelled t.count))
      { t with journal := .asked (p.listener t.journal) :: t.journal }
      (.asked true :: steps) where
  journal := by
    rw [hstop, h.journal]
    rfl
  quiet := (Journal.quiet_cons _ _).2 ⟨trivial, h.watched.quiet⟩
  heard stop earlier hmem := by
    rcases List.suffix_cons_iff.1 hmem with hmem | hmem
    · obtain ⟨hasked, rfl⟩ := List.cons.inj hmem
      rw [← h.journal, hstop]
      exact Step.asked.inj hasked
    · exact h.watched.heard stop earlier hmem
  gives := h.watched.gives
  ending := by
    rw [h.count]
    refine .cancelled rfl ?_ h.passed
    simp [h.watched.polls]
  bounded := Nat.le_succ_of_le h.bounded
  polls := by
    have hpolls : Journal.polls (.asked true :: steps) = true :: steps.polls := rfl
    have hreads : Journal.reads (.asked true :: steps) = steps.reads := rfl
    simp [hpolls, hreads, h.watched.polls]
  cancelled := by simp [Journal.polls, Step.asked?]
  accepted := h.accepted
  pieces := h.pieces
  kept := ⟨[], by simpa [Transfer.written] using h.kept, by simp⟩
  whole := by simp
  fractions := h.fractions
  reported := h.reported

/-- A last read, after which there is no other. -/
lemma Underway.finish (h : p.Underway sink source before t steps)
    (hgo : p.listener t.journal = false)
    (hread : t.source.read (max p.chunkSize 1) = (x, s'))
    (hending : Ending sink
      { t with source := s', journal := .read x :: .asked (p.listener t.journal) :: t.journal }
      (.read x :: .asked false :: steps) r)
    (hrefused : x.given ≠ [] → ∃ reason, r = .error reason ∧ sink t.chunks x.given = some reason) :
    p.Accounted sink source before r
      { t with source := s', journal := .read x :: .asked (p.listener t.journal) :: t.journal }
      (.read x :: .asked false :: steps) := by
  have hwatched := h.watched.read (h.journal ▸ hgo) hread
  have hnever : true ∉ Journal.polls (.read x :: .asked false :: steps) := by
    simp [hwatched.polls]
  have hreads := reads_read hread (by omega)
  refine ⟨?_, hwatched.quiet, hwatched.heard, hwatched.gives, hending, ?_, ?_, ?_, h.accepted,
    h.pieces, ⟨x.given, ?_, hrefused⟩, ?_, h.fractions, h.reported⟩
  · rw [hgo, h.journal]
    rfl
  · exact Nat.succ_le_succ h.bounded
  · simp [hwatched.polls]
  · refine ⟨fun htrue => (hnever htrue).elim, ?_⟩
    rintro ⟨n, rfl⟩
    cases hending with
    | cancelled stopped => cases stopped
  · rw [List.append_assoc, hreads.data]
    exact h.kept
  · rintro n rfl honest
    cases hending with
    | completed reads =>
      obtain rfl : x = .bytes [] := (List.cons.inj reads).1
      obtain ⟨honest', hfailure⟩ := h.watched.gives.honest (by omega) honest
      obtain ⟨hdata, hnone⟩ := hreads.ending rfl honest'
      have hkept := h.kept
      rw [hdata, List.append_nil] at hkept
      exact ⟨hkept, hfailure ▸ hnone⟩

/-- The induction is on what is left to read: each round goes on with copying under way, or ends
it. -/
theorem accounted_of_underway (p : CopyPlan φ) (sink : Sink) (source : Source)
    (before : Journal φ) (t : Transfer φ) :
    ∀ steps, p.Underway sink source before t steps →
      ∃ steps', p.Accounted sink source before (p.copy sink t).1 (p.copy sink t).2 steps' := by
  fun_induction CopyPlan.copy p sink t with
  | case1 t stop journal hstop => exact fun steps h => ⟨_, h.stop hstop⟩
  | case2 t stop journal hgo source' hread ih =>
    exact fun steps h => ih _ (h.interrupted (Bool.eq_false_iff.2 hgo) hread)
  | case3 t stop journal hgo reason source' hread =>
    intro steps h
    exact ⟨_, h.finish (Bool.eq_false_iff.2 hgo) hread (.failed rfl h.passed)
      fun hne => (hne rfl).elim⟩
  | case4 t stop journal hgo source' hread =>
    intro steps h
    refine ⟨_, h.finish (Bool.eq_false_iff.2 hgo) hread ?_ fun hne => (hne rfl).elim⟩
    rw [h.count]
    exact .completed rfl h.passed
  | case5 t stop journal hgo b bs source' hread journal' reason hsink =>
    intro steps h
    refine ⟨_, h.finish (Bool.eq_false_iff.2 hgo) hread ?_ fun _ => ⟨reason, rfl, hsink⟩⟩
    exact .refused rfl (List.cons_ne_nil b bs) h.passed hsink
  | case6 t stop journal hgo b bs source' hread journal' hsink count ih =>
    intro steps h
    exact ih _ (h.chunk (Bool.eq_false_iff.2 hgo) hread (List.cons_ne_nil b bs) hsink)

/-- Whatever the source, the sink and the listener do, copying comes to an end, and it can be told
what has become of the data. -/
theorem copy_accounted (p : CopyPlan φ) (sink : Sink) (source : Source) (before : Journal φ) :
    ∃ r t steps, p.copy sink { source, journal := before } = (r, t) ∧
      p.Accounted sink source before r t steps := by
  obtain ⟨steps, h⟩ := accounted_of_underway p sink source before { source, journal := before } []
    (underway_start p sink source before)
  exact ⟨_, _, steps, rfl, h⟩

end CopyPlan
end Mend
