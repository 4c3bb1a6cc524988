/-! Where bytes are read from: data in pieces that are up to the source, with interruptions and
failures on the way. -/
namespace Mend

/-- How one read goes. -/
inductive ReadPlan
  | upTo (limit : Nat)
  | interrupt
  | fail (reason : String)

/-- What one read gives; no bytes mean the end of the data. -/
inductive ReadResult
  | bytes (bs : List UInt8)
  | interrupted
  | failed (reason : String)

/-- Data still to be read, how the next reads go, and the failure that follows the data if there is
one. Past the plans a read gives all it is asked for. -/
structure Source where
  data : List UInt8
  plans : List ReadPlan := []
  failure? : Option String := none

namespace Source

/-- The next at most `limit` bytes. -/
def take (s : Source) (limit : Nat) : ReadResult × Source :=
  match s.data, s.failure? with
  | [], some reason => (.failed reason, s)
  | _, _ => (.bytes (s.data.take limit), { s with data := s.data.drop limit })

def read (s : Source) (limit : Nat) : ReadResult × Source :=
  match s.plans with
  | [] => s.take limit
  | .upTo n :: rest => { s with plans := rest }.take (min n limit)
  | .interrupt :: rest => (.interrupted, { s with plans := rest })
  | .fail reason :: rest => (.failed reason, { s with plans := rest })

/-- The data that was taken from a source by the time it is `rest`. -/
def taken (s rest : Source) : List UInt8 := s.data.take (s.data.length - rest.data.length)

/-- A bound on the reads that are left before the data ends. -/
def size (s : Source) : Nat := s.plans.length + s.data.length

theorem size_take_lt {s s' : Source} {limit : Nat} {b : UInt8} {bs : List UInt8}
    (h : s.take limit = (.bytes (b :: bs), s')) : s'.size < s.size := by
  unfold take at h
  split at h
  · simp at h
  · obtain ⟨hb, rfl⟩ := Prod.mk.inj h
    have hlen := congrArg List.length (ReadResult.bytes.inj hb)
    simp only [List.length_take, List.length_cons] at hlen
    simp only [size, List.length_drop]
    omega

theorem size_read_lt {s s' : Source} {limit : Nat} {b : UInt8} {bs : List UInt8}
    (h : s.read limit = (.bytes (b :: bs), s')) : s'.size < s.size := by
  unfold read at h
  split at h
  · exact size_take_lt h
  · next hp => exact Nat.lt_trans (size_take_lt h) (by simp [size, hp])
  all_goals simp at h

theorem size_read_lt_of_interrupted {s s' : Source} {limit : Nat}
    (h : s.read limit = (.interrupted, s')) : s'.size < s.size := by
  have htake : ∀ (s : Source) n, (s.take n).1 ≠ .interrupted := by
    intro s n; unfold take; split <;> simp
  unfold read at h
  split at h
  · exact absurd (congrArg Prod.fst h) (htake _ _)
  · exact absurd (congrArg Prod.fst h) (htake _ _)
  · next hp => obtain ⟨-, rfl⟩ := Prod.mk.inj h; simp [size, hp]
  · simp at h

end Source
end Mend
