import Mend.Files.Limits
import Mend.Install.Journal

/-! Copying data in chunks under the eye of a listener. -/
namespace Mend

/-- How copying ended, short of an error, and how many bytes were written by then. -/
inductive CopyOutcome
  | completed (n : Nat)
  | cancelled (n : Nat)
deriving DecidableEq

/-- Where bytes are written to: given the chunks written so far, the last one first, and the next
one, a reason to refuse that one as a whole. -/
abbrev Sink := List (List UInt8) → List UInt8 → Option String

namespace Sink

/-- The bytes that a buffer in front of a file holds back at most. -/
def bufferSize : Nat := 8192

/-- How many bytes of the chunks are held back. A chunk that finds too little room in the buffer
empties it first, and one of the size of the buffer goes past it. -/
def held : List (List UInt8) → Nat
  | [] => 0
  | bs :: before =>
    if bufferSize ≤ bs.length then 0
    else if held before + bs.length ≤ bufferSize then held before + bs.length
    else bs.length

/-- A file that has room for `room?` bytes, with a buffer in front of it. A chunk is refused if more
has to go to the file than fits. -/
def buffered (room? : Option Nat) : Sink := fun before bs =>
  let out := (bs :: before).flatten.length - held (bs :: before)
  if room?.all (out ≤ ·) then none else some Refusal.full.message

end Sink

/-- Copying under way: what is left to read, the chunks written so far with the last one first,
their bytes, and what has happened. -/
structure Transfer (φ : Type) where
  source : Source
  chunks : List (List UInt8) := []
  count : Nat := 0
  journal : Journal φ := []

/-- The bytes written so far. -/
def Transfer.written {φ : Type} (t : Transfer φ) : List UInt8 := t.chunks.reverse.flatten

/-- How to copy: who listens, where fractions of the whole are placed, how many bytes are expected,
and how many are read at a time. -/
structure CopyPlan (φ : Type) where
  listener : Listener φ
  place : φ → φ
  total : Nat
  chunkSize : Nat

namespace CopyPlan

variable {φ : Type} [Fraction φ]

/-- The report of a chunk after which `n` bytes are written; none if no bytes are expected. -/
def report (p : CopyPlan φ) (n : Nat) : Journal φ :=
  if p.total = 0 then [] else [.fraction (p.place (Fraction.ofParts n p.total))]

/-- Copy chunk by chunk to the end of the data. The listener is asked before every read, so a chunk
that was read is also written; an interrupted read is tried again. -/
def copy (p : CopyPlan φ) (sink : Sink) (t : Transfer φ) :
    Except String CopyOutcome × Transfer φ :=
  let stop := p.listener t.journal
  let journal := .asked stop :: t.journal
  if stop then (.ok (.cancelled t.count), { t with journal })
  else
    match _ : t.source.read (max p.chunkSize 1) with
    | (.interrupted, source) =>
      copy p sink { t with source, journal := .read .interrupted :: journal }
    | (.failed reason, source) =>
      (.error reason, { t with source, journal := .read (.failed reason) :: journal })
    | (.bytes [], source) =>
      (.ok (.completed t.count), { t with source, journal := .read (.bytes []) :: journal })
    | (.bytes (b :: bs), source) =>
      let journal := .read (.bytes (b :: bs)) :: journal
      match sink t.chunks (b :: bs) with
      | some reason => (.error reason, { t with source, journal })
      | none =>
        let count := t.count + (b :: bs).length
        copy p sink {
          source, chunks := (b :: bs) :: t.chunks, count, journal := p.report count ++ journal }
termination_by t.source.size
decreasing_by
  · exact Source.size_read_lt_of_interrupted ‹_›
  · exact Source.size_read_lt ‹_›

end CopyPlan
end Mend
