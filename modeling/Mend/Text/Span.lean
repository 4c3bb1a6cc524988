/-! Half-open spans of character offsets. -/
namespace Mend

/-- The characters from offset `start` up to, and without, offset `stop`. -/
structure Span where
  start : Nat
  stop : Nat
deriving DecidableEq, Repr

namespace Span

/-- The empty span at an offset. -/
def point (offset : Nat) : Span := ⟨offset, offset⟩

def Contains (s : Span) (offset : Nat) : Prop := s.start ≤ offset ∧ offset < s.stop

instance (s : Span) (offset : Nat) : Decidable (s.Contains offset) :=
  inferInstanceAs (Decidable (_ ∧ _))

/-- A span that addresses a part of a text of `length` characters. -/
def Within (s : Span) (length : Nat) : Prop := s.start ≤ s.stop ∧ s.stop ≤ length

instance (s : Span) (length : Nat) : Decidable (s.Within length) :=
  inferInstanceAs (Decidable (_ ∧ _))

/-- The span moved towards the end of the text by `n` characters. -/
def shift (s : Span) (n : Nat) : Span := ⟨s.start + n, s.stop + n⟩

@[simp] theorem start_shift (s : Span) (n : Nat) : (s.shift n).start = s.start + n := rfl

@[simp] theorem stop_shift (s : Span) (n : Nat) : (s.shift n).stop = s.stop + n := rfl

theorem not_contains_point (o p : Nat) : ¬ (point o).Contains p := by
  simp only [Contains, point]; omega

end Span
end Mend
