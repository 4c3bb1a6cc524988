import Mathlib.Tactic.Lemma
import Mathlib.Tactic.SplitIfs
import Mend.Files.Limits

/-! What the limits of a system leave of a change. Room is never short for one that puts nothing
where nothing was, and of bytes that do not fit a file keeps as many as it has room for. -/
namespace Mend

namespace Limits

variable {limits : Limits} {fs fs' : Files} {c : Change} {p : Place} {content : List UInt8}

/-- No change is refused for want of a permission. Room may be short. -/
def Permits (limits : Limits) : Prop := ∀ fs c, limits.forbids fs c = false

theorem change_eq_ok_iff :
    limits.change fs c = .ok fs' ↔ fs.change c = .ok fs' ∧ limits.refusal? fs c = none := by
  unfold change
  cases fs.change c with
  | error e => simp
  | ok after => cases limits.refusal? fs c <;> simp

/-- A change that puts nothing where nothing was comes about, if it may. -/
theorem Permits.change (h : limits.Permits) (hchange : fs.change c = .ok fs')
    (hgain : fs.gain? c = none) : limits.change fs c = .ok fs' := by
  refine change_eq_ok_iff.2 ⟨hchange, ?_⟩
  cases c <;> simp [refusal?, h fs, hgain]

theorem read_eq_ok {path : String} (h : limits.read fs path = .ok content) :
    fs.read path = .ok content := by
  unfold Limits.read at h
  cases hplace : fs.place path with
  | error e => simp [hplace, bind, Except.bind] at h
  | ok q =>
    simp only [hplace, bind, Except.bind] at h
    split_ifs at h
    exact h

theorem fitting_prefix (limits : Limits) (fs : Files) (p : Place) (content : List UInt8) :
    limits.fitting fs p content <+: content := by
  unfold fitting
  split
  · exact List.take_prefix _ _
  · exact List.prefix_refl _

theorem fitting_of_fits (h : limits.fits fs p content) :
    limits.fitting fs p content = content := by
  unfold fits at h
  unfold fitting
  split
  · next n hn => exact List.take_of_length_le (by simpa [hn] using h)
  · rfl

/-- A file that has too little room is filled up. -/
theorem room?_of_not_fits (h : ¬ limits.fits fs p content) :
    limits.room? fs p = some (limits.fitting fs p content).length := by
  unfold fits at h
  unfold fitting
  split
  · next n hn =>
    have hlong : n < content.length := by simpa [hn] using h
    rw [hn, List.length_take_of_le (Nat.le_of_lt hlong)]
  · next hn => simp [hn] at h

end Limits
end Mend
