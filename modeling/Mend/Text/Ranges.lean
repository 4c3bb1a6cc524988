/-! Membership in ascending ranges of numbers, by bisection. -/
namespace Mend.Text

/-- Whether `n` lies in one of the ranges with indices from `lo` up to `hi`. The interval at least
halves in each of the `fuel` steps. -/
def bisect (ranges : Array (Nat × Nat)) (n : Nat) : Nat → Nat → Nat → Bool
  | 0, _, _ => false
  | fuel + 1, lo, hi =>
    if hi ≤ lo then false
    else
      let mid := (lo + hi) / 2
      match ranges[mid]? with
      | none => false
      | some (first, last) =>
        if n < first then bisect ranges n fuel lo mid
        else if last < n then bisect ranges n fuel (mid + 1) hi
        else true

/-- Whether `n` lies in one of the ranges, which are in ascending order. -/
def inRanges (ranges : Array (Nat × Nat)) (n : Nat) : Bool :=
  bisect ranges n (ranges.size + 1) 0 ranges.size

end Mend.Text
