/-!
Sets of code points as ascending disjoint ranges. A binary search decides membership.
-/

namespace LoadBench.Text

/-- Whether `n` lies in one of the ranges with an index in `[low, high)`. -/
def inRanges (ranges : Array (Nat × Nat)) (n low high : Nat) : Bool :=
  if _h : low < high then
    let middle := (low + high) / 2
    match ranges[middle]? with
    | none => false
    | some (first, last) =>
        if n < first then inRanges ranges n low middle
        else if last < n then inRanges ranges n (middle + 1) high
        else true
  else false
termination_by high - low
decreasing_by all_goals omega

end LoadBench.Text
