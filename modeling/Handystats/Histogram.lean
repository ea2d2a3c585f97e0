/-
The histogram of `statistics`: its bins, the pruning of empty ones
(`remove_empty_bins`) and the merge of the closest pair
(`update_histogram`'s last part).

Indices and sizes are `size_t`: `size() - 1` wraps at an empty vector, and an
element that does not exist is undefined behaviour.
-/
import Mathlib.Data.List.DropRight
import Handystats.MathUtils
import Handystats.Chrono

namespace Handystats

open MathUtils

/-- `statistics::bin_type`. -/
structure Bin (K : Type) where
  center : K
  count : K
  timestamp : Int
  deriving DecidableEq

/-- `statistics::histogram_type`. -/
abbrev Histogram (K : Type) := List (Bin K)

variable {K : Type} [Field K] [LinearOrder K]

/-- The total of a histogram's counts. -/
def Histogram.total (hist : Histogram K) : K := (hist.map Bin.count).sum

/-- `is_empty_bin` of `remove_empty_bins`. -/
def isEmptyBin (bin : Bin K) : Bool := cmp doubleEps bin.count 0 ≤ 0

/-- The loop of `remove_empty_bins`: erases bins surrounded by empty bins. -/
def removeSurroundedBins (histogram : Histogram K) (index : Nat) : Except Fault (Histogram K) :=
  if index < sizeSub histogram.length 1 then
    match h : histogram[index]? with
    | none => .error .undefinedBehaviour
    | some bin =>
      have _hlt : index < histogram.length := (List.getElem?_eq_some_iff.1 h).1
      if !isEmptyBin bin then removeSurroundedBins histogram (index + 2)
      else
        match histogram[index + 1]? with
        | none => .error .undefinedBehaviour
        | some right =>
          if !isEmptyBin right then removeSurroundedBins histogram (index + 3)
          else
            match histogram[index - 1]? with
            | none => .error .undefinedBehaviour
            | some left =>
              if !isEmptyBin left then removeSurroundedBins histogram (index + 1)
              else removeSurroundedBins (histogram.eraseIdx index) index
  else .ok histogram
termination_by histogram.length - index
decreasing_by
  all_goals first
    | omega
    | (rw [List.length_eraseIdx_of_lt _hlt]; omega)

/-- `remove_empty_bins`. -/
def removeEmptyBins (histogram : Histogram K) : Except Fault (Histogram K) :=
  let histogram := histogram.dropWhile isEmptyBin
  let histogram := histogram.rdropWhile isEmptyBin
  removeSurroundedBins histogram 1

/-- `bin_merge_criteria`. -/
def binMergeCriteria (leftBin rightBin : Bin K) : K := rightBin.center - leftBin.center

/-- The scan for the pair to merge, from the pair at `index` on: `best` is
`best_merge_index` with its criteria, `none` the sentinel `-1`. -/
def bestMerge (best : Option (Nat × K)) (index : Nat) : Histogram K → Option (Nat × K)
  | left :: right :: rest =>
    let mergeCriteria := binMergeCriteria left right
    let best :=
      match best with
      | none => some (index, mergeCriteria)
      | some (bestIndex, bestCriteria) =>
        if cmp doubleEps mergeCriteria bestCriteria < 0 then some (index, mergeCriteria)
        else some (bestIndex, bestCriteria)
    bestMerge best (index + 1) (right :: rest)
  | _ => best

/-- What `update_histogram` makes of the pair it merges. -/
def mergedBin (leftBin rightBin : Bin K) : Except Fault (Bin K) := do
  if cmp doubleEps leftBin.count 0 ≤ 0 ∧ cmp doubleEps rightBin.count 0 ≤ 0 then
    let center ← weightedAverage leftBin.center 1 rightBin.center 1
    .ok ⟨center, 0, timePointZero⟩
  else
    let center ← weightedAverage leftBin.center leftBin.count rightBin.center rightBin.count
    .ok ⟨center, leftBin.count + rightBin.count, max leftBin.timestamp rightBin.timestamp⟩

/-- `best_merge_index` after the scan. -/
def bestMergeIndex (histogram : Histogram K) : Nat :=
  ((bestMerge none 0 histogram).map Prod.fst).getD (2 ^ 64 - 1)

/-- The merge of the best pair. -/
def mergeClosest (histogram : Histogram K) : Except Fault (Histogram K) := do
  let leftBin ← elementAt histogram (bestMergeIndex histogram)
  let rightBin ← elementAt histogram (bestMergeIndex histogram + 1)
  let merged ← mergedBin leftBin rightBin
  .ok ((histogram.set (bestMergeIndex histogram) merged).eraseIdx (bestMergeIndex histogram + 1))

end Handystats
