/-
`statistics::quantile_extractor`.

The histogram is read as a polygon: one segment before the first bin, one
between each two neighbours and one after the last, each with the mean of its
ends' counts as its volume. `scan` looks for the segment in which the
required count is reached, `segmentBins` gives its ends, and `findZ` solves
for the place in it.

`bin_index` is an `int` that starts at -1, and the loop compares it with the
size cast to `int`.
-/
import Handystats.Statistics

namespace Handystats

open MathUtils

variable {K : Type} [Field K] [LinearOrder K]

/-- `(int)histogram.size()`. -/
def intSize (histogram : Histogram K) : Int := (histogram.length : Int).bmod (2 ^ 32)

/-- The count at an end of a segment, 0 at an artificial one. -/
def endCount (histogram : Histogram K) (artificial : Bool) (index : Int) : Except Fault K :=
  if artificial then .ok 0
  else do
    let bin ← elementAt histogram index.toNat
    .ok bin.count

/-- The volume of the segment after the bin at `binIndex`. -/
def volume (histogram : Histogram K) (binIndex : Int) : Except Fault K := do
  let left ← endCount histogram (binIndex == -1) binIndex
  let right ← endCount histogram (binIndex + 1 == histogram.length) (binIndex + 1)
  .ok ((left + right) / 2)

namespace Tolerances

variable (tol : Tolerances K)

/-- `find_z`: a root in `[0, 1]`, up to the tolerance. (The text of the
exception goes on with the coefficients.) -/
def findZ (root : K → K) (a b c : K) : Except Fault K := do
  let roots ← tol.solveQuadratic root a b c
  match roots.find? fun z => 0 ≤ cmp tol.double z 0 && cmp tol.double z 1 ≤ 0 with
  | some z => .ok z
  | none => .error (.logicError "find_z: not found")

/-- The loop over the segments, with the number of rounds still possible: it
leaves `bin_index` and `required_count`. -/
def scan (histogram : Histogram K) : Nat → Int → K → Except Fault (Int × K)
  | 0, binIndex, requiredCount => .ok (binIndex, requiredCount)
  | rounds + 1, binIndex, requiredCount => do
    let volume ← volume histogram binIndex
    if 0 < cmp tol.double volume requiredCount then .ok (binIndex, requiredCount)
    else scan histogram rounds (binIndex + 1) (requiredCount - volume)

/-- `left_bin` and `right_bin`: the ends of the segment, with an artificial
bin beyond the first and beyond the last. -/
def segmentBins (histogram : Histogram K) (binIndex : Int) : Except Fault (Bin K × Bin K) :=
  if binIndex = -1 then do
    let first ← elementAt histogram 0
    let second ← elementAt histogram 1
    let center ← tol.weightedAverage first.center first.count second.center second.count
    .ok (⟨2 * first.center - center, 0, timePointZero⟩, first)
  else if binIndex + 1 < histogram.length then do
    let left ← elementAt histogram binIndex.toNat
    let right ← elementAt histogram (binIndex + 1).toNat
    .ok (left, right)
  else do
    let last ← elementAt histogram binIndex.toNat
    let previous ← elementAt histogram (binIndex - 1).toNat
    let center ← tol.weightedAverage previous.center previous.count last.center last.count
    .ok (last, ⟨2 * last.center - center, 0, timePointZero⟩)

/-- What `quantile_extractor::at` finds: `bin_index` after the loop, the ends of
that segment and the relative position `z` in it. -/
def locate (root : K → K) (histogram : Histogram K) (probability : K) :
    Except Fault (Int × (Bin K × Bin K) × K) := do
  let (binIndex, requiredCount) ←
    tol.scan histogram (intSize histogram + 1).toNat (-1) (histogram.total * probability)
  let (left, right) ← tol.segmentBins histogram binIndex
  let z ← tol.findZ root (right.count - left.count) (2 * left.count) (-2 * requiredCount)
  .ok (binIndex, (left, right), z)

/-- `quantile_extractor::at`. -/
def quantileAt (root : K → K) (statistics : Option (Statistics K)) (probability : K) :
    Except Fault K :=
  match statistics with
  | none => .ok 0
  | some statistics =>
    let histogram := statistics.histogram
    if histogram.length = 0 then .ok 0
    else if cmp tol.double histogram.total 0 ≤ 0 then .ok 0
    else if histogram.length = 1 then do
      let bin ← elementAt histogram 0
      .ok bin.center
    else do
      let (_, (left, right), z) ← tol.locate root histogram probability
      .ok (left.center + (right.center - left.center) * z)

/-! ## The ends of a segment -/

section SegmentBins

variable {hist : Histogram K}

theorem segmentBins_first (hlen : 2 ≤ hist.length) :
    tol.segmentBins hist ((0 : Nat) - 1) =
      (do
        let center ← tol.weightedAverage hist[0].center hist[0].count hist[1].center hist[1].count
        .ok (⟨(2 : K) * hist[0].center - center, 0, timePointZero⟩, hist[0])) := by
  rw [segmentBins, if_pos (by omega), elementAt_of_lt (by omega), elementAt_of_lt (by omega)]
  rfl

theorem segmentBins_inner {k : Nat} (h₀ : 0 < k) (h : k < hist.length) :
    tol.segmentBins hist (k - 1) = .ok (hist[k - 1], hist[k]) := by
  have h₁ : ((k : Int) - 1).toNat = k - 1 := by omega
  have h₂ : ((k : Int) - 1 + 1).toNat = k := by omega
  rw [segmentBins, if_neg (by omega), if_pos (by omega), h₁, h₂, elementAt_of_lt (by omega),
    elementAt_of_lt h]
  rfl

theorem segmentBins_last (hlen : 2 ≤ hist.length) :
    tol.segmentBins hist (hist.length - 1) =
      (do
        let center ← tol.weightedAverage hist[hist.length - 2].center hist[hist.length - 2].count
          hist[hist.length - 1].center hist[hist.length - 1].count
        .ok (hist[hist.length - 1],
          ⟨(2 : K) * hist[hist.length - 1].center - center, 0, timePointZero⟩)) := by
  have h₁ : ((hist.length : Int) - 1).toNat = hist.length - 1 := by omega
  have h₂ : ((hist.length : Int) - 1 - 1).toNat = hist.length - 2 := by omega
  rw [segmentBins, if_neg (by omega), if_neg (by omega), h₁, h₂, elementAt_of_lt (by omega),
    elementAt_of_lt (by omega)]
  rfl

/-- Past the last segment there is no bin to read. -/
theorem segmentBins_beyond (hlen : 2 ≤ hist.length) {k : Nat} (h : hist.length < k) :
    tol.segmentBins hist (k - 1) = .error .undefinedBehaviour := by
  rw [segmentBins, if_neg (by omega), if_neg (by omega), elementAt_of_le (by omega)]
  rfl

end SegmentBins

end Tolerances

/-- `find_z` in the source. -/
def findZ (root : K → K) (a b c : K) : Except Fault K := Tolerances.source.findZ root a b c

/-- `quantile_extractor::at` in the source. -/
def quantileAt (root : K → K) (statistics : Option (Statistics K)) (probability : K) : Except Fault K :=
  Tolerances.source.quantileAt root statistics probability

namespace Statistics

/-- `statistics::quantile`: `get<tag::quantile>().at(probability)`. -/
def getQuantile (root : K → K) (st : Statistics K) (probability : K) : Except Fault K :=
  if st.computed .quantile then quantileAt root (some st) probability else .error .invalidTag

end Statistics

end Handystats
