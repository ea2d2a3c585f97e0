/-
What can be asked of a `statistics` object: `get<tag>` for each tag, which
throws `invalid_tag_error` where the tag is not computed. (`get<quantile>` is
`Handystats.Quantile`.)
-/
import Handystats.Statistics

namespace Handystats.Statistics

open MathUtils

variable {K : Type} [Field K] [LinearOrder K]

/-- `get<t>`, where `get_impl<t>` computes `x`. -/
def get {α : Type} (st : Statistics K) (t : Tag) (x : α) : Except Fault α :=
  if st.computed t then .ok x else .error .invalidTag

omit [Field K] [LinearOrder K] in
theorem get_of_computed {st : Statistics K} {t : Tag} (h : st.computed t = true) {α : Type} (x : α) :
    st.get t x = .ok x := if_pos h

omit [Field K] [LinearOrder K] in
theorem get_ok {st : Statistics K} {t : Tag} {α : Type} {x y : α} (h : st.get t x = .ok y) :
    x = y := by
  unfold get at h
  split_ifs at h
  exact Except.ok.inj h

/-- `get<tag::value>`. -/
def getValue (st : Statistics K) : Except Fault K := st.get .value st.value

/-- `get<tag::min>`. -/
def getMin (st : Statistics K) : Except Fault K := st.get .min st.minValue

/-- `get<tag::max>`. -/
def getMax (st : Statistics K) : Except Fault K := st.get .max st.maxValue

/-- `get<tag::count>`. -/
def getCount (st : Statistics K) : Except Fault Nat := st.get .count st.count

/-- `get<tag::sum>`. -/
def getSum (st : Statistics K) : Except Fault K := st.get .sum st.sum

/-- `get<tag::avg>`. -/
def getAvg (st : Statistics K) : Except Fault K :=
  st.get .avg (if st.count = 0 then 0 else st.sum / st.count)

/-- `get<tag::moving_count>`. -/
def getMovingCount (st : Statistics K) : Except Fault K := st.get .movingCount st.movingCount

/-- `get<tag::moving_sum>`. -/
def getMovingSum (st : Statistics K) : Except Fault K := st.get .movingSum st.movingSum

/-- `get<tag::moving_avg>`. -/
def getMovingAvg (st : Statistics K) : Except Fault K :=
  st.get .movingAvg
    (if cmp doubleEps st.movingCount 0 ≤ 0 then 0 else st.movingSum / st.movingCount)

/-- `get<tag::histogram>`. -/
def getHistogram (st : Statistics K) : Except Fault (Histogram K) := st.get .histogram st.histogram

/-- `get<tag::timestamp>`. -/
def getTimestamp (st : Statistics K) : Except Fault Int := st.get .timestamp st.timestamp

/-- `get<tag::rate>`. -/
def getRate (pf : Platform K) (st : Statistics K) : Except Fault K :=
  let movingInterval := st.config.movingInterval
  st.get .rate
    (if precisionClass st.config.rateUnit < precisionClass movingInterval.unit then
      let rateFactor := pf.clock.countIn st.config.rateUnit movingInterval
      st.rate / (rateFactor : K)
    else
      let rateFactor := pf.clock.countIn movingInterval.unit ⟨1, st.config.rateUnit⟩
      st.rate * (rateFactor : K) / (movingInterval.rep : K))

/-- The width `get<tag::entropy>` gives the bin at `i`. -/
def binWidth (histogram : Histogram K) (i : Nat) (bin : Bin K) : K :=
  let leftWidth :=
    match if i = 0 then none else histogram[i - 1]? with
    | some left => (bin.center - left.center) * bin.count / (bin.count + left.count)
    | none => 0
  let rightWidth :=
    match histogram[i + 1]? with
    | some right => (right.center - bin.center) * bin.count / (bin.count + right.count)
    | none => 0
  let width := leftWidth + rightWidth
  if i = 0 ∨ i + 1 = histogram.length then width * 2 else width

/-- `get<tag::entropy>`, with the natural logarithm `log`. -/
def getEntropy (log : K → K) (st : Statistics K) : Except Fault K :=
  let histogram := st.histogram
  let movingCount := histogram.total
  st.get .entropy
    (if histogram.length ≤ 1 then 0
    else if cmp doubleEps movingCount 0 ≤ 0 then 0
    else
      histogram.zipIdx.foldl
        (fun h (bin, i) =>
          if cmp doubleEps bin.count 0 ≤ 0 then h
          else h - bin.count * log (bin.count / movingCount / binWidth histogram i bin) / movingCount)
        0)

end Handystats.Statistics
