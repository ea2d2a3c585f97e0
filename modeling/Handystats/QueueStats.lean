/-
`message_queue::stats`: what the message queue says about itself. The
processing thread updates them as it pops.
-/
import Handystats.Events

namespace Handystats.MessageQueue

variable {K : Type} [Field K] [LinearOrder K]

/-- `stats::size`, `stats::message_wait_time` and `stats::pop_count`. -/
structure Stats (K : Type) where
  size : Gauge K
  messageWaitTime : Gauge K
  popCount : Counter K

namespace Stats

/-- The options of `stats::size`. -/
def sizeOpts : GaugeConfig :=
  ⟨{ StatisticsConfig.default with
    tags := Tag.value.bit ||| Tag.max.bit ||| Tag.movingAvg.bit
    movingInterval := ⟨1, .sec⟩ }⟩

/-- The options of `stats::message_wait_time`. -/
def messageWaitTimeOpts : GaugeConfig :=
  ⟨{ StatisticsConfig.default with tags := Tag.movingAvg.bit, movingInterval := ⟨1, .sec⟩ }⟩

/-- The options of `stats::pop_count`. -/
def popCountOpts : CounterConfig :=
  ⟨{ StatisticsConfig.default with
    tags := Tag.rate.bit ||| Tag.value.bit
    rateUnit := .sec
    movingInterval := ⟨1, .sec⟩ }⟩

variable (pf : Platform K)

/-- `stats::initialize`, at the time `now`. -/
def initialized (now : Int) : Except Fault (Stats K) := do
  let size ← Gauge.new pf sizeOpts
  let size ← size.set pf 0 now
  let messageWaitTime ← Gauge.new pf messageWaitTimeOpts
  let popCount ← Counter.new pf popCountOpts
  .ok ⟨size, messageWaitTime, popCount⟩

/-- What `pop` records of a message that it has obtained at `currentTime`, with
`mqSize` messages left. -/
def popped (stats : Stats K) (mqSize : Nat) (message : EventMessage) (currentTime : Int) :
    Except Fault (Stats K) := do
  let size ← stats.size.set pf (toDouble mqSize) currentTime
  let popCount ← stats.popCount.increment pf 1 currentTime
  let waited := pf.clock.countIn Timer.valueUnit ⟨currentTime - message.timestamp, pf.clock.unit⟩
  let messageWaitTime ← stats.messageWaitTime.set pf (toDouble waited) currentTime
  .ok ⟨size, messageWaitTime, popCount⟩

/-- `stats::update`. -/
def update (stats : Stats K) (timestamp : Int) : Stats K where
  size := stats.size.updateStatistics pf timestamp
  messageWaitTime := stats.messageWaitTime.updateStatistics pf timestamp
  popCount := stats.popCount.updateStatistics pf timestamp

end Stats

end Handystats.MessageQueue
