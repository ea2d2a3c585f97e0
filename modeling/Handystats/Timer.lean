/-
`metrics::timer`: running instances by their ids, and the statistics the
durations of the stopped ones are fed to.

The statistics are any sink `S` with its `feed` (`m_values.update`): the
timer's own logic asks nothing of them. Each operation that checks for idle
instances is that check and a body, `started`, `stopped`, `heartbeaten` and
`discarded`; the bodies alone are the timer that never sweeps.
-/
import Mathlib.Logic.Function.Basic
import Handystats.Fault
import Handystats.Chrono

namespace Handystats

/-- `timer::instance_state`. -/
structure InstanceState where
  startTimestamp : Int
  heartbeatTimestamp : Int
  deriving DecidableEq

/-- `timer::instance_state::expired`. Timestamps are in the clock's unit, the
finest there is, so their difference is compared in it. -/
def InstanceState.expired (ck : Clock) (instanceState : InstanceState) (idleTimeout : Duration)
    (timestamp : Int) : Bool :=
  timestamp > instanceState.heartbeatTimestamp &&
    timestamp - instanceState.heartbeatTimestamp > ck.count idleTimeout

/-- `timer`. `instances` is `m_instances`. -/
structure Timer (S : Type) where
  idleTimeout : Duration
  values : S
  instances : UInt64 → Option InstanceState
  idleCheckTimestamp : Int

/-- `timer::value_unit`. -/
def Timer.valueUnit : TimeUnit := .usec

namespace Timer

variable {S : Type}

/-- A timer as constructed, with these statistics. -/
def fresh (idleTimeout : Duration) (values : S) : Timer S := ⟨idleTimeout, values, fun _ => none, timePointZero⟩

section Operations

variable (ck : Clock) (feed : S → Int → Int → Except Fault S)

/-- `timer::check_idle_timeout`. -/
def checkIdleTimeout (tm : Timer S) (timestamp : Int) (force : Bool) : Timer S :=
  if !force && timestamp < tm.idleCheckTimestamp + ck.count tm.idleTimeout then tm
  else
    { tm with
      instances := fun id =>
        (tm.instances id).filter fun instanceState => !instanceState.expired ck tm.idleTimeout timestamp
      idleCheckTimestamp := max tm.idleCheckTimestamp timestamp }

/-- `timer::start` after its check. -/
def started (tm : Timer S) (instanceId : UInt64) (timestamp : Int) : Timer S :=
  { tm with instances := Function.update tm.instances instanceId (some ⟨timestamp, timestamp⟩) }

/-- `m_instances.erase`. -/
def erase (tm : Timer S) (instanceId : UInt64) : Timer S :=
  { tm with instances := Function.update tm.instances instanceId none }

/-- What `stop` feeds to the statistics for an instance. -/
def instanceValue (instanceState : InstanceState) (timestamp : Int) : Int :=
  ck.countIn valueUnit ⟨timestamp - instanceState.startTimestamp, ck.unit⟩

/-- `timer::stop` after its check. -/
def stopped (tm : Timer S) (instanceId : UInt64) (timestamp : Int) : Except Fault (Timer S) :=
  match tm.instances instanceId with
  | none => .ok tm
  | some instanceState =>
    if instanceState.expired ck tm.idleTimeout timestamp then .ok (tm.erase instanceId)
    else do
      let values ← feed tm.values (instanceValue ck instanceState timestamp) timestamp
      .ok ({ tm with values := values }.erase instanceId)

/-- `timer::heartbeat` after its check. -/
def heartbeaten (tm : Timer S) (instanceId : UInt64) (timestamp : Int) : Timer S :=
  match tm.instances instanceId with
  | none => tm
  | some instanceState =>
    if instanceState.expired ck tm.idleTimeout timestamp then tm.erase instanceId
    else
      { tm with
        instances := Function.update tm.instances instanceId
          (some { instanceState with heartbeatTimestamp := timestamp }) }

/-- `timer::discard` after its check. -/
def discarded (tm : Timer S) (instanceId : UInt64) : Timer S := tm.erase instanceId

/-- `timer::start`. -/
def start (tm : Timer S) (instanceId : UInt64) (timestamp : Int) : Timer S :=
  (tm.checkIdleTimeout ck timestamp false).started instanceId timestamp

/-- `timer::stop`. -/
def stop (tm : Timer S) (instanceId : UInt64) (timestamp : Int) : Except Fault (Timer S) :=
  (tm.checkIdleTimeout ck timestamp false).stopped ck feed instanceId timestamp

/-- `timer::heartbeat`. -/
def heartbeat (tm : Timer S) (instanceId : UInt64) (timestamp : Int) : Timer S :=
  (tm.checkIdleTimeout ck timestamp false).heartbeaten ck instanceId timestamp

/-- `timer::discard`. -/
def discard (tm : Timer S) (instanceId : UInt64) (timestamp : Int) : Timer S :=
  (tm.checkIdleTimeout ck timestamp false).discarded instanceId

/-- `timer::set`. -/
def set (tm : Timer S) (measurement : Duration) (timestamp : Int) : Except Fault (Timer S) := do
  let values ← feed tm.values (ck.countIn valueUnit measurement) timestamp
  .ok { tm with values := values }

end Operations

/-- A call of one of the operations. -/
inductive Operation where
  | start (instanceId : UInt64) (timestamp : Int)
  | stop (instanceId : UInt64) (timestamp : Int)
  | heartbeat (instanceId : UInt64) (timestamp : Int)
  | discard (instanceId : UInt64) (timestamp : Int)
  | set (measurement : Duration) (timestamp : Int)
  | checkIdleTimeout (timestamp : Int) (force : Bool)

/-- The time an operation is made for. -/
def Operation.timestamp : Operation → Int
  | .start _ t | .stop _ t | .heartbeat _ t | .discard _ t | .set _ t | .checkIdleTimeout t _ => t

variable (ck : Clock) (feed : S → Int → Int → Except Fault S)

/-- One operation. -/
def step (tm : Timer S) : Operation → Except Fault (Timer S)
  | .start id t => .ok (tm.start ck id t)
  | .stop id t => tm.stop ck feed id t
  | .heartbeat id t => .ok (tm.heartbeat ck id t)
  | .discard id t => .ok (tm.discard ck id t)
  | .set d t => tm.set ck feed d t
  | .checkIdleTimeout t force => .ok (tm.checkIdleTimeout ck t force)

/-- One operation of the reference timer, which has no `check_idle_timeout`. -/
def referenceStep (tm : Timer S) : Operation → Except Fault (Timer S)
  | .start id t => .ok (tm.started id t)
  | .stop id t => tm.stopped ck feed id t
  | .heartbeat id t => .ok (tm.heartbeaten ck id t)
  | .discard id _ => .ok (tm.discarded id)
  | .set d t => tm.set ck feed d t
  | .checkIdleTimeout _ _ => .ok tm

end Timer

end Handystats
