/-
`config`: the options, and how a JSON section configures them.

A `configure` is an effect on its object: the tag loop of
`configure(statistics&, ..)` may throw with the object half written.
-/
import Handystats.Library.Effect
import Handystats.Json
import Handystats.StatisticsConfig

namespace Handystats

open Effect

/-! ## The options -/

/-- `config::metrics::gauge`. -/
structure GaugeConfig where
  values : StatisticsConfig

/-- `config::metrics::counter`. -/
structure CounterConfig where
  values : StatisticsConfig

/-- `config::metrics::timer`. -/
structure TimerConfig where
  idleTimeout : Duration
  values : StatisticsConfig

/-- `config::metrics_dump`. -/
structure MetricsDumpConfig where
  interval : Duration

/-- `config::core`. -/
structure CoreConfig where
  enable : Bool

/-- `config::metrics::gauge::gauge()`. -/
def GaugeConfig.default : GaugeConfig := ⟨.default⟩

/-- `config::metrics::counter::counter()`. -/
def CounterConfig.default : CounterConfig := ⟨.default⟩

/-- `config::metrics::timer::timer()`. -/
def TimerConfig.default : TimerConfig := ⟨⟨10, .sec⟩, .default⟩

/-- `config::metrics_dump::metrics_dump()`. -/
def MetricsDumpConfig.default : MetricsDumpConfig := ⟨⟨750, .msec⟩⟩

/-- `config::core::core()`. -/
def CoreConfig.default : CoreConfig := ⟨true⟩

/-- The options of the library: `statistics_opts`, `gauge_opts` and so on, and
the pattern sections with the words their patterns expand to. -/
structure Config where
  statisticsOpts : StatisticsConfig
  gaugeOpts : GaugeConfig
  counterOpts : CounterConfig
  timerOpts : TimerConfig
  metricsDumpOpts : MetricsDumpConfig
  coreOpts : CoreConfig
  patternOpts : List (List (List Char) × Json)

/-- The options as `config::reset` leaves them. -/
def Config.default : Config where
  statisticsOpts := .default
  gaugeOpts := .default
  counterOpts := .default
  timerOpts := .default
  metricsDumpOpts := .default
  coreOpts := .default
  patternOpts := []

/-! ## The sections -/

/-- A number of milliseconds as a `chrono::duration`. -/
def milliseconds (n : UInt64) : Duration := ⟨toInt64 n.toNat, .msec⟩

namespace StatisticsConfig

/-- The loop over the elements of `tags`. -/
def addTags : List Json → Effect Fault StatisticsConfig Unit
  | [] => pure ()
  | .string name :: tags => do
    let tag ← ofExcept (Tag.fromString (cString name))
    modify fun obj => { obj with tags := obj.tags ||| tag.bit }
    addTags tags
  | _ :: tags => addTags tags

/-- The unit that `rate-unit` names; `TICK` stands for none. -/
def rateUnitOf (name : String) : TimeUnit :=
  if name = "ns" then .nsec
  else if name = "us" then .usec
  else if name = "ms" then .msec
  else if name = "s" then .sec
  else if name = "m" then .min
  else if name = "h" then .hour
  else .tick

/-- What `moving-interval` does to the options. -/
def configureMovingInterval : Option Json → Effect Fault StatisticsConfig Unit
  | some (.uint64 n) =>
    if 0 < n then modify fun obj => { obj with movingInterval := milliseconds n } else pure ()
  | _ => pure ()

/-- What `histogram-bins` does to the options. -/
def configureHistogramBins : Option Json → Effect Fault StatisticsConfig Unit
  | some (.uint64 n) => if 0 < n then modify fun obj => { obj with histogramBins := n.toNat } else pure ()
  | _ => pure ()

/-- What `tags` does to the options. -/
def configureTags : Option Json → Effect Fault StatisticsConfig Unit
  | some (.array tags) => do
    modify fun obj => { obj with tags := Tag.empty }
    addTags tags
  | _ => pure ()

/-- What `rate-unit` does to the options. -/
def configureRateUnit : Option Json → Effect Fault StatisticsConfig Unit
  | some (.string name) =>
    if rateUnitOf (cString name) ≠ .tick then
      modify fun obj => { obj with rateUnit := rateUnitOf (cString name) }
    else pure ()
  | _ => pure ()

/-- `configure(statistics&, config)`. -/
def configure (config : Json) : Effect Fault StatisticsConfig Unit := do
  if config.isObject then
    configureMovingInterval (← ofExcept (config.find "moving-interval"))
    configureHistogramBins (← ofExcept (config.find "histogram-bins"))
    configureTags (← ofExcept (config.find "tags"))
    configureRateUnit (← ofExcept (config.find "rate-unit"))
  else pure ()

end StatisticsConfig

/-- `configure(gauge&, config)`. -/
def GaugeConfig.configure (config : Json) : Effect Fault GaugeConfig Unit :=
  if config.isObject then
    zoom GaugeConfig.values (fun obj values => { obj with values := values })
      (StatisticsConfig.configure config)
  else pure ()

/-- `configure(counter&, config)`. -/
def CounterConfig.configure (config : Json) : Effect Fault CounterConfig Unit :=
  if config.isObject then
    zoom CounterConfig.values (fun obj values => { obj with values := values })
      (StatisticsConfig.configure config)
  else pure ()

/-- What `idle-timeout` does to the options. -/
def TimerConfig.configureIdleTimeout : Option Json → Effect Fault TimerConfig Unit
  | some (.uint64 n) => modify fun obj => { obj with idleTimeout := milliseconds n }
  | _ => pure ()

/-- `configure(timer&, config)`. -/
def TimerConfig.configure (config : Json) : Effect Fault TimerConfig Unit := do
  if config.isObject then
    TimerConfig.configureIdleTimeout (← ofExcept (config.find "idle-timeout"))
    zoom TimerConfig.values (fun obj values => { obj with values := values })
      (StatisticsConfig.configure config)
  else pure ()

/-- `metrics_dump::configure`. -/
def MetricsDumpConfig.configure (config : Json) : Effect Fault MetricsDumpConfig Unit := do
  if config.isObject then
    match ← ofExcept (config.find "interval") with
    | some (.uint64 n) => modify fun obj => { obj with interval := milliseconds n }
    | _ => pure ()
  else pure ()

/-- `core::configure`. -/
def CoreConfig.configure (config : Json) : Effect Fault CoreConfig Unit := do
  if config.isObject then
    match ← ofExcept (config.find "enable") with
    | some (.bool enable) => modify fun obj => { obj with enable := enable }
    | _ => pure ()
  else pure ()

end Handystats
