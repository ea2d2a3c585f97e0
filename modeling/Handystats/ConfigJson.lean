/-
`config_json`: a whole configuration, read section by section, and
`select_pattern`, which finds the section for a metric's name.

The old format's sections come first, then the new format's, then every other
member, which is a pattern section: its name is expanded, its value stored as
it is and looked at when the first event of a matching name arrives.
-/
import Handystats.Config
import Handystats.Pattern

namespace Handystats

open Effect Pattern

namespace Config

/-! ## The parts of the options -/

/-- A `configure` of `statistics_opts`. -/
abbrev onStatisticsOpts : Effect Fault StatisticsConfig Unit → Effect Fault Config Unit :=
  zoom Config.statisticsOpts fun cfg opts => { cfg with statisticsOpts := opts }

/-- A `configure` of `gauge_opts`. -/
abbrev onGaugeOpts : Effect Fault GaugeConfig Unit → Effect Fault Config Unit :=
  zoom Config.gaugeOpts fun cfg opts => { cfg with gaugeOpts := opts }

/-- A `configure` of `counter_opts`. -/
abbrev onCounterOpts : Effect Fault CounterConfig Unit → Effect Fault Config Unit :=
  zoom Config.counterOpts fun cfg opts => { cfg with counterOpts := opts }

/-- A `configure` of `timer_opts`. -/
abbrev onTimerOpts : Effect Fault TimerConfig Unit → Effect Fault Config Unit :=
  zoom Config.timerOpts fun cfg opts => { cfg with timerOpts := opts }

/-- A `configure` of `metrics_dump_opts`. -/
abbrev onMetricsDumpOpts : Effect Fault MetricsDumpConfig Unit → Effect Fault Config Unit :=
  zoom Config.metricsDumpOpts fun cfg opts => { cfg with metricsDumpOpts := opts }

/-- A `configure` of `core_opts`. -/
abbrev onCoreOpts : Effect Fault CoreConfig Unit → Effect Fault Config Unit :=
  zoom Config.coreOpts fun cfg opts => { cfg with coreOpts := opts }

/-- A `configure` of `gauge_opts.values`. -/
abbrev onGaugeValues (x : Effect Fault StatisticsConfig Unit) : Effect Fault Config Unit :=
  onGaugeOpts (zoom GaugeConfig.values (fun obj values => { obj with values := values }) x)

/-- A `configure` of `counter_opts.values`. -/
abbrev onCounterValues (x : Effect Fault StatisticsConfig Unit) : Effect Fault Config Unit :=
  onCounterOpts (zoom CounterConfig.values (fun obj values => { obj with values := values }) x)

/-- A `configure` of `timer_opts.values`. -/
abbrev onTimerValues (x : Effect Fault StatisticsConfig Unit) : Effect Fault Config Unit :=
  onTimerOpts (zoom TimerConfig.values (fun obj values => { obj with values := values }) x)

/-! ## The sections -/

/-- `if (config.HasMember(name)) body(config[name])`. -/
def onMember (config : Json) (name : String) (body : Json → Effect Fault Config Unit) :
    Effect Fault Config Unit := do
  match ← ofExcept (config.find name) with
  | some value => body value
  | none => pure ()

/-- What `"statistics"` and `"defaults"` do. -/
def configureDefaults (config : Json) : Effect Fault Config Unit := do
  onStatisticsOpts (StatisticsConfig.configure config)
  onGaugeValues (StatisticsConfig.configure config)
  onCounterValues (StatisticsConfig.configure config)
  onTimerValues (StatisticsConfig.configure config)

/-- What `"metrics"` does. -/
def configureMetrics (config : Json) : Effect Fault Config Unit := do
  onMember config "gauge" fun gauge => onGaugeOpts (GaugeConfig.configure gauge)
  onMember config "counter" fun counter => onCounterOpts (CounterConfig.configure counter)
  onMember config "timer" fun timer => onTimerOpts (TimerConfig.configure timer)

/-- What `"dump-interval"` does. -/
def configureDumpInterval : Json → Effect Fault Config Unit
  | .uint64 n =>
    modify fun cfg => { cfg with metricsDumpOpts := { cfg.metricsDumpOpts with interval := milliseconds n } }
  | _ => pure ()

/-- What `"enable"` does. -/
def configureEnable : Json → Effect Fault Config Unit
  | .bool enable => modify fun cfg => { cfg with coreOpts := { cfg.coreOpts with enable := enable } }
  | _ => pure ()

/-- All sections but the patterns. -/
def configureSections (config : Json) : Effect Fault Config Unit := do
  onMember config "statistics" configureDefaults
  onMember config "metrics" configureMetrics
  onMember config "metrics-dump" fun dump => onMetricsDumpOpts (MetricsDumpConfig.configure dump)
  onMember config "core" fun core => onCoreOpts (CoreConfig.configure core)
  onMember config "defaults" configureDefaults
  onMember config "gauge" fun gauge => onGaugeOpts (GaugeConfig.configure gauge)
  onMember config "counter" fun counter => onCounterOpts (CounterConfig.configure counter)
  onMember config "timer" fun timer => onTimerOpts (TimerConfig.configure timer)
  onMember config "dump-interval" configureDumpInterval
  onMember config "enable" configureEnable

/-! ## The patterns -/

/-- The names that the loop over the members skips. -/
def reservedSections : List String :=
  ["statistics", "metrics", "metrics-dump", "core", "defaults", "gauge", "counter", "timer",
    "dump-interval", "enable"]

/-- The loop over the members. -/
def configurePatterns : List (String × Json) → Effect Fault Config Bool
  | [] => pure true
  | (name, value) :: members =>
    if cString name ∈ reservedSections then configurePatterns members
    else
      match expandPattern (cString name).toList with
      | .ok expansion => do
        modify fun cfg => { cfg with patternOpts := cfg.patternOpts ++ [(expansion, value)] }
        configurePatterns members
      | .error (.logicError _) => pure false
      | .error e => ofExcept (.error e)

end Config

open Config

/-- `config_json`. `parsed` is what the parser makes of the text, nothing where
it has a parse error. -/
def configJson (enabled : Bool) (parsed : Option Json) : Effect Fault Config Bool :=
  if enabled then pure true
  else
    match parsed with
    | none => pure false
    | some cfg =>
      if cfg.isObject then do
        configureSections cfg
        configurePatterns cfg.members
      else pure false

/-- `select_pattern`, over any `fnmatch`. -/
def selectPattern (fnmatch : List Char → List Char → Bool) (patternOpts : List (List (List Char) × Json))
    (name : String) : Option Json :=
  (patternOpts.find? fun patternGroup =>
    patternGroup.1.any fun pattern => fnmatch pattern (cString name).toList).map Prod.snd

namespace Config

/-- The pattern sections of a document, in its order. -/
def patternSections (members : List (String × Json)) : List (List (List Char) × Json) :=
  members.filterMap fun member =>
    if cString member.1 ∈ reservedSections then none
    else
      match expandPattern (cString member.1).toList with
      | .ok expansion => some (expansion, member.2)
      | .error _ => none

/-! ## What an accepted document leaves -/

theorem keeps_onMember {γ : Type} {p : Config → γ} {config : Json} {name : String}
    {body : Json → Effect Fault Config Unit} (h : ∀ value, Keeps p (body value)) :
    Keeps p (onMember config name body) := by
  refine (keeps_ofExcept _).bind fun found => ?_
  cases found with
  | none => exact keeps_pure _
  | some value => exact h value

theorem keeps_configureDefaults (config : Json) :
    Keeps Config.patternOpts (configureDefaults config) := by
  refine Keeps.bind (keeps_zoom _ fun _ _ => rfl) fun _ => ?_
  refine Keeps.bind (keeps_zoom _ fun _ _ => rfl) fun _ => ?_
  refine Keeps.bind (keeps_zoom _ fun _ _ => rfl) fun _ => ?_
  exact keeps_zoom _ fun _ _ => rfl

theorem keeps_configureMetrics (config : Json) :
    Keeps Config.patternOpts (configureMetrics config) := by
  refine Keeps.bind (keeps_onMember fun _ => keeps_zoom _ fun _ _ => rfl) fun _ => ?_
  refine Keeps.bind (keeps_onMember fun _ => keeps_zoom _ fun _ _ => rfl) fun _ => ?_
  exact keeps_onMember fun _ => keeps_zoom _ fun _ _ => rfl

theorem keeps_configureDumpInterval {γ : Type} {p : Config → γ}
    (hp : ∀ cfg opts, p { cfg with metricsDumpOpts := opts } = p cfg) (config : Json) :
    Keeps p (configureDumpInterval config) := by
  cases config with
  | uint64 n => exact keeps_modify fun _ => hp _ _
  | _ => exact keeps_pure ()

theorem keeps_configureEnable {γ : Type} {p : Config → γ}
    (hp : ∀ cfg opts, p { cfg with coreOpts := opts } = p cfg) (config : Json) :
    Keeps p (configureEnable config) := by
  cases config with
  | bool enable => exact keeps_modify fun _ => hp _ _
  | _ => exact keeps_pure ()

/-- The other sections leave the patterns alone. -/
theorem keeps_configureSections (config : Json) :
    Keeps Config.patternOpts (configureSections config) := by
  refine Keeps.bind (keeps_onMember keeps_configureDefaults) fun _ => ?_
  refine Keeps.bind (keeps_onMember keeps_configureMetrics) fun _ => ?_
  refine Keeps.bind (keeps_onMember fun _ => keeps_zoom _ fun _ _ => rfl) fun _ => ?_
  refine Keeps.bind (keeps_onMember fun _ => keeps_zoom _ fun _ _ => rfl) fun _ => ?_
  refine Keeps.bind (keeps_onMember keeps_configureDefaults) fun _ => ?_
  refine Keeps.bind (keeps_onMember fun _ => keeps_zoom _ fun _ _ => rfl) fun _ => ?_
  refine Keeps.bind (keeps_onMember fun _ => keeps_zoom _ fun _ _ => rfl) fun _ => ?_
  refine Keeps.bind (keeps_onMember fun _ => keeps_zoom _ fun _ _ => rfl) fun _ => ?_
  refine Keeps.bind (keeps_onMember (keeps_configureDumpInterval fun _ _ => rfl)) fun _ => ?_
  exact keeps_onMember (keeps_configureEnable fun _ _ => rfl)

/-- The loop that accepts stores every pattern section. -/
theorem configurePatterns_true {members : List (String × Json)} {cfg cfg' : Config}
    (h : configurePatterns members cfg = (.ok true, cfg')) :
    cfg'.patternOpts = cfg.patternOpts ++ patternSections members := by
  induction members generalizing cfg with
  | nil =>
    cases h
    simp [patternSections]
  | cons member members ih =>
    obtain ⟨name, value⟩ := member
    unfold configurePatterns at h
    split_ifs at h with hreserved
    · rw [ih h, patternSections, patternSections, List.filterMap_cons_none (by simp [hreserved])]
    · cases hexp : expandPattern (cString name).toList with
      | error e =>
        rw [hexp] at h
        cases e <;> cases h
      | ok expansion =>
        rw [hexp] at h
        obtain ⟨_, cfg₁, hmodify, hrest⟩ := bind_run_ok.1 h
        cases hmodify
        rw [ih hrest, patternSections, patternSections,
          List.filterMap_cons_some (b := (expansion, value)) (by simp [hreserved, hexp])]
        simp

/-- An accepted document's pattern sections are what `select_pattern` chooses
from. -/
theorem configJson_patternOpts {doc : Json} {cfg cfg' : Config}
    (h : configJson false (some doc) cfg = (.ok true, cfg')) :
    cfg'.patternOpts = cfg.patternOpts ++ patternSections doc.members := by
  unfold configJson at h
  simp only [Bool.false_eq_true, if_false] at h
  split_ifs at h
  · obtain ⟨_, cfg₁, hsections, hpatterns⟩ := bind_run_ok.1 h
    rw [configurePatterns_true hpatterns, (keeps_configureSections doc).of_run hsections]
  · cases h

end Config

end Handystats
