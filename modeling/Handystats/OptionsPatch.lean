/-
What a document asks of the options.

A section asks for values of some options and leaves the others alone: it is a
patch. Patches are applied one after the other, the later one's values over the
earlier one's (`after`). `configureSections_patches` says that the sections of a
document, where they are sound, do to the options what the document's patch
does, and end in a fault otherwise.
-/
import Handystats.ConfigJson
import Handystats.SectionFacts

namespace Handystats

open Effect

/-! ## Patches -/

/-- Values for some of the options of statistics. -/
structure StatisticsPatch where
  movingInterval : Option Duration
  histogramBins : Option Nat
  tags : Option Nat
  rateUnit : Option TimeUnit

namespace StatisticsPatch

def empty : StatisticsPatch := ⟨none, none, none, none⟩

/-- The options with the patch's values. -/
def apply (patch : StatisticsPatch) (obj : StatisticsConfig) : StatisticsConfig where
  movingInterval := patch.movingInterval.getD obj.movingInterval
  histogramBins := patch.histogramBins.getD obj.histogramBins
  tags := patch.tags.getD obj.tags
  rateUnit := patch.rateUnit.getD obj.rateUnit

/-- The values of `patch` over those of `before`. -/
def after (patch before : StatisticsPatch) : StatisticsPatch where
  movingInterval := patch.movingInterval.or before.movingInterval
  histogramBins := patch.histogramBins.or before.histogramBins
  tags := patch.tags.or before.tags
  rateUnit := patch.rateUnit.or before.rateUnit

@[simp] theorem apply_empty (obj : StatisticsConfig) : empty.apply obj = obj := rfl

@[simp] theorem after_empty (patch : StatisticsPatch) : patch.after empty = patch := by
  simp [after, empty]

@[simp] theorem empty_after (patch : StatisticsPatch) : empty.after patch = patch := by
  simp [after, empty]

theorem apply_after (patch before : StatisticsPatch) (obj : StatisticsConfig) :
    (patch.after before).apply obj = patch.apply (before.apply obj) := by
  simp [after, apply, Option.getD_or]

end StatisticsPatch

/-- Values for some of the options. -/
structure OptionsPatch where
  statistics : StatisticsPatch
  gauge : StatisticsPatch
  counter : StatisticsPatch
  timer : StatisticsPatch
  idleTimeout : Option Duration
  dumpInterval : Option Duration
  enable : Option Bool

namespace OptionsPatch

def empty : OptionsPatch := ⟨.empty, .empty, .empty, .empty, none, none, none⟩

/-- The options with the patch's values. -/
def apply (patch : OptionsPatch) (cfg : Config) : Config where
  statisticsOpts := patch.statistics.apply cfg.statisticsOpts
  gaugeOpts := ⟨patch.gauge.apply cfg.gaugeOpts.values⟩
  counterOpts := ⟨patch.counter.apply cfg.counterOpts.values⟩
  timerOpts := ⟨patch.idleTimeout.getD cfg.timerOpts.idleTimeout, patch.timer.apply cfg.timerOpts.values⟩
  metricsDumpOpts := ⟨patch.dumpInterval.getD cfg.metricsDumpOpts.interval⟩
  coreOpts := ⟨patch.enable.getD cfg.coreOpts.enable⟩
  patternOpts := cfg.patternOpts

/-- The values of `patch` over those of `before`. -/
def after (patch before : OptionsPatch) : OptionsPatch where
  statistics := patch.statistics.after before.statistics
  gauge := patch.gauge.after before.gauge
  counter := patch.counter.after before.counter
  timer := patch.timer.after before.timer
  idleTimeout := patch.idleTimeout.or before.idleTimeout
  dumpInterval := patch.dumpInterval.or before.dumpInterval
  enable := patch.enable.or before.enable

@[simp] theorem apply_empty (cfg : Config) : empty.apply cfg = cfg := rfl

theorem apply_after (patch before : OptionsPatch) (cfg : Config) :
    (patch.after before).apply cfg = patch.apply (before.apply cfg) := by
  simp [after, apply, StatisticsPatch.apply_after, Option.getD_or]

end OptionsPatch

/-! ## What changes nothing -/

instance : Nontrivial Duration := ⟨⟨0, .sec⟩, ⟨1, .sec⟩, by decide⟩

instance : Nontrivial TimeUnit := ⟨.sec, .msec, by decide⟩

theorem eq_none_of_getD {α : Type} [Nontrivial α] {o : Option α} (h : ∀ a, o.getD a = a) : o = none := by
  cases o with
  | none => rfl
  | some b =>
    obtain ⟨a, hne⟩ := exists_ne b
    exact absurd (h a).symm hne

theorem StatisticsPatch.eq_empty {patch : StatisticsPatch} (h : ∀ obj, patch.apply obj = obj) :
    patch = .empty := by
  obtain ⟨movingInterval, histogramBins, tags, rateUnit⟩ := patch
  have h₁ : movingInterval = none :=
    eq_none_of_getD fun a =>
      congrArg StatisticsConfig.movingInterval (h { StatisticsConfig.default with movingInterval := a })
  have h₂ : histogramBins = none :=
    eq_none_of_getD fun a =>
      congrArg StatisticsConfig.histogramBins (h { StatisticsConfig.default with histogramBins := a })
  have h₃ : tags = none :=
    eq_none_of_getD fun a =>
      congrArg StatisticsConfig.tags (h { StatisticsConfig.default with tags := a })
  have h₄ : rateUnit = none :=
    eq_none_of_getD fun a =>
      congrArg StatisticsConfig.rateUnit (h { StatisticsConfig.default with rateUnit := a })
  rw [h₁, h₂, h₃, h₄]
  rfl

/-- Only the empty patch leaves all options alone. -/
theorem OptionsPatch.eq_empty {patch : OptionsPatch} (h : ∀ cfg, patch.apply cfg = cfg) : patch = .empty := by
  obtain ⟨statistics, gauge, counter, timer, idleTimeout, dumpInterval, enable⟩ := patch
  have h₁ : statistics = .empty := StatisticsPatch.eq_empty fun obj =>
    congrArg Config.statisticsOpts (h { Config.default with statisticsOpts := obj })
  have h₂ : gauge = .empty := StatisticsPatch.eq_empty fun obj =>
    congrArg (fun cfg => cfg.gaugeOpts.values) (h { Config.default with gaugeOpts := ⟨obj⟩ })
  have h₃ : counter = .empty := StatisticsPatch.eq_empty fun obj =>
    congrArg (fun cfg => cfg.counterOpts.values) (h { Config.default with counterOpts := ⟨obj⟩ })
  have h₄ : timer = .empty := StatisticsPatch.eq_empty fun obj =>
    congrArg (fun cfg => cfg.timerOpts.values) (h { Config.default with timerOpts := ⟨⟨10, .sec⟩, obj⟩ })
  have h₅ : idleTimeout = none := eq_none_of_getD fun a =>
    congrArg (fun cfg => cfg.timerOpts.idleTimeout) (h { Config.default with timerOpts := ⟨a, .default⟩ })
  have h₆ : dumpInterval = none := eq_none_of_getD fun a =>
    congrArg (fun cfg => cfg.metricsDumpOpts.interval) (h { Config.default with metricsDumpOpts := ⟨a⟩ })
  have h₇ : enable = none := eq_none_of_getD fun a =>
    congrArg (fun cfg => cfg.coreOpts.enable) (h { Config.default with coreOpts := ⟨a⟩ })
  rw [h₁, h₂, h₃, h₄, h₅, h₆, h₇]
  rfl

/-! ## What a section asks for -/

/-- What `moving-interval` asks for. -/
def movingIntervalAsked : Option Json → Option Duration
  | some (.uint64 n) => if 0 < n then some (milliseconds n) else none
  | _ => none

/-- What `histogram-bins` asks for. -/
def histogramBinsAsked : Option Json → Option Nat
  | some (.uint64 n) => if 0 < n then some n.toNat else none
  | _ => none

/-- The bits of the tags that are named. -/
def tagBits (bits : Nat) : List Json → Nat
  | [] => bits
  | .string name :: tags =>
    match Tag.fromString (cString name) with
    | .ok tag => tagBits (bits ||| tag.bit) tags
    | .error _ => tagBits bits tags
  | _ :: tags => tagBits bits tags

/-- What `tags` asks for. -/
def tagsAsked : Option Json → Option Nat
  | some (.array tags) => some (tagBits Tag.empty tags)
  | _ => none

/-- What `rate-unit` asks for. -/
def rateUnitAsked : Option Json → Option TimeUnit
  | some (.string name) =>
    if StatisticsConfig.rateUnitOf (cString name) ≠ .tick then some (StatisticsConfig.rateUnitOf (cString name))
    else none
  | _ => none

/-- What `idle-timeout`, `interval` and `dump-interval` ask for. -/
def millisecondsAsked : Option Json → Option Duration
  | some (.uint64 n) => some (milliseconds n)
  | _ => none

/-- What `enable` asks for. -/
def enableAsked : Option Json → Option Bool
  | some (.bool enable) => some enable
  | _ => none

/-- What a section asks of the options of statistics. -/
def StatisticsPatch.ofSection (config : Json) : StatisticsPatch where
  movingInterval := movingIntervalAsked (config.members.lookup "moving-interval")
  histogramBins := histogramBinsAsked (config.members.lookup "histogram-bins")
  tags := tagsAsked (config.members.lookup "tags")
  rateUnit := rateUnitAsked (config.members.lookup "rate-unit")

namespace OptionsPatch

/-- `"statistics"` and `"defaults"`. -/
def ofDefaults (config : Json) : OptionsPatch :=
  { empty with
    statistics := .ofSection config
    gauge := .ofSection config
    counter := .ofSection config
    timer := .ofSection config }

/-- `"gauge"`. -/
def ofGauge (config : Json) : OptionsPatch := { empty with gauge := .ofSection config }

/-- `"counter"`. -/
def ofCounter (config : Json) : OptionsPatch := { empty with counter := .ofSection config }

/-- `"timer"`. -/
def ofTimer (config : Json) : OptionsPatch :=
  { empty with
    timer := .ofSection config
    idleTimeout := millisecondsAsked (config.members.lookup "idle-timeout") }

/-- `"metrics-dump"`. -/
def ofMetricsDump (config : Json) : OptionsPatch :=
  { empty with dumpInterval := millisecondsAsked (config.members.lookup "interval") }

/-- `"core"`. -/
def ofCore (config : Json) : OptionsPatch :=
  { empty with enable := enableAsked (config.members.lookup "enable") }

/-- `"dump-interval"`. -/
def ofDumpInterval (config : Json) : OptionsPatch := { empty with dumpInterval := millisecondsAsked (some config) }

/-- `"enable"`. -/
def ofEnable (config : Json) : OptionsPatch := { empty with enable := enableAsked (some config) }

/-- A member, if it is there. -/
def ofMember (config : Json) (name : String) (body : Json → OptionsPatch) : OptionsPatch :=
  match config.members.lookup name with
  | some value => body value
  | none => empty

/-- `"metrics"`. -/
def ofMetrics (config : Json) : OptionsPatch :=
  ((ofMember config "timer" ofTimer).after (ofMember config "counter" ofCounter)).after
    (ofMember config "gauge" ofGauge)

/-- A document, the last section first. -/
def ofDocument (doc : Json) : OptionsPatch :=
  (ofMember doc "enable" ofEnable)
    |>.after (ofMember doc "dump-interval" ofDumpInterval)
    |>.after (ofMember doc "timer" ofTimer)
    |>.after (ofMember doc "counter" ofCounter)
    |>.after (ofMember doc "gauge" ofGauge)
    |>.after (ofMember doc "defaults" ofDefaults)
    |>.after (ofMember doc "core" ofCore)
    |>.after (ofMember doc "metrics-dump" ofMetricsDump)
    |>.after (ofMember doc "metrics" ofMetrics)
    |>.after (ofMember doc "statistics" ofDefaults)

end OptionsPatch

/-! ## The sections of statistics -/

namespace StatisticsConfig

theorem addTags_yields (tags : List Json) :
    Yields (TagNames tags) (fun obj => { obj with tags := tagBits obj.tags tags }) (addTags tags) := by
  induction tags with
  | nil => exact yields_pure.congr (by simp [TagNames]) rfl
  | cons tag tags ih =>
    cases tag with
    | string name =>
      have hcons : TagNames (.string name :: tags) ↔ cString name ∈ Tag.names ∧ TagNames tags := by
        simp [TagNames, or_imp, forall_and]
      rcases Tag.fromString_cases (cString name) with ⟨hmem, tag, htag⟩ | ⟨hmem, htag⟩
      · have hwrite : Yields True (fun obj : StatisticsConfig => { obj with tags := obj.tags ||| tag.bit })
            (Effect.modify fun obj => { obj with tags := obj.tags ||| tag.bit } : Effect Fault _ Unit) :=
          yields_modify _
        unfold addTags
        rw [htag]
        refine (Yields.ofExcept_ok (hwrite.bind ih)).congr (by simp [hcons, hmem]) ?_
        funext obj
        simp [tagBits, htag]
      · unfold addTags
        rw [htag]
        exact (yields_of_error fun obj => ⟨obj, rfl⟩).congr (by simp [hcons, hmem]) rfl
    | _ => exact ih.congr (by simp [TagNames]) rfl

theorem configureMovingInterval_yields (found : Option Json) :
    Yields True (fun obj => { obj with movingInterval := (movingIntervalAsked found).getD obj.movingInterval })
      (configureMovingInterval found) := by
  rcases found with _ | value
  · exact yields_pure
  cases value with
  | uint64 x =>
    by_cases hx : 0 < x
    · simp only [configureMovingInterval, movingIntervalAsked, if_pos hx]
      exact yields_modify _
    · simp only [configureMovingInterval, movingIntervalAsked, if_neg hx]
      exact yields_pure
  | _ => exact yields_pure

theorem configureHistogramBins_yields (found : Option Json) :
    Yields True (fun obj => { obj with histogramBins := (histogramBinsAsked found).getD obj.histogramBins })
      (configureHistogramBins found) := by
  rcases found with _ | value
  · exact yields_pure
  cases value with
  | uint64 x =>
    by_cases hx : 0 < x
    · simp only [configureHistogramBins, histogramBinsAsked, if_pos hx]
      exact yields_modify _
    · simp only [configureHistogramBins, histogramBinsAsked, if_neg hx]
      exact yields_pure
  | _ => exact yields_pure

theorem configureTags_yields (config : Json) :
    Yields (ValidTags config)
      (fun obj => { obj with tags := (tagsAsked (config.members.lookup "tags")).getD obj.tags })
      (configureTags (config.members.lookup "tags")) := by
  cases hfound : config.members.lookup "tags" with
  | none => exact yields_pure.congr (by simp [ValidTags, hfound]) rfl
  | some value =>
    cases value with
    | array tags =>
      have hclear : Yields True (fun obj : StatisticsConfig => { obj with tags := Tag.empty })
          (Effect.modify fun obj => { obj with tags := Tag.empty } : Effect Fault _ Unit) := yields_modify _
      exact (hclear.bind (addTags_yields tags)).congr (by simp [ValidTags, hfound]) rfl
    | _ => exact yields_pure.congr (by simp [ValidTags, hfound]) rfl

theorem configureRateUnit_yields (found : Option Json) :
    Yields True (fun obj => { obj with rateUnit := (rateUnitAsked found).getD obj.rateUnit })
      (configureRateUnit found) := by
  rcases found with _ | value
  · exact yields_pure
  cases value with
  | string x =>
    by_cases hx : rateUnitOf (cString x) ≠ .tick
    · simp only [configureRateUnit, rateUnitAsked, if_pos hx]
      exact yields_modify _
    · simp only [configureRateUnit, rateUnitAsked, if_neg hx]
      exact yields_pure
  | _ => exact yields_pure

/-- A section of statistics is a patch. -/
theorem configure_yields (config : Json) :
    Yields (ValidTags config) (StatisticsPatch.ofSection config).apply (configure config) := by
  unfold configure
  split_ifs with hobject
  · simp only [Json.find_of_isObject hobject]
    have h₄ := configureRateUnit_yields (config.members.lookup "rate-unit")
    have h₃ := configureTags_yields config
    have h₂ := configureHistogramBins_yields (config.members.lookup "histogram-bins")
    have h₁ := configureMovingInterval_yields (config.members.lookup "moving-interval")
    exact Yields.congr (.ofExcept_ok (h₁.bind (.ofExcept_ok (h₂.bind (.ofExcept_ok (h₃.bind
      (.ofExcept_ok h₄))))))) (by simp) rfl
  · refine yields_pure.congr (by simp [validTags_of_not_object hobject]) ?_
    cases config with
    | object members => exact absurd rfl hobject
    | _ => rfl

end StatisticsConfig

end Handystats
