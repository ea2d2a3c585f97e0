/-
When `config_json` is all or nothing.

The sections write their options as they are read, tags that do not exist throw,
`"metrics"` is looked into whatever it is, and a pattern that is malformed is
found after all else has been written. `config_json_all_or_nothing_iff` says which
documents leave none of that to happen.
-/
import Mathlib.Data.List.TakeWhile
import Handystats.OptionsPatch
import Handystats.PatternExpansion

namespace Handystats

open Effect

/-- The member of this name, if it is there, is `valid`. -/
def OnMember (config : Json) (name : String) (valid : Json → Prop) : Prop :=
  ∀ value, config.members.lookup name = some value → valid value

/-- `"metrics"` is an object, and its sections name only tags that exist. -/
structure SoundMetrics (config : Json) : Prop where
  isObject : config.isObject = true
  gauge : OnMember config "gauge" ValidTags
  counter : OnMember config "counter" ValidTags
  timer : OnMember config "timer" ValidTags

/-- The sections that are read at once name only tags that exist, and
`"metrics"` is an object. -/
structure Sound (doc : Json) : Prop where
  statistics : OnMember doc "statistics" ValidTags
  metrics : OnMember doc "metrics" SoundMetrics
  defaults : OnMember doc "defaults" ValidTags
  gauge : OnMember doc "gauge" ValidTags
  counter : OnMember doc "counter" ValidTags
  timer : OnMember doc "timer" ValidTags

/-! ## The sections -/

/-- In a value that is no object, nothing is asked for. -/
theorem StatisticsPatch.ofSection_of_not_object {config : Json} (h : ¬ config.isObject = true) :
    ofSection config = empty := by
  cases config with
  | object members => exact absurd rfl h
  | _ => rfl

/-- A `configure` of options that have `values`. -/
theorem configureValues_yields {α : Type} {get : α → StatisticsConfig} {set : α → StatisticsConfig → α}
    (hset : ∀ obj, set obj (get obj) = obj) (config : Json) :
    Yields (ValidTags config) (fun obj => set obj ((StatisticsPatch.ofSection config).apply (get obj)))
      (if config.isObject then zoom get set (StatisticsConfig.configure config) else pure ()) := by
  split_ifs with hobject
  · exact (StatisticsConfig.configure_yields config).zoom
  · refine yields_pure.congr (by simp [validTags_of_not_object hobject]) (funext fun obj => ?_)
    rw [StatisticsPatch.ofSection_of_not_object hobject, StatisticsPatch.apply_empty, hset]
    rfl

theorem GaugeConfig.configure_yields (config : Json) :
    Yields (ValidTags config)
      (fun obj : GaugeConfig => ⟨(StatisticsPatch.ofSection config).apply obj.values⟩)
      (GaugeConfig.configure config) :=
  configureValues_yields (fun _ => rfl) config

theorem CounterConfig.configure_yields (config : Json) :
    Yields (ValidTags config)
      (fun obj : CounterConfig => ⟨(StatisticsPatch.ofSection config).apply obj.values⟩)
      (CounterConfig.configure config) :=
  configureValues_yields (fun _ => rfl) config

theorem TimerConfig.configureIdleTimeout_yields (found : Option Json) :
    Yields True
      (fun obj : TimerConfig => { obj with idleTimeout := (millisecondsAsked found).getD obj.idleTimeout })
      (TimerConfig.configureIdleTimeout found) := by
  cases found with
  | none => exact yields_pure
  | some value =>
    cases value with
    | uint64 n => exact yields_modify _
    | _ => exact yields_pure

theorem TimerConfig.configure_yields (config : Json) :
    Yields (ValidTags config)
      (fun obj : TimerConfig => ⟨(millisecondsAsked (config.members.lookup "idle-timeout")).getD obj.idleTimeout,
        (StatisticsPatch.ofSection config).apply obj.values⟩)
      (TimerConfig.configure config) := by
  unfold TimerConfig.configure
  split_ifs with hobject
  · rw [Json.find_of_isObject hobject]
    have hidle := configureIdleTimeout_yields (config.members.lookup "idle-timeout")
    exact (Yields.ofExcept_ok (hidle.bind (StatisticsConfig.configure_yields config).zoom)).congr
      (by simp) rfl
  · refine yields_pure.congr (by simp [validTags_of_not_object hobject]) ?_
    cases config with
    | object members => exact absurd rfl hobject
    | _ => rfl

namespace Config

/-- The computation is a patch of the options if `valid`, and otherwise ends in
a fault. -/
abbrev Patches (valid : Prop) (patch : OptionsPatch) (x : Effect Fault Config Unit) : Prop :=
  Yields valid patch.apply x

theorem Patches.bind {valid valid' : Prop} {patch patch' : OptionsPatch} {x y : Effect Fault Config Unit}
    (hx : Patches valid patch x) (hy : Patches valid' patch' y) :
    Patches (valid ∧ valid') (patch'.after patch) (x >>= fun _ => y) :=
  (Yields.bind hx hy).congr Iff.rfl (funext fun cfg => (OptionsPatch.apply_after patch' patch cfg).symm)

theorem gauge_patches (config : Json) :
    Patches (ValidTags config) (.ofGauge config) (onGaugeOpts (GaugeConfig.configure config)) :=
  (GaugeConfig.configure_yields config).zoom.congr Iff.rfl rfl

theorem counter_patches (config : Json) :
    Patches (ValidTags config) (.ofCounter config) (onCounterOpts (CounterConfig.configure config)) :=
  (CounterConfig.configure_yields config).zoom.congr Iff.rfl rfl

theorem timer_patches (config : Json) :
    Patches (ValidTags config) (.ofTimer config) (onTimerOpts (TimerConfig.configure config)) :=
  (TimerConfig.configure_yields config).zoom.congr Iff.rfl rfl

theorem metricsDump_patches (config : Json) :
    Patches True (.ofMetricsDump config) (onMetricsDumpOpts (MetricsDumpConfig.configure config)) := by
  have hinterval : Yields True
      (fun obj : MetricsDumpConfig => ⟨(millisecondsAsked (config.members.lookup "interval")).getD obj.interval⟩)
      (MetricsDumpConfig.configure config) := by
    unfold MetricsDumpConfig.configure
    split_ifs with hobject
    · rw [Json.find_of_isObject hobject]
      refine Yields.ofExcept_ok ?_
      generalize config.members.lookup "interval" = found
      rcases found with _ | value
      · exact yields_pure
      · cases value with
        | uint64 n => exact yields_modify _
        | _ => exact yields_pure
    · cases config with
      | object members => exact absurd rfl hobject
      | _ => exact yields_pure
  exact hinterval.zoom.congr Iff.rfl rfl

theorem core_patches (config : Json) :
    Patches True (.ofCore config) (onCoreOpts (CoreConfig.configure config)) := by
  have henable : Yields True
      (fun obj : CoreConfig => ⟨(enableAsked (config.members.lookup "enable")).getD obj.enable⟩)
      (CoreConfig.configure config) := by
    unfold CoreConfig.configure
    split_ifs with hobject
    · rw [Json.find_of_isObject hobject]
      refine Yields.ofExcept_ok ?_
      generalize config.members.lookup "enable" = found
      rcases found with _ | value
      · exact yields_pure
      · cases value with
        | bool enable => exact yields_modify _
        | _ => exact yields_pure
    · cases config with
      | object members => exact absurd rfl hobject
      | _ => exact yields_pure
  exact henable.zoom.congr Iff.rfl rfl

theorem defaults_patches (config : Json) :
    Patches (ValidTags config) (.ofDefaults config) (configureDefaults config) := by
  have hsection := StatisticsConfig.configure_yields config
  have hstatistics : Patches (ValidTags config) { OptionsPatch.empty with statistics := .ofSection config }
      (onStatisticsOpts (StatisticsConfig.configure config)) := hsection.zoom.congr Iff.rfl rfl
  have hgauge : Patches (ValidTags config) { OptionsPatch.empty with gauge := .ofSection config }
      (onGaugeValues (StatisticsConfig.configure config)) := hsection.zoom.zoom.congr Iff.rfl rfl
  have hcounter : Patches (ValidTags config) { OptionsPatch.empty with counter := .ofSection config }
      (onCounterValues (StatisticsConfig.configure config)) := hsection.zoom.zoom.congr Iff.rfl rfl
  have htimer : Patches (ValidTags config) { OptionsPatch.empty with timer := .ofSection config }
      (onTimerValues (StatisticsConfig.configure config)) := hsection.zoom.zoom.congr Iff.rfl rfl
  refine (hstatistics.bind (hgauge.bind (hcounter.bind htimer))).congr (by simp) ?_
  simp [OptionsPatch.after, OptionsPatch.ofDefaults, OptionsPatch.empty]

theorem dumpInterval_patches (config : Json) :
    Patches True (.ofDumpInterval config) (configureDumpInterval config) := by
  cases config with
  | uint64 n => exact (yields_modify _).congr Iff.rfl rfl
  | _ => exact yields_pure.congr Iff.rfl rfl

theorem enable_patches (config : Json) : Patches True (.ofEnable config) (configureEnable config) := by
  cases config with
  | bool enable => exact (yields_modify _).congr Iff.rfl rfl
  | _ => exact yields_pure.congr Iff.rfl rfl

/-- A member of an object. -/
theorem onMember_patches {config : Json} (hobject : config.isObject = true) (name : String)
    {valid : Json → Prop} {patch : Json → OptionsPatch} {body : Json → Effect Fault Config Unit}
    (h : ∀ value, Patches (valid value) (patch value) (body value)) :
    Patches (OnMember config name valid) (.ofMember config name patch) (onMember config name body) := by
  unfold onMember OptionsPatch.ofMember
  rw [Json.find_of_isObject hobject]
  refine Yields.ofExcept_ok ?_
  cases hfound : config.members.lookup name with
  | none => exact yields_pure.congr (by simp [OnMember, hfound]) rfl
  | some value => exact (h value).congr (by simp [OnMember, hfound]) rfl

theorem metrics_patches (config : Json) :
    Patches (SoundMetrics config) (.ofMetrics config) (configureMetrics config) := by
  by_cases hobject : config.isObject = true
  · have hgauge := onMember_patches hobject "gauge" gauge_patches
    have hcounter := onMember_patches hobject "counter" counter_patches
    have htimer := onMember_patches hobject "timer" timer_patches
    refine (hgauge.bind (hcounter.bind htimer)).congr ?_ rfl
    exact ⟨fun h => ⟨hobject, h.1, h.2.1, h.2.2⟩, fun h => ⟨h.gauge, h.counter, h.timer⟩⟩
  · -- A member is looked up in what is no object.
    have hfails : Yields False (OptionsPatch.ofMetrics config).apply (configureMetrics config) := by
      refine yields_of_error (e := .undefinedBehaviour) fun cfg => ⟨cfg, ?_⟩
      cases config with
      | object members => exact absurd rfl hobject
      | _ => rfl
    exact hfails.congr ⟨False.elim, fun h => hobject h.isObject⟩ rfl

/-- **The sections of a document are a patch** of the options, where they are
sound, and end in a fault otherwise. -/
theorem configureSections_patches {doc : Json} (hobject : doc.isObject = true) :
    Patches (Sound doc) (.ofDocument doc) (configureSections doc) := by
  have henable := onMember_patches hobject "enable" enable_patches
  have hinterval := onMember_patches hobject "dump-interval" dumpInterval_patches
  have htimer := onMember_patches hobject "timer" timer_patches
  have hcounter := onMember_patches hobject "counter" counter_patches
  have hgauge := onMember_patches hobject "gauge" gauge_patches
  have hdefaults := onMember_patches hobject "defaults" defaults_patches
  have hcore := onMember_patches hobject "core" core_patches
  have hdump := onMember_patches hobject "metrics-dump" metricsDump_patches
  have hmetrics := onMember_patches hobject "metrics" metrics_patches
  have hstatistics := onMember_patches hobject "statistics" defaults_patches
  have hall := hstatistics.bind (hmetrics.bind (hdump.bind (hcore.bind (hdefaults.bind (hgauge.bind
    (hcounter.bind (htimer.bind (hinterval.bind henable))))))))
  have htrivial : ∀ name, OnMember doc name (fun _ => True) := fun _ _ _ => trivial
  refine hall.congr ⟨fun h => ?_, fun h => ?_⟩ rfl
  · obtain ⟨h₁, h₂, -, -, h₃, h₄, h₅, h₆, -, -⟩ := h
    exact ⟨h₁, h₂, h₃, h₄, h₅, h₆⟩
  · exact ⟨h.statistics, h.metrics, htrivial _, htrivial _, h.defaults, h.gauge, h.counter, h.timer,
      htrivial _, htrivial _⟩

/-! ## The patterns -/

/-- The member is a pattern section. -/
def isPattern (member : String × Json) : Bool := !decide (cString member.1 ∈ reservedSections)

/-- In the name of the section, every brace that starts a list is matched. -/
def WellFormedName (member : String × Json) : Prop := Pattern.openAfter 0 (cString member.1).toList = 0

theorem nul_notMem_cString (name : String) : nul ∉ (cString name).toList := by
  rw [cString, String.toList_ofList]
  intro h
  simpa using List.mem_takeWhile_imp h

/-- A name is expanded, or throws what the loop catches. -/
theorem expandPattern_cases (member : String × Json) :
    (WellFormedName member ∧ ∃ expansion, Pattern.expandPattern (cString member.1).toList = .ok expansion) ∨
      (¬ WellFormedName member ∧
        ∃ what, Pattern.expandPattern (cString member.1).toList = .error (.logicError what)) := by
  obtain ⟨hopen, -, -, hwell⟩ := Pattern.expand_pattern_spec (nul_notMem_cString member.1)
  by_cases h : WellFormedName member
  · obtain ⟨pat, hpat, htext, hexpand⟩ := hwell h
    exact .inl ⟨h, pat.words, (hexpand pat hpat htext).2⟩
  · exact .inr ⟨h, hopen.2 (Nat.pos_of_ne_zero h)⟩

/-- The names of all pattern sections are well formed. -/
def AllWellFormed (members : List (String × Json)) : Prop :=
  ∀ member ∈ members, isPattern member = true → WellFormedName member

/-- The name of the first pattern section is not. -/
def FirstMalformed (members : List (String × Json)) : Prop :=
  ∃ member, members.find? isPattern = some member ∧ ¬ WellFormedName member

/-- The loop over the members appends the sections up to the first one whose
name is malformed. -/
theorem configurePatterns_spec (members : List (String × Json)) (cfg : Config) :
    ∃ accepted added, configurePatterns members cfg =
        (.ok accepted, { cfg with patternOpts := cfg.patternOpts ++ added }) ∧
      (accepted = true ↔ AllWellFormed members) ∧
      (accepted = false → (added = [] ↔ FirstMalformed members)) := by
  induction members generalizing cfg with
  | nil => exact ⟨true, [], by simp [configurePatterns], by simp [AllWellFormed], by simp⟩
  | cons member members ih =>
    obtain ⟨name, value⟩ := member
    unfold configurePatterns
    by_cases hreserved : cString name ∈ reservedSections
    · have hskip : isPattern (name, value) = false := by simp [isPattern, hreserved]
      obtain ⟨accepted, added, hrun, haccepted, hadded⟩ := ih cfg
      refine ⟨accepted, added, by rw [if_pos hreserved, hrun], ?_, ?_⟩
      · simp [haccepted, AllWellFormed, hskip]
      · simpa [FirstMalformed, List.find?_cons_of_neg, hskip] using hadded
    · have hpattern : isPattern (name, value) = true := by simp [isPattern, hreserved]
      rw [if_neg hreserved]
      rcases expandPattern_cases (name, value) with ⟨hwell, expansion, hexpand⟩ | ⟨hmal, what, hexpand⟩
      · obtain ⟨accepted, added, hrun, haccepted, -⟩ :=
          ih { cfg with patternOpts := cfg.patternOpts ++ [(expansion, value)] }
        refine ⟨accepted, (expansion, value) :: added, ?_, ?_, fun _ => ?_⟩
        · simp only [hexpand]
          exact (bind_of_ok rfl).trans (hrun.trans (by simp))
        · simp [haccepted, AllWellFormed, hwell]
        · simp [FirstMalformed, hpattern, hwell]
      · refine ⟨false, [], ?_, ?_, fun _ => ?_⟩
        · simp only [hexpand, List.append_nil]
          rfl
        · simp [AllWellFormed, hpattern, hmal]
        · simp [FirstMalformed, hpattern, hmal]

end Config

open Config

/-! ## The whole document -/

/-- What a sound document does. -/
theorem configJson_of_sound {doc : Json} (hobject : doc.isObject = true) (hsound : Sound doc) (cfg : Config) :
    ∃ accepted added, configJson false (some doc) cfg =
        (.ok accepted, { (OptionsPatch.ofDocument doc).apply cfg with
          patternOpts := cfg.patternOpts ++ added }) ∧
      (accepted = true ↔ AllWellFormed doc.members) ∧
      (accepted = false → (added = [] ↔ FirstMalformed doc.members)) := by
  have hsections : configureSections doc cfg = (.ok (), (OptionsPatch.ofDocument doc).apply cfg) := by
    rcases configureSections_patches hobject cfg with ⟨-, h⟩ | ⟨h, -⟩
    · exact h
    · exact absurd hsound h
  obtain ⟨accepted, added, hrun, h⟩ :=
    configurePatterns_spec doc.members ((OptionsPatch.ofDocument doc).apply cfg)
  refine ⟨accepted, added, ?_, h⟩
  simp only [configJson, Bool.false_eq_true, if_false, if_pos hobject]
  rw [bind_of_ok hsections, hrun]
  rfl

/-- What an unsound one does. -/
theorem configJson_of_not_sound {doc : Json} (hobject : doc.isObject = true) (hsound : ¬ Sound doc)
    (cfg : Config) : ∃ f, (configJson false (some doc) cfg).1 = .error f := by
  rcases configureSections_patches hobject cfg with ⟨h, -⟩ | ⟨-, f, cfg', h⟩
  · exact absurd h hsound
  · simp only [configJson, Bool.false_eq_true, if_false, if_pos hobject]
    rw [bind_of_error h]
    exact ⟨f, rfl⟩

/-- `config_json` returns, and where it returns `false` it has left the options
and the pattern sections alone. -/
def AllOrNothing (parsed : Option Json) (cfg : Config) : Prop :=
  ∃ accepted cfg', configJson false parsed cfg = (.ok accepted, cfg') ∧ (accepted = false → cfg' = cfg)

/-- **`config_json` is all or nothing**, whatever the options are, if, and only
if, the text is no JSON object, or one that is sound and either has no malformed
pattern or asks for nothing before it comes to the first one. -/
theorem config_json_all_or_nothing_iff (parse : String → Option Json) (text : String) :
    (∀ cfg, AllOrNothing (parse text) cfg) ↔
      ∀ doc, parse text = some doc → doc.isObject = true →
        Sound doc ∧ (AllWellFormed doc.members ∨
          FirstMalformed doc.members ∧ OptionsPatch.ofDocument doc = .empty) := by
  constructor
  · intro h doc hparse hobject
    rw [hparse] at h
    have hsound : Sound doc := by
      by_contra hnot
      obtain ⟨accepted, cfg', hrun, -⟩ := h .default
      obtain ⟨f, hf⟩ := configJson_of_not_sound hobject hnot .default
      rw [hrun] at hf
      cases hf
    refine ⟨hsound, ?_⟩
    by_contra hnot
    rw [not_or, not_and] at hnot
    obtain ⟨hmal, hpatch⟩ := hnot
    -- Whatever the options are, they are left alone.
    have hkept : ∀ cfg : Config, FirstMalformed doc.members ∧ (OptionsPatch.ofDocument doc).apply cfg = cfg := by
      intro cfg
      obtain ⟨accepted, cfg', hrun, hleft⟩ := h cfg
      obtain ⟨accepted', added, hrun', haccepted, hadded⟩ := configJson_of_sound hobject hsound cfg
      obtain ⟨hsame, rfl⟩ := Prod.mk.inj (hrun.symm.trans hrun')
      obtain rfl := Except.ok.inj hsame
      have hfalse : accepted = false := by
        rw [← Bool.not_eq_true, haccepted]
        exact hmal
      have hcfg := hleft hfalse
      have hnone : added = [] := by
        have hpatterns := congrArg Config.patternOpts hcfg
        exact List.append_right_eq_self.1 hpatterns
      refine ⟨(hadded hfalse).1 hnone, ?_⟩
      rw [hnone, List.append_nil] at hcfg
      exact hcfg
    exact hpatch (hkept .default).1 (OptionsPatch.eq_empty fun cfg => (hkept cfg).2)
  · intro h cfg
    cases hparse : parse text with
    | none => exact ⟨false, cfg, rfl, fun _ => rfl⟩
    | some doc =>
      by_cases hobject : doc.isObject = true
      · obtain ⟨hsound, hnames⟩ := h doc hparse hobject
        obtain ⟨accepted, added, hrun, haccepted, hadded⟩ := configJson_of_sound hobject hsound cfg
        refine ⟨accepted, _, hrun, fun hfalse => ?_⟩
        rcases hnames with hnames | ⟨hmal, hpatch⟩
        · rw [haccepted.2 hnames] at hfalse
          cases hfalse
        · rw [(hadded hfalse).2 hmal, hpatch, List.append_nil]
          rfl
      · refine ⟨false, cfg, ?_, fun _ => rfl⟩
        simp only [configJson, Bool.false_eq_true, if_false, if_neg hobject]
        rfl

/-- A gauge section with a tag that does not exist. -/
def sampleTag : Json := .object [("gauge", .object [("tags", .array [.string "median"])])]

/-- The library disabled, and a pattern whose list stays open. -/
def samplePattern : Json := .object [("enable", .bool false), ("a\x7bb", .object [])]

/-- A tag that does not exist throws out of `config_json`; and a document with a
malformed pattern is refused with the library disabled. -/
theorem config_json_not_all_or_nothing :
    (configJson false (some sampleTag) .default).1 = .error .invalidTag ∧
    (∃ cfg, configJson false (some samplePattern) .default = (.ok false, cfg) ∧ cfg.coreOpts.enable = false) ∧
    ¬ AllOrNothing (some sampleTag) .default ∧ ¬ AllOrNothing (some samplePattern) .default := by
  have htag : (configJson false (some sampleTag) .default).1 = .error .invalidTag := by decide +kernel
  have hpattern : (configJson false (some samplePattern) .default).1 = .ok false := by decide +kernel
  have henable : (configJson false (some samplePattern) .default).2.coreOpts.enable = false := by
    decide +kernel
  refine ⟨htag, ⟨_, Prod.ext hpattern rfl, henable⟩, ?_, ?_⟩
  · intro h
    obtain ⟨accepted, cfg', hrun, -⟩ := h
    rw [hrun] at htag
    cases htag
  · intro h
    obtain ⟨accepted, cfg', hrun, hleft⟩ := h
    rw [hrun] at hpattern henable
    rw [hleft (Except.ok.inj hpattern)] at henable
    cases henable

end Handystats
