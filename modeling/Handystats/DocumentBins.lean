/-
How many bins the types have after an accepted document.

Every section that configures statistics may ask for a number of bins; the
last of them that asks has it. `Leaves` follows a size through the sections as
`Keeps` follows a part that they leave alone.
-/
import Handystats.ConfigJson
import Handystats.SectionFacts

namespace Handystats

open Effect

/-- What the computation makes of a size, where it returns. -/
def Leaves {σ γ α : Type} (size : σ → γ) (change : γ → γ) (x : Effect Fault σ α) : Prop :=
  ∀ s a s', x s = (.ok a, s') → size s' = change (size s)

namespace Leaves

variable {σ τ γ δ α β : Type} {size : σ → γ} {change change' : γ → γ} {x : Effect Fault σ α}

theorem of_keeps (h : Keeps size x) : Leaves size id x := fun _ _ _ hx => h.of_run hx

theorem of_configures {size : σ → Nat} {valid : Prop} {bins : Nat → Nat} {x : Effect Fault σ Unit}
    (h : Configures size valid bins x) : Leaves size bins x := by
  intro s a s' hx
  rcases h s with ⟨-, s₁, h₁, hbins⟩ | ⟨-, s₁, h₁⟩
  · rw [h₁] at hx
    cases hx
    exact hbins
  · rw [h₁] at hx
    cases hx

/-- One after the other. -/
theorem bind {f : α → Effect Fault σ β} (hx : Leaves size change x)
    (hf : ∀ a, Leaves size change' (f a)) : Leaves size (change' ∘ change) (x >>= f) := by
  intro s b s' h
  obtain ⟨a, s₁, h₁, h₂⟩ := bind_run_ok.1 h
  rw [hf a _ _ _ h₂, hx _ _ _ h₁]
  rfl

/-- After what leaves the size alone. -/
theorem after {f : α → Effect Fault σ β} (hx : Keeps size x) (hf : ∀ a, Leaves size change (f a)) :
    Leaves size change (x >>= f) := (of_keeps hx).bind hf

/-- On a part of the state. -/
theorem zoom {y : Effect Fault τ α} {get : σ → τ} {set : σ → τ → σ} {part : τ → δ} {change : δ → δ}
    (h : Leaves part change y) {whole : γ → γ}
    (hset : ∀ s t, part t = change (part (get s)) → size (set s t) = whole (size s)) :
    Leaves size whole (zoom get set y) := by
  intro s a s' hx
  rcases hy : y (get s) with ⟨r, t⟩
  rw [Effect.zoom, hy] at hx
  cases hx
  exact hset s t (h _ _ _ hy)

end Leaves

/-- The numbers of bins of the types. -/
@[ext]
structure Bins where
  counter : Nat
  gauge : Nat
  timer : Nat

namespace Bins

/-- What a counter's section does. -/
def ofCounter (config : Json) (bins : Bins) : Bins := { bins with counter := binsOf config bins.counter }

/-- What a gauge's section does. -/
def ofGauge (config : Json) (bins : Bins) : Bins := { bins with gauge := binsOf config bins.gauge }

/-- What a timer's section does. -/
def ofTimer (config : Json) (bins : Bins) : Bins := { bins with timer := binsOf config bins.timer }

/-- What the section does, if it is there. -/
def ofMember (config : Json) (name : String) (change : Json → Bins → Bins) : Bins → Bins :=
  ((config.members.lookup name).map change).getD id

/-- What `"statistics"` and `"defaults"` do. -/
def ofDefaults (config : Json) : Bins → Bins := ofTimer config ∘ ofCounter config ∘ ofGauge config

/-- What the sections `"gauge"`, `"counter"` and `"timer"` do. -/
def ofTypes (config : Json) : Bins → Bins :=
  ofMember config "timer" ofTimer ∘ ofMember config "counter" ofCounter ∘ ofMember config "gauge" ofGauge

/-- What a document does: `"statistics"`, `"metrics"`, `"defaults"` and the
types' own sections, in this order. -/
def ofDocument (doc : Json) : Bins → Bins :=
  ofTypes doc ∘ ofMember doc "defaults" ofDefaults ∘ ofMember doc "metrics" ofTypes ∘
    ofMember doc "statistics" ofDefaults

end Bins

namespace Config

/-- The bins of the options. -/
def bins (cfg : Config) : Bins :=
  ⟨cfg.counterOpts.values.histogramBins, cfg.gaugeOpts.values.histogramBins,
    cfg.timerOpts.values.histogramBins⟩

theorem counter_leaves (config : Json) :
    Leaves bins (Bins.ofCounter config) (onCounterOpts (CounterConfig.configure config)) :=
  (Leaves.of_configures (CounterConfig.configure_configures config)).zoom fun cfg opts h => by
    simp [bins, Bins.ofCounter, h]

theorem gauge_leaves (config : Json) :
    Leaves bins (Bins.ofGauge config) (onGaugeOpts (GaugeConfig.configure config)) :=
  (Leaves.of_configures (GaugeConfig.configure_configures config)).zoom fun cfg opts h => by
    simp [bins, Bins.ofGauge, h]

theorem timer_leaves (config : Json) :
    Leaves bins (Bins.ofTimer config) (onTimerOpts (TimerConfig.configure config)) :=
  (Leaves.of_configures (TimerConfig.configure_configures config)).zoom fun cfg opts h => by
    simp [bins, Bins.ofTimer, h]

theorem onMember_leaves (config : Json) (name : String) {body : Json → Effect Fault Config Unit}
    {change : Json → Bins → Bins} (h : ∀ value, Leaves bins (change value) (body value)) :
    Leaves bins (Bins.ofMember config name change) (onMember config name body) := by
  intro cfg a cfg' hrun
  obtain ⟨found, cfg₁, hfind, hbody⟩ := bind_run_ok.1 hrun
  cases config with
  | object members =>
    cases hfind
    unfold Bins.ofMember Json.members
    cases hfound : members.lookup name with
    | none =>
      rw [hfound] at hbody
      cases hbody
      rfl
    | some value =>
      rw [hfound] at hbody
      exact h value _ _ _ hbody
  | _ => cases hfind

theorem configureDefaults_leaves (config : Json) :
    Leaves bins (Bins.ofDefaults config) (configureDefaults config) := by
  have hvalues := Leaves.of_configures (StatisticsConfig.configure_configures config)
  have hgauge : Leaves (fun opts : GaugeConfig => opts.values.histogramBins) (binsOf config)
      (zoom GaugeConfig.values (fun obj values => { obj with values := values })
        (StatisticsConfig.configure config)) := hvalues.zoom fun _ _ h => h
  have hcounter : Leaves (fun opts : CounterConfig => opts.values.histogramBins) (binsOf config)
      (zoom CounterConfig.values (fun obj values => { obj with values := values })
        (StatisticsConfig.configure config)) := hvalues.zoom fun _ _ h => h
  have htimer : Leaves (fun opts : TimerConfig => opts.values.histogramBins) (binsOf config)
      (zoom TimerConfig.values (fun obj values => { obj with values := values })
        (StatisticsConfig.configure config)) := hvalues.zoom fun _ _ h => h
  have hgauge' : Leaves bins (Bins.ofGauge config) (onGaugeValues (StatisticsConfig.configure config)) :=
    hgauge.zoom fun cfg opts h => by simp [bins, Bins.ofGauge, h]
  have hcounter' : Leaves bins (Bins.ofCounter config)
      (onCounterValues (StatisticsConfig.configure config)) :=
    hcounter.zoom fun cfg opts h => by simp [bins, Bins.ofCounter, h]
  have htimer' : Leaves bins (Bins.ofTimer config) (onTimerValues (StatisticsConfig.configure config)) :=
    htimer.zoom fun cfg opts h => by simp [bins, Bins.ofTimer, h]
  have hall := hgauge'.bind fun _ => hcounter'.bind fun _ => htimer'
  exact Leaves.after (keeps_zoom _ fun _ _ => rfl) fun _ => hall

/-- What `"metrics"` does, and what the types' own sections do. -/
theorem configureMetrics_leaves (config : Json) :
    Leaves bins (Bins.ofTypes config) (configureMetrics config) :=
  (onMember_leaves config "gauge" gauge_leaves).bind fun _ =>
    (onMember_leaves config "counter" counter_leaves).bind fun _ => onMember_leaves config "timer" timer_leaves

theorem configureSections_leaves (doc : Json) :
    Leaves bins (Bins.ofDocument doc) (configureSections doc) := by
  have hdump : Keeps bins
      (onMember doc "metrics-dump" fun dump => onMetricsDumpOpts (MetricsDumpConfig.configure dump)) :=
    keeps_onMember fun _ => keeps_zoom _ fun _ _ => rfl
  have hcore : Keeps bins (onMember doc "core" fun core => onCoreOpts (CoreConfig.configure core)) :=
    keeps_onMember fun _ => keeps_zoom _ fun _ _ => rfl
  have hinterval : Keeps bins (onMember doc "dump-interval" configureDumpInterval) :=
    keeps_onMember (keeps_configureDumpInterval fun _ _ => rfl)
  have henable : Keeps bins (onMember doc "enable" configureEnable) :=
    keeps_onMember (keeps_configureEnable fun _ _ => rfl)
  have htypes := (onMember_leaves doc "gauge" gauge_leaves).bind fun _ =>
    (onMember_leaves doc "counter" counter_leaves).bind fun _ =>
    (onMember_leaves doc "timer" timer_leaves).bind fun _ =>
    Leaves.after hinterval fun _ => .of_keeps henable
  have hrest := Leaves.after hdump fun _ => Leaves.after hcore fun _ =>
    (onMember_leaves doc "defaults" configureDefaults_leaves).bind fun _ => htypes
  have hall := (onMember_leaves doc "statistics" configureDefaults_leaves).bind fun _ =>
    (onMember_leaves doc "metrics" configureMetrics_leaves).bind fun _ => hrest
  exact hall

theorem keeps_configurePatterns (members : List (String × Json)) : Keeps bins (configurePatterns members) := by
  induction members with
  | nil => exact keeps_pure true
  | cons member members ih =>
    unfold configurePatterns
    split_ifs
    · exact ih
    · split
      · exact Keeps.bind (keeps_modify fun _ => rfl) fun _ => ih
      · exact keeps_pure false
      · exact keeps_ofExcept _

/-- What an accepted document makes of the bins. -/
theorem configJson_bins {doc : Json} {cfg cfg' : Config}
    (h : configJson false (some doc) cfg = (.ok true, cfg')) : cfg'.bins = Bins.ofDocument doc cfg.bins := by
  unfold configJson at h
  simp only [Bool.false_eq_true, if_false] at h
  split_ifs at h
  · obtain ⟨_, cfg₁, hsections, hpatterns⟩ := bind_run_ok.1 h
    rw [(keeps_configurePatterns doc.members).of_run hpatterns]
    exact configureSections_leaves doc _ _ _ hsections
  · cases h

end Config

end Handystats
