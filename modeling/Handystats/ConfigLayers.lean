/-
The layers of a configuration: which section an option's value comes from,
and that the order of a document does not matter.

For the options of a type the sections are read in the order `"statistics"`,
`"metrics"`.type, `"defaults"`, type (`typeSections`). A section supplies a
field or not (`movingIntervalAsked` and so on), and the last one that does
decides.
-/
import Mathlib.Data.List.ReduceOption
import Handystats.AllOrNothing

namespace Handystats

open Effect

/-! ## The law -/

/-- The section of the old format for a type. -/
def metricsSection (doc : Json) (type : String) : Option Json :=
  (doc.members.lookup "metrics").bind fun metrics => metrics.members.lookup type

/-- The sections a type's statistics are configured by, in the order they are
read. -/
def typeSections (doc : Json) (type : String) : List Json :=
  [doc.members.lookup "statistics", metricsSection doc type, doc.members.lookup "defaults",
    doc.members.lookup type].reduceOption

/-- The type's own sections among them. -/
def ownSections (doc : Json) (type : String) : List Json :=
  [metricsSection doc type, doc.members.lookup type].reduceOption

/-- What the last section supplies that supplies a valid value for the
field. -/
def lastValid {α : Type} (asked : Option Json → Option α) (field : String) (configs : List Json) : Option α :=
  (configs.filterMap fun config => asked (config.members.lookup field)).getLast?

/-- The statistics of a type, each field by the last section that supplies
it. -/
def layered (doc : Json) (type : String) (base : StatisticsConfig) : StatisticsConfig where
  movingInterval :=
    (lastValid movingIntervalAsked "moving-interval" (typeSections doc type)).getD base.movingInterval
  histogramBins :=
    (lastValid histogramBinsAsked "histogram-bins" (typeSections doc type)).getD base.histogramBins
  tags := (lastValid tagsAsked "tags" (typeSections doc type)).getD base.tags
  rateUnit := (lastValid rateUnitAsked "rate-unit" (typeSections doc type)).getD base.rateUnit

/-! ## The patch of a document, by layers -/

/-- The patch of some sections, the last one's values over the others'. -/
def StatisticsPatch.ofSections (configs : List Json) : StatisticsPatch where
  movingInterval := lastValid movingIntervalAsked "moving-interval" configs
  histogramBins := lastValid histogramBinsAsked "histogram-bins" configs
  tags := lastValid tagsAsked "tags" configs
  rateUnit := lastValid rateUnitAsked "rate-unit" configs

theorem lastValid_nil {α : Type} (asked : Option Json → Option α) (field : String) :
    lastValid asked field [] = none := rfl

theorem lastValid_concat {α : Type} (asked : Option Json → Option α) (field : String)
    (configs : List Json) (config : Json) :
    lastValid asked field (configs ++ [config]) =
      (asked (config.members.lookup field)).or (lastValid asked field configs) := by
  unfold lastValid
  rw [List.filterMap_append]
  cases h : asked (config.members.lookup field) with
  | none => simp [h]
  | some value => simp [h]

/-- The patch of a section that may be there. -/
def StatisticsPatch.ofSection? (found : Option Json) : StatisticsPatch := (found.map ofSection).getD empty

theorem reduceOption_concat_toList {α : Type} (xs : List (Option α)) (x : Option α) :
    (xs ++ [x]).reduceOption = xs.reduceOption ++ x.toList := by
  cases x <;> simp [List.reduceOption]

theorem lastValid_reduceOption_concat {α : Type} (asked : Option Json → Option α) (field : String)
    (found : List (Option Json)) (last : Option Json) :
    lastValid asked field (found ++ [last]).reduceOption =
      (last.bind fun config => asked (config.members.lookup field)).or
        (lastValid asked field found.reduceOption) := by
  rw [reduceOption_concat_toList]
  cases last with
  | none => simp
  | some config => exact lastValid_concat asked field _ config

/-- One more section that may be there. -/
theorem StatisticsPatch.ofSections_reduceOption_concat (found : List (Option Json)) (last : Option Json) :
    ofSections (found ++ [last]).reduceOption = (ofSection? last).after (ofSections found.reduceOption) := by
  simp only [ofSections, lastValid_reduceOption_concat]
  cases last with
  | none => rfl
  | some config => rfl

theorem StatisticsPatch.after_assoc (a b c : StatisticsPatch) :
    (a.after b).after c = a.after (b.after c) := by
  simp only [after, Option.or_assoc]

/-- The four layers of a type's statistics. -/
theorem StatisticsPatch.ofSections_typeSections (doc : Json) (type : String) :
    ofSections (typeSections doc type) =
      (((ofSection? (doc.members.lookup type)).after (ofSection? (doc.members.lookup "defaults"))).after
        (ofSection? (metricsSection doc type))).after (ofSection? (doc.members.lookup "statistics")) := by
  have h₁ := ofSections_reduceOption_concat [] (doc.members.lookup "statistics")
  have h₂ := ofSections_reduceOption_concat [doc.members.lookup "statistics"] (metricsSection doc type)
  have h₃ := ofSections_reduceOption_concat
    [doc.members.lookup "statistics", metricsSection doc type] (doc.members.lookup "defaults")
  have h₄ := ofSections_reduceOption_concat
    [doc.members.lookup "statistics", metricsSection doc type, doc.members.lookup "defaults"]
    (doc.members.lookup type)
  have h₀ : ofSections [].reduceOption = empty := rfl
  rw [h₀, after_empty] at h₁
  simp only [List.nil_append, List.cons_append] at h₁ h₂ h₃ h₄
  rw [typeSections, h₄, h₃, h₂, h₁]
  simp only [after_assoc]

namespace OptionsPatch

/-- A part of a patch that is put over another like the whole: the options
that `body` configures, and no other type's. -/
structure IsPart (part : OptionsPatch → StatisticsPatch) : Prop where
  empty : part empty = .empty
  after : ∀ patch before, part (patch.after before) = (part patch).after (part before)

theorem isPart_gauge : IsPart gauge := ⟨rfl, fun _ _ => rfl⟩

theorem isPart_counter : IsPart counter := ⟨rfl, fun _ _ => rfl⟩

theorem isPart_timer : IsPart timer := ⟨rfl, fun _ _ => rfl⟩

section

variable {part : OptionsPatch → StatisticsPatch}

/-- A member that has nothing for the part. -/
theorem IsPart.ofMember_empty (h : IsPart part) {body : Json → OptionsPatch}
    (hbody : ∀ value, part (body value) = .empty) (config : Json) (name : String) :
    part (ofMember config name body) = .empty := by
  unfold ofMember
  cases config.members.lookup name with
  | none => exact h.empty
  | some value => exact hbody value

/-- A member that is a section for the part. -/
theorem IsPart.ofMember_section (h : IsPart part) {body : Json → OptionsPatch}
    (hbody : ∀ value, part (body value) = .ofSection value) (config : Json) (name : String) :
    part (ofMember config name body) = .ofSection? (config.members.lookup name) := by
  unfold ofMember
  cases config.members.lookup name with
  | none => exact h.empty
  | some value => exact hbody value

/-- `"metrics"` has for the part what its member `type` has. -/
theorem IsPart.ofMember_metrics (h : IsPart part) {type : String}
    (hmetrics : ∀ metrics, part (ofMetrics metrics) = .ofSection? (metrics.members.lookup type)) (doc : Json) :
    part (ofMember doc "metrics" ofMetrics) = .ofSection? (metricsSection doc type) := by
  unfold ofMember metricsSection
  cases doc.members.lookup "metrics" with
  | none => exact h.empty
  | some value => exact hmetrics value

/-- A part that `"statistics"` and `"defaults"` are sections for, and of the
types' members the one called `type`. -/
theorem IsPart.ofDocument (h : IsPart part) {type : String}
    (hown : ∀ config, part (ofMetrics config) = .ofSection? (config.members.lookup type))
    (hdefaults : ∀ value, part (ofDefaults value) = .ofSection value)
    (hother : ∀ value, part (ofMetricsDump value) = .empty ∧ part (ofCore value) = .empty ∧
      part (ofDumpInterval value) = .empty ∧ part (ofEnable value) = .empty) (doc : Json) :
    part (ofDocument doc) = .ofSections (typeSections doc type) := by
  have hdoc := hown doc
  simp only [ofMetrics, h.after] at hdoc
  rw [StatisticsPatch.ofSections_typeSections, OptionsPatch.ofDocument]
  simp only [h.after, h.ofMember_empty fun value => (hother value).1,
    h.ofMember_empty fun value => (hother value).2.1, h.ofMember_empty fun value => (hother value).2.2.1,
    h.ofMember_empty fun value => (hother value).2.2.2, h.ofMember_section hdefaults,
    h.ofMember_metrics hown, StatisticsPatch.after_empty, StatisticsPatch.empty_after, hdoc]

end

theorem gauge_ofDocument (doc : Json) :
    (ofDocument doc).gauge = .ofSections (typeSections doc "gauge") := by
  refine isPart_gauge.ofDocument (fun config => ?_) (fun _ => rfl) (fun _ => ⟨rfl, rfl, rfl, rfl⟩) doc
  have hgauge := isPart_gauge.ofMember_section (fun _ => rfl : ∀ v, (ofGauge v).gauge = .ofSection v)
  have hcounter := isPart_gauge.ofMember_empty (fun _ => rfl : ∀ v, (ofCounter v).gauge = .empty)
  have htimer := isPart_gauge.ofMember_empty (fun _ => rfl : ∀ v, (ofTimer v).gauge = .empty)
  simp only [ofMetrics, isPart_gauge.after, hgauge, hcounter, htimer, StatisticsPatch.empty_after]

theorem counter_ofDocument (doc : Json) :
    (ofDocument doc).counter = .ofSections (typeSections doc "counter") := by
  refine isPart_counter.ofDocument (fun config => ?_) (fun _ => rfl) (fun _ => ⟨rfl, rfl, rfl, rfl⟩) doc
  have hgauge := isPart_counter.ofMember_empty (fun _ => rfl : ∀ v, (ofGauge v).counter = .empty)
  have hcounter := isPart_counter.ofMember_section (fun _ => rfl : ∀ v, (ofCounter v).counter = .ofSection v)
  have htimer := isPart_counter.ofMember_empty (fun _ => rfl : ∀ v, (ofTimer v).counter = .empty)
  simp only [ofMetrics, isPart_counter.after, hgauge, hcounter, htimer, StatisticsPatch.empty_after,
    StatisticsPatch.after_empty]

theorem timer_ofDocument (doc : Json) :
    (ofDocument doc).timer = .ofSections (typeSections doc "timer") := by
  refine isPart_timer.ofDocument (fun config => ?_) (fun _ => rfl) (fun _ => ⟨rfl, rfl, rfl, rfl⟩) doc
  have hgauge := isPart_timer.ofMember_empty (fun _ => rfl : ∀ v, (ofGauge v).timer = .empty)
  have hcounter := isPart_timer.ofMember_empty (fun _ => rfl : ∀ v, (ofCounter v).timer = .empty)
  have htimer := isPart_timer.ofMember_section (fun _ => rfl : ∀ v, (ofTimer v).timer = .ofSection v)
  simp only [ofMetrics, isPart_timer.after, hgauge, hcounter, htimer, StatisticsPatch.after_empty]

/-- A member that has nothing for an option. -/
theorem ofMember_none {α : Type} {option : OptionsPatch → Option α} (hempty : option empty = none)
    {body : Json → OptionsPatch} (hbody : ∀ value, option (body value) = none) (config : Json) (name : String) :
    option (ofMember config name body) = none := by
  unfold ofMember
  cases config.members.lookup name with
  | none => exact hempty
  | some value => exact hbody value

/-- What a section of timers that may be there asks of the idle timeout. -/
theorem ofMember_idleTimeout (config : Json) :
    (ofMember config "timer" ofTimer).idleTimeout =
      (config.members.lookup "timer").bind fun timer =>
        millisecondsAsked (timer.members.lookup "idle-timeout") := by
  unfold ofMember
  cases config.members.lookup "timer" with
  | none => rfl
  | some value => rfl

theorem ofMetrics_idleTimeout (config : Json) :
    (ofMetrics config).idleTimeout =
      (config.members.lookup "timer").bind fun timer =>
        millisecondsAsked (timer.members.lookup "idle-timeout") := by
  have hgauge : (ofMember config "gauge" ofGauge).idleTimeout = none :=
    ofMember_none rfl (fun _ => rfl) _ _
  have hcounter : (ofMember config "counter" ofCounter).idleTimeout = none :=
    ofMember_none rfl (fun _ => rfl) _ _
  simp only [ofMetrics, after, hgauge, hcounter, ofMember_idleTimeout, Option.or_none]

/-- The idle timeout has the timers' own sections only. -/
theorem idleTimeout_ofDocument (doc : Json) :
    (ofDocument doc).idleTimeout = lastValid millisecondsAsked "idle-timeout" (ownSections doc "timer") := by
  have hother : ∀ {body : Json → OptionsPatch}, (∀ value, (body value).idleTimeout = none) → ∀ name,
      (ofMember doc name body).idleTimeout = none := fun hbody name => ofMember_none rfl hbody doc name
  have hdefaults := hother (fun _ => rfl : ∀ v, (ofDefaults v).idleTimeout = none)
  have hgauge := hother (fun _ => rfl : ∀ v, (ofGauge v).idleTimeout = none)
  have hcounter := hother (fun _ => rfl : ∀ v, (ofCounter v).idleTimeout = none)
  have hdump := hother (fun _ => rfl : ∀ v, (ofMetricsDump v).idleTimeout = none)
  have hcore := hother (fun _ => rfl : ∀ v, (ofCore v).idleTimeout = none)
  have hinterval := hother (fun _ => rfl : ∀ v, (ofDumpInterval v).idleTimeout = none)
  have henable := hother (fun _ => rfl : ∀ v, (ofEnable v).idleTimeout = none)
  have hmetrics : (ofMember doc "metrics" ofMetrics).idleTimeout =
      (metricsSection doc "timer").bind fun timer =>
        millisecondsAsked (timer.members.lookup "idle-timeout") := by
    unfold ofMember metricsSection
    cases doc.members.lookup "metrics" with
    | none => rfl
    | some value => exact ofMetrics_idleTimeout value
  simp only [ofDocument, after, hdefaults, hgauge, hcounter, hdump, hcore, hinterval, henable, hmetrics,
    ofMember_idleTimeout, Option.or_none, Option.none_or]
  have h₁ := lastValid_reduceOption_concat millisecondsAsked "idle-timeout" [] (metricsSection doc "timer")
  have h₂ := lastValid_reduceOption_concat millisecondsAsked "idle-timeout" [metricsSection doc "timer"]
    (doc.members.lookup "timer")
  simp only [List.nil_append, List.cons_append] at h₁ h₂
  rw [ownSections, h₂, h₁]
  simp only [List.reduceOption_nil, lastValid_nil, Option.or_none]

end OptionsPatch

/-! ## The order of a document -/

/-- The same value, the members of its objects reordered down to a depth. The
names in an object that is reordered are distinct. -/
def Reordered : Nat → Json → Json → Prop
  | 0, config, config' => config = config'
  | depth + 1, config, config' =>
    config = config' ∨ ∃ members moved members', config = .object members ∧ config' = .object members' ∧
      (members.map Prod.fst).Nodup ∧ members.Perm moved ∧
      moved.Forall₂ (fun member member' => member.1 = member'.1 ∧ Reordered depth member.2 member'.2) members'

namespace Reordered

theorem refl (depth : Nat) (config : Json) : Reordered depth config config := by
  cases depth with
  | zero => rfl
  | succ depth => exact .inl rfl

theorem lookup_perm {members moved : List (String × Json)} (h : members.Perm moved)
    (hnodup : (members.map Prod.fst).Nodup) (name : String) : members.lookup name = moved.lookup name := by
  induction h with
  | nil => rfl
  | cons member h ih =>
    rw [List.map_cons, List.nodup_cons] at hnodup
    rw [List.lookup_cons, List.lookup_cons, ih hnodup.2]
  | swap a b members =>
    obtain ⟨nameA, valueA⟩ := a
    obtain ⟨nameB, valueB⟩ := b
    have hne : nameB ≠ nameA := by
      simp only [List.map_cons, List.nodup_cons, List.mem_cons, not_or] at hnodup
      exact hnodup.1.1
    simp only [List.lookup_cons]
    by_cases hA : name = nameA
    · subst hA
      have hB : (name == nameB) = false := by simpa using hne.symm
      simp [hB]
    · have hA' : (name == nameA) = false := by simpa using hA
      simp [hA']
  | trans h _ ih₁ ih₂ => exact (ih₁ hnodup).trans (ih₂ ((h.map Prod.fst).nodup_iff.1 hnodup))

theorem lookup_forall₂ {depth : Nat} {moved members' : List (String × Json)}
    (h : moved.Forall₂ (fun member member' => member.1 = member'.1 ∧ Reordered depth member.2 member'.2) members')
    (name : String) : (moved.lookup name = none ∧ members'.lookup name = none) ∨
      ∃ value value', moved.lookup name = some value ∧ members'.lookup name = some value' ∧
        Reordered depth value value' := by
  induction h with
  | nil => exact .inl ⟨rfl, rfl⟩
  | cons hmember _ ih =>
    obtain ⟨hname, hvalue⟩ := hmember
    rw [List.lookup_cons, List.lookup_cons, hname]
    split
    · exact .inr ⟨_, _, rfl, rfl, hvalue⟩
    · exact ih

variable {depth : Nat} {config config' : Json}

/-- Reordering leaves what is no object alone. -/
theorem eq_or_objects (h : Reordered depth config config') :
    config = config' ∨ (config.isObject = true ∧ config'.isObject = true) := by
  cases depth with
  | zero => exact .inl h
  | succ depth =>
    rcases h with h | ⟨members, moved, members', rfl, rfl, -⟩
    · exact .inl h
    · exact .inr ⟨rfl, rfl⟩

/-- The members of one name are each other's reordering. -/
theorem lookup (h : Reordered depth config config') (name : String) :
    (config.members.lookup name = none ∧ config'.members.lookup name = none) ∨
      ∃ value value', config.members.lookup name = some value ∧ config'.members.lookup name = some value' ∧
        ∃ depth', Reordered depth' value value' := by
  by_cases heq : config = config'
  · subst heq
    cases hfound : config.members.lookup name with
    | none => exact .inl ⟨rfl, rfl⟩
    | some value => exact .inr ⟨value, value, rfl, rfl, 0, rfl⟩
  cases depth with
  | zero => exact absurd h heq
  | succ depth =>
    obtain ⟨members, moved, members', rfl, rfl, hnodup, hperm, hvalues⟩ := h.resolve_left heq
    simp only [Json.members]
    rw [lookup_perm hperm hnodup]
    rcases lookup_forall₂ hvalues name with h | ⟨value, value', h, h', hvalue⟩
    · exact .inl h
    · exact .inr ⟨value, value', h, h', depth, hvalue⟩

theorem names (h : Reordered depth config config') :
    (config'.members.map Prod.fst).Perm (config.members.map Prod.fst) := by
  by_cases heq : config = config'
  · rw [heq]
  cases depth with
  | zero => exact absurd h heq
  | succ depth =>
    obtain ⟨members, moved, members', rfl, rfl, -, hperm, hvalues⟩ := h.resolve_left heq
    have hnames : moved.map Prod.fst = members'.map Prod.fst := by
      rw [← List.forall₂_eq_eq_eq, List.forall₂_map_left_iff, List.forall₂_map_right_iff]
      exact hvalues.imp fun _ _ hmember => hmember.1
    simp only [Json.members]
    rw [← hnames]
    exact (hperm.map Prod.fst).symm

end Reordered

/-! ## What a document asks, whatever its order -/

/-- A reading that the order of objects does not change. -/
def Unordered {α : Type} (read : Json → α) : Prop :=
  ∀ depth config config', Reordered depth config config' → read config = read config'

/-- The value of a field, read by a validator that objects do not pass. -/
theorem unordered_field {α : Type} (asked : Option Json → Option α)
    (hobject : ∀ value, value.isObject = true → asked (some value) = none) (field : String) :
    Unordered fun config => asked (config.members.lookup field) := by
  intro depth config config' h
  rcases h.lookup field with ⟨h₁, h₂⟩ | ⟨value, value', h₁, h₂, depth', hvalue⟩
  · simp only [h₁, h₂]
  · simp only [h₁, h₂]
    rcases hvalue.eq_or_objects with heq | ⟨hobj, hobj'⟩
    · rw [heq]
    · rw [hobject value hobj, hobject value' hobj']

theorem StatisticsPatch.unordered_ofSection : Unordered ofSection := by
  intro depth config config' h
  have hinterval := unordered_field movingIntervalAsked
    (fun value hobj => by cases value <;> first | rfl | cases hobj) "moving-interval" depth config config' h
  have hbins := unordered_field histogramBinsAsked
    (fun value hobj => by cases value <;> first | rfl | cases hobj) "histogram-bins" depth config config' h
  have htags := unordered_field tagsAsked
    (fun value hobj => by cases value <;> first | rfl | cases hobj) "tags" depth config config' h
  have hunit := unordered_field rateUnitAsked
    (fun value hobj => by cases value <;> first | rfl | cases hobj) "rate-unit" depth config config' h
  simp only [ofSection, hinterval, hbins, htags, hunit]

/-- What is asked in a value that is no object. -/
theorem unordered_value {α : Type} (asked : Option Json → Option α)
    (hobject : ∀ value, value.isObject = true → asked (some value) = none) :
    Unordered fun config => asked (some config) := by
  intro depth config config' h
  rcases h.eq_or_objects with rfl | ⟨hobj, hobj'⟩
  · rfl
  · exact (hobject config hobj).trans (hobject config' hobj').symm

theorem millisecondsAsked_object (value : Json) (h : value.isObject = true) :
    millisecondsAsked (some value) = none := by
  cases value <;> first | rfl | cases h

theorem enableAsked_object (value : Json) (h : value.isObject = true) : enableAsked (some value) = none := by
  cases value <;> first | rfl | cases h

namespace OptionsPatch

theorem unordered_ofMember {body : Json → OptionsPatch} (hbody : Unordered body) (name : String) :
    Unordered fun config => ofMember config name body := by
  intro depth config config' h
  simp only [ofMember]
  rcases h.lookup name with ⟨h₁, h₂⟩ | ⟨value, value', h₁, h₂, depth', hvalue⟩
  · rw [h₁, h₂]
  · rw [h₁, h₂]
    exact hbody depth' value value' hvalue

/-- A patch made of what a section asks for. -/
theorem unordered_of_section (patch : StatisticsPatch → OptionsPatch) :
    Unordered fun config => patch (.ofSection config) := by
  intro depth config config' h
  simp only [StatisticsPatch.unordered_ofSection depth config config' h]

theorem unordered_ofTimer : Unordered ofTimer := by
  intro depth config config' h
  have hidle := unordered_field millisecondsAsked millisecondsAsked_object "idle-timeout" depth config config' h
  simp only at hidle
  simp only [ofTimer, StatisticsPatch.unordered_ofSection depth config config' h, hidle]

theorem unordered_ofGauge : Unordered ofGauge :=
  unordered_of_section fun patch => { empty with gauge := patch }

theorem unordered_ofCounter : Unordered ofCounter :=
  unordered_of_section fun patch => { empty with counter := patch }

theorem unordered_ofDefaults : Unordered ofDefaults :=
  unordered_of_section fun patch =>
    { empty with statistics := patch, gauge := patch, counter := patch, timer := patch }

theorem unordered_ofMetrics : Unordered ofMetrics := by
  intro depth config config' h
  have hmember : ∀ {body : Json → OptionsPatch}, Unordered body → ∀ name,
      ofMember config name body = ofMember config' name body :=
    fun hbody name => unordered_ofMember hbody name depth config config' h
  simp only [ofMetrics, hmember unordered_ofGauge, hmember unordered_ofCounter, hmember unordered_ofTimer]

/-- **What a document asks for does not depend on its order.** -/
theorem unordered_ofDocument : Unordered ofDocument := by
  intro depth doc doc' h
  have hdump : Unordered ofMetricsDump := fun depth config config' h => by
    have hfield := unordered_field millisecondsAsked millisecondsAsked_object "interval" depth config config' h
    simp only at hfield
    simp only [ofMetricsDump, hfield]
  have hcore : Unordered ofCore := fun depth config config' h => by
    have hfield := unordered_field enableAsked enableAsked_object "enable" depth config config' h
    simp only at hfield
    simp only [ofCore, hfield]
  have hinterval : Unordered ofDumpInterval := fun depth config config' h => by
    have hvalue := unordered_value millisecondsAsked millisecondsAsked_object depth config config' h
    simp only at hvalue
    simp only [ofDumpInterval, hvalue]
  have henable : Unordered ofEnable := fun depth config config' h => by
    have hvalue := unordered_value enableAsked enableAsked_object depth config config' h
    simp only at hvalue
    simp only [ofEnable, hvalue]
  have hmember : ∀ {body : Json → OptionsPatch}, Unordered body → ∀ name,
      ofMember doc name body = ofMember doc' name body :=
    fun hbody name => unordered_ofMember hbody name depth doc doc' h
  simp only [ofDocument, hmember unordered_ofDefaults, hmember unordered_ofMetrics, hmember hdump,
    hmember hcore, hmember unordered_ofGauge, hmember unordered_ofCounter, hmember unordered_ofTimer,
    hmember hinterval, hmember henable]

end OptionsPatch

/-! ## What an accepted document leaves -/

namespace Config

/-- The options after an accepted document. -/
theorem configJson_accepted {doc : Json} {cfg cfg' : Config}
    (h : configJson false (some doc) cfg = (.ok true, cfg')) :
    doc.isObject = true ∧ Sound doc ∧ AllWellFormed doc.members ∧
      ∃ added, cfg' = { (OptionsPatch.ofDocument doc).apply cfg with patternOpts := cfg.patternOpts ++ added } := by
  have hobject : doc.isObject = true := by
    by_contra hnot
    simp only [configJson, Bool.false_eq_true, if_false, if_neg hnot] at h
    cases h
  have hsound : Sound doc := by
    by_contra hnot
    obtain ⟨f, hf⟩ := configJson_of_not_sound hobject hnot cfg
    rw [h] at hf
    cases hf
  obtain ⟨accepted, added, hrun, haccepted, -⟩ := configJson_of_sound hobject hsound cfg
  obtain ⟨hsame, hcfg⟩ := Prod.mk.inj (h.symm.trans hrun)
  exact ⟨hobject, hsound, haccepted.1 (Except.ok.inj hsame).symm, added, hcfg⟩

theorem configJson_accepts {doc : Json} (hobject : doc.isObject = true) (hsound : Sound doc)
    (hnames : AllWellFormed doc.members) (cfg : Config) :
    ∃ added, configJson false (some doc) cfg =
      (.ok true, { (OptionsPatch.ofDocument doc).apply cfg with patternOpts := cfg.patternOpts ++ added }) := by
  obtain ⟨accepted, added, hrun, haccepted, -⟩ := configJson_of_sound hobject hsound cfg
  rw [haccepted.2 hnames] at hrun
  exact ⟨added, hrun⟩

end Config

open Config

namespace Reordered

variable {depth : Nat} {config config' : Json}

theorem isObject (h : Reordered depth config config') (hobject : config.isObject = true) :
    config'.isObject = true := by
  rcases h.eq_or_objects with rfl | ⟨-, hobject'⟩
  · exact hobject
  · exact hobject'

theorem validTags (h : Reordered depth config config') (hvalid : ValidTags config) : ValidTags config' := by
  intro tags htags
  rcases h.lookup "tags" with ⟨-, h₂⟩ | ⟨value, value', h₁, h₂, depth', hvalue⟩
  · rw [h₂] at htags
    cases htags
  · rw [h₂] at htags
    obtain rfl := Option.some.inj htags
    rcases hvalue.eq_or_objects with rfl | ⟨-, hobj'⟩
    · exact hvalid tags h₁
    · cases hobj'

theorem onMember {valid : Json → Prop}
    (hvalid : ∀ depth value value', Reordered depth value value' → valid value → valid value')
    (h : Reordered depth config config') {name : String} (hmember : OnMember config name valid) :
    OnMember config' name valid := by
  intro value' hfound
  rcases h.lookup name with ⟨-, h₂⟩ | ⟨value, value'', h₁, h₂, depth', hvalue⟩
  · rw [h₂] at hfound
    cases hfound
  · rw [h₂] at hfound
    obtain rfl := Option.some.inj hfound
    exact hvalid depth' value value'' hvalue (hmember value h₁)

theorem sound (h : Reordered depth config config') (hsound : Sound config) : Sound config' := by
  have htags : ∀ depth value value', Reordered depth value value' → ValidTags value → ValidTags value' :=
    fun _ _ _ => validTags
  have hmetrics : ∀ depth value value', Reordered depth value value' →
      SoundMetrics value → SoundMetrics value' := fun _ _ _ hvalue hm =>
    ⟨hvalue.isObject hm.isObject, hvalue.onMember htags hm.gauge, hvalue.onMember htags hm.counter,
      hvalue.onMember htags hm.timer⟩
  exact ⟨h.onMember htags hsound.statistics, h.onMember hmetrics hsound.metrics,
    h.onMember htags hsound.defaults, h.onMember htags hsound.gauge, h.onMember htags hsound.counter,
    h.onMember htags hsound.timer⟩

theorem allWellFormed (h : Reordered depth config config') (hnames : AllWellFormed config.members) :
    AllWellFormed config'.members := by
  intro member' hmem hpattern
  have hname := h.names.mem_iff.1 (List.mem_map_of_mem hmem)
  obtain ⟨member, hmem₀, heq⟩ := List.mem_map.1 hname
  have hwell := hnames member hmem₀ (by simpa only [isPattern, heq] using hpattern)
  simpa only [WellFormedName, heq] using hwell

end Reordered

/-- What a timer's section leaves. -/
theorem TimerConfig.configure_ok {config : Json} {obj obj' : TimerConfig}
    (h : TimerConfig.configure config obj = (.ok (), obj')) :
    obj' = ⟨(millisecondsAsked (config.members.lookup "idle-timeout")).getD obj.idleTimeout,
      (StatisticsPatch.ofSection config).apply obj.values⟩ :=
  (TimerConfig.configure_yields config).of_ok h

/-- What a section leaves of the statistics. -/
theorem StatisticsConfig.configure_ok {config : Json} {obj obj' : StatisticsConfig}
    (h : StatisticsConfig.configure config obj = (.ok (), obj')) :
    obj' = (StatisticsPatch.ofSection config).apply obj :=
  (StatisticsConfig.configure_yields config).of_ok h

/-- **Configuration layering.** After an accepted document each field of a
type's statistics has the value of the last of its sections that supplies a
valid one, else the default; so has the timers' idle timeout, of their own
sections. A section that supplies none for a field leaves it alone. And the
document in any other order is accepted too, with the same options. -/
theorem config_layering {doc : Json} {cfg : Config}
    (h : configJson false (some doc) .default = (.ok true, cfg)) :
    cfg.gaugeOpts = ⟨layered doc "gauge" GaugeConfig.default.values⟩ ∧
    cfg.counterOpts = ⟨layered doc "counter" CounterConfig.default.values⟩ ∧
    cfg.timerOpts =
      ⟨(lastValid millisecondsAsked "idle-timeout" (ownSections doc "timer")).getD
        TimerConfig.default.idleTimeout, layered doc "timer" TimerConfig.default.values⟩ ∧
    (∀ (config : Json) (obj obj' : StatisticsConfig),
      StatisticsConfig.configure config obj = (.ok (), obj') →
        (movingIntervalAsked (config.members.lookup "moving-interval") = none →
          obj'.movingInterval = obj.movingInterval) ∧
        (histogramBinsAsked (config.members.lookup "histogram-bins") = none →
          obj'.histogramBins = obj.histogramBins) ∧
        (tagsAsked (config.members.lookup "tags") = none → obj'.tags = obj.tags) ∧
        (rateUnitAsked (config.members.lookup "rate-unit") = none → obj'.rateUnit = obj.rateUnit)) ∧
    (∀ (config : Json) (obj obj' : TimerConfig), TimerConfig.configure config obj = (.ok (), obj') →
      millisecondsAsked (config.members.lookup "idle-timeout") = none → obj'.idleTimeout = obj.idleTimeout) ∧
    ∀ depth doc', Reordered depth doc doc' →
      ∃ cfg', configJson false (some doc') .default = (.ok true, cfg') ∧ cfg'.gaugeOpts = cfg.gaugeOpts ∧
        cfg'.counterOpts = cfg.counterOpts ∧ cfg'.timerOpts = cfg.timerOpts := by
  obtain ⟨hobject, hsound, hnames, added, rfl⟩ := configJson_accepted h
  refine ⟨?_, ?_, ?_, fun config obj obj' hrun => ?_, fun config obj obj' hrun hnone => ?_,
    fun depth doc' hre => ?_⟩
  · simp only [OptionsPatch.apply, OptionsPatch.gauge_ofDocument]
    rfl
  · simp only [OptionsPatch.apply, OptionsPatch.counter_ofDocument]
    rfl
  · simp only [OptionsPatch.apply, OptionsPatch.timer_ofDocument, OptionsPatch.idleTimeout_ofDocument]
    rfl
  · rw [StatisticsConfig.configure_ok hrun]
    refine ⟨fun hnone => ?_, fun hnone => ?_, fun hnone => ?_, fun hnone => ?_⟩ <;>
      simp only [StatisticsPatch.apply, StatisticsPatch.ofSection, hnone, Option.getD_none]
  · rw [TimerConfig.configure_ok hrun, hnone, Option.getD_none]
  · obtain ⟨added', hrun⟩ := configJson_accepts (hre.isObject hobject) (hre.sound hsound)
      (hre.allWellFormed hnames) .default
    refine ⟨_, hrun, ?_⟩
    rw [OptionsPatch.unordered_ofDocument depth doc doc' hre]
    exact ⟨rfl, rfl, rfl⟩

/-- Both formats in one document, the later layers first. -/
def sampleLayers : Json :=
  .object
    [("timer", .object [("histogram-bins", .uint64 9), ("rate-unit", .string "fortnight")]),
      ("defaults", .object [("tags", .array [.string "rate"]), ("moving-interval", .uint64 500)]),
      ("metrics", .object [("timer", .object [("moving-interval", .uint64 0), ("idle-timeout", .uint64 7)])]),
      ("statistics", .object
        [("moving-interval", .uint64 100), ("histogram-bins", .uint64 5), ("rate-unit", .string "ms")])]

theorem config_layering_sample :
    ∃ cfg, configJson false (some sampleLayers) .default = (.ok true, cfg) ∧
      cfg.timerOpts = ⟨⟨7, .msec⟩, ⟨⟨500, .msec⟩, 9, Tag.rate.bit, .msec⟩⟩ := by
  have haccepted : (configJson false (some sampleLayers) .default).1 = .ok true := by decide +kernel
  have hrun : configJson false (some sampleLayers) .default =
      (.ok true, (configJson false (some sampleLayers) .default).2) := Prod.ext haccepted rfl
  have htimer := (config_layering hrun).2.2.1
  have hidle : lastValid millisecondsAsked "idle-timeout" (ownSections sampleLayers "timer") =
      some ⟨7, .msec⟩ := by decide +kernel
  have hvalues : layered sampleLayers "timer" TimerConfig.default.values =
      ⟨⟨500, .msec⟩, 9, Tag.rate.bit, .msec⟩ := by decide +kernel
  rw [hidle, hvalues] at htimer
  exact ⟨_, hrun, htimer⟩

end Handystats
