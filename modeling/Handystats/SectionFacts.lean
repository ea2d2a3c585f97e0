/-
What a section does to the options of a type: which sections are accepted
(`ValidTags`), and how many bins they ask for (`binsOf`).

`Configures` says it once for `configure(statistics&, ..)`; the sections of
gauges, counters and timers inherit it.
-/
import Handystats.Config

namespace Handystats

open Effect

/-- The names that `tag::from_string` knows. -/
def Tag.names : List String :=
  ["value", "min", "max", "count", "sum", "avg", "moving-count", "moving-sum", "moving-avg",
    "histogram", "quantile", "timestamp", "rate", "entropy"]

theorem Tag.fromString_cases (name : String) :
    (name ∈ Tag.names ∧ ∃ tag, Tag.fromString name = .ok tag) ∨
      (name ∉ Tag.names ∧ Tag.fromString name = .error .invalidTag) := by
  by_cases h : name ∈ Tag.names
  · refine .inl ⟨h, ?_⟩
    simp only [Tag.names, List.mem_cons, List.not_mem_nil, or_false] at h
    rcases h with rfl | rfl | rfl | rfl | rfl | rfl | rfl | rfl | rfl | rfl | rfl | rfl | rfl | rfl
    all_goals exact ⟨_, rfl⟩
  · refine .inr ⟨h, ?_⟩
    simp only [Tag.names, List.mem_cons, List.not_mem_nil, or_false, not_or] at h
    unfold Tag.fromString
    simp [h]

/-- All strings among the elements name tags. -/
def TagNames (tags : List Json) : Prop := ∀ name, .string name ∈ tags → cString name ∈ Tag.names

/-- The section's tags, if it has an array of them, all exist. -/
def ValidTags (config : Json) : Prop :=
  ∀ tags, config.members.lookup "tags" = some (.array tags) → TagNames tags

/-- The number of bins that a value of `histogram-bins` leaves. -/
def binsAsked : Option Json → Nat → Nat
  | some (.uint64 n), histogramBins => if 0 < n then n.toNat else histogramBins
  | _, histogramBins => histogramBins

/-- The number of bins that the section leaves. -/
def binsOf (config : Json) : Nat → Nat := binsAsked (config.members.lookup "histogram-bins")

theorem validTags_of_not_object {config : Json} (h : ¬ config.isObject = true) : ValidTags config := by
  cases config with
  | object members => exact absurd rfl h
  | _ => exact fun tags htags => by simp [Json.members] at htags

theorem binsOf_of_not_object {config : Json} (h : ¬ config.isObject = true) : binsOf config = id := by
  cases config with
  | object members => exact absurd rfl h
  | _ => rfl

/-- A `configure` that throws `invalid_tag_error` unless `valid`, and otherwise
makes of the number of bins, `size`, what `bins` says. -/
def Configures {α : Type} (size : α → Nat) (valid : Prop) (bins : Nat → Nat)
    (x : Effect Fault α Unit) : Prop :=
  ∀ obj,
    (valid ∧ ∃ obj', x obj = (.ok (), obj') ∧ size obj' = bins (size obj)) ∨
      (¬ valid ∧ ∃ obj', x obj = (.error .invalidTag, obj'))

namespace Configures

variable {α : Type} {size : α → Nat} {valid valid' : Prop} {bins bins' : Nat → Nat}
  {x y : Effect Fault α Unit}

theorem pure : Configures size True id (pure () : Effect Fault α Unit) :=
  fun obj => .inl ⟨trivial, obj, rfl, rfl⟩

theorem modify (f : α → α) (h : ∀ obj, size (f obj) = bins (size obj)) :
    Configures size True bins (modify f : Effect Fault α Unit) :=
  fun obj => .inl ⟨trivial, f obj, rfl, h obj⟩

theorem congr (h : Configures size valid bins x) (hvalid : valid ↔ valid') (hbins : bins = bins') :
    Configures size valid' bins' x := by
  subst hbins
  exact fun obj => (h obj).imp (And.imp_left hvalid.1) (And.imp_left fun hn hv => hn (hvalid.2 hv))

theorem ofExcept_ok {β : Type} {a : β} {f : β → Effect Fault α Unit}
    (h : Configures size valid bins (f a)) : Configures size valid bins (ofExcept (.ok a) >>= f) := h

/-- One after the other. -/
theorem bind (hx : Configures size valid bins x) (hy : Configures size valid' bins' y) :
    Configures size (valid ∧ valid') (bins' ∘ bins) (x >>= fun _ => y) := by
  intro obj
  rcases hx obj with ⟨hv, obj₁, h₁, hb₁⟩ | ⟨hv, obj₁, h₁⟩
  · rw [bind_of_ok h₁]
    rcases hy obj₁ with ⟨hv', obj₂, h₂, hb₂⟩ | ⟨hv', obj₂, h₂⟩
    · exact .inl ⟨⟨hv, hv'⟩, obj₂, h₂, by rw [hb₂, hb₁]; rfl⟩
    · exact .inr ⟨fun h => hv' h.2, obj₂, h₂⟩
  · rw [bind_of_error h₁]
    exact .inr ⟨fun h => hv h.1, obj₁, rfl⟩

/-- On a part that holds the statistics' options. -/
theorem zoom {β : Type} {part : β → α} {set : β → α → β} (h : Configures size valid bins x)
    (hset : ∀ obj a, part (set obj a) = a) :
    Configures (size ∘ part) valid bins (zoom part set x) := by
  intro obj
  rcases h (part obj) with ⟨hv, a, ha, hb⟩ | ⟨hv, a, ha⟩
  · exact .inl ⟨hv, set obj a, by simp [Effect.zoom, ha], by simpa [hset] using hb⟩
  · exact .inr ⟨hv, set obj a, by simp [Effect.zoom, ha]⟩

end Configures

namespace StatisticsConfig

theorem addTags_configures (tags : List Json) : Configures histogramBins (TagNames tags) id (addTags tags) := by
  induction tags with
  | nil => exact Configures.pure.congr (by simp [TagNames]) rfl
  | cons tag tags ih =>
    cases tag with
    | string name =>
      have hcons : TagNames (.string name :: tags) ↔ cString name ∈ Tag.names ∧ TagNames tags := by
        simp [TagNames, or_imp, forall_and]
      rcases Tag.fromString_cases (cString name) with ⟨hmem, tag, htag⟩ | ⟨hmem, htag⟩
      · have hwrite : Configures histogramBins True id
            (Effect.modify fun obj : StatisticsConfig => { obj with tags := obj.tags ||| tag.bit }) :=
          Configures.modify _ fun _ => rfl
        unfold addTags
        rw [htag]
        exact (Configures.ofExcept_ok (hwrite.bind ih)).congr (by simp [hcons, hmem]) rfl
      · refine fun obj => .inr ⟨fun h => hmem (hcons.1 h).1, obj, ?_⟩
        unfold addTags
        rw [htag]
        rfl
    | _ => exact ih.congr (by simp [TagNames]) rfl

theorem configureMovingInterval_configures (found : Option Json) :
    Configures histogramBins True id (configureMovingInterval found) := by
  unfold configureMovingInterval
  split
  · split_ifs
    · exact Configures.modify _ fun _ => rfl
    · exact Configures.pure
  · exact Configures.pure

theorem configureHistogramBins_configures (found : Option Json) :
    Configures histogramBins True (binsAsked found) (configureHistogramBins found) := by
  unfold configureHistogramBins
  split
  next n =>
    split_ifs with hn
    · exact Configures.modify _ fun _ => by simp only [binsAsked, if_pos hn]
    · exact Configures.pure.congr Iff.rfl (by funext k; simp only [binsAsked, if_neg hn, id_eq])
  next hother =>
    refine Configures.pure.congr Iff.rfl ?_
    funext k
    unfold binsAsked
    split
    next k n => exact absurd rfl (hother n)
    next => rfl

theorem configureTags_configures (config : Json) :
    Configures histogramBins (ValidTags config) id (configureTags (config.members.lookup "tags")) := by
  unfold configureTags ValidTags
  split
  next tags htags =>
    have hclear : Configures histogramBins True id
        (Effect.modify fun obj : StatisticsConfig => { obj with tags := Tag.empty }) :=
      Configures.modify _ fun _ => rfl
    exact (hclear.bind (addTags_configures tags)).congr (by simp [htags]) rfl
  next hother =>
    refine Configures.pure.congr ?_ rfl
    exact ⟨fun _ tags htags => absurd htags (hother tags), fun _ => trivial⟩

theorem configureRateUnit_configures (found : Option Json) :
    Configures histogramBins True id (configureRateUnit found) := by
  unfold configureRateUnit
  split
  · split_ifs
    · exact Configures.modify _ fun _ => rfl
    · exact Configures.pure
  · exact Configures.pure

/-- A section's statistics. -/
theorem configure_configures (config : Json) :
    Configures histogramBins (ValidTags config) (binsOf config) (configure config) := by
  unfold configure
  split_ifs with hobject
  · simp only [Json.find_of_isObject hobject]
    have h₄ := configureRateUnit_configures (config.members.lookup "rate-unit")
    have h₃ := configureTags_configures config
    have h₂ := configureHistogramBins_configures (config.members.lookup "histogram-bins")
    have h₁ := configureMovingInterval_configures (config.members.lookup "moving-interval")
    refine Configures.congr (.ofExcept_ok (h₁.bind (.ofExcept_ok (h₂.bind (.ofExcept_ok (h₃.bind
      (.ofExcept_ok h₄))))))) (by simp) rfl
  · exact Configures.pure.congr (by simp [validTags_of_not_object hobject]) (binsOf_of_not_object hobject).symm

end StatisticsConfig

/-- A gauge's section. -/
theorem GaugeConfig.configure_configures (config : Json) :
    Configures (fun opts => opts.values.histogramBins) (ValidTags config) (binsOf config)
      (GaugeConfig.configure config) := by
  unfold GaugeConfig.configure
  split_ifs with hobject
  · exact (StatisticsConfig.configure_configures config).zoom fun _ _ => rfl
  · exact Configures.pure.congr (by simp [validTags_of_not_object hobject]) (binsOf_of_not_object hobject).symm

/-- A counter's section. -/
theorem CounterConfig.configure_configures (config : Json) :
    Configures (fun opts => opts.values.histogramBins) (ValidTags config) (binsOf config)
      (CounterConfig.configure config) := by
  unfold CounterConfig.configure
  split_ifs with hobject
  · exact (StatisticsConfig.configure_configures config).zoom fun _ _ => rfl
  · exact Configures.pure.congr (by simp [validTags_of_not_object hobject]) (binsOf_of_not_object hobject).symm

/-- A timer's section: `idle-timeout` concerns neither. -/
theorem TimerConfig.configure_configures (config : Json) :
    Configures (fun opts => opts.values.histogramBins) (ValidTags config) (binsOf config)
      (TimerConfig.configure config) := by
  unfold TimerConfig.configure
  split_ifs with hobject
  · have hidle : ∀ found, Configures (fun opts => opts.values.histogramBins) True id
        (TimerConfig.configureIdleTimeout found) := by
      intro found
      unfold TimerConfig.configureIdleTimeout
      split
      · exact Configures.modify _ fun _ => rfl
      · exact Configures.pure
    have hvalues : Configures (fun opts => opts.values.histogramBins) (ValidTags config) (binsOf config)
        (Effect.zoom TimerConfig.values (fun obj values => { obj with values := values })
          (StatisticsConfig.configure config)) :=
      (StatisticsConfig.configure_configures config).zoom fun _ _ => rfl
    rw [Json.find_of_isObject hobject]
    exact (Configures.ofExcept_ok ((hidle _).bind hvalues)).congr (by simp) rfl
  · exact Configures.pure.congr (by simp [validTags_of_not_object hobject]) (binsOf_of_not_object hobject).symm

end Handystats
