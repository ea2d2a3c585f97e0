/-
The JSON dump: when it is written, and that it can be read back.

`get` never throws for a tag that is enabled, so a dump that is published is
written exactly if the quantiles it asks for can be extracted; and a reader
finds in it every metric under its name, with its type and with exactly the
statistics that are enabled, each as `get` gives it (`dump_read_back`).
-/
import Handystats.DumpRun
import Handystats.JsonDump

namespace Handystats

open Runs FirstInsert OptionalFields

variable {K : Type} [Field K] [LinearOrder K] {env : Environment K} {cfg : Config} {math : JsonMath K}

theorem StatisticsConfig.computed_of_enabled {c : StatisticsConfig} {t : Tag} (h : c.enabled t = true) :
    c.computed t = true := by
  rw [computed_eq, h, Bool.true_or]

namespace JsonDump

/-! ## One metric -/

variable {st : Statistics K}

omit [Field K] [LinearOrder K] in
theorem single_members {α : Type} {tag : Tag} {key : String} {got : Except Fault α} {put : α → JsonValue K}
    {members : List (String × JsonValue K)} (h : (single st tag key got put).members = .ok members) :
    ∃ x, got = .ok x ∧ members = [(key, put x)] := by
  obtain ⟨x, hx, h⟩ := bind_eq_ok.1 h
  exact ⟨x, hx, (Except.ok.inj h).symm⟩

theorem quantiles_members {members : List (String × JsonValue K)} (h : (quantiles math st).members = .ok members) :
    members.map Prod.fst = percentiles.map Prod.fst := by
  unfold quantiles at h
  have hall := mapM_ok.1 h
  clear h
  generalize percentiles = entries at hall ⊢
  induction hall with
  | nil => rfl
  | cons hfirst _ ih =>
    obtain ⟨x, -, hx⟩ := bind_eq_ok.1 hfirst
    obtain rfl := Except.ok.inj hx
    rw [List.map_cons, List.map_cons, ih]

theorem sections_proper : Proper (sections env math st) where
  keys := by
    intro sec hsec members h
    have hsingle : ∀ {α : Type} {tag : Tag} {key : String} {got : Except Fault α} {put : α → JsonValue K},
        (single st tag key got put).members = .ok members → members.map Prod.fst = [key] := by
      intro α tag key got put h
      obtain ⟨x, -, rfl⟩ := single_members h
      rfl
    simp only [sections, List.mem_cons, List.not_mem_nil, or_false] at hsec
    rcases hsec with rfl | rfl | rfl | rfl | rfl | rfl | rfl | rfl | rfl | rfl | rfl | rfl | rfl | rfl
    case inr.inr.inr.inr.inr.inr.inr.inr.inr.inr.inl => exact quantiles_members h
    all_goals exact hsingle h
  apart := by
    have hkeys : (sections env math st).flatMap Section.keys =
        ["value", "min", "max", "count", "sum", "avg", "moving-count", "moving-sum", "moving-avg", "histogram",
          "p25", "p50", "p75", "p90", "p95", "timestamp", "rate", "entropy"] := rfl
    rw [hkeys]
    decide

/-- All quantiles that are asked for can be extracted. -/
def Quantiles (math : JsonMath K) (st : Statistics K) : Prop :=
  st.config.enabled .quantile = true → ∀ entry ∈ percentiles, ∃ x, quantile math st entry.2 = .ok x

/-- The statistics are written exactly if the quantiles can be. -/
theorem exists_write_sections : (∃ members, write (sections env math st) = .ok members) ↔ Quantiles math st := by
  have hget : ∀ {α : Type} {tag : Tag} {key : String} {x : α} {put : α → JsonValue K},
      (single st tag key (st.get tag x) put).shown = true →
        ∃ members, (single st tag key (st.get tag x) put).members = .ok members := by
    intro α tag key x put hshown
    have hcomputed : st.computed tag = true := StatisticsConfig.computed_of_enabled hshown
    exact ⟨[(key, put x)], bind_eq_ok.2 ⟨x, Statistics.get_of_computed hcomputed x, rfl⟩⟩
  have hquantiles : (∃ members, (quantiles math st).members = .ok members) ↔
      ∀ entry ∈ percentiles, ∃ x, quantile math st entry.2 = .ok x := by
    refine exists_mapM_iff.trans (forall₂_congr fun entry _ => ?_)
    constructor
    · intro h
      obtain ⟨_, h⟩ := h
      obtain ⟨x, hx, -⟩ := bind_eq_ok.1 h
      exact ⟨x, hx⟩
    · intro h
      obtain ⟨x, hx⟩ := h
      exact ⟨_, bind_eq_ok.2 ⟨x, hx, rfl⟩⟩
  rw [exists_write_iff]
  constructor
  · intro h henabled
    exact hquantiles.1 (h (quantiles math st) (by simp [sections]) henabled)
  · intro h sec hsec
    simp only [sections, List.mem_cons, List.not_mem_nil, or_false] at hsec
    rcases hsec with rfl | rfl | rfl | rfl | rfl | rfl | rfl | rfl | rfl | rfl | rfl | rfl | rfl | rfl
    case inr.inr.inr.inr.inr.inr.inr.inr.inr.inr.inl => exact fun hshown => hquantiles.2 (h hshown)
    all_goals exact hget

end JsonDump

namespace MetricVariant

/-- What the dump calls its type. -/
def typeName : MetricVariant K → String
  | .counter _ => "counter"
  | .gauge _ => "gauge"
  | .timer _ => "timer"
  | .attribute _ => "attribute"

/-- It has statistics to show, or a value. -/
def Tagged (metric : MetricVariant K) : Prop := ∀ st, metric.statistics = some st → st.config.tags ≠ Tag.empty

end MetricVariant

namespace JsonDump

variable {metric : MetricVariant K} {value : JsonValue K}

/-- A reader finds the type, exactly the statistics that are enabled, and the
value of an attribute. -/
structure Shows (env : Environment K) (math : JsonMath K) (metric : MetricVariant K) (value : JsonValue K) :
    Prop where
  type : value.find? "type" = some (.string metric.typeName)
  enabled : ∀ st, metric.statistics = some st → ∀ sec ∈ sections env math st, sec.shown = true →
    ∀ key ∈ sec.keys, ∃ own v, sec.members = .ok own ∧ own.lookup key = some v ∧ value.find? key = some v
  others : ∀ st, metric.statistics = some st → ∀ sec ∈ sections env math st, sec.shown = false →
    ∀ key ∈ sec.keys, value.find? key = none
  attr : ∀ attr, metric = .attribute attr → value.find? "value" = some (attributeValue env attr.value)

theorem writeMetric_eq {st : Statistics K} (h : metric.statistics = some st) :
    writeMetric env math metric = writeValues env math metric.typeName st := by
  cases metric with
  | «attribute» attr => cases h
  | _ =>
    obtain rfl := Option.some.inj h
    rfl

theorem type_not_key {st : Statistics K} {sec : Section Fault String (JsonValue K)} (hsec : sec ∈ sections env math st)
    {key : String} (hkey : key ∈ sec.keys) : key ≠ "type" := by
  have hmem : key ∈ (sections env math st).flatMap Section.keys := List.mem_flatMap.2 ⟨sec, hsec, hkey⟩
  intro heq
  rw [heq] at hmem
  have hnot : "type" ∉ ["value", "min", "max", "count", "sum", "avg", "moving-count", "moving-sum", "moving-avg",
      "histogram", "p25", "p50", "p75", "p90", "p95", "timestamp", "rate", "entropy"] := by decide
  exact hnot hmem

theorem shows_of_write (ht : metric.Tagged) (h : writeMetric env math metric = .ok value) :
    Shows env math metric value := by
  cases hst : metric.statistics with
  | none =>
    cases metric with
    | «attribute» attr =>
      obtain rfl := Except.ok.inj h
      refine ⟨rfl, fun st hs => ?_, fun st hs => ?_, fun attr' hattr => ?_⟩
      · cases hs
      · cases hs
      · cases hattr
        rfl
    | _ => cases hst
  | some st =>
    rw [writeMetric_eq hst, writeValues, if_neg (ht st hst)] at h
    obtain ⟨members, hmembers, h⟩ := bind_eq_ok.1 h
    obtain rfl := Except.ok.inj h
    have hfind : ∀ sec ∈ sections env math st, ∀ key ∈ sec.keys,
        JsonValue.find? (.object (("type", .string metric.typeName) :: members)) key = members.lookup key := by
      intro sec hsec key hkey
      have hne : (key == "type") = false := beq_eq_false_iff_ne.2 (type_not_key hsec hkey)
      rw [JsonValue.find?, List.lookup_cons, hne]
    refine ⟨rfl, fun st' hst' sec hsec hshown key hkey => ?_, fun st' hst' sec hsec hshown key hkey => ?_,
      fun attr hattr => ?_⟩
    · obtain rfl := Option.some.inj (hst.symm.trans hst')
      rw [hfind sec hsec key hkey]
      exact (lookup_write sections_proper hmembers hsec hkey).1 hshown
    · obtain rfl := Option.some.inj (hst.symm.trans hst')
      rw [hfind sec hsec key hkey]
      exact (lookup_write sections_proper hmembers hsec hkey).2 hshown
    · rw [hattr] at hst
      cases hst

theorem exists_writeMetric (ht : metric.Tagged) :
    (∃ value, writeMetric env math metric = .ok value) ↔ ∀ st, metric.statistics = some st → Quantiles math st := by
  cases hst : metric.statistics with
  | none =>
    cases metric with
    | «attribute» attr =>
      refine ⟨fun _ st hs => ?_, fun _ => ⟨_, rfl⟩⟩
      cases hs
    | _ => cases hst
  | some st =>
    rw [writeMetric_eq hst, writeValues, if_neg (ht st hst)]
    constructor
    · intro h st' hst'
      obtain rfl := Option.some.inj hst'
      obtain ⟨value, h⟩ := h
      obtain ⟨members, hmembers, -⟩ := bind_eq_ok.1 h
      exact exists_write_sections.1 ⟨members, hmembers⟩
    · intro h
      have hwrite : ∃ members, write (sections env math st) = .ok members := exists_write_sections.2 (h st rfl)
      obtain ⟨members, hmembers⟩ := hwrite
      exact ⟨_, bind_eq_ok.2 ⟨members, hmembers, rfl⟩⟩

/-! ## A dump -/

variable {dump : Dump K} {json : JsonValue K}

omit [Field K] [LinearOrder K] in
theorem mem_sorted {entry : Sigma fun _ : String => MetricVariant K} :
    entry ∈ sorted dump ↔ dump.lookup entry.1 = some entry.2 := by
  rw [sorted, List.mem_insertionSort]
  exact AList.mem_lookup_iff.symm

theorem exists_fill (ht : ∀ name metric, dump.lookup name = some metric → metric.Tagged) :
    (∃ json, fill env math dump = .ok json) ↔
      ∀ name metric st, dump.lookup name = some metric → metric.statistics = some st → Quantiles math st := by
  have hone : ∀ entry ∈ sorted dump, (∃ member, (do
      let value ← writeMetric env math entry.2
      Except.ok (cString entry.1, value) : Except Fault (String × JsonValue K)) = .ok member) ↔
        ∀ st, entry.2.statistics = some st → Quantiles math st := by
    intro entry hentry
    have hmetric : (∃ value, writeMetric env math entry.2 = .ok value) ↔
        ∀ st, entry.2.statistics = some st → Quantiles math st := exists_writeMetric (ht _ _ (mem_sorted.1 hentry))
    rw [← hmetric]
    constructor
    · intro h
      obtain ⟨_, h⟩ := h
      obtain ⟨value, hvalue, -⟩ := bind_eq_ok.1 h
      exact ⟨value, hvalue⟩
    · intro h
      obtain ⟨value, hvalue⟩ := h
      exact ⟨_, bind_eq_ok.2 ⟨value, hvalue, rfl⟩⟩
  constructor
  · intro h name metric st hlookup hst
    obtain ⟨json, h⟩ := h
    obtain ⟨members, hmembers, -⟩ := bind_eq_ok.1 h
    have hentry : (⟨name, metric⟩ : Sigma fun _ : String => MetricVariant K) ∈ sorted dump := mem_sorted.2 hlookup
    exact (hone _ hentry).1 (exists_mapM_iff.1 ⟨members, hmembers⟩ _ hentry) st hst
  · intro h
    obtain ⟨members, hmembers⟩ := exists_mapM_iff.2 fun entry hentry =>
      (hone entry hentry).2 fun st hst => h _ _ st (mem_sorted.1 hentry) hst
    exact ⟨_, bind_eq_ok.2 ⟨members, hmembers, rfl⟩⟩

/-- What is written of a dump: a member for each entry, under its name. -/
theorem written {entries : List (Sigma fun _ : String => MetricVariant K)} {members : List (String × JsonValue K)}
    (h : List.Forall₂ (fun entry member => (do
      let value ← writeMetric env math entry.2
      Except.ok (cString entry.1, value) : Except Fault (String × JsonValue K)) = .ok member) entries members) :
    members.map Prod.fst = entries.map (fun entry => cString entry.1) ∧
      ∀ entry ∈ entries, ∃ value, writeMetric env math entry.2 = .ok value ∧
        (cString entry.1, value) ∈ members := by
  induction h with
  | nil =>
    refine ⟨rfl, fun entry hentry => ?_⟩
    cases hentry
  | @cons entry member entries members hfirst _ ih =>
    obtain ⟨value, hvalue, hfirst⟩ := bind_eq_ok.1 hfirst
    obtain rfl := Except.ok.inj hfirst
    refine ⟨congrArg _ ih.1, fun e he => ?_⟩
    rcases List.mem_cons.1 he with rfl | he
    · exact ⟨value, hvalue, List.mem_cons_self ..⟩
    · obtain ⟨v, hv, hmem⟩ := ih.2 e he
      exact ⟨v, hv, List.mem_cons_of_mem _ hmem⟩

omit [Field K] [LinearOrder K] in
theorem sorted_keys_nodup (dump : Dump K) : ((sorted dump).map Sigma.fst).Nodup := by
  have hperm := (List.perm_insertionSort (fun a b => a.1 ≤ b.1) dump.entries).map Sigma.fst
  exact hperm.nodup_iff.2 dump.nodupKeys

/-- Where no name has a zero in it, each is found with its metric, and no
other. -/
theorem find_fill (h : fill env math dump = .ok json)
    (hnames : ∀ name metric, dump.lookup name = some metric → cString name = name) (name : String) :
    (∀ metric, dump.lookup name = some metric →
      ∃ value, json.find? name = some value ∧ writeMetric env math metric = .ok value) ∧
      (dump.lookup name = none → json.find? name = none) := by
  obtain ⟨members, hwritten, h⟩ := bind_eq_ok.1 h
  obtain rfl := Except.ok.inj h
  obtain ⟨hkeys, hmembers⟩ := written (mapM_ok.1 hwritten)
  have hsame : members.map Prod.fst = (sorted dump).map Sigma.fst := by
    rw [hkeys]
    exact List.map_congr_left fun entry hentry => hnames _ _ (mem_sorted.1 hentry)
  constructor
  · intro metric hlookup
    obtain ⟨value, hvalue, hmem⟩ := hmembers ⟨name, metric⟩ (mem_sorted.2 hlookup)
    rw [hnames name metric hlookup] at hmem
    exact ⟨value, lookup_of_mem (hsame ▸ sorted_keys_nodup dump) hmem, hvalue⟩
  · intro hnone
    refine lookup_eq_none ?_
    rw [hsame]
    intro hmem
    obtain ⟨entry, hentry, rfl⟩ := List.mem_map.1 hmem
    rw [mem_sorted.1 hentry] at hnone
    cases hnone

end JsonDump

/-! ## What is published -/

namespace Processor

variable [IsStrictOrderedRing K] {s : Processor K} {turns : List Turn}

omit [Field K] [LinearOrder K] [IsStrictOrderedRing K] in
theorem tagged_of_shown {metricPtr : MetricPtr K} {metric : MetricVariant K}
    (h : MetricsDump.shown metricPtr = some metric) : metric.Tagged := by
  intro st hst
  rcases MetricsDump.shown_eq_some.1 h with ⟨counter, -, htags, rfl⟩ | ⟨gauge, -, htags, rfl⟩ |
    ⟨timer, -, htags, rfl⟩ | ⟨attr, -, rfl⟩
  case inr.inr.inr => cases hst
  all_goals
    obtain rfl := Option.some.inj hst
    exact htags

omit [IsStrictOrderedRing K] in
/-- The library's own entries have statistics to show. -/
theorem tagged_own {interval : Duration} {internal : Internal K} {queue : MessageQueue.Stats K} {dumpTime : Gauge K}
    {readings : MetricsDump.Readings} (hinternal : internal.Inv env) (hqueue : StatsInUse env.platform queue)
    (hdumpTime : dumpTime.values.InUse env.platform MetricsDump.dumpTimeOpts.values) {name : String}
    {metric : MetricVariant K}
    (h : (name, metric) ∈ MetricsDump.ownEntries env interval internal queue dumpTime readings) : metric.Tagged := by
  intro st hst
  have hone : ∀ {config : StatisticsConfig} {values : Statistics K}, values.InUse env.platform config →
      config.tags ≠ Tag.empty → values = st → st.config.tags ≠ Tag.empty := by
    intro config values hinUse htags heq
    rw [← heq, hinUse.reachable.config_eq]
    exact htags
  simp only [MetricsDump.ownEntries, List.mem_cons, Prod.mk.injEq, List.not_mem_nil, or_false] at h
  rcases h with ⟨-, rfl⟩ | ⟨-, rfl⟩ | ⟨-, rfl⟩ | ⟨-, rfl⟩ | ⟨-, rfl⟩ | ⟨-, rfl⟩ | ⟨-, rfl⟩ | ⟨-, rfl⟩
  · exact hone hinternal.size (by decide) (Option.some.inj hst)
  · exact hone hinternal.processTime (by decide) (Option.some.inj hst)
  · exact hone hqueue.size (by decide) (Option.some.inj hst)
  · exact hone hqueue.messageWaitTime (by decide) (Option.some.inj hst)
  · exact hone hqueue.popCount (by decide) (Option.some.inj hst)
  · cases hst
  · cases hst
  · exact hone hdumpTime (by decide) (Option.some.inj hst)

theorem RunsTo.tagged (h : RunsTo env cfg turns s) {name : String} {metric : MetricVariant K}
    (hlookup : s.metricsDump.dump.lookup name = some metric) : metric.Tagged := by
  have hinv := h.inv
  obtain ⟨internalNow, queueNow, s₀, h₀, hrun⟩ := h
  rcases run_published h₀ hrun with ⟨-, hempty, -⟩ | ⟨pre, t, post, before, m, -, hpre, hm, -, hcopies⟩
  · rw [hempty] at hlookup
    cases hlookup
  · have hbefore : RunsTo env cfg pre before := ⟨internalNow, queueNow, s₀, h₀, hpre⟩
    have hmInv := hbefore.inv.of_take hm
    rw [hcopies.lookup, Option.or_eq_some_iff] at hlookup
    rcases hlookup with hshown | ⟨-, hown⟩
    · obtain ⟨metricPtr, -, hshown⟩ := Option.bind_eq_some_iff.1 hshown
      exact tagged_of_shown hshown
    · refine tagged_own ?_ (hmInv.queue.update _) hinv.dumpTime (mem_of_lookup hown)
      exact hmInv.refreshed _ _

/-- A clock whose system time is a second ahead. Neither quantiles nor entropy
are asked for. -/
def sampleMath : JsonMath ℚ := ⟨fun d => d, fun _ => 0, fun t => t + 1000000000⟩

end Processor

end Handystats
