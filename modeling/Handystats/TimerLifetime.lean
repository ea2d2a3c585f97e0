/-
How long the instances of a timer live.

A sweep is skipped until the idle timeout has passed since the last one, so an
instance may outlive its timeout once more, and no longer (`Recent` is the
invariant: no instance is older than a timeout at the last check, and that
check no older than a timeout). A heartbeat is stored as it comes, so of those
that come out of order the last one counts, not the latest.
-/
import Mathlib.Data.List.MinMax
import Handystats.TimerSweep

namespace Handystats.Timer

open Runs

variable {S : Type} {ck : Clock} {feed : S → Int → Int → Except Fault S}

/-! ## Abandoned instances -/

/-- What is held is no older than an idle timeout at the last check, which is
no older than one `now`. -/
structure Recent (ck : Clock) (idleTimeout : Duration) (now : Int) (tm : Timer S) : Prop where
  idleTimeout_eq : tm.idleTimeout = idleTimeout
  check_le : tm.idleCheckTimestamp ≤ now
  le_check : now - ck.count idleTimeout ≤ tm.idleCheckTimestamp
  alive : ∀ id i, tm.instances id = some i →
    tm.idleCheckTimestamp - ck.count idleTimeout ≤ i.heartbeatTimestamp

namespace Recent

variable {idleTimeout : Duration} {now t : Int} {tm tm' : Timer S}

/-- The check at a later time: skipped or not, it is as recent then. -/
theorem check (hidle : 0 ≤ ck.count idleTimeout) (h : Recent ck idleTimeout now tm) (ht : now ≤ t)
    (force : Bool) : Recent ck idleTimeout t (tm.checkIdleTimeout ck t force) := by
  obtain ⟨rfl, hle, -, halive⟩ := h
  unfold checkIdleTimeout
  split_ifs with hskip
  · simp only [Bool.and_eq_true, decide_eq_true_eq] at hskip
    exact ⟨rfl, by omega, by omega, halive⟩
  · have hmax : max tm.idleCheckTimestamp t = t := max_eq_right (by omega)
    refine ⟨rfl, by simp only [hmax, le_refl], by simp only [hmax]; omega, fun id i hi => ?_⟩
    obtain ⟨hheld, hlive⟩ := Option.filter_eq_some_iff.1 hi
    simp only [Bool.not_eq_true', ← Bool.not_eq_true] at hlive
    rw [expired_iff hidle, not_not] at hlive
    simp only [hmax]
    omega

/-- An instance whose heartbeat is now, or none. -/
theorem write (hidle : 0 ≤ ck.count idleTimeout) (h : Recent ck idleTimeout t tm) (id : UInt64)
    {i : Option InstanceState} (hi : ∀ instanceState, i = some instanceState →
      instanceState.heartbeatTimestamp = t) :
    Recent ck idleTimeout t { tm with instances := Function.update tm.instances id i } := by
  refine ⟨h.idleTimeout_eq, h.check_le, h.le_check, fun id' j hj => ?_⟩
  have hle := h.check_le
  by_cases hid : id' = id
  · subst hid
    simp only [Function.update_self] at hj
    have hj' := hi j hj
    simp only
    omega
  · simp only [Function.update_of_ne hid] at hj
    exact h.alive id' j hj

theorem erase (hidle : 0 ≤ ck.count idleTimeout) (h : Recent ck idleTimeout t tm) (id : UInt64) :
    Recent ck idleTimeout t (tm.erase id) :=
  h.write hidle id fun _ hi => by cases hi

theorem heartbeaten (hidle : 0 ≤ ck.count idleTimeout) (h : Recent ck idleTimeout t tm) (id : UInt64) :
    Recent ck idleTimeout t (tm.heartbeaten ck id t) := by
  unfold Timer.heartbeaten
  cases tm.instances id with
  | none => exact h
  | some i =>
    simp only
    split_ifs
    · exact h.erase hidle id
    · exact h.write hidle id fun _ hi => by rw [← Option.some.inj hi]

theorem stopped (hidle : 0 ≤ ck.count idleTimeout) (h : Recent ck idleTimeout t tm) {id : UInt64}
    (hstop : tm.stopped ck feed id t = .ok tm') : Recent ck idleTimeout t tm' := by
  unfold Timer.stopped at hstop
  cases hi : tm.instances id with
  | none =>
    rw [hi] at hstop
    rw [← Except.ok.inj hstop]
    exact h
  | some i =>
    simp only [hi] at hstop
    split_ifs at hstop
    · rw [← Except.ok.inj hstop]
      exact h.erase hidle id
    · obtain ⟨values, -, hstop⟩ := bind_eq_ok.1 hstop
      rw [← Except.ok.inj hstop]
      have hfed : Recent ck idleTimeout t { tm with values := values } :=
        ⟨h.idleTimeout_eq, h.check_le, h.le_check, h.alive⟩
      exact hfed.erase hidle id

/-- One operation that checks. -/
theorem step (hidle : 0 ≤ ck.count idleTimeout) (h : Recent ck idleTimeout now tm) {op : Operation}
    (ht : now ≤ op.timestamp) (hset : ∀ d t, op ≠ .set d t) (hstep : Timer.step ck feed tm op = .ok tm') :
    Recent ck idleTimeout op.timestamp tm' := by
  cases op with
  | start id t =>
    rw [← Except.ok.inj hstep]
    refine (h.check hidle ht false).write hidle id fun i hi => ?_
    obtain rfl := Option.some.inj hi
    rfl
  | stop id t => exact (h.check hidle ht false).stopped hidle hstep
  | heartbeat id t =>
    rw [← Except.ok.inj hstep]
    exact (h.check hidle ht false).heartbeaten hidle id
  | discard id t =>
    rw [← Except.ok.inj hstep]
    exact (h.check hidle ht false).erase hidle id
  | set d t => exact absurd rfl (hset d t)
  | checkIdleTimeout t force =>
    rw [← Except.ok.inj hstep]
    exact h.check hidle ht force

end Recent

/-- The time of the last operation. -/
def lastTime (ops : List Operation) : Int := (ops.getLast?.map Operation.timestamp).getD 0

theorem lastTime_concat (ops : List Operation) (op : Operation) : lastTime (ops ++ [op]) = op.timestamp := by
  simp [lastTime]

/-- Operations in order, from time zero on, that check. -/
structure Checking (ops : List Operation) : Prop where
  inOrder : InOrder ops
  nonneg : ∀ op ∈ ops, 0 ≤ op.timestamp
  notSet : ∀ op ∈ ops, ∀ d t, op ≠ .set d t

theorem Checking.of_concat {ops : List Operation} {op : Operation} (h : Checking (ops ++ [op])) :
    Checking ops ∧ lastTime ops ≤ op.timestamp := by
  obtain ⟨hin, -, hlast⟩ := List.pairwise_append.1 h.inOrder
  refine ⟨⟨hin, fun o ho => h.nonneg o (by simp [ho]), fun o ho => h.notSet o (by simp [ho])⟩, ?_⟩
  unfold lastTime
  cases hl : ops.getLast? with
  | none => exact h.nonneg op (by simp)
  | some o => exact hlast o (List.mem_of_getLast? hl) op (by simp)

/-- Whole runs. -/
theorem run_recent {idleTimeout : Duration} (hidle : 0 ≤ ck.count idleTimeout) {values : S}
    {ops : List Operation} (hops : Checking ops) {tm : Timer S}
    (h : run (step ck feed) (fresh idleTimeout values) ops = .ok tm) :
    Recent ck idleTimeout (lastTime ops) tm := by
  have hstart : Recent ck idleTimeout 0 (fresh idleTimeout values) :=
    ⟨rfl, le_rfl, by simp only [fresh, timePointZero]; omega, fun id i hi => by cases hi⟩
  refine run_inv (I := fun ops tm => Checking ops → Recent ck idleTimeout (lastTime ops) tm) ?_
    (fun _ => hstart) h hops
  intro ops tm op tm' hI hstep hchecking
  obtain ⟨hpre, hle⟩ := hchecking.of_concat
  rw [lastTime_concat]
  exact (hI hpre).step hidle hle (hchecking.notSet op (by simp)) hstep

/-- **Abandoned instances are reclaimed.** After each operation that checks,
at time `t`, what is held has had an event not longer than two idle timeouts
before. -/
theorem abandoned_reclaimed {idleTimeout : Duration} (hidle : 0 ≤ ck.count idleTimeout) {values : S}
    {ops : List Operation} {op : Operation} (hops : Checking (ops ++ [op])) {tm : Timer S}
    (h : run (step ck feed) (fresh idleTimeout values) (ops ++ [op]) = .ok tm) :
    ∀ id i, tm.instances id = some i → op.timestamp - 2 * ck.count idleTimeout ≤ i.heartbeatTimestamp := by
  intro id i hi
  have hrecent := run_recent hidle hops h
  rw [lastTime_concat] at hrecent
  have halive := hrecent.alive id i hi
  have hcheck := hrecent.le_check
  omega

/-- The first instance is swept at 150 only, the second not before 250. -/
theorem abandoned_reclaimed_sample :
    ∃ tm : Timer (List (Int × Int)),
      run (step ⟨.nsec, 1⟩ record) (fresh ⟨100, .nsec⟩ [])
        ([.start 1 0, .start 2 60, .discard 3 150, .heartbeat 4 240] ++ [.stop 5 249]) = .ok tm ∧
      ∀ id i, tm.instances id = some i → 249 - 2 * 100 ≤ i.heartbeatTimestamp := by
  have hops : Checking ([.start 1 0, .start 2 60, .discard 3 150, .heartbeat 4 240] ++ [.stop 5 249]) := by
    refine ⟨by simp [InOrder, Operation.timestamp], ?_, ?_⟩ <;> intro op hop <;>
      simp only [List.cons_append, List.nil_append, List.mem_cons, List.not_mem_nil, or_false] at hop <;>
      rcases hop with rfl | rfl | rfl | rfl | rfl <;> simp [Operation.timestamp]
  have hidle : 0 ≤ (⟨.nsec, 1⟩ : Clock).count ⟨100, .nsec⟩ := by decide
  obtain ⟨tm, hrun⟩ := exists_ok_of_toBool (show (run (step ⟨.nsec, 1⟩ record) (fresh ⟨100, .nsec⟩ [])
    ([.start 1 0, .start 2 60, .discard 3 150, .heartbeat 4 240] ++ [.stop 5 249])).toBool = true from rfl)
  exact ⟨tm, hrun, abandoned_reclaimed hidle hops hrun⟩

/-! ## Heartbeats out of order -/

/-- The timer after heartbeats of the instance at these times. -/
def afterHeartbeats (ck : Clock) (tm : Timer S) (id : UInt64) (times : List Int) : Timer S :=
  times.foldl (fun tm t => tm.heartbeat ck id t) tm

/-- A `stop` of the instance at `t` comes to `m_values.update`: it is noticed
when that throws. -/
def Records (ck : Clock) (tm : Timer S) (id : UInt64) (t : Int) : Prop :=
  tm.stop ck (fun _ _ _ => .error .invalidTag) id t = .error .invalidTag

/-- The latest of the start and the heartbeats. -/
def latest (s : Int) (times : List Int) : Int := times.foldl max s

/-- The last of the start and the heartbeats, in the order they are
processed. -/
def lastProcessed (s : Int) (times : List Int) : Int := times.getLast?.getD s

theorem lastProcessed_cons (s t : Int) (times : List Int) :
    lastProcessed s (t :: times) = lastProcessed t times := by
  simp [lastProcessed, List.getLast?_cons]

/-- The check leaves an instance alone that is not expired. -/
theorem checkIdleTimeout_alive {tm : Timer S} {id : UInt64} {i : InstanceState} (hi : tm.instances id = some i)
    {t : Int} (hlive : i.expired ck tm.idleTimeout t = false) (force : Bool) :
    (tm.checkIdleTimeout ck t force).instances id = some i := by
  unfold checkIdleTimeout
  split_ifs
  · exact hi
  · simp [hi, hlive]

@[simp] theorem checkIdleTimeout_idleTimeout (tm : Timer S) (t : Int) (force : Bool) :
    (tm.checkIdleTimeout ck t force).idleTimeout = tm.idleTimeout := by
  unfold checkIdleTimeout
  split_ifs <;> rfl

/-- One heartbeat in time is stored as it comes. -/
theorem heartbeat_alive {tm : Timer S} {id : UInt64} {i : InstanceState} (hi : tm.instances id = some i)
    {t : Int} (hlive : i.expired ck tm.idleTimeout t = false) :
    (tm.heartbeat ck id t).idleTimeout = tm.idleTimeout ∧
      (tm.heartbeat ck id t).instances id = some { i with heartbeatTimestamp := t } := by
  have hchecked := checkIdleTimeout_alive hi hlive false
  unfold heartbeat heartbeaten
  simp [hchecked, hlive]

section Window

variable {tm : Timer S} {id : UInt64} {s : Int}

/-- The heartbeats lie within an idle timeout of the start. -/
def Within (limit s : Int) (times : List Int) : Prop := ∀ t ∈ times, s ≤ t ∧ t ≤ s + limit

/-- **What heartbeats leave**, by induction on them: the last one's time, as
none comes when the instance is expired. -/
theorem afterHeartbeats_spec (hidle : 0 ≤ ck.count tm.idleTimeout) {h : Int}
    (hi : tm.instances id = some ⟨s, h⟩) (hh : s ≤ h) {times : List Int}
    (htimes : Within (ck.count tm.idleTimeout) s times) :
    (afterHeartbeats ck tm id times).idleTimeout = tm.idleTimeout ∧
      (afterHeartbeats ck tm id times).instances id = some ⟨s, lastProcessed h times⟩ := by
  induction times generalizing tm h with
  | nil => exact ⟨rfl, hi⟩
  | cons t times ih =>
    obtain ⟨hlo, hhi⟩ := htimes t (by simp)
    have hlive : InstanceState.expired ck ⟨s, h⟩ tm.idleTimeout t = false := by
      rw [← Bool.not_eq_true, expired_iff hidle, not_not]
      simp only
      omega
    obtain ⟨hT, hinst⟩ := heartbeat_alive hi hlive
    rw [← hT] at hidle htimes
    obtain ⟨hT', hinst'⟩ := ih hidle hinst hlo fun u hu => htimes u (by simp [hu])
    rw [lastProcessed_cons]
    exact ⟨hT'.trans hT, hinst'⟩

/-- A stop records a value just if the instance is not expired. -/
theorem records_iff (hidle : 0 ≤ ck.count tm.idleTimeout) {h : Int} (hi : tm.instances id = some ⟨s, h⟩)
    (t : Int) : Records ck tm id t ↔ t - h ≤ ck.count tm.idleTimeout := by
  have hexpired := expired_iff (t := t) (i := ⟨s, h⟩) hidle
  unfold Records stop stopped
  by_cases hlive : t - h ≤ ck.count tm.idleTimeout
  · have hnot : InstanceState.expired ck ⟨s, h⟩ tm.idleTimeout t = false := by
      rw [← Bool.not_eq_true, hexpired, not_not]
      exact hlive
    rw [checkIdleTimeout_alive hi hnot]
    simp [hnot, hlive, bind, Except.bind]
  · have hexp : InstanceState.expired ck ⟨s, h⟩ tm.idleTimeout t = true := hexpired.mpr hlive
    refine iff_of_false (fun hstop => ?_) hlive
    cases hchecked : (tm.checkIdleTimeout ck t false).instances id with
    | none =>
      rw [hchecked] at hstop
      cases hstop
    | some i =>
      have hsame : i = ⟨s, h⟩ := by
        unfold checkIdleTimeout at hchecked
        split_ifs at hchecked
        · exact Option.some.inj (hchecked.symm.trans hi)
        · simp only [hi, Option.filter_eq_some_iff] at hchecked
          exact Option.some.inj (hchecked.1.symm)
      rw [hchecked, hsame] at hstop
      simp only [checkIdleTimeout_idleTimeout, hexp, if_true] at hstop
      cases hstop

end Window

/-! ## The latest and the last -/

theorem le_latest (s : Int) (times : List Int) : s ≤ latest s times ∧ ∀ t ∈ times, t ≤ latest s times := by
  induction times generalizing s with
  | nil => simp [latest]
  | cons u times ih =>
    obtain ⟨hs, ht⟩ := ih (max s u)
    refine ⟨le_trans (le_max_left s u) hs, fun t hmem => ?_⟩
    rcases List.mem_cons.1 hmem with rfl | hmem
    · exact le_trans (le_max_right s t) hs
    · exact ht t hmem

theorem latest_mem (s : Int) (times : List Int) : latest s times = s ∨ latest s times ∈ times := by
  induction times generalizing s with
  | nil => exact .inl rfl
  | cons u times ih =>
    rcases ih (max s u) with h | h
    · have heq : latest s (u :: times) = max s u := h
      rw [heq]
      rcases max_choice s u with hm | hm
      · exact .inl hm
      · exact .inr (by rw [hm]; simp)
    · exact .inr (List.mem_cons_of_mem u h)

theorem lastProcessed_mem (s : Int) (times : List Int) :
    (times = [] ∧ lastProcessed s times = s) ∨ lastProcessed s times ∈ times := by
  unfold lastProcessed
  cases h : times.getLast? with
  | none => exact .inl ⟨List.getLast?_eq_none_iff.1 h, rfl⟩
  | some t => exact .inr (List.mem_of_getLast? h)

/-- The last one is the latest just if none is later. -/
theorem lastProcessed_eq_latest_iff {limit s : Int} {times : List Int} (htimes : Within limit s times) :
    lastProcessed s times = latest s times ↔ ∀ t ∈ times, t ≤ lastProcessed s times := by
  obtain ⟨hs, hle⟩ := le_latest s times
  constructor
  · intro h t ht
    rw [h]
    exact hle t ht
  · intro h
    rcases lastProcessed_mem s times with ⟨rfl, -⟩ | hmem
    · rfl
    · have hlo := (htimes _ hmem).1
      have hup := hle _ hmem
      rcases latest_mem s times with heq | hin
      · omega
      · have hin' := h _ hin
        omega

/-- Any of the heartbeats can come last. -/
theorem exists_last {times : List Int} {t : Int} (ht : t ∈ times) (s : Int) :
    ∃ times', times.Perm times' ∧ lastProcessed s times' = t := by
  refine ⟨times.erase t ++ [t], ?_, by simp [lastProcessed]⟩
  exact (List.perm_cons_erase ht).trans (List.perm_append_singleton t _).symm

/-- Whichever comes last, it is one of them. -/
theorem lastProcessed_perm {times times' : List Int} (hperm : times.Perm times') (s : Int) :
    times = [] ∨ lastProcessed s times' ∈ times := by
  rcases lastProcessed_mem s times' with ⟨hnil, -⟩ | hmem
  · subst hnil
    exact .inl (List.perm_nil.1 hperm)
  · exact .inr (hperm.mem_iff.2 hmem)

/-- What relates the last heartbeats of any two orders relates any two
heartbeats. -/
theorem forall_lastProcessed_iff {R : Int → Int → Prop} (hrefl : ∀ a, R a a) (s : Int) (times : List Int) :
    (∀ times' times'', times.Perm times' → times.Perm times'' →
        R (lastProcessed s times') (lastProcessed s times'')) ↔
      ∀ a ∈ times, ∀ b ∈ times, R a b := by
  constructor
  · intro h a ha b hb
    obtain ⟨as, hpa, hla⟩ := exists_last ha s
    obtain ⟨bs, hpb, hlb⟩ := exists_last hb s
    have hlast := h as bs hpa hpb
    rwa [hla, hlb] at hlast
  · intro h times' times'' hperm' hperm''
    rcases lastProcessed_perm hperm' s with hnil | hmem'
    · subst hnil
      rw [List.nil_perm.1 hperm', List.nil_perm.1 hperm'']
      exact hrefl _
    · rcases lastProcessed_perm hperm'' s with hnil | hmem''
      · rw [hnil] at hmem'
        cases hmem'
      · exact h _ hmem' _ hmem''

/-- Some order has the latest one last. -/
theorem exists_latest_last {limit s : Int} {times : List Int} (htimes : Within limit s times) :
    ∃ times', times.Perm times' ∧ lastProcessed s times' = latest s times := by
  rcases latest_mem s times with heq | hmem
  · -- None is after `s`, so all are at `s`.
    refine ⟨times, .refl _, ?_⟩
    rw [lastProcessed_eq_latest_iff htimes]
    intro t ht
    have hup := (le_latest s times).2 t ht
    rcases lastProcessed_mem s times with ⟨hnil, -⟩ | hlast
    · rw [hnil] at ht
      cases ht
    · have hlo := (htimes _ hlast).1
      omega
  · exact exists_last hmem s

/-- Every order has the latest one last just if all are equal. -/
theorem forall_last_latest_iff {limit s : Int} {times : List Int} (htimes : Within limit s times) :
    (∀ times', times.Perm times' → lastProcessed s times' = latest s times) ↔
      ∀ a ∈ times, ∀ b ∈ times, a = b := by
  rw [← forall_lastProcessed_iff (fun _ => rfl) s times]
  obtain ⟨best, hbest, hlatest⟩ := exists_latest_last htimes
  constructor
  · intro h times' times'' hperm' hperm''
    rw [h times' hperm', h times'' hperm'']
  · intro h times' hperm
    rw [h times' best hperm hbest, hlatest]

theorem Within.perm {limit s : Int} {times times' : List Int} (h : Within limit s times)
    (hperm : times.Perm times') : Within limit s times' := fun t ht => h t (hperm.mem_iff.2 ht)

/-- **When heartbeats are insensitive to delivery order.** Of a running
instance started at `s`, with heartbeats within an idle timeout of that: it is
left with the latest of `s` and the heartbeats just if the one processed last
is the latest; in every order, just if all are equal. A `stop` at `t` records
a value in all orders alike just if `t` is in time for all of them or for
none. -/
theorem heartbeats_latest_iff {tm : Timer S} (hidle : 0 ≤ ck.count tm.idleTimeout) {id : UInt64} {s : Int}
    (hi : tm.instances id = some ⟨s, s⟩) {times : List Int}
    (htimes : Within (ck.count tm.idleTimeout) s times) :
    ((afterHeartbeats ck tm id times).instances id = some ⟨s, latest s times⟩ ↔
      ∀ t ∈ times, t ≤ lastProcessed s times) ∧
    ((∀ times', times.Perm times' →
        (afterHeartbeats ck tm id times').instances id = some ⟨s, latest s times⟩) ↔
      ∀ a ∈ times, ∀ b ∈ times, a = b) ∧
    ∀ t, (∀ times' times'', times.Perm times' → times.Perm times'' →
        (Records ck (afterHeartbeats ck tm id times') id t ↔
          Records ck (afterHeartbeats ck tm id times'') id t)) ↔
      ∀ a ∈ times, ∀ b ∈ times,
        (t - a ≤ ck.count tm.idleTimeout ↔ t - b ≤ ck.count tm.idleTimeout) := by
  have hspec : ∀ times', times.Perm times' → _ := fun times' hperm =>
    afterHeartbeats_spec hidle hi le_rfl (htimes.perm hperm)
  have hrecords : ∀ times', times.Perm times' → ∀ t,
      (Records ck (afterHeartbeats ck tm id times') id t ↔
        t - lastProcessed s times' ≤ ck.count tm.idleTimeout) := by
    intro times' hperm t
    obtain ⟨hT, hinst⟩ := hspec times' hperm
    rw [← hT]
    exact records_iff (by rw [hT]; exact hidle) hinst t
  have hleft : ∀ times', times.Perm times' →
      ((afterHeartbeats ck tm id times').instances id = some ⟨s, latest s times⟩ ↔
        lastProcessed s times' = latest s times) := by
    intro times' hperm
    rw [(hspec times' hperm).2]
    simp
  refine ⟨?_, ?_, fun t => ?_⟩
  · rw [hleft times (.refl _)]
    exact lastProcessed_eq_latest_iff htimes
  · rw [← forall_last_latest_iff htimes]
    exact forall₂_congr hleft
  · rw [← forall_lastProcessed_iff (R := fun a b =>
      t - a ≤ ck.count tm.idleTimeout ↔ t - b ≤ ck.count tm.idleTimeout) (fun _ => Iff.rfl) s times]
    refine forall₄_congr fun times' times'' hperm' hperm'' => ?_
    rw [hrecords times' hperm', hrecords times'' hperm'']

/-- In order, the last heartbeat is the latest. -/
theorem heartbeats_latest_sample :
    (afterHeartbeats ⟨.nsec, 1⟩ ((fresh ⟨100, .nsec⟩ ()).started 7 0) 7 [10, 50, 90]).instances 7 =
      some ⟨0, 90⟩ :=
  (heartbeats_latest_iff (by decide) rfl (by simp [Within]; decide)).1.mpr (by decide)

/-- Heartbeats at 50 and then 10 leave 10, and a stop at 120 records nothing;
in order it does. -/
theorem heartbeat_shortens :
    (afterHeartbeats ⟨.nsec, 1⟩ ((fresh ⟨100, .nsec⟩ ()).started 7 0) 7 [50, 10]).instances 7 =
      some ⟨0, 10⟩ ∧ latest 0 [50, 10] = 50 ∧
    ¬ Records ⟨.nsec, 1⟩ (afterHeartbeats ⟨.nsec, 1⟩ ((fresh ⟨100, .nsec⟩ ()).started 7 0) 7 [50, 10]) 7 120 ∧
    Records ⟨.nsec, 1⟩ (afterHeartbeats ⟨.nsec, 1⟩ ((fresh ⟨100, .nsec⟩ ()).started 7 0) 7 [10, 50]) 7 120 := by
  refine ⟨by decide, by decide, fun h => ?_, rfl⟩
  have hreturns : (((afterHeartbeats ⟨.nsec, 1⟩ ((fresh ⟨100, .nsec⟩ ()).started 7 0) 7 [50, 10])).stop
      ⟨.nsec, 1⟩ (fun _ _ _ => .error .invalidTag) 7 120).toBool = true := rfl
  rw [Records] at h
  rw [h] at hreturns
  cases hreturns

end Handystats.Timer
