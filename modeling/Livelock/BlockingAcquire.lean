import Livelock.Client
import Livelock.Lib.Waning
import Mathlib.Algebra.Order.BigOperators.Group.Finset
import Mathlib.Data.Rat.Floor

namespace Livelock.BlockingAcquire

open Livelock.Lib Livelock.MemoryStorage
open Livelock.Client (LiveLock)

/-- How much time passes while a client waits, apart from what it asks to sleep. -/
structure Delays where
  /-- The time that a request takes, the first of all included. -/
  attempt : Nat → Time
  /-- The time between the two readings of the clock in a round. -/
  gap : Nat → Time
  /-- The time by which the sleep in a round is longer than asked for. -/
  late : Nat → Time
  attempt_nonneg : ∀ i, 0 ≤ attempt i
  gap_nonneg : ∀ i, 0 ≤ gap i
  late_nonneg : ∀ i, 0 ≤ late i

inductive Outcome
  | returned (acquired : Bool)
  | timedOut (timeout : Time)
  | raised (msg : String)
deriving DecidableEq

/-- How a call of `acquire` ends, after how many requests and when. -/
structure Ending where
  outcome : Outcome
  requests : Nat
  time : Time
  lock : LiveLock

def sleepTime (retryInterval left : Time) : Time :=
  let sleep := if left ≤ 0 then 0 else left
  if sleep < retryInterval then sleep / 2 else retryInterval

section

variable (lock : LiveLock) (retryInterval : Time) (d : Delays) (answer : Nat → Bool)

/-- The loop of `acquire`, from the reading of the clock in its condition. -/
def waitLoop (deadline : Time) : Nat → Nat → Time → Option Ending
  | 0, _, _ => none
  | fuel + 1, i, now =>
    if lock.timeout ≤ 0 ∨ now < deadline then
      let sleep := if lock.timeout ≤ 0 then retryInterval else sleepTime retryInterval (deadline - (now + d.gap i))
      let now := now + d.gap i + (sleep + d.late i) + d.attempt (i + 1)
      if answer (i + 1) then some ⟨.returned true, i + 2, now, { lock with acquired := true }⟩
      else waitLoop deadline fuel (i + 1) now
    else some ⟨.timedOut lock.timeout, i + 1, now, lock⟩

/-- `acquire`, with the answers that its requests are going to get. It comes to
no end when the fuel runs out. -/
def acquire (start : Time) (blocking : Option Bool) (fuel : Nat) : Option Ending :=
  if lock.timeout < 0 then some ⟨.raised "Acquire timeout must be positive", 0, start, lock⟩
  else
    let now := start + d.attempt 0
    if blocking.getD lock.blocking then
      if answer 0 then some ⟨.returned true, 1, now, { lock with acquired := true }⟩
      else waitLoop lock retryInterval d answer (start + lock.timeout) fuel 0 now
    else some ⟨.returned (answer 0), 1, now, { lock with acquired := answer 0 }⟩

end

variable (lock : LiveLock) (retryInterval : Time) (d : Delays) (start : Time)

/-- As long as the lock stays taken the client sends a bounded number of
requests and then raises, not before the deadline. -/
def GivesUp : Prop :=
  ∃ fuel e, acquire lock retryInterval d (fun _ => false) start (some true) fuel = some e ∧
    e.outcome = .timedOut lock.timeout ∧ e.requests ≤ ⌈lock.timeout / retryInterval⌉₊ + 2 ∧
    start + lock.timeout ≤ e.time

/-- When the lock becomes free the client returns with the first request that
finds it so, unless it has raised before. -/
def Succeeds : Prop :=
  ∀ answer m, (∀ i < m, answer i = false) → answer m = true →
    ∃ fuel e, acquire lock retryInterval d answer start (some true) fuel = some e ∧
      (e.outcome = .returned true ∧ e.requests = m + 1 ∧ e.lock = { lock with acquired := true } ∨
        e.outcome = .timedOut lock.timeout ∧ e.requests ≤ m ∧ start + lock.timeout ≤ e.time)

def Delays.after (d : Delays) (i : Nat) : Time := d.late i + d.attempt (i + 1)

def leftAfter (timeout : Time) (j : Nat) : Time :=
  timeout - d.attempt 0 - ∑ i ∈ Finset.range j, (retryInterval + d.gap i + d.after i)

def Elapses (timeout : Time) : Prop :=
  ∃ j ≤ ⌈timeout / retryInterval⌉₊,
    (∀ i < j, retryInterval ≤ leftAfter retryInterval d timeout i - d.gap i) ∧
    leftAfter retryInterval d timeout j - d.gap j < retryInterval ∧
    leftAfter retryInterval d timeout j ≤ Wanes.spent (fun i => d.gap (j + i)) (fun i => d.after (j + i))
      (⌈timeout / retryInterval⌉₊ + 1 - j)

variable {lock retryInterval d start} {answer : Nat → Bool} {deadline : Time}

/-- What is left of the timeout at the start of each round of a lock that stays
taken. -/
def left (timeout retryInterval : Time) (d : Delays) : Nat → Time
  | 0 => timeout - d.attempt 0
  | i + 1 =>
    let before := left timeout retryInterval d i - d.gap i
    before - sleepTime retryInterval before - d.after i

theorem sleepTime_nonneg (hr : 0 ≤ retryInterval) (t : Time) : 0 ≤ sleepTime retryInterval t := by
  have hcut : 0 ≤ if t ≤ 0 then 0 else t := by
    split
    · exact le_rfl
    · next ht => exact (not_le.mp ht).le
  simp only [sleepTime]
  generalize (if t ≤ 0 then 0 else t) = sleep at hcut ⊢
  split
  · exact div_nonneg hcut zero_le_two
  · exact hr

theorem after_nonneg (d : Delays) (i : Nat) : 0 ≤ d.after i :=
  add_nonneg (d.late_nonneg i) (d.attempt_nonneg (i + 1))

theorem sleepTime_whole {t : Time} (hr : 0 < retryInterval) (h : retryInterval ≤ t) :
    sleepTime retryInterval t = retryInterval := by
  have hpos : ¬ t ≤ 0 := not_le.mpr (hr.trans_le h)
  simp only [sleepTime, if_neg hpos, if_neg (not_lt.mpr h)]

theorem sleepTime_half {t : Time} (hpos : 0 < t) (h : t < retryInterval) :
    sleepTime retryInterval t = t / 2 := by
  simp only [sleepTime, if_neg (not_le.mpr hpos), if_pos h]

theorem left_antitone (hr : 0 ≤ retryInterval) (timeout : Time) :
    Antitone (left timeout retryInterval d) := by
  apply antitone_nat_of_succ_le
  intro i
  have hgap := d.gap_nonneg i
  have hafter := after_nonneg d i
  have hsleep := sleepTime_nonneg hr (left timeout retryInterval d i - d.gap i)
  rw [left]
  linarith

theorem waitLoop_succ (hT : 0 < lock.timeout) (fuel i : Nat) :
    waitLoop lock retryInterval d answer deadline (fuel + 1) i (deadline - left lock.timeout retryInterval d i) =
      if 0 < left lock.timeout retryInterval d i then
        if answer (i + 1) then
          some ⟨.returned true, i + 2, deadline - left lock.timeout retryInterval d (i + 1),
            { lock with acquired := true }⟩
        else waitLoop lock retryInterval d answer deadline fuel (i + 1)
          (deadline - left lock.timeout retryInterval d (i + 1))
      else some ⟨.timedOut lock.timeout, i + 1, deadline - left lock.timeout retryInterval d i, lock⟩ := by
  have hgo : (lock.timeout ≤ 0 ∨ deadline - left lock.timeout retryInterval d i < deadline) ↔
      0 < left lock.timeout retryInterval d i := by
    rw [or_iff_right (not_le.mpr hT), sub_lt_self_iff]
  have hbefore : deadline - (deadline - left lock.timeout retryInterval d i + d.gap i) =
      left lock.timeout retryInterval d i - d.gap i := by ring
  have hnext : deadline - left lock.timeout retryInterval d i + d.gap i +
      (sleepTime retryInterval (left lock.timeout retryInterval d i - d.gap i) + d.late i) + d.attempt (i + 1) =
      deadline - left lock.timeout retryInterval d (i + 1) := by
    rw [left, Delays.after]
    ring
  simp only [waitLoop, hgo, if_neg (not_le.mpr hT), hbefore, hnext]

theorem waitLoop_ends (hT : 0 < lock.timeout) {m : Nat} (hover : left lock.timeout retryInterval d m ≤ 0)
    (hans : ∀ j ≤ m, answer j = false) (n i : Nat) (hn : i + n = m) :
    ∃ e, waitLoop lock retryInterval d answer deadline (n + 1) i
        (deadline - left lock.timeout retryInterval d i) = some e ∧
      e.outcome = .timedOut lock.timeout ∧ e.requests ≤ m + 1 ∧ deadline ≤ e.time := by
  have hdone : ∀ {i}, i ≤ m → ¬ 0 < left lock.timeout retryInterval d i → ∃ e : Ending,
      some ⟨.timedOut lock.timeout, i + 1, deadline - left lock.timeout retryInterval d i, lock⟩ = some e ∧
      e.outcome = .timedOut lock.timeout ∧ e.requests ≤ m + 1 ∧ deadline ≤ e.time :=
    fun hi hleft => ⟨_, rfl, rfl, Nat.succ_le_succ hi, (le_sub_self_iff _).mpr (not_lt.mp hleft)⟩
  induction n generalizing i with
  | zero =>
    obtain rfl : i = m := hn
    rw [waitLoop_succ hT, if_neg (not_lt.mpr hover)]
    exact hdone le_rfl (not_lt.mpr hover)
  | succ n ih =>
    rw [waitLoop_succ hT]
    split
    · have hanswer : answer (i + 1) = false := hans (i + 1) (by omega)
      rw [hanswer, if_neg Bool.false_ne_true]
      exact ih (i + 1) (by omega)
    · next hleft => exact hdone (by omega) hleft

theorem waitLoop_over (hT : 0 < lock.timeout) {fuel i : Nat} {e : Ending}
    (h : waitLoop lock retryInterval d (fun _ => false) deadline fuel i
      (deadline - left lock.timeout retryInterval d i) = some e) :
    ∃ m, e.requests = m + 1 ∧ left lock.timeout retryInterval d m ≤ 0 := by
  induction fuel generalizing i with
  | zero => cases h
  | succ fuel ih =>
    rw [waitLoop_succ hT] at h
    split at h
    · exact ih h
    · next hleft =>
      cases h
      exact ⟨i, rfl, not_lt.mp hleft⟩

theorem acquire_blocking (hT : 0 < lock.timeout) (answer : Nat → Bool) (fuel : Nat) :
    acquire lock retryInterval d answer start (some true) fuel =
      if answer 0 then some ⟨.returned true, 1, start + d.attempt 0, { lock with acquired := true }⟩
      else waitLoop lock retryInterval d answer (start + lock.timeout) fuel 0
        (start + lock.timeout - left lock.timeout retryInterval d 0) := by
  have hnow : start + d.attempt 0 = start + lock.timeout - left lock.timeout retryInterval d 0 := by
    rw [left]
    ring
  simp only [acquire, if_neg (not_lt.mpr hT.le), Option.getD_some, if_true, hnow]

theorem givesUp_iff (hT : 0 < lock.timeout) (hr : 0 < retryInterval) :
    GivesUp lock retryInterval d start ↔
      left lock.timeout retryInterval d (⌈lock.timeout / retryInterval⌉₊ + 1) ≤ 0 := by
  constructor
  · rintro ⟨fuel, e, he, -, hrequests, -⟩
    rw [acquire_blocking hT, if_neg Bool.false_ne_true] at he
    obtain ⟨m, hm, hover⟩ := waitLoop_over hT he
    have hle : m ≤ ⌈lock.timeout / retryInterval⌉₊ + 1 := by omega
    exact le_trans (left_antitone hr.le _ hle) hover
  · intro hover
    obtain ⟨e, he, hend⟩ := waitLoop_ends hT hover (fun _ _ => rfl) _ 0 (Nat.zero_add _)
    refine ⟨⌈lock.timeout / retryInterval⌉₊ + 1 + 1, e, ?_, hend⟩
    rw [acquire_blocking hT, if_neg Bool.false_ne_true]
    exact he

theorem waitLoop_succeeds (hT : 0 < lock.timeout) {m : Nat} (hm : answer (m + 1) = true) (n i : Nat)
    (hn : i + n = m) (hans : ∀ j ≤ m, answer j = false) :
    ∃ e, waitLoop lock retryInterval d answer deadline (n + 1) i
        (deadline - left lock.timeout retryInterval d i) = some e ∧
      (e.outcome = .returned true ∧ e.requests = m + 2 ∧ e.lock = { lock with acquired := true } ∨
        e.outcome = .timedOut lock.timeout ∧ e.requests ≤ m + 1 ∧ deadline ≤ e.time) := by
  induction n generalizing i with
  | zero =>
    obtain rfl : i = m := hn
    rw [waitLoop_succ hT]
    split
    · exact ⟨_, rfl, .inl ⟨rfl, rfl, rfl⟩⟩
    · next hleft => exact ⟨_, rfl, .inr ⟨rfl, le_rfl, (le_sub_self_iff _).mpr (not_lt.mp hleft)⟩⟩
  | succ n ih =>
    rw [waitLoop_succ hT]
    split
    · have hanswer : answer (i + 1) = false := hans (i + 1) (by omega)
      rw [hanswer, if_neg Bool.false_ne_true]
      exact ih (i + 1) (by omega)
    · next hleft =>
      refine ⟨_, rfl, .inr ⟨rfl, ?_, (le_sub_self_iff _).mpr (not_lt.mp hleft)⟩⟩
      exact Nat.succ_le_succ (by omega)

theorem succeeds (hT : 0 < lock.timeout) : Succeeds lock retryInterval d start := by
  intro answer m hans hm
  cases m with
  | zero =>
    refine ⟨0, ⟨.returned true, 1, start + d.attempt 0, { lock with acquired := true }⟩, ?_, .inl ⟨rfl, rfl, rfl⟩⟩
    rw [acquire_blocking hT, if_pos hm]
  | succ m =>
    obtain ⟨e, he, hend⟩ := waitLoop_succeeds hT hm m 0 (Nat.zero_add m)
      fun j hj => hans j (Nat.lt_succ_of_le hj)
    refine ⟨m + 1, e, ?_, hend⟩
    rw [acquire_blocking hT, hans 0 (Nat.succ_pos m), if_neg Bool.false_ne_true]
    exact he

theorem left_whole (hr : 0 < retryInterval) {timeout : Time} {j : Nat}
    (hwhole : ∀ i < j, retryInterval ≤ leftAfter retryInterval d timeout i - d.gap i) :
    ∀ i ≤ j, left timeout retryInterval d i = leftAfter retryInterval d timeout i := by
  intro i hi
  induction i with
  | zero => rw [left, leftAfter, Finset.sum_range_zero, sub_zero]
  | succ i ih =>
    rw [left]
    simp only [ih (Nat.le_of_succ_le hi), sleepTime_whole hr (hwhole i hi)]
    rw [leftAfter, leftAfter, Finset.sum_range_succ]
    ring

theorem left_wanes (hr : 0 < retryInterval) {timeout : Time} {j : Nat}
    (hshort : left timeout retryInterval d j - d.gap j < retryInterval) :
    Wanes (fun m => left timeout retryInterval d (j + m)) (fun m => d.gap (j + m)) fun m => d.after (j + m) := by
  have hbefore : ∀ m, left timeout retryInterval d (j + m) - d.gap (j + m) < retryInterval := by
    intro m
    cases m with
    | zero => exact hshort
    | succ m =>
      have hlater : left timeout retryInterval d (j + (m + 1)) ≤ left timeout retryInterval d (j + 1) :=
        left_antitone hr.le _ (Nat.add_le_add_left (Nat.succ_pos m) j)
      have hgap := d.gap_nonneg (j + (m + 1))
      have hafter := after_nonneg d j
      have hsleep := sleepTime_nonneg hr.le (left timeout retryInterval d j - d.gap j)
      rw [left] at hlater
      linarith
  have hsucc : ∀ m, left timeout retryInterval d (j + (m + 1)) =
      left timeout retryInterval d (j + m) - d.gap (j + m) -
        sleepTime retryInterval (left timeout retryInterval d (j + m) - d.gap (j + m)) - d.after (j + m) :=
    fun m => rfl
  constructor
  · exact fun m => d.gap_nonneg (j + m)
  · exact fun m => after_nonneg d (j + m)
  · intro m hlt
    rw [hsucc, sleepTime_half (sub_pos.mpr hlt) (hbefore m)]
    ring
  · intro m hle
    have hafter := after_nonneg d (j + m)
    have hsleep := sleepTime_nonneg hr.le (left timeout retryInterval d (j + m) - d.gap (j + m))
    rw [hsucc]
    linarith

/-- Rounds with a whole interval left are followed by rounds that wane. -/
theorem left_elapses (hr : 0 < retryInterval) {timeout : Time} {j n : Nat} (hj : j ≤ n)
    (hwhole : ∀ i < j, retryInterval ≤ leftAfter retryInterval d timeout i - d.gap i)
    (hshort : leftAfter retryInterval d timeout j - d.gap j < retryInterval) :
    left timeout retryInterval d n ≤ 0 ↔ leftAfter retryInterval d timeout j ≤
      Wanes.spent (fun i => d.gap (j + i)) (fun i => d.after (j + i)) (n - j) := by
  have hstart : left timeout retryInterval d j = leftAfter retryInterval d timeout j :=
    left_whole hr hwhole j le_rfl
  rw [← hstart] at hshort ⊢
  have hiff := (left_wanes hr hshort).nonpos_iff (n - j)
  rwa [Nat.add_sub_cancel' hj] at hiff

theorem leftAfter_le (retryInterval timeout : Time) (d : Delays) (j : Nat) :
    leftAfter retryInterval d timeout j ≤ timeout - j * retryInterval := by
  have hsum : (j : Time) * retryInterval ≤ ∑ i ∈ Finset.range j, (retryInterval + d.gap i + d.after i) := by
    rw [← nsmul_eq_mul, ← Finset.card_range j, ← Finset.sum_const, Finset.card_range]
    refine Finset.sum_le_sum fun i _ => ?_
    have hgap := d.gap_nonneg i
    have hafter := after_nonneg d i
    linarith
  have hfirst := d.attempt_nonneg 0
  rw [leftAfter]
  linarith

theorem exists_short (hr : 0 < retryInterval) (timeout : Time) (d : Delays) :
    ∃ j ≤ ⌈timeout / retryInterval⌉₊,
      (∀ i < j, retryInterval ≤ leftAfter retryInterval d timeout i - d.gap i) ∧
      leftAfter retryInterval d timeout j - d.gap j < retryInterval := by
  have hlast : leftAfter retryInterval d timeout ⌈timeout / retryInterval⌉₊ -
      d.gap ⌈timeout / retryInterval⌉₊ < retryInterval := by
    have hle := leftAfter_le retryInterval timeout d ⌈timeout / retryInterval⌉₊
    have hgap := d.gap_nonneg ⌈timeout / retryInterval⌉₊
    have hceil : timeout ≤ ⌈timeout / retryInterval⌉₊ * retryInterval := (div_le_iff₀ hr).mp (Nat.le_ceil _)
    linarith
  classical
  have hex : ∃ j, leftAfter retryInterval d timeout j - d.gap j < retryInterval := ⟨_, hlast⟩
  exact ⟨Nat.find hex, Nat.find_min' hex hlast, fun i hi => not_lt.mp (Nat.find_min hex hi), Nat.find_spec hex⟩

theorem elapses_iff (hr : 0 < retryInterval) (timeout : Time) :
    Elapses retryInterval d timeout ↔ left timeout retryInterval d (⌈timeout / retryInterval⌉₊ + 1) ≤ 0 := by
  constructor
  · rintro ⟨j, hj, hwhole, hshort, hspent⟩
    exact (left_elapses hr (Nat.le_succ_of_le hj) hwhole hshort).mpr hspent
  · intro hover
    obtain ⟨j, hj, hwhole, hshort⟩ := exists_short hr timeout d
    exact ⟨j, hj, hwhole, hshort, (left_elapses hr (Nat.le_succ_of_le hj) hwhole hshort).mp hover⟩

def exact : Delays where
  attempt _ := 0
  gap _ := 0
  late _ := 0
  attempt_nonneg _ := le_rfl
  gap_nonneg _ := le_rfl
  late_nonneg _ := le_rfl

theorem leftAfter_exact (timeout : Time) (j : Nat) :
    leftAfter retryInterval exact timeout j = timeout - j * retryInterval := by
  simp [leftAfter, Delays.after, exact]

/-- Where nothing takes time but sleep, the client asks for a lock that stays taken
without end, unless its timeout is made up of whole intervals. -/
theorem exact_endless (hT : 0 < lock.timeout) (hr : 0 < retryInterval)
    (hwhole : ∀ m : Nat, lock.timeout ≠ m * retryInterval) (fuel : Nat) :
    acquire lock retryInterval exact (fun _ => false) start (some true) fuel = none := by
  refine Option.eq_none_iff_forall_ne_some.mpr fun e he => ?_
  rw [acquire_blocking hT, if_neg Bool.false_ne_true] at he
  obtain ⟨m, -, hover⟩ := waitLoop_over hT he
  obtain ⟨j, -, hbefore, hshort⟩ := exists_short hr lock.timeout exact
  have hlate : left lock.timeout retryInterval exact (max m j) ≤ 0 :=
    le_trans (left_antitone hr.le _ (le_max_left m j)) hover
  have hspent := (left_elapses hr (le_max_right m j) hbefore hshort).mp hlate
  simp only [leftAfter_exact] at hbefore hspent
  have hnone : Wanes.spent (fun i => exact.gap (j + i)) (fun i => exact.after (j + i)) (max m j - j) = 0 := by
    simp [Wanes.spent, exact, Delays.after]
  rw [hnone] at hspent
  cases j with
  | zero =>
    rw [Nat.cast_zero] at hspent
    linarith
  | succ j =>
    have hlast := hbefore j (Nat.lt_succ_self j)
    refine hwhole (j + 1) (le_antisymm (by linarith) ?_)
    have hgap : exact.gap j = 0 := rfl
    rw [hgap] at hlast
    push_cast
    linarith

def fiveSeconds : LiveLock where
  id := "l"
  reentrant := false
  blocking := true
  timeout := 5
  acquired := false

theorem fiveSeconds_ceil : ⌈fiveSeconds.timeout / 1⌉₊ = 5 := by
  rw [div_one]
  exact Nat.ceil_natCast 5

/-- A blocking `acquire` keeps to its number of requests when the delays of the
rounds at the end come up to what is left, and only then. -/
theorem acquire_bounded (hT : 0 < lock.timeout) (hr : 0 < retryInterval) :
    GivesUp lock retryInterval d start ∧ Succeeds lock retryInterval d start ↔
      Elapses retryInterval d lock.timeout := by
  rw [and_iff_left (succeeds hT), givesUp_iff hT hr, elapses_iff hr]

theorem acquire_bounded_exact : GivesUp fiveSeconds 1 exact 0 ∧ Succeeds fiveSeconds 1 exact 0 := by
  refine (acquire_bounded (by decide) (by decide)).mpr ⟨5, fiveSeconds_ceil.ge, fun i hi => ?_, ?_, ?_⟩
  · have hcast : (i : Time) ≤ 4 := by exact_mod_cast Nat.le_of_lt_succ hi
    have hleft : leftAfter 1 exact fiveSeconds.timeout i = fiveSeconds.timeout - i * 1 := leftAfter_exact _ i
    have htimeout : fiveSeconds.timeout = 5 := rfl
    have hgap : exact.gap i = 0 := rfl
    linarith
  · decide +kernel
  · rw [fiveSeconds_ceil]
    decide +kernel

def hundredth : Delays where
  attempt _ := 1 / 100
  gap _ := 0
  late _ := 0
  attempt_nonneg _ := by norm_num
  gap_nonneg _ := le_rfl
  late_nonneg _ := le_rfl

/-- The client still has time left after its seventh request, and sends another
four. -/
theorem acquire_exceeds : ¬ ∀ (lock : LiveLock) (retryInterval : Time) (d : Delays) (start : Time),
    0 < lock.timeout → 0 < retryInterval →
      GivesUp lock retryInterval d start ∧ Succeeds lock retryInterval d start := by
  intro h
  have hgives : GivesUp fiveSeconds 1 hundredth 0 := (h fiveSeconds 1 hundredth 0 (by decide) (by decide)).1
  have hover := (givesUp_iff (by decide) (by decide)).mp hgives
  have hleft : 0 < left fiveSeconds.timeout 1 hundredth (5 + 1) := by decide +kernel
  rw [fiveSeconds_ceil] at hover
  exact absurd hover (not_le.mpr hleft)

example : (acquire fiveSeconds 1 hundredth (fun _ => false) 0 (some true) 20).map
    (fun e => (e.outcome, e.requests)) = some (.timedOut 5, 11) := by decide +kernel

end Livelock.BlockingAcquire
