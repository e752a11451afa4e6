import Livelock.StorageTable
import Livelock.MutualExclusion

namespace Livelock.Observers

open Livelock.Lib Livelock.MemoryStorage Livelock.MemoryStorage.InMemoryLockStorage
open Livelock.StorageInvariant Livelock.StorageLease Livelock.StorageRun Livelock.StorageTable
open Livelock.MutualExclusion

/-- A way to ask the storage whether a lock is held. -/
inductive Observer
  | locked
  | find (pattern : String)
  | acquire (clientId : ClientId)
  | addSignal (signal : Signal)
  | hasSignal (signal : Signal)
  | removeSignal (signal : Signal)

namespace Observer

def op (l : LockId) : Observer → Op
  | locked => .locked l
  | find pattern => .find pattern
  | acquire c => .acquire c l false
  | addSignal signal => .addSignal l signal
  | hasSignal signal => .hasSignal l signal
  | removeSignal signal => .removeSignal l signal

def affirms (l : LockId) : Observer → Answer → Prop
  | locked, answer => answer = .bool true
  | find _, answer => ∃ locks time, answer = .found locks ∧ (l, time) ∈ locks
  | acquire _, answer => answer = .bool false
  | _, answer => answer ≠ .signal .keyNotExists

def Fits (fnmatch : String → String → Bool) (l : LockId) : Observer → Prop
  | find pattern => fnmatch l pattern = true
  | _ => True

/-- Asked first at `now`, the observer finds `l` held. -/
def Says (fnmatch : String → String → Bool) (o : Observer) (s : InMemoryLockStorage) (now : Time)
    (l : LockId) : Prop :=
  ∃ answer s' clk', exec fnmatch (o.op l) s ⟨fun _ => now, 0⟩ = .ok (answer, s', clk') ∧
    o.affirms l answer

end Observer

/-- All observers of `l` say the same at `now`. -/
def Agree (fnmatch : String → String → Bool) (s : InMemoryLockStorage) (now : Time) (l : LockId) :
    Prop :=
  ∀ o o' : Observer, o.Fits fnmatch l → o'.Fits fnmatch l →
    (o.Says fnmatch s now l ↔ o'.Says fnmatch s now l)

variable {fnmatch : String → String → Bool} {s : InMemoryLockStorage} {now : Time} {l : LockId}

theorem says_iff {o : Observer} {answer : Answer} {s' : InMemoryLockStorage} {clk' : Clock}
    (heq : exec fnmatch (o.op l) s ⟨fun _ => now, 0⟩ = .ok (answer, s', clk')) :
    o.Says fnmatch s now l ↔ o.affirms l answer := by
  constructor
  · rintro ⟨answer', s'', clk'', heq', ha⟩
    rw [heq] at heq'
    cases heq'
    exact ha
  · intro ha
    exact ⟨answer, s', clk', heq, ha⟩

theorem live_isSome_iff (t : Table) : (t.live now l).isSome ↔ ∃ h, t l = some h ∧ late now h.info = false := by
  cases hl : t l with
  | none => simp [live_of_none now hl]
  | some h => cases he : late now h.info <;> simp [live_eq t now hl, he]

theorem says_find (hs : Rep s) {pattern : String} (hfit : fnmatch l pattern = true) :
    (Observer.find pattern).Says fnmatch s now l ↔ ((holding s).live now l).isSome := by
  have hexec : exec fnmatch (.find pattern) s ⟨fun _ => now, 0⟩ =
      .ok (.found (s.find fnmatch ⟨fun _ => now, 0⟩ pattern).1, s, _) := rfl
  have hfound : ∀ time, (l, time) ∈ (s.find fnmatch ⟨fun _ => now, 0⟩ pattern).1 ↔
      ∃ r, s.allLocks.get? l = some r ∧ late now (s.objects r) = false ∧
        (s.objects r).time = time := by
    intro time
    rw [find, findIn_standing fnmatch now pattern s.objects s.allLocks.items ⟨fun _ => now, 0⟩ rfl]
    simp only [List.mem_map, List.mem_filter, Bool.and_eq_true, Bool.not_eq_true', Prod.exists,
      Prod.mk.injEq, Dict.mem_items]
    constructor
    · rintro ⟨_, r, ⟨hr, hlate, -⟩, rfl, htime⟩
      exact ⟨r, hr, hlate, htime⟩
    · rintro ⟨r, hr, hlate, htime⟩
      exact ⟨l, r, ⟨hr, hlate, hfit⟩, rfl, htime⟩
  rw [says_iff hexec, live_isSome_iff]
  constructor
  · rintro ⟨locks, time, he, hmem⟩
    obtain rfl := Answer.found.inj he
    obtain ⟨r, hr, hlate, -⟩ := (hfound time).mp hmem
    obtain ⟨c, hc⟩ := hs.owned hr
    exact ⟨_, holding_eq hc hr, hlate⟩
  · rintro ⟨h, hl, hlate⟩
    obtain ⟨-, r, hr, hobj⟩ := holding_some hl
    exact ⟨_, (s.objects r).time, rfl, (hfound _).mpr ⟨r, hr, hobj ▸ hlate, rfl⟩⟩

theorem says_locked (hs : Rep s) :
    Observer.locked.Says fnmatch s now l ↔ ((holding s).live now l).isSome := by
  obtain ⟨answer, s', clk', heq, hstep⟩ := exec_refines fnmatch hs (.locked l) ⟨fun _ => now, 0⟩
  rw [says_iff (o := .locked) heq]
  generalize holding s' = t' at hstep
  cases hstep with
  | locked _ hlive =>
    rw [show (holding s).live now l = holding s l from hlive]
    simp [Observer.affirms]
  | lockedLate _ hlive =>
    rw [show (holding s).live now l = none from hlive]
    simp [Observer.affirms]

theorem says_acquire (hs : Rep s) (c : ClientId) :
    (Observer.acquire c).Says fnmatch s now l ↔ ((holding s).live now l).isSome := by
  obtain ⟨answer, s', clk', heq, hstep⟩ :=
    exec_refines fnmatch hs (.acquire c l false) ⟨fun _ => now, 0⟩
  rw [says_iff (o := .acquire c) heq]
  generalize holding s' = t' at hstep
  cases hstep with
  | held _ _ _ h hlive =>
    rw [show (holding s).live now l = some h from hlive]
    simp [Observer.affirms]
  | created _ _ _ _ hlive =>
    rw [show (holding s).live now l = none from hlive]
    simp [Observer.affirms]

def Observer.OfSignals : Observer → Prop
  | addSignal _ | hasSignal _ | removeSignal _ => True
  | _ => False

theorem says_live (hs : Rep s) {o : Observer} (hfit : o.Fits fnmatch l) (ho : ¬ o.OfSignals) :
    o.Says fnmatch s now l ↔ ((holding s).live now l).isSome := by
  cases o with
  | locked => exact says_locked hs
  | find pattern => exact says_find hs hfit
  | acquire c => exact says_acquire hs c
  | addSignal | hasSignal | removeSignal => exact absurd trivial ho

theorem says_signal (hs : Rep s) {o : Observer} (ho : o.OfSignals) :
    o.Says fnmatch s now l ↔ (holding s l).isSome := by
  obtain ⟨answer, s', clk', heq, hstep⟩ := exec_refines fnmatch hs (o.op l) ⟨fun _ => now, 0⟩
  rw [says_iff heq]
  generalize holding s' = t' at hstep
  cases o with
  | locked | find | acquire => exact ho.elim
  | addSignal signal => cases hstep <;> simp [Observer.affirms, *]
  | hasSignal signal => cases hstep <;> simp [Observer.affirms, *]
  | removeSignal signal => cases hstep <;> simp [Observer.affirms, *]

theorem overdue_iff : Overdue now (lease s l) ↔
    (holding s l).isSome ∧ ¬ ((holding s).live now l).isSome := by
  rw [lease_holding, live_isSome_iff]
  cases hl : holding s l with
  | none => simp [Overdue]
  | some h => cases hm : h.info.markFreeAfter <;> simp [Overdue, late, hm]

/-- In every storage that operations can lead to, all observers of a lock
agree at `now` exactly unless its deadline has been reached and its entry is
still there: the signals are then still answered for. -/
theorem observers_agree (T : Time) (requests : List Request)
    (hs : execAll fnmatch requests (empty T) = .ok s) (now : Time) (l : LockId) :
    Agree fnmatch s now l ↔ ¬ Overdue now (lease s l) := by
  obtain ⟨s', heq, hrep⟩ := execAll_rep fnmatch (rep_empty T) requests
  rw [hs] at heq
  cases heq
  rw [overdue_iff]
  constructor
  · intro h
    have hboth := h .locked (.hasSignal "") trivial trivial
    rw [says_live (o := .locked) hrep trivial id, says_signal (o := .hasSignal "") hrep trivial] at hboth
    exact fun hov => hov.2 (hboth.mpr hov.1)
  · intro h
    have hsame : ((holding s).live now l).isSome ↔ (holding s l).isSome := by
      constructor
      · intro hlive
        obtain ⟨h', hl, -⟩ := (live_isSome_iff _).mp hlive
        rw [hl]
        rfl
      · intro hl
        by_contra hnot
        exact h ⟨hl, hnot⟩
    have hall : ∀ o : Observer, o.Fits fnmatch l →
        (o.Says fnmatch s now l ↔ (holding s l).isSome) := by
      intro o hfit
      by_cases ho : o.OfSignals
      · exact says_signal hrep ho
      · exact (says_live hrep hfit ho).trans hsame
    exact fun o o' hfit hfit' => (hall o hfit).trans (hall o' hfit').symm

def suspended : InMemoryLockStorage :=
  (((empty 5).createLock ⟨fun _ => 0, 0⟩ alice "l").releaseAll ⟨fun _ => 0, 0⟩ alice none).1

theorem expired_signal_answers :
    execAll (fun _ _ => false) [⟨.acquire alice "l" false, fun _ => 0⟩,
      ⟨.releaseAll alice none, fun _ => 0⟩] (empty 5) = .ok suspended ∧
        ¬ Agree (fun _ _ => false) suspended 5 "l" := by
  have hrep : Rep suspended := rep_releaseAll (rep_createLock (rep_empty 5) _ alice rfl) _ alice none
  refine ⟨rfl, fun h => ?_⟩
  have hboth := h .locked (.hasSignal "go") trivial trivial
  rw [says_locked hrep, says_signal (o := .hasSignal "go") hrep trivial] at hboth
  exact absurd (hboth.mpr rfl) (by decide +kernel)

theorem observers_agree_held : Agree (fun _ _ => false)
    ((empty 5).createLock ⟨fun _ => 0, 0⟩ alice "l") 5 "l" ↔
      ¬ Overdue 5 (lease ((empty 5).createLock ⟨fun _ => 0, 0⟩ alice "l") "l") :=
  observers_agree 5 [⟨.acquire alice "l" false, fun _ => 0⟩] rfl 5 "l"

end Livelock.Observers
