import Livelock.FinalDump

namespace Livelock.ConsistentDumps

open Livelock.Lib Livelock.Shared Livelock.MemoryStorage Livelock.StorageInvariant Livelock.StorageRun
open Livelock.Server Livelock.Ascii Livelock.Interrupts Livelock.InterruptedRun
open Livelock.InterruptedServer Livelock.FinalDump
open Livelock.MemoryStorage.InMemoryLockStorage (empty)

variable {py : Builtins} {cfg : Config} {s d : InMemoryLockStorage} {clk : Clock} {tasks : List Task}
  {w : World}

/-- Where no signal arrives in the middle of a deletion without a guard, no dump
is taken in the middle of an update. -/
theorem dumps_consistent (hs : Rep s)
    (hrun : Run (Does (fun w => ¬ Unsheltered w) py cfg) (.start s clk) tasks w)
    (hd : .dumped d ∈ w.log) : Rep d := by
  have hspares : (fun w => ¬ Unsheltered w) = Spares True :=
    funext fun w => propext ⟨fun h _ => h, fun h => h trivial⟩
  rw [hspares] at hrun
  obtain ⟨-, hcalm⟩ | ⟨-, b, hgone⟩ := alive_run (fun _ => hs) hrun
  · exact hcalm.within.base.consistent trivial d hd
  · exact hgone.base.consistent trivial d hd

def lateClock : Clock := ⟨fun n => if n < 2 then 0 else 100, 0⟩

/-- A lock is acquired, its connection is lost, and after its grace time another
client asks whether it is locked, with a signal after `n` steps of that. -/
noncomputable def lateLocked (arrives : World → Prop) [DecidablePred arrives] (n m : Nat) :
    Option World := do
  let command := fun verb => Task.command aliceSession carol (.bytes (encode verb)) (words ["l"])
  let w ← (World.start (empty 5) lateClock).next arrives ascii plainConfig (command "AQ")
    (List.replicate 21 (.inr false))
  let w ← w.next arrives ascii plainConfig (.lost aliceSession) (List.replicate 14 (.inr false))
  w.next arrives ascii plainConfig (command "LOCKED")
    (List.replicate n (.inr false) ++ .inl () :: List.replicate m (.inr false))

theorem lateLocked_run {arrives : World → Prop} [DecidablePred arrives] {n m : Nat}
    (h : lateLocked arrives n m = some w) :
    ∃ tasks, Run (Does arrives ascii plainConfig) (.start (empty 5) lateClock) tasks w := by
  obtain ⟨w₁, h₁, h⟩ := Option.bind_eq_some_iff.mp h
  obtain ⟨w₂, h₂, h⟩ := Option.bind_eq_some_iff.mp h
  exact ⟨_, .snoc (.snoc (.single (next_does h₁)) (next_does h₂)) (next_does h)⟩

def dumpsOf (l : LockId) (log : List Event) : List (Bool × Bool) :=
  log.filterMap fun e =>
    match e with
    | .dumped d => some ((d.allLocks.get? l).isSome, (d.locksToClient.get? l).isSome)
    | _ => none

theorem dumped_of_dumpsOf {l : LockId} {log : List Event} {p : Bool × Bool} (h : p ∈ dumpsOf l log) :
    ∃ d, .dumped d ∈ log ∧ p = ((d.allLocks.get? l).isSome, (d.locksToClient.get? l).isSome) := by
  obtain ⟨e, he, hp⟩ := List.mem_filterMap.mp h
  cases e with
  | dumped d => exact ⟨d, he, (Option.some.inj hp).symm⟩
  | _ => cases hp

theorem dumps_consistent_after : ∃ tasks w d,
    Run (Does (fun w => ¬ Unsheltered w) ascii plainConfig) (.start (empty 5) lateClock) tasks w ∧
      .dumped d ∈ w.log ∧ Rep d := by
  have hplay : (lateLocked (fun w => ¬ Unsheltered w) 11 5).map (fun w => dumpsOf "l" w.log) =
      some [(false, false)] := by decide +kernel
  obtain ⟨w, hw, hdumps⟩ := Option.map_eq_some_iff.mp hplay
  obtain ⟨tasks, hrun⟩ := lateLocked_run hw
  have hmem : (false, false) ∈ dumpsOf "l" w.log := by
    rw [hdumps]
    exact .head _
  obtain ⟨d, hd, -⟩ := dumped_of_dumpsOf hmem
  exact ⟨tasks, w, d, hrun, hd, dumps_consistent (rep_empty 5) hrun hd⟩

/-- A signal in the middle of the deletion that `LOCKED` makes dumps a lock
without an owner. -/
theorem dumps_torn : ¬ ∀ py cfg s clk tasks w d, Rep s →
    Run (Does (fun _ => True) py cfg) (.start s clk) tasks w → .dumped d ∈ w.log → Rep d := by
  intro h
  have hplay : (lateLocked (fun _ => True) 7 9).map (fun w => dumpsOf "l" w.log) =
      some [(true, false)] := by decide +kernel
  obtain ⟨w, hw, hdumps⟩ := Option.map_eq_some_iff.mp hplay
  obtain ⟨tasks, hrun⟩ := lateLocked_run hw
  have hmem : (true, false) ∈ dumpsOf "l" w.log := by
    rw [hdumps]
    exact .head _
  obtain ⟨d, hd, hp⟩ := dumped_of_dumpsOf hmem
  have hrep := h ascii plainConfig (empty 5) lateClock tasks w d (rep_empty 5) hrun hd
  obtain ⟨hentry, howner⟩ := Prod.mk.inj hp
  obtain ⟨c, hc⟩ := (hrep.sameKeys "l").mp (Option.isSome_iff_exists.mp hentry.symm)
  rw [hc] at howner
  cases howner

end Livelock.ConsistentDumps
