import Livelock.InterruptedServer
import Livelock.Ascii

namespace Livelock.FinalDump

open Livelock.Lib Livelock.Shared Livelock.MemoryStorage Livelock.StorageRun Livelock.Server
open Livelock.Ascii Livelock.Interrupts Livelock.InterruptedRun Livelock.InterruptedServer
open Livelock.MemoryStorage.InMemoryLockStorage (empty)

variable {py : Builtins} {cfg : Config} {s : InMemoryLockStorage} {clk : Clock} {tasks : List Task}
  {w : World}

/-- Wherever signals arrive, no counter is negative, and when the process has
exited the last dump holds every update before it, and after it no guarded
operation starts or updates anything. -/
theorem final_dump (hrun : Run (Does (fun _ => True) py cfg) (.start s clk) tasks w) :
    (∀ e ∈ w.log, ∀ n, counter? e = some n → 0 ≤ n) ∧
      (w.exited = true → ∃ pre d post, w.log = pre ++ .dumped d :: post ∧ d = replay s pre ∧
        ∀ e ∈ post, unguarded e = true) := by
  have hany : (fun _ => True) = Spares False := funext fun w => (eq_true False.elim).symm
  rw [hany] at hrun
  obtain ⟨hexited, hcalm⟩ | ⟨-, b, hgone⟩ := alive_run False.elim hrun
  · refine ⟨hcalm.within.base.counts, fun h => ?_⟩
    cases hexited.symm.trans h
  · refine ⟨hgone.base.counts, fun _ => ?_⟩
    obtain ⟨pre, d, post, hlog, hpost⟩ := hgone.saved
    exact ⟨pre, d, post, hlog, hgone.base.faithful pre d post hlog, hpost⟩

def aliceSession : Session where
  peername := ⟨"10.0.0.1", 40001⟩
  clientId := some alice

noncomputable def interruptedAq : Option World :=
  (World.start (empty 5) ⟨fun _ => 0, 0⟩).next (fun _ => True) ascii plainConfig
    (.command aliceSession carol (.bytes (encode "AQ")) (words ["l"]))
    (List.replicate 9 (.inr false) ++ .inl () :: List.replicate 17 (.inr false))

theorem final_dump_aq : ∃ tasks w, Run (Does (fun _ => True) ascii plainConfig)
    (.start (empty 5) ⟨fun _ => 0, 0⟩) tasks w ∧ w.exited = true ∧
    (∀ e ∈ w.log, ∀ n, counter? e = some n → 0 ≤ n) ∧
    ∃ pre d post, w.log = pre ++ .dumped d :: post ∧ d = replay (empty 5) pre ∧
      ∀ e ∈ post, unguarded e = true := by
  have hplay : interruptedAq.map (fun w => w.exited) = some true := by decide +kernel
  obtain ⟨w, hw, hexited⟩ := Option.map_eq_some_iff.mp hplay
  have hrun : Run (Does (fun _ => True) ascii plainConfig) (.start (empty 5) ⟨fun _ => 0, 0⟩) _ w :=
    .single (next_does hw)
  exact ⟨_, w, hrun, hexited, (final_dump hrun).1, (final_dump hrun).2 hexited⟩

end Livelock.FinalDump
