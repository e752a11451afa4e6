import Livelock.Interrupts
import Livelock.Lib.Run

namespace Livelock.InterruptedRun

open Livelock.Lib Livelock.Shared Livelock.MemoryStorage Livelock.StorageInvariant
open Livelock.StorageRun Livelock.Server Livelock.Interrupts
open Livelock.Lib.Prog (triple_bind triple_ret triple_raise triple_handle triple_perform triple_lift
  triple_pre triple_post triple_exists triple_or triple_absurd)

def counter? : Event → Option Int
  | .operationStart n | .operationEnd n | .commandStart n | .commandEnd n => some n
  | .updated _ _ | .dumped _ => none

def step (s : InMemoryLockStorage) : Event → InMemoryLockStorage
  | .updated _ u => u.apply s
  | _ => s

def replay (s : InMemoryLockStorage) (log : List Event) : InMemoryLockStorage := log.foldl step s

def unguarded : Event → Bool
  | .operationStart _ | .dumped _ => false
  | .updated op _ => !guarded op
  | .operationEnd _ | .commandStart _ | .commandEnd _ => true

/-- Since the last dump no guarded operation has started or updated anything. -/
def Saved (log : List Event) : Prop :=
  ∃ pre s post, log = pre ++ .dumped s :: post ∧ ∀ e ∈ post, unguarded e = true

def update? : Event → Option Update
  | .updated _ u => some u
  | _ => none

/-- The last update was one of the two pops of a `_delete_lock`, which the
removal from the list of the owner has not followed yet. -/
def underway (log : List Event) : Bool := (log.filterMap update?).getLast?.any Update.isPop

/-- In the middle of a deletion that no guard is around. -/
def Unsheltered (w : World) : Prop := w.state.operations = 0 ∧ underway w.log = true

instance : DecidablePred Unsheltered :=
  fun w => inferInstanceAs (Decidable (w.state.operations = 0 ∧ underway w.log = true))

/-- Where deletions are spared, no signal arrives in the middle of one. -/
def Spares (spared : Prop) (w : World) : Prop := spared → ¬ Unsheltered w

variable {log post : List Event} {e : Event} {w w' : World} {s : InMemoryLockStorage}

theorem saved_dumped : Saved (log ++ [.dumped s]) := ⟨log, s, [], rfl, by simp⟩

theorem saved_append (h : Saved log) (he : unguarded e = true) : Saved (log ++ [e]) := by
  obtain ⟨pre, s, post, rfl, hpost⟩ := h
  refine ⟨pre, s, post ++ [e], by simp, List.forall_mem_append.mpr ⟨hpost, ?_⟩⟩
  exact List.forall_mem_singleton.mpr he

@[simp] theorem replay_append : replay s (log ++ post) = replay (replay s log) post :=
  List.foldl_append

@[simp] theorem underway_note (he : update? e = none) : underway (log ++ [e]) = underway log := by
  simp [underway, he]

theorem underway_updated (op : Op) (u : Update) : underway (log ++ [.updated op u]) = u.isPop := by
  simp [underway, update?]

theorem run_bind {α β : Type} (p : Comp α) (f : α → Comp β) (w : World) :
    (p >>= f).run World.alone w =
      match p.run World.alone w with
      | (.ok a, w') => (f a).run World.alone w'
      | (.error x, w') => (.error x, w') := by
  induction p generalizing w with
  | ret a => rfl
  | raise x => rfl
  | call e next ih => exact ih _ _

theorem run_look (w : World) : look.run World.alone w = (.ok w.state, w) := rfl

theorem run_die (w : World) : die.run World.alone w =
    (.error .exit, if w.state.dataDumped then w else w.note (.dumped w.store)) := by
  unfold die
  rw [run_bind, run_look]
  dsimp only
  cases w.state.dataDumped with
  | true => rfl
  | false => rfl

def killed (w : World) : World :=
  if w.state.operations = 0 then (w.setKillActive.note (.dumped w.store)).setDataDumped
  else w.setKillActive

theorem signal_eq (w : World) : w.signal =
    if w.state.commands = 0 then
      (.error .exit, if (killed w).state.dataDumped then killed w else (killed w).note (.dumped w.store))
    else (.ok (), killed w) := by
  have hend : ∀ w' : World, w'.state.commands = w.state.commands → w'.store = w.store →
      (do if (← look).commands = 0 then die else pure () : Comp Unit).run World.alone w' =
        if w.state.commands = 0 then
          (.error .exit, if w'.state.dataDumped then w' else w'.note (.dumped w.store))
        else (.ok (), w') := by
    intro w' hcommands hstore
    rw [run_bind, run_look]
    dsimp only
    rw [hcommands]
    split
    · rw [run_die, hstore]
    · rfl
  have hkill : setKillActive.run World.alone w = (.ok (), w.setKillActive) := rfl
  unfold World.signal onKillRequested killed
  rw [run_bind, hkill]
  dsimp only
  rw [run_bind, run_look]
  dsimp only
  have ho : w.setKillActive.state.operations = w.state.operations := rfl
  rw [ho]
  split
  · have hdump : dumpBeforeDie.run World.alone w.setKillActive =
        (.ok (), (w.setKillActive.note (.dumped w.store)).setDataDumped) := rfl
    rw [run_bind, hdump]
    exact hend _ rfl rfl
  · exact hend _ rfl rfl

variable (spared : Prop) (s₀ : InMemoryLockStorage)

/-- What holds of the process at any moment, where it began with the storage `s₀`. -/
structure Base (w : World) : Prop where
  counts : ∀ e ∈ w.log, ∀ n, counter? e = some n → 0 ≤ n
  replayed : replay s₀ w.log = w.store
  faithful : ∀ pre s post, w.log = pre ++ .dumped s :: post → s = replay s₀ pre
  flagged : w.state.dataDumped = true → w.state.adaptor.killActive = true
  consistent : spared → ∀ s, .dumped s ∈ w.log → Rep s

variable {spared s₀}

theorem base_congr (h : Base spared s₀ w) (hlog : w'.log = w.log) (hstore : w'.store = w.store)
    (hflag : w'.state.dataDumped = true → w'.state.adaptor.killActive = true) : Base spared s₀ w' where
  counts := by
    rw [hlog]
    exact h.counts
  replayed := by
    rw [hlog, hstore]
    exact h.replayed
  faithful := by
    rw [hlog]
    exact h.faithful
  flagged := hflag
  consistent := by
    rw [hlog]
    exact h.consistent

theorem base_event (h : Base spared s₀ w) (hlog : w'.log = w.log ++ [e]) (hstate : w'.store = step w.store e)
    (hcount : ∀ n, counter? e = some n → 0 ≤ n) (hdump : ∀ s, .dumped s ≠ e)
    (hflag : w'.state.dataDumped = true → w'.state.adaptor.killActive = true) : Base spared s₀ w' where
  counts := by
    rw [hlog]
    exact List.forall_mem_append.mpr ⟨h.counts, List.forall_mem_singleton.mpr hcount⟩
  replayed := by
    rw [hlog, hstate, replay_append, h.replayed]
    rfl
  faithful pre s post hpre := by
    rw [hlog] at hpre
    obtain ⟨-, he⟩ | ⟨post', hpre'⟩ := split_concat hpre
    · exact absurd he (hdump s)
    · exact h.faithful pre s post' hpre'
  flagged := hflag
  consistent hspared s hs := by
    rw [hlog, List.mem_append, List.mem_singleton] at hs
    exact h.consistent hspared s (hs.resolve_right (hdump s))

theorem base_dumped (h : Base spared s₀ w) (hrep : spared → Rep w.store) :
    Base spared s₀ (w.note (.dumped w.store)) where
  counts := by
    refine List.forall_mem_append.mpr ⟨h.counts, List.forall_mem_singleton.mpr ?_⟩
    intro n hn
    cases hn
  replayed := replay_append.trans h.replayed
  faithful pre s post hpre := by
    obtain ⟨rfl, hs⟩ | ⟨post', hpre'⟩ := split_concat hpre
    · rw [h.replayed]
      cases hs
      rfl
    · exact h.faithful pre s post' hpre'
  flagged := h.flagged
  consistent hspared s hs := by
    obtain hs | hs := List.mem_append.mp hs
    · exact h.consistent hspared s hs
    · cases List.mem_singleton.mp hs
      exact hrep hspared

theorem base_killed (h : Base spared s₀ w)
    (hrep : spared → w.state.operations = 0 → Rep w.store) : Base spared s₀ (killed w) := by
  have hkill : Base spared s₀ w.setKillActive := base_congr h rfl rfl fun _ => rfl
  unfold killed
  split
  · next ho => exact base_congr (base_dumped hkill fun hs => hrep hs ho) rfl rfl fun _ => rfl
  · exact hkill

theorem killed_same (w : World) : (killed w).state.operations = w.state.operations ∧
    (killed w).state.commands = w.state.commands ∧ (killed w).store = w.store ∧ (killed w).clk = w.clk ∧
    (killed w).exited = w.exited ∧ (killed w).state.adaptor.killActive = true := by
  unfold killed
  split
  · exact ⟨rfl, rfl, rfl, rfl, rfl, rfl⟩
  · exact ⟨rfl, rfl, rfl, rfl, rfl, rfl⟩

theorem killed_underway (w : World) : underway (killed w).log = underway w.log := by
  unfold killed
  split
  · exact underway_note rfl
  · rfl

theorem killed_saved (ho : w.state.operations = 0) : Saved (killed w).log := by
  unfold killed
  rw [if_pos ho]
  exact saved_dumped

def counter (b : Bool) : Int := if b then 1 else 0

variable (spared s₀)

/-- The process is in a command or not, and inside a guard or not. -/
structure Within (inCommand inGuard : Bool) (w : World) : Prop where
  base : Base spared s₀ w
  operations : w.state.operations = counter inGuard
  commands : w.state.commands = counter inCommand
  kill : inCommand = false → w.state.adaptor.killActive = false
  saved : inGuard = false → w.state.adaptor.killActive = true → Saved w.log
  /-- The storage can be seen by a dump, unless this is the guard of a command. -/
  fit : spared → (inCommand = true ∧ inGuard = true) ∨ Rep w.store ∨
    (inGuard = false ∧ underway w.log = true)

/-- A guard has counted its end and has not dumped. -/
structure Leaving (inCommand : Bool) (w : World) : Prop where
  base : Base spared s₀ w
  operations : w.state.operations = 0
  commands : w.state.commands = counter inCommand
  kill : inCommand = false → w.state.adaptor.killActive = false
  rep : spared → Rep w.store

/-- The last command has counted its end and has not died. -/
structure Ending (w : World) : Prop where
  base : Base spared s₀ w
  operations : w.state.operations = 0
  commands : w.state.commands = 0
  saved : w.state.adaptor.killActive = true → Saved w.log
  rep : spared → Rep w.store

/-- `exit` was raised, and what is interrupted by it is left. -/
structure Gone (inGuard : Bool) (w : World) : Prop where
  base : Base spared s₀ w
  operations : w.state.operations = counter inGuard
  commands : w.state.commands = 0
  kill : w.state.adaptor.killActive = true
  saved : Saved w.log
  rep : spared → Rep w.store

/-- What a signal does not destroy, unless it ends the process and leaves it
in `G`. -/
def Steady (P G : World → Prop) : Prop :=
  ∀ w, P w → Spares spared w → (∀ w', w.signal = (.ok (), w') → P w') ∧
    ∀ w', w.signal = (.error .exit, w') → G w'

def Over (inCommand inGuard : Bool) (w : World) : Prop := inCommand = false ∧ Gone spared s₀ inGuard w

variable {spared s₀} {P G : World → Prop} {inCommand inGuard : Bool}

theorem steady_of_signal
    (hgoes : ∀ w, P w → Spares spared w → w.state.commands ≠ 0 → P (killed w))
    (hexits : ∀ w, P w → Spares spared w → w.state.commands = 0 →
      G (if (killed w).state.dataDumped then killed w else (killed w).note (.dumped w.store))) :
    Steady spared P G := by
  refine fun w hw hspares => ⟨fun w' hs => ?_, fun w' hs => ?_⟩
  · rw [signal_eq] at hs
    split at hs
    · cases hs
    · next hc =>
      cases hs
      exact hgoes w hw hspares hc
  · rw [signal_eq] at hs
    split at hs
    · next hc =>
      cases hs
      exact hexits w hw hspares hc
    · cases hs

theorem gone_killed (h : Base spared s₀ w) (hc : w.state.commands = 0)
    (ho : w.state.operations = counter inGuard) (hrep : spared → Rep w.store)
    (hsaved : w.state.operations = 0 ∨ w.state.adaptor.killActive = false ∨ Saved w.log) :
    Gone spared s₀ inGuard
      (if (killed w).state.dataDumped then killed w else (killed w).note (.dumped w.store)) := by
  obtain ⟨hoperations, hcommands, hstore, -, -, hkill⟩ := killed_same w
  have hbase : Base spared s₀ (killed w) := base_killed h fun hs _ => hrep hs
  have hrep' : spared → Rep (killed w).store := by
    rw [hstore]
    exact hrep
  split
  · next hdumped =>
    refine ⟨hbase, hoperations.trans ho, hcommands.trans hc, hkill, ?_, hrep'⟩
    by_cases hzero : w.state.operations = 0
    · exact killed_saved hzero
    · have hsame : killed w = w.setKillActive := if_neg hzero
      rw [hsame] at hdumped ⊢
      obtain hzero' | hfalse | hlog := hsaved
      · exact absurd hzero' hzero
      · cases hfalse.symm.trans (h.flagged hdumped)
      · exact hlog
  · rw [← hstore]
    exact ⟨base_dumped hbase hrep', hoperations.trans ho, hcommands.trans hc, hkill, saved_dumped, hrep'⟩

theorem counter_zero {b : Bool} : counter b = 0 ↔ b = false := by
  cases b with
  | true => simp [counter]
  | false => simp [counter]

theorem steady_within :
    Steady spared (Within spared s₀ inCommand inGuard) (Over spared s₀ inCommand inGuard) := by
  have hrep : ∀ w, Within spared s₀ inCommand inGuard w → Spares spared w →
      inCommand = false ∨ inGuard = false → spared → Rep w.store := by
    intro w hw hspares hseen hspared
    obtain ⟨hcommand, hguard⟩ | hrep | ⟨hguard, hunder⟩ := hw.fit hspared
    · rw [hcommand, hguard] at hseen
      cases hseen with
      | inl h => cases h
      | inr h => cases h
    · exact hrep
    · refine absurd ⟨?_, hunder⟩ (hspares hspared)
      rw [hw.operations, hguard]
      rfl
  refine steady_of_signal (fun w hw hspares hc => ?_) fun w hw hspares hc => ?_
  · obtain ⟨hoperations, hcommands, hstore, -, -, hkill⟩ := killed_same w
    have hin : inCommand ≠ false := fun h => hc (hw.commands.trans (counter_zero.mpr h))
    refine ⟨base_killed hw.base fun hs ho => ?_, hoperations.trans hw.operations,
      hcommands.trans hw.commands, fun h => absurd h hin, fun hguard _ => killed_saved ?_, fun hs => ?_⟩
    · exact hrep w hw hspares (.inr (counter_zero.mp (hw.operations.symm.trans ho))) hs
    · rw [hw.operations, hguard]
      rfl
    · rw [hstore, killed_underway]
      exact hw.fit hs
  · have hcommand : inCommand = false := counter_zero.mp (hw.commands.symm.trans hc)
    exact ⟨hcommand, gone_killed hw.base hc hw.operations (hrep w hw hspares (.inl hcommand))
      (.inr (.inl (hw.kill hcommand)))⟩

theorem steady_leaving : Steady spared (Leaving spared s₀ inCommand) (Over spared s₀ inCommand false) := by
  refine steady_of_signal (fun w hw hspares hc => ?_) fun w hw hspares hc => ?_
  · obtain ⟨hoperations, hcommands, hstore, -, -, hkill⟩ := killed_same w
    have hin : inCommand ≠ false := fun h => hc (hw.commands.trans (counter_zero.mpr h))
    refine ⟨base_killed hw.base fun hs _ => hw.rep hs, hoperations.trans hw.operations,
      hcommands.trans hw.commands, fun h => absurd h hin, ?_⟩
    rw [hstore]
    exact hw.rep
  · have hcommand : inCommand = false := counter_zero.mp (hw.commands.symm.trans hc)
    exact ⟨hcommand, gone_killed hw.base hc hw.operations hw.rep (.inl hw.operations)⟩

theorem steady_ending : Steady spared (Ending spared s₀) (Gone spared s₀ false) := by
  refine steady_of_signal (fun w hw hspares hc => absurd hw.commands hc) fun w hw hspares hc => ?_
  exact gone_killed hw.base hc hw.operations hw.rep (.inl hw.operations)

theorem steady_gone : Steady spared (Gone spared s₀ inGuard) (Gone spared s₀ inGuard) := by
  refine steady_of_signal (fun w hw hspares hc => absurd hw.commands hc) fun w hw hspares hc => ?_
  exact gone_killed hw.base hc hw.operations hw.rep (.inr (.inr hw.saved))

end Livelock.InterruptedRun
