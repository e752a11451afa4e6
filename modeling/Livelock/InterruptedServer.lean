import Livelock.InterruptedStorage

namespace Livelock.InterruptedServer

open Livelock.Lib Livelock.Shared Livelock.MemoryStorage Livelock.StorageInvariant
open Livelock.StorageRun Livelock.Server Livelock.CommandSpec Livelock.Interrupts
open Livelock.InterruptedRun Livelock.InterruptedStorage
open Livelock.Lib.Prog (triple_bind triple_ret triple_raise triple_handle triple_pre triple_post
  triple_or triple_absurd)

variable (spared : Prop) (s₀ : InMemoryLockStorage)

/-- The process is between two updates, where the storage is fit to be dumped. -/
structure Calm (inCommand inGuard : Bool) (w : World) : Prop where
  within : Within spared s₀ inCommand inGuard w
  rep : spared → Rep w.store

def Killed (P : World → Prop) (w : World) : Prop := P w ∧ w.state.adaptor.killActive = true

/-- `exit` was raised, or an exception that leaves the process as calm as it was. -/
def Failed (inCommand inGuard : Bool) (x : Exc) (w : World) : Prop :=
  (x = .exit ∧ Over spared s₀ inCommand inGuard w) ∨ (x ≠ .exit ∧ Calm spared s₀ inCommand inGuard w)

def Stopped (inCommand : Bool) (x : Exc) (w : World) : Prop :=
  (x = .exit ∧ ∃ inGuard, Over spared s₀ inCommand inGuard w) ∨
    (x ≠ .exit ∧ Calm spared s₀ inCommand false w)

variable {spared s₀} {α : Type} {Q' : Unit → World → Prop} {P Q R G : World → Prop} {F F' : Exc → World → Prop}
  {inCommand inGuard : Bool} {w : World} {py : Builtins} {cfg : Config} {op : Op}

theorem stopped_over (w : World) (hw : Over spared s₀ inCommand inGuard w) :
    Stopped spared s₀ inCommand .exit w := .inl ⟨rfl, inGuard, hw⟩

theorem stopped_gone (w : World) (hw : Gone spared s₀ inGuard w) : Stopped spared s₀ false .exit w :=
  stopped_over w ⟨rfl, hw⟩

theorem steady_calm :
    Steady spared (Calm spared s₀ inCommand inGuard) (Over spared s₀ inCommand inGuard) := by
  refine fun w hw hspares => ⟨fun w' hs => ?_, (steady_within w hw.within hspares).2⟩
  refine ⟨(steady_within w hw.within hspares).1 w' hs, ?_⟩
  rw [(signal_same hs).1]
  exact hw.rep

theorem steady_killed (hP : Steady spared P G) : Steady spared (Killed P) G := by
  refine fun w hw hspares => ⟨fun w' hs => ⟨(hP w hw.1 hspares).1 w' hs, ?_⟩, (hP w hw.1 hspares).2⟩
  rw [signal_eq] at hs
  split at hs
  · cases hs
  · cases hs
    exact (killed_same w).2.2.2.2.2

theorem spec_finally {p : Comp α} {last : Comp Unit} (hp : Spec spared P p (fun _ => Q) F')
    (hlast : Spec spared Q last (fun _ => R) F)
    (hfail : ∀ x, Spec spared (F' x) last (fun _ => F x) F) :
    Spec spared P (finally_ p last) (fun _ => R) F := by
  have hraise : ∀ x, Spec spared (F' x) (do
      last
      .raise x : Comp α) (fun _ => Q) F := fun x => triple_bind (hfail x) fun _ => triple_raise fun _ hw => hw
  exact triple_bind (triple_handle hp hraise) fun a => triple_bind hlast fun _ => triple_ret fun _ hw => hw

theorem spec_dumpBeforeDie : Spec spared (Killed (Leaving spared s₀ inCommand)) dumpBeforeDie
    (fun _ => Calm spared s₀ inCommand false) (Stopped spared s₀ inCommand) := by
  have hdump : Spec spared (Killed (Leaving spared s₀ inCommand)) dump
      (fun _ => Killed (Calm spared s₀ inCommand false)) (Stopped spared s₀ inCommand) := by
    refine spec_ask (steady_killed steady_leaving) (fun w hw => ⟨⟨?_, hw.1.rep⟩, hw.2⟩) stopped_over
    exact ⟨base_dumped hw.1.base hw.1.rep, hw.1.operations, hw.1.commands, hw.1.kill,
      fun _ _ => saved_dumped, fun hspared => .inr (.inl (hw.1.rep hspared))⟩
  refine triple_bind hdump fun _ => spec_ask (steady_killed steady_calm) (fun w hw => ⟨?_, hw.1.rep⟩) stopped_over
  obtain ⟨⟨hwithin, -⟩, hkill⟩ := hw
  exact { hwithin with base := base_congr hwithin.base rfl rfl fun _ => hkill }

theorem leaving_calm (h : Leaving spared s₀ inCommand w) (hkill : w.state.adaptor.killActive = false) :
    Calm spared s₀ inCommand false w where
  within := ⟨h.base, h.operations, h.commands, h.kill, fun _ hk => (by cases hkill.symm.trans hk),
    fun hspared => .inr (.inl (h.rep hspared))⟩
  rep := h.rep

theorem spec_onStorageOperationEnd : Spec spared (Calm spared s₀ inCommand true) onStorageOperationEnd
    (fun _ => Calm spared s₀ inCommand false) (Stopped spared s₀ inCommand) := by
  have hcount : Spec spared (Calm spared s₀ inCommand true) countOperationEnd
      (fun _ => Leaving spared s₀ inCommand) (Stopped spared s₀ inCommand) := by
    refine spec_ask steady_calm (fun w hw => ?_) stopped_over
    have hzero : w.state.operations - 1 = 0 := by
      rw [hw.within.operations]
      rfl
    refine ⟨base_event hw.within.base rfl rfl (fun n hn => ?_) (fun _ hs => by cases hs) hw.within.base.flagged,
      hzero, hw.within.commands, hw.within.kill, hw.rep⟩
    cases hn
    exact hzero.ge
  refine triple_bind hcount fun _ => triple_bind (spec_look steady_leaving stopped_over) fun st => ?_
  have hnonneg : ∀ w, (Leaving spared s₀ inCommand w ∧ w.state = st) → ¬ st.operations < 0 := by
    rintro w ⟨hw, rfl⟩
    rw [hw.operations]
    exact lt_irrefl 0
  dsimp only
  split
  · next hneg => exact triple_absurd fun w hw => hnonneg w hw hneg
  · refine triple_bind (triple_pre (spec_look steady_leaving stopped_over) fun w hw => hw.1) fun st => ?_
    split
    · next hkill =>
      refine triple_bind (triple_pre (spec_look (steady_killed steady_leaving) stopped_over) ?_) fun st => ?_
      · rintro w ⟨hw, rfl⟩
        exact ⟨hw, hkill⟩
      · split
        · exact triple_pre spec_dumpBeforeDie fun w hw => hw.1
        · next hne =>
          refine triple_absurd fun w hw => hne ?_
          rw [← hw.2]
          exact hw.1.1.operations
    · next hkill =>
      refine triple_ret fun w hw => leaving_calm hw.1 ?_
      rw [hw.2]
      exact Bool.eq_false_iff.mpr hkill

theorem spec_goneEnd : Spec spared (Gone spared s₀ true) onStorageOperationEnd
    (fun _ => Gone spared s₀ false) (fun x w => x = .exit ∧ ∃ b, Gone spared s₀ b w) := by
  have hexit : ∀ b w, Gone spared s₀ b w → (Exc.exit = .exit ∧ ∃ b, Gone spared s₀ b w) :=
    fun b w hw => ⟨rfl, b, hw⟩
  have hcount : Spec spared (Gone spared s₀ true) countOperationEnd (fun _ => Gone spared s₀ false)
      (fun x w => x = .exit ∧ ∃ b, Gone spared s₀ b w) := by
    refine spec_ask steady_gone (fun w hw => ?_) (hexit true)
    have hzero : w.state.operations - 1 = 0 := by
      rw [hw.operations]
      rfl
    refine ⟨base_event hw.base rfl rfl (fun n hn => ?_) (fun _ hs => by cases hs) hw.base.flagged, hzero,
      hw.commands, hw.kill, saved_append hw.saved rfl, hw.rep⟩
    cases hn
    exact hzero.ge
  have hdump : Spec spared (Gone spared s₀ false) dumpBeforeDie (fun _ => Gone spared s₀ false)
      (fun x w => x = .exit ∧ ∃ b, Gone spared s₀ b w) := by
    refine triple_bind (spec_ask (Q := fun _ => Gone spared s₀ false) steady_gone ?_ (hexit false)) fun _ =>
      spec_ask steady_gone ?_ (hexit false)
    · intro w hw
      exact ⟨base_dumped hw.base hw.rep, hw.operations, hw.commands, hw.kill, saved_dumped, hw.rep⟩
    · intro w hw
      exact { hw with base := base_congr hw.base rfl rfl fun _ => hw.kill }
  refine triple_bind hcount fun _ => triple_bind (spec_look steady_gone (hexit false)) fun st => ?_
  dsimp only
  split
  · next hneg =>
    refine triple_absurd fun w hw => absurd hneg ?_
    rw [← hw.2, hw.1.operations]
    exact lt_irrefl 0
  · refine triple_bind (triple_pre (spec_look steady_gone (hexit false)) fun w hw => hw.1) fun st => ?_
    split
    · refine triple_bind (triple_pre (spec_look steady_gone (hexit false)) fun w hw => hw.1) fun st => ?_
      split
      · exact triple_pre hdump fun w hw => hw.1
      · exact triple_ret fun w hw => hw.1
    · exact triple_ret fun w hw => hw.1

/-- An operation keeps the storage fit to be dumped. -/
theorem spec_program (fnmatch : String → String → Bool)
    (hplace : inCommand = true ∨ guarded op = false ∨ ∃ c timeout, op = .releaseAll c timeout) :
    Spec spared (Calm spared s₀ inCommand (guarded op)) (program fnmatch op)
      (fun _ => Calm spared s₀ inCommand (guarded op)) (Failed spared s₀ inCommand (guarded op)) := by
  intro w o w' hw hexec
  have hsim := sim_program fnmatch hw.rep (fun _ => hplace) w o w' ⟨hw.within, rfl, rfl⟩ hexec
  cases o with
  | ok answer =>
    obtain ⟨hwithin, hrun⟩ := hsim
    refine ⟨hwithin, fun hspared => ?_⟩
    obtain ⟨_, _, _, heq, heffect⟩ := exec_effect fnmatch (hw.rep hspared) op w.clk
    cases hrun.symm.trans heq
    exact heffect.rep
  | error x =>
    obtain hgone | ⟨hne, hnot, hwithin⟩ := hsim
    · exact .inl hgone
    · exact .inr ⟨hne, hwithin, fun hspared => absurd hspared hnot⟩

theorem spec_guardFailed (x : Exc) : Spec spared (Failed spared s₀ inCommand true x) onStorageOperationEnd
    (fun _ => Stopped spared s₀ inCommand x) (Stopped spared s₀ inCommand) := by
  have hgone : Spec spared (fun w => x = .exit ∧ Over spared s₀ inCommand true w) onStorageOperationEnd
      (fun _ => Stopped spared s₀ inCommand x) (Stopped spared s₀ inCommand) := by
    rintro w o w' ⟨rfl, hcommand, hw⟩ hexec
    have hend := spec_goneEnd w o w' hw hexec
    cases o with
    | ok _ => exact .inl ⟨rfl, false, hcommand, hend⟩
    | error _ =>
      obtain ⟨rfl, b, hb⟩ := hend
      exact .inl ⟨rfl, b, hcommand, hb⟩
  have hcalm : Spec spared (fun w => x ≠ .exit ∧ Calm spared s₀ inCommand true w) onStorageOperationEnd
      (fun _ => Stopped spared s₀ inCommand x) (Stopped spared s₀ inCommand) := by
    rintro w o w' ⟨hne, hw⟩ hexec
    have hend := spec_onStorageOperationEnd w o w' hw hexec
    cases o with
    | ok _ => exact .inr ⟨hne, hend⟩
    | error _ => exact hend
  exact triple_or hgone hcalm

theorem calm_start (h : Calm spared s₀ inCommand false w) :
    Calm spared s₀ inCommand true (w.perform .operationStart).2 where
  within := by
    have hone : w.state.operations + 1 = 1 := by
      rw [h.within.operations]
      rfl
    refine ⟨base_event h.within.base rfl rfl (fun n hn => ?_) (fun _ hs => by cases hs) h.within.base.flagged,
      hone, h.within.commands, h.within.kill, fun hg => (by cases hg), fun hspared => .inr (.inl (h.rep hspared))⟩
    cases hn
    exact hone.symm ▸ zero_le_one
  rep := h.rep

theorem spec_guard {body : Comp α} (hbody : Spec spared (Calm spared s₀ inCommand true) body
      (fun _ => Calm spared s₀ inCommand true) (Failed spared s₀ inCommand true)) :
    Spec spared (Calm spared s₀ inCommand false) (guard body) (fun _ => Calm spared s₀ inCommand false)
      (Stopped spared s₀ inCommand) := by
  have hpass : Spec spared (Calm spared s₀ inCommand true) pass (fun _ => Calm spared s₀ inCommand true)
      (Failed spared s₀ inCommand true) :=
    spec_ask steady_calm (fun w hw => hw) fun w hw => .inl ⟨rfl, hw⟩
  have hinside : Spec spared (Calm spared s₀ inCommand true) (do
      let a ← body
      pass
      pure a) (fun _ => Calm spared s₀ inCommand true) (Failed spared s₀ inCommand true) :=
    triple_bind hbody fun a => triple_bind hpass fun _ => triple_ret fun w hw => hw
  have henter : Spec spared (Calm spared s₀ inCommand true) pass (fun _ => Calm spared s₀ inCommand true)
      (Stopped spared s₀ inCommand) := spec_ask steady_calm (fun w hw => hw) stopped_over
  have hstart : Spec spared (Calm spared s₀ inCommand false) onStorageOperationStart
      (fun _ => Calm spared s₀ inCommand true) (Stopped spared s₀ inCommand) :=
    spec_ask steady_calm (fun w hw => calm_start hw) stopped_over
  refine triple_bind (spec_look steady_calm stopped_over) fun st => ?_
  dsimp only
  split
  · exact triple_raise fun w hw => .inr ⟨by simp, hw.1⟩
  · refine triple_bind (triple_pre hstart fun w hw => hw.1) fun _ => triple_bind henter fun _ => ?_
    exact spec_finally hinside spec_onStorageOperationEnd spec_guardFailed

theorem spec_call (hplace : inCommand = true ∨ guarded op = false ∨ ∃ c timeout, op = .releaseAll c timeout) :
    Spec spared (Calm spared s₀ inCommand false) (call py op) (fun _ => Calm spared s₀ inCommand false)
      (Stopped spared s₀ inCommand) := by
  have hprogram : Spec spared (Calm spared s₀ inCommand (guarded op)) (program py.fnmatch op)
      (fun _ => Calm spared s₀ inCommand (guarded op)) (Failed spared s₀ inCommand (guarded op)) :=
    spec_program py.fnmatch hplace
  unfold call
  cases hg : guarded op with
  | true =>
    rw [hg] at hprogram
    exact spec_guard hprogram
  | false =>
    rw [hg] at hprogram
    exact triple_post hprogram (fun _ _ hw => hw) fun x w hw => hw.imp_left fun hexit => ⟨hexit.1, false, hexit.2⟩

theorem spec_die : Spec spared (Killed (Ending spared s₀)) die Q' (Stopped spared s₀ false) := by
  refine triple_bind (spec_look (steady_killed steady_ending) stopped_gone) fun st => ?_
  dsimp only
  split
  · refine triple_raise fun w hw => ?_
    obtain ⟨⟨hw, hkill⟩, -⟩ := hw
    have hgone : Gone spared s₀ false w :=
      ⟨hw.base, hw.operations, hw.commands, hkill, hw.saved hkill, hw.rep⟩
    exact stopped_gone w hgone
  · have hdump : Spec spared (Killed (Ending spared s₀)) dump (fun _ => Gone spared s₀ false)
        (Stopped spared s₀ false) := by
      refine spec_ask (steady_killed steady_ending) (fun w hw => ?_) stopped_gone
      obtain ⟨hw, hkill⟩ := hw
      exact ⟨base_dumped hw.base hw.rep, hw.operations, hw.commands, hkill, saved_dumped, hw.rep⟩
    exact triple_bind (triple_pre hdump fun w hw => hw.1) fun _ => triple_raise stopped_gone

theorem spec_onCommandEnd : Spec spared (Calm spared s₀ true false) onCommandEnd
    (fun _ => Calm spared s₀ false false) (Stopped spared s₀ false) := by
  have hcount : Spec spared (Calm spared s₀ true false) countCommandEnd (fun _ => Ending spared s₀)
      (Stopped spared s₀ false) := by
    refine spec_ask steady_calm (fun w hw => ?_) fun w hw => (by cases hw.1)
    have hzero : w.state.commands - 1 = 0 := by
      rw [hw.within.commands]
      rfl
    refine ⟨base_event hw.within.base rfl rfl (fun n hn => ?_) (fun _ hs => by cases hs) hw.within.base.flagged,
      hw.within.operations, hzero, fun hkill => saved_append (hw.within.saved rfl hkill) rfl, hw.rep⟩
    cases hn
    exact hzero.ge
  refine triple_bind hcount fun _ => triple_bind (spec_look steady_ending stopped_gone) fun st => ?_
  split
  · next hkill =>
    have hpre : ∀ w, (Ending spared s₀ w ∧ w.state = st) → Killed (Ending spared s₀) w := by
      rintro w ⟨hw, rfl⟩
      exact ⟨hw, hkill⟩
    refine triple_bind (triple_pre (spec_look (steady_killed steady_ending) stopped_gone) hpre) fun st => ?_
    split
    · exact triple_pre spec_die fun w hw => hw.1
    · next hne =>
      refine triple_absurd fun w hw => hne ?_
      rw [← hw.2]
      exact hw.1.1.commands
  · next hkill =>
    refine triple_ret fun w hw => ⟨?_, hw.1.rep⟩
    have hfalse : w.state.adaptor.killActive = false := by
      rw [hw.2]
      exact Bool.eq_false_iff.mpr hkill
    exact ⟨hw.1.base, hw.1.operations, hw.1.commands, fun _ => hfalse, fun _ hk => (by cases hfalse.symm.trans hk),
      fun hspared => .inr (.inl (hw.1.rep hspared))⟩

theorem spec_onKillRequested : Spec spared (Calm spared s₀ true false) onKillRequested
    (fun _ => Calm spared s₀ true false) (Stopped spared s₀ true) := by
  have hkill : Spec spared (Calm spared s₀ true false) setKillActive
      (fun _ => Killed (Leaving spared s₀ true)) (Stopped spared s₀ true) := by
    refine spec_ask steady_calm (fun w hw => ⟨?_, rfl⟩) stopped_over
    exact ⟨base_congr hw.within.base rfl rfl fun _ => rfl, hw.within.operations, hw.within.commands,
      fun hc => (by cases hc), hw.rep⟩
  have hlast : Spec spared (Calm spared s₀ true false) (do
      if (← look).commands = 0 then die else pure ()) (fun _ => Calm spared s₀ true false)
      (Stopped spared s₀ true) := by
    refine triple_bind (spec_look steady_calm stopped_over) fun st => ?_
    split
    · next hzero =>
      refine triple_absurd fun w hw => ?_
      have hone : w.state.commands = 1 := hw.1.within.commands
      rw [hw.2, hzero] at hone
      cases hone
    · exact triple_ret fun w hw => hw.1
  refine triple_bind hkill fun _ => triple_bind (spec_look (steady_killed steady_leaving) stopped_over) fun st => ?_
  dsimp only
  split
  · exact triple_bind (triple_pre spec_dumpBeforeDie fun w hw => hw.1) fun _ => hlast
  · next hne =>
    refine triple_absurd fun w hw => hne ?_
    rw [← hw.2]
    exact hw.1.1.operations

theorem spec_dump : Spec spared (Calm spared s₀ true false) dump (fun _ => Calm spared s₀ true false)
    (Stopped spared s₀ true) := by
  refine spec_ask steady_calm (fun w hw => ⟨?_, hw.rep⟩) stopped_over
  exact ⟨base_dumped hw.within.base hw.rep, hw.within.operations, hw.within.commands, hw.within.kill,
    fun _ _ => saved_dumped, fun hspared => .inr (.inl (hw.rep hspared))⟩

theorem spec_serve (session : Session) (uuid : ClientId) (verb : Verb) (value : List Arg) :
    Spec spared (Calm spared s₀ true false) (serve py cfg session uuid verb value)
      (fun _ => Calm spared s₀ true false) (Stopped spared s₀ true) := by
  have hcall : ∀ op, Spec spared (Calm spared s₀ true false) (call py op)
      (fun _ => Calm spared s₀ true false) (Stopped spared s₀ true) := fun op => spec_call (.inl rfl)
  have hdone : ∀ op, Spec spared (Calm spared s₀ true false) (do
      let _ ← call py op
      pure ()) (fun _ => Calm spared s₀ true false) (Stopped spared s₀ true) :=
    fun op => triple_bind (hcall op) fun _ => triple_ret fun w hw => hw
  have hnone : Spec spared (Calm spared s₀ true false) (pure ()) (fun _ => Calm spared s₀ true false)
      (Stopped spared s₀ true) := triple_ret fun w hw => hw
  unfold serve
  cases intent py cfg session uuid value with
  | conn clientId restore =>
    dsimp only
    split
    · exact triple_bind (hcall _) fun _ => hdone _
    · exact hdone _
  | operation op => exact hdone op
  | nothing =>
    dsimp only
    split
    · split
      · exact spec_onKillRequested
      · exact hnone
    · split
      · exact spec_dump
      · exact hnone
    · exact hnone

theorem spec_serveStarted (session : Session) (uuid : ClientId) (verb : Verb) (value : List Arg) :
    Spec spared (Calm spared s₀ false false) (serveStarted py cfg session uuid verb value)
      (fun _ => Calm spared s₀ false false) (Stopped spared s₀ false) := by
  have hstart : Spec spared (Calm spared s₀ false false) onCommandStart (fun _ => Calm spared s₀ true false)
      (Stopped spared s₀ false) := by
    refine spec_ask steady_calm (fun w hw => ?_) stopped_over
    have hone : w.state.commands + 1 = 1 := by
      rw [hw.within.commands]
      rfl
    have hkill : w.state.adaptor.killActive = false := hw.within.kill rfl
    refine ⟨⟨base_event hw.within.base rfl rfl (fun n hn => ?_) (fun _ hs => by cases hs) hw.within.base.flagged,
      hw.within.operations, hone, fun _ => hkill, fun _ hk => (by cases hkill.symm.trans hk),
      fun hspared => .inr (.inl (hw.rep hspared))⟩, hw.rep⟩
    cases hn
    exact hone.symm ▸ zero_le_one
  have hfail : ∀ x, Spec spared (Stopped spared s₀ true x) onCommandEnd
      (fun _ => Stopped spared s₀ false x) (Stopped spared s₀ false) := by
    intro x w o w' hw hexec
    obtain ⟨-, b, hcommand, -⟩ | ⟨hne, hcalm⟩ := hw
    · cases hcommand
    · have hend := spec_onCommandEnd w o w' hcalm hexec
      cases o with
      | ok _ => exact .inr ⟨hne, hend⟩
      | error _ => exact hend
  exact triple_bind hstart fun _ => spec_finally (spec_serve session uuid verb value) spec_onCommandEnd hfail

theorem spec_processCommand (session : Session) (uuid : ClientId) (command : Arg) (args : List Arg) :
    Spec spared (Calm spared s₀ false false) (processCommand py cfg session uuid command args)
      (fun _ => Calm spared s₀ false false) (Stopped spared s₀ false) := by
  refine triple_bind (spec_look steady_calm stopped_over) fun st => ?_
  split
  · exact triple_ret fun w hw => hw.1
  · cases command.decode with
    | none => exact triple_raise fun w hw => .inr ⟨by simp, hw.1⟩
    | some name => exact triple_pre (spec_serveStarted session uuid _ _) fun w hw => hw.1

theorem spec_connectionLost (session : Session) : Spec spared (Calm spared s₀ false false)
    (connectionLost py session) (fun _ => Calm spared s₀ false false) (Stopped spared s₀ false) := by
  have hlook : Spec spared (Calm spared s₀ false false) look (fun st w => Calm spared s₀ false false w ∧ w.state = st)
      (Stopped spared s₀ false) := spec_look steady_calm stopped_over
  have hstore : Spec spared (Calm spared s₀ false false) store (fun _ => Calm spared s₀ false false)
      (Stopped spared s₀ false) := triple_bind hlook fun _ => triple_ret fun w hw => hw.1
  refine triple_bind hlook fun st => ?_
  split
  · exact triple_ret fun w hw => hw.1
  · cases session.clientId with
    | none => exact triple_ret fun w hw => hw.1
    | some clientId =>
      refine triple_bind (triple_pre hstore fun w hw => hw.1) fun s => ?_
      dsimp only
      split
      · refine triple_bind hlook fun st => triple_bind (triple_pre (spec_call ?_) fun w hw => hw.1) ?_
        · exact .inr (.inr ⟨clientId, some st.adaptor.releaseAllTimeout, rfl⟩)
        · exact fun _ => triple_ret fun w hw => hw
      · exact triple_ret fun w hw => hw

theorem spec_scheduledMaintenance (timeoutMs : Time) (shuffle : InMemoryLockStorage.Shuffle) :
    Spec spared (Calm spared s₀ false false) (scheduledMaintenance py timeoutMs shuffle)
      (fun _ => Calm spared s₀ false false) (Stopped spared s₀ false) := by
  have hlook : Spec spared (Calm spared s₀ false false) look (fun st w => Calm spared s₀ false false w ∧ w.state = st)
      (Stopped spared s₀ false) := spec_look steady_calm stopped_over
  refine triple_bind hlook fun st => ?_
  split
  · exact triple_ret fun w hw => hw.1
  · refine triple_bind (triple_pre hlook fun w hw => hw.1) fun st => ?_
    split
    · exact triple_ret fun w hw => hw.1
    · exact triple_bind (triple_pre (spec_call (.inr (.inl rfl))) fun w hw => hw.1) fun _ => triple_ret fun w hw => hw

/-- Whatever the process does next and wherever signals arrive, it ends calm or
exits with a dump of all that was guarded. -/
theorem spec_task (task : Task) : Spec spared (Calm spared s₀ false false) (task.program py cfg)
    (fun _ => Calm spared s₀ false false) (Stopped spared s₀ false) := by
  cases task with
  | command session uuid head args => exact spec_processCommand session uuid head args
  | resumed session uuid verb value => exact spec_serveStarted session uuid verb value
  | lost session => exact spec_connectionLost session
  | maintenance timeoutMs shuffle => exact spec_scheduledMaintenance timeoutMs shuffle
  | stats => exact triple_bind (spec_call (.inr (.inl rfl))) fun _ => triple_ret fun w hw => hw
  | wait => exact spec_ask steady_calm (fun w hw => hw) stopped_over

variable (spared s₀) in
def Alive (w : World) : Prop :=
  (w.exited = false ∧ Calm spared s₀ false false w) ∨ (w.exited = true ∧ ∃ b, Gone spared s₀ b w)

theorem alive_does {task : Task} {w' : World} (h : Alive spared s₀ w)
    (hdoes : Does (Spares spared) py cfg w task w') : Alive spared s₀ w' := by
  obtain ⟨hexited, o, w₁, hexec, rfl⟩ := hdoes
  obtain ⟨-, hcalm⟩ | ⟨htrue, -⟩ := h
  · have hend : Prog.Outcome (fun _ => Calm spared s₀ false false) (Stopped spared s₀ false) o w₁ :=
      spec_task task w o w₁ hcalm hexec
    have hcalm' : Calm spared s₀ false false w₁ → Calm spared s₀ false false { w₁ with exited := false } :=
      fun hw => ⟨{ hw.within with base := base_congr hw.within.base rfl rfl hw.within.base.flagged }, hw.rep⟩
    cases o with
    | ok _ => exact .inl ⟨rfl, hcalm' hend⟩
    | error x =>
      obtain ⟨rfl, b, -, hgone⟩ | ⟨hne, hw⟩ := hend
      · exact .inr ⟨rfl, b, { hgone with base := base_congr hgone.base rfl rfl hgone.base.flagged }⟩
      · have hfalse : exits (.error x) = false := by
          cases x with
          | exit => exact absurd rfl hne
          | raised e => rfl
          | counterBroken => rfl
          | undecodable => rfl
        rw [hfalse]
        exact .inl ⟨rfl, hcalm' hw⟩
  · cases hexited.symm.trans htrue

theorem calm_new (hrep : spared → Rep s₀) (clk : Clock) : Calm spared s₀ false false (.start s₀ clk) where
  within := by
    refine ⟨⟨fun e he => (by cases he), rfl, fun pre s post h => ?_, fun h => (by cases h),
      fun _ s h => (by cases h)⟩, rfl, rfl, fun _ => rfl, fun _ h => (by cases h), fun hspared => .inr (.inl (hrep hspared))⟩
    exact absurd h (by simp [World.start])
  rep := hrep

theorem alive_run {clk : Clock} {tasks : List Task} (hrep : spared → Rep s₀)
    (hrun : Run (Does (Spares spared) py cfg) (.start s₀ clk) tasks w) : Alive spared s₀ w := by
  induction hrun with
  | nil => exact .inl ⟨rfl, calm_new hrep clk⟩
  | snoc _ hstep ih => exact alive_does ih hstep

end Livelock.InterruptedServer
