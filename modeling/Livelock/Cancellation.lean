import Livelock.MethodCalls

namespace Livelock.Cancellation

open Livelock.Lib Livelock.Shared Livelock.MemoryStorage Livelock.StorageRun Livelock.StorageTable
open Livelock.Server Livelock.ServerRun Livelock.SignalEntries Livelock.Signals
open Livelock.CallHistory Livelock.Exchange Livelock.GenuineAnswers Livelock.MethodCalls Livelock.Ascii
open Livelock.LockService (Service)
open Livelock.Client (LiveLock Process Exc)
open Livelock.ClientReader (Response)
open Livelock.CommandSpec (verb_aq)

variable (py : Builtins) (cfg : Config)

/-- Nobody holds the lock, or the signal is up for who does. -/
def Lifted (signal : Signal) (l : LockId) (sv : Server) : Prop :=
  ∀ h, holding sv.adaptor.store l = some h → h.info.hasSignal (py.lower signal) = true

/-- The lock is created, or the signal is taken down. -/
def Lowers (signal : Signal) (l : LockId) (sv : Server) (o : Occurrence) (sv' : Server) : Prop :=
  Creates py cfg l sv o sv' ∨ OrdersAnyCase py .sigdel l signal sv o

variable {py cfg} {proc : Process} {T : Time} {sv sv' : Server} {o : Occurrence} {l : LockId} {signal : Signal}
  {w w₁ w₂ w₃ w₄ : World} {past : List Occurrence} {lock : LiveLock} {depth : Nat}

theorem lifted_step (h : Sound sv) (hs : Steps py cfg sv o sv') (hl : Lifted py signal l sv) :
    Lifted py signal l sv' ∨ Lowers py cfg signal l sv o sv' := by
  by_cases hlowers : Lowers py cfg signal l sv o sv'
  · exact .inr hlowers
  refine .inl fun after hafter => ?_
  obtain ⟨-, r, hr, hinfo⟩ := holding_some hafter
  have he : entry sv'.adaptor.store l = some (r, after.info.signals) := by rw [entry, hr, ← hinfo]; rfl
  rw [hasSignal_iff]
  obtain ⟨hcreates, -⟩ | ⟨signals, hold, hfollows⟩ := event_entry h hs he
  · exact absurd (.inl hcreates) hlowers
  · refine (hfollows signal).mpr (.inr ⟨fun hdel => hlowers (.inr hdel), ?_⟩)
    -- the entry was there before, with an owner
    obtain ⟨r', hr', hpair⟩ := Option.map_eq_some_iff.mp hold
    obtain ⟨c, hc⟩ := h.rep.owned hr'
    have hup := hl _ (holding_eq hc hr')
    rw [hasSignal_iff] at hup
    rw [← (Prod.mk.inj hpair).2]
    exact hup

/-- What was lifted and is not any more was lowered in between. -/
theorem lifted_run {os : List Occurrence} (h : Run (Steps py cfg) sv os sv') (hsound : Sound sv)
    (hl : Lifted py signal l sv) (hl' : ¬ Lifted py signal l sv') : ∃ pre o post v v', os = pre ++ o :: post ∧
      Run (Steps py cfg) sv pre v ∧ Steps py cfg v o v' ∧ Lowers py cfg signal l v o v' := by
  obtain ⟨pre, o, post, v, v', hsplit, hpre, hv, hs, hv', -⟩ :=
    h.became (P := fun v => ¬ Lifted py signal l v) (not_not_intro hl) hl'
  obtain hlifted | hlowers := lifted_step (sound_run hpre hsound) hs (not_not.mp hv)
  · exact absurd hlifted hv'
  · exact ⟨pre, o, post, v, v', hsplit, hpre, hs, hlowers⟩

theorem cancel_lifts {m : Method Bool} (hm : m = .cancel ∨ m = .cancelled) {answer : Answer}
    (hreturns : m.returns answer = some true) {clk clk' : Clock} {c : ClientId}
    (hstep : Table.Step py.fnmatch Service.grace clk clk' (holding sv.adaptor.store) (m.operation py c lock) answer
      (holding sv'.adaptor.store)) : Lifted py "CANCEL" lock.id sv' := by
  intro h hh
  obtain rfl | rfl := hm
  · generalize hafter : holding sv'.adaptor.store = after at hstep
    cases hstep with
    | signalAdded l signal h' hl =>
      rw [hafter, Table.modify, Function.update_self, hl] at hh
      obtain rfl := Option.some_inj.mp hh
      exact (hasSignal_iff _ _).mpr (raised_add.mpr (.inl rfl))
    | addToNone => cases hreturns
  · generalize hafter : holding sv'.adaptor.store = after at hstep
    cases hstep with
    | signalRead l signal h' hl =>
      rw [hafter, hl] at hh
      obtain rfl := Option.some_inj.mp hh
      exact Option.some_inj.mp hreturns
    | readOfNone l signal hl =>
      rw [hafter, hl] at hh
      cases hh

theorem cancelled_lowered {answer : Answer} (hreturns : Method.returns .cancelled answer = some false)
    {clk clk' : Clock} {c : ClientId} (hstep : Table.Step py.fnmatch Service.grace clk clk'
      (holding sv.adaptor.store) (Method.cancelled.operation py c lock) answer (holding sv'.adaptor.store)) :
    ¬ Lifted py "CANCEL" lock.id sv := by
  intro hlifted
  generalize hafter : holding sv'.adaptor.store = after at hstep
  cases hstep with
  | signalRead l signal h hl =>
    have hdown : h.info.hasSignal (py.lower "CANCEL") = false := Option.some_inj.mp hreturns
    cases hdown.symm.trans (hlifted h hl)
  | readOfNone => cases hreturns

/-- A client that has been told that a lock is cancelled is told otherwise only
if the lock has been taken anew since, or the signal was removed. -/
theorem cancellation_kept (hopen : ∀ session, lockedOut cfg session = false) (hstart : Start py cfg proc T w)
    {stages stages' : List (Option Request)} (hrun : Run (Goes py cfg proc) w stages w₁) {m : Method Bool}
    (hm : m = .cancel ∨ m = .cancelled)
    (hfirst : (m.program proc depth lock).Exec (Responds py cfg) (Meanwhile py cfg) w₁ (.ok true) w₂)
    (hmid : Run (Goes py cfg proc) w₂ stages' w₃) {depth' : Nat} {lock' : LiveLock} (hid : lock'.id = lock.id)
    (hsecond : (Method.cancelled.program proc depth' lock').Exec (Responds py cfg) (Meanwhile py cfg) w₃ (.ok false)
      w₄) : ∃ pre o post sv sv', w₄.history = pre ++ o :: post ∧ w₁.history <+: pre ∧
        Run (Steps py cfg) (.start T) pre sv ∧ Steps py cfg sv o sv' ∧ Lowers py cfg "CANCEL" lock.id sv o sv' := by
  have hready : Ready py cfg proc T w₁ := (ready_run hopen hrun (start_ready hstart)).1
  obtain ⟨hat₂, hok₁, -⟩ := method_spec hopen hfirst hready
  have hat₃ := ready_run hopen hmid hat₂.1
  obtain ⟨-, hok₂, -⟩ := method_spec hopen hsecond hat₃.1
  obtain ⟨answer₁, hreturns₁, htakes₁⟩ := hok₁ true rfl
  obtain ⟨answer₂, hreturns₂, later, o₂, post, v, v', -, -, clk₂, c₂, hsplit, hpast₂, hv, -, -, -, htable₂⟩ :=
    hok₂ false rfl
  obtain ⟨pre, o₁, os, sv, sv', clk₁, c₁, rfl, hpast, hbefore, hstep, hbetween, -, htable₁⟩ :=
    takes_before htakes₁ (hat₃.2.1.trans hpast₂) hv
  have hlifted : Lifted py "CANCEL" lock.id sv' := cancel_lifts hm hreturns₁ htable₁
  have hlowered : ¬ Lifted py "CANCEL" lock.id v := hid ▸ cancelled_lowered hreturns₂ htable₂
  have hsound : Sound sv' := sound_step (sound_run hbefore (sound_start T)) hstep
  obtain ⟨mid, o, post', u, u', rfl, hmidrun, hs, hlowers⟩ := lifted_run hbetween hsound hlifted hlowered
  refine ⟨pre ++ [o₁] ++ mid, o, post' ++ o₂ :: post, u, u', ?_, ?_, (hbefore.snoc hstep).append hmidrun, hs, hlowers⟩
  · rw [hsplit]
    simp
  · rw [List.append_assoc]
    exact hpast.trans (List.prefix_append _ _)

def asksTakesAsks (py : Builtins) : Option ((Except Exc Bool × World) × (Except Exc Response × World) ×
    (Except Exc Bool × World)) := do
  let asked ← played py (Method.cancelled.program homeProcess 3 batchLock)
    (greeted 0 ⟨"10.0.0.1", 40001⟩ ++ succeeds 1 ++ exchanged 0) home
  let taken ← played py (Client.sendCommand homeProcess 3 ["AQ", "batch"] true true)
    (succeeds 2 ++ exchanged 0) asked.2
  let again ← played py (Method.cancelled.program homeProcess 3 batchLock) (succeeds 2 ++ exchanged 0) taken.2
  pure (asked, taken, again)

/-- A lock that nobody holds counts as cancelled until it is taken. -/
theorem cancellation_kept_taken : ∃ (w : World) (pre : List Occurrence) (o : Occurrence) (post : List Occurrence)
    (sv sv' : Server), w.history.length = 6 ∧ w.history = pre ++ o :: post ∧
      Run (Steps ascii plainConfig) (.start 5) pre sv ∧ Steps ascii plainConfig sv o sv' ∧
      Lowers ascii plainConfig "CANCEL" "batch" sv o sv' := by
  have hplay : (asksTakesAsks ascii).map (fun p => (p.1.1.toOption, p.2.2.1.toOption, p.2.2.2.history.length)) =
      some (some true, some false, 6) := by
    decide +kernel
  obtain ⟨⟨⟨first, w₂⟩, ⟨result, w₃⟩, ⟨second, w₄⟩⟩, hplay, hfacts⟩ := Option.map_eq_some_iff.mp hplay
  obtain ⟨p, hp, hrest⟩ := Option.bind_eq_some_iff.mp hplay
  obtain ⟨q, hq, hrest⟩ := Option.bind_eq_some_iff.mp hrest
  obtain ⟨r, hr, hpure⟩ := Option.bind_eq_some_iff.mp hrest
  cases Option.some_inj.mp hpure
  simp only [Prod.mk.injEq] at hfacts
  obtain ⟨hfirst, hsecond, hlength⟩ := hfacts
  have htake : Goes ascii plainConfig homeProcess w₂ (some ⟨3, ["AQ", "batch"], true, result⟩) w₃ :=
    ⟨plain_verb (verb_aq ascii) (by decide) ["batch"], played_exec hq⟩
  cases first with
  | error e => cases hfirst
  | ok b =>
    obtain rfl := Option.some_inj.mp hfirst
    cases second with
    | error e => cases hsecond
    | ok b' =>
      obtain rfl := Option.some_inj.mp hsecond
      obtain ⟨pre, o, post, sv, sv', hsplit, -, hrun, hs, hlowers⟩ :=
        cancellation_kept (fun _ => rfl) home_start .nil (.inr rfl) (played_exec hp) (.single htake) rfl
          (played_exec hr)
      exact ⟨w₄, pre, o, post, sv, sv', hlength, hsplit, hrun, hs, hlowers⟩

end Livelock.Cancellation
