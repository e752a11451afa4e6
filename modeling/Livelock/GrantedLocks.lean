import Livelock.MethodCalls
import Livelock.Honour

namespace Livelock.GrantedLocks

open Livelock.Lib Livelock.Shared Livelock.MemoryStorage Livelock.StorageRun Livelock.StorageTable
open Livelock.Server Livelock.ServerRun Livelock.ServerLease Livelock.CallHistory Livelock.Exchange
open Livelock.KeptId Livelock.GenuineAnswers Livelock.MethodCalls Livelock.Ascii
open Livelock.LockService (Service)
open Livelock.Honour (Denies not_denied)
open Livelock.Client (LiveLock Process Exc)
open Livelock.ClientReader (Response)
open Livelock.Network (Choice Move)

variable (py : Builtins) (cfg : Config)

/-- `c`, who holds the lock with no deadline, gives it up, or a connection of it is
lost that is its last known one, or any of its connections while it has no known
address. -/
def Ends (c : ClientId) (l : LockId) (sv : Server) (o : Occurrence) : Prop :=
  leaseOf sv l = some ⟨c, none⟩ ∧
    ((∃ k, Asks py cfg sv o k (.release c l) ∧ Answers o true) ∨ ∃ k, Drops sv o k c)

/-- The holding has come to an end between these two histories. -/
def EndsIn (T : Time) (past later : List Occurrence) (c : ClientId) (l : LockId) : Prop :=
  ∃ pre o post sv sv', later = pre ++ o :: post ∧ past <+: pre ∧ Run (Steps py cfg) (.start T) pre sv ∧
    Steps py cfg sv o sv' ∧ Ends py cfg c l sv o

variable {py cfg} {proc : Process} {T : Time} {sv sv' : Server} {o : Occurrence} {l : LockId} {c : ClientId}
  {w w' w₁ w₂ w₃ w₄ : World} {lock : LiveLock} {depth : Nat} {id : String}

theorem held_run {os : List Occurrence} (h : Run (Steps py cfg) sv os sv') (hsound : Sound sv)
    (hheld : leaseOf sv l = some ⟨c, none⟩) (hlost : leaseOf sv' l ≠ some ⟨c, none⟩) :
    ∃ pre o post v v', os = pre ++ o :: post ∧ Run (Steps py cfg) sv pre v ∧ Steps py cfg v o v' ∧
      Ends py cfg c l v o := by
  obtain ⟨pre, o, post, v, v', hsplit, hpre, hv, hs, hv', -⟩ :=
    h.became (P := fun v => leaseOf v l ≠ some ⟨c, none⟩) (not_not_intro hheld) hlost
  have hv : leaseOf v l = some ⟨c, none⟩ := not_not.mp hv
  obtain hkept | hends := unmarked_step (sound_run hpre hsound) hs hv
  · exact absurd hkept hv'
  · exact ⟨pre, o, post, v, v', hsplit, hpre, hs, hv, hends⟩

theorem acquired_held (hplain : lock.reentrant = false) {answer : Answer}
    (hreturns : Method.returns .acquire answer = some true) {clk clk' : Clock}
    (hstep : Table.Step py.fnmatch Service.grace clk clk' (holding sv.adaptor.store)
      (Method.acquire.operation py c lock) answer (holding sv'.adaptor.store)) :
    leaseOf sv' lock.id = some ⟨c, none⟩ := by
  rw [leaseOf, lease_holding]
  generalize holding sv'.adaptor.store = after at hstep
  rw [Method.operation, hplain] at hstep
  cases hstep with
  | held => cases hreturns
  | created =>
    rw [Table.create, Function.update_self]
    rfl

theorem denied_lost {m : Method Bool} (hm : m = .isLocked ∨ m = .locked ∨ ∃ reconnect, m = .release reconnect)
    {answer : Answer} (hreturns : m.returns answer = some false) {clk clk' : Clock}
    (hstep : Table.Step py.fnmatch Service.grace clk clk' (holding sv.adaptor.store) (m.operation py c lock) answer
      (holding sv'.adaptor.store)) : leaseOf sv lock.id ≠ some ⟨c, none⟩ := by
  intro hheld
  rw [leaseOf, lease_holding] at hheld
  obtain ⟨h, hh, hlease⟩ := Option.map_eq_some_iff.mp hheld
  obtain ⟨howner, hmark⟩ := Lease.mk.inj hlease
  have hlive : (holding sv.adaptor.store).live clk.now lock.id = some h := by
    rw [live_eq _ _ hh, late, hmark]
    rfl
  have hlocked : ∀ {answer after}, answer = .bool false →
      ¬ Table.Step py.fnmatch Service.grace clk clk' (holding sv.adaptor.store) (.locked lock.id) answer after := by
    intro answer after hfalse hstep
    cases hstep with
    | locked =>
      rw [hh] at hfalse
      cases hfalse
    | lockedLate _ hlate => cases hlive.symm.trans hlate
  have hfalse : ∀ {m : Method Bool}, m = .isLocked ∨ m = .locked → m.returns answer = some false →
      answer = .bool false := by
    rintro m (rfl | rfl) hreturns
    all_goals
      cases answer with
      | bool b =>
        cases hreturns
        rfl
      | none | signal | found => cases hreturns
  obtain rfl | rfl | ⟨reconnect, rfl⟩ := hm
  · exact hlocked (hfalse (.inl rfl) hreturns) hstep
  · exact hlocked (hfalse (.inr rfl) hreturns) hstep
  · generalize holding sv'.adaptor.store = after at hstep
    cases hstep with
    | released => cases hreturns
    | notOwner _ _ hother => exact hother h hh howner

theorem bears_command (hid : id ≠ "") {ws : List String} {reconnect : Bool} {result : Except Exc Response}
    (h : (Client.sendCommand proc depth ws reconnect true).Exec (Responds py cfg) (Meanwhile py cfg) w result w')
    (hw : Bears proc id w.net.client.clientId w.net.client.clientIdPid) :
    Bears proc id w'.net.client.clientId w'.net.client.clientIdPid := by
  have hend := keeping_bears hid depth ws reconnect true w result w' hw h
  cases result with
  | ok r => exact hend
  | error e => exact hend

theorem bears_run (hid : id ≠ "") {stages : List (Option Request)} (hrun : Run (Goes py cfg proc) w stages w')
    (hw : Bears proc id w.net.client.clientId w.net.client.clientIdPid) :
    Bears proc id w'.net.client.clientId w'.net.client.clientIdPid := by
  refine hrun.invariant (I := fun w => Bears proc id w.net.client.clientId w.net.client.clientIdPid) hw
    fun v stage v' _ hv hs => ?_
  cases stage with
  | none => exact lasting_id v v' hs hv
  | some c => exact bears_command hid hs.2 hv

theorem EndsIn.append {past later : List Occurrence} (h : EndsIn py cfg T past later c l) (rest : List Occurrence) :
    EndsIn py cfg T past (later ++ rest) c l := by
  obtain ⟨pre, o, post, sv, sv', rfl, h⟩ := h
  exact ⟨pre, o, post ++ rest, sv, sv', by simp, h⟩

/-- What a call has acquired is held in every later state until it comes to an end. -/
theorem held_after (hopen : ∀ session, lockedOut cfg session = false) (hplain : lock.reentrant = false)
    (hcall : (Method.acquire.program proc depth lock).Exec (Responds py cfg) (Meanwhile py cfg) w (.ok true) w')
    (hw : Ready py cfg proc T w) {later : List Occurrence} {v : Server} (hlater : w'.history <+: later)
    (hv : Run (Steps py cfg) (.start T) later v) : ∃ c : ClientId, w'.net.client.clientId = some c.name ∧
      (leaseOf v lock.id = some ⟨c, none⟩ ∨ EndsIn py cfg T w.history later c lock.id) := by
  obtain ⟨-, hok, -⟩ := method_spec hopen hcall hw
  obtain ⟨answer, hreturns, htakes⟩ := hok true rfl
  obtain ⟨pre, o, os, sv, sv', clk, c, rfl, hpast, hbefore, hstep, hbetween, hc, htable⟩ :=
    takes_before htakes hlater hv
  refine ⟨c, hc, ?_⟩
  have hheld : leaseOf sv' lock.id = some ⟨c, none⟩ := acquired_held hplain hreturns htable
  by_cases hlost : leaseOf v lock.id = some ⟨c, none⟩
  · exact .inl hlost
  have hsound : Sound sv' := sound_step (sound_run hbefore (sound_start T)) hstep
  obtain ⟨mid, e, post, u, u', rfl, hmidrun, hs, hends⟩ := held_run hbetween hsound hheld hlost
  refine .inr ⟨pre ++ [o] ++ mid, e, post, u, u', by simp, ?_, (hbefore.snoc hstep).append hmidrun, hs, hends⟩
  rw [List.append_assoc]
  exact hpast.trans (List.prefix_append _ _)

/-- A plain lock that a client has acquired is there until it is released in the
name of the client, or a connection of the client is lost that is its last known
one, or any of them while it has no known address. -/
theorem granted_kept (hopen : ∀ session, lockedOut cfg session = false) (hstart : Start py cfg proc T w)
    {stages stages' : List (Option Request)} (hrun : Run (Goes py cfg proc) w stages w₁)
    (hplain : lock.reentrant = false)
    (hfirst : (Method.acquire.program proc depth lock).Exec (Responds py cfg) (Meanwhile py cfg) w₁ (.ok true) w₂)
    (hmid : Run (Goes py cfg proc) w₂ stages' w₃) {m : Method Bool}
    (hm : m = .isLocked ∨ m = .locked ∨ ∃ reconnect, m = .release reconnect) {depth' : Nat} {lock' : LiveLock}
    (hid : lock'.id = lock.id)
    (hsecond : (m.program proc depth' lock').Exec (Responds py cfg) (Meanwhile py cfg) w₃ (.ok false) w₄) :
    ∃ c : ClientId, w₂.net.client.clientId = some c.name ∧ w₄.net.client.clientId = some c.name ∧
      EndsIn py cfg T w₁.history w₄.history c lock.id := by
  have hready : Ready py cfg proc T w₁ := (ready_run hopen hrun (start_ready hstart)).1
  have hat₂ := (method_spec hopen hfirst hready).1
  have hat₃ := ready_run hopen hmid hat₂.1
  obtain ⟨-, hok, -⟩ := method_spec hopen hsecond hat₃.1
  obtain ⟨answer, hreturns, later, o, post, v, v', -, -, clk, c', hsplit, hpast, hv, -, -, hc', htable⟩ :=
    hok false rfl
  obtain ⟨c, hc, hheld⟩ := held_after hopen hplain hfirst hready (hat₃.2.1.trans hpast) hv
  have hsame : c' = c := by
    have hbears := bears_run c.nonempty hmid ⟨hc, hat₂.1.1.clientIdPid⟩
    obtain ⟨answered, hsend, -⟩ := exec_method hsecond
    have hname := (bears_command c.nonempty hsend hbears).1
    obtain ⟨name, hne⟩ := c
    obtain ⟨name', hne'⟩ := c'
    cases hname.symm.trans hc'
    rfl
  subst hsame
  refine ⟨c', hc, hc', ?_⟩
  rw [hsplit]
  obtain hheld | hends := hheld
  · exact absurd hheld (hid ▸ denied_lost hm hreturns htable)
  · exact hends.append _

def replyLostLater : List (Move ⊕ Choice) :=
  GenuineAnswers.succeeds 4 ++ [.inl (.execute 0 carol), .inr .fail] ++ GenuineAnswers.succeeds 5 ++
    greeted 1 ⟨"10.0.0.1", 40002⟩ ++ exchanged 1

def releasesTwice (py : Builtins) : Option ((Except Exc Bool × World) × (Except Exc Bool × World)) := do
  let taken ← played py (Method.acquire.program homeProcess 3 batchLock)
    (greeted 0 ⟨"10.0.0.1", 40001⟩ ++ succeeds 1 ++ exchanged 0) home
  let released ← played py ((Method.release true).program homeProcess 3 batchLock) replyLostLater taken.2
  pure (taken, released)

/-- Alice is told that she does not have the lock, which she has released. -/
theorem granted_kept_repeated : ∃ (w : World) (c : ClientId), w.history.length = 9 ∧
    w.net.client.clientId = some c.name ∧ EndsIn ascii plainConfig 5 [] w.history c "batch" := by
  have hplay : (releasesTwice ascii).map (fun p => (p.1.1.toOption, p.2.1.toOption, p.2.2.history.length)) =
      some (some true, some false, 9) := by
    decide +kernel
  obtain ⟨⟨⟨first, w₁⟩, ⟨second, w₂⟩⟩, hplay, hfacts⟩ := Option.map_eq_some_iff.mp hplay
  obtain ⟨p, hp, hrest⟩ := Option.bind_eq_some_iff.mp hplay
  obtain ⟨q, hq, hpure⟩ := Option.bind_eq_some_iff.mp hrest
  cases Option.some_inj.mp hpure
  simp only [Prod.mk.injEq] at hfacts
  obtain ⟨hfirst, hsecond, hlength⟩ := hfacts
  cases first with
  | error e => cases hfirst
  | ok b =>
    obtain rfl := Option.some_inj.mp hfirst
    cases second with
    | error e => cases hsecond
    | ok b' =>
      obtain rfl := Option.some_inj.mp hsecond
      obtain ⟨c, -, hc, hends⟩ :=
        granted_kept (fun _ => rfl) home_start .nil rfl (played_exec hp) .nil (.inr (.inr ⟨true, rfl⟩)) rfl
          (played_exec hq)
      exact ⟨w₂, c, hlength, hc, hends⟩

/-- After a call has acquired a plain lock, the lock is the client's in every
state that the server comes to, and no event tells anybody otherwise, until it
comes to an end. -/
theorem granted_exclusive (hopen : ∀ session, lockedOut cfg session = false) (hstart : Start py cfg proc T w)
    {stages : List (Option Request)} (hrun : Run (Goes py cfg proc) w stages w₁) (hplain : lock.reentrant = false)
    (hcall : (Method.acquire.program proc depth lock).Exec (Responds py cfg) (Meanwhile py cfg) w₁ (.ok true) w₂)
    {later : List Occurrence} {v : Server} (hlater : w₂.history <+: later)
    (hv : Run (Steps py cfg) (.start T) later v) : ∃ c : ClientId, w₂.net.client.clientId = some c.name ∧
      (leaseOf v lock.id = some ⟨c, none⟩ ∧ (∀ o v', Steps py cfg v o v' → ¬ Denies py cfg c lock.id v o) ∨
        EndsIn py cfg T w₁.history later c lock.id) := by
  have hready : Ready py cfg proc T w₁ := (ready_run hopen hrun (start_ready hstart)).1
  obtain ⟨c, hc, hheld | hends⟩ := held_after hopen hplain hcall hready hlater hv
  · exact ⟨c, hc, .inl ⟨hheld, fun o v' ho => not_denied (sound_run hv (sound_start T)) ho hheld⟩⟩
  · exact ⟨c, hc, .inr hends⟩

/-- Alice has taken the lock, and nothing else has happened. -/
theorem granted_exclusive_taken : ∃ (w : World) (c : ClientId), w.history.length = 4 ∧
    w.net.client.clientId = some c.name ∧ (leaseOf w.net.server "batch" = some ⟨c, none⟩ ∧
      (∀ o v', Steps ascii plainConfig w.net.server o v' → ¬ Denies ascii plainConfig c "batch" w.net.server o) ∨
        EndsIn ascii plainConfig 5 [] w.history c "batch") := by
  have hplay : (played ascii (Method.acquire.program homeProcess 3 batchLock)
      (greeted 0 ⟨"10.0.0.1", 40001⟩ ++ GenuineAnswers.succeeds 1 ++ exchanged 0) home).map
        (fun p => (p.1.toOption, p.2.history.length)) = some (some true, 4) := by
    decide +kernel
  obtain ⟨⟨result, w⟩, hplay, hfacts⟩ := Option.map_eq_some_iff.mp hplay
  obtain ⟨hresult, hlength⟩ := Prod.mk.inj hfacts
  cases result with
  | error e => cases hresult
  | ok b =>
    obtain rfl := Option.some_inj.mp hresult
    have hcall := played_exec hplay
    have hat := (method_spec (fun _ => rfl) hcall (start_ready home_start)).1
    obtain ⟨c, hc, hheld⟩ :=
      granted_exclusive (fun _ => rfl) home_start .nil rfl hcall List.prefix_rfl hat.1.1.reached
    exact ⟨w, c, hlength, hc, hheld⟩

end Livelock.GrantedLocks
