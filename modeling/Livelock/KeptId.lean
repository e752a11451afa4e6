import Livelock.Exchange

namespace Livelock.KeptId

open Livelock.Lib Livelock.Shared Livelock.Server Livelock.ClientReader
open Livelock.CallHistory Livelock.Exchange
open Livelock.Client (LiveLockConnection Process Exc Call Comp)
open Livelock.Lib.Prog (triple_bind triple_ret triple_raise triple_perform triple_pre triple_absurd)

variable {py : Builtins} {cfg : Config} {proc : Process} {w w' : World} {ws : List String}
  {P : Option String → Nat → Prop} {send : List String → Bool → Bool → Comp Response}

theorem lasting_id : Prog.Stable (Meanwhile py cfg) fun w =>
    P w.net.client.clientId w.net.client.clientIdPid := by
  refine lasting fun w o w' hc hw => ?_
  rw [(change_steps hc).2.2.1]
  exact hw

theorem responds_id {e : Call} {r : e.Result} (h : Responds py cfg w e r w')
    (he : ∀ id pid, e ≠ .keepId id pid) : w'.net.client.clientId = w.net.client.clientId ∧
      w'.net.client.clientIdPid = w.net.client.clientIdPid := by
  obtain ⟨choice, -, hanswer, -⟩ := responds_net h
  generalize w'.net = net at hanswer
  cases e with
  | keepId id pid => exact absurd rfl (he id pid)
  | connect =>
    cases choice with
    | accept peername =>
      obtain ⟨p, -, heq⟩ := Option.map_eq_some_iff.mp hanswer
      cases heq
      exact ⟨rfl, rfl⟩
    | refuse | fail =>
      cases hanswer
      exact ⟨rfl, rfl⟩
    | succeed | failLate => cases hanswer
  | sendall k ws =>
    cases choice with
    | succeed | failLate =>
      obtain ⟨-, heq⟩ := Option.ite_none_left_eq_some.mp hanswer
      cases heq
      exact ⟨rfl, rfl⟩
    | fail =>
      cases hanswer
      exact ⟨rfl, rfl⟩
    | accept | refuse => cases hanswer
  | read k =>
    cases choice with
    | succeed =>
      obtain ⟨-, heq⟩ := Option.ite_none_left_eq_some.mp hanswer
      cases hread : readResponse py (w.net.received k) with
      | none =>
        rw [hread] at heq
        cases heq
        exact ⟨rfl, rfl⟩
      | some p =>
        rw [hread] at heq
        cases heq
        exact ⟨rfl, rfl⟩
    | fail =>
      cases hanswer
      exact ⟨rfl, rfl⟩
    | accept | refuse | failLate => cases hanswer
  | self | keepSock | dropSock | close =>
    cases choice with
    | succeed =>
      cases hanswer
      exact ⟨rfl, rfl⟩
    | accept | refuse | fail | failLate => cases hanswer

variable (py cfg P) in
/-- A program that keeps a property of the client's id and its process. -/
def Keeping {α : Type} (p : Comp α) : Prop :=
  Spec py cfg (fun w => P w.net.client.clientId w.net.client.clientIdPid) p
    (fun _ w => P w.net.client.clientId w.net.client.clientIdPid)
    fun _ w => P w.net.client.clientId w.net.client.clientIdPid

theorem keeping_call (e : Call) (he : ∀ id pid, e ≠ .keepId id pid) :
    Keeping py cfg P (Prog.perform e : Comp e.Result) := by
  refine triple_perform lasting_id fun _ _ _ hw hr => ?_
  obtain ⟨hid, hpid⟩ := responds_id hr he
  rw [hid, hpid]
  exact hw

theorem keeping_self : Keeping py cfg P Client.self := keeping_call .self (by simp)

theorem keeping_lift {α : Type} {o : Except Exc α} : Keeping py cfg P (Prog.lift o : Comp α) := by
  cases o with
  | ok a => exact triple_ret fun w hw => hw
  | error e => exact triple_raise fun w hw => hw

theorem keeping_close : Keeping py cfg P (Client.close proc) := by
  refine triple_bind keeping_self fun self => ?_
  cases self.ownSock proc.pid with
  | none => exact triple_ret fun w hw => hw
  | some k => exact keeping_call (.close k) (by simp)

theorem keeping_connect (reconnect : Bool) {doConn : Bool}
    (hconn : doConn = true → Keeping py cfg P (Client.sendConnect proc send reconnect)) :
    Keeping py cfg P (Client.connect proc send reconnect doConn) := by
  refine triple_bind keeping_self fun self => ?_
  cases self.ownSock proc.pid with
  | some k => exact triple_ret fun w hw => hw
  | none =>
    have honce : Keeping py cfg P Client.connectOnce :=
      triple_bind (keeping_call .connect (by simp)) fun o => keeping_lift
    refine triple_bind (Client.triple_connectSocket honce _) fun k => ?_
    have hkeep : Keeping py cfg P (Client.keepSock k proc.pid) := keeping_call (.keepSock k proc.pid) (by simp)
    refine triple_bind hkeep fun _ => ?_
    cases doConn with
    | true => exact hconn rfl
    | false => exact triple_ret fun w hw => hw

theorem keeping_exchange : Keeping py cfg P (Client.exchange ws) := by
  refine triple_bind keeping_self fun self => ?_
  cases self.sock with
  | none => exact triple_raise fun w hw => hw
  | some k =>
    have hsend : Keeping py cfg P (Client.sendall k ws) :=
      triple_bind (keeping_call (.sendall k ws) (by simp)) fun o => keeping_lift
    have hread : Keeping py cfg P (Client.read k) :=
      triple_bind (keeping_call (.read k) (by simp)) fun o => keeping_lift
    refine triple_bind hsend fun _ => triple_bind hread fun r => ?_
    cases r with
    | error => exact triple_raise fun w hw => hw
    | text | value => exact triple_ret fun w hw => hw

theorem keeping_command {depth : Nat} (reconnect : Bool) {doConn : Bool} (hconn : doConn = true →
      ∀ reconnect, Keeping py cfg P (Client.sendConnect proc (Client.sendCommand proc depth) reconnect)) :
    Keeping py cfg P (Client.sendCommand proc (depth + 1) ws reconnect doConn) := by
  refine triple_bind (keeping_connect reconnect fun h => hconn h reconnect) fun _ =>
    triple_bind keeping_self fun self => ?_
  have hdrop : Keeping py cfg P Client.dropSock := keeping_call .dropSock (by simp)
  have hreconnect : Keeping py cfg P (Client.reconnect proc (Client.sendCommand proc depth) doConn) :=
    triple_bind keeping_close fun _ => triple_bind hdrop fun _ => keeping_connect false fun h => hconn h false
  have hagain : Keeping py cfg P (Client.attempt proc (Client.sendCommand proc depth) ws doConn true) :=
    triple_bind hreconnect fun _ => keeping_exchange
  have hfirst : Keeping py cfg P (Client.attempt proc (Client.sendCommand proc depth) ws doConn false) :=
    keeping_exchange
  dsimp only
  split
  · exact triple_raise fun w hw => hw
  · exact Client.triple_retry hfirst (fun _ => hagain) (fun _ _ => keeping_close) (fun _ hw => hw)
      (fun _ _ hw => hw) _

theorem keeping_sendCommand (depth : Nat) (reconnect : Bool) :
    Keeping py cfg P (Client.sendCommand proc depth ws reconnect false) := by
  cases depth with
  | zero => exact triple_raise fun w hw => hw
  | succ depth => exact keeping_command reconnect nofun

def Bears (proc : Process) (id : String) (clientId : Option String) (pid : Nat) : Prop :=
  clientId = some id ∧ pid = proc.pid

theorem keeping_sendConnect {id : String} (hid : id ≠ "")
    (hsend : ∀ ws reconnect doConn, Keeping py cfg (Bears proc id) (send ws reconnect doConn)) (reconnect : Bool) :
    Keeping py cfg (Bears proc id) (Client.sendConnect proc send reconnect) := by
  have hpassword : Keeping py cfg (Bears proc id) (Client.sendPassword send) := by
    refine triple_bind keeping_self fun self => ?_
    cases Client.truthy self.password with
    | none => exact triple_ret fun w hw => hw
    | some password => exact triple_bind (hsend _ _ _) fun _ => triple_ret fun w hw => hw
  have hown : Keeping py cfg (Bears proc id) (Client.sendId proc send reconnect) := by
    refine triple_bind (spec_self lasting_id) fun self => ?_
    cases htruthy : Client.truthy (self.ownId proc.pid) with
    | none =>
      refine triple_absurd ?_
      rintro w ⟨⟨hclient, hpid⟩, rfl⟩
      rw [LiveLockConnection.ownId, if_pos hpid, hclient, Client.truthy, Option.filter_some_pos] at htruthy
      · cases htruthy
      · exact decide_eq_true hid
    | some clientId =>
      refine triple_bind (triple_pre (hsend _ _ _) fun w hw => hw.1) fun r => triple_bind keeping_self fun self => ?_
      split
      · exact triple_ret fun w hw => hw
      · exact triple_raise fun w hw => hw
  exact triple_bind hpassword fun _ => triple_bind hown fun _ => triple_bind (hsend _ _ _) fun _ =>
    triple_ret fun w hw => hw

/-- A client that has got an id keeps it. -/
theorem keeping_bears {id : String} (hid : id ≠ "") (depth : Nat) (ws : List String) (reconnect doConn : Bool) :
    Keeping py cfg (Bears proc id) (Client.sendCommand proc depth ws reconnect doConn) := by
  induction depth generalizing ws reconnect doConn with
  | zero => exact triple_raise fun w hw => hw
  | succ depth ih => exact keeping_command reconnect fun _ reconnect => keeping_sendConnect hid ih reconnect

end Livelock.KeptId
