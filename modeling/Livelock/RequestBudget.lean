import Livelock.Client
import Livelock.Lib.Budget
import Mathlib.Algebra.Order.Monoid.Prod
import Mathlib.Algebra.Order.Ring.Nat
import Mathlib.Order.Bounds.Defs

namespace Livelock.RequestBudget

open Livelock.Lib Livelock.Shared Livelock.ClientReader Livelock.Client
open Livelock.ServerRun (ConnId)
open Livelock.Lib.Prog (Spends Triple Agrees spends_ret spends_raise spends_bind spends_handle
  spends_perform spends_lift spends_pre spends_post spends_le agrees_refl agrees_pre agrees_bind
  agrees_handle)

/-- What the client knows of itself, and what its command has come to so far:
the attempts to connect and the requests that were sent. -/
structure Tally where
  client : LiveLockConnection
  connects : Nat := 0
  sends : Nat := 0

def Tally.cost (t : Tally) : Nat × Nat := (t.connects, t.sends)

/-- The client's own fields are what it makes them. Of its sockets everything
can come: any answer and any error, at each call. -/
def Responds (t : Tally) : (e : Call) → e.Result → Tally → Prop
  | .self, r, t' => r = t.client ∧ t' = t
  | .keepSock k pid, _, t' => t' = { t with client := { t.client with sock := some k, sockPid := pid } }
  | .dropSock, _, t' => t' = { t with client := { t.client with sock := none } }
  | .keepId clientId pid, _, t' =>
    t' = { t with client := { t.client with clientId := clientId, clientIdPid := pid } }
  | .connect, _, t' => t' = { t with connects := t.connects + 1 }
  | .sendall _ _, _, t' => t' = { t with sends := t.sends + 1 }
  | .read _, _, t' | .close _, _, t' => t' = t

def Undisturbed (_ _ : Tally) : Prop := False

/-- What a program makes of the client where it ends without an exception, and
how many attempts to connect and requests it takes at most. -/
def Spec {α : Type} (P : LiveLockConnection → Prop) (p : Comp α) (Q : α → LiveLockConnection → Prop)
    (n : Nat × Nat) : Prop :=
  Spends Responds Undisturbed Tally.cost (fun t => P t.client) p (fun a t => Q a t.client)
    (fun _ _ => True) n

variable (proc : Process)

def Connected (self : LiveLockConnection) : Prop := (self.ownSock proc.pid).isSome

variable {proc} {α β : Type} {P : LiveLockConnection → Prop} {p : Comp α} {f : α → Comp β}
  {S : α → LiveLockConnection → Prop} {Q : β → LiveLockConnection → Prop}
  {send send' : List String → Bool → Bool → Comp Response} {ws : List String} {n m b : Nat × Nat}

theorem spec_bind (hp : Spec P p S m) (hf : ∀ a, Spec (S a) (f a) Q n) : Spec P (p >>= f) Q (m + n) :=
  spends_bind hp hf

theorem spec_free (hp : Spec P p S 0) (hf : ∀ a, Spec (S a) (f a) Q n) : Spec P (p >>= f) Q n := by
  have hsum := spec_bind hp hf
  rwa [zero_add] at hsum

theorem spec_ret {a : α} (h : ∀ c, P c → S a c) : Spec P (.ret a) S n :=
  spends_le (spends_ret fun _ ht => h _ ht) zero_le

theorem spec_raise (x : Exc) : Spec P (.raise x) S n := spends_le (spends_raise fun _ _ => trivial) zero_le

theorem spec_pre {P' : LiveLockConnection → Prop} (hp : Spec P p S n) (h : ∀ c, P' c → P c) : Spec P' p S n :=
  spends_pre hp fun _ ht => h _ ht

theorem spec_post {S' : α → LiveLockConnection → Prop} (hp : Spec P p S n) (h : ∀ a c, S a c → S' a c) :
    Spec P p S' n := spends_post hp (fun a _ ht => h a _ ht) fun _ _ ht => ht

theorem spec_handle {h : Exc → Comp α} (hp : Spec P p S m) (hh : ∀ x, Spec (fun _ => True) (h x) S n) :
    Spec P (p.handle h) S (m + n) := spends_handle hp hh

theorem spec_absurd (h : ∀ c, ¬ P c) : Spec P p S n := fun _ _ _ ht => absurd ht (h _)

theorem spec_self : Spec P Client.self (fun self c => P c ∧ c = self) 0 := by
  refine spends_perform (fun _ _ => id) fun t r t' ht hr => ?_
  obtain ⟨rfl, rfl⟩ := hr
  exact ⟨⟨ht, rfl⟩, (add_zero _).ge⟩

theorem spec_keepSock (k : ConnId) : Spec P (Client.keepSock k proc.pid) (fun _ => Connected proc) 0 := by
  refine spends_perform (fun _ _ => id) fun t r t' ht hr => ?_
  obtain rfl : t' = _ := hr
  refine ⟨?_, (add_zero _).ge⟩
  simp [Connected, LiveLockConnection.ownSock]

theorem spec_dropSock : Spec P dropSock (fun _ _ => True) 0 := by
  refine spends_perform (fun _ _ => id) fun t r t' ht hr => ?_
  obtain rfl : t' = _ := hr
  exact ⟨trivial, (add_zero _).ge⟩

theorem spec_keepId (clientId : Option String) :
    Spec (Connected proc) (keepId clientId proc.pid) (fun _ => Connected proc) 0 := by
  refine spends_perform (fun _ _ => id) fun t r t' ht hr => ?_
  obtain rfl : t' = _ := hr
  exact ⟨ht, (add_zero _).ge⟩

theorem spec_connectOnce : Spec P connectOnce (fun _ => P) (1, 0) := by
  refine spends_bind (m := (1, 0)) (n := 0) (spends_perform (fun _ _ => id) fun t r t' ht hr => ?_)
    fun o => spends_lift
  obtain rfl : t' = _ := hr
  refine ⟨?_, le_rfl⟩
  cases r with
  | ok k => exact ht
  | error x => trivial

theorem spec_sendall (k : ConnId) : Spec P (sendall k ws) (fun _ => P) (0, 1) := by
  refine spends_bind (m := (0, 1)) (n := 0) (spends_perform (fun _ _ => id) fun t r t' ht hr => ?_)
    fun o => spends_lift
  obtain rfl : t' = _ := hr
  refine ⟨?_, le_rfl⟩
  cases r with
  | ok u => exact ht
  | error x => trivial

theorem spec_readResponse (k : ConnId) : Spec P (readResponse k) (fun _ => P) 0 := by
  have hread : Spec P (Client.read k) (fun _ => P) 0 := by
    refine spends_bind (m := 0) (n := 0) (spends_perform (fun _ _ => id) fun t r t' ht hr => ?_)
      fun o => spends_lift
    obtain rfl : t' = _ := hr
    refine ⟨?_, (add_zero _).ge⟩
    cases r with
    | ok r => exact ht
    | error x => trivial
  refine spec_free hread fun r => ?_
  cases r with
  | error msg code => exact spec_raise _
  | text | value => exact spec_ret fun _ h => h

theorem spec_close : Spec P (close proc) (fun _ => P) 0 := by
  refine spec_free spec_self fun self => ?_
  cases self.ownSock proc.pid with
  | none => exact spec_ret fun _ h => h.1
  | some k =>
    refine spends_perform (fun _ _ => id) fun t r t' ht hr => ?_
    obtain rfl : t' = _ := hr
    exact ⟨ht.1, (add_zero _).ge⟩

theorem spec_exchange : Spec P (exchange ws) (fun _ => P) (0, 1) := by
  refine spec_free spec_self fun self => ?_
  cases self.sock with
  | none => exact spec_raise _
  | some k =>
    have hsend : Spec P (sendall k ws) (fun _ => P) (0, 1) := spec_sendall k
    exact spec_pre (spec_bind hsend fun _ => spec_readResponse k) fun _ h => h.1

theorem spec_connectSocket (n : Nat) : Spec P (connectSocket n) (fun _ _ => True) (n, 0) := by
  induction n generalizing P with
  | zero => exact spec_raise _
  | succ n ih =>
    have hsum : ((n + 1, 0) : Nat × Nat) = (1, 0) + (n, 0) := by
      rw [Prod.mk_add_mk, Nat.add_comm]
    rw [hsum]
    refine spec_handle (spec_post spec_connectOnce fun _ _ _ => trivial) fun x => ?_
    cases x with
    | refused => exact ih
    | os => exact spec_raise .os
    | client msg code => exact spec_raise (.client msg code)
    | other => exact spec_raise .other

theorem spec_connected (reconnect doConn : Bool) :
    Spec (Connected proc) (connect proc send reconnect doConn) (fun _ => Connected proc) 0 := by
  refine spec_free spec_self fun self => ?_
  cases hself : self.ownSock proc.pid with
  | some k => exact spec_ret fun _ h => h.1
  | none =>
    refine spec_absurd ?_
    rintro c ⟨hconnected, rfl⟩
    rw [Connected, hself] at hconnected
    cases hconnected

theorem spec_connect {reconnect doConn : Bool}
    (hhand : doConn = true → Spec (Connected proc) (sendConnect proc send reconnect) (fun _ => Connected proc) n) :
    Spec P (connect proc send reconnect doConn) (fun _ => Connected proc) ((3, 0) + if doConn then n else 0) := by
  refine spec_free spec_self fun self => ?_
  cases hself : self.ownSock proc.pid with
  | some k =>
    refine spec_ret ?_
    rintro c ⟨-, rfl⟩
    simp [Connected, hself]
  | none =>
    refine spec_bind (spec_connectSocket reconnectAttempts) fun k => ?_
    refine spec_free (spec_keepSock k) fun _ => ?_
    cases doConn with
    | true => exact hhand rfl
    | false => exact spec_ret fun _ h => h

theorem spec_retry {reconnect doConn phase : Bool}
    (hfirst : Spec P (attempt proc send ws doConn phase) (fun _ => Connected proc) m)
    (hlater : reconnect = true →
      Spec (fun _ => True) (attempt proc send ws doConn true) (fun _ => Connected proc) n) (i : Nat) :
    Spec P (retry proc send ws reconnect doConn (i + 1) phase) (fun _ => Connected proc)
      (m + if reconnect then i • n else 0) := by
  induction i generalizing P m phase with
  | zero =>
    refine spec_handle hfirst fun e => ?_
    split
    · refine spec_free spec_close fun _ => ?_
      simp only [decide_true, Bool.or_true, if_true]
      exact spec_raise e
    · exact spec_raise e
  | succ i ih =>
    refine spec_handle hfirst fun e => ?_
    split
    · refine spec_free spec_close fun _ => ?_
      cases hr : reconnect with
      | false =>
        simp only [Bool.not_false, Bool.true_or, if_true]
        exact spec_raise e
      | true =>
        subst hr
        have hagain : Spec (fun _ => True) _ _ _ := ih (hlater rfl)
        simp only [Bool.not_true, Bool.false_or, decide_eq_true_eq, Nat.succ_ne_zero, if_false, if_true]
        rw [succ_nsmul']
        exact hagain
    · exact spec_raise e

theorem spec_attempt {doConn : Bool}
    (hhand : doConn = true → Spec (Connected proc) (sendConnect proc send false) (fun _ => Connected proc) n) :
    Spec (fun _ => True) (attempt proc send ws doConn true) (fun _ => Connected proc)
      ((3, 1) + if doConn then n else 0) := by
  have hsum : ((3, 1) + if doConn then n else 0 : Nat × Nat) = ((3, 0) + if doConn then n else 0) + (0, 1) := by
    rw [add_right_comm]
    rfl
  rw [hsum]
  refine spec_bind ?_ fun _ => spec_exchange
  refine spec_free spec_close fun _ => ?_
  exact spec_free spec_dropSock fun _ => spec_connect hhand

theorem spec_sendCommand {depth : Nat} {reconnect doConn : Bool}
    (hconnect : Spec P (connect proc (sendCommand proc depth) reconnect doConn) (fun _ => Connected proc) m)
    (hhand : reconnect = true → doConn = true →
      Spec (Connected proc) (sendConnect proc (sendCommand proc depth) false) (fun _ => Connected proc) n) :
    Spec P (sendCommand proc (depth + 1) ws reconnect doConn) (fun _ => Connected proc)
      (m + ((0, 1) + if reconnect then 2 • ((3, 1) + if doConn then n else 0) else 0)) := by
  refine spec_bind hconnect fun _ => spec_free spec_self fun self => ?_
  dsimp only
  split
  · exact spec_raise _
  · refine spec_pre (spec_retry spec_exchange (fun hr => ?_) 2) fun _ h => h.1
    exact spec_attempt (hhand hr)

theorem spec_once (depth : Nat) (ws : List String) (doConn : Bool) :
    Spec (Connected proc) (sendCommand proc depth ws false doConn) (fun _ => Connected proc) (0, 1) := by
  cases depth with
  | zero => exact spec_raise _
  | succ depth =>
    exact spec_sendCommand (n := 0) (spec_connected false doConn) fun hr => absurd hr Bool.false_ne_true

theorem spec_sendPassword
    (hsend : ∀ ws doConn, Spec (Connected proc) (send ws false doConn) (fun _ => Connected proc) (0, 1)) :
    Spec (Connected proc) (sendPassword send) (fun _ => Connected proc) (0, 1) := by
  refine spec_free spec_self fun self => ?_
  cases truthy self.password with
  | none => exact spec_ret fun _ h => h.1
  | some password =>
    have hdone : Spec (Connected proc) (.ret ()) (fun _ => Connected proc) 0 := spec_ret fun _ h => h
    exact spec_pre (spec_bind (hsend ["PASS", password] true) fun _ => hdone) fun _ h => h.1

theorem spec_sendId {reconnect : Bool}
    (hsend : ∀ ws, Spec (Connected proc) (send ws reconnect false) (fun _ => Connected proc) n) :
    Spec (Connected proc) (sendId proc send reconnect) (fun _ => Connected proc) n := by
  refine spec_free spec_self fun self => ?_
  rw [← add_zero n]
  cases truthy (self.ownId proc.pid) with
  | none => exact spec_bind (spec_pre (hsend _) fun _ h => h.1) fun resp => spec_keepId resp.str?
  | some clientId =>
    refine spec_bind (spec_pre (hsend _) fun _ h => h.1) fun resp => spec_free spec_self fun self' => ?_
    split
    · exact spec_ret fun _ h => h.1
    · exact spec_raise _

theorem spec_sendConnect {reconnect : Bool}
    (hpass : ∀ ws doConn, Spec (Connected proc) (send ws false doConn) (fun _ => Connected proc) (0, 1))
    (hconn : ∀ ws, Spec (Connected proc) (send ws reconnect false) (fun _ => Connected proc) n)
    (hinfo : ∀ ws, Spec (Connected proc) (send ws reconnect true) (fun _ => Connected proc) m) :
    Spec (Connected proc) (sendConnect proc send reconnect) (fun _ => Connected proc) ((0, 1) + (n + m)) := by
  refine spec_bind (spec_sendPassword hpass) fun _ => spec_bind (spec_sendId hconn) fun _ => ?_
  rw [← add_zero m]
  exact spec_bind (hinfo _) fun _ => spec_ret fun _ h => h

theorem spec_handshake_once (depth : Nat) :
    Spec (Connected proc) (sendConnect proc (sendCommand proc depth) false) (fun _ => Connected proc) (0, 3) :=
  spec_sendConnect (spec_once depth) (fun ws => spec_once depth ws false) fun ws => spec_once depth ws true

theorem spec_again (depth : Nat) (ws : List String) (doConn : Bool) :
    Spec (Connected proc) (sendCommand proc depth ws true doConn) (fun _ => Connected proc)
      (0 + ((0, 1) + 2 • ((3, 1) + if doConn then (0, 3) else 0))) := by
  cases depth with
  | zero => exact spec_raise _
  | succ depth => exact spec_sendCommand (spec_connected true doConn) fun _ _ => spec_handshake_once depth

theorem spec_handshake (depth : Nat) :
    Spec (Connected proc) (sendConnect proc (sendCommand proc depth) true) (fun _ => Connected proc) (12, 13) :=
  spec_sendConnect (spec_once depth) (fun ws => spec_again depth ws false) fun ws => spec_again depth ws true

theorem spec_handshakes (depth : Nat) (reconnect : Bool) :
    Spec (Connected proc) (sendConnect proc (sendCommand proc depth) reconnect) (fun _ => Connected proc)
      (if reconnect then (12, 13) else (0, 3)) := by
  cases reconnect with
  | true => exact spec_handshake depth
  | false => exact spec_handshake_once depth

/-- The attempts to connect and the requests that a command can take. -/
def budget : Bool → Bool → Nat × Nat
  | true, true => (21, 22)
  | true, false => (9, 3)
  | false, true => (3, 4)
  | false, false => (3, 1)

theorem spec_budget (depth : Nat) (ws : List String) (reconnect doConn : Bool) :
    Spec (fun _ => True) (sendCommand proc depth ws reconnect doConn) (fun _ => Connected proc)
      (budget reconnect doConn) := by
  cases depth with
  | zero => exact spec_raise _
  | succ depth =>
    have hsum : budget reconnect doConn = ((3, 0) + if doConn then (if reconnect then (12, 13) else (0, 3)) else 0) +
        ((0, 1) + if reconnect then 2 • ((3, 1) + if doConn then (0, 3) else 0) else 0) := by
      cases reconnect <;> cases doConn <;> rfl
    rw [hsum]
    exact spec_sendCommand (spec_connect fun _ => spec_handshakes depth reconnect) fun _ _ =>
      spec_handshake_once depth

def Same (P : LiveLockConnection → Prop) (p q : Comp α) : Prop :=
  Agrees Responds Undisturbed (fun t => P t.client) p q

theorem same_refl (p : Comp α) : Same P p p := agrees_refl p

theorem same_pre {P' : LiveLockConnection → Prop} {q : Comp α} (hp : Same P p q) (h : ∀ c, P' c → P c) :
    Same P' p q := agrees_pre hp fun _ ht => h _ ht

theorem same_bind {q : Comp α} {g : α → Comp β} (hm : Spec P p S n) (hp : Same P p q)
    (hf : ∀ a, Same (S a) (f a) (g a)) : Same P (p >>= f) (q >>= g) := agrees_bind hm.triple hp hf

theorem same_handle {q : Comp α} {h h' : Exc → Comp α} (hm : Spec P p S n) (hp : Same P p q)
    (hh : ∀ x, Same (fun _ => True) (h x) (h' x)) : Same P (p.handle h) (q.handle h') :=
  agrees_handle hm.triple hp hh

theorem same_absurd {q : Comp α} (h : ∀ c, ¬ P c) : Same P p q := fun _ _ _ ht => absurd ht (h _)

theorem same_connected (reconnect doConn : Bool) :
    Same (Connected proc) (connect proc send reconnect doConn) (connect proc send' reconnect doConn) := by
  refine same_bind spec_self (same_refl _) fun self => ?_
  cases hself : self.ownSock proc.pid with
  | some k => exact same_refl _
  | none =>
    refine same_absurd ?_
    rintro c ⟨hconnected, rfl⟩
    rw [Connected, hself] at hconnected
    cases hconnected

theorem same_connect {reconnect doConn : Bool} (hhand : doConn = true →
      Same (Connected proc) (sendConnect proc send reconnect) (sendConnect proc send' reconnect)) :
    Same P (connect proc send reconnect doConn) (connect proc send' reconnect doConn) := by
  refine same_bind spec_self (same_refl _) fun self => ?_
  cases self.ownSock proc.pid with
  | some k => exact same_refl _
  | none =>
    refine same_bind (spec_connectSocket reconnectAttempts) (same_refl _) fun k => ?_
    refine same_bind (spec_keepSock k) (same_refl _) fun _ => ?_
    cases doConn with
    | true => exact hhand rfl
    | false => exact same_refl _

theorem same_attempt {doConn : Bool}
    (hcost : doConn = true → Spec (Connected proc) (sendConnect proc send false) (fun _ => Connected proc) n)
    (hhand : doConn = true →
      Same (Connected proc) (sendConnect proc send false) (sendConnect proc send' false)) :
    Same (fun _ => True) (attempt proc send ws doConn true) (attempt proc send' ws doConn true) := by
  have hspec : Spec (fun _ => True) (reconnect proc send doConn) (fun _ => Connected proc) _ :=
    spec_free spec_close fun _ => spec_free spec_dropSock fun _ => spec_connect hcost
  refine same_bind hspec ?_ fun _ => same_refl _
  refine same_bind spec_close (same_refl _) fun _ => ?_
  exact same_bind spec_dropSock (same_refl _) fun _ => same_connect hhand

theorem same_retry {reconnect doConn phase : Bool}
    (hcost : Spec P (attempt proc send ws doConn phase) (fun _ => Connected proc) m)
    (hfirst : Same P (attempt proc send ws doConn phase) (attempt proc send' ws doConn phase))
    (hcost' : Spec (fun _ => True) (attempt proc send ws doConn true) (fun _ => Connected proc) n)
    (hlater : reconnect = true →
      Same (fun _ => True) (attempt proc send ws doConn true) (attempt proc send' ws doConn true)) (i : Nat) :
    Same P (retry proc send ws reconnect doConn (i + 1) phase)
      (retry proc send' ws reconnect doConn (i + 1) phase) := by
  induction i generalizing P m phase with
  | zero =>
    refine same_handle hcost hfirst fun e => ?_
    simp only [decide_true, Bool.or_true, if_true]
    exact same_refl _
  | succ i ih =>
    refine same_handle hcost hfirst fun e => ?_
    split
    · refine same_bind spec_close (same_refl _) fun _ => ?_
      split
      · exact same_refl _
      · next hgo =>
        simp only [Bool.or_eq_true, Bool.not_eq_true', not_or, Bool.not_eq_false] at hgo
        exact ih hcost' (hlater hgo.1)
    · exact same_refl _

theorem same_sendCommand {depth depth' : Nat} {reconnect doConn : Bool}
    (hcost : Spec P (connect proc (sendCommand proc depth) reconnect doConn) (fun _ => Connected proc) n)
    (hconnect : Same P (connect proc (sendCommand proc depth) reconnect doConn)
      (connect proc (sendCommand proc depth') reconnect doConn))
    (hhand : reconnect = true → doConn = true →
      Same (Connected proc) (sendConnect proc (sendCommand proc depth) false)
        (sendConnect proc (sendCommand proc depth') false)) :
    Same P (sendCommand proc (depth + 1) ws reconnect doConn)
      (sendCommand proc (depth' + 1) ws reconnect doConn) := by
  refine same_bind hcost hconnect fun _ => same_bind spec_self (same_refl _) fun self => ?_
  dsimp only
  split
  · exact same_refl _
  · have hfirst : Spec (Connected proc) (attempt proc (sendCommand proc depth) ws doConn false)
        (fun _ => Connected proc) (0, 1) := spec_exchange
    have hsame : Same (Connected proc) (attempt proc (sendCommand proc depth) ws doConn false)
        (attempt proc (sendCommand proc depth') ws doConn false) := same_refl _
    have hlater : Spec (fun _ => True) (attempt proc (sendCommand proc depth) ws doConn true)
        (fun _ => Connected proc) _ := spec_attempt fun _ => spec_handshake_once depth
    refine same_pre (same_retry hfirst hsame hlater (fun hr => ?_) 2) fun _ h => h.1
    exact same_attempt (fun _ => spec_handshake_once depth) (hhand hr)

theorem same_sendPassword
    (hcost : ∀ ws doConn, Spec (Connected proc) (send ws false doConn) (fun _ => Connected proc) n)
    (hsend : ∀ ws doConn, Same (Connected proc) (send ws false doConn) (send' ws false doConn)) :
    Same (Connected proc) (sendPassword send) (sendPassword send') := by
  refine same_bind spec_self (same_refl _) fun self => ?_
  cases truthy self.password with
  | none => exact same_refl _
  | some password =>
    refine same_pre (same_bind (hcost _ true) (hsend _ true) fun _ => same_refl _) fun _ h => ?_
    exact h.1

theorem same_sendId {reconnect : Bool}
    (hcost : ∀ ws, Spec (Connected proc) (send ws reconnect false) (fun _ => Connected proc) n)
    (hsend : ∀ ws, Same (Connected proc) (send ws reconnect false) (send' ws reconnect false)) :
    Same (Connected proc) (sendId proc send reconnect) (sendId proc send' reconnect) := by
  refine same_bind spec_self (same_refl _) fun self => ?_
  cases truthy (self.ownId proc.pid) with
  | none => exact same_pre (same_bind (hcost _) (hsend _) fun _ => same_refl _) fun _ h => h.1
  | some clientId => exact same_pre (same_bind (hcost _) (hsend _) fun _ => same_refl _) fun _ h => h.1

theorem same_sendConnect {reconnect : Bool}
    (hpass : ∀ ws doConn, Spec (Connected proc) (send ws false doConn) (fun _ => Connected proc) (0, 1))
    (hconn : ∀ ws, Spec (Connected proc) (send ws reconnect false) (fun _ => Connected proc) n)
    (hinfo : ∀ ws, Spec (Connected proc) (send ws reconnect true) (fun _ => Connected proc) m)
    (hpass' : ∀ ws doConn, Same (Connected proc) (send ws false doConn) (send' ws false doConn))
    (hsend' : ∀ ws doConn, Same (Connected proc) (send ws reconnect doConn) (send' ws reconnect doConn)) :
    Same (Connected proc) (sendConnect proc send reconnect) (sendConnect proc send' reconnect) := by
  refine same_bind (spec_sendPassword hpass) (same_sendPassword hpass hpass') fun _ => ?_
  refine same_bind (spec_sendId hconn) (same_sendId hconn fun ws => hsend' ws false) fun _ => ?_
  exact same_bind (hinfo _) (hsend' _ true) fun _ => same_refl _

theorem same_once (depth depth' : Nat) (ws : List String) (doConn : Bool) :
    Same (Connected proc) (sendCommand proc (depth + 1) ws false doConn)
      (sendCommand proc (depth' + 1) ws false doConn) :=
  same_sendCommand (spec_connected false doConn) (same_connected false doConn)
    fun hr => absurd hr Bool.false_ne_true

theorem same_handshake_once (depth depth' : Nat) :
    Same (Connected proc) (sendConnect proc (sendCommand proc (depth + 1)) false)
      (sendConnect proc (sendCommand proc (depth' + 1)) false) :=
  same_sendConnect (spec_once _) (fun ws => spec_once _ ws false) (fun ws => spec_once _ ws true)
    (same_once depth depth') (same_once depth depth')

theorem same_again (depth depth' : Nat) (ws : List String) (doConn : Bool) :
    Same (Connected proc) (sendCommand proc (depth + 2) ws true doConn)
      (sendCommand proc (depth' + 2) ws true doConn) :=
  same_sendCommand (spec_connected true doConn) (same_connected true doConn)
    fun _ _ => same_handshake_once depth depth'

theorem same_handshake (depth depth' : Nat) :
    Same (Connected proc) (sendConnect proc (sendCommand proc (depth + 2)) true)
      (sendConnect proc (sendCommand proc (depth' + 2)) true) :=
  same_sendConnect (spec_once _) (fun ws => spec_again _ ws false) (fun ws => spec_again _ ws true)
    (same_once (depth + 1) (depth' + 1)) (same_again depth depth')

/-- Commands inside a command nest three deep. -/
theorem same_nesting (depth depth' : Nat) (ws : List String) (reconnect doConn : Bool) :
    Same (fun _ => True) (sendCommand proc (depth + 3) ws reconnect doConn)
      (sendCommand proc (depth' + 3) ws reconnect doConn) := by
  have hcost : Spec (fun _ => True) (connect proc (sendCommand proc (depth + 2)) reconnect doConn)
      (fun _ => Connected proc) _ := spec_connect fun _ => spec_handshakes (depth + 2) reconnect
  refine same_sendCommand hcost (same_connect fun _ => ?_) fun _ _ =>
    same_handshake_once (depth + 1) (depth' + 1)
  cases reconnect with
  | true => exact same_handshake depth depth'
  | false => exact same_handshake_once (depth + 1) (depth' + 1)

/-- A command is over after so many requests and attempts to connect, whatever
its sockets do, and nothing more comes of nesting commands deeper than three. -/
theorem request_budget (depth : Nat) (ws : List String) (reconnect doConn : Bool) (t : Tally)
    (o : Except Exc Response) (t' : Tally) :
    ((sendCommand proc depth ws reconnect doConn).Exec Responds Undisturbed t o t' →
      t'.connects ≤ t.connects + (budget reconnect doConn).1 ∧
        t'.sends ≤ t.sends + (budget reconnect doConn).2) ∧
    ((sendCommand proc (depth + 3) ws reconnect doConn).Exec Responds Undisturbed t o t' ↔
      (sendCommand proc 3 ws reconnect doConn).Exec Responds Undisturbed t o t') := by
  refine ⟨fun hexec => ?_, same_nesting depth 0 ws reconnect doConn t o t' trivial⟩
  exact Prod.mk_le_mk.mp (spec_budget depth ws reconnect doConn t o t' trivial hexec).2

def offline : Tally where
  client :=
    { password := some "secret"
      maxPayload := 1024
      sock := none
      sockPid := 1
      clientId := some "alice"
      clientIdPid := 1 }

def stubborn (t : Tally) : (e : Call) → e.Result × Tally
  | .self => (t.client, t)
  | .keepSock k pid => ((), { t with client := { t.client with sock := some k, sockPid := pid } })
  | .dropSock => ((), { t with client := { t.client with sock := none } })
  | .keepId clientId pid => ((), { t with client := { t.client with clientId := clientId, clientIdPid := pid } })
  | .connect =>
    (if t.connects % 3 = 2 then .ok 0 else .error .refused, { t with connects := t.connects + 1 })
  | .sendall _ _ =>
    (if t.sends ∈ [1, 2, 4, 8, 13, 17] then .error .os else .ok (), { t with sends := t.sends + 1 })
  | .read _ => (.ok (.text "alice"), t)
  | .close _ => ((), t)

theorem stubborn_responds (t : Tally) (e : Call) : Responds t e (stubborn t e).1 (stubborn t e).2 := by
  cases e <;> first | rfl | exact ⟨rfl, rfl⟩

/-- A client whose connections are all refused twice, and whose requests fail as often
as they can, comes to the limit at the nesting of three commands. -/
theorem request_budget_reached : IsGreatest {n | ∃ o t', (sendCommand ⟨1, "home"⟩ 3 ["AQ", "l"] true true).Exec
    Responds Undisturbed offline o t' ∧ t'.cost = n} (21, 22) := by
  constructor
  · have hcost : ((sendCommand ⟨1, "home"⟩ 3 ["AQ", "l"] true true).run stubborn offline).2.cost = (21, 22) := by
      decide +kernel
    exact ⟨_, _, Prog.run_exec stubborn_responds _ offline, hcost⟩
  · rintro n ⟨o, t', hexec, rfl⟩
    have hbudget := (request_budget 3 ["AQ", "l"] true true offline o t').1 hexec
    simpa only [offline, budget, Nat.zero_add] using! Prod.mk_le_mk.mpr hbudget

end Livelock.RequestBudget
