import Livelock.Handshake

namespace Livelock.HandshakeFirst

open Livelock.Lib Livelock.Handshake
open Livelock.ServerRun (ConnId)
open Livelock.ClientReader (Response)
open Livelock.Client (LiveLockConnection Process Exc Call Comp truthy triple_connectSocket
  triple_retry)
open Livelock.Lib.Prog (triple_bind triple_ret triple_raise triple_perform triple_lift
  triple_pre triple_post triple_exists triple_or triple_absurd)

variable (proc : Process)

/-- What holds of the client and its connections at any moment. -/
structure Good (password : String) (w : World) : Prop where
  configured : truthy w.client.password = some password
  handshaken : ∀ k, Handshaken password (w.trace k)
  sock : ∀ k, w.ownSock proc = some k → k < w.opened
  fresh : ∀ k, w.opened ≤ k → w.trace k = [] ∧ w.closed k = false

/-- What matters of the current connection for the next command. -/
structure Spot where
  sock : ConnId
  trace : List Event
  closed : Bool
  known : Option String
  phase : Phase

def Spot.told (s : Spot) (ws : List String) (resp : Response) : Spot :=
  { s with trace := s.trace ++ [.sent ws s.known, .answered resp] }

structure At (password : String) (s : Spot) (w : World) : Prop where
  good : Good proc password w
  sock : w.ownSock proc = some s.sock
  trace : w.trace s.sock = s.trace
  closed : w.closed s.sock = s.closed
  known : truthy (w.client.ownId proc.pid) = s.known
  phase : w.phase = s.phase

def Usable (password : String) (w : World) : Prop :=
  Good proc password w ∧ ∃ k, w.ownSock proc = some k ∧ (w.closed k = false → Welcomed (w.trace k))

variable {proc} {password : String} {t : List Event} {ws : List String} {w w' : World} {s : Spot}
  {k : ConnId} {P : World → Prop} {F : Exc → World → Prop} {b : Bool}
  {cond : World → Call → Choice → Bool} {send : List String → Bool → Bool → Comp Response}

variable (proc) in
/-- What a program of the client comes to among surroundings that spare it. -/
def Spec {α : Type} (P : World → Prop) (p : Comp α) (Q : α → World → Prop) (F : Exc → World → Prop) :
    Prop :=
  Prog.Triple (Responds proc spares) (fun _ _ => False) P p Q F

theorem stable : Prog.Stable (fun _ _ : World => False) P := fun _ _ h => h.elim

theorem spec_self : Spec proc P Client.self (fun self w => P w ∧ w.client = self) F := by
  refine triple_perform stable fun w r w' hw hr => ?_
  obtain ⟨choice, hr, -⟩ := hr
  cases choice with
  | succeed =>
    cases hr
    exact ⟨hw, rfl⟩
  | _ => cases hr

theorem good_congr (h : Good proc password w) (hclient : truthy w'.client.password = some password)
    (hsock : ∀ k, w'.ownSock proc = some k → k < w.opened) (hopened : w'.opened = w.opened)
    (htrace : w'.trace = w.trace) (hclosed : ∀ k, w.opened ≤ k → w'.closed k = w.closed k) :
    Good proc password w' where
  configured := hclient
  handshaken k := by
    rw [htrace]
    exact h.handshaken k
  sock k hk := by
    rw [hopened]
    exact hsock k hk
  fresh k hk := by
    rw [hopened] at hk
    rw [htrace, hclosed k hk]
    exact h.fresh k hk

def Shut (proc : Process) (password : String) (w : World) : Prop :=
  Good proc password w ∧ ∀ k, w.ownSock proc = some k → w.closed k = true

def Off (proc : Process) (password : String) (w : World) : Prop :=
  Good proc password w ∧ w.ownSock proc = none

theorem spec_close {Q : World → Prop} (hQ : ∀ w w', w'.phase = w.phase → Q w → Q w') :
    Spec proc (fun w => Good proc password w ∧ Q w) (Client.close proc)
      (fun _ w => Shut proc password w ∧ Q w) F := by
  refine triple_bind spec_self fun self => ?_
  cases hsock : self.ownSock proc.pid with
  | none =>
    refine triple_ret ?_
    rintro w ⟨⟨hgood, hw⟩, rfl⟩
    refine ⟨⟨hgood, fun k hk => ?_⟩, hw⟩
    cases hsock.symm.trans hk
  | some k =>
    refine triple_perform stable ?_
    rintro w r w' ⟨⟨hgood, hw⟩, rfl⟩ ⟨choice, hr, -⟩
    cases choice with
    | succeed =>
      cases hr
      refine ⟨⟨good_congr hgood hgood.configured hgood.sock rfl rfl fun j hj => ?_, fun j hj => ?_⟩,
        hQ w _ rfl hw⟩
      · have hk : k < w.opened := hgood.sock k hsock
        exact Function.update_of_ne (hk.trans_le hj).ne' _ _
      · cases hsock.symm.trans hj
        exact Function.update_self _ _ _
    | _ => cases hr

theorem spec_close_good : Spec proc (Good proc password) (Client.close proc)
    (fun _ => Good proc password) (fun _ => Good proc password) := by
  have htrue : ∀ w w' : World, w'.phase = w.phase → True → True := fun _ _ _ h => h
  refine triple_pre (triple_post (spec_close htrue) (fun _ w hw => hw.1.1) fun _ _ hw => hw) ?_
  exact fun w hw => ⟨hw, trivial⟩

theorem spec_dropSock {Q : World → Prop} (hQ : ∀ w w', w'.phase = w.phase → Q w → Q w') :
    Spec proc (fun w => Shut proc password w ∧ Q w) Client.dropSock
      (fun _ w => Off proc password w ∧ Q w) F := by
  refine triple_perform stable ?_
  rintro w r w' ⟨⟨hgood, -⟩, hw⟩ ⟨choice, hr, -⟩
  cases choice with
  | succeed =>
    cases hr
    have hoff : World.ownSock proc { w with client := { w.client with sock := none } } = none :=
      ite_self none
    refine ⟨⟨good_congr hgood hgood.configured (fun k hk => ?_) rfl rfl fun _ _ => rfl, hoff⟩,
      hQ w _ rfl hw⟩
    cases hoff.symm.trans hk
  | _ => cases hr

structure Accepted (proc : Process) (password : String) (b : Bool) (k : ConnId) (w : World) : Prop where
  good : Good proc password w
  older : k < w.opened
  trace : w.trace k = []
  closed : w.closed k = false
  phase : b = true → w.phase = .opened k

/-- Nothing is opened for a `CONN` that was lost, and what is opened for a task
that may reconnect is the connection of its start. -/
def Starts (b : Bool) (w : World) : Prop := b = true → w.phase = .starting

theorem good_accept (h : Good proc password w) : Good proc password w.accept where
  configured := h.configured
  handshaken := h.handshaken
  sock k hk := (h.sock k hk).trans (Nat.lt_succ_self _)
  fresh k hk := h.fresh k (Nat.le_of_succ_le hk)

theorem spec_connectOnce : Spec proc (fun w => Off proc password w ∧ Starts b w) Client.connectOnce
    (fun k => Accepted proc password b k) (fun _ w => Off proc password w ∧ Starts b w) := by
  refine triple_bind (triple_perform stable ?_) fun o => triple_lift
  rintro w r w' ⟨hoff, hstarts⟩ ⟨choice, hr, -⟩
  cases choice with
  | succeed =>
    cases hr
    obtain ⟨htrace, hclosed⟩ := hoff.1.fresh w.opened le_rfl
    refine ⟨good_accept hoff.1, Nat.lt_succ_self _, htrace, hclosed, fun hb => ?_⟩
    simp only [World.accept, hstarts hb, if_true]
  | refuse | fail =>
    cases hr
    exact ⟨hoff, hstarts⟩
  | _ => cases hr

theorem spec_connectSocket (n : Nat) : Spec proc (fun w => Off proc password w ∧ Starts b w)
    (Client.connectSocket n) (fun k => Accepted proc password b k) (fun _ => Good proc password) :=
  triple_post (triple_connectSocket spec_connectOnce n) (fun _ _ hw => hw) fun _ _ hw => hw.1.1

structure Fresh (proc : Process) (password : String) (b : Bool) (w : World) (s : Spot) : Prop where
  at_ : At proc password s w
  trace : s.trace = []
  closed : s.closed = false
  phase : b = true → s.phase = .opened s.sock

theorem spec_keepSock : Spec proc (Accepted proc password b k) (Client.keepSock k proc.pid)
    (fun _ w => ∃ s, Fresh proc password b w s) F := by
  refine triple_perform stable ?_
  rintro w r w' hw ⟨choice, hr, -⟩
  cases choice with
  | succeed =>
    cases hr
    have hsock : World.ownSock proc
        { w with client := { w.client with sock := some k, sockPid := proc.pid } } = some k := if_pos rfl
    refine ⟨⟨k, [], false, truthy (w.client.ownId proc.pid), w.phase⟩, ?_, rfl, rfl, hw.phase⟩
    refine ⟨good_congr hw.good hw.good.configured (fun j hj => ?_) rfl rfl fun _ _ => rfl, hsock,
      hw.trace, hw.closed, rfl, rfl⟩
    cases hsock.symm.trans hj
    exact hw.older
  | _ => cases hr

theorem good_log {e : Event} (h : Good proc password w) (hk : k < w.opened)
    (he : Handshaken password (w.trace k ++ [e])) : Good proc password (w.log k e) where
  configured := h.configured
  handshaken j := by
    by_cases hj : j = k
    · subst hj
      simpa only [World.log, Function.update_self] using he
    · simpa only [World.log, Function.update_of_ne hj] using h.handshaken j
  sock := h.sock
  fresh j hj := by
    have hne : j ≠ k := (hk.trans_le hj).ne'
    simpa only [World.log, Function.update_of_ne hne] using h.fresh j hj

theorem good_cut (h : Good proc password w) : Good proc password (w.cut k) :=
  good_congr h h.configured h.sock rfl rfl fun _ _ => rfl

def Failed (proc : Process) (password : String) (s : Spot) (ws : List String) (x : Exc) (w : World) :
    Prop :=
  Good proc password w ∧
    (x.isOs = true → isConn ws = true → s.phase = .opened s.sock → s.closed = false → w.phase = .lost)

def Spot.asked (s : Spot) (ws : List String) : Spot :=
  { s with trace := s.trace ++ [.sent ws s.known] }

theorem at_log {e : Event} (h : At proc password s w) (he : Handshaken password (s.trace ++ [e])) :
    At proc password { s with trace := s.trace ++ [e] } (w.log s.sock e) where
  good := good_log h.good (h.good.sock _ h.sock) (by rw [h.trace]; exact he)
  sock := h.sock
  trace := by simp only [World.log, Function.update_self, h.trace]
  closed := h.closed
  known := h.known
  phase := h.phase

theorem at_send (h : At proc password s w) (hopen : s.closed = false)
    (hdue : Due password s.trace s.known ws) :
    At proc password (s.asked ws) (w.send proc s.sock ws) := by
  have hhand : Handshaken password s.trace := by
    rw [← h.trace]
    exact h.good.handshaken s.sock
  rw [World.send, h.closed, hopen, if_neg Bool.false_ne_true, h.known]
  exact at_log h (handshaken_sent hhand hdue)

theorem failed_cut (h : At proc password (s.asked ws) w) (x : Exc) :
    Failed proc password s ws x (w.cut s.sock) := by
  refine ⟨good_cut h.good, fun _ hconn hphase _ => ?_⟩
  have htrace : w.trace s.sock = s.trace ++ [.sent ws s.known] := h.trace
  have hopened : w.phase = .opened s.sock := h.phase.trans hphase
  have hlast : ((commands (w.trace s.sock)).getLast?.any fun p => isConn p.1) = true := by
    rw [htrace, commands_append, commands_sent, List.getLast?_concat]
    exact hconn
  simp only [World.cut, hopened, hlast, and_self, if_true]

theorem spec_sendall (hdue : s.closed = false → Due password s.trace s.known ws) :
    Spec proc (At proc password s) (Client.sendall s.sock ws)
      (fun _ w => At proc password (s.asked ws) w ∧ s.closed = false) (Failed proc password s ws) := by
  refine triple_bind (triple_perform stable ?_) fun o => triple_lift
  rintro w r w' hat ⟨choice, hr, -⟩
  cases choice with
  | succeed =>
    simp only [World.answer] at hr
    split at hr
    · cases hr
    · next hopen =>
      cases hr
      rw [hat.closed, Bool.not_eq_true] at hopen
      exact ⟨at_send hat hopen (hdue hopen), hopen⟩
  | fail =>
    cases hr
    cases hclosed : s.closed with
    | true =>
      have hsame : w.send proc s.sock ws = w := by rw [World.send, hat.closed, hclosed, if_pos rfl]
      rw [hsame]
      refine ⟨good_cut hat.good, fun _ _ _ hopen => ?_⟩
      cases hclosed.symm.trans hopen
    | false => exact failed_cut (at_send hat hclosed (hdue hclosed)) .os
  | _ => cases hr

theorem spec_readResponse : Spec proc (fun w => At proc password (s.asked ws) w ∧ s.closed = false)
    (Client.readResponse s.sock)
    (fun resp w => At proc password (s.told ws resp) w ∧ s.closed = false ∧ isError resp = false)
    (Failed proc password s ws) := by
  have hread : Spec proc (fun w => At proc password (s.asked ws) w ∧ s.closed = false)
      (Client.read s.sock)
      (fun resp w => At proc password (s.told ws resp) w ∧ s.closed = false) (Failed proc password s ws) := by
    refine triple_bind (triple_perform stable ?_) fun o => triple_lift
    rintro w r w' ⟨hat, hopen⟩ ⟨choice, hr, -⟩
    have hopen' : w.closed s.sock = false := hat.closed.trans hopen
    cases choice with
    | reply resp =>
      simp only [World.answer, hopen'] at hr
      cases hr
      have hhand := hat.good.handshaken (s.asked ws).sock
      rw [hat.trace] at hhand
      have hanswered : Handshaken password ((s.asked ws).trace ++ [.answered resp]) :=
        handshaken_answered hhand
      have hlog := at_log hat hanswered
      simp only [Spot.asked, List.append_assoc] at hlog
      exact ⟨hlog, hopen⟩
    | unreadable =>
      simp only [World.answer, hopen'] at hr
      cases hr
      exact ⟨hat.good, fun hos => absurd hos Bool.false_ne_true⟩
    | fail =>
      cases hr
      exact failed_cut hat .os
    | _ => cases hr
  refine triple_bind hread fun resp => ?_
  cases resp with
  | error msg code => exact triple_raise fun w hw =>
      ⟨hw.1.good, fun hos => absurd hos Bool.false_ne_true⟩
  | value | text => exact triple_ret fun w hw => ⟨hw.1, hw.2, rfl⟩

theorem spec_exchange (hdue : s.closed = false → Due password s.trace s.known ws) :
    Spec proc (At proc password s) (Client.exchange ws)
      (fun resp w => At proc password (s.told ws resp) w ∧ s.closed = false ∧ isError resp = false)
      (Failed proc password s ws) := by
  refine triple_bind spec_self fun self => ?_
  have hsock : ∀ w, At proc password s w ∧ w.client = self → self.sock = some s.sock := by
    rintro w ⟨hat, rfl⟩
    have hown := hat.sock
    rw [World.ownSock, LiveLockConnection.ownSock] at hown
    split at hown
    · exact hown
    · cases hown
  cases hself : self.sock with
  | none =>
    refine triple_absurd fun w hw => ?_
    cases hself.symm.trans (hsock w hw)
  | some k =>
    by_cases hk : k = s.sock
    · subst hk
      exact triple_bind (triple_pre (spec_sendall hdue) fun w hw => hw.1) fun _ => spec_readResponse
    · refine triple_absurd fun w hw => hk ?_
      exact Option.some_inj.mp (hself.symm.trans (hsock w hw))

theorem spec_connect_own {doConn : Bool} (hP : ∀ w, P w → ∃ k, w.ownSock proc = some k) :
    Spec proc P (Client.connect proc send b doConn) (fun _ => P) F := by
  refine triple_bind spec_self fun self => ?_
  cases hself : self.ownSock proc.pid with
  | some k => exact triple_ret fun w hw => hw.1
  | none =>
    refine triple_absurd ?_
    rintro w ⟨hw, rfl⟩
    obtain ⟨k, hk⟩ := hP w hw
    cases hself.symm.trans hk

theorem spec_connect_off {doConn : Bool} (hP : ∀ w, P w → w.ownSock proc = none) {Q : Unit → World → Prop}
    (hopen : Spec proc P (do
      let k ← Client.connectSocket Client.reconnectAttempts
      Client.keepSock k proc.pid
      if doConn then Client.sendConnect proc send b else pure ()) Q F) :
    Spec proc P (Client.connect proc send b doConn) Q F := by
  refine triple_bind spec_self fun self => ?_
  cases hself : self.ownSock proc.pid with
  | some k =>
    refine triple_absurd ?_
    rintro w ⟨hw, rfl⟩
    cases hself.symm.trans (hP w hw)
  | none => exact triple_pre hopen fun w hw => hw.1

def Lost (proc : Process) (password : String) (w : World) : Prop :=
  Good proc password w ∧ w.phase = .lost

theorem spec_connectSocket_lost (n : Nat) :
    Spec proc (fun w => Off proc password w ∧ w.phase = .lost) (Client.connectSocket n)
      (fun _ _ => False) (fun _ => Lost proc password) := by
  have honce : Spec proc (fun w => Off proc password w ∧ w.phase = .lost) Client.connectOnce
      (fun _ _ => False) (fun _ w => Off proc password w ∧ w.phase = .lost) := by
    refine triple_bind (triple_perform stable ?_) fun o => triple_lift
    rintro w r w' hw ⟨choice, hr, hspares⟩
    cases choice with
    | succeed => simp [spares, hw.2] at hspares
    | refuse | fail =>
      cases hr
      exact hw
    | _ => cases hr
  refine triple_post (triple_connectSocket honce n) (fun _ _ hw => hw) ?_
  rintro x w ⟨hoff, hlost⟩
  exact ⟨hoff.1, hlost⟩

theorem spec_reconnect_lost (doConn : Bool) :
    Spec proc (Lost proc password) (Client.reconnect proc send doConn) (fun _ _ => False)
      (fun _ => Lost proc password) := by
  have hphase : ∀ w w' : World, w'.phase = w.phase → w.phase = .lost → w'.phase = .lost :=
    fun _ _ hsame hw => hsame.trans hw
  refine triple_bind (spec_close hphase) fun _ => ?_
  refine triple_bind (spec_dropSock hphase) fun _ => ?_
  refine spec_connect_off (fun w hw => hw.1.2) ?_
  exact triple_bind (spec_connectSocket_lost _) fun _ => triple_absurd fun _ hw => hw

theorem spec_retry_handshake (doConn : Bool) (hopen : s.closed = false)
    (hdue : Due password s.trace s.known ws)
    (hagain : b = true → isConn ws = true ∧ s.phase = .opened s.sock) (n : Nat) :
    Spec proc (At proc password s) (Client.retry proc send ws b doConn (n + 1) false)
      (fun resp w => At proc password (s.told ws resp) w ∧ isError resp = false)
      (fun _ => Good proc password) := by
  have hfirst : Spec proc (At proc password s) (Client.attempt proc send ws doConn false)
      (fun resp w => At proc password (s.told ws resp) w ∧ isError resp = false)
      (fun e w => Good proc password w ∧ (e.isOs = true → b = true → w.phase = .lost)) := by
    refine triple_post (spec_exchange fun _ => hdue) (fun _ _ hw => ⟨hw.1, hw.2.2⟩) ?_
    rintro e w ⟨hgood, hlost⟩
    exact ⟨hgood, fun hos hb => hlost hos (hagain hb).1 (hagain hb).2 hopen⟩
  have hlater : b = true → Spec proc (fun w => Good proc password w ∧ (b = true → w.phase = .lost))
      (Client.attempt proc send ws doConn true)
      (fun resp w => At proc password (s.told ws resp) w ∧ isError resp = false)
      (fun e w => Good proc password w ∧ (e.isOs = true → b = true → w.phase = .lost)) := by
    intro hb
    have hlost : Spec proc (Lost proc password) (Client.attempt proc send ws doConn true)
        (fun _ _ => False) (fun _ => Lost proc password) :=
      triple_bind (spec_reconnect_lost doConn) fun _ => triple_absurd fun _ hw => hw
    refine triple_pre (triple_post hlost (fun _ _ hw => hw.elim) fun _ w hw => ?_) fun w hw => ?_
    · exact ⟨hw.1, fun _ _ => hw.2⟩
    · exact ⟨hw.1, hw.2 hb⟩
  have hclose : ∀ e : Exc, e.isOs = true →
      Spec proc (fun w => Good proc password w ∧ (e.isOs = true → b = true → w.phase = .lost))
        (Client.close proc) (fun _ w => Good proc password w ∧ (b = true → w.phase = .lost))
        (fun _ => Good proc password) := by
    intro e hos
    have hphase : ∀ w w' : World, w'.phase = w.phase → (b = true → w.phase = .lost) →
        b = true → w'.phase = .lost := fun _ _ hsame hw hb => hsame.trans (hw hb)
    refine triple_pre (triple_post (spec_close hphase) (fun _ w hw => ⟨hw.1.1, hw.2⟩)
      fun _ _ hw => hw) ?_
    exact fun w hw => ⟨hw.1, hw.2 hos⟩
  exact triple_retry hfirst hlater hclose (fun _ hw => hw.1) (fun _ _ hw => hw.1) n

theorem spec_sendCommand_handshake (doConn : Bool) (hopen : s.closed = false)
    (hdue : Due password s.trace s.known ws)
    (hagain : b = true → isConn ws = true ∧ s.phase = .opened s.sock) (depth : Nat) :
    Spec proc (At proc password s) (Client.sendCommand proc depth ws b doConn)
      (fun resp w => At proc password (s.told ws resp) w ∧ isError resp = false)
      (fun _ => Good proc password) := by
  cases depth with
  | zero => exact triple_raise fun w hw => hw.good
  | succ depth =>
    refine triple_bind (spec_connect_own fun w hw => ⟨s.sock, hw.sock⟩) fun _ => ?_
    refine triple_bind spec_self fun self => ?_
    dsimp only
    split
    · exact triple_raise fun w hw => hw.1.good
    · exact triple_pre (spec_retry_handshake doConn hopen hdue hagain 2) fun w hw => hw.1

structure Passed (proc : Process) (password : String) (b : Bool) (w : World) (s : Spot) : Prop where
  at_ : At proc password s w
  length : (commands s.trace).length = 1
  closed : s.closed = false
  phase : b = true → s.phase = .opened s.sock

theorem spec_sendPassword (depth : Nat) :
    Spec proc (fun w => ∃ s, Fresh proc password b w s) (Client.sendPassword (Client.sendCommand proc depth))
      (fun _ w => ∃ s, Passed proc password b w s) (fun _ => Good proc password) := by
  refine triple_exists fun s => ?_
  refine triple_bind spec_self fun self => ?_
  cases hself : truthy self.password with
  | none =>
    refine triple_absurd ?_
    rintro w ⟨hfresh, rfl⟩
    cases hself.symm.trans hfresh.at_.good.configured
  | some password' =>
    by_cases hname : password' = password
    · subst hname
      refine triple_pre (P := fun w => Fresh proc password' b w s) ?_ fun w hw => hw.1
      intro w o w' hfresh hexec
      have hdue : Due password' s.trace s.known ["PASS", password'] :=
        .pass (by rw [hfresh.trace]; rfl)
      have hsend : Spec proc (At proc password' s) _ _ _ :=
        spec_sendCommand_handshake true hfresh.closed hdue (fun h => absurd h Bool.false_ne_true) depth
      refine triple_bind hsend (fun resp => triple_ret fun w hw => ?_) w o w' hfresh.at_ hexec
      refine ⟨s.told _ resp, hw.1, ?_, hfresh.closed, hfresh.phase⟩
      simp [Spot.told, hfresh.trace, commands, Event.command?]
    · refine triple_absurd ?_
      rintro w ⟨hfresh, rfl⟩
      exact hname (Option.some_inj.mp (hself.symm.trans hfresh.at_.good.configured))

theorem usable_told {resp : Response} (h : At proc password (s.told ws resp) w) (hconn : isConn ws = true)
    (hresp : isError resp = false) : Usable proc password w := by
  refine ⟨h.good, _, h.sock, fun _ => ?_⟩
  rw [h.trace]
  exact welcomed_conn hconn hresp

theorem spec_keepId {clientId : Option String} {pid : Nat} :
    Spec proc (Usable proc password) (Client.keepId clientId pid) (fun _ => Usable proc password) F := by
  refine triple_perform stable ?_
  rintro w r w' ⟨hgood, hw⟩ ⟨choice, hr, -⟩
  cases choice with
  | succeed =>
    cases hr
    exact ⟨good_congr hgood hgood.configured hgood.sock rfl rfl fun _ _ => rfl, hw⟩
  | _ => cases hr

theorem spec_sendId (depth : Nat) :
    Spec proc (fun w => ∃ s, Passed proc password b w s)
      (Client.sendId proc (Client.sendCommand proc depth) b) (fun _ => Usable proc password)
      (fun _ => Good proc password) := by
  refine triple_exists fun s => ?_
  refine triple_bind spec_self fun self => ?_
  intro w o w' hw hexec
  obtain ⟨hpassed, rfl⟩ := hw
  have hdue : Due password s.trace s.known ("CONN" :: s.known.toList) := .conn hpassed.length
  have hconn : isConn ("CONN" :: s.known.toList) = true := rfl
  have hsend : Spec proc (At proc password s) _ _ _ :=
    spec_sendCommand_handshake false hpassed.closed hdue (fun h => ⟨hconn, hpassed.phase h⟩) depth
  have hknown : truthy (w.client.ownId proc.pid) = s.known := hpassed.at_.known
  cases hs : s.known with
  | none =>
    rw [hs] at hknown hsend hconn
    simp only [hknown] at hexec
    refine triple_bind hsend (fun resp => ?_) w o w' hpassed.at_ hexec
    exact triple_pre spec_keepId fun w hw => usable_told hw.1 hconn hw.2
  | some clientId =>
    rw [hs] at hknown hsend hconn
    simp only [hknown] at hexec
    refine triple_bind hsend (fun resp => ?_) w o w' hpassed.at_ hexec
    refine triple_bind spec_self fun self' => ?_
    split
    · exact triple_ret fun w hw => usable_told hw.1.1 hconn hw.1.2
    · exact triple_raise fun w hw => hw.1.1.good

def Ready (proc : Process) (password : String) (b : Bool) (w : World) : Prop :=
  (Off proc password w ∧ Starts b w) ∨ Usable proc password w

def Sends (proc : Process) (password : String) (send : List String → Bool → Bool → Comp Response) :
    Prop :=
  ∀ ws b, isConn ws = false → Spec proc (Ready proc password b) (send ws b true)
    (fun _ => Usable proc password) (fun _ => Good proc password)

variable {depth : Nat}

theorem spec_sendConnect (hsend : Sends proc password (Client.sendCommand proc depth)) :
    Spec proc (fun w => ∃ s, Fresh proc password b w s)
      (Client.sendConnect proc (Client.sendCommand proc depth) b) (fun _ => Usable proc password)
      (fun _ => Good proc password) := by
  refine triple_bind (spec_sendPassword depth) fun _ => ?_
  refine triple_bind (spec_sendId depth) fun _ => ?_
  have hinfo : Spec proc (Ready proc password b) _ _ _ :=
    hsend ["CONNINFO", proc.hostname ++ ":" ++ toString proc.pid] b rfl
  refine triple_bind (triple_pre hinfo fun w hw => .inr hw) fun _ => ?_
  exact triple_ret fun w hw => hw

theorem spec_connect (hsend : Sends proc password (Client.sendCommand proc depth)) :
    Spec proc (Ready proc password b) (Client.connect proc (Client.sendCommand proc depth) b true)
      (fun _ => Usable proc password) (fun _ => Good proc password) := by
  refine triple_or ?_ (spec_connect_own fun w hw => hw.2.imp fun k hk => hk.1)
  refine spec_connect_off (fun w hw => hw.1.2) ?_
  refine triple_bind (spec_connectSocket _) fun k => ?_
  exact triple_bind spec_keepSock fun _ => spec_sendConnect hsend

theorem spec_reconnect (hsend : Sends proc password (Client.sendCommand proc depth)) :
    Spec proc (Good proc password) (Client.reconnect proc (Client.sendCommand proc depth) true)
      (fun _ => Usable proc password) (fun _ => Good proc password) := by
  have htrue : ∀ w w' : World, w'.phase = w.phase → True → True := fun _ _ _ h => h
  refine triple_bind (triple_pre (spec_close htrue) fun w hw => ⟨hw, trivial⟩) fun _ => ?_
  refine triple_bind (spec_dropSock htrue) fun _ => ?_
  exact triple_pre (spec_connect hsend) fun w hw => .inl ⟨hw.1, fun h => absurd h Bool.false_ne_true⟩

def Before (proc : Process) (password : String) (reconnectPhase : Bool) (w : World) : Prop :=
  if reconnectPhase then Good proc password w else Usable proc password w

theorem spec_exchange_usable (hconn : isConn ws = false) :
    Spec proc (Usable proc password) (Client.exchange ws) (fun _ => Usable proc password)
      (fun _ => Good proc password) := by
  intro w o w' hw hexec
  obtain ⟨hgood, k, hsock, hopen⟩ := hw
  let s : Spot := ⟨k, w.trace k, w.closed k, truthy (w.client.ownId proc.pid), w.phase⟩
  have hat : At proc password s w := ⟨hgood, hsock, rfl, rfl, rfl, rfl⟩
  have hsend : Spec proc (At proc password s) _ _ _ :=
    spec_exchange fun hclosed => .other ws (hopen hclosed) hconn
  refine triple_post hsend (fun resp v hv => ?_) (fun x v hv => hv.1) w o w' hat hexec
  obtain ⟨hat', hclosed, -⟩ := hv
  refine ⟨hat'.good, k, hat'.sock, fun _ => ?_⟩
  have htrace : v.trace k = w.trace k ++ [.sent ws s.known, .answered resp] := hat'.trace
  rw [htrace]
  exact welcomed_append (hopen hclosed)

theorem spec_attempt (hsend : Sends proc password (Client.sendCommand proc depth))
    (hconn : isConn ws = false) (reconnectPhase : Bool) :
    Spec proc (Before proc password reconnectPhase)
      (Client.attempt proc (Client.sendCommand proc depth) ws true reconnectPhase)
      (fun _ => Usable proc password) (fun _ => Good proc password) := by
  cases reconnectPhase with
  | true => exact triple_bind (spec_reconnect hsend) fun _ => spec_exchange_usable hconn
  | false => exact spec_exchange_usable hconn

theorem spec_retry (hsend : Sends proc password (Client.sendCommand proc depth))
    (hconn : isConn ws = false) (reconnectPhase : Bool) (n : Nat) :
    Spec proc (Before proc password reconnectPhase)
      (Client.retry proc (Client.sendCommand proc depth) ws b true (n + 1) reconnectPhase)
      (fun _ => Usable proc password) (fun _ => Good proc password) := by
  have hlater : Spec proc (Good proc password)
      (Client.attempt proc (Client.sendCommand proc depth) ws true true)
      (fun _ => Usable proc password) (fun _ => Good proc password) := spec_attempt hsend hconn true
  exact triple_retry (spec_attempt hsend hconn reconnectPhase) (fun _ => hlater)
    (fun _ _ => spec_close_good) (fun _ hw => hw) (fun _ _ hw => hw) n

theorem spec_sendCommand (depth : Nat) : Sends proc password (Client.sendCommand proc depth) := by
  induction depth with
  | zero =>
    refine fun ws b hconn => triple_raise fun w hw => ?_
    exact hw.elim (fun hoff => hoff.1.1) fun husable => husable.1
  | succ depth ih =>
    intro ws b hconn
    refine triple_bind (spec_connect ih) fun _ => ?_
    refine triple_bind spec_self fun self => ?_
    dsimp only
    split
    · exact triple_raise fun w hw => hw.1.1
    · exact triple_pre (spec_retry ih hconn false 2) fun w hw => hw.1

theorem spec_sendCommand_long (depth : Nat) :
    Spec proc (fun w => (Good proc password w ∧ ∃ k, w.ownSock proc = some k) ∧
        w.client.maxPayload + 1 < (Client.payload ws).length)
      (Client.sendCommand proc depth ws b true) (fun _ => Good proc password)
      (fun _ => Good proc password) := by
  cases depth with
  | zero => exact triple_raise fun w hw => hw.1.1
  | succ depth =>
    refine triple_bind (spec_connect_own fun w hw => hw.1.2) fun _ => ?_
    refine triple_bind spec_self fun self => ?_
    dsimp only
    split
    · exact triple_raise fun w hw => hw.1.1.1
    · next hshort =>
      refine triple_absurd ?_
      rintro w ⟨⟨-, hlong⟩, rfl⟩
      exact hshort hlong

theorem good_begin (h : Good proc password w) : Good proc password (w.begin proc b) :=
  good_congr h h.configured h.sock rfl rfl fun _ _ => rfl

theorem ready_begin (h : Good proc password w)
    (hopen : ∀ k, w.ownSock proc = some k → w.closed k = false → Welcomed (w.trace k)) :
    Ready proc password b (w.begin proc b) := by
  cases hsock : w.ownSock proc with
  | some k => exact .inr ⟨good_begin h, k, hsock, hopen k hsock⟩
  | none =>
    refine .inl ⟨⟨good_begin h, hsock⟩, fun hb => ?_⟩
    simp only [World.begin, hb, hsock, Option.isNone_none, Bool.and_self, if_true]

theorem spec_command {again : Bool} (h : Good proc password w) (hconn : isConn ws = false)
    (hs : Settled proc w (.command ws hconn again)) :
    Spec proc (fun v => v = w.begin proc again) (Client.sendCommand proc depth ws again true)
      (fun _ => Good proc password) (fun _ => Good proc password) := by
  have hready : Spec proc (Ready proc password again) (Client.sendCommand proc depth ws again true)
      (fun _ => Good proc password) (fun _ => Good proc password) :=
    triple_post (spec_sendCommand depth ws again hconn) (fun _ v hv => hv.1) fun _ _ hv => hv
  cases hsock : w.ownSock proc with
  | none =>
    refine triple_pre hready ?_
    rintro v rfl
    refine ready_begin h fun k hk => ?_
    cases hsock.symm.trans hk
  | some k =>
    by_cases hfits : (Client.payload ws).length ≤ w.client.maxPayload + 1
    · refine triple_pre hready ?_
      rintro v rfl
      exact ready_begin h (hs hfits)
    · refine triple_pre (spec_sendCommand_long depth) ?_
      rintro v rfl
      exact ⟨⟨good_begin h, k, hsock⟩, not_le.mp hfits⟩

theorem spec_task {task : Task} (h : Good proc password w) (hs : Settled proc w task) :
    Spec proc (fun v => v = w.begin proc task.mayReconnect) (task.program proc depth)
      (fun _ => Good proc password) (fun _ => Good proc password) := by
  cases task with
  | command ws hconn again =>
    exact triple_bind (spec_command h hconn hs) fun _ => triple_ret fun v hv => hv
  | connect again =>
    have hready : Ready proc password again (w.begin proc again) ∨
        (Good proc password (w.begin proc again) ∧ ∃ k, (w.begin proc again).ownSock proc = some k) := by
      cases hsock : w.ownSock proc with
      | some k => exact .inr ⟨good_begin h, k, hsock⟩
      | none =>
        refine .inl (ready_begin h fun k hk => ?_)
        cases hsock.symm.trans hk
    have hconnect : Spec proc (Ready proc password again)
        (Client.connect proc (Client.sendCommand proc depth) again true) (fun _ => Good proc password)
        (fun _ => Good proc password) :=
      triple_post (spec_connect (spec_sendCommand depth)) (fun _ v hv => hv.1) fun _ _ hv => hv
    have hown : Spec proc (fun v => Good proc password v ∧ ∃ k, v.ownSock proc = some k)
        (Client.connect proc (Client.sendCommand proc depth) again true) (fun _ => Good proc password)
        (fun _ => Good proc password) :=
      triple_post (spec_connect_own fun v hv => hv.2) (fun _ v hv => hv.1) fun _ _ hv => hv
    refine triple_pre (triple_or hconnect hown) ?_
    rintro v rfl
    exact hready
  | reconnect =>
    refine triple_pre (triple_post (spec_reconnect (spec_sendCommand depth)) (fun _ v hv => hv.1)
      fun _ _ hv => hv) ?_
    rintro v rfl
    exact good_begin h
  | close =>
    refine triple_pre spec_close_good ?_
    rintro v rfl
    exact good_begin h

/-- A task keeps the handshake first on every connection. -/
theorem good_does {task : Task} (h : Good proc password w) (hs : Settled proc w task)
    (hdoes : Does proc spares depth w task w') : Good proc password w' := by
  obtain ⟨o, hexec⟩ := hdoes
  have hend := spec_task h hs _ o w' rfl hexec
  cases o with
  | ok a => exact hend
  | error x => exact hend

theorem good_start {client : LiveLockConnection} (hpassword : truthy client.password = some password)
    (hsock : client.ownSock proc.pid = none) : Good proc password (World.start client) where
  configured := hpassword
  handshaken _ := handshaken_nil
  sock k hk := by cases hsock.symm.trans hk
  fresh _ _ := ⟨rfl, rfl⟩

/-- In every run where no connection is opened for a lost `CONN` and no command
finds the client with a connection that is open and not welcomed, the handshake
comes first on every connection at every moment. -/
theorem handshake_first {client : LiveLockConnection} {tasks : List Task}
    (hpassword : truthy client.password = some password) (hsock : client.ownSock proc.pid = none)
    (h : Run (Where (Does proc spares depth) (Settled proc)) (World.start client) tasks w)
    (ht : t <+: w.trace k) : Handshaken password t := by
  refine handshaken_prefix ?_ ht
  have hgood : Good proc password w := h.invariant (good_start hpassword hsock)
    fun u task v _ hu hs => good_does hu hs.2 hs.1
  exact hgood.handshaken k

def localProcess : Process := ⟨1, "localhost"⟩

def newClient : LiveLockConnection := ⟨some "secret", 1024, none, 1, none, 1⟩

def ping : Task := .command ["PING"] rfl true

def succeeds (n : Nat) : List Choice := List.replicate n .succeed

def exchanged (resp : String) : List Choice := succeeds 4 ++ [.reply (.text resp)]

def greeted : List Choice :=
  succeeds 4 ++ exchanged "1" ++ succeeds 1 ++ exchanged "c" ++ succeeds 1 ++ exchanged "1" ++
    succeeds 3 ++ [.reply (.text "PONG")]

def connLost : List Choice :=
  succeeds 4 ++ exchanged "1" ++ succeeds 5 ++ [.fail] ++
    -- the handler closes the socket, and `_reconnect` once more
    succeeds 5 ++ succeeds 5 ++ [.reply (.text "c")] ++ succeeds 1 ++ exchanged "1" ++
    succeeds 3 ++ [.reply (.text "PONG")]

def playPing (cond : World → Call → Choice → Bool) (script : List Choice) :
    Option (Except Exc Unit × World) :=
  Prog.play (fun w e choice => if cond w e choice then w.answer localProcess e choice else none)
    (fun _ i => Empty.elim i) (script.map .inr) (ping.program localProcess 3)
    ((World.start newClient).begin localProcess true)

theorem play_does {script : List Choice} {o : Except Exc Unit} (h : playPing cond script = some (o, w)) :
    Does localProcess cond 3 (World.start newClient) ping w := by
  refine ⟨o, Prog.play_exec h (fun v e choice r v' hr => ⟨choice, ?_⟩) fun v i => Empty.elim i⟩
  simp only [Option.ite_none_right_eq_some] at hr
  exact ⟨hr.2, hr.1⟩

theorem handshake_first_greeted : ∃ w,
    Run (Where (Does localProcess spares 3) (Settled localProcess)) (World.start newClient) [ping] w ∧
    commands (w.trace 0) = [(["PASS", "secret"], none), (["CONN"], none),
      (["CONNINFO", "localhost:1"], some "c"), (["PING"], some "c")] ∧
    Handshaken "secret" (w.trace 0) := by
  have hplay : (playPing spares greeted).map (fun p => commands (p.2.trace 0)) =
      some [(["PASS", "secret"], none), (["CONN"], none), (["CONNINFO", "localhost:1"], some "c"),
        (["PING"], some "c")] := by decide +kernel
  obtain ⟨⟨o, w⟩, hw, hcommands⟩ := Option.map_eq_some_iff.mp hplay
  have hrun : Run (Where (Does localProcess spares 3) (Settled localProcess)) (World.start newClient)
      [ping] w := by
    refine .single ⟨play_does hw, fun _ k hk => ?_⟩
    cases hk
  exact ⟨w, hrun, hcommands, handshake_first (by decide) rfl hrun List.prefix_rfl⟩

/-- On the connection that is opened for the `CONN` that was lost the first
command is `CONN`. -/
theorem handshake_not_first : ¬ ∀ (client : LiveLockConnection) (password : String)
    (tasks : List Task) (w : World) (k : ConnId), truthy client.password = some password →
    client.ownSock localProcess.pid = none →
    Run (Does localProcess (fun _ _ _ => true) 3) (World.start client) tasks w →
    Handshaken password (w.trace k) := by
  intro h
  have hplay : (playPing (fun _ _ _ => true) connLost).map
      (fun p => (commands (p.2.trace 1))[0]?) = some (some (["CONN"], none)) := by decide +kernel
  obtain ⟨⟨o, w⟩, hw, hcommands⟩ := Option.map_eq_some_iff.mp hplay
  have hfirst := h newClient "secret" [ping] w 1 (by decide) rfl (.single (play_does hw))
  exact absurd (hfirst.pass ["CONN"] none hcommands) (by decide)

end Livelock.HandshakeFirst
