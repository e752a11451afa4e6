import Livelock.Attempt
import Livelock.Ascii

namespace Livelock.LostReplies

open Livelock.Lib Livelock.Shared Livelock.MemoryStorage Livelock.StorageInvariant
open Livelock.StorageLease Livelock.StorageRun Livelock.Server Livelock.CommandSpec
open Livelock.ServerRun Livelock.ServerLease Livelock.ClientReader Livelock.Framing
open Livelock.Network Livelock.Attempt Livelock.Ascii
open Livelock.Client (LiveLock LiveLockConnection Process Exc Call Comp triple_connectSocket
  triple_retry)
open Livelock.Lib.Prog (triple_bind triple_ret triple_raise triple_perform triple_lift
  triple_pre triple_post triple_absurd)

variable (py : Builtins) (cfg : Config) (proc : Process) (c : ClientId) (l : LockId)

/-- What a program of the client comes to among these surroundings. -/
def Spec {α : Type} (P : World → Prop) (p : Comp α) (Q : α → World → Prop) (F : Exc → World → Prop) :
    Prop :=
  Prog.Triple (Responds py cfg) (Meanwhile py cfg c l) P p Q F

variable {py cfg proc c l} {w w' : World} {P : World → Prop} {F : Exc → World → Prop} {k : ConnId}
  {ws : List String} {send : List String → Bool → Bool → Comp Response}

theorem responds_self {r : LiveLockConnection} (h : Responds py cfg w .self r w') :
    r = w.client ∧ w' = w := by
  obtain ⟨choice, h⟩ := h
  cases choice with
  | succeed =>
    cases h
    exact ⟨rfl, rfl⟩
  | _ => cases h

theorem spec_self (hP : Lasting py cfg c l P) :
    Spec py cfg c l P Client.self (fun self w => P w ∧ w.client = self) F := by
  refine triple_perform hP fun w r w' hw hr => ?_
  obtain ⟨rfl, rfl⟩ := responds_self hr
  exact ⟨hw, rfl⟩

theorem responds_close {r : Unit} (h : Responds py cfg w (.close k) r w') :
    w' = { w with closed := Function.update w.closed k true } := by
  obtain ⟨choice, h⟩ := h
  cases choice with
  | succeed =>
    cases h
    rfl
  | _ => cases h

theorem lasting_and_client {self : LiveLockConnection} (hP : Lasting py cfg c l P) :
    Lasting py cfg c l fun w => P w ∧ w.client = self := by
  refine fun w w' hm hw => ⟨hP w w' hm hw.1, ?_⟩
  obtain ⟨o, hc, -⟩ := meanwhile_change hm
  rw [(change_client hc).1, hw.2]

theorem inv_closed (h : Inv proc c l w) (hk : k ∈ w.mine) :
    Inv proc c l { w with closed := Function.update w.closed k true } := by
  have hopen : ∀ j, Function.update w.closed k true j = false → w.closed j = false := by
    intro j hj
    by_cases hjk : j = k
    · subst hjk
      simp at hj
    · simpa [hjk] using hj
  refine { h with fresh := fun j hj => ?_, current := fun j hj => h.current j (hopen j hj) }
  have hne : j ≠ k := by
    rintro rfl
    exact absurd (h.accepted j hk) (not_lt.mpr hj)
  simpa only [Function.update_of_ne hne] using h.fresh j hj

theorem spec_close : Spec py cfg c l (Inv proc c l) (Client.close proc) (fun _ => Shut proc c l)
    (fun _ => Inv proc c l) := by
  refine triple_bind (spec_self lasting_inv) fun self => ?_
  cases hsock : self.ownSock proc.pid with
  | none =>
    refine triple_ret ?_
    rintro w ⟨hinv, rfl⟩
    refine ⟨hinv, fun k hk => ?_⟩
    rw [LiveLockConnection.ownSock, if_pos hinv.sockPid, hk] at hsock
    cases hsock
  | some k =>
    refine triple_perform (lasting_and_client lasting_inv) ?_
    rintro w r w' ⟨hinv, rfl⟩ hr
    obtain rfl := responds_close hr
    rw [LiveLockConnection.ownSock, if_pos hinv.sockPid] at hsock
    refine ⟨inv_closed hinv (hinv.sockMine k hsock), fun j hj => ?_⟩
    obtain rfl : k = j := Option.some_inj.mp (hsock.symm.trans hj)
    exact Function.update_self _ _ _

theorem responds_dropSock {r : Unit} (h : Responds py cfg w .dropSock r w') :
    w' = { w with client := { w.client with sock := none } } := by
  obtain ⟨choice, h⟩ := h
  cases choice with
  | succeed =>
    cases h
    rfl
  | _ => cases h

theorem spec_dropSock : Spec py cfg c l (Shut proc c l) Client.dropSock (fun _ => Off proc c l) F := by
  refine triple_perform lasting_shut fun w r w' hw hr => ?_
  obtain ⟨hinv, hshut⟩ := hw
  obtain rfl := responds_dropSock hr
  refine ⟨{ hinv with sockMine := nofun, current := fun j hopen hj => ?_ }, rfl⟩
  have hclosed := hshut j (hinv.current j hopen hj)
  rw [hopen] at hclosed
  cases hclosed

theorem responds_keepSock {pid : Nat} {r : Unit} (h : Responds py cfg w (.keepSock k pid) r w') :
    w' = { w with client := { w.client with sock := some k, sockPid := pid } } := by
  obtain ⟨choice, h⟩ := h
  cases choice with
  | succeed =>
    cases h
    rfl
  | _ => cases h

theorem spec_keepSock : Spec py cfg c l (Opened proc c l k) (Client.keepSock k proc.pid)
    (fun _ => Ready proc c l) F := by
  refine triple_perform lasting_opened fun w r w' hw hr => ?_
  obtain ⟨⟨hinv, hoff⟩, hmine, hquiet⟩ := hw
  obtain rfl := responds_keepSock hr
  have hsock : ∀ j, some k = some j → j = k := fun j hj => (Option.some_inj.mp hj).symm
  refine ⟨{ hinv with sockPid := rfl, sockMine := fun j hj => ?_, current := fun j hopen hj => ?_ },
    fun j hj _ => ?_⟩
  · rw [hsock j hj]
    exact hmine
  · have hcurrent := hinv.current j hopen hj
    rw [hoff] at hcurrent
    cases hcurrent
  · rw [hsock j hj]
    exact ⟨hquiet.queue, hquiet.received, hquiet.granted⟩

theorem opened_accept {sv : Server} {peername : Address} (h : Off proc c l w)
    {writes : List Write} (hs : Steps py cfg w.server ⟨.connect peername, fun _ => 0, writes⟩ sv) :
    Opened proc c l w.server.accepted
      { w with server := sv, mine := w.server.accepted :: w.mine } := by
  obtain ⟨hinv, hoff⟩ := h
  have hold : ∀ k ∈ w.mine, k ≠ w.server.accepted := fun k hk => (hinv.accepted k hk).ne
  have hnone : idOf w.server w.server.accepted = none := by
    cases hk : w.server.connections.get? w.server.accepted with
    | none => rw [idOf, hk, Option.bind_none]
    | some session => exact absurd (hinv.sound.older _ session hk) (lt_irrefl _)
  have hsound := sound_step hinv.sound hs
  cases step_change hinv.sound hs with
  | connect peername' he =>
    have hids := idOf_connect hinv.sound peername'
    refine ⟨⟨?_, hoff⟩, .head _, ?_⟩
    · refine { hinv with
        sound := hsound
        accepted := ?_
        ids := fun k hk => .tail _ (hinv.ids k ((hids k).symm.trans hk))
        only := ?_
        queued := fun k ws hws => ?_
        fresh := fun k hk => hinv.fresh k (Nat.le_of_succ_le hk)
        grantedMine := fun k hk => .tail _ (hinv.grantedMine k hk)
        sockMine := fun k hk => .tail _ (hinv.sockMine k hk) }
      · refine List.forall_mem_cons.mpr ⟨Nat.lt_succ_self _, fun k hk => ?_⟩
        exact (hinv.accepted k hk).trans (Nat.lt_succ_self _)
      · refine List.forall_mem_cons.mpr ⟨fun c' hc => ?_, fun k hk c' hc => ?_⟩
        · cases hnone.symm.trans ((hids _).symm.trans hc)
        · exact hinv.only k hk c' ((hids k).symm.trans hc)
      · obtain ⟨hk, hknown⟩ := hinv.queued k ws hws
        exact ⟨.tail _ hk, hknown⟩
    · refine ⟨?_, (hinv.fresh _ le_rfl).1, fun hk => hold _ (hinv.grantedMine _ hk) rfl⟩
      refine List.eq_nil_iff_forall_not_mem.mpr fun ws hws => ?_
      exact hold _ (hinv.queued _ ws hws).1 rfl
  | command _ _ _ _ _ he | lost _ _ he | lostLast _ _ _ he | maintenance _ _ _ _ he => cases he

theorem responds_connect {r : Except Exc ConnId} (h : Responds py cfg w .connect r w') :
    (∃ e, r = .error e ∧ w' = w) ∨ ∃ peername writes sv, r = .ok w.server.accepted ∧
      Steps py cfg w.server ⟨.connect peername, fun _ => 0, writes⟩ sv ∧
      w' = { w with server := sv, mine := w.server.accepted :: w.mine } := by
  obtain ⟨choice, h⟩ := h
  cases choice with
  | accept peername =>
    obtain ⟨⟨sv, writes⟩, hstep, hp⟩ := Option.map_eq_some_iff.mp h
    cases hp
    exact .inr ⟨peername, writes, sv, rfl, hstep, rfl⟩
  | refuse | fail =>
    cases h
    exact .inl ⟨_, rfl, rfl⟩
  | succeed | failLate => cases h

theorem spec_connectOnce : Spec py cfg c l (Off proc c l) Client.connectOnce
    (fun k => Opened proc c l k) (fun _ => Off proc c l) := by
  refine triple_bind (triple_perform lasting_off fun w r w' hw hr => ?_) fun o => triple_lift
  obtain ⟨e, rfl, rfl⟩ | ⟨peername, writes, sv, rfl, hs, rfl⟩ := responds_connect hr
  · exact hw
  · exact opened_accept hw hs

theorem spec_connectSocket (n : Nat) : Spec py cfg c l (Off proc c l) (Client.connectSocket n)
    (fun k => Opened proc c l k) (fun _ => Inv proc c l) :=
  triple_post (triple_connectSocket spec_connectOnce n) (fun _ _ hw => hw) fun _ _ hw => hw.1

theorem off_ready (h : Off proc c l w) : Ready proc c l w := by
  refine ⟨h.1, fun k hk => ?_⟩
  rw [h.2] at hk
  cases hk

theorem done_ready {r : Response} (h : Done proc c l ws r w) (hws : ws ≠ ["AQ", l])
    (hr : ws = ["CONN", c.name] → r.str? = some c.name) : Ready proc c l w := by
  obtain ⟨hinv, k, hsock, -, hqueue, hrest, hgranted⟩ := h
  rw [if_neg hws] at hgranted
  refine ⟨hinv, fun j hj _ => ?_⟩
  obtain rfl : k = j := Option.some_inj.mp (hsock.symm.trans hj)
  exact ⟨hqueue, hrest hr, hgranted⟩

variable (py cfg proc c l) in
def Sends (send : List String → Bool → Bool → Comp Response) : Prop :=
  ∀ ws, Known c l ws → ∀ reconnect doConn, Spec py cfg c l (Ready proc c l) (send ws reconnect doConn)
    (fun r => Done proc c l ws r) (fun _ => Inv proc c l)

theorem spec_sendPassword (hsend : Sends py cfg proc c l send) :
    Spec py cfg c l (Ready proc c l) (Client.sendPassword send) (fun _ => Ready proc c l)
      (fun _ => Inv proc c l) := by
  refine triple_bind (spec_self lasting_ready) fun self => ?_
  cases Client.truthy self.password with
  | none => exact triple_ret fun w hw => hw.1
  | some password =>
    have hpass : Spec py cfg c l _ _ _ _ := hsend _ (.pass password) false true
    refine triple_bind (triple_pre hpass fun w hw => hw.1) ?_
    exact fun r => triple_ret fun w hw => done_ready hw (by simp) (by simp)

theorem spec_sendId (hsend : Sends py cfg proc c l send) (reconnect : Bool) :
    Spec py cfg c l (Ready proc c l) (Client.sendId proc send reconnect) (fun _ => Ready proc c l)
      (fun _ => Inv proc c l) := by
  have hid : ∀ w, Inv proc c l w → w.client.ownId proc.pid = some c.name := by
    intro w hinv
    rw [LiveLockConnection.ownId, if_pos hinv.clientIdPid, hinv.clientId]
  have htruthy : Client.truthy (some c.name) = some c.name := by
    simp [Client.truthy, c.nonempty]
  refine triple_bind (spec_self lasting_ready) fun self => ?_
  cases hself : Client.truthy (self.ownId proc.pid) with
  | none =>
    refine triple_absurd ?_
    rintro w ⟨⟨hinv, -⟩, rfl⟩
    rw [hid w hinv, htruthy] at hself
    cases hself
  | some clientId =>
    by_cases hname : clientId = c.name
    · subst hname
      have hconn : Spec py cfg c l _ _ _ _ := hsend _ .conn reconnect false
      refine triple_bind (triple_pre hconn fun w hw => hw.1) ?_
      intro r
      refine triple_bind (spec_self lasting_done) fun self' => ?_
      split
      · next hr =>
        refine triple_ret ?_
        rintro w ⟨hdone, rfl⟩
        rw [hid w hdone.1] at hr
        exact done_ready hdone (by simp) fun _ => hr
      · exact triple_raise fun w hw => hw.1.1
    · refine triple_absurd ?_
      rintro w ⟨⟨hinv, -⟩, rfl⟩
      rw [hid w hinv, htruthy] at hself
      exact hname (Option.some_inj.mp hself).symm

theorem spec_sendConnect (hsend : Sends py cfg proc c l send) (reconnect : Bool) :
    Spec py cfg c l (Ready proc c l) (Client.sendConnect proc send reconnect)
      (fun _ => Ready proc c l) (fun _ => Inv proc c l) := by
  refine triple_bind (spec_sendPassword hsend) fun _ => ?_
  refine triple_bind (spec_sendId hsend reconnect) fun _ => ?_
  refine triple_bind (hsend _ (.connInfo _) reconnect true) fun r => ?_
  exact triple_ret fun w hw => done_ready hw (by simp) (by simp)

theorem spec_connect (hsend : Sends py cfg proc c l send) (reconnect doConn : Bool) :
    Spec py cfg c l (Ready proc c l) (Client.connect proc send reconnect doConn)
      (fun _ => Ready proc c l) (fun _ => Inv proc c l) := by
  refine triple_bind (spec_self lasting_ready) fun self => ?_
  cases hself : self.ownSock proc.pid with
  | some k => exact triple_ret fun w hw => hw.1
  | none =>
    have hoff : ∀ w, Ready proc c l w ∧ w.client = self → Off proc c l w := by
      rintro w ⟨⟨hinv, -⟩, rfl⟩
      rw [LiveLockConnection.ownSock, if_pos hinv.sockPid] at hself
      exact ⟨hinv, hself⟩
    have hsocket : Spec py cfg c l (Off proc c l) _ _ _ := spec_connectSocket Client.reconnectAttempts
    refine triple_bind (triple_pre hsocket hoff) fun k => ?_
    refine triple_bind spec_keepSock fun _ => ?_
    cases doConn with
    | true => exact spec_sendConnect hsend reconnect
    | false => exact triple_ret fun w hw => hw

theorem spec_reconnect (hsend : Sends py cfg proc c l send) (doConn : Bool) :
    Spec py cfg c l (Inv proc c l) (Client.reconnect proc send doConn) (fun _ => Ready proc c l)
      (fun _ => Inv proc c l) := by
  refine triple_bind spec_close fun _ => ?_
  refine triple_bind spec_dropSock fun _ => ?_
  exact triple_pre (spec_connect hsend false doConn) fun w hw => off_ready hw

theorem inv_enqueue (h : Inv proc c l w) (hsock : w.client.sock = some k) (hknown : Known c l ws) :
    Inv proc c l (w.enqueue k ws) := by
  refine { h with queued := fun j ws' hws => ?_, current := fun j hopen hj => ?_ }
  · by_cases hjk : j = k
    · subst hjk
      simp only [World.enqueue, Function.update_self] at hws
      obtain hws | hws := List.mem_append.mp hws
      · exact h.queued j ws' hws
      · rw [List.mem_singleton.mp hws]
        exact ⟨h.sockMine j hsock, hknown⟩
    · simp only [World.enqueue, Function.update_of_ne hjk] at hws
      exact h.queued j ws' hws
  · by_cases hjk : j = k
    · rw [hjk]
      exact hsock
    · simp only [World.enqueue, Function.update_of_ne hjk] at hj
      exact h.current j hopen hj

theorem responds_sendall {r : Except Exc Unit} (h : Responds py cfg w (.sendall k ws) r w') :
    (w.closed k = false ∧ w' = w.enqueue k ws) ∨ ((∃ e, r = .error e) ∧ w' = w) := by
  obtain ⟨choice, h⟩ := h
  cases choice with
  | succeed | failLate =>
    simp only [World.answer] at h
    split at h
    · cases h
    · next hopen =>
      cases h
      exact .inl ⟨by simpa using hopen, rfl⟩
  | fail =>
    cases h
    exact .inr ⟨⟨_, rfl⟩, rfl⟩
  | accept | refuse => cases h

theorem pending_enqueue (h : Ready proc c l w) (hsock : w.client.sock = some k)
    (hopen : w.closed k = false) (hknown : Known c l ws) :
    Pending py proc c l ws k (w.enqueue k ws) := by
  obtain ⟨hqueue, hreceived, hgranted⟩ := h.2 k hsock hopen
  refine ⟨inv_enqueue h.1 hsock hknown, hsock, hopen, .inl ⟨?_, hreceived, hgranted⟩⟩
  simp only [World.enqueue, Function.update_self, hqueue, List.nil_append]

theorem spec_sendall (hknown : Known c l ws) :
    Spec py cfg c l (fun w => Ready proc c l w ∧ w.client.sock = some k) (Client.sendall k ws)
      (fun _ => Pending py proc c l ws k) (fun _ => Inv proc c l) := by
  have hlasting : Lasting py cfg c l fun w => Ready proc c l w ∧ w.client.sock = some k := by
    refine fun w w' hm hw => ⟨lasting_ready w w' hm hw.1, ?_⟩
    obtain ⟨o, hc, -⟩ := meanwhile_change hm
    rw [(change_client hc).1, hw.2]
  refine triple_bind (triple_perform hlasting fun w r w' hw hr => ?_) fun o => triple_lift
  obtain ⟨hready, hsock⟩ := hw
  obtain ⟨hopen, rfl⟩ | ⟨⟨e, rfl⟩, rfl⟩ := responds_sendall hr
  · cases r with
    | ok => exact pending_enqueue hready hsock hopen hknown
    | error e => exact inv_enqueue hready.1 hsock hknown
  · exact hready.1

theorem responds_read {r : Except Exc Response} (h : Responds py cfg w (.read k) r w') :
    ((∃ e, r = .error e) ∧ w' = w) ∨ ∃ resp rest, r = .ok resp ∧
      readResponse py (w.received k) = some (resp, rest) ∧
      w' = { w with received := Function.update w.received k rest } := by
  obtain ⟨choice, h⟩ := h
  cases choice with
  | succeed =>
    simp only [World.answer] at h
    split at h
    · cases h
    · cases hread : readResponse py (w.received k) with
      | none =>
        rw [hread] at h
        cases h
        exact .inl ⟨⟨_, rfl⟩, rfl⟩
      | some p =>
        rw [hread] at h
        cases h
        exact .inr ⟨_, _, rfl, rfl, rfl⟩
  | fail =>
    cases h
    exact .inl ⟨⟨_, rfl⟩, rfl⟩
  | accept | refuse | failLate => cases h

theorem pending_read {r : Response} {rest : Bytes} (h : Pending py proc c l ws k w)
    (hread : readResponse py (w.received k) = some (r, rest)) :
    Inv proc c l { w with received := Function.update w.received k rest } ∧
      ((∃ msg n, r = .error msg n) ∨
        Done proc c l ws r { w with received := Function.update w.received k rest }) := by
  obtain ⟨hinv, hsock, hopen, ⟨-, hreceived, -⟩ | ⟨hqueue, htold⟩⟩ := h
  · rw [hreceived] at hread
    cases hread
  have hinv' := inv_received hinv (hinv.sockMine k hsock) rest
  refine ⟨hinv', (htold r rest hread).imp_right fun ht => ⟨hinv', k, hsock, hopen, hqueue, ?_⟩⟩
  simp only [Function.update_self]
  exact ht

theorem spec_readResponse : Spec py cfg c l (Pending py proc c l ws k) (Client.readResponse k)
    (fun r => Done proc c l ws r) (fun _ => Inv proc c l) := by
  have hread : Spec py cfg c l (Pending py proc c l ws k) (Client.read k)
      (fun r w => Inv proc c l w ∧ ((∃ msg n, r = .error msg n) ∨ Done proc c l ws r w))
      (fun _ => Inv proc c l) := by
    refine triple_bind (triple_perform lasting_pending fun w r w' hw hr => ?_) fun o => triple_lift
    obtain ⟨⟨e, rfl⟩, rfl⟩ | ⟨resp, rest, rfl, hresp, rfl⟩ := responds_read hr
    · exact hw.1
    · exact pending_read hw hresp
  refine triple_bind hread fun r => ?_
  cases r with
  | error msg code => exact triple_raise fun w hw => hw.1
  | text | value => exact triple_ret fun w hw => hw.2.resolve_left (by simp)

theorem spec_exchange (hknown : Known c l ws) : Spec py cfg c l (Ready proc c l) (Client.exchange ws)
    (fun r => Done proc c l ws r) (fun _ => Inv proc c l) := by
  refine triple_bind (spec_self lasting_ready) fun self => ?_
  cases hself : self.sock with
  | none => exact triple_raise fun w hw => hw.1.1
  | some k =>
    refine triple_bind (triple_pre (spec_sendall hknown) ?_) fun _ => spec_readResponse
    rintro w ⟨hready, rfl⟩
    exact ⟨hready, hself⟩

def Before (proc : Process) (c : ClientId) (l : LockId) (reconnectPhase : Bool) (w : World) : Prop :=
  if reconnectPhase then Inv proc c l w else Ready proc c l w

theorem spec_attempt (hsend : Sends py cfg proc c l send) (hknown : Known c l ws)
    (doConn reconnectPhase : Bool) : Spec py cfg c l (Before proc c l reconnectPhase)
      (Client.attempt proc send ws doConn reconnectPhase) (fun r => Done proc c l ws r)
      (fun _ => Inv proc c l) := by
  cases reconnectPhase with
  | true => exact triple_bind (spec_reconnect hsend doConn) fun _ => spec_exchange hknown
  | false => exact spec_exchange hknown

theorem spec_retry (hsend : Sends py cfg proc c l send) (hknown : Known c l ws)
    (reconnect doConn reconnectPhase : Bool) (n : Nat) :
    Spec py cfg c l (Before proc c l reconnectPhase)
      (Client.retry proc send ws reconnect doConn (n + 1) reconnectPhase)
      (fun r => Done proc c l ws r) (fun _ => Inv proc c l) := by
  have hlater : Spec py cfg c l (Shut proc c l) (Client.attempt proc send ws doConn true)
      (fun r => Done proc c l ws r) (fun _ => Inv proc c l) :=
    triple_pre (spec_attempt hsend hknown doConn true) fun w hw => hw.1
  exact triple_retry (spec_attempt hsend hknown doConn reconnectPhase) (fun _ => hlater)
    (fun _ _ => spec_close) (fun w hw => hw.1) (fun _ w hw => hw) n

theorem spec_sendCommand (depth : Nat) :
    Sends py cfg proc c l (Client.sendCommand proc depth) := by
  induction depth with
  | zero => exact fun ws _ reconnect doConn => triple_raise fun w hw => hw.1
  | succ depth ih =>
    intro ws hknown reconnect doConn
    refine triple_bind (spec_connect ih reconnect doConn) fun _ => ?_
    refine triple_bind (spec_self lasting_ready) fun self => ?_
    dsimp only
    split
    · exact triple_raise fun w hw => hw.1.1
    · exact triple_pre (spec_retry ih hknown reconnect doConn false 2) fun w hw => hw.1

variable (py cfg proc c l) in
/-- The client has the id `c` and does not own `l`, it takes its connections
for its own, and nothing is under way on any of them. -/
structure Start (w : World) : Prop where
  reached : ∃ T es, Run (Steps py cfg) (.start T) es w.server
  unowned : w.server.adaptor.store.locksToClient.get? l ≠ some c
  clientId : w.client.clientId = some c.name
  clientIdPid : w.client.clientIdPid = proc.pid
  sockPid : w.client.sockPid = proc.pid
  sockMine : ∀ k, w.client.sock = some k → k ∈ w.mine
  accepted : ∀ k ∈ w.mine, k < w.server.accepted
  ids : ∀ k, idOf w.server k = some c → k ∈ w.mine
  only : ∀ k ∈ w.mine, ∀ c', idOf w.server k = some c' → c' = c
  queue : ∀ k, w.queue k = []
  received : ∀ k, w.closed k = false → w.received k = []
  fresh : ∀ k, w.server.accepted ≤ k → w.closed k = false
  granted : w.granted = []

theorem start_ready (h : Start py cfg proc c l w) : Ready proc c l w := by
  obtain ⟨T, es, hrun⟩ := h.reached
  have hsound : Sound w.server := sound_run hrun (sound_start T)
  have hunowned : ¬ ∃ m, leaseOf w.server l = some ⟨c, m⟩ := fun hm =>
    h.unowned ((lease_owner hsound.rep).mp hm)
  refine ⟨?_, fun k _ hopen => ⟨h.queue k, h.received k hopen, by simp [h.granted]⟩⟩
  exact {
    sound := hsound
    accepted := h.accepted
    ids := h.ids
    only := h.only
    queued := fun k ws hws => by simp [h.queue] at hws
    fresh := fun k hk => ⟨h.received k (h.fresh k hk), h.fresh k hk⟩
    owned := iff_of_false hunowned (by simp [h.granted])
    once := by simp [h.granted]
    grantedMine := fun k hk => by simp [h.granted] at hk
    sockMine := h.sockMine
    current := fun k _ hk => by simp [h.queue, h.granted] at hk
    sockPid := h.sockPid
    clientIdPid := h.clientIdPid
    clientId := h.clientId }

/-- The last response to an `AQ` says whether the lock was granted on the
connection it came on. -/
theorem done_agrees {r : Response} (h : Done proc c l ["AQ", l] r w) :
    (r.str? = some "1" ↔ w.server.adaptor.store.locksToClient.get? l = some c) ↔
      ∀ k ∈ w.granted, w.closed k = false := by
  obtain ⟨hinv, k, hsock, hopen, -, -, hgranted⟩ := h
  rw [if_pos rfl] at hgranted
  have honly : ∀ j ∈ w.granted, w.closed j = false → j = k := by
    intro j hj hjopen
    exact Option.some_inj.mp ((hinv.current j hjopen (.inr hj)).symm.trans hsock)
  rw [hgranted, ← lease_owner hinv.sound.rep]
  have howned : (∃ m, lease w.server.adaptor.store l = some ⟨c, m⟩) ↔ w.granted ≠ [] := hinv.owned
  rw [howned]
  constructor
  · intro hiff j hj
    have hk : k ∈ w.granted := hiff.mpr (List.ne_nil_of_mem hj)
    obtain ⟨k', hk'⟩ := List.length_eq_one_iff.mp
      (le_antisymm hinv.once (List.length_pos_of_mem hk))
    rw [hk', List.mem_singleton] at hj hk
    rw [hj, ← hk]
    exact hopen
  · intro hall
    refine ⟨List.ne_nil_of_mem, fun hne => ?_⟩
    obtain ⟨j, hj⟩ := List.exists_mem_of_ne_nil _ hne
    rw [← honly j hj (hall j hj)]
    exact hj

/-- What `_acquire` returns agrees with the server exactly when the lock was
not granted on a connection that the client has given up. -/
theorem acquire_agrees {lock : LiveLock} {depth : Nat} {b : Bool} {w₁ : World}
    (hstart : Start py cfg proc c lock.id w) (hlock : lock.reentrant = false)
    (hrun : (LiveLock._acquire proc depth lock).Exec (Responds py cfg) (Meanwhile py cfg c lock.id)
      w (.ok b) w₁)
    (hmore : Relation.ReflTransGen (Meanwhile py cfg c lock.id) w₁ w') :
    (b = true ↔ w'.server.adaptor.store.locksToClient.get? lock.id = some c) ↔
      ∀ k ∈ w'.granted, w'.closed k = false := by
  have hwords : lock.acquireWords = ["AQ", lock.id] := by simp [LiveLock.acquireWords, hlock]
  have hspec : Spec py cfg c lock.id (Ready proc c lock.id) (LiveLock._acquire proc depth lock)
      (fun b w => ∃ r : Response, b = decide (r.str? = some "1") ∧ Done proc c lock.id ["AQ", lock.id] r w)
      (fun _ => Inv proc c lock.id) := by
    unfold LiveLock._acquire
    rw [hwords]
    refine triple_bind (spec_sendCommand depth _ .aq true true) fun r => ?_
    exact triple_ret fun w hw => ⟨r, rfl, hw⟩
  obtain ⟨r, rfl, hdone⟩ := hspec w _ w₁ (start_ready hstart) hrun
  have hdone' : Done proc c lock.id ["AQ", lock.id] r w' := Prog.Stable.star lasting_done hmore hdone
  rw [decide_eq_true_iff]
  exact done_agrees hdone'

def aliceProcess : Process where
  pid := 1
  hostname := "home"

def aliceLock : LiveLock where
  id := "l"
  reentrant := false
  blocking := true
  timeout := 60
  acquired := false

def home (py : Builtins) : Option Server :=
  (allAt 0 [.connect ⟨"10.0.0.1", 40001⟩, .command 0 carol (words ["CONN", "alice"])]).foldlM
    (Server.next py plainConfig) (.start 5)

def aliceWorld (sv : Server) : World where
  server := sv
  client :=
    { password := none
      maxPayload := 1024
      sock := some 0
      sockPid := 1
      clientId := some "alice"
      clientIdPid := 1 }
  mine := [0]
  queue := fun _ => []
  received := fun _ => []
  closed := fun _ => false
  granted := []

def still (py : Builtins) (w : World) (m : Move) : Option World :=
  match leaseOf w.server "l" with
  | some ⟨_, some d⟩ => if 0 < d then w.move py plainConfig alice "l" (fun _ => 0) m else none
  | _ => w.move py plainConfig alice "l" (fun _ => 0) m

theorem still_meanwhile {py : Builtins} {m : Move} (h : still py w m = some w') :
    Meanwhile py plainConfig alice "l" w w' := by
  unfold still at h
  split at h
  · next a d hl =>
    split at h
    · next hd =>
      refine ⟨m, _, h, fun d' hl' n => ?_⟩
      cases hl.symm.trans hl'
      exact hd
    · cases h
  · next hno =>
    refine ⟨m, _, h, fun d hl => ?_⟩
    exact absurd hl (hno alice d)

def atHome (sv : Server) : Bool :=
  decide ((sv.connections.items.map fun p => (p.1, p.2.clientId)) = [(0, some alice)]) &&
    decide (sv.accepted = 1) && decide (sv.adaptor.store.locksToClient.get? "l" = none)

theorem home_start {sv : Server} (h : home ascii = some sv) (hfacts : atHome sv = true) :
    Start ascii plainConfig aliceProcess alice "l" (aliceWorld sv) := by
  simp only [atHome, Bool.and_eq_true, decide_eq_true_eq] at hfacts
  obtain ⟨⟨hitems, haccepted⟩, hfree⟩ := hfacts
  have hid : ∀ k c, idOf sv k = some c → k = 0 ∧ c = alice := by
    intro k c hk
    obtain ⟨session, hsession, hc⟩ := Option.bind_eq_some_iff.mp hk
    have hmem : (k, some c) ∈ sv.connections.items.map fun p => (p.1, p.2.clientId) :=
      List.mem_map.mpr ⟨(k, session), (Dict.mem_items _ k session).mpr hsession, by rw [hc]⟩
    rw [hitems, List.mem_singleton] at hmem
    cases hmem
    exact ⟨rfl, rfl⟩
  obtain ⟨es, hrun, -⟩ := play_run h
  exact {
    reached := ⟨5, es, hrun⟩
    unowned := by
      intro hl
      cases hfree.symm.trans hl
    clientId := rfl
    clientIdPid := rfl
    sockPid := rfl
    sockMine := fun k hk => by
      cases hk
      exact .head _
    accepted := List.forall_mem_singleton.mpr (by simp [aliceWorld, haccepted])
    ids := fun k hk => List.mem_singleton.mpr (hid k alice hk).1
    only := fun k _ c' hc => (hid k c' hc).2
    queue := fun _ => rfl
    received := fun _ _ => rfl
    fresh := fun _ _ => rfl
    granted := rfl }

def succeeds (n : Nat) : List (Move ⊕ Choice) := List.replicate n (.inr .succeed)

def exchanged (k : ConnId) : List (Move ⊕ Choice) :=
  succeeds 2 ++ [.inl (.execute k carol)] ++ succeeds 1

def replyLost : List (Move ⊕ Choice) :=
  succeeds 4 ++ [.inl (.execute 0 carol), .inr .fail] ++
    -- the handler closes the socket, and `_reconnect` once more
    succeeds 5 ++ [.inl (.lost 0)] ++ succeeds 1 ++ [.inr (.accept ⟨"10.0.0.1", 40002⟩)] ++ succeeds 3 ++
    -- `CONN` with the id that is read back, `CONNINFO`, and `AQ`
    succeeds 2 ++ exchanged 1 ++ succeeds 1 ++ succeeds 2 ++ exchanged 1 ++ exchanged 1

def outcome (p : Except Exc Bool × World) : Option Bool × Option ClientId × List Bool :=
  (p.1.toOption, p.2.server.adaptor.store.locksToClient.get? "l", p.2.granted.map p.2.closed)

def playHome (py : Builtins) (script : List (Move ⊕ Choice)) :
    Option (Bool × Option Bool × Option ClientId × List Bool) :=
  (home py).bind fun sv => (Prog.play (World.answer py plainConfig) (still py) script
    (LiveLock._acquire aliceProcess 3 aliceLock) (aliceWorld sv)).map fun p => (atHome sv, outcome p)

theorem play_acquire {script : List (Move ⊕ Choice)} {b : Bool} {owner : Option ClientId}
    {given : List Bool}
    (h : playHome ascii script = some (true, some b, owner, given)) :
    ∃ w w', Start ascii plainConfig aliceProcess alice aliceLock.id w ∧
      (LiveLock._acquire aliceProcess 3 aliceLock).Exec (Responds ascii plainConfig)
        (Meanwhile ascii plainConfig alice aliceLock.id) w (.ok b) w' ∧
      w'.server.adaptor.store.locksToClient.get? aliceLock.id = owner ∧
      w'.granted.map w'.closed = given := by
  obtain ⟨sv, hsv, hrest⟩ := Option.bind_eq_some_iff.mp h
  obtain ⟨⟨o, w'⟩, hplay, hfacts⟩ := Option.map_eq_some_iff.mp hrest
  simp only [outcome, Prod.mk.injEq] at hfacts
  obtain ⟨hhome, ho, howner, hgiven⟩ := hfacts
  cases o with
  | error e => cases ho
  | ok b' =>
    cases ho
    refine ⟨aliceWorld sv, w', home_start hsv hhome, ?_, howner, hgiven⟩
    exact Prog.play_exec hplay (fun w e choice r w' hr => ⟨choice, hr⟩)
      fun w m w' hm => still_meanwhile hm

theorem acquire_agrees_answered : ∃ (w w' : World) (b : Bool),
    (LiveLock._acquire aliceProcess 3 aliceLock).Exec (Responds ascii plainConfig)
      (Meanwhile ascii plainConfig alice aliceLock.id) w (.ok b) w' ∧
    (b = true ↔ w'.server.adaptor.store.locksToClient.get? aliceLock.id = some alice) := by
  have hplay : playHome ascii (succeeds 2 ++ exchanged 0) =
      some (true, some true, some alice, [false]) := by decide +kernel
  obtain ⟨w, w', hstart, hrun, -, hgiven⟩ := play_acquire hplay
  refine ⟨w, w', true, hrun, (acquire_agrees hstart rfl hrun .refl).mpr fun k hk => ?_⟩
  have hmem : w'.closed k ∈ w'.granted.map w'.closed := List.mem_map_of_mem hk
  rw [hgiven] at hmem
  exact List.mem_singleton.mp hmem

/-- The reply to the `AQ` that took the lock is lost, and the one to its
repetition on the next connection says that the lock is held. -/
theorem acquire_disagrees : ¬ ∀ (lock : LiveLock) (depth : Nat) (b : Bool) (w w₁ w' : World),
    Start ascii plainConfig aliceProcess alice lock.id w → lock.reentrant = false →
    (LiveLock._acquire aliceProcess depth lock).Exec (Responds ascii plainConfig)
      (Meanwhile ascii plainConfig alice lock.id) w (.ok b) w₁ →
    Relation.ReflTransGen (Meanwhile ascii plainConfig alice lock.id) w₁ w' →
    (b = true ↔ w'.server.adaptor.store.locksToClient.get? lock.id = some alice) := by
  intro h
  have hplay : playHome ascii replyLost =
      some (true, some false, some alice, [true]) := by decide +kernel
  obtain ⟨w, w', hstart, hrun, howner, -⟩ := play_acquire hplay
  cases (h aliceLock 3 false w w' w' hstart rfl hrun .refl).mpr howner

end Livelock.LostReplies
