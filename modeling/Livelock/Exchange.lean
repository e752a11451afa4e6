import Livelock.CallHistory
import Livelock.LockService

namespace Livelock.Exchange

open Livelock.Lib Livelock.Shared Livelock.MemoryStorage Livelock.Server
open Livelock.CommandSpec Livelock.ServerRun Livelock.ServerLease Livelock.ClientReader Livelock.Framing
open Livelock.CallHistory
open Livelock.Client (LiveLockConnection Process Exc Call Comp)
open Livelock.ProcessTree (isConn)
open Livelock.ProcessInvariant (joined_words)
open Livelock.LockService (joins_tells)
open Livelock.Lib.Prog (triple_bind triple_ret triple_raise triple_handle triple_perform triple_lift
  triple_pre triple_post triple_absurd)
open Livelock.Lib.Reader (Reads)

variable (py : Builtins) (cfg : Config) (proc : Process) (T : Time)

/-- What a program of the client comes to among these surroundings. -/
def Spec {α : Type} (P : World → Prop) (p : Comp α) (Q : α → World → Prop) (F : Exc → World → Prop) : Prop :=
  Prog.Triple (Responds py cfg) (Meanwhile py cfg) P p Q F

def Own (k : ConnId) (w : World) : Prop :=
  ∀ c : ClientId, idOf w.net.server k = some c → w.net.client.clientId = some c.name

/-- Nothing is under way on the connection that the client would use, and it
speaks for the client. -/
def Ready (w : World) : Prop :=
  Inv py cfg proc T w ∧ ∀ k, w.net.client.sock = some k → w.net.closed k = false →
    w.net.queue k = [] ∧ w.net.received k = [] ∧ Own k w

/-- The server has executed the command for the client, later than the history
`past`, and the client reads what it wrote for it as the response. -/
def Served (past : List Occurrence) (w : World) (ws : List String) (r : Response) : Prop :=
  ∃ pre o post sv sv' k uuid, w.history = pre ++ o :: post ∧ past <+: pre ∧
    Run (Steps py cfg) (.start T) pre sv ∧ Steps py cfg sv o sv' ∧ k ∈ w.net.mine ∧
    o.event = .command k uuid (words ws) ∧ (∀ c, idOf sv k = some c → w.net.client.clientId = some c.name) ∧
    Reads (readResponse py) (sent py o.writes) r

def Greets (ws : List String) : Prop :=
  (∃ password, ws = ["PASS", password]) ∨ isConn py ws = true ∨ ∃ info, ws = ["CONNINFO", info]

/-- An error of the server is the response to the command or to one of the
handshake. -/
def Explained (past : List Occurrence) (ws : List String) (e : Exc) (w : World) : Prop :=
  ∀ msg code, e = .client msg (some code) →
    ∃ ws', (ws' = ws ∨ Greets py ws') ∧ Served py cfg T past w ws' (.error msg (some code))

def Plain (ws : List String) : Prop := ws ≠ [] ∧ isConn py ws = false

/-- A `CONN` as the handshake sends it. -/
def Greeting (ws : List String) : Prop :=
  ws = ["CONN"] ∨ ∃ c : ClientId, '\n' ∉ c.name.toList ∧ ws = ["CONN", c.name]

def Good (new : Bool) (ws : List String) : Prop := Plain py ws ∨ (new = true ∧ Greeting ws)

variable (past : List Occurrence)

def Seen (w : World) : Prop := Inv py cfg proc T w ∧ past <+: w.history

def Blank (k : ConnId) (w : World) : Prop :=
  w.net.queue k = [] ∧ w.net.received k = [] ∧ idOf w.net.server k = none

def At (new : Bool) (w : World) : Prop :=
  Ready py cfg proc T w ∧ past <+: w.history ∧
    (new = true → ∃ k, w.net.client.sock = some k ∧ Blank k w)

def Shut (w : World) : Prop :=
  Seen py cfg proc T past w ∧ ∀ k, w.net.client.sock = some k → w.net.closed k = true

def Off (w : World) : Prop := Seen py cfg proc T past w ∧ w.net.client.sock = none

def Opened (k : ConnId) (w : World) : Prop :=
  Off py cfg proc T past w ∧ k ∈ w.net.mine ∧ Blank k w

/-- A command has been executed on a connection, which was new then if that is
asked for, and spoke for nobody but the client. -/
def Executed (new : Bool) (ws : List String) (k : ConnId) (w : World) (o : Occurrence) : Prop :=
  ∃ pre post sv sv' uuid, w.history = pre ++ o :: post ∧ past <+: pre ∧
    Run (Steps py cfg) (.start T) pre sv ∧ Steps py cfg sv o sv' ∧ o.event = .command k uuid (words ws) ∧
    '\n' ∉ uuid.name.toList ∧ (new = true → idOf sv k = none) ∧
    ∀ c, idOf sv k = some c → w.net.client.clientId = some c.name

def Named (ws : List String) (response : Response → Prop) (k : ConnId) (w : World) : Prop :=
  ∀ c : ClientId, idOf w.net.server k = some c →
    if isConn py ws = true then ∀ r, response r → r = .text c.name else w.net.client.clientId = some c.name

/-- The command has been sent and its response has not been read. -/
def Pending (new : Bool) (ws : List String) (k : ConnId) (w : World) : Prop :=
  Seen py cfg proc T past w ∧ w.net.client.sock = some k ∧ w.net.closed k = false ∧
    ((w.net.queue k = [ws] ∧ w.net.received k = [] ∧ Own k w ∧ (new = true → idOf w.net.server k = none)) ∨
      (w.net.queue k = [] ∧ (w.net.received k = [] ∨
        ∃ o, Executed py cfg T past new ws k w o ∧ w.net.received k = sent py o.writes ∧
          Named py ws (Reads (readResponse py) (sent py o.writes)) k w)))

/-- Nothing is under way, and the connection speaks for whom the response says. -/
def Settled (ws : List String) (r : Response) (w : World) : Prop :=
  Seen py cfg proc T past w ∧ ∀ k, w.net.client.sock = some k → w.net.closed k = false →
    w.net.queue k = [] ∧ w.net.received k = [] ∧ Named py ws (· = r) k w

def Answered (new : Bool) (ws : List String) (r : Response) (w : World) : Prop :=
  Settled py cfg proc T past ws r w ∧ ∃ k ∈ w.net.mine, ∃ o, Executed py cfg T past new ws k w o ∧
    Reads (readResponse py) (sent py o.writes) r

def Failed (ws : List String) (e : Exc) (w : World) : Prop :=
  At py cfg proc T past false w ∧ Explained py cfg T past ws e w

def Broke (ws : List String) (e : Exc) (w : World) : Prop :=
  Seen py cfg proc T past w ∧ (e.isOs = false → Failed py cfg proc T past ws e w)

variable {py cfg proc T past} {w w' : World} {o : Occurrence} {k : ConnId} {ws : List String} {new : Bool}
  {P : World → Prop} {F : Exc → World → Prop} {r : Response} {e : Exc}

theorem seen_change (h : Seen py cfg proc T past w) (hc : Change py cfg w o w') : Seen py cfg proc T past w' := by
  refine ⟨inv_change h.1 hc, ?_⟩
  rw [(change_steps hc).2.1]
  exact h.2.trans (List.prefix_append _ _)

theorem lasting_seen : Prog.Stable (Meanwhile py cfg) (Seen py cfg proc T past) :=
  lasting fun _ _ _ hc hw => seen_change hw hc

theorem quiet_change (hc : Change py cfg w o w') (hk : k ∈ w.net.mine) (hqueue : w.net.queue k = [])
    (hreceived : w.net.received k = []) : w'.net.queue k = [] ∧ w'.net.received k = [] ∧
      ∀ uuid value, o.event ≠ .command k uuid value := by
  cases change_channel hc hk with
  | still hqueue' hreceived' hother => exact ⟨hqueue'.trans hqueue, hreceived'.trans hreceived, hother⟩
  | served uuid ws rest hnext => cases hqueue.symm.trans hnext
  | lost hqueue' hreceived' hother => exact ⟨hqueue', hreceived'.trans hreceived, hother⟩

theorem own_change (h : Inv py cfg proc T w) (hc : Change py cfg w o w')
    (hother : ∀ uuid value, o.event ≠ .command k uuid value) (hown : Own k w) : Own k w' := by
  rw [Own, (change_steps hc).2.2.1]
  exact change_speaks h hc hother hown

theorem named_change {response : Response → Prop} (h : Inv py cfg proc T w) (hc : Change py cfg w o w')
    (hother : ∀ uuid value, o.event ≠ .command k uuid value) (hnamed : Named py ws response k w) :
    Named py ws response k w' := by
  rw [Named, (change_steps hc).2.2.1]
  exact change_speaks h hc hother hnamed

theorem ready_change (h : Ready py cfg proc T w) (hc : Change py cfg w o w') : Ready py cfg proc T w' := by
  obtain ⟨hinv, hquiet⟩ := h
  obtain ⟨-, -, hclient, -, hclosed⟩ := change_steps hc
  refine ⟨inv_change hinv hc, fun k hk hopen => ?_⟩
  rw [hclient] at hk
  rw [hclosed] at hopen
  obtain ⟨hqueue, hreceived, hown⟩ := hquiet k hk hopen
  obtain ⟨hqueue', hreceived', hother⟩ := quiet_change hc (hinv.sockMine k hk) hqueue hreceived
  exact ⟨hqueue', hreceived', own_change hinv hc hother hown⟩

theorem blank_change (h : Inv py cfg proc T w) (hb : Blank k w) (hk : k ∈ w.net.mine)
    (hc : Change py cfg w o w') : Blank k w' := by
  obtain ⟨hqueue, hreceived, hid⟩ := hb
  obtain ⟨hqueue', hreceived', hother⟩ := quiet_change hc hk hqueue hreceived
  exact ⟨hqueue', hreceived', change_id h hc hother hid⟩

theorem own_blank (h : Blank k w) : Own k w := by
  intro c hc
  cases h.2.2.symm.trans hc

theorem lasting_at : Prog.Stable (Meanwhile py cfg) (At py cfg proc T past new) := by
  refine lasting fun w o w' hc hw => ?_
  obtain ⟨hready, hpast, hnew⟩ := hw
  refine ⟨ready_change hready hc, (seen_change ⟨hready.1, hpast⟩ hc).2, fun hn => ?_⟩
  obtain ⟨k, hsock, hblank⟩ := hnew hn
  refine ⟨k, ?_, blank_change hready.1 hblank (hready.1.sockMine k hsock) hc⟩
  rw [(change_steps hc).2.2.1]
  exact hsock

theorem lasting_shut : Prog.Stable (Meanwhile py cfg) (Shut py cfg proc T past) := by
  refine lasting fun w o w' hc hw => ⟨seen_change hw.1 hc, fun k hk => ?_⟩
  obtain ⟨-, -, hclient, -, hclosed⟩ := change_steps hc
  rw [hclient] at hk
  rw [hclosed]
  exact hw.2 k hk

theorem lasting_off : Prog.Stable (Meanwhile py cfg) (Off py cfg proc T past) := by
  refine lasting fun w o w' hc hw => ⟨seen_change hw.1 hc, ?_⟩
  rw [(change_steps hc).2.2.1]
  exact hw.2

theorem lasting_opened : Prog.Stable (Meanwhile py cfg) (Opened py cfg proc T past k) := by
  refine lasting fun w o w' hc hw => ?_
  obtain ⟨⟨hseen, hoff⟩, hmine, hblank⟩ := hw
  obtain ⟨-, -, hclient, hmine', -⟩ := change_steps hc
  refine ⟨⟨seen_change hseen hc, ?_⟩, ?_, blank_change hseen.1 hblank hmine hc⟩
  · rw [hclient]
    exact hoff
  · rw [hmine']
    exact hmine

theorem executed_change (h : Executed py cfg T past new ws k w o) {o' : Occurrence} (hc : Change py cfg w o' w') :
    Executed py cfg T past new ws k w' o := by
  obtain ⟨pre, post, sv, sv', uuid, hsplit, hpast, hrun, hs, he, hline, hnew, hown⟩ := h
  obtain ⟨-, hhistory, hclient, -⟩ := change_steps hc
  refine ⟨pre, post ++ [o'], sv, sv', uuid, ?_, hpast, hrun, hs, he, hline, hnew, ?_⟩
  · rw [hhistory, hsplit, List.append_assoc, List.cons_append]
  · rw [hclient]
    exact hown

theorem named_served {uuid : ClientId} (h : Inv py cfg proc T w) (hgood : Good py new ws)
    (hc : Change py cfg w o w') (he : o.event = .command k uuid (words ws)) (hown : Own k w)
    (hid : new = true → idOf w.net.server k = none) :
    Named py ws (Reads (readResponse py) (sent py o.writes)) k w' := by
  intro c hnew
  obtain ⟨hs, -, hclient, -⟩ := change_steps hc
  obtain hold | ⟨restore, hjoins⟩ := moved_id (inv_sound h) hs hnew
  · split
    · next hconn =>
      obtain ⟨-, hplain⟩ | ⟨hn, -⟩ := hgood
      · cases hconn.symm.trans hplain
      · cases (hid hn).symm.trans hold
    · rw [hclient]
      exact hown c hold
  · rw [if_pos (joined_words hjoins he).2.1]
    exact joins_tells (inv_sound h) hs hjoins

/-- A request that is under way is executed at most once, and what is written
for it comes to the client. -/
theorem lasting_pending (hgood : Good py new ws) :
    Prog.Stable (Meanwhile py cfg) (Pending py cfg proc T past new ws k) := by
  refine lasting fun w o w' hc hw => ?_
  obtain ⟨hseen, hsock, hopen, hstate⟩ := hw
  have hmine : k ∈ w.net.mine := hseen.1.sockMine k hsock
  obtain ⟨hs, hhistory, hclient, -, hclosed⟩ := change_steps hc
  refine ⟨seen_change hseen hc, by rw [hclient, hsock], by rw [hclosed, hopen], ?_⟩
  obtain ⟨hqueue, hreceived, hown, hid⟩ | ⟨hqueue, hreceived⟩ := hstate
  · cases change_channel hc hmine with
    | still hqueue' hreceived' hother =>
      refine .inl ⟨hqueue'.trans hqueue, hreceived'.trans hreceived, own_change hseen.1 hc hother hown, ?_⟩
      exact fun hn => change_id hseen.1 hc hother (hid hn)
    | served uuid ws' rest hnext hqueue' hreceived' he hline =>
      obtain ⟨rfl, rfl⟩ := List.cons.inj (hqueue.symm.trans hnext)
      refine .inr ⟨hqueue', .inr ⟨o, ?_, by rw [hreceived', hreceived, List.nil_append], ?_⟩⟩
      · refine ⟨w.history, [], w.net.server, w'.net.server, uuid, hhistory, hseen.2, hseen.1.reached, hs, he,
          hline, hid, ?_⟩
        rw [hclient]
        exact hown
      · exact named_served hseen.1 hgood hc he hown hid
    | lost hqueue' hreceived' => exact .inr ⟨hqueue', .inl (hreceived'.trans hreceived)⟩
  · have hkept : w'.net.queue k = [] ∧ w'.net.received k = w.net.received k ∧
        ∀ uuid value, o.event ≠ .command k uuid value := by
      cases change_channel hc hmine with
      | still hqueue' hreceived' hother => exact ⟨hqueue'.trans hqueue, hreceived', hother⟩
      | served uuid ws' rest hnext => cases hqueue.symm.trans hnext
      | lost hqueue' hreceived' hother => exact ⟨hqueue', hreceived', hother⟩
    obtain ⟨hqueue', hreceived', hother⟩ := hkept
    refine .inr ⟨hqueue', ?_⟩
    rw [hreceived']
    refine hreceived.imp_right fun ⟨o', hexec, hr, hnamed⟩ => ⟨o', executed_change hexec hc, hr, ?_⟩
    exact named_change hseen.1 hc hother hnamed

theorem lasting_settled : Prog.Stable (Meanwhile py cfg) (Settled py cfg proc T past ws r) := by
  refine lasting fun w o w' hc hw => ⟨seen_change hw.1 hc, fun k hk hopen => ?_⟩
  obtain ⟨-, -, hclient, -, hclosed⟩ := change_steps hc
  rw [hclient] at hk
  rw [hclosed] at hopen
  obtain ⟨hqueue, hreceived, hnamed⟩ := hw.2 k hk hopen
  obtain ⟨hqueue', hreceived', hother⟩ := quiet_change hc (hw.1.1.sockMine k hk) hqueue hreceived
  exact ⟨hqueue', hreceived', named_change hw.1.1 hc hother hnamed⟩

theorem responds_net {e : Call} {r : e.Result} (h : Responds py cfg w e r w') : ∃ choice,
    w.waits e choice = false ∧ w.net.answer py cfg e choice = some (r, w'.net) ∧
      w'.history = w.history ++ World.done e choice := by
  obtain ⟨choice, h⟩ := h
  unfold World.answer at h
  split at h
  · cases h
  · next hwaits =>
    obtain ⟨p, hp, heq⟩ := Option.map_eq_some_iff.mp h
    cases heq
    exact ⟨choice, Bool.eq_false_iff.mpr hwaits, hp, rfl⟩

theorem responds_quiet {e : Call} {r : e.Result} (h : Responds py cfg w e r w') (he : e ≠ .connect) :
    Network.Responds py cfg w.net e r w'.net ∧ w'.history = w.history := by
  obtain ⟨choice, -, hanswer, hhistory⟩ := responds_net h
  refine ⟨⟨choice, hanswer⟩, ?_⟩
  rw [hhistory]
  cases e with
  | connect => exact absurd rfl he
  | _ => exact List.append_nil _

theorem spec_self (hP : Prog.Stable (Meanwhile py cfg) P) :
    Spec py cfg P Client.self (fun self w => P w ∧ w.net.client = self) F := by
  refine triple_perform hP fun w r w' hw hr => ?_
  obtain ⟨hnet, hhistory⟩ := responds_quiet hr (by simp)
  obtain ⟨rfl, hsame⟩ := LostReplies.responds_self hnet
  obtain ⟨net, history⟩ := w'
  cases hsame
  cases hhistory
  exact ⟨hw, rfl⟩

theorem lasting_client {self : LiveLockConnection} (hP : Prog.Stable (Meanwhile py cfg) P) :
    Prog.Stable (Meanwhile py cfg) fun w => P w ∧ w.net.client = self := by
  rintro w w' hm ⟨hw, hself⟩
  obtain ⟨o, hc⟩ := meanwhile_change hm
  exact ⟨hP w w' hm hw, by rw [(change_steps hc).2.2.1, hself]⟩

theorem spec_close : Spec py cfg (Seen py cfg proc T past) (Client.close proc)
    (fun _ => Shut py cfg proc T past) F := by
  refine triple_bind (spec_self lasting_seen) fun self => ?_
  cases hsock : self.ownSock proc.pid with
  | none =>
    refine triple_ret ?_
    rintro w ⟨hseen, rfl⟩
    refine ⟨hseen, fun k hk => ?_⟩
    rw [LiveLockConnection.ownSock, if_pos hseen.1.sockPid, hk] at hsock
    cases hsock
  | some k =>
    refine triple_perform (lasting_client lasting_seen) ?_
    rintro w r w' ⟨hseen, rfl⟩ hr
    obtain ⟨hnet, hhistory⟩ := responds_quiet hr (by simp)
    have hclosed := LostReplies.responds_close hnet
    rw [LiveLockConnection.ownSock, if_pos hseen.1.sockPid] at hsock
    obtain ⟨net, history⟩ := w'
    cases hclosed
    cases hhistory
    refine ⟨⟨{ hseen.1 with }, hseen.2⟩, fun j hj => ?_⟩
    obtain rfl : k = j := Option.some_inj.mp (hsock.symm.trans hj)
    exact Function.update_self _ _ _

theorem spec_dropSock : Spec py cfg (Shut py cfg proc T past) Client.dropSock
    (fun _ => Off py cfg proc T past) F := by
  refine triple_perform lasting_shut fun w r w' hw hr => ?_
  obtain ⟨hnet, hhistory⟩ := responds_quiet hr (by simp)
  have hdropped := LostReplies.responds_dropSock hnet
  obtain ⟨net, history⟩ := w'
  cases hdropped
  cases hhistory
  exact ⟨⟨{ hw.1.1 with sockMine := nofun }, hw.1.2⟩, rfl⟩

theorem shut_at (h : Shut py cfg proc T past w) : At py cfg proc T past false w := by
  refine ⟨⟨h.1.1, fun k hk hopen => ?_⟩, h.1.2, nofun⟩
  rw [h.2 k hk] at hopen
  cases hopen

theorem off_shut (h : Off py cfg proc T past w) : Shut py cfg proc T past w := by
  refine ⟨h.1, fun k hk => ?_⟩
  rw [h.2] at hk
  cases hk

theorem at_seen (h : At py cfg proc T past new w) : Seen py cfg proc T past w := ⟨h.1.1, h.2.1⟩

theorem at_false (h : At py cfg proc T past new w) : At py cfg proc T past false w := ⟨h.1, h.2.1, nofun⟩

theorem explained_other (he : ∀ msg code, e ≠ .client msg (some code)) : Explained py cfg T past ws e w :=
  fun msg code h => absurd h (he msg code)

theorem explained_os (he : e.isOs = true) : Explained py cfg T past ws e w := by
  refine explained_other fun msg code h => ?_
  subst h
  cases he

theorem failed_greets {ws' : List String} (h : Failed py cfg proc T past ws' e w) (hgreets : Greets py ws') :
    Failed py cfg proc T past ws e w := by
  refine ⟨h.1, fun msg code he => ?_⟩
  obtain ⟨ws'', hws, hserved⟩ := h.2 msg code he
  refine ⟨ws'', .inr ?_, hserved⟩
  obtain rfl | hws := hws
  · exact hgreets
  · exact hws

theorem failed_broke (h : Failed py cfg proc T past ws e w) : Broke py cfg proc T past ws e w :=
  ⟨at_seen h.1, fun _ => h⟩

theorem opened_accept (h : Off py cfg proc T past w) {peername : Address} {writes : List Write} {sv : Server}
    (hs : Steps py cfg w.net.server ⟨.connect peername, fun _ => 0, writes⟩ sv) :
    writes = [] ∧ Opened py cfg proc T past w.net.server.accepted
      ⟨{ w.net with server := sv, mine := w.net.server.accepted :: w.net.mine },
        w.history ++ [⟨.connect peername, fun _ => 0, writes⟩]⟩ := by
  obtain ⟨⟨hinv, hpast⟩, hoff⟩ := h
  have hsound := inv_sound hinv
  have hnone : idOf w.net.server w.net.server.accepted = none := by
    cases hk : w.net.server.connections.get? w.net.server.accepted with
    | none => rw [idOf, hk, Option.bind_none]
    | some session => exact absurd (hsound.older _ session hk) (lt_irrefl _)
  have hqueue : w.net.queue w.net.server.accepted = [] := by
    by_contra hne
    exact absurd (hinv.accepted _ (hinv.queued _ hne)) (lt_irrefl _)
  have hreceived : w.net.received w.net.server.accepted = [] := hinv.received _ le_rfl
  cases step_change hsound hs with
  | connect peername' he hw =>
    refine ⟨hw, ⟨⟨?_, hpast.trans (List.prefix_append _ _)⟩, hoff⟩, List.mem_cons_self, hqueue, hreceived, ?_⟩
    · exact {
        reached := hinv.reached.snoc hs
        accepted := List.forall_mem_cons.mpr ⟨Nat.lt_succ_self _, fun k hk => (hinv.accepted k hk).trans
          (Nat.lt_succ_self _)⟩
        queued := fun k hk => List.mem_cons_of_mem _ (hinv.queued k hk)
        received := fun k hk => hinv.received k (Nat.le_of_succ_le hk)
        sockMine := fun k hk => List.mem_cons_of_mem _ (hinv.sockMine k hk)
        sockPid := hinv.sockPid
        clientIdPid := hinv.clientIdPid
        oneLine := hinv.oneLine }
    · exact (idOf_connect hsound peername' _).trans hnone
  | command _ _ _ _ _ he | lost _ _ he | lostLast _ _ _ he | maintenance _ _ _ _ he => cases he

theorem spec_connectOnce : Spec py cfg (Off py cfg proc T past) Client.connectOnce
    (fun k => Opened py cfg proc T past k) (fun e w => Off py cfg proc T past w ∧ e.isOs = true) := by
  refine triple_bind (triple_perform lasting_off fun w r w' hw hr => ?_) fun o => triple_lift
  obtain ⟨choice, -, hanswer, hhistory⟩ := responds_net hr
  obtain ⟨net, history⟩ := w'
  cases choice with
  | accept peername =>
    obtain ⟨⟨sv, writes⟩, hs, heq⟩ := Option.map_eq_some_iff.mp hanswer
    cases heq
    cases hhistory
    obtain ⟨rfl, hopened⟩ := opened_accept hw hs
    exact hopened
  | refuse | fail =>
    cases hanswer
    obtain rfl : history = w.history := hhistory.trans (List.append_nil _)
    exact ⟨hw, rfl⟩
  | succeed | failLate => cases hanswer

theorem spec_connectSocket (n : Nat) : Spec py cfg (Off py cfg proc T past) (Client.connectSocket n)
    (fun k => Opened py cfg proc T past k) (fun e w => Off py cfg proc T past w ∧ e.isOs = true) := by
  induction n with
  | zero => exact triple_raise fun w hw => ⟨hw, rfl⟩
  | succ n ih =>
    refine triple_handle spec_connectOnce fun e => ?_
    cases e with
    | refused => exact triple_pre ih fun w hw => hw.1
    | os | client | other => exact triple_raise fun w hw => hw

theorem spec_keepSock : Spec py cfg (Opened py cfg proc T past k) (Client.keepSock k proc.pid)
    (fun _ => At py cfg proc T past true) F := by
  refine triple_perform lasting_opened fun w r w' hw hr => ?_
  obtain ⟨⟨⟨hinv, hpast⟩, -⟩, hmine, hblank⟩ := hw
  obtain ⟨hnet, hhistory⟩ := responds_quiet hr (by simp)
  have hkept := LostReplies.responds_keepSock hnet
  obtain ⟨net, history⟩ := w'
  cases hkept
  cases hhistory
  have hsock : ∀ j, some k = some j → j = k := fun j hj => (Option.some_inj.mp hj).symm
  refine ⟨⟨{ hinv with sockPid := rfl, sockMine := fun j hj => ?_ }, fun j hj _ => ?_⟩, hpast, fun _ =>
    ⟨k, rfl, hblank⟩⟩
  · rw [hsock j hj]
    exact hmine
  · rw [hsock j hj]
    exact ⟨hblank.1, hblank.2.1, own_blank hblank⟩

theorem isConn_cons {verb : String} {args : List String} :
    isConn py (verb :: args) = true ↔ Verb.named (py.lower verb) = .conn := decide_eq_true_iff

theorem greeting_sent (hopen : ∀ session, lockedOut cfg session = false) (hgreeting : Greeting ws)
    (h : Executed py cfg T past true ws k w o) :
    ∃ c : ClientId, '\n' ∉ c.name.toList ∧ sent py o.writes = encode (Content.text c.name).payload ∧
      ∀ id, ws = ["CONN", id] → c.name = id := by
  obtain ⟨pre, post, sv, sv', uuid, -, -, hrun, hs, he, hline, hnew, -⟩ := h
  have hsound : Sound sv := sound_run hrun (sound_start T)
  obtain ⟨session, hk⟩ := steps_session hsound hs he
  have hnone : session.clientId = none := by
    have hid := hnew rfl
    rwa [idOf, hk, Option.bind_some] at hid
  obtain ⟨args, hargs, rfl⟩ : ∃ args, (∀ arg ∈ args, arg ≠ "" ∧ '\n' ∉ arg.toList) ∧ ws = "CONN" :: args := by
    obtain rfl | ⟨c, hc, rfl⟩ := hgreeting
    · exact ⟨[], List.forall_mem_nil _, rfl⟩
    · exact ⟨[c.name], List.forall_mem_singleton.mpr ⟨c.nonempty, hc⟩, rfl⟩
  obtain ⟨hno, -⟩ | ⟨-, c, hname, hw⟩ :=
    command_writes hsound hs he hk (hopen session) fun arg harg => (hargs arg harg).1
  · exact absurd (verb_conn py) hno
  · refine ⟨c, ?_, ?_, ?_⟩
    · obtain ⟨-, rfl⟩ | hhead := hname
      · exact hline
      · exact (hargs _ (List.mem_of_head? hhead)).2
    · rw [hw, hnone]
      simp [sent, Write.payload]
    · intro id hid
      obtain rfl : args = [id] := (List.cons.inj hid).2
      obtain ⟨hnil, -⟩ | hhead := hname
      · cases hnil
      · exact (Option.some_inj.mp hhead).symm

theorem executed_reads (hopen : ∀ session, lockedOut cfg session = false) (hgood : Good py new ws)
    (h : Executed py cfg T past new ws k w o) : ∃ r, Reads (readResponse py) (sent py o.writes) r := by
  obtain ⟨hne, hplain⟩ | ⟨rfl, hgreeting⟩ := hgood
  · obtain ⟨pre, post, sv, sv', uuid, -, -, hrun, hs, he, -⟩ := h
    have hsound : Sound sv := sound_run hrun (sound_start T)
    obtain ⟨session, hk⟩ := steps_session hsound hs he
    obtain ⟨verb, args, rfl⟩ := List.exists_cons_of_ne_nil hne
    have hconn : Verb.named (py.lower verb) ≠ .conn := by
      intro hconn
      rw [isConn_cons.mpr hconn] at hplain
      cases hplain
    obtain ⟨write, hw, hframed⟩ := single_writes hsound hs he hk (hopen session) hconn
    rw [hw]
    exact reads_sent hframed
  · obtain ⟨c, hline, hsent, -⟩ := greeting_sent hopen hgreeting h
    rw [hsent]
    exact ⟨_, reads_text hline⟩

theorem pending_enqueue (h : At py cfg proc T past new w) (hsock : w.net.client.sock = some k)
    (hopen : w.net.closed k = false) :
    Pending py cfg proc T past new ws k ⟨w.net.enqueue k ws, w.history⟩ := by
  obtain ⟨⟨hinv, hquiet⟩, hpast, hnew⟩ := h
  obtain ⟨hqueue, hreceived, hown⟩ := hquiet k hsock hopen
  refine ⟨⟨{ hinv with queued := fun j hj => ?_ }, hpast⟩, hsock, hopen, .inl ⟨?_, hreceived, hown, fun hn => ?_⟩⟩
  · by_cases hjk : j = k
    · rw [hjk]
      exact hinv.sockMine k hsock
    · simp only [Network.World.enqueue, Function.update_of_ne hjk] at hj
      exact hinv.queued j hj
  · simp only [Network.World.enqueue, Function.update_self, hqueue, List.nil_append]
  · obtain ⟨j, hj, hblank⟩ := hnew hn
    obtain rfl : k = j := Option.some_inj.mp (hsock.symm.trans hj)
    exact hblank.2.2

theorem spec_sendall : Spec py cfg (fun w => At py cfg proc T past new w ∧ w.net.client.sock = some k)
    (Client.sendall k ws) (fun _ => Pending py cfg proc T past new ws k)
    (fun e w => Seen py cfg proc T past w ∧ e.isOs = true) := by
  have hlasting : Prog.Stable (Meanwhile py cfg) fun w =>
      At py cfg proc T past new w ∧ w.net.client.sock = some k := by
    rintro w w' hm ⟨hw, hsock⟩
    obtain ⟨o, hc⟩ := meanwhile_change hm
    exact ⟨lasting_at w w' hm hw, by rw [(change_steps hc).2.2.1, hsock]⟩
  refine triple_bind (triple_perform hlasting fun w r w' hw hr => ?_) fun o => triple_lift
  obtain ⟨choice, -, hanswer, hhistory⟩ := responds_net hr
  obtain ⟨net, history⟩ := w'
  obtain rfl : history = w.history := hhistory.trans (List.append_nil _)
  cases choice with
  | succeed =>
    obtain ⟨hopen, heq⟩ := Option.ite_none_left_eq_some.mp hanswer
    cases heq
    exact pending_enqueue hw.1 hw.2 (Bool.eq_false_iff.mpr hopen)
  | failLate =>
    obtain ⟨hopen, heq⟩ := Option.ite_none_left_eq_some.mp hanswer
    cases heq
    have hpending : Pending py cfg proc T past new ws k _ :=
      pending_enqueue hw.1 hw.2 (Bool.eq_false_iff.mpr hopen)
    exact ⟨hpending.1, rfl⟩
  | fail =>
    cases hanswer
    exact ⟨at_seen hw.1, rfl⟩
  | accept | refuse => cases hanswer

theorem named_read {bytes : Bytes} (hread : Reads (readResponse py) bytes r)
    (hnamed : Named py ws (Reads (readResponse py) bytes) k w) : Named py ws (· = r) k w := by
  intro c hc
  have hname := hnamed c hc
  split
  · next hconn =>
    rw [if_pos hconn] at hname
    rintro r' rfl
    exact hname r' hread
  · next hplain => rwa [if_neg hplain] at hname

theorem pending_read (hopen : ∀ session, lockedOut cfg session = false) (hgood : Good py new ws)
    (h : Pending py cfg proc T past new ws k w) (hreceived : w.net.received k ≠ []) :
    ∃ r, readResponse py (w.net.received k) = some (r, []) ∧ Answered py cfg proc T past new ws r
      ⟨{ w.net with received := Function.update w.net.received k [] }, w.history⟩ := by
  obtain ⟨⟨hinv, hpast⟩, hsock, -, ⟨-, hnil, -⟩ | ⟨hqueue, hnil | ⟨o, hexec, hsent, hnamed⟩⟩⟩ := h
  · exact absurd hnil hreceived
  · exact absurd hnil hreceived
  · obtain ⟨r, hread⟩ := executed_reads hopen hgood hexec
    have hall := hread []
    rw [List.append_nil] at hall
    refine ⟨r, by rw [hsent, hall], ⟨⟨{ hinv with received := fun j hj => ?_ }, hpast⟩, fun j hj _ => ?_⟩,
      k, hinv.sockMine k hsock, o, hexec, hread⟩
    · by_cases hjk : j = k
      · subst hjk
        exact Function.update_self _ _ _
      · simp only [Function.update_of_ne hjk]
        exact hinv.received j hj
    · obtain rfl : k = j := Option.some_inj.mp (hsock.symm.trans hj)
      exact ⟨hqueue, Function.update_self _ _ _, named_read hread hnamed⟩

theorem answered_served (h : Answered py cfg proc T past new ws r w) : Served py cfg T past w ws r := by
  obtain ⟨-, k, hk, o, ⟨pre, post, sv, sv', uuid, hsplit, hpast, hrun, hs, he, -, -, hown⟩, hread⟩ := h
  exact ⟨pre, o, post, sv, sv', k, uuid, hsplit, hpast, hrun, hs, hk, he, hown, hread⟩

/-- The client is where it can send again as soon as it keeps the id that the
response to a `CONN` names. -/
theorem settled_at (h : Settled py cfg proc T past ws r w)
    (hkept : isConn py ws = true → ∀ c : ClientId, r = .text c.name → w.net.client.clientId = some c.name) :
    At py cfg proc T past false w := by
  obtain ⟨⟨hinv, hpast⟩, hquiet⟩ := h
  refine ⟨⟨hinv, fun k hk hopen => ?_⟩, hpast, nofun⟩
  obtain ⟨hqueue, hreceived, hnamed⟩ := hquiet k hk hopen
  refine ⟨hqueue, hreceived, fun c hc => ?_⟩
  have hname := hnamed c hc
  split at hname
  · next hconn => exact hkept hconn c (hname r rfl)
  · exact hname

theorem plain_at (h : Answered py cfg proc T past new ws r w) (hplain : isConn py ws = false) :
    At py cfg proc T past false w := by
  refine settled_at h.1 fun hconn => ?_
  cases hplain.symm.trans hconn

theorem spec_read (hopen : ∀ session, lockedOut cfg session = false) (hgood : Good py new ws) :
    Spec py cfg (Pending py cfg proc T past new ws k) (Client.read k)
      (fun r => Answered py cfg proc T past new ws r)
      (fun e w => Seen py cfg proc T past w ∧ e.isOs = true) := by
  refine triple_bind (triple_perform (lasting_pending hgood) fun w r w' hw hr => ?_) fun o => triple_lift
  obtain ⟨choice, hwaits, hanswer, hhistory⟩ := responds_net hr
  obtain ⟨net, history⟩ := w'
  obtain rfl : history = w.history := hhistory.trans (List.append_nil _)
  cases choice with
  | succeed =>
    have harrived : w.net.received k ≠ [] := by
      intro hnil
      simp [World.waits, hnil] at hwaits
    obtain ⟨r', hread, hanswered⟩ := pending_read hopen hgood hw harrived
    obtain ⟨-, heq⟩ := Option.ite_none_left_eq_some.mp hanswer
    rw [hread] at heq
    cases heq
    exact hanswered
  | fail =>
    cases hanswer
    exact ⟨hw.1, rfl⟩
  | accept | refuse | failLate => cases hanswer

theorem spec_readResponse (hopen : ∀ session, lockedOut cfg session = false) (hgood : Good py new ws) :
    Spec py cfg (Pending py cfg proc T past new ws k) (Client.readResponse k)
      (fun r w => Answered py cfg proc T past new ws r w ∧ ∀ msg code, r ≠ .error msg code)
      (fun e w => Broke py cfg proc T past ws e w) := by
  refine triple_bind (triple_post (spec_read hopen hgood) (fun _ _ hw => hw) ?_) fun r => ?_
  · rintro e w ⟨hseen, hos⟩
    refine ⟨hseen, fun hnot => ?_⟩
    cases hos.symm.trans hnot
  · cases r with
    | error msg code =>
      refine triple_raise fun w hw => failed_broke ⟨settled_at hw.1 ?_, fun msg' code' he => ?_⟩
      · intro _ c hc
        cases hc
      · cases he
        exact ⟨ws, .inl rfl, answered_served hw⟩
    | text | value => exact triple_ret fun w hw => ⟨hw, by simp⟩

theorem spec_exchange (hopen : ∀ session, lockedOut cfg session = false) (hgood : Good py new ws) :
    Spec py cfg (At py cfg proc T past new) (Client.exchange ws)
      (fun r w => Answered py cfg proc T past new ws r w ∧ ∀ msg code, r ≠ .error msg code)
      (fun e w => Broke py cfg proc T past ws e w) := by
  refine triple_bind (spec_self lasting_at) fun self => ?_
  cases hsock : self.sock with
  | none =>
    refine triple_raise fun w hw => failed_broke ⟨at_false hw.1, explained_other ?_⟩
    simp
  | some k =>
    have hsend : Spec py cfg (fun w => At py cfg proc T past new w ∧ w.net.client = self) (Client.sendall k ws)
        (fun _ => Pending py cfg proc T past new ws k) (fun e w => Broke py cfg proc T past ws e w) := by
      refine triple_post (triple_pre spec_sendall ?_) (fun _ _ hw => hw) ?_
      · rintro w ⟨hat, rfl⟩
        exact ⟨hat, hsock⟩
      · rintro e w ⟨hseen, hos⟩
        refine ⟨hseen, fun hnot => ?_⟩
        cases hos.symm.trans hnot
    exact triple_bind hsend fun _ => spec_readResponse hopen hgood

end Livelock.Exchange
