import Livelock.ProcessInvariant

namespace Livelock.OwnSockets

open Livelock.Lib Livelock.Shared Livelock.MemoryStorage Livelock.Server Livelock.CommandSpec
open Livelock.ServerRun Livelock.ServerLease Livelock.ClientReader Livelock.Framing
open Livelock.ProcessTree hiding Steps
open Livelock.ProcessInvariant
open Livelock.Client (LiveLockConnection Exc Call Comp)
open Livelock.Lib.Prog (secure_bind secure_ret secure_raise secure_handle secure_perform secure_lift
  secure_pre secure_post secure_frame secure_exists secure_absurd)

variable (py : Builtins) (cfg : Config) (given : Given) (a : Agent)

/-- What a program of an object comes to among all the others. -/
def Spec {α : Type} (P : World → Prop) (p : Comp α) (Q : α → World → Prop) (F : Exc → World → Prop) :
    Prop :=
  Prog.Secure (Responds py cfg a) (Around py cfg given a) (fun w e => Allowed py w a e) P p Q F

/-- The socket of the object, if it has one, is its own. -/
def Mine (w : World) : Prop :=
  Present py given a w ∧ ∃ c, w.client a = some c ∧ c.sockPid = a.pid

def Blank (k : ConnId) (w : World) : Prop :=
  w.queue k = [] ∧ w.received k = [] ∧ idOf w.server k = none

def Fresh (k : ConnId) (w : World) : Prop :=
  Present py given a w ∧ w.opener k = some a ∧ Blank k w

def New (k : ConnId) (w : World) : Prop :=
  Fresh py given a k w ∧ ∃ c, w.client a = some c ∧ c.ownSock a.pid = some k

def Fit (ws : List String) (w : World) : Prop := ∀ id, presented py ws = some id → id ∈ w.ids a.pid

def Named (r : Response) (w : World) : Prop := ∀ id, Client.truthy r.str? = some id → id ∈ w.ids a.pid

/-- What the reply to a command on a new connection says, when it is no error. -/
def Told (k : ConnId) (ws : List String) (r : Response) (rest : Bytes) (w : World) : Prop :=
  (∀ password, ws = ["PASS", password] → rest = [] ∧ idOf w.server k = none) ∧
    (ws = ["CONN"] → Named a r w)

/-- The socket of the object is the one, and the object has opened it. -/
def Holds (k : ConnId) (w : World) : Prop :=
  Present py given a w ∧ w.opener k = some a ∧ ∃ c, w.client a = some c ∧ c.ownSock a.pid = some k

def Sent (k : ConnId) (ws : List String) (w : World) : Prop :=
  Holds py given a k w ∧
    (w.queue k = [ws] ∧ w.received k = [] ∧ idOf w.server k = none ∨
      w.queue k = [] ∧ ∀ r rest, readResponse py (w.received k) = some (r, rest) →
        (∃ msg n, r = .error msg n) ∨ Told a k ws r rest w)

variable {py cfg given a} {w w' : World} {k : ConnId} {ws : List String} {P : World → Prop}
  {F : Exc → World → Prop} {hostname : String} {send : List String → Bool → Bool → Comp Response}

theorem stable_present : Prog.Stable (Around py cfg given a) (Present py given a) := by
  rintro w w' h ⟨-, hclient⟩
  exact ⟨h.wf, by rw [h.client]; exact hclient⟩

theorem stable_client (hP : Prog.Stable (Around py cfg given a) P) (c : LiveLockConnection) :
    Prog.Stable (Around py cfg given a) fun w => P w ∧ w.client a = some c := by
  rintro w w' h ⟨hw, hclient⟩
  exact ⟨hP w w' h hw, by rw [h.client, hclient]⟩

theorem stable_mine : Prog.Stable (Around py cfg given a) (Mine py given a) := by
  rintro w w' h ⟨hpresent, c, hclient, hpid⟩
  exact ⟨stable_present w w' h hpresent, c, by rw [h.client, hclient], hpid⟩

theorem stable_fresh : Prog.Stable (Around py cfg given a) (Fresh py given a k) := by
  rintro w w' h ⟨hpresent, hopener, hqueue, hreceived, hid⟩
  refine ⟨stable_present w w' h hpresent, h.opener k hopener, ?_⟩
  cases h.channel k hopener with
  | still hqueue' hreceived' hid' =>
    refine ⟨hqueue'.trans hqueue, hreceived'.trans hreceived, ?_⟩
    apply Option.eq_none_iff_forall_ne_some.mpr
    intro c hc
    cases hid.symm.trans (hid' c hc)
  | served _ _ _ _ hnext => cases hqueue.symm.trans hnext

theorem stable_new : Prog.Stable (Around py cfg given a) (New py given a k) := by
  rintro w w' h ⟨hfresh, c, hclient, hsock⟩
  exact ⟨stable_fresh w w' h hfresh, c, by rw [h.client, hclient], hsock⟩

theorem stable_fit : Prog.Stable (Around py cfg given a) (Fit py a ws) :=
  fun _ _ h hw id hid => h.ids id (hw id hid)

theorem new_mine (h : New py given a k w) : Mine py given a w := by
  obtain ⟨⟨hpresent, -⟩, c, hclient, hsock⟩ := h
  exact ⟨hpresent, c, hclient, (ownSock_some hsock).1⟩

theorem responds_ids {e : Call} {r : e.Result} (hr : Responds py cfg a w e r w') : w'.ids = w.ids := by
  cases e with
  | self => rw [(responds_self hr).2]
  | keepSock =>
    obtain ⟨c, -, rfl⟩ := responds_keepSock hr
    rfl
  | dropSock =>
    obtain ⟨c, -, rfl⟩ := responds_dropSock hr
    rfl
  | keepId =>
    obtain ⟨c, -, rfl⟩ := responds_keepId hr
    rfl
  | connect => obtain ⟨_, _, _, -, -, rfl⟩ | ⟨-, rfl⟩ := responds_connect hr <;> rfl
  | sendall => obtain rfl | ⟨-, rfl⟩ := responds_sendall hr <;> rfl
  | read => obtain ⟨-, rfl⟩ | ⟨_, _, -, -, rfl⟩ := responds_read hr <;> rfl
  | close => rw [responds_close hr]

theorem present_responds {e : Call} {r : e.Result} (h : Present py given a w)
    (hr : Responds py cfg a w e r w') (hok : Allowed py w a e) : Present py given a w' := by
  have hset : ∀ c : LiveLockConnection, ((w.setClient a c).client a).isSome = true := by
    intro c
    simp only [World.setClient, Function.update_self, Option.isSome_some]
  refine ⟨wf_responds h hok hr, ?_⟩
  cases e with
  | self =>
    rw [(responds_self hr).2]
    exact h.2
  | keepSock =>
    obtain ⟨c, -, rfl⟩ := responds_keepSock hr
    exact hset _
  | dropSock =>
    obtain ⟨c, -, rfl⟩ := responds_dropSock hr
    exact hset _
  | keepId =>
    obtain ⟨c, -, rfl⟩ := responds_keepId hr
    exact hset _
  | connect => obtain ⟨_, _, _, -, -, rfl⟩ | ⟨-, rfl⟩ := responds_connect hr <;> exact h.2
  | sendall => obtain rfl | ⟨-, rfl⟩ := responds_sendall hr <;> exact h.2
  | read => obtain ⟨-, rfl⟩ | ⟨_, _, -, -, rfl⟩ := responds_read hr <;> exact h.2
  | close =>
    rw [responds_close hr]
    exact h.2

theorem spec_self (hP : Prog.Stable (Around py cfg given a) P) :
    Spec py cfg given a P Client.self (fun c w => P w ∧ w.client a = some c) F := by
  refine secure_perform hP (fun w hw => trivial) fun w r w' hw hr => ?_
  obtain ⟨hclient, rfl⟩ := responds_self hr
  exact ⟨hw, hclient⟩

theorem spec_close : Spec py cfg given a (Present py given a) (Client.close ⟨a.pid, hostname⟩)
    (fun _ => Present py given a) F := by
  refine secure_bind (spec_self stable_present) fun c => ?_
  cases hsock : c.ownSock a.pid with
  | none => exact secure_ret fun w hw => hw.1
  | some k =>
    have hopener : ∀ w, Present py given a w ∧ w.client a = some c → Allowed py w a (.close k) :=
      fun w hw => (hw.1.1.stamped a c hw.2).sock k hsock
    refine secure_perform (stable_client stable_present c) hopener fun w r w' hw hr => ?_
    exact present_responds hw.1 hr (hopener w hw)

def Off (py : Builtins) (given : Given) (a : Agent) (w : World) : Prop :=
  Present py given a w ∧ ∃ c, w.client a = some c ∧ c.sock = none

theorem stable_off : Prog.Stable (Around py cfg given a) (Off py given a) := by
  rintro w w' h ⟨hpresent, c, hclient, hsock⟩
  exact ⟨stable_present w w' h hpresent, c, by rw [h.client, hclient], hsock⟩

theorem spec_dropSock : Spec py cfg given a (Present py given a) Client.dropSock
    (fun _ => Off py given a) F := by
  refine secure_perform stable_present (fun w hw => trivial) fun w r w' hw hr => ?_
  refine ⟨present_responds hw hr trivial, ?_⟩
  obtain ⟨c, -, rfl⟩ := responds_dropSock hr
  exact ⟨_, Function.update_self _ _ _, rfl⟩

theorem accepted_blank (h : Sound w.server) (hqueue : w.queue w.server.accepted = [])
    (hreceived : w.received w.server.accepted = []) {peername : Address} {sv : Server} {writes : List Write}
    (hs : Steps py cfg w.server ⟨.connect peername, fun _ => 0, writes⟩ sv) :
    w.queue w.server.accepted = [] ∧ w.received w.server.accepted = [] ∧ idOf sv w.server.accepted = none := by
  refine ⟨hqueue, hreceived, Option.eq_none_iff_forall_ne_some.mpr fun c hc => ?_⟩
  obtain hold | ⟨_, _, _, _, he, -⟩ := moved_id h hs hc
  · obtain ⟨session, hsession, -⟩ := Option.bind_eq_some_iff.mp hold
    exact lt_irrefl _ (h.older _ session hsession)
  · cases he

theorem spec_connectOnce : Spec py cfg given a (Present py given a) Client.connectOnce
    (fun k => Fresh py given a k) (fun _ => Present py given a) := by
  refine secure_bind (secure_perform stable_present (fun w hw => trivial) fun w r w' hw hr => ?_)
    fun o => secure_lift
  have hpresent : Present py given a w' := present_responds hw hr trivial
  obtain ⟨peername, writes, sv', rfl, hs, rfl⟩ | ⟨⟨x, rfl⟩, rfl⟩ := responds_connect hr
  · obtain ⟨-, hqueue, hreceived⟩ := hw.1.unopened w.server.accepted le_rfl
    exact ⟨hpresent, Function.update_self _ _ _, accepted_blank hw.1.sound hqueue hreceived hs⟩
  · exact hw

theorem spec_connectSocket (n : Nat) : Spec py cfg given a (Present py given a) (Client.connectSocket n)
    (fun k => Fresh py given a k) (fun _ => Present py given a) := by
  induction n with
  | zero => exact secure_raise fun w hw => hw
  | succ n ih =>
    refine secure_handle spec_connectOnce fun x => ?_
    cases x with
    | refused => exact ih
    | os | client | other => exact secure_raise fun w hw => hw

theorem spec_keepSock : Spec py cfg given a (Fresh py given a k) (Client.keepSock k a.pid)
    (fun _ => New py given a k) F := by
  refine secure_perform stable_fresh (fun w hw => ⟨hw.2.1, rfl⟩) fun w r w' hw hr => ?_
  obtain ⟨hpresent, hopener, hblank⟩ := hw
  have hafter : Present py given a w' := present_responds hpresent hr ⟨hopener, rfl⟩
  obtain ⟨c, -, rfl⟩ := responds_keepSock hr
  refine ⟨⟨hafter, hopener, hblank⟩, _, Function.update_self _ _ _, ?_⟩
  rw [LiveLockConnection.ownSock, if_pos rfl]

theorem stable_holds : Prog.Stable (Around py cfg given a) (Holds py given a k) := by
  rintro w w' h ⟨hpresent, hopener, c, hclient, hsock⟩
  exact ⟨stable_present w w' h hpresent, h.opener k hopener, c, by rw [h.client, hclient], hsock⟩

theorem isConn_other {name : String} {verb : Verb} {args : List String}
    (hverb : Verb.named (py.lower name) = verb) (h : verb ≠ .conn) : isConn py (name :: args) = false := by
  subst hverb
  exact decide_eq_false h

theorem presented_ordinary (h : isConn py ws = false) : presented py ws = none := by
  rw [presented, h, if_neg (by decide)]

section

variable {uuid : ClientId} {o : Occurrence} {sv sv' : Server} {r : Response} {rest : Bytes}

theorem pass_served {password : String} (hsound : Sound sv) (hs : Steps py cfg sv o sv')
    (he : o.event = .command k uuid (Server.words ["PASS", password])) (hid : idOf sv k = none)
    (hread : readResponse py (sent py o.writes) = some (r, rest)) :
    (∃ msg n, r = .error msg n) ∨ rest = [] ∧ idOf sv' k = none := by
  have hconn : Verb.named (py.lower "PASS") ≠ .conn := by
    rw [verb_pass]
    decide
  refine (reply_rest hsound hs he hconn hread).imp_right fun hrest => ⟨hrest, ?_⟩
  refine Option.eq_none_iff_forall_ne_some.mpr fun c hc => ?_
  obtain hold | ⟨restore, hj⟩ := moved_id hsound hs hc
  · cases hid.symm.trans hold
  · have hother : isConn py ["PASS", password] = false := isConn_other (verb_pass py) (by decide)
    cases hother.symm.trans (joined_words hj he).2.1

theorem conn_served (hsound : Sound sv) (hs : Steps py cfg sv o sv')
    (he : o.event = .command k uuid (Server.words ["CONN"])) (hline : '\n' ∉ uuid.name.toList)
    (hread : readResponse py (sent py o.writes) = some (r, rest)) :
    (∃ msg n, r = .error msg n) ∨ r = .text uuid.name := by
  obtain ⟨session, hk⟩ := steps_session hsound hs he
  cases hlock : lockedOut cfg session with
  | true =>
    obtain ⟨ws, hw⟩ | ⟨hpass, -⟩ := locked_writes hsound hs he hk hlock fun _ => by simp
    · rw [hw] at hread
      exact .inl (read_error hread)
    · cases (verb_conn py).symm.trans hpass
  | false =>
    obtain ⟨hno, -⟩ | ⟨-, c, hname, hw⟩ := command_writes hsound hs he hk hlock (by simp)
    · exact absurd (verb_conn py) hno
    obtain ⟨-, rfl⟩ | hhead := hname
    · cases hsession : session.clientId with
      | some c' =>
        rw [hw, hsession] at hread
        exact .inl (read_error hread)
      | none =>
        have htext : readResponse py _ = some (.text c.name, []) := reads_text hline []
        have hsent : sent py o.writes = encode (Content.text c.name).payload ++ [] := by
          rw [hw, hsession]
          rfl
        rw [hsent, htext] at hread
        cases hread
        exact .inr rfl
    · cases hhead

theorem told_served (hsound : Sound w.server) (hs : Steps py cfg w.server o w'.server)
    (he : o.event = .command k uuid (Server.words ws)) (hline : '\n' ∉ uuid.name.toList)
    (hid : idOf w.server k = none)
    (hissued : isConn py ws = true → ws.tail = [] → uuid.name ∈ w'.ids a.pid)
    (hread : readResponse py (sent py o.writes) = some (r, rest)) :
    (∃ msg n, r = .error msg n) ∨ Told a k ws r rest w' := by
  by_cases hpass : ∃ password, ws = ["PASS", password]
  · obtain ⟨password, rfl⟩ := hpass
    refine (pass_served hsound hs he hid hread).imp_right fun hnew => ⟨fun _ _ => hnew, fun hws => ?_⟩
    exact absurd hws (by simp)
  by_cases hconn : ws = ["CONN"]
  · subst hconn
    refine (conn_served hsound hs he hline hread).imp_right fun hr => ⟨fun _ hws => ?_, fun _ id hname => ?_⟩
    · exact absurd hws (by simp)
    · subst hr
      obtain ⟨hstr, -⟩ := Option.filter_eq_some_iff.mp hname
      obtain rfl := Option.some_inj.mp hstr
      exact hissued (decide_eq_true (verb_conn py)) rfl
  · exact .inr ⟨fun password hws => absurd ⟨password, hws⟩ hpass, fun hws => absurd hws hconn⟩

end

theorem stable_sent : Prog.Stable (Around py cfg given a) (Sent py given a k ws) := by
  rintro w w' h ⟨hholds, hstate⟩
  refine ⟨stable_holds w w' h hholds, ?_⟩
  obtain ⟨hpresent, hopener, -⟩ := hholds
  cases h.channel k hopener with
  | still hqueue hreceived hid =>
    have hnone : idOf w.server k = none → idOf w'.server k = none := by
      intro hold
      refine Option.eq_none_iff_forall_ne_some.mpr fun c hc => ?_
      cases hold.symm.trans (hid c hc)
    rw [hqueue, hreceived]
    refine hstate.imp (fun hw => ⟨hw.1, hw.2.1, hnone hw.2.2⟩) fun hw => ⟨hw.1, fun r rest hread => ?_⟩
    refine (hw.2 r rest hread).imp_right fun ht => ⟨fun password hws => ?_, fun hws id hname => ?_⟩
    · exact (ht.1 password hws).imp_right hnone
    · exact h.ids id (ht.2 hws id hname)
  | served uuid ws' rest o hnext hqueue hreceived hsound hs he hline hissued =>
    obtain ⟨hold, hempty, hid⟩ | ⟨hold, -⟩ := hstate
    · obtain ⟨rfl, rfl⟩ := List.cons.inj (hold.symm.trans hnext)
      refine .inr ⟨hqueue, fun r rest hread => told_served hsound hs he hline hid hissued ?_⟩
      rwa [hreceived, hempty, List.nil_append] at hread
    · cases hold.symm.trans hnext

theorem new_holds (h : New py given a k w) : Holds py given a k w := by
  obtain ⟨⟨hpresent, hopener, -⟩, hsock⟩ := h
  exact ⟨hpresent, hopener, hsock⟩

theorem holds_mine (h : Holds py given a k w) : Mine py given a w := by
  obtain ⟨hpresent, -, c, hclient, hsock⟩ := h
  exact ⟨hpresent, c, hclient, (ownSock_some hsock).1⟩

theorem holds_responds {e : Call} {r : e.Result} (h : Holds py given a k w)
    (hr : Responds py cfg a w e r w') (hok : Allowed py w a e) (hclient : w'.client = w.client)
    (hopener : w'.opener = w.opener) : Holds py given a k w' := by
  obtain ⟨hpresent, hk, c, hc, hsock⟩ := h
  exact ⟨present_responds hpresent hr hok, by rw [hopener, hk], c, by rw [hclient, hc], hsock⟩

theorem sendall_fields {r : Except Exc Unit} (h : Responds py cfg a w (.sendall k ws) r w') :
    w'.client = w.client ∧ w'.opener = w.opener := by
  obtain rfl | ⟨-, rfl⟩ := responds_sendall h <;> exact ⟨rfl, rfl⟩

theorem read_fields {r : Except Exc Response} (h : Responds py cfg a w (.read k) r w') :
    w'.client = w.client ∧ w'.opener = w.opener := by
  obtain ⟨-, rfl⟩ | ⟨_, _, -, -, rfl⟩ := responds_read h <;> exact ⟨rfl, rfl⟩

theorem mine_holds {c : LiveLockConnection} (h : Mine py given a w) (hclient : w.client a = some c)
    (hsock : c.sock = some k) : Holds py given a k w := by
  obtain ⟨hpresent, c', hc', hpid⟩ := h
  obtain rfl := Option.some_inj.mp (hclient.symm.trans hc')
  have hown : c.ownSock a.pid = some k := by rw [LiveLockConnection.ownSock, if_pos hpid, hsock]
  exact ⟨hpresent, (hpresent.1.stamped a c hclient).sock k hown, c, hclient, hown⟩

theorem stable_and {Q : World → Prop} (hP : Prog.Stable (Around py cfg given a) P)
    (hQ : Prog.Stable (Around py cfg given a) Q) :
    Prog.Stable (Around py cfg given a) fun w => P w ∧ Q w :=
  fun w w' h hw => ⟨hP w w' h hw.1, hQ w w' h hw.2⟩

theorem spec_sendall : Spec py cfg given a (fun w => Holds py given a k w ∧ Fit py a ws w)
    (Client.sendall k ws) (fun _ => Holds py given a k) (fun _ => Present py given a) := by
  have hok : ∀ w, Holds py given a k w ∧ Fit py a ws w → Allowed py w a (.sendall k ws) :=
    fun w hw => ⟨hw.1.2.1, hw.2⟩
  refine secure_bind (secure_perform (stable_and stable_holds stable_fit) hok fun w r w' hw hr => ?_)
    fun o => secure_lift
  obtain ⟨hclient, hopener⟩ := sendall_fields hr
  have hafter : Holds py given a k w' := holds_responds hw.1 hr (hok w hw) hclient hopener
  cases r with
  | ok => exact hafter
  | error x => exact hafter.1

theorem spec_readResponse : Spec py cfg given a (Holds py given a k) (Client.readResponse k)
    (fun _ => Mine py given a) (fun _ => Present py given a) := by
  have hread : Spec py cfg given a (Holds py given a k) (Client.read k) (fun _ => Holds py given a k)
      (fun _ => Present py given a) := by
    refine secure_bind (secure_perform stable_holds (fun w hw => hw.2.1) fun w r w' hw hr => ?_)
      fun o => secure_lift
    obtain ⟨hclient, hopener⟩ := read_fields hr
    have hafter : Holds py given a k w' := holds_responds hw hr hw.2.1 hclient hopener
    cases r with
    | ok => exact hafter
    | error x => exact hafter.1
  refine secure_bind hread fun r => ?_
  cases r with
  | error msg code => exact secure_raise fun w hw => hw.1
  | text | value => exact secure_ret fun w hw => holds_mine hw

theorem spec_exchange : Spec py cfg given a (fun w => Mine py given a w ∧ Fit py a ws w)
    (Client.exchange ws) (fun _ => Mine py given a) (fun _ => Present py given a) := by
  refine secure_bind (spec_self (stable_and stable_mine stable_fit)) fun c => ?_
  cases hsock : c.sock with
  | none => exact secure_raise fun w hw => hw.1.1.1
  | some k =>
    refine secure_bind (secure_pre spec_sendall ?_) fun _ => spec_readResponse
    rintro w ⟨⟨hmine, hfit⟩, hclient⟩
    exact ⟨mine_holds hmine hclient hsock, hfit⟩

theorem spec_sendall_new (hfit : ∀ w, Fit py a ws w) : Spec py cfg given a (New py given a k)
    (Client.sendall k ws) (fun _ => Sent py given a k ws) (fun _ => Present py given a) := by
  have hok : ∀ w, New py given a k w → Allowed py w a (.sendall k ws) := fun w hw => ⟨hw.1.2.1, hfit w⟩
  refine secure_bind (secure_perform stable_new hok fun w r w' hw hr => ?_) fun o => secure_lift
  obtain ⟨hclient, hopener⟩ := sendall_fields hr
  have hafter : Holds py given a k w' := holds_responds (new_holds hw) hr (hok w hw) hclient hopener
  obtain ⟨⟨-, -, hqueue, hreceived, hid⟩, -⟩ := hw
  obtain rfl | ⟨⟨x, rfl⟩, rfl⟩ := responds_sendall hr
  · cases r with
    | ok =>
      refine ⟨hafter, .inl ⟨?_, hreceived, hid⟩⟩
      simp only [World.enqueue, Function.update_self, hqueue, List.nil_append]
    | error x => exact hafter.1
  · exact hafter.1

def Answered (py : Builtins) (given : Given) (a : Agent) (k : ConnId) (ws : List String) (r : Response)
    (w : World) : Prop :=
  Holds py given a k w ∧ w.queue k = [] ∧ Told a k ws r (w.received k) w

theorem spec_readResponse_new : Spec py cfg given a (Sent py given a k ws) (Client.readResponse k)
    (fun r => Answered py given a k ws r) (fun _ => Present py given a) := by
  have hread : Spec py cfg given a (Sent py given a k ws) (Client.read k)
      (fun r w => Present py given a w ∧ ((∃ msg n, r = .error msg n) ∨ Answered py given a k ws r w))
      (fun _ => Present py given a) := by
    refine secure_bind (secure_perform stable_sent (fun w hw => hw.1.2.1) fun w r w' hw hr => ?_)
      fun o => secure_lift
    obtain ⟨hholds, hstate⟩ := hw
    obtain ⟨hclient, hopener⟩ := read_fields hr
    have hafter : Holds py given a k w' := holds_responds hholds hr hholds.2.1 hclient hopener
    obtain ⟨⟨x, rfl⟩, rfl⟩ | ⟨resp, rest, rfl, hresp, rfl⟩ := responds_read hr
    · exact hafter.1
    · obtain ⟨-, hempty, -⟩ | ⟨hqueue, htold⟩ := hstate
      · rw [hempty] at hresp
        cases hresp
      · refine ⟨hafter.1, (htold resp rest hresp).imp_right fun ht => ⟨hafter, hqueue, ?_⟩⟩
        simp only [Function.update_self]
        exact ht
  refine secure_bind hread fun r => ?_
  cases r with
  | error msg code => exact secure_raise fun w hw => hw.1
  | text | value => exact secure_ret fun w hw => hw.2.resolve_left (by simp)

theorem spec_exchange_new (hfit : ∀ w, Fit py a ws w) : Spec py cfg given a (New py given a k)
    (Client.exchange ws) (fun r => Answered py given a k ws r) (fun _ => Present py given a) := by
  refine secure_bind (spec_self stable_new) fun c => ?_
  cases hsock : c.sock with
  | none => exact secure_raise fun w hw => hw.1.1.1
  | some j =>
    by_cases hjk : j = k
    · subst hjk
      refine secure_bind (secure_pre (spec_sendall_new hfit) fun w hw => hw.1) ?_
      exact fun _ => spec_readResponse_new
    · refine secure_absurd ?_
      rintro w ⟨⟨-, c', hc', hown⟩, hclient⟩
      obtain rfl := Option.some_inj.mp (hclient.symm.trans hc')
      exact hjk (Option.some_inj.mp (hsock.symm.trans (ownSock_some hown).2))

theorem answered_pass {password : String} {r : Response} (h : Answered py given a k ["PASS", password] r w) :
    New py given a k w := by
  obtain ⟨⟨hpresent, hopener, hsock⟩, hqueue, htold, -⟩ := h
  obtain ⟨hrest, hid⟩ := htold password rfl
  exact ⟨⟨hpresent, hopener, hqueue, hrest, hid⟩, hsock⟩

theorem answered_conn {r : Response} (h : Answered py given a k ["CONN"] r w) :
    Mine py given a w ∧ Named a r w := by
  obtain ⟨hholds, -, -, htold⟩ := h
  exact ⟨holds_mine hholds, htold rfl⟩

structure Sends (py : Builtins) (cfg : Config) (given : Given) (a : Agent)
    (send : List String → Bool → Bool → Comp Response) : Prop where
  fit : ∀ ws reconnect doConn, Spec py cfg given a (fun w => Present py given a w ∧ Fit py a ws w)
    (send ws reconnect doConn) (fun _ => Mine py given a) (fun _ => Present py given a)
  pass : ∀ password doConn k, Spec py cfg given a (New py given a k) (send ["PASS", password] false doConn)
    (fun _ => New py given a k) (fun _ => Present py given a)
  conn : ∀ reconnect k, Spec py cfg given a (New py given a k) (send ["CONN"] reconnect false)
    (fun r w => Mine py given a w ∧ Named a r w) (fun _ => Present py given a)

theorem spec_sendPassword (hsend : Sends py cfg given a send) : Spec py cfg given a (New py given a k)
    (Client.sendPassword send) (fun _ => New py given a k) (fun _ => Present py given a) := by
  refine secure_bind (spec_self stable_new) fun c => ?_
  cases Client.truthy c.password with
  | none => exact secure_ret fun w hw => hw.1
  | some password =>
    refine secure_bind (secure_pre (hsend.pass password true k) fun w hw => hw.1) ?_
    exact fun r => secure_ret fun w hw => hw

theorem stable_named {r : Response} : Prog.Stable (Around py cfg given a) (Named a r) :=
  fun _ _ h hw id hid => h.ids id (hw id hid)

theorem spec_sendId (hsend : Sends py cfg given a send) (reconnect : Bool) :
    Spec py cfg given a (New py given a k) (Client.sendId ⟨a.pid, hostname⟩ send reconnect)
      (fun _ => Mine py given a) (fun _ => Present py given a) := by
  refine secure_bind (spec_self stable_new) fun c => ?_
  cases hid : Client.truthy (c.ownId a.pid) with
  | none =>
    refine secure_bind (secure_pre (hsend.conn reconnect k) fun w hw => hw.1) fun r => ?_
    refine secure_perform (stable_and stable_mine stable_named) (fun w hw => ⟨rfl, hw.2⟩) ?_
    rintro w u w' ⟨⟨hpresent, c', hc', hpid⟩, hnamed⟩ hr
    refine ⟨present_responds hpresent hr ⟨rfl, hnamed⟩, ?_⟩
    obtain ⟨c'', hc'', rfl⟩ := responds_keepId hr
    obtain rfl := Option.some_inj.mp (hc'.symm.trans hc'')
    exact ⟨_, Function.update_self _ _ _, hpid⟩
  | some clientId =>
    have hfit : ∀ w, New py given a k w ∧ w.client a = some c →
        Present py given a w ∧ Fit py a ["CONN", clientId] w := by
      rintro w ⟨⟨⟨hpresent, -⟩, -⟩, hclient⟩
      refine ⟨hpresent, fun id hpres => ?_⟩
      rw [presented] at hpres
      split at hpres
      · obtain rfl := Option.some_inj.mp hpres
        exact (hpresent.1.stamped a c hclient).clientId clientId hid
      · cases hpres
    refine secure_bind (secure_pre (hsend.fit _ reconnect false) hfit) fun r => ?_
    refine secure_bind (spec_self stable_mine) fun c' => ?_
    split
    · exact secure_ret fun w hw => hw.1
    · exact secure_raise fun w hw => hw.1.1

theorem spec_sendConnect (hsend : Sends py cfg given a send) (reconnect : Bool) :
    Spec py cfg given a (New py given a k) (Client.sendConnect ⟨a.pid, hostname⟩ send reconnect)
      (fun _ => Mine py given a) (fun _ => Present py given a) := by
  refine secure_bind (spec_sendPassword hsend) fun _ => ?_
  refine secure_bind (spec_sendId hsend reconnect) fun _ => ?_
  refine secure_bind (secure_pre (hsend.fit _ reconnect true) fun w hw => ⟨hw.1, fun id hpres => ?_⟩)
    fun r => secure_ret fun w hw => hw
  rw [presented_ordinary (isConn_other (verb_connInfo py) (by decide))] at hpres
  cases hpres

theorem spec_connect (hsend : Sends py cfg given a send) (reconnect doConn : Bool) :
    Spec py cfg given a (Present py given a) (Client.connect ⟨a.pid, hostname⟩ send reconnect doConn)
      (fun _ => Mine py given a) (fun _ => Present py given a) := by
  refine secure_bind (spec_self stable_present) fun c => ?_
  cases hsock : c.ownSock a.pid with
  | some k => exact secure_ret fun w hw => ⟨hw.1, c, hw.2, (ownSock_some hsock).1⟩
  | none =>
    refine secure_bind (secure_pre (spec_connectSocket _) fun w hw => hw.1) fun k => ?_
    refine secure_bind spec_keepSock fun _ => ?_
    cases doConn with
    | true => exact spec_sendConnect hsend reconnect
    | false => exact secure_ret fun w hw => new_mine hw

theorem spec_connect_new (reconnect doConn : Bool) : Spec py cfg given a (New py given a k)
    (Client.connect ⟨a.pid, hostname⟩ send reconnect doConn) (fun _ => New py given a k)
    (fun _ => Present py given a) := by
  refine secure_bind (spec_self stable_new) fun c => ?_
  cases hsock : c.ownSock a.pid with
  | some j => exact secure_ret fun w hw => hw.1
  | none =>
    refine secure_absurd ?_
    rintro w ⟨⟨-, c', hc', hown⟩, hclient⟩
    obtain rfl := Option.some_inj.mp (hclient.symm.trans hc')
    cases hsock.symm.trans hown

theorem spec_reconnect (hsend : Sends py cfg given a send) (doConn : Bool) :
    Spec py cfg given a (Present py given a) (Client.reconnect ⟨a.pid, hostname⟩ send doConn)
      (fun _ => Mine py given a) (fun _ => Present py given a) := by
  refine secure_bind spec_close fun _ => secure_bind spec_dropSock fun _ => ?_
  exact secure_pre (spec_connect hsend false doConn) fun w hw => hw.1

theorem spec_reconnect_new : Spec py cfg given a (Present py given a)
    (Client.reconnect ⟨a.pid, hostname⟩ send false) (fun _ w => ∃ k, New py given a k w)
    (fun _ => Present py given a) := by
  refine secure_bind spec_close fun _ => secure_bind spec_dropSock fun _ => ?_
  refine secure_bind (spec_self stable_off) fun c => ?_
  cases hsock : c.ownSock a.pid with
  | some k =>
    refine secure_absurd ?_
    rintro w ⟨⟨-, c', hc', hnone⟩, hclient⟩
    obtain rfl := Option.some_inj.mp (hclient.symm.trans hc')
    cases hnone.symm.trans (ownSock_some hsock).2
  | none =>
    refine secure_bind (secure_pre (spec_connectSocket _) fun w hw => hw.1.1) fun k => ?_
    exact secure_bind spec_keepSock fun _ => secure_ret fun w hw => ⟨k, hw⟩

section

variable {B : World → Prop} {Q : Response → World → Prop} {reconnect doConn : Bool}

theorem spec_failed (hclose : Spec py cfg given a B (Client.close ⟨a.pid, hostname⟩) (fun _ => B) (fun _ => B))
    {n : Nat} (hagain : reconnect = true → n ≠ 0 → Spec py cfg given a B
      (Client.retry ⟨a.pid, hostname⟩ send ws reconnect doConn n true) Q (fun _ => B)) (e : Exc) :
    Spec py cfg given a B (if e.isOs then do
        Client.close ⟨a.pid, hostname⟩
        if !reconnect || decide (n = 0) then .raise e
        else Client.retry ⟨a.pid, hostname⟩ send ws reconnect doConn n true
      else .raise e) Q (fun _ => B) := by
  split
  · refine secure_bind hclose fun _ => ?_
    split
    · exact secure_raise fun w hw => hw
    · next hgo =>
      simp only [Bool.or_eq_true, Bool.not_eq_true', decide_eq_true_eq, not_or, Bool.not_eq_false] at hgo
      exact hagain hgo.1 hgo.2
  · exact secure_raise fun w hw => hw

theorem spec_retry (hexchange : Spec py cfg given a P (Client.exchange ws) Q (fun _ => B))
    (hclose : Spec py cfg given a B (Client.close ⟨a.pid, hostname⟩) (fun _ => B) (fun _ => B))
    (hreconnect : reconnect = true → Spec py cfg given a B
      (Client.reconnect ⟨a.pid, hostname⟩ send doConn) (fun _ => P) (fun _ => B)) (n : Nat) :
    Spec py cfg given a P (Client.retry ⟨a.pid, hostname⟩ send ws reconnect doConn (n + 1) false) Q
      (fun _ => B) := by
  have hlater : ∀ n, reconnect = true → n ≠ 0 → Spec py cfg given a B
      (Client.retry ⟨a.pid, hostname⟩ send ws reconnect doConn n true) Q (fun _ => B) := by
    intro n hr hn
    induction n with
    | zero => exact absurd rfl hn
    | succ n ih =>
      refine secure_handle (secure_bind (hreconnect hr) fun _ => hexchange) ?_
      exact spec_failed hclose fun _ hne => ih hne
  exact secure_handle hexchange (spec_failed hclose (hlater n))

end

theorem stable_allowed (a : Agent) (e : Call) (r : e.Result) (h : Responds py cfg a w e r w')
    (hfit : Fit py a ws w) : Fit py a ws w' := by
  rw [Fit, responds_ids h]
  exact hfit

theorem spec_fit (ws : List String) {α : Type} {p : Comp α} {Q : World → Prop}
    (hp : Spec py cfg given a P p (fun _ => Q) (fun _ => Present py given a)) :
    Spec py cfg given a (fun w => P w ∧ Fit py a ws w) p (fun _ w => Q w ∧ Fit py a ws w)
      (fun _ w => Present py given a w ∧ Fit py a ws w) :=
  secure_frame hp stable_fit fun _ e r _ hr hfit => stable_allowed a e r hr hfit

theorem fit_ordinary (h : isConn py ws = false) (w : World) : Fit py a ws w := by
  intro id hpres
  cases (presented_ordinary h).symm.trans hpres

theorem fit_conn (w : World) : Fit py a ["CONN"] w := by
  intro id hpres
  rw [presented] at hpres
  split at hpres <;> cases hpres

/-- A command connects, checks its own length and goes into the loop. -/
theorem spec_command {V B : World → Prop} {Q : Response → World → Prop} {depth : Nat} {reconnect doConn : Bool}
    (hconnect : Spec py cfg given a P (Client.connect ⟨a.pid, hostname⟩
      (Client.sendCommand ⟨a.pid, hostname⟩ depth) reconnect doConn) (fun _ => V) (fun _ => B))
    (hV : Prog.Stable (Around py cfg given a) V) (hB : ∀ w, V w → B w)
    (hretry : Spec py cfg given a V (Client.retry ⟨a.pid, hostname⟩
      (Client.sendCommand ⟨a.pid, hostname⟩ depth) ws reconnect doConn Client.reconnectAttempts false) Q
      (fun _ => B)) :
    Spec py cfg given a P (Client.sendCommand ⟨a.pid, hostname⟩ (depth + 1) ws reconnect doConn) Q
      (fun _ => B) := by
  refine secure_bind hconnect fun _ => secure_bind (spec_self hV) fun c => ?_
  dsimp only
  split
  · exact secure_raise fun w hw => hB w hw.1
  · exact secure_pre hretry fun w hw => hw.1

theorem spec_sendCommand (depth : Nat) :
    Sends py cfg given a (Client.sendCommand ⟨a.pid, hostname⟩ depth) := by
  induction depth with
  | zero =>
    exact {
      fit := fun ws _ _ => secure_raise fun w hw => hw.1
      pass := fun _ _ _ => secure_raise fun w hw => hw.1.1
      conn := fun _ _ => secure_raise fun w hw => hw.1.1 }
  | succ depth ih =>
    refine ⟨fun ws reconnect doConn => ?_, fun password doConn k => ?_, fun reconnect k => ?_⟩
    · have hexchange : Spec py cfg given a (fun w => Mine py given a w ∧ Fit py a ws w) (Client.exchange ws)
          (fun _ => Mine py given a) (fun _ w => Present py given a w ∧ Fit py a ws w) := by
        refine secure_pre (secure_post (spec_fit ws spec_exchange) (fun _ _ hw => hw.1) fun _ _ hw => hw) ?_
        exact fun w hw => ⟨hw, hw.2⟩
      have hconnect : Spec py cfg given a (Present py given a) (Client.connect ⟨a.pid, hostname⟩
          (Client.sendCommand ⟨a.pid, hostname⟩ depth) reconnect doConn) (fun _ => Mine py given a)
          (fun _ => Present py given a) := spec_connect ih reconnect doConn
      have hstable : Prog.Stable (Around py cfg given a) fun w => Mine py given a w ∧ Fit py a ws w :=
        stable_and stable_mine stable_fit
      refine secure_post (spec_command (spec_fit ws hconnect) hstable ?_ ?_) (fun _ _ hw => hw)
        fun _ _ hw => hw.1
      · exact fun w hw => ⟨hw.1.1, hw.2⟩
      · exact spec_retry hexchange (spec_fit ws spec_close) (fun _ => spec_fit ws (spec_reconnect ih doConn)) 2
    · have hfit : ∀ w, Fit py a ["PASS", password] w := fit_ordinary (isConn_other (verb_pass py) (by decide))
      have hexchange : Spec py cfg given a (New py given a k) (Client.exchange ["PASS", password])
          (fun _ => New py given a k) (fun _ => Present py given a) :=
        secure_post (spec_exchange_new hfit) (fun _ _ hw => answered_pass hw) fun _ _ hw => hw
      refine spec_command (spec_connect_new false doConn) stable_new (fun w hw => hw.1.1) ?_
      exact spec_retry hexchange spec_close (fun hr => by cases hr) 2
    · have hexchange : Spec py cfg given a (fun w => ∃ k, New py given a k w) (Client.exchange ["CONN"])
          (fun r w => Mine py given a w ∧ Named a r w) (fun _ => Present py given a) := by
        refine secure_exists fun k => ?_
        exact secure_post (spec_exchange_new fit_conn) (fun _ _ hw => answered_conn hw) fun _ _ hw => hw
      refine spec_command (spec_connect_new reconnect false) stable_new (fun w hw => hw.1.1) ?_
      exact secure_pre (spec_retry hexchange spec_close (fun _ => spec_reconnect_new) 2) fun w hw => ⟨k, hw⟩

theorem spec_program {job : Job} (hjob : job.ordinary py = true) : Spec py cfg given a (Present py given a)
    (job.program ⟨a.pid, hostname⟩) (fun _ _ => True) (fun _ _ => True) := by
  have hdone : ∀ {p : Comp Unit} {Q : World → Prop},
      Spec py cfg given a (Present py given a) p (fun _ => Q) (fun _ => Present py given a) →
      Spec py cfg given a (Present py given a) p (fun _ _ => True) (fun _ _ => True) :=
    fun hp => secure_post hp (fun _ _ _ => trivial) fun _ _ _ => trivial
  cases job with
  | command ws reconnect depth =>
    have hplain : isConn py ws = false := by simpa only [Job.ordinary, Bool.not_eq_true'] using hjob
    have hsends : Sends py cfg given a (Client.sendCommand ⟨a.pid, hostname⟩ depth) := spec_sendCommand depth
    have hcommand : Spec py cfg given a (Present py given a) (Client.sendCommand ⟨a.pid, hostname⟩ depth ws reconnect
        true) (fun _ => Mine py given a) (fun _ => Present py given a) :=
      secure_pre (hsends.fit ws reconnect true) fun w hw => ⟨hw, fit_ordinary hplain w⟩
    have hrest : ∀ r : Response, Spec py cfg given a (Mine py given a) (.ret ()) (fun _ => Mine py given a)
        (fun _ => Present py given a) := fun _ => secure_ret fun w hw => hw
    exact hdone (secure_bind hcommand hrest)
  | reconnect depth => exact hdone (spec_reconnect (spec_sendCommand depth) true)
  | close => exact hdone spec_close

end Livelock.OwnSockets
