import Livelock.KeptId
import Livelock.Signals

namespace Livelock.GenuineAnswers

open Livelock.Lib Livelock.Shared Livelock.MemoryStorage Livelock.StorageRun Livelock.Server
open Livelock.CommandSpec Livelock.ServerRun Livelock.ServerLease Livelock.ClientReader Livelock.Framing
open Livelock.CallHistory Livelock.Exchange Livelock.KeptId Livelock.LockService Livelock.Ascii
open Livelock.Client (LiveLockConnection Process Exc Comp triple_attempts)
open Livelock.Network (Choice Move)
open Livelock.ProcessTree (isConn)
open Livelock.Signals (steps_unique)
open Livelock.Lib.Prog (triple_bind triple_ret triple_raise triple_perform triple_pre triple_post triple_and
  triple_absurd)
open Livelock.Lib.Reader (Reads)

variable {py : Builtins} {cfg : Config} {proc : Process} {T : Time} {past : List Occurrence} {w w' : World}
  {ws : List String} {new : Bool} {F : Exc → World → Prop} {r : Response}
  {send : List String → Bool → Bool → Comp Response}

theorem answered_pass (hopen : ∀ session, lockedOut cfg session = false) {password : String}
    (h : Answered py cfg proc T past true ["PASS", password] r w) : ∃ msg code, r = .error msg code := by
  obtain ⟨-, k, -, o, ⟨pre, post, sv, sv', uuid, -, -, hrun, hs, he, -, hnew, -⟩, hread⟩ := h
  have hsound : Sound sv := sound_run hrun (sound_start T)
  obtain ⟨session, hk⟩ := steps_session hsound hs he
  have hnone : session.clientId = none := by
    have hid := hnew rfl
    rwa [idOf, hk, Option.bind_some] at hid
  obtain ⟨t₀, -, hsession, hnil, hw⟩ := steps_turn hsound hs he hk (hopen session)
  have hwrites : o.writes = [.reply (.error .connRequired)] := by
    rw [hw, verb_pass, Turn.dispatch, if_neg (by decide), hsession, hnone]
    simp [Turn.reply, hnil]
  obtain ⟨msg, herror⟩ : ∃ msg, Reads (readResponse py) _ (.error msg _) := reads_error .connRequired
  have hsent : sent py o.writes = encode (Content.error .connRequired).payload := by
    rw [hwrites]
    simp [sent, Write.payload]
  rw [hsent] at hread
  exact ⟨msg, _, hread.unique herror⟩

theorem answered_conn (hopen : ∀ session, lockedOut cfg session = false) (hgreeting : Greeting ws)
    (h : Answered py cfg proc T past true ws r w) : ∃ c : ClientId, '\n' ∉ c.name.toList ∧ r = .text c.name ∧
      ∀ id, ws = ["CONN", id] → c.name = id := by
  obtain ⟨-, k, -, o, hexec, hread⟩ := h
  obtain ⟨c, hline, hsent, hid⟩ := greeting_sent hopen hgreeting hexec
  rw [hsent] at hread
  exact ⟨c, hline, hread.unique (reads_text hline), hid⟩

variable (py cfg proc T past) in
structure Sends (send : List String → Bool → Bool → Comp Response) : Prop where
  plain : ∀ ws, Plain py ws → ∀ reconnect doConn, Spec py cfg (At py cfg proc T past false)
    (send ws reconnect doConn)
    (fun r w => Answered py cfg proc T past false ws r w ∧ ∀ msg code, r ≠ .error msg code)
    (fun e w => Failed py cfg proc T past ws e w)
  pass : ∀ password doConn, Spec py cfg (At py cfg proc T past true) (send ["PASS", password] false doConn)
    (fun _ _ => False) (fun e w => Failed py cfg proc T past ["PASS", password] e w)
  conn : ∀ ws, Greeting ws → ∀ reconnect id, Spec py cfg
    (fun w => At py cfg proc T past true w ∧ w.net.client.clientId = id) (send ws reconnect false)
    (fun r w => Answered py cfg proc T past true ws r w ∧ w.net.client.clientId = id)
    (fun e w => Failed py cfg proc T past ws e w)

theorem greets_pass (password : String) : Greets py ["PASS", password] := .inl ⟨password, rfl⟩

theorem greeting_isConn (h : Greeting ws) : isConn py ws = true := by
  obtain rfl | ⟨c, -, rfl⟩ := h <;> exact isConn_cons.mpr (verb_conn py)

theorem plain_verb {name : String} {verb : Verb} (hverb : Verb.named (py.lower name) = verb) (hconn : verb ≠ .conn)
    (args : List String) : Plain py (name :: args) := by
  refine ⟨List.cons_ne_nil _ _, Bool.eq_false_iff.mpr fun h => hconn ?_⟩
  rw [← hverb, isConn_cons.mp h]

theorem spec_sendPassword (hsend : Sends py cfg proc T past send) : Spec py cfg (At py cfg proc T past true)
    (Client.sendPassword send) (fun _ => At py cfg proc T past true)
    (fun e w => Failed py cfg proc T past ws e w) := by
  refine triple_bind (spec_self lasting_at) fun self => ?_
  cases Client.truthy self.password with
  | none => exact triple_ret fun w hw => hw.1
  | some password =>
    have hpass : Spec py cfg (At py cfg proc T past true) (send ["PASS", password] false true) (fun _ _ => False)
        (fun e w => Failed py cfg proc T past ws e w) :=
      triple_post (hsend.pass password true) (fun _ _ hw => hw) fun e w hw => failed_greets hw (greets_pass password)
    exact triple_bind (triple_pre hpass fun w hw => hw.1) fun r => triple_absurd fun w hw => hw

theorem spec_keepId (hconn : isConn py ws = true) (hline : ∀ id, r.str? = some id → '\n' ∉ id.toList) :
    Spec py cfg (Settled py cfg proc T past ws r) (Client.keepId r.str? proc.pid)
      (fun _ => At py cfg proc T past false) F := by
  refine triple_perform lasting_settled fun w r' w' hw hr => ?_
  obtain ⟨⟨choice, hanswer⟩, hhistory⟩ := responds_quiet hr (by simp)
  obtain ⟨net, history⟩ := w'
  cases choice with
  | succeed =>
    cases hanswer
    cases hhistory
    obtain ⟨⟨hinv, hpast⟩, hquiet⟩ := hw
    refine ⟨⟨{ hinv with clientIdPid := rfl, oneLine := hline }, fun k hk hopen => ?_⟩, hpast, nofun⟩
    obtain ⟨hqueue, hreceived, hnamed⟩ := hquiet k hk hopen
    refine ⟨hqueue, hreceived, fun c hc => ?_⟩
    have hname := hnamed c hc
    rw [if_pos hconn] at hname
    have htext : r = .text c.name := hname r rfl
    exact congrArg Response.str? htext
  | accept | refuse | fail | failLate => cases hanswer

theorem spec_takeId (hopen : ∀ session, lockedOut cfg session = false) :
    Spec py cfg (Answered py cfg proc T past true ["CONN"] r) (Client.keepId r.str? proc.pid)
      (fun _ => At py cfg proc T past false) F := by
  have hgreeting : Greeting ["CONN"] := .inl rfl
  by_cases hline : ∀ id, r.str? = some id → '\n' ∉ id.toList
  · exact triple_pre (spec_keepId (greeting_isConn hgreeting) hline) fun w hw => hw.1
  · refine triple_absurd fun w hw => hline ?_
    obtain ⟨c, hc, rfl, -⟩ := answered_conn hopen hgreeting hw
    rintro id hid
    obtain rfl := Option.some_inj.mp hid
    exact hc

theorem presented_at (hopen : ∀ session, lockedOut cfg session = false) {id : String}
    (hgreeting : Greeting ["CONN", id])
    (h : Answered py cfg proc T past true ["CONN", id] r w) (hid : w.net.client.clientId = some id) :
    At py cfg proc T past false w := by
  obtain ⟨c, -, rfl, hname⟩ := answered_conn hopen hgreeting h
  refine settled_at h.1 fun _ c' hc' => ?_
  rw [hid, ← hname id rfl, Response.text.inj hc']

theorem spec_sendId (hopen : ∀ session, lockedOut cfg session = false) (hsend : Sends py cfg proc T past send)
    (reconnect : Bool) : Spec py cfg (At py cfg proc T past true) (Client.sendId proc send reconnect)
      (fun _ => At py cfg proc T past false) (fun e w => Failed py cfg proc T past ws e w) := by
  have hconn : ∀ ws', Greeting ws' → ∀ id, Spec py cfg
      (fun w => At py cfg proc T past true w ∧ w.net.client.clientId = id) (send ws' reconnect false)
      (fun r w => Answered py cfg proc T past true ws' r w ∧ w.net.client.clientId = id)
      (fun e w => Failed py cfg proc T past ws e w) :=
    fun ws' hgreeting id => triple_post (hsend.conn ws' hgreeting reconnect id) (fun _ _ hw => hw) fun e w hw =>
      failed_greets hw (.inr (.inl (greeting_isConn hgreeting)))
  refine triple_bind (spec_self lasting_at) fun self => ?_
  cases hself : Client.truthy (self.ownId proc.pid) with
  | none =>
    have hnew := hconn ["CONN"] (.inl rfl) self.clientId
    refine triple_bind (triple_pre hnew fun w hw => ⟨hw.1, by rw [hw.2]⟩) fun r => ?_
    exact triple_pre (spec_takeId hopen) fun w hw => hw.1
  | some clientId =>
    obtain ⟨hown, htruthy⟩ := Option.filter_eq_some_iff.mp hself
    have hne : clientId ≠ "" := of_decide_eq_true htruthy
    have hkept : ∀ w, At py cfg proc T past true w ∧ w.net.client = self →
        w.net.client.clientId = some clientId := by
      rintro w ⟨hat, rfl⟩
      rwa [LiveLockConnection.ownId, if_pos hat.1.1.clientIdPid] at hown
    by_cases hline : '\n' ∈ clientId.toList
    · exact triple_absurd fun w hw => hw.1.1.1.oneLine clientId (hkept w hw) hline
    · have hgreeting : Greeting ["CONN", clientId] := .inr ⟨⟨clientId, hne⟩, hline, rfl⟩
      have hold := hconn _ hgreeting (some clientId)
      refine triple_bind (triple_pre hold fun w hw => ⟨hw.1, hkept w hw⟩) fun r => ?_
      have hat : ∀ w, Answered py cfg proc T past true ["CONN", clientId] r w ∧
          w.net.client.clientId = some clientId → At py cfg proc T past false w :=
        fun w hw => presented_at hopen hgreeting hw.1 hw.2
      refine triple_bind (triple_pre (spec_self lasting_at) hat) fun self' => ?_
      split
      · exact triple_ret fun w hw => hw.1
      · exact triple_raise fun w hw => ⟨hw.1, explained_other (by simp)⟩

theorem spec_sendConnect (hopen : ∀ session, lockedOut cfg session = false)
    (hsend : Sends py cfg proc T past send) (reconnect : Bool) :
    Spec py cfg (At py cfg proc T past true) (Client.sendConnect proc send reconnect)
      (fun _ => At py cfg proc T past false) (fun e w => Failed py cfg proc T past ws e w) := by
  refine triple_bind (spec_sendPassword hsend) fun _ => ?_
  refine triple_bind (spec_sendId hopen hsend reconnect) fun _ => ?_
  have hinfo := hsend.plain _ (plain_verb (verb_connInfo py) (by decide)
    [proc.hostname ++ ":" ++ toString proc.pid]) reconnect true
  refine triple_bind (triple_post hinfo (fun _ _ hw => hw) fun e w hw => failed_greets hw (.inr (.inr ⟨_, rfl⟩))) ?_
  exact fun r => triple_ret fun w hw => plain_at hw.1 (plain_verb (verb_connInfo py) (by decide) _).2

theorem off_at (h : Off py cfg proc T past w) : At py cfg proc T past false w := shut_at (off_shut h)

theorem spec_open (hopen : ∀ session, lockedOut cfg session = false) (hsend : Sends py cfg proc T past send)
    (reconnect doConn : Bool) : Spec py cfg (Off py cfg proc T past)
      (do
        let k ← Client.connectSocket Client.reconnectAttempts
        Client.keepSock k proc.pid
        if doConn then Client.sendConnect proc send reconnect else pure ())
      (fun _ => At py cfg proc T past !doConn) (fun e w => Failed py cfg proc T past ws e w) := by
  have hsocket : Spec py cfg (Off py cfg proc T past) (Client.connectSocket Client.reconnectAttempts)
      (fun k => Opened py cfg proc T past k) (fun e w => Failed py cfg proc T past ws e w) := by
    refine triple_post (spec_connectSocket _) (fun _ _ hw => hw) ?_
    rintro e w ⟨hoff, hos⟩
    exact ⟨off_at hoff, explained_os hos⟩
  refine triple_bind hsocket fun k => triple_bind spec_keepSock fun _ => ?_
  cases doConn with
  | true => exact spec_sendConnect hopen hsend reconnect
  | false => exact triple_ret fun w hw => hw

theorem spec_connect_off (hopen : ∀ session, lockedOut cfg session = false)
    (hsend : Sends py cfg proc T past send) (reconnect doConn : Bool) :
    Spec py cfg (Off py cfg proc T past) (Client.connect proc send reconnect doConn)
      (fun _ => At py cfg proc T past !doConn) (fun e w => Failed py cfg proc T past ws e w) := by
  refine triple_bind (spec_self lasting_off) fun self => ?_
  cases hself : self.ownSock proc.pid with
  | some k =>
    refine triple_absurd ?_
    rintro w ⟨⟨-, hoff⟩, rfl⟩
    rw [LiveLockConnection.ownSock] at hself
    split at hself
    · cases hoff.symm.trans hself
    · cases hself
  | none => exact triple_pre (spec_open hopen hsend reconnect doConn) fun w hw => hw.1

theorem spec_connect (hopen : ∀ session, lockedOut cfg session = false)
    (hsend : Sends py cfg proc T past send) (reconnect doConn : Bool) :
    Spec py cfg (At py cfg proc T past new) (Client.connect proc send reconnect doConn)
      (fun _ => At py cfg proc T past new) (fun e w => Failed py cfg proc T past ws e w) := by
  refine triple_bind (spec_self lasting_at) fun self => ?_
  cases hself : self.ownSock proc.pid with
  | some k => exact triple_ret fun w hw => hw.1
  | none =>
    have hnone : ∀ w, At py cfg proc T past new w ∧ w.net.client = self → w.net.client.sock = none := by
      rintro w ⟨hat, rfl⟩
      rwa [LiveLockConnection.ownSock, if_pos hat.1.1.sockPid] at hself
    cases new with
    | true =>
      refine triple_absurd fun w hw => ?_
      obtain ⟨k, hsock, -⟩ := hw.1.2.2 rfl
      cases hsock.symm.trans (hnone w hw)
    | false =>
      refine triple_post (triple_pre (spec_open hopen hsend reconnect doConn) ?_) (fun _ _ hw => at_false hw)
        fun _ _ hw => hw
      exact fun w hw => ⟨at_seen hw.1, hnone w hw⟩

theorem spec_reconnect (hopen : ∀ session, lockedOut cfg session = false)
    (hsend : Sends py cfg proc T past send) (doConn : Bool) :
    Spec py cfg (Shut py cfg proc T past) (Client.reconnect proc send doConn)
      (fun _ => At py cfg proc T past !doConn) (fun e w => Failed py cfg proc T past ws e w) := by
  refine triple_bind (triple_pre spec_close fun w hw => hw.1) fun _ => ?_
  refine triple_bind spec_dropSock fun _ => ?_
  exact spec_connect_off hopen hsend false doConn

theorem spec_retry (hopen : ∀ session, lockedOut cfg session = false) (hsend : Sends py cfg proc T past send)
    (hgood : Good py new ws) (reconnect doConn : Bool) (hnew : reconnect = true → new = true → doConn = false)
    (n : Nat) : Spec py cfg (At py cfg proc T past new)
      (Client.retry proc send ws reconnect doConn (n + 1) false)
      (fun r w => Answered py cfg proc T past new ws r w ∧ ∀ msg code, r ≠ .error msg code)
      (fun e w => Failed py cfg proc T past ws e w) := by
  have hexchange : Spec py cfg (At py cfg proc T past new) (Client.exchange ws)
      (fun r w => Answered py cfg proc T past new ws r w ∧ ∀ msg code, r ≠ .error msg code)
      (fun e w => Broke py cfg proc T past ws e w) := spec_exchange hopen hgood
  have hlater : reconnect = true → Spec py cfg (Shut py cfg proc T past)
      (Client.attempt proc send ws doConn true)
      (fun r w => Answered py cfg proc T past new ws r w ∧ ∀ msg code, r ≠ .error msg code)
      (fun e w => Broke py cfg proc T past ws e w) := by
    intro hr
    have hconnected : Spec py cfg (Shut py cfg proc T past) (Client.reconnect proc send doConn)
        (fun _ => At py cfg proc T past new) (fun e w => Broke py cfg proc T past ws e w) := by
      refine triple_post (spec_reconnect hopen hsend doConn) (fun _ w hw => ?_) fun _ _ hw => failed_broke hw
      cases new with
      | true => rwa [hnew hr rfl] at hw
      | false => exact at_false hw
    exact triple_bind hconnected fun _ => hexchange
  have hclose : ∀ e : Exc, e.isOs = true → Spec py cfg (Broke py cfg proc T past ws e) (Client.close proc)
      (fun _ => Shut py cfg proc T past) (fun e w => Failed py cfg proc T past ws e w) :=
    fun e _ => triple_pre spec_close fun w hw => hw.1
  have hfirst : Spec py cfg (At py cfg proc T past new) (Client.attempt proc send ws doConn false)
      (fun r w => Answered py cfg proc T past new ws r w ∧ ∀ msg code, r ≠ .error msg code)
      (fun e w => Broke py cfg proc T past ws e w) := hexchange
  exact triple_attempts hfirst hlater hclose (fun e hos w hw => ⟨shut_at hw, explained_os hos⟩)
    (fun e hnot w hw => hw.2 hnot) n

theorem spec_command (hopen : ∀ session, lockedOut cfg session = false) {depth : Nat}
    (hsend : Sends py cfg proc T past (Client.sendCommand proc depth)) (hgood : Good py new ws)
    (reconnect doConn : Bool) (hnew : reconnect = true → new = true → doConn = false) :
    Spec py cfg (At py cfg proc T past new) (Client.sendCommand proc (depth + 1) ws reconnect doConn)
      (fun r w => Answered py cfg proc T past new ws r w ∧ ∀ msg code, r ≠ .error msg code)
      (fun e w => Failed py cfg proc T past ws e w) := by
  refine triple_bind (spec_connect hopen hsend reconnect doConn) fun _ => ?_
  refine triple_bind (spec_self lasting_at) fun self => ?_
  dsimp only
  split
  · exact triple_raise fun w hw => ⟨at_false hw.1, explained_other (by simp)⟩
  · exact triple_pre (spec_retry hopen hsend hgood reconnect doConn hnew 2) fun w hw => hw.1

theorem spec_sendCommand (hopen : ∀ session, lockedOut cfg session = false) (depth : Nat) :
    Sends py cfg proc T past (Client.sendCommand proc depth) := by
  induction depth with
  | zero =>
    have hdeep : ∀ {new ws Q}, Spec py cfg (At py cfg proc T past new) (.raise .other : Comp Response) Q
        (fun e w => Failed py cfg proc T past ws e w) :=
      triple_raise fun w hw => ⟨at_false hw, explained_other (by simp)⟩
    exact ⟨fun _ _ _ _ => hdeep, fun _ _ => hdeep, fun _ _ _ _ => triple_pre hdeep fun w hw => hw.1⟩
  | succ depth ih =>
    refine ⟨fun ws hplain reconnect doConn => ?_, fun password doConn => ?_, fun ws hgreeting reconnect id => ?_⟩
    · exact spec_command hopen ih (.inl hplain) reconnect doConn fun _ hn => by cases hn
    · have hplain : Plain py ["PASS", password] := plain_verb (verb_pass py) (by decide) [password]
      refine triple_post (spec_command hopen ih (.inl hplain) false doConn nofun) (fun r w hw => ?_)
        fun _ _ hw => hw
      obtain ⟨msg, code, herror⟩ := answered_pass hopen hw.1
      exact hw.2 msg code herror
    · have hcommand := spec_command hopen ih (.inr ⟨rfl, hgreeting⟩) reconnect false fun _ _ => rfl
      exact triple_post (triple_and hcommand (keeping_sendCommand (P := fun i _ => i = id) (depth + 1) reconnect))
        (fun _ _ hw => ⟨hw.1.1, hw.2⟩) fun _ _ hw => hw.1

/-- A command of the user, with what comes of it. -/
structure Request where
  depth : Nat
  words : List String
  reconnect : Bool
  result : Except Exc Response

variable (py cfg proc) in
/-- A command of the user, or a move of the surroundings between two of them. -/
def Goes (w : World) (stage : Option Request) (w' : World) : Prop :=
  match stage with
  | none => Meanwhile py cfg w w'
  | some c => Plain py c.words ∧ (Client.sendCommand proc c.depth c.words c.reconnect true).Exec
      (Responds py cfg) (Meanwhile py cfg) w c.result w'

variable (py cfg proc T) in
/-- A new client object, whose id, if it has one, is in one line, and a server
in any state. -/
structure Start (w : World) : Prop where
  reached : Run (Steps py cfg) (.start T) w.history w.net.server
  mine : w.net.mine = []
  queue : ∀ k, w.net.queue k = []
  received : ∀ k, w.net.received k = []
  sock : w.net.client.sock = none
  sockPid : w.net.client.sockPid = proc.pid
  clientIdPid : w.net.client.clientIdPid = proc.pid
  oneLine : ∀ id, w.net.client.clientId = some id → '\n' ∉ id.toList

variable (py) in
/-- Later than the history `past` the command has taken effect on the lock
service, between the steps of all the others and for nobody but the client, and
the response is the one that was written for it and that the service tells. -/
def TookEffect (past : List Occurrence) (w : World) (ws : List String) (r : Response) : Prop :=
  ∃ pre o post s s' k uuid told, w.history = pre ++ o :: post ∧ past <+: pre ∧
    Run (Service.Step py) .start pre s ∧ k ∈ w.net.mine ∧ o.event = .command k uuid (words ws) ∧
    (∀ c, s.speaker k = some c → w.net.client.clientId = some c.name) ∧
    Service.Serves py s k uuid (words ws) o.clk told s' ∧ Reads (readResponse py) (sent py o.writes) r ∧ told r ∧
    Service.Step py s o s' ∧ Run (Service.Step py) s' post (serviceOf w.net.server)

theorem start_ready (h : Start py cfg proc T w) : Ready py cfg proc T w := by
  refine ⟨?_, fun k hk => by simp [h.sock] at hk⟩
  exact {
    reached := h.reached
    accepted := fun k hk => by simp [h.mine] at hk
    queued := fun k hk => absurd (h.queue k) hk
    received := fun k _ => h.received k
    sockMine := fun k hk => by simp [h.sock] at hk
    sockPid := h.sockPid
    clientIdPid := h.clientIdPid
    oneLine := h.oneLine }

theorem call_spec (hopen : ∀ session, lockedOut cfg session = false) {c : Request}
    (h : Goes py cfg proc w (some c) w') (hw : Ready py cfg proc T w) : At py cfg proc T w.history false w' ∧
      (∀ r, c.result = .ok r → Served py cfg T w.history w' c.words r ∧ ∀ msg code, r ≠ .error msg code) ∧
      ∀ e, c.result = .error e → Explained py cfg T w.history c.words e w' := by
  obtain ⟨hplain, hexec⟩ := h
  have hsend : Sends py cfg proc T w.history (Client.sendCommand proc c.depth) := spec_sendCommand hopen c.depth
  have hend := hsend.plain c.words hplain c.reconnect true w c.result w' ⟨hw, List.prefix_rfl, nofun⟩ hexec
  cases hresult : c.result with
  | ok r =>
    rw [hresult] at hend
    refine ⟨plain_at hend.1 hplain.2, fun r' hr => ?_, nofun⟩
    cases hr
    exact ⟨answered_served hend.1, hend.2⟩
  | error e =>
    rw [hresult] at hend
    refine ⟨hend.1, nofun, fun e' he => ?_⟩
    cases he
    exact hend.2

theorem ready_run (hopen : ∀ session, lockedOut cfg session = false) {stages : List (Option Request)}
    (hrun : Run (Goes py cfg proc) w stages w') (hw : Ready py cfg proc T w) :
    At py cfg proc T w.history false w' := by
  refine hrun.invariant ⟨hw, List.prefix_rfl, nofun⟩ fun v stage v' _ hv hs => ?_
  cases stage with
  | none => exact lasting_at v v' hs hv
  | some c =>
    obtain ⟨hready, hlater, -⟩ := (call_spec hopen hs hv.1).1
    exact ⟨hready, hv.2.1.trans hlater, nofun⟩

/-- The server's run is one of the lock service. -/
theorem served_effect (h : Inv py cfg proc T w) {past : List Occurrence} (hs : Served py cfg T past w ws r) :
    TookEffect py past w ws r := by
  obtain ⟨pre, o, post, sv, sv', k, uuid, hsplit, hpast, hpre, hstep, hk, he, hown, hread⟩ := hs
  have hreached := h.reached
  rw [hsplit] at hreached
  obtain ⟨v, hpre', hrest⟩ := hreached.append_inv
  have hdet : ∀ v e w w', Steps py cfg v e w → Steps py cfg v e w' → w = w' := fun _ _ _ _ => steps_unique
  obtain rfl : v = sv := hpre'.unique hdet hpre
  obtain ⟨v', hstep', hpost⟩ := hrest.cons_inv
  obtain rfl := steps_unique hstep' hstep
  have hsound : Sound v := sound_run hpre (sound_start T)
  have hbefore := run_refines hpre (sound_start T)
  rw [serviceOf_start] at hbefore
  have hrefined := step_refines hsound hstep
  obtain ⟨told, -, hserves, htells⟩ := request_serves hrefined he
  exact ⟨pre, o, post, serviceOf v, serviceOf v', k, uuid, told, hsplit, hpast, hbefore, hk, he, hown, hserves,
    hread, htells r hread, hrefined, run_refines hpost (sound_step hsound hstep)⟩

def homeProcess : Process where
  pid := 1
  hostname := "home"

def home : World where
  net := {
    server := .start 5
    client := {
      password := none
      maxPayload := 1024
      sock := none
      sockPid := 1
      clientId := some "alice"
      clientIdPid := 1 }
    mine := []
    queue := fun _ => []
    received := fun _ => []
    closed := fun _ => false
    granted := [] }
  history := []

theorem home_start : Start py cfg homeProcess 5 home where
  reached := .nil
  mine := rfl
  queue _ := rfl
  received _ := rfl
  sock := rfl
  sockPid := rfl
  clientIdPid := rfl
  oneLine id hid := by
    cases hid
    decide

def succeeds (n : Nat) : List (Move ⊕ Choice) := List.replicate n (.inr .succeed)

def exchanged (k : ConnId) : List (Move ⊕ Choice) :=
  succeeds 2 ++ [.inl (.execute k carol)] ++ succeeds 1

def greeted (k : ConnId) (peername : Address) : List (Move ⊕ Choice) :=
  succeeds 1 ++ [.inr (.accept peername)] ++ succeeds 5 ++ exchanged k ++ succeeds 3 ++ exchanged k

def replyLost : List (Move ⊕ Choice) :=
  greeted 0 ⟨"10.0.0.1", 40001⟩ ++ succeeds 3 ++ [.inl (.execute 0 carol), .inr .fail] ++
    succeeds 5 ++ greeted 1 ⟨"10.0.0.1", 40002⟩ ++ exchanged 1

def played (py : Builtins) {α : Type} (program : Comp α) (script : List (Move ⊕ Choice)) (w : World) :
    Option (Except Exc α × World) :=
  Prog.play (World.answer py plainConfig) (fun w => w.move py plainConfig fun _ => 0) script program w

theorem played_exec {α : Type} {program : Comp α} {script : List (Move ⊕ Choice)} {result : Except Exc α}
    (h : played py program script w = some (result, w')) :
    program.Exec (Responds py plainConfig) (Meanwhile py plainConfig) w result w' :=
  Prog.play_exec h (fun _ _ choice _ _ hr => ⟨choice, hr⟩) fun _ m _ hm => ⟨m, _, hm⟩

end Livelock.GenuineAnswers
