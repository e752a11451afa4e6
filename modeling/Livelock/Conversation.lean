import Livelock.WireServer
import Livelock.BufferedReader
import Livelock.ReplyFraming

namespace Livelock.Conversation

open Livelock.Lib Livelock.Shared Livelock.MemoryStorage Livelock.Server Livelock.CommandSpec
open Livelock.ServerRun Livelock.ServerLease Livelock.Framing Livelock.ReplyFraming Livelock.Ascii
open Livelock.Pipeline Livelock.WireServer Livelock.Connection
open Livelock.ClientReader (Response)
open Livelock.Lib.Reader (Reads)
open Livelock.Lib.Chunks (drive)
open Livelock.StorageRun (bob)

variable (py : Builtins) (cfg : Config)

def isConn (ws : List String) : Prop := ∃ verb args, ws = verb :: args ∧ Verb.named (py.lower verb) = .conn

/-- The commands that a client sends on one connection, each with its words:
first the password where one is asked for, no empty arguments, and one `CONN`
at most, without an LF in its id. -/
structure Orderly (script : List (List String)) : Prop where
  password : ∀ password, cfg.password = some password → password ≠ "" →
    ∃ verb rest, script = [verb, password] :: rest ∧ Verb.named (py.lower verb) = .pass
  wellFormed : ∀ ws ∈ script, WellFormed (words ws)
  once : script.Pairwise fun ws ws' => isConn py ws → ¬ isConn py ws'
  line : ∀ verb args arg, verb :: args ∈ script → Verb.named (py.lower verb) = .conn →
    args.head? = some arg → '\n' ∉ arg.toList

/-- In a run of the server, these are the commands that were processed on a
connection, and these the responses that they are answered by. -/
inductive Dialogue (k : ConnId) : List (List String) → List Occurrence → List Response → Prop
  | nil : Dialogue k [] [] []
  | other {past : List (List String)} {os : List Occurrence} {responses : List Response} {o : Occurrence}
      (h : Dialogue k past os responses) (he : ∀ uuid value, o.event ≠ .command k uuid value) :
      Dialogue k past (os ++ [o]) responses
  | reply {past : List (List String)} {os : List Occurrence} {responses : List Response} {o : Occurrence}
      {uuid : ClientId} {ws : List String} {r : Response} (h : Dialogue k past os responses)
      (he : o.event = .command k uuid (words ws))
      (hr : Reads (ClientReader.readResponse py) (sent py o.writes) r) :
      Dialogue k (past ++ [ws]) (os ++ [o]) (responses ++ [r])

/-- Where a conversation stands after these commands. -/
structure Talk (k : ConnId) (past : List (List String)) (sv : Server) : Prop where
  sound : Sound sv
  begun : past ≠ [] → Admitted cfg k sv
  named : ∀ c, idOf sv k = some c → ∃ ws ∈ past, isConn py ws

variable {py cfg} {k : ConnId} {sv sv' : Server} {o : Occurrence} {os : List Occurrence} {uuid : ClientId}
  {ws : List String} {past post script : List (List String)} {responses : List Response}

theorem talk_other (h : Talk py cfg k past sv) (hs : Steps py cfg sv o sv')
    (he : ∀ uuid value, o.event ≠ .command k uuid value) : Talk py cfg k past sv' where
  sound := sound_step h.sound hs
  begun hne := admitted_step h.sound hs (h.begun hne)
  named c hc := by
    obtain hold | ⟨restore, uuid, value, session, he', -⟩ := moved_id h.sound hs hc
    · exact h.named c hold
    · exact absurd he' (he uuid value)

theorem isConn_of_joins (he : o.event = .command k uuid (words ws)) {c : ClientId} {restore : Bool}
    (hj : Joins py cfg sv o k c restore) : isConn py ws := by
  cases ws with
  | nil =>
    obtain ⟨uuid', value, session, he', -, hintent⟩ := hj
    cases he.symm.trans he'
    cases hintent
  | cons verb args => exact ⟨verb, args, rfl, (joins_words hj he).2.1⟩

theorem unlocked_step (h : Sound sv) (hs : Steps py cfg sv o sv') {verb password : String}
    (he : o.event = .command k uuid (words [verb, password])) (hpass : Verb.named (py.lower verb) = .pass)
    (hpassword : cfg.password = some password) (hne : password ≠ "") {session : Session}
    (hk : sv.connections.get? k = some session) (hlock : lockedOut cfg session = true) :
    o.writes = [.reply (.bool true)] ∧ Admitted cfg k sv' := by
  have hkill := h.killActive (steps_live hs)
  have htruthy : Arg.truthy (.bytes (encode password)) = true := by
    simp [Arg.truthy, encode_eq_nil, hne]
  have hcheck : checkPassword cfg .pass [.bytes (encode password)] = .granted := by
    simp only [checkPassword, htruthy, if_true, decode_arg, if_pos hpassword.symm]
  obtain ⟨session', t, hk', rfl, hw, -, -, ht, -⟩ := command_change h hs he
  cases hk.symm.trans hk'
  have hturn : t = Turn.reply ⟨sv.adaptor, o.clk, { session with authorized := true }, [], .done⟩
      (.bool true) := by
    rw [ht]
    simp only [words, List.map_cons, List.map_nil, onCommandReceived, processCommand, hkill, decode_arg,
      hlock, hpass, hcheck, if_true, Bool.false_eq_true, if_false]
  refine ⟨by rw [hw, hturn]; rfl, h.older k session hk, fun session' hk' => ?_⟩
  obtain ⟨-, rfl⟩ | ⟨hne, -⟩ := connections_set hk'
  · rw [hturn]
    simp [lockedOut, hpassword, Turn.reply]
  · exact absurd rfl hne

theorem talk_command (h : Talk py cfg k past sv) (hs : Steps py cfg sv o sv')
    (horderly : Orderly py cfg (past ++ ws :: post)) (he : o.event = .command k uuid (words ws))
    (hgraphic : Graphic uuid.name) : Talk py cfg k (past ++ [ws]) sv' ∧
      ∃ r, Reads (ClientReader.readResponse py) (sent py o.writes) r := by
  obtain ⟨session, hk⟩ := steps_session h.sound hs he
  have hnamed : ∀ c, idOf sv' k = some c → ∃ ws' ∈ past ++ [ws], isConn py ws' := by
    intro c hc
    obtain hold | ⟨restore, hj⟩ := moved_id h.sound hs hc
    · obtain ⟨ws', hws', hconn⟩ := h.named c hold
      exact ⟨ws', List.mem_append_left _ hws', hconn⟩
    · exact ⟨ws, by simp, isConn_of_joins he hj⟩
  by_cases hlock : lockedOut cfg session = true
  · -- only the first command finds the connection locked, and it is the password
    obtain rfl : past = [] := by
      by_contra hne
      cases hlock.symm.trans ((h.begun hne).unlocked session hk)
    obtain ⟨password, hpassword, hne⟩ : ∃ password, cfg.password = some password ∧ password ≠ "" := by
      cases hp : cfg.password with
      | none => simp [lockedOut, hp] at hlock
      | some password =>
        simp only [lockedOut, hp, Bool.and_eq_true, decide_eq_true_eq] at hlock
        exact ⟨password, rfl, hlock.1⟩
    obtain ⟨verb, rest, hscript, hpass⟩ := horderly.password password hpassword hne
    obtain ⟨rfl, rfl⟩ := List.cons.inj hscript
    obtain ⟨hw, hadm⟩ := unlocked_step h.sound hs he hpass hpassword hne hk hlock
    refine ⟨⟨sound_step h.sound hs, fun _ => hadm, hnamed⟩, .text "1", ?_⟩
    rw [hw]
    exact reads_sent_bool true
  · have hadm : Admitted cfg k sv := by
      refine ⟨h.sound.older k session hk, fun session' hk' => ?_⟩
      cases hk.symm.trans hk'
      exact Bool.eq_false_iff.mpr hlock
    have hplain : Plain k o := by
      intro uuid' value he'
      cases he.symm.trans he'
      exact ⟨hgraphic, horderly.wellFormed ws (by simp)⟩
    have htidy : Tidy py k sv o := by
      intro uuid' verb args session' he' hk' hconn
      rw [he] at he'
      obtain rfl : ws = verb :: args := words_inj (Event.command.inj he').2.2
      refine ⟨?_, fun arg harg => horderly.line verb args arg (by simp) hconn harg⟩
      cases hid : session'.clientId with
      | none => rfl
      | some c =>
        have hc : idOf sv k = some c := by rw [idOf, hk', Option.bind_some, hid]
        obtain ⟨ws', hws', hconn'⟩ := h.named c hc
        have honce := (List.pairwise_append.mp horderly.once).2.2 ws' hws' (verb :: args) (by simp)
        exact absurd ⟨verb, args, rfl, hconn⟩ (honce hconn')
    exact ⟨⟨sound_step h.sound hs, fun _ => admitted_step h.sound hs hadm, hnamed⟩,
      tidy_sent h.sound hs he hadm hplain htidy⟩

theorem talk_start (T : Time) : Talk py cfg k [] (.start T) where
  sound := sound_start T
  begun hne := absurd rfl hne
  named c hc := by simp [idOf, Server.start] at hc

/-- As long as the commands of an orderly script are processed, each is
answered by one response. -/
theorem talk_run {T : Time} (hrun : Run (Steps py cfg) (.start T) os sv) (horderly : Orderly py cfg script)
    (hprocessed : processed k os <+: script.map words)
    (hgraphic : ∀ o ∈ os, ∀ uuid value, o.event = .command k uuid value → Graphic uuid.name) :
    ∃ past responses, past <+: script ∧ processed k os = past.map words ∧ Talk py cfg k past sv ∧
      Dialogue py k past os responses := by
  induction hrun with
  | nil => exact ⟨[], [], List.nil_prefix, rfl, talk_start T, .nil⟩
  | @snoc os o v w _ hs ih =>
    rw [processed_append] at hprocessed
    obtain ⟨past, responses, ⟨post, rfl⟩, hpast, htalk, hdialogue⟩ := ih
      ((List.prefix_append _ _).trans hprocessed) fun o' ho' => hgraphic o' (by simp [ho'])
    rw [processed_append, hpast]
    by_cases he : ∃ uuid value, o.event = .command k uuid value
    · obtain ⟨uuid, value, he⟩ := he
      have hone : processed k [o] = [value] := by simp [processed, requestOn, he]
      rw [hpast, hone, List.map_append, List.prefix_append_right_inj] at hprocessed
      cases post with
      | nil => cases List.prefix_nil.mp hprocessed
      | cons ws post =>
        obtain ⟨rfl, -⟩ := List.cons_prefix_cons.mp hprocessed
        obtain ⟨htalk', r, hr⟩ := talk_command htalk hs horderly he (hgraphic o (by simp) _ _ he)
        refine ⟨past ++ [ws], responses ++ [r], ⟨post, by simp⟩, ?_, htalk', .reply hdialogue he hr⟩
        rw [hone, List.map_append]
        rfl
    · have hother : ∀ uuid value, o.event ≠ .command k uuid value := fun uuid value h => he ⟨uuid, value, h⟩
      have hnone : processed k [o] = [] := by
        rw [processed, List.filterMap_cons_none, List.filterMap_nil]
        unfold requestOn
        split
        · next j uuid value hj =>
          rw [if_neg]
          rintro rfl
          exact hother uuid value hj
        · rfl
      exact ⟨past, responses, ⟨post, rfl⟩, by rw [hnone, List.append_nil], talk_other htalk hs hother,
        .other hdialogue hother⟩

theorem dialogue_frames (h : Dialogue py k past os responses) :
    List.Forall₂ (Reads (ClientReader.readResponse py)) (frames py k os) responses := by
  induction h with
  | nil => exact .nil
  | other _ he ih => rwa [frames_append, frames_other he, List.append_nil]
  | reply _ he hr ih =>
    rw [frames_append, frames_command he]
    exact List.rel_append ih (.cons hr .nil)

theorem dialogue_run {depth : Nat} {T : Time} {es : List Handled} {loop : EventLoop}
    (h : Run (Handles py cfg (depth + 2)) (EventLoop.start T) es loop) {commands : List Frame}
    (hsendable : ∀ f ∈ commands, f.Sendable) (horderly : Orderly py cfg (commands.map Frame.words))
    {parts : List Bytes} (hparts : commands.mapM (Frame.payload py) = some parts)
    (hreceived : received k es <+: parts.flatten)
    (hgraphic : ∀ o ∈ served es, ∀ uuid value, o.event = .command k uuid value → Graphic uuid.name) :
    ∃ past responses, past <+: commands.map Frame.words ∧ Dialogue py k past (served es) responses ∧
      ∀ stream, loop.streams.get? k = some stream → stream.woken = false → serving loop.server k = true →
        received k es = parts.flatten → past = commands.map Frame.words := by
  have hwords : (commands.map fun f => words f.words) = (commands.map Frame.words).map words := by
    rw [List.map_map]
    rfl
  have hfront := delivered_front h hsendable hparts hreceived
  rw [hwords] at hfront
  obtain ⟨past, responses, hpast, hprocessed, -, hdialogue⟩ :=
    talk_run (faithful_run h).run horderly hfront hgraphic
  refine ⟨past, responses, hpast, hdialogue, fun stream hstream hwoken hlive hwhole => ?_⟩
  have hsame := (hprocessed.symm.trans (delivered_all h hsendable hparts hstream hwoken hlive hwhole)).trans hwords
  exact List.map_injective_iff.mpr (fun ws ws' hws => words_inj hws) hsame

theorem dialogue_read (h : Dialogue py k past os responses) {thread : String} {b : SocketBuffer}
    (hb : b.Ok thread) (hempty : b.unread = []) {socket : List Recv}
    (hsocket : Chunks.received feed socket = (frames py k os).flatten) {fuel : Nat}
    (hfuel : (Chunks.received feed socket).length < fuel) : ∃ b' socket',
      drive (op thread) (BufferedReader.times (BufferedReader.readResponse py fuel) responses.length) b socket =
        .got responses b' socket' ∧
      b'.Ok thread ∧ b'.unread ++ Chunks.received feed socket' = [] := by
  have hread := Reader.reads_times (dialogue_frames h) []
  rw [List.append_nil, (dialogue_frames h).length_eq] at hread
  have hstream : b.unread ++ Chunks.received feed socket = (frames py k os).flatten := by
    rw [hempty, List.nil_append, hsocket]
  rw [← hstream] at hread
  exact BufferedReader.times_got hb socket (by rwa [hempty, List.nil_append]) hread

/-- The whole way: however the bytes of the commands come in, and however the
bytes of the answers come back, the client reads one response for each command
that was processed, the one that the server answered it by, and nothing is left
over. All commands are processed once their bytes have come in. -/
theorem replies_delivered {depth : Nat} {T : Time} {es : List Handled} {loop : EventLoop}
    (h : Run (Handles py cfg (depth + 2)) (EventLoop.start T) es loop) {commands : List Frame}
    (hsendable : ∀ f ∈ commands, f.Sendable) (horderly : Orderly py cfg (commands.map Frame.words))
    {parts : List Bytes} (hparts : commands.mapM (Frame.payload py) = some parts)
    (hreceived : received k es <+: parts.flatten)
    (hgraphic : ∀ o ∈ served es, ∀ uuid value, o.event = .command k uuid value → Graphic uuid.name)
    {thread : String} {b : SocketBuffer} (hb : b.Ok thread) (hempty : b.unread = [])
    {socket : List Recv} (hsocket : Chunks.received feed socket = (frames py k (served es)).flatten)
    {fuel : Nat} (hfuel : (Chunks.received feed socket).length < fuel) :
    ∃ past responses b' socket', past <+: commands.map Frame.words ∧
      Dialogue py k past (served es) responses ∧
      drive (op thread) (BufferedReader.times (BufferedReader.readResponse py fuel) responses.length) b socket =
        .got responses b' socket' ∧
      b'.Ok thread ∧ b'.unread ++ Chunks.received feed socket' = [] ∧
      ∀ stream, loop.streams.get? k = some stream → stream.woken = false → serving loop.server k = true →
        received k es = parts.flatten → past = commands.map Frame.words := by
  obtain ⟨past, responses, hpast, hdialogue, hall⟩ := dialogue_run h hsendable horderly hparts hreceived hgraphic
  obtain ⟨b', socket', hdrive, hok, hrest⟩ := dialogue_read hdialogue hb hempty hsocket hfuel
  exact ⟨past, responses, b', socket', hpast, hdialogue, hdrive, hok, hrest, hall⟩

def byByte (s : Bytes) : List Recv := s.map fun c => .data [c]

theorem received_byByte (s : Bytes) : Chunks.received feed (byByte s) = s := by
  induction s with
  | nil => rfl
  | cons c s ih =>
    show [c] ++ Chunks.received feed (byByte s) = c :: s
    rw [ih]
    rfl

def ofBob (o : Occurrence) : Bool :=
  match o.event with
  | .command _ uuid _ => decide (uuid = bob)
  | _ => true

def watched (py : Builtins) (loop : EventLoop) (callback : Callback) : Option EventLoop :=
  (loop.step py plainConfig 2 callback).bind fun out => if out.2.all ofBob then some out.1 else none

theorem cutRequests_talk : ∃ es loop stream parts,
    Run (Handles ascii plainConfig 2) (EventLoop.start 5) es loop ∧
      pingConn.mapM (Frame.payload ascii) = some parts ∧ received 0 es = parts.flatten ∧
      (∀ o ∈ served es, ∀ uuid value, o.event = .command 0 uuid value → Graphic uuid.name) ∧
      loop.streams.get? 0 = some stream ∧ stream.woken = false ∧ serving loop.server 0 = true := by
  have heval : (cutRequests.foldlM (watched ascii) (.start 5)).map (standing · 0) = some (some false, true) := by
    decide +kernel
  obtain ⟨loop, hloop, hfacts⟩ := Option.map_eq_some_iff.mp heval
  obtain ⟨hwoken, hlive⟩ := Prod.mk.inj hfacts
  obtain ⟨stream, hstream, hwoken⟩ := Option.map_eq_some_iff.mp hwoken
  have hnext : ∀ c v w, watched ascii v c = some w → ∃ e : Handled, (c = e.callback ∧
      ∀ o ∈ e.occurrences, ofBob o = true) ∧ Handles ascii plainConfig 2 v e w := by
    intro c v w hw
    obtain ⟨⟨w', os⟩, hs, hif⟩ := Option.bind_eq_some_iff.mp hw
    split at hif
    · next hall =>
      obtain rfl := Option.some_inj.mp hif
      exact ⟨⟨c, os⟩, ⟨rfl, List.all_eq_true.mp hall⟩, hs⟩
    · cases hif
  obtain ⟨es, hrun, hes⟩ := Run.exists_of_foldlM hnext hloop
  have hbob : ∀ e ∈ es, ∀ o ∈ e.occurrences, ofBob o = true :=
    forall₂_right hes fun _ _ e he => he.2
  have hgraphic : ∀ o ∈ served es, ∀ uuid value, o.event = .command 0 uuid value → Graphic uuid.name := by
    intro o ho uuid value hevent
    obtain ⟨e, he, ho⟩ := List.mem_flatMap.mp ho
    have hone := hbob e he o ho
    rw [ofBob, hevent, decide_eq_true_eq] at hone
    rw [hone]
    exact graphic_of_all rfl
  obtain ⟨parts, hparts, hflatten⟩ := pingConn_payload
  have hreceived := received_callbacks (hes.imp fun c e h => h.1) 0
  have hwhole : received 0 es = parts.flatten :=
    hreceived.trans ((by decide +kernel : cutRequests.flatMap (Callback.data 0) = _).trans hflatten.symm)
  exact ⟨es, loop, stream, parts, hrun, hparts, hwhole, hgraphic, hstream, hwoken, hlive⟩

theorem pingConn_orderly : Orderly ascii plainConfig (pingConn.map Frame.words) where
  password := nofun
  wellFormed := List.forall_mem_cons.mpr ⟨⟨"PING", [], rfl, nofun⟩,
    List.forall_mem_singleton.mpr ⟨"CONN", [], rfl, nofun⟩⟩
  once := by
    refine List.pairwise_pair.mpr ?_
    rintro ⟨verb, args, hping, hconn⟩
    cases hping
    exact absurd hconn (by decide +kernel)
  line := by
    intro verb args arg hmem hconn hhead
    simp only [pingConn, Frame.words, List.map_cons, List.map_nil, List.mem_cons, List.not_mem_nil, or_false] at hmem
    obtain h | h := hmem <;> cases h <;> cases hhead

theorem new_ok : (SocketBuffer.new (some "main")).Ok "main" := ⟨rfl, le_rfl, rfl⟩

theorem replies_delivered_two : ∃ es loop responses b' socket',
    Run (Handles ascii plainConfig 2) (EventLoop.start 5) es loop ∧
      Dialogue ascii 0 [["PING"], ["CONN"]] (served es) responses ∧
      drive (op "main") (BufferedReader.times (BufferedReader.readResponse ascii
          ((frames ascii 0 (served es)).flatten.length + 1)) responses.length)
        (SocketBuffer.new (some "main")) (byByte (frames ascii 0 (served es)).flatten) =
          .got responses b' socket' := by
  obtain ⟨es, loop, stream, parts, hrun, hparts, hwhole, hgraphic, hstream, hwoken, hlive⟩ := cutRequests_talk
  obtain ⟨past, responses, b', socket', -, hdialogue, hdrive, -, -, hall⟩ := replies_delivered hrun
    pingConn_sendable pingConn_orderly hparts (hwhole ▸ List.prefix_rfl) hgraphic new_ok rfl (received_byByte _)
    (by rw [received_byByte]; exact Nat.lt_succ_self _)
  obtain rfl := hall stream hstream hwoken hlive hwhole
  exact ⟨es, loop, responses, b', socket', hrun, hdialogue, hdrive⟩

end Livelock.Conversation
