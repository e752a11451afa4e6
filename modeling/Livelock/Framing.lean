import Livelock.ServerLease
import Livelock.ClientReader

namespace Livelock.Framing

open Livelock.Lib Livelock.Shared Livelock.MemoryStorage Livelock.StorageInvariant
open Livelock.StorageLease Livelock.StorageRun Livelock.Server Livelock.CommandSpec
open Livelock.ServerRun Livelock.ServerLease Livelock.ClientReader
open Livelock.Lib.Reader (Reads)

variable (py : Builtins) (cfg : Config)

def sent (writes : List Write) : Bytes := (writes.filterMap (Write.payload py)).flatten

variable {py cfg} {t t' : Turn} {c : ClientId}

theorem text_payload (s : String) : encode (Content.text s).payload = '+'.toUInt8 :: (encode s ++ crlf) := by
  rw [Content.payload, encode_line, encode_append]
  rfl

theorem reads_text {s : String} (h : '\n' ∉ s.toList) :
    Reads (readResponse py) (encode (Content.text s).payload) (.text s) := by
  have hline : Reads readline (encode s ++ crlf) (encode s) :=
    reads_line fun hn => h (newline_mem_encode.mp hn)
  have hplus : '+'.toUInt8 ∉ markers := by decide
  rw [text_payload]
  intro rest
  rw [readResponse, List.cons_append, Reader.bind_next, if_neg hplus, if_pos rfl]
  refine hline.bind_pure ?_ rest
  refine (Reader.reads_ofOption (decode_encode s)).bind_pure ?_
  exact Reader.reads_pure _

theorem broken_text {s : String} (h : '\n' ∈ s.toList) (r : Response) :
    readResponse py (encode (Content.text s).payload) ≠ some (r, []) := by
  intro hread
  have hplus : '+'.toUInt8 ∉ markers := by decide
  rw [text_payload, readResponse, Reader.bind_next, if_neg hplus, if_pos rfl] at hread
  cases hline : readline (encode s ++ crlf) with
  | none =>
    rw [Reader.bind_none hline] at hread
    cases hread
  | some p =>
    have hrest := readline_newline (newline_mem_encode.mpr h) hline
    rw [Reader.bind_some hline] at hread
    cases hd : decode p.1 with
    | none =>
      rw [hd] at hread
      cases hread
    | some text =>
      rw [hd] at hread
      have hend : p.2 = [] := (Prod.mk.inj (Option.some_inj.mp hread)).2
      exact hrest hend

theorem text_rest {s : String} {r : Response} {rest : Bytes}
    (h : readResponse py (encode (Content.text s).payload) = some (r, rest))
    (hs : r.str? = some s) : rest = [] := by
  by_cases hn : '\n' ∈ s.toList
  · exfalso
    have hplus : '+'.toUInt8 ∉ markers := by decide
    rw [text_payload, readResponse, Reader.bind_next, if_neg hplus, if_pos rfl] at h
    cases hline : readline (encode s ++ crlf) with
    | none =>
      rw [Reader.bind_none hline] at h
      cases h
    | some p =>
      rw [Reader.bind_some hline] at h
      cases hd : decode p.1 with
      | none =>
        rw [hd] at h
        cases h
      | some text =>
        rw [hd] at h
        have hr : Response.text text = r := (Prod.mk.inj (Option.some_inj.mp h)).1
        rw [← hr] at hs
        obtain rfl : text = s := Option.some_inj.mp hs
        refine readline_line hline ?_
        rw [← decode_some hd]
        exact newline_mem_encode.mpr hn
  · have hread : readResponse py _ = some (_, []) := reads_text hn []
    rw [List.append_nil, h] at hread
    exact (Prod.mk.inj (Option.some_inj.mp hread)).2

theorem reads_error (code : ErrorCode) : ∃ msg,
    Reads (readResponse py) (encode (Content.error code).payload) (.error msg (some code.number)) := by
  let data := toString code.number ++ " " ++ code.text
  have hpayload : encode (Content.error code).payload = '-'.toUInt8 :: (encode data ++ crlf) := by
    have hcontent : (Content.error code).payload = "-" ++ data ++ "\r\n" := by
      simp only [Content.payload, data, String.append_assoc]
    rw [hcontent, encode_line, encode_append]
    rfl
  have hnewline : 10 ∉ encode data := by cases code <;> decide
  have hcode : String.ofList (data.toList.takeWhile (· ≠ ' ')) = toString code.number := by
    cases code <;> decide
  have hempty : toString code.number ≠ "" := by cases code <;> decide
  have hminus : '-'.toUInt8 ∉ markers := by decide
  refine ⟨py.strip (data.replace (toString code.number) ""), ?_⟩
  rw [hpayload]
  intro rest
  rw [readResponse, List.cons_append, Reader.bind_next, if_neg hminus, if_neg (by decide), if_pos rfl]
  have herror : Reads (readError py) (encode data ++ crlf)
      (.error (py.strip (data.replace (toString code.number) "")) (some code.number)) := by
    refine (reads_line hnewline).bind_pure ?_
    refine (Reader.reads_ofOption (decode_encode data)).bind_pure ?_
    rw [hcode, if_neg hempty]
    exact (Reader.reads_ofOption (py.intOf_str code.number)).bind_pure (Reader.reads_pure _)
  exact herror rest

/-- A write that the client reads as one response. -/
def Framed (py : Builtins) (write : Write) : Prop :=
  ∃ w r, write.payload py = some w ∧ Reads (readResponse py) w r

theorem framed_text {s : String} (h : '\n' ∉ s.toList) : Framed py (.reply (.text s)) :=
  ⟨_, _, rfl, reads_text h⟩

theorem framed_error (code : ErrorCode) : Framed py (.reply (.error code)) := by
  obtain ⟨msg, hread⟩ := reads_error code
  exact ⟨_, _, rfl, hread⟩

theorem framed_bool (b : Bool) : Framed py (.reply (.bool b)) := by
  have hpayload : (Content.bool b).payload = (Content.text (if b then "1" else "0")).payload := by
    cases b <;> decide
  have hnewline : '\n' ∉ (if b then "1" else "0").toList := by cases b <;> decide
  have hread : Reads (readResponse py) _ _ := reads_text hnewline
  rw [← hpayload] at hread
  exact ⟨_, _, rfl, hread⟩

theorem framed_data {v : Value} (h : Readable v) : Framed py (.data v) := by
  obtain ⟨w, hpack, hread⟩ := reads_value h
  exact ⟨w, _, hpack, hread⟩

/-- The command adds one reply, and the client reads it as one response. -/
def Single (py : Builtins) (t t' : Turn) : Prop :=
  ∃ write, t'.writes = t.writes ++ [write] ∧ Framed py write

theorem single_reply {content : Content} (h : Framed py (.reply content)) :
    Single py t (t.reply content) := ⟨_, rfl, h⟩

theorem readable_found (locks : List (LockId × Time)) : Readable
    (.list (locks.map fun lock => .tuple [.str lock.1, .float (.finite lock.2)])) := by
  rw [Readable]
  induction locks with
  | nil => trivial
  | cons lock locks ih => exact ⟨⟨trivial, trivial, trivial⟩, ih⟩

theorem single_answer {answer : Answer} (h : answer ≠ .none) (t₀ : Turn) (hw : t₀.writes = t.writes) :
    Single py t (Turn.answer answer t₀) := by
  rw [Single, ← hw]
  cases answer with
  | none => exact absurd rfl h
  | bool b => exact ⟨_, rfl, framed_bool b⟩
  | signal a =>
    cases a with
    | bool b => exact ⟨_, rfl, framed_bool b⟩
    | keyNotExists => exact ⟨_, rfl, framed_error _⟩
  | found locks => exact ⟨_, rfl, framed_data (readable_found locks)⟩

theorem exec_answers {op : Op} {s s' : InMemoryLockStorage} {clk clk' : Clock} {answer : Answer}
    (h : exec py.fnmatch op s clk = .ok (answer, s', clk')) (hop : AskedBy c op) :
    answer ≠ .none := by
  rintro rfl
  cases op with
  | acquire c l r =>
    simp only [exec] at h
    cases hx : s.acquire clk c l r <;> rw [hx] at h <;> cases h
  | release c l =>
    simp only [exec] at h
    cases hx : s.release c l <;> rw [hx] at h <;> cases h
  | locked l =>
    simp only [exec] at h
    cases hx : s.locked clk l <;> rw [hx] at h <;> cases h
  | find | addSignal | hasSignal | removeSignal => cases h
  | releaseAll | unreleaseAll | setClientLastAddress | maintenance => exact hop

theorem single_operation {op : Op} (h : Does py t (.operation op) t') (hop : AskedBy c op) :
    Single py t t' := by
  cases h with
  | operation heq => exact single_answer (exec_answers heq hop) _ rfl

theorem readable_stats (a : StorageAdaptor) : Readable (a.stats cfg) := by
  have hkeys : sameKey (.str "lock_count") (.str "dump_file_path") = false := by decide
  refine ⟨rfl, rfl, trivial, trivial, nofun, rfl, rfl, trivial, trivial, fun p hp => ?_, trivial⟩
  obtain rfl := List.mem_singleton.mp hp
  exact hkeys

theorem serve_single (h : Rep t.adaptor.store) (hk : t.adaptor.killActive = false) (c : ClientId)
    (verb : Verb) (args : List String) : Single py t (t.serve py cfg c verb (words args)) := by
  have hpong : Framed py (.reply (.text "PONG")) := framed_text (by decide)
  have hone : Framed py (.reply (.text "1")) := framed_text (by decide)
  have hwrong : Single py t (t.reply (.error .wrongArgs)) := single_reply (framed_error _)
  cases verb with
  | aq | aqr | release =>
    apply oneArg_cases hwrong
    intro lockId
    exact single_operation (c := c) (does_guarded py h hk _) rfl
  | locked =>
    apply oneArg_cases hwrong
    intro lockId
    exact single_operation (c := c) (does_unguarded py h _) trivial
  | sigset | sigdel =>
    apply twoArgs_cases hwrong
    intro lockId signal
    exact single_operation (c := c) (does_guarded py h hk _) trivial
  | sigexists =>
    apply twoArgs_cases hwrong
    intro lockId signal
    exact single_operation (c := c) (does_unguarded py h _) trivial
  | conninfo =>
    apply oneArg_cases hwrong
    intro text
    exact ⟨_, rfl, framed_bool true⟩
  | ping => exact single_reply hpong
  | pass | conn | unknown => exact single_reply (framed_error _)
  | find =>
    match args with
    | [] => exact single_reply (framed_error _)
    | _ :: _ :: _ => exact single_reply (framed_error _)
    | [pattern] =>
      simp only [Turn.serve, words, List.map_cons, List.map_nil, decode_arg]
      split
      · exact single_operation (c := c) (does_unguarded py h _) trivial
      · exact single_reply (framed_error _)
  | stats =>
    simp only [Turn.serve]
    split
    · exact ⟨_, rfl, framed_data (readable_stats _)⟩
    · exact single_reply (framed_error _)
  | shutdown =>
    simp only [Turn.serve]
    split
    · exact ⟨_, rfl, hone⟩
    · exact single_reply (framed_error _)
  | dump =>
    simp only [Turn.serve]
    split
    · exact single_reply hone
    · exact single_reply (framed_error _)

theorem words_inj {ws ws' : List String} (h : words ws = words ws') : ws = ws' := by
  refine List.map_injective_iff.mpr (fun w w' hw => ?_) h
  exact encode_inj (Arg.bytes.inj hw)

theorem connIntent_words (uuid : ClientId) {args : List String} (h : ∀ arg ∈ args, arg ≠ "") :
    ∃ c restore, connIntent uuid (words args) = .conn c restore ∧
      ((args = [] ∧ c = uuid) ∨ args.head? = some c.name) := by
  cases args with
  | nil => exact ⟨uuid, false, rfl, .inl ⟨rfl, rfl⟩⟩
  | cons arg args =>
    have hne : arg ≠ "" := h arg (by simp)
    let c : ClientId := ⟨arg, hne⟩
    have htruthy : Arg.truthy (.bytes (encode arg)) = true := by
      simp [Arg.truthy, encode_eq_nil, hne]
    have hid : Arg.clientId (.bytes (encode arg)) = some c := clientId_encode c
    refine ⟨c, true, ?_, .inr rfl⟩
    simp only [words, List.map_cons, connIntent, htruthy, hid, if_true]

variable {sv sv' : Server} {o : Occurrence} {k : ConnId} {uuid : ClientId} {verb : String}
  {args : List String} {session : Session} {value : List Arg}

theorem dispatch_single (h : Rep t.adaptor.store) (hk : t.adaptor.killActive = false) {verb : Verb}
    (hverb : verb ≠ .conn) (uuid : ClientId) (args : List String) :
    Single py t (t.dispatch py cfg uuid verb (words args)) := by
  rw [Turn.dispatch, if_neg hverb]
  cases t.session.clientId with
  | none => exact single_reply (framed_error _)
  | some c => exact serve_single h hk c verb args

theorem dispatch_appends (h : Rep t.adaptor.store) (hk : t.adaptor.killActive = false) (uuid : ClientId)
    (verb : Verb) {args : List String} (hargs : verb = .conn → ∀ arg ∈ args, arg ≠ "") :
    ∃ ws, (t.dispatch py cfg uuid verb (words args)).writes = t.writes ++ ws := by
  by_cases hconn : verb = .conn
  · obtain ⟨c, restore, hintent, -⟩ := connIntent_words uuid (hargs hconn)
    have hdoes : Does py t _ _ := conn_does py hk uuid (words args)
    rw [hintent] at hdoes
    rw [Turn.dispatch, if_pos hconn]
    generalize t.conn py uuid (words args) = t' at hdoes
    cases hdoes with
    | conn => exact ⟨_, List.append_assoc _ _ _⟩
  · obtain ⟨write, hwrite, -⟩ : Single py t (t.dispatch py cfg uuid verb (words args)) :=
      dispatch_single h hk hconn uuid args
    exact ⟨[write], hwrite⟩

theorem locked_writes (h : Sound sv) (hs : Steps py cfg sv o sv')
    (he : o.event = .command k uuid (words (verb :: args))) (hk : sv.connections.get? k = some session)
    (hlock : lockedOut cfg session = true)
    (hargs : Verb.named (py.lower verb) = .conn → ∀ arg ∈ args, arg ≠ "") :
    (∃ ws, o.writes = .reply (.error .pass) :: ws) ∨
      (Verb.named (py.lower verb) = .pass ∧ (o.writes = [.reply (.bool true)] ∨ o.writes = [])) := by
  have hkill := h.killActive (steps_live hs)
  obtain ⟨session', t, hk', -, hw, -, -, ht, -⟩ := command_change h hs he
  cases hk.symm.trans hk'
  rw [hw, ht]
  simp only [words, List.map_cons, onCommandReceived, processCommand, hkill, decode_arg, hlock, if_true,
    Bool.false_eq_true, if_false]
  by_cases hpass : Verb.named (py.lower verb) = .pass
  · rw [hpass]
    cases checkPassword cfg .pass (args.map fun w => .bytes (encode w)) with
    | granted => exact .inr ⟨rfl, .inl rfl⟩
    | raised => exact .inr ⟨rfl, .inr rfl⟩
    | refused =>
      refine .inl (dispatch_appends ?_ ?_ uuid .pass fun hconn => ?_)
      · exact h.rep
      · exact hkill
      · cases hconn
  · have hcheck : checkPassword cfg (Verb.named (py.lower verb))
        (args.map fun w => .bytes (encode w)) = .refused := by
      generalize Verb.named (py.lower verb) = v at hpass
      cases v with
      | pass => exact absurd rfl hpass
      | _ => rfl
    rw [hcheck]
    refine .inl (dispatch_appends ?_ ?_ uuid _ hargs)
    · exact h.rep
    · exact hkill

theorem steps_turn (h : Sound sv) (hs : Steps py cfg sv o sv')
    (he : o.event = .command k uuid (words (verb :: args))) (hk : sv.connections.get? k = some session)
    (hopen : lockedOut cfg session = false) :
    ∃ t₀ : Turn, t₀.adaptor = sv.adaptor ∧ t₀.session = session ∧ t₀.writes = [] ∧
      o.writes = (t₀.dispatch py cfg uuid (Verb.named (py.lower verb)) (words args)).writes := by
  have hkill := h.killActive (steps_live hs)
  obtain ⟨session', t, hk', -, hw, -, -, ht, -⟩ := command_change h hs he
  cases hk.symm.trans hk'
  refine ⟨⟨sv.adaptor, o.clk, session, [], .done⟩, rfl, rfl, rfl, ?_⟩
  rw [hw, ht]
  simp only [words, List.map_cons, onCommandReceived, processCommand, hkill, decode_arg, hopen,
    Bool.false_eq_true, if_false]

theorem single_writes (h : Sound sv) (hs : Steps py cfg sv o sv')
    (he : o.event = .command k uuid (words (verb :: args))) (hk : sv.connections.get? k = some session)
    (hopen : lockedOut cfg session = false) (hconn : Verb.named (py.lower verb) ≠ .conn) :
    ∃ write, o.writes = [write] ∧ Framed py write := by
  have hkill := h.killActive (steps_live hs)
  obtain ⟨t₀, hadaptor, -, hnil, hw⟩ := steps_turn h hs he hk hopen
  have hsingle : Single py t₀ (t₀.dispatch py cfg uuid (Verb.named (py.lower verb)) (words args)) :=
    dispatch_single (by rw [hadaptor]; exact h.rep) (by rw [hadaptor, hkill]) hconn uuid args
  obtain ⟨write, hwrite, hframed⟩ := hsingle
  exact ⟨write, by rw [hw, hwrite, hnil, List.nil_append], hframed⟩

/-- What is written for a command on an admitted connection. -/
theorem command_writes (h : Sound sv) (hs : Steps py cfg sv o sv')
    (he : o.event = .command k uuid (words (verb :: args))) (hk : sv.connections.get? k = some session)
    (hopen : lockedOut cfg session = false) (hargs : ∀ arg ∈ args, arg ≠ "") :
    (Verb.named (py.lower verb) ≠ .conn ∧ ∃ write, o.writes = [write] ∧ Framed py write) ∨
      (Verb.named (py.lower verb) = .conn ∧ ∃ c : ClientId,
        ((args = [] ∧ c = uuid) ∨ args.head? = some c.name) ∧
        o.writes = (if session.clientId.isSome then [.reply (.error .connHasId)] else []) ++
          [.reply (.text c.name)]) := by
  by_cases hconn : Verb.named (py.lower verb) = .conn
  · refine .inr ⟨hconn, ?_⟩
    have hkill := h.killActive (steps_live hs)
    obtain ⟨t₀, hadaptor, hsession, hnil, hw⟩ := steps_turn h hs he hk hopen
    obtain ⟨c, restore, hintent, hname⟩ := connIntent_words uuid hargs
    have hdoes : Does py t₀ _ _ := conn_does py (by rw [hadaptor, hkill]) uuid (words args)
    rw [hintent] at hdoes
    refine ⟨c, hname, ?_⟩
    rw [hw, Turn.dispatch, if_pos hconn]
    generalize t₀.conn py uuid (words args) = t' at hdoes
    cases hdoes with
    | conn => rw [hnil, hsession, List.nil_append]
  · exact .inl ⟨hconn, single_writes h hs he hk hopen hconn⟩

theorem reads_sent {write : Write} (h : Framed py write) :
    ∃ r, Reads (readResponse py) (sent py [write]) r := by
  obtain ⟨w, r, hw, hread⟩ := h
  refine ⟨r, ?_⟩
  simpa [sent, hw] using hread

theorem reads_reply (h : Sound sv) (hs : Steps py cfg sv o sv')
    (he : o.event = .command k uuid (words (verb :: args))) (hk : Admitted cfg k sv)
    (hconn : Verb.named (py.lower verb) ≠ .conn) :
    ∃ r, readResponse py (sent py o.writes) = some (r, []) := by
  obtain ⟨session, hsession⟩ := steps_session h hs he
  obtain ⟨write, hw, hframed⟩ := single_writes h hs he hsession (hk.unlocked session hsession) hconn
  obtain ⟨r, hread⟩ := reads_sent hframed
  refine ⟨r, ?_⟩
  rw [hw, ← List.append_nil (sent py [write])]
  exact hread []

theorem reads_sent_bool (b : Bool) :
    Reads (readResponse py) (sent py [.reply (.bool b)]) (.text (if b then "1" else "0")) := by
  have hpayload : sent py [.reply (.bool b)] = encode (Content.text (if b then "1" else "0")).payload := by
    cases b <;> rfl
  have hnewline : '\n' ∉ (if b then "1" else "0").toList := by cases b <;> decide
  rw [hpayload]
  exact reads_text hnewline

theorem read_error {code : ErrorCode} {ws : List Write} {r : Response} {rest : Bytes}
    (h : readResponse py (sent py (.reply (.error code) :: ws)) = some (r, rest)) :
    ∃ msg n, r = .error msg n := by
  obtain ⟨msg, herror⟩ : ∃ msg, Reads (readResponse py) _ (.error msg _) := reads_error code
  have hsent : sent py (.reply (.error code) :: ws) =
      encode (Content.error code).payload ++ sent py ws := by simp [sent, Write.payload]
  rw [hsent, herror] at h
  cases h
  exact ⟨_, _, rfl⟩

theorem reply_rest (h : Sound sv) (hs : Steps py cfg sv o sv')
    (he : o.event = .command k uuid (words (verb :: args)))
    (hconn : Verb.named (py.lower verb) ≠ .conn) {r : Response} {rest : Bytes}
    (hread : readResponse py (sent py o.writes) = some (r, rest)) :
    (∃ msg n, r = .error msg n) ∨ rest = [] := by
  obtain ⟨session, hk⟩ := steps_session h hs he
  have hsingle : ∀ write, o.writes = [write] → Framed py write → rest = [] := by
    intro write hw hframed
    obtain ⟨r', hread'⟩ := reads_sent hframed
    have hempty := hread' []
    rw [List.append_nil, ← hw, hread] at hempty
    exact (Prod.mk.inj (Option.some_inj.mp hempty)).2
  cases hlock : lockedOut cfg session with
  | true =>
    obtain ⟨ws, hw⟩ | ⟨-, hw | hw⟩ := locked_writes h hs he hk hlock fun hc => absurd hc hconn
    · rw [hw] at hread
      exact .inl (read_error hread)
    · exact .inr (hsingle _ hw (framed_bool true))
    · rw [hw] at hread
      cases hread
  | false =>
    obtain ⟨write, hw, hframed⟩ := single_writes h hs he hk hlock hconn
    exact .inr (hsingle write hw hframed)

theorem conn_rest (h : Sound sv) (hs : Steps py cfg sv o sv')
    (he : o.event = .command k uuid (words [verb, c.name]))
    (hconn : Verb.named (py.lower verb) = .conn) {r : Response} {rest : Bytes}
    (hread : readResponse py (sent py o.writes) = some (r, rest)) :
    (∃ msg n, r = .error msg n) ∨ (r.str? = some c.name → rest = []) := by
  have hargs : ∀ arg ∈ [c.name], arg ≠ "" := List.forall_mem_singleton.mpr c.nonempty
  obtain ⟨session, hk⟩ := steps_session h hs he
  cases hlock : lockedOut cfg session with
  | true =>
    obtain ⟨ws, hw⟩ | ⟨hpass, -⟩ := locked_writes h hs he hk hlock fun _ => hargs
    · rw [hw] at hread
      exact .inl (read_error hread)
    · cases hconn.symm.trans hpass
  | false =>
    obtain ⟨hno, -⟩ | ⟨-, c', hname, hw⟩ := command_writes h hs he hk hlock hargs
    · exact absurd hconn hno
    have hsame : c.name = c'.name := by
      obtain ⟨hnil, -⟩ | hhead := hname
      · cases hnil
      · exact Option.some_inj.mp hhead
    rw [← hsame] at hw
    cases hid : session.clientId with
    | some c'' =>
      rw [hid] at hw
      rw [hw] at hread
      exact .inl (read_error hread)
    | none =>
      rw [hid] at hw
      have htext : readResponse py (encode (Content.text c.name).payload) = some (r, rest) := by
        rw [hw] at hread
        simpa [sent, Write.payload] using hread
      exact .inr (text_rest htext)

theorem acquire_reply (h : Sound sv) (hs : Steps py cfg sv o sv') {l : LockId} {reentrant : Bool}
    (hverb : Verb.named (py.lower verb) = if reentrant then .aqr else .aq)
    (he : o.event = .command k uuid (words [verb, l])) {r : Response} {rest : Bytes}
    (hread : readResponse py (sent py o.writes) = some (r, rest)) :
    (∃ msg n, r = .error msg n) ∨ (rest = [] ∧ ∃ c b, idOf sv k = some c ∧
      Asks py cfg sv o k (.acquire c l reentrant) ∧ Answers o b ∧ r = .text (if b then "1" else "0")) := by
  have hkill := h.killActive (steps_live hs)
  have hconn : Verb.named (py.lower verb) ≠ .conn := by rw [hverb]; cases reentrant <;> decide
  have hpass : Verb.named (py.lower verb) ≠ .pass := by rw [hverb]; cases reentrant <;> decide
  obtain ⟨session, hk⟩ := steps_session h hs he
  cases hlock : lockedOut cfg session with
  | true =>
    have hlocked := locked_writes h hs he hk hlock fun hc => absurd hc hconn
    obtain ⟨ws, hws⟩ := hlocked.resolve_right fun hp => hpass hp.1
    rw [hws] at hread
    exact .inl (read_error hread)
  | false =>
    obtain ⟨t₀, hadaptor, hsession, hnil, hw⟩ := steps_turn h hs he hk hlock
    rw [Turn.dispatch, if_neg hconn, hsession] at hw
    cases hid : session.clientId with
    | none =>
      rw [hid] at hw
      simp only [Turn.reply, hnil] at hw
      rw [hw] at hread
      exact .inl (read_error hread)
    | some c =>
      rw [hid] at hw
      by_cases hl : l = ""
      · have hserve : t₀.serve py cfg c (Verb.named (py.lower verb)) (words [l]) =
            t₀.reply (.error .wrongArgs) := by
          rw [hl, hverb]
          cases reentrant <;> rfl
        simp only [hserve, Turn.reply, hnil] at hw
        rw [hw] at hread
        exact .inl (read_error hread)
      · have hop : operationOf py c (Verb.named (py.lower verb)) (words [l]) =
            some (.acquire c l reentrant) := by
          rw [hverb]
          cases reentrant <;> simp [operationOf, oneText_words hl]
        have ha : Asks py cfg sv o k (.acquire c l reentrant) := by
          refine ⟨uuid, _, session, he, hk, ?_⟩
          have hintent := intent_verb cfg hid rfl hconn hpass uuid (words [l])
          rw [hop] at hintent
          exact hintent
        have hc : idOf sv k = some c := by rw [idOf, hk, Option.bind_some, hid]
        obtain ⟨b, hans⟩ : ∃ b, Answers o b := by
          obtain ⟨a, m, -, -, hans, -⟩ | ⟨-, hans, -⟩ := asks_acquire h hs ha
          · exact ⟨_, hans⟩
          · exact ⟨true, hans⟩
        obtain ⟨write, hwrites, -⟩ := single_writes h hs he hk hlock hconn
        have hbool : write = .reply (.bool b) := by
          rw [Answers, hwrites] at hans
          exact Option.some_inj.mp hans
        rw [hwrites, hbool] at hread
        have hone : readResponse py _ = some (_, []) := reads_sent_bool b []
        rw [List.append_nil, hread] at hone
        obtain ⟨rfl, rfl⟩ := Prod.mk.inj (Option.some_inj.mp hone)
        exact .inr ⟨rfl, c, b, hc, ha, hans, rfl⟩

end Livelock.Framing
