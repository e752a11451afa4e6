import Livelock.ClientRecords
import Livelock.MissingKeys
import Livelock.StorageTable
import Livelock.Ascii

namespace Livelock.LockService

open Livelock.Lib Livelock.Shared Livelock.MemoryStorage
open Livelock.StorageRun Livelock.StorageTable Livelock.Server Livelock.CommandSpec Livelock.ServerRun
open Livelock.ServerLease Livelock.ClientRecords Livelock.Framing Livelock.Ascii
open Livelock.ClientReader (Response readResponse)
open Livelock.MissingKeys (Lacks dispatch_lacks lacks_reply read_written)
open Livelock.Lib.Reader (Reads)

/-- What the server is for: who holds which lock, how many connections came, the
peers of the open ones, whom each of them speaks for, and where a client was
last seen. -/
@[ext]
structure Service where
  table : Table
  accepted : ConnId
  peer : ConnId → Option Address
  speaker : ConnId → Option ClientId
  seen : ClientId → Option Address

/-- An answer of the table, as a client reads it. -/
inductive Told : Answer → Response → Prop
  | bool (b : Bool) : Told (.bool b) (.text (if b then "1" else "0"))
  | signal (b : Bool) : Told (.signal (.bool b)) (.text (if b then "1" else "0"))
  | keyNotExists (msg : String) :
      Told (.signal .keyNotExists) (.error msg (some ErrorCode.keyNotExists.number))
  | found (locks : List (LockId × Time)) :
      Told (.found locks) (.value (.list (locks.map fun lock => .list [.str lock.1, .float (.finite lock.2)])))

variable (py : Builtins)

/-- What a request of a client means. A password has no part in it. -/
def meaning (speaker : Option ClientId) (uuid : ClientId) (value : List Arg) : Intent :=
  match value with
  | [] => .nothing
  | command :: args =>
    match command.decode with
    | none => .nothing
    | some name =>
      let verb := Verb.named (py.lower name)
      if verb = .conn then connIntent uuid args
      else
        match speaker with
        | none => .nothing
        | some clientId => asked (operationOf py clientId verb args)

def lockVerbs : List Verb := [.aq, .aqr, .release, .locked, .find, .sigset, .sigexists, .sigdel]

/-- The request names an operation on locks, be it with wrong arguments. -/
def asksLocks (value : List Arg) : Bool :=
  match value with
  | [] => false
  | command :: _ => command.decode.any fun name => decide (Verb.named (py.lower name) ∈ lockVerbs)

/-- What a request that means nothing is answered by: an error if it is about
locks, and never that a lock has no entry. -/
def Refusal (value : List Arg) (r : Response) : Prop :=
  (asksLocks py value = true → ∃ msg code, r = .error msg code) ∧
    ∀ msg, r ≠ .error msg (some ErrorCode.keyNotExists.number)

namespace Service

def start : Service := ⟨fun _ => none, 0, fun _ => none, fun _ => none, fun _ => none⟩

def grace (timeout : Option Time) : Time := timeout.getD StorageAdaptor.defaultReleaseAllTimeout

def join (s : Service) (k : ConnId) (c : ClientId) (restore : Bool) : Service where
  table := if restore then s.table.mark c none else s.table
  accepted := s.accepted
  peer := s.peer
  speaker := Function.update s.speaker k (some c)
  seen := Function.update s.seen c (s.peer k)

def leave (s : Service) (k : ConnId) : Service :=
  { s with peer := Function.update s.peer k none, speaker := Function.update s.speaker k none }

/-- A request takes effect at once, and this is what the client may be told. -/
inductive Serves (s : Service) (k : ConnId) (uuid : ClientId) (value : List Arg) (clk : Clock) :
    (Response → Prop) → Service → Prop
  | operation {op : Op} {answer : Answer} {clk' : Clock} {t : Table} :
      meaning py (s.speaker k) uuid value = .operation op →
      Table.Step py.fnmatch grace clk clk' s.table op answer t →
      Serves s k uuid value clk (Told answer) { s with table := t }
  | joined {c : ClientId} {restore : Bool} : meaning py (s.speaker k) uuid value = .conn c restore →
      Serves s k uuid value clk (· = .text c.name) (s.join k c restore)
  | nothing : meaning py (s.speaker k) uuid value = .nothing → Serves s k uuid value clk (Refusal py value) s

/-- The bytes written for an event are no response but one of these. -/
def Tells (o : Occurrence) (told : Response → Prop) : Prop :=
  ∀ r, Reads (readResponse py) (sent py o.writes) r → told r

/-- One of these responses is written for an event, after nothing but the errors
about the password and the id. -/
def Answers (o : Occurrence) (told : Response → Prop) : Prop :=
  ∃ (codes : List ErrorCode) (write : Write) (r : Response), codes.Sublist [.pass, .connHasId] ∧
    o.writes = codes.map (fun code => .reply (.error code)) ++ [write] ∧
    Reads (readResponse py) (sent py [write]) r ∧ told r

/-- An id with LF in it is no response that a client could read. -/
def Answerable : Intent → Prop
  | .operation _ => True
  | .conn c _ => '\n' ∉ c.name.toList
  | .nothing => False

/-- The events of the server as steps of the service. The locks of a client get
a deadline when it is lost where it was last seen, and only a client without
locks is ever no longer known to have been seen. -/
inductive Step (s : Service) (o : Occurrence) : Service → Prop
  | opened (peername : Address) : o.event = .connect peername → (∀ j, s.peer j ≠ some peername) →
      Step s o { s with
        accepted := s.accepted + 1
        peer := Function.update s.peer s.accepted (some peername) }
  | request (k : ConnId) (uuid : ClientId) (value : List Arg) {told : Response → Prop} {s' : Service} :
      o.event = .command k uuid value → s.peer k ≠ none → Serves py s k uuid value o.clk told s' →
      Tells py o told → (Answerable (meaning py (s.speaker k) uuid value) → Answers py o told) → Step s o s'
  | left (k : ConnId) : o.event = .lost k →
      (∀ c, s.speaker k = some c → s.seen c ≠ s.peer k ∧ s.seen c ≠ none) → Step s o (s.leave k)
  | dropped (k : ConnId) (c : ClientId) : o.event = .lost k → s.speaker k = some c →
      (s.seen c = s.peer k ∨ s.seen c = none) →
      Step s o { s.leave k with table := s.table.mark c (some (o.reading 0 + grace none)) }
  | maintained (timeoutMs : Time) (shuffle : InMemoryLockStorage.Shuffle) {clk : Clock} {t : Table}
      {seen : ClientId → Option Address} : o.event = .maintenance timeoutMs shuffle →
      Table.Sweeps o.clk clk (o.reading 0 + timeoutMs * 1000) s.table t →
      (∀ c, seen c = s.seen c ∨ (seen c = none ∧ ∀ l h, t l = some h → h.owner ≠ c)) →
      Step s o { s with table := t, seen := seen }

end Service

def serviceOf (sv : Server) : Service where
  table := holding sv.adaptor.store
  accepted := sv.accepted
  peer := peerOf sv
  speaker := idOf sv
  seen := sv.adaptor.getClientLastAddress

variable {py} {cfg : Config} {sv sv' : Server} {o : Occurrence} {k : ConnId} {uuid : ClientId} {value : List Arg}
  {session : Session}

variable (py) in
theorem intent_meaning (cfg : Config) (session : Session) (uuid : ClientId) (value : List Arg) :
    intent py cfg session uuid value = meaning py session.clientId uuid value := by
  cases value with
  | nil => rfl
  | cons command args =>
    rw [intent, meaning]
    cases command.decode with
    | none => rfl
    | some name =>
      dsimp only
      generalize Verb.named (py.lower name) = verb
      by_cases hlock : lockedOut cfg session
      · rw [if_pos hlock]
        cases verb with
        | pass =>
          -- whatever becomes of the password, nothing is asked of the storage
          have hnothing : verbIntent py session uuid .pass args = .nothing := by
            unfold verbIntent
            cases session.clientId <;> rfl
          rw [hnothing]
          cases checkPassword cfg .pass args <;> cases session.clientId <;> rfl
        | _ => rfl
      · rw [if_neg hlock]
        rfl

theorem asked_grace {fnmatch : String → String → Bool} {grace grace' : Option Time → Time}
    {clk clk' : Clock} {t t' : Table} {c : ClientId} {op : Op} {answer : Answer}
    (h : Table.Step fnmatch grace clk clk' t op answer t') (hop : AskedBy c op) :
    Table.Step fnmatch grace' clk clk' t op answer t' := by
  cases h with
  | held c l reentrant h hlive => exact .held c l reentrant h hlive
  | created c l reentrant n hlive hn hn' => exact .created c l reentrant n hlive hn hn'
  | released c l h hl hc => exact .released c l h hl hc
  | notOwner c l hl => exact .notOwner c l hl
  | locked l hlive => exact .locked l hlive
  | lockedLate l hlive hclk => exact .lockedLate l hlive hclk
  | found pattern locks hlocks => exact .found pattern locks hlocks
  | signalAdded l signal h hl => exact .signalAdded l signal h hl
  | addToNone l signal hl => exact .addToNone l signal hl
  | signalRead l signal h hl => exact .signalRead l signal h hl
  | readOfNone l signal hl => exact .readOfNone l signal hl
  | signalRemoved l signal h hl hsignal => exact .signalRemoved l signal h hl hsignal
  | signalMissing l signal h hl hsignal => exact .signalMissing l signal h hl hsignal
  | removeFromNone l signal hl => exact .removeFromNone l signal hl
  | releasedAll | unreleasedAll | addressSet | maintained => exact hop.elim

theorem reads_ne_nil {w : Bytes} {r : Response} (h : Reads (readResponse py) w r) : w ≠ [] := by
  rintro rfl
  cases h []

variable (py) in
theorem answer_told {answer : Answer} (h : answer ≠ .none) (t : Turn) :
    ∃ write r, (Turn.answer answer t).writes = t.writes ++ [write] ∧
      Reads (readResponse py) (sent py [write]) r ∧ Told answer r := by
  cases answer with
  | none => exact absurd rfl h
  | bool b => exact ⟨_, _, rfl, reads_sent_bool b, .bool b⟩
  | signal a =>
    cases a with
    | bool b => exact ⟨_, _, rfl, reads_sent_bool b, .signal b⟩
    | keyNotExists =>
      obtain ⟨msg, herror⟩ : ∃ msg, Reads (readResponse py) _ (.error msg _) :=
        reads_error .keyNotExists
      refine ⟨_, _, rfl, ?_, .keyNotExists msg⟩
      simpa [sent, Write.payload] using herror
  | found locks =>
    obtain ⟨w, hpack, hread⟩ : ∃ w, packResp py _ = some w ∧ Reads (readResponse py) w _ :=
      ClientReader.reads_value (readable_found locks)
    have hlisted : ClientReader.listed (.list (locks.map fun lock =>
        .tuple [.str lock.1, .float (.finite lock.2)])) =
          .list (locks.map fun lock => .list [.str lock.1, .float (.finite lock.2)]) := by
      rw [ClientReader.listed]
      congr 1
      clear hpack hread
      induction locks with
      | nil => rfl
      | cons lock locks ih => simp [ClientReader.listedItems, ClientReader.listed, ih]
    rw [hlisted] at hread
    refine ⟨_, _, rfl, ?_, .found locks⟩
    simpa [sent, Write.payload, hpack] using hread

theorem tells_after {told : Response → Prop} (codes : List ErrorCode) {write : Write}
    (hw : o.writes = codes.map (fun code => .reply (.error code)) ++ [write]) (hne : sent py [write] ≠ [])
    (htold : ∀ r, Reads (readResponse py) (sent py [write]) r → told r) : Service.Tells py o told := by
  intro r hr
  rw [hw] at hr
  cases codes with
  | nil => exact htold r hr
  | cons code codes =>
    obtain ⟨msg, herror⟩ : ∃ msg, Reads (readResponse py) _ (.error msg _) := reads_error code
    have hsent : sent py (List.map (fun code => Write.reply (.error code)) (code :: codes) ++ [write]) =
        encode (Content.error code).payload ++
          (sent py (codes.map fun code => .reply (.error code)) ++ sent py [write]) := by
      simp [sent, Write.payload]
    rw [hsent] at hr
    obtain ⟨-, hnil⟩ := hr.front herror
    exact absurd (List.append_eq_nil_iff.mp hnil).2 hne

theorem Service.Answers.tells {told : Response → Prop} (h : Service.Answers py o told) : Service.Tells py o told := by
  obtain ⟨codes, write, r, -, hw, hread, htold⟩ := h
  refine tells_after codes hw (reads_ne_nil hread) fun r' hr' => ?_
  rw [hr'.unique hread]
  exact htold

theorem opened_writes (cfg : Config) (a : StorageAdaptor) (clk : Clock) (session : Session) :
    (opened cfg a clk session).writes =
      (if lockedOut cfg session then [ErrorCode.pass] else []).map fun code => .reply (.error code) := by
  unfold opened
  by_cases hl : lockedOut cfg session <;> simp [hl, Turn.reply]

theorem given_sublist (b : Bool) (code : ErrorCode) : (if b then [code] else []).Sublist [code] := by
  split
  · exact List.Sublist.refl _
  · exact List.nil_sublist _

variable (py) in
theorem text_told (c : ClientId) : sent py [.reply (.text c.name)] ≠ [] ∧
    ∀ r, Reads (readResponse py) (sent py [.reply (.text c.name)]) r → r = .text c.name := by
  have hsent : sent py [.reply (.text c.name)] = encode (Content.text c.name).payload := by
    simp [sent, Write.payload]
  rw [hsent]
  refine ⟨by simp [text_payload], fun r hr => ?_⟩
  by_cases hn : '\n' ∈ c.name.toList
  · have hwhole := hr []
    rw [List.append_nil] at hwhole
    exact absurd hwhole (broken_text hn r)
  · exact hr.unique (reads_text hn)

theorem peerOf_after (h : Sound sv) (hs : Steps py cfg sv o sv') (he : o.event = .command k uuid value) :
    peerOf sv' = peerOf sv := by
  obtain ⟨session, t, hk, rfl, -, -, -, -, hdoes⟩ := command_change h hs he
  obtain ⟨-, hp, -⟩ := opened_session cfg sv.adaptor o.clk session
  obtain ⟨ha, -⟩ := opened_adaptor cfg sv.adaptor o.clk session
  obtain ⟨-, -, -, hpeer, -⟩ := hdoes.frame (by rw [ha]; exact h.rep)
    (by rw [ha]; exact h.killActive (steps_live hs))
  funext j
  simp only [peerOf, Server.after, Dict.get?_set]
  by_cases hjk : j = k
  · rw [if_pos hjk, hjk, hk]
    exact congrArg some (hpeer.trans hp)
  · rw [if_neg hjk]

theorem serviceOf_same (haccepted : sv'.accepted = sv.accepted) (hpeer : peerOf sv' = peerOf sv)
    (hstore : sv'.adaptor.store = sv.adaptor.store) (hid : ∀ j, idOf sv' j = idOf sv j) : serviceOf sv' = serviceOf sv := by
  refine Service.ext ?_ haccepted hpeer (funext hid) ?_
  · rw [serviceOf, serviceOf, hstore]
  · funext c
    simp only [serviceOf, StorageAdaptor.getClientLastAddress, hstore]

theorem lock_dispatch {a : StorageAdaptor} (hkill : a.killActive = false) {command : Arg} {args : List Arg}
    {name : String} (hname : command.decode = some name) (hverb : Verb.named (py.lower name) ∈ lockVerbs)
    (clk : Clock) (session : Session) (uuid : ClientId) :
    onCommandReceived py cfg a clk session uuid (command :: args) =
      (opened cfg a clk session).dispatch py cfg uuid (Verb.named (py.lower name)) args := by
  generalize hv : Verb.named (py.lower name) = verb at hverb
  have hcheck : checkPassword cfg verb args = .refused := by
    cases verb with
    | pass => simp [lockVerbs] at hverb
    | _ => rfl
  simp only [onCommandReceived, processCommand, hkill, hname, hv, hcheck, opened, Bool.false_eq_true, if_false]
  split <;> rfl

theorem refused_writes (cfg : Config) (uuid : ClientId) {id : Option ClientId} {verb : Verb} {args : List Arg}
    (hverb : verb ∈ lockVerbs) (hnothing : ∀ c, id = some c → operationOf py c verb args = none) :
    ∃ codes : List ErrorCode, ∀ t : Turn, t.session.clientId = id →
      (t.dispatch py cfg uuid verb args).writes = t.writes ++ codes.map fun code => .reply (.error code) := by
  have hconn : verb ≠ .conn := by
    rintro rfl
    simp [lockVerbs] at hverb
  cases id with
  | none =>
    refine ⟨[.connRequired], fun t hc => ?_⟩
    simp only [Turn.dispatch, if_neg hconn, hc]
    rfl
  | some c =>
    have hop := hnothing c rfl
    have hserve : ∀ t : Turn, t.session.clientId = some c →
        t.dispatch py cfg uuid verb args = t.serve py cfg c verb args := by
      intro t hc
      simp only [Turn.dispatch, if_neg hconn, hc]
    cases verb with
    | aq | aqr | release | locked =>
      have hargs : oneText args = none := Option.map_eq_none_iff.mp hop
      refine ⟨[.wrongArgs], fun t hc => ?_⟩
      simp only [hserve t hc, Turn.serve, Turn.oneArg, hargs]
      rfl
    | sigset | sigexists | sigdel =>
      have hargs : twoTexts args = none := Option.map_eq_none_iff.mp hop
      refine ⟨[.wrongArgs], fun t hc => ?_⟩
      simp only [hserve t hc, Turn.serve, Turn.twoArgs, hargs]
      rfl
    | find =>
      by_cases hraises : ∃ arg, args = [arg] ∧ arg.truthy = true
      · -- the pattern does not decode, so nothing at all is written
        obtain ⟨arg, rfl, htruthy⟩ := hraises
        have hargs : arg.text = none := Option.map_eq_none_iff.mp hop
        rw [Arg.text, if_pos htruthy] at hargs
        refine ⟨[], fun t hc => ?_⟩
        simp only [hserve t hc, Turn.serve, htruthy, hargs, if_true, List.map_nil, List.append_nil]
        rfl
      · refine ⟨[.wrongArgs], fun t hc => ?_⟩
        simp only [hserve t hc, Turn.serve]
        split
        · next arg =>
          rw [if_neg fun htruthy => hraises ⟨arg, rfl, htruthy⟩]
          rfl
        · rfl
    | pass | conn | conninfo | ping | stats | shutdown | dump | unknown => simp [lockVerbs] at hverb

theorem errors_tell (codes : List ErrorCode) (hw : o.writes = codes.map fun code => .reply (.error code)) :
    Service.Tells py o fun r => ∃ msg code, r = .error msg code := by
  intro r hr
  rw [hw] at hr
  cases codes with
  | nil => exact absurd rfl (reads_ne_nil hr)
  | cons code codes =>
    have hread := hr []
    rw [List.append_nil, List.map_cons] at hread
    exact read_error hread

theorem asksLocks_named (h : asksLocks py value = true) : ∃ command args name, value = command :: args ∧
    command.decode = some name ∧ Verb.named (py.lower name) ∈ lockVerbs := by
  cases value with
  | nil => cases h
  | cons command args =>
    obtain ⟨name, hname, hverb⟩ : ∃ name, command.decode = some name ∧ Verb.named (py.lower name) ∈ lockVerbs := by
      simpa [asksLocks, Option.any_eq_true] using h
    exact ⟨command, args, name, rfl, hname, hverb⟩

theorem meaning_nothing {command : Arg} {args : List Arg} {name : String} {id : Option ClientId}
    (hname : command.decode = some name) (hconn : Verb.named (py.lower name) ≠ .conn)
    (h : meaning py id uuid (command :: args) = .nothing) {c : ClientId} (hc : id = some c) :
    operationOf py c (Verb.named (py.lower name)) args = none := by
  simp only [meaning, hname, if_neg hconn, hc] at h
  cases hop : operationOf py c (Verb.named (py.lower name)) args with
  | none => rfl
  | some op =>
    rw [hop] at h
    cases h

theorem refused_errors (h : Sound sv) (hs : Steps py cfg sv o sv') (he : o.event = .command k uuid value)
    (hnothing : meaning py (idOf sv k) uuid value = .nothing) :
    Service.Tells py o fun r => asksLocks py value = true → ∃ msg code, r = .error msg code := by
  intro r hr hasks
  obtain ⟨session, t, hk, -, hw, -, -, ht, -⟩ := command_change h hs he
  have hid : idOf sv k = session.clientId := by rw [idOf, hk, Option.bind_some]
  obtain ⟨command, args, name, rfl, hname, hverb⟩ := asksLocks_named hasks
  have hconn : Verb.named (py.lower name) ≠ .conn := by
    intro hconn
    rw [hconn] at hverb
    simp [lockVerbs] at hverb
  rw [hid] at hnothing
  obtain ⟨codes, hcodes⟩ := refused_writes cfg uuid hverb fun c hc =>
    meaning_nothing hname hconn hnothing hc
  have hopened := hcodes _ (opened_session cfg sv.adaptor o.clk session).1
  rw [← lock_dispatch (h.killActive (steps_live hs)) hname hverb, opened_writes, ← List.map_append, ← ht, ← hw]
    at hopened
  exact errors_tell _ hopened r hr

theorem nothing_lacks (h : Sound sv) (hs : Steps py cfg sv o sv') (he : o.event = .command k uuid value)
    (hnothing : meaning py (idOf sv k) uuid value = .nothing) : .reply (.error .keyNotExists) ∉ o.writes := by
  obtain ⟨session, t, hk, -, hw, -, -, ht, -⟩ := command_change h hs he
  have hkill := h.killActive (steps_live hs)
  have hid : idOf sv k = session.clientId := by rw [idOf, hk, Option.bind_some]
  rw [hw, ht]
  cases value with
  | nil => exact List.not_mem_nil
  | cons command args =>
    have hempty : Lacks ⟨sv.adaptor, o.clk, session, [], .done⟩ := List.not_mem_nil
    simp only [onCommandReceived, processCommand, hkill, Bool.false_eq_true, if_false]
    cases hname : command.decode with
    | none => exact hempty
    | some name =>
      have hnone : ∀ c, session.clientId = some c → Verb.named (py.lower name) ≠ .conn →
          operationOf py c (Verb.named (py.lower name)) args = none :=
        fun c hc hconn => meaning_nothing hname hconn (hid ▸ hnothing) hc
      have hreply : ∀ content, content ≠ .error .keyNotExists →
          Lacks (Turn.reply ⟨sv.adaptor, o.clk, session, [], .done⟩ content) :=
        fun content hc => lacks_reply hempty hc
      dsimp only
      split
      · cases checkPassword cfg (Verb.named (py.lower name)) args with
        | raised => exact hempty
        | granted => exact hreply (.bool true) (by decide)
        | refused =>
          apply dispatch_lacks
          · exact hreply (.error .pass) (by decide)
          · exact hnone
      · exact dispatch_lacks hempty hnone

theorem number_inj {code code' : ErrorCode} (h : code.number = code'.number) : code = code' := by
  cases code <;> cases code' <;> first | rfl | cases h

theorem refused_tells (h : Sound sv) (hs : Steps py cfg sv o sv') (he : o.event = .command k uuid value)
    (hnothing : meaning py (idOf sv k) uuid value = .nothing) : Service.Tells py o (Refusal py value) := by
  intro r hr
  refine ⟨refused_errors h hs he hnothing r hr, ?_⟩
  rintro msg rfl
  obtain ⟨code, hmem, hnumber⟩ := read_written hr
  obtain rfl : ErrorCode.keyNotExists = code :=
    number_inj (Int.ofNat_inj.mp (Option.some_inj.mp hnumber))
  exact nothing_lacks h hs he hnothing hmem

theorem command_accepted (h : Sound sv) (hs : Steps py cfg sv o sv') (he : o.event = .command k uuid value) :
    sv'.accepted = sv.accepted := by
  obtain ⟨session, t, -, rfl, -⟩ := command_change h hs he
  rw [Server.after]

theorem operation_served (h : Sound sv) (hs : Steps py cfg sv o sv') {op : Op} (ha : Asks py cfg sv o k op) :
    ∃ answer clk, Table.Step py.fnmatch Service.grace o.clk clk (serviceOf sv).table op answer (serviceOf sv').table ∧
      serviceOf sv' = { serviceOf sv with table := (serviceOf sv').table } ∧ Service.Answers py o (Told answer) := by
  obtain ⟨answer, clk, hexec, -, -, ⟨c, -, hasked⟩, hid⟩ := asks_effect h hs ha
  obtain ⟨uuid, value, session, he, hk, hi⟩ := ha
  obtain ⟨session', t, hk', -, hw, -, -, -, hdoes⟩ := command_change h hs he
  cases hk.symm.trans hk'
  obtain ⟨answer', s', clk', hexec', hstep⟩ := exec_refines py.fnmatch h.rep op o.clk
  rw [hexec] at hexec'
  obtain ⟨rfl, hrest⟩ := Prod.mk.inj (Except.ok.inj hexec')
  obtain ⟨rfl, rfl⟩ := Prod.mk.inj hrest
  refine ⟨answer, clk, asked_grace hstep hasked, ?_, ?_⟩
  · refine Service.ext rfl (command_accepted h hs he) (peerOf_after h hs he) (funext hid) ?_
    funext c'
    simp only [serviceOf, StorageAdaptor.getClientLastAddress, InMemoryLockStorage.getClientLastAddress,
      (exec_keeps hexec hasked).address]
  · have hcodes := opened_writes cfg sv.adaptor o.clk session
    obtain ⟨ha, hclk⟩ := opened_adaptor cfg sv.adaptor o.clk session
    rw [hi] at hdoes
    generalize opened cfg sv.adaptor o.clk session = t₀ at hdoes hcodes ha hclk
    cases hdoes with
    | @operation _ answer' store clk' hexec' =>
      rw [ha, hclk, hexec] at hexec'
      obtain ⟨rfl, -⟩ := Prod.mk.inj (Except.ok.inj hexec')
      obtain ⟨write, r, hwrite, hread, htold⟩ := answer_told py (exec_answers hexec hasked)
        { t₀ with adaptor := { t₀.adaptor with store := store }, clk := clk' }
      exact ⟨_, write, r, (given_sublist _ .pass).trans (by decide), by rw [hw, hwrite, hcodes], hread, htold⟩

theorem joined_served (h : Sound sv) (hs : Steps py cfg sv o sv') {c : ClientId} {restore : Bool}
    (hj : Joins py cfg sv o k c restore) : serviceOf sv' = (serviceOf sv).join k c restore := by
  obtain ⟨session, hk, hstore, hid⟩ := joins_effect h hs hj
  have haddress := joins_address h hs hj
  obtain ⟨uuid, value, -, he, -⟩ := hj
  refine Service.ext ?_ (command_accepted h hs he) (peerOf_after h hs he) ?_ ?_
  · have hset : holding (joined sv.adaptor.store c restore session.peername) =
        holding (if restore then sv.adaptor.store.unreleaseAll c else sv.adaptor.store) :=
      holding_congr rfl rfl rfl
    simp only [serviceOf, Service.join, hstore, hset]
    split
    · exact holding_unreleaseAll h.rep c
    · rfl
  · funext j
    simp only [serviceOf, Service.join, Function.update_apply]
    exact hid j
  · funext c'
    simp only [serviceOf, Service.join, Function.update_apply]
    exact haddress c'

theorem joins_writes (h : Sound sv) (hs : Steps py cfg sv o sv') {c : ClientId} {restore : Bool}
    (hj : Joins py cfg sv o k c restore) : ∃ codes : List ErrorCode, codes.Sublist [.pass, .connHasId] ∧
      o.writes = codes.map (fun code => .reply (.error code)) ++ [.reply (.text c.name)] := by
  obtain ⟨uuid, value, session, he, hk, hi⟩ := hj
  obtain ⟨session', t, hk', -, hw, -, -, -, hdoes⟩ := command_change h hs he
  cases hk.symm.trans hk'
  have hcodes := opened_writes cfg sv.adaptor o.clk session
  rw [hi] at hdoes
  generalize opened cfg sv.adaptor o.clk session = t₀ at hdoes hcodes
  cases hdoes with
  | conn =>
    refine ⟨(if lockedOut cfg session then [.pass] else []) ++
      if t₀.session.clientId.isSome then [.connHasId] else [], ?_, ?_⟩
    · exact (given_sublist _ .pass).append (given_sublist _ .connHasId)
    · rw [hw, hcodes, List.map_append]
      cases t₀.session.clientId <;> rfl

theorem joins_tells (h : Sound sv) (hs : Steps py cfg sv o sv') {c : ClientId} {restore : Bool}
    (hj : Joins py cfg sv o k c restore) : Service.Tells py o (· = .text c.name) := by
  obtain ⟨codes, -, hw⟩ := joins_writes h hs hj
  obtain ⟨hne, htold⟩ := text_told py c
  exact tells_after codes hw hne htold

theorem joins_answers (h : Sound sv) (hs : Steps py cfg sv o sv') {c : ClientId} {restore : Bool}
    (hj : Joins py cfg sv o k c restore) (hn : '\n' ∉ c.name.toList) :
    Service.Answers py o (· = .text c.name) := by
  obtain ⟨codes, hcodes, hw⟩ := joins_writes h hs hj
  have hread : Reads (readResponse py) (sent py [.reply (.text c.name)]) (.text c.name) := by
    simpa [sent, Write.payload] using reads_text hn
  exact ⟨codes, _, _, hcodes, hw, hread, rfl⟩

/-- A command is a request of the service. -/
theorem command_serves (h : Sound sv) (hs : Steps py cfg sv o sv') (he : o.event = .command k uuid value) :
    ∃ told, Service.Serves py (serviceOf sv) k uuid value o.clk told (serviceOf sv') ∧ Service.Tells py o told ∧
      (Service.Answerable (meaning py ((serviceOf sv).speaker k) uuid value) → Service.Answers py o told) := by
  obtain ⟨session, hk⟩ := steps_session h hs he
  have hmeaning : intent py cfg session uuid value = meaning py ((serviceOf sv).speaker k) uuid value := by
    simp only [serviceOf, idOf, hk, Option.bind_some, intent_meaning]
  cases hi : intent py cfg session uuid value with
  | nothing =>
    obtain ⟨hstore, hid⟩ := quiet_effect h hs he hk hi
    refine ⟨_, ?_, refused_tells h hs he (hmeaning.symm.trans hi), ?_⟩
    · rw [serviceOf_same (command_accepted h hs he) (peerOf_after h hs he) hstore hid]
      exact .nothing (hmeaning.symm.trans hi)
    · rw [← hmeaning, hi]
      exact False.elim
  | conn c restore =>
    have hj : Joins py cfg sv o k c restore := ⟨uuid, value, session, he, hk, hi⟩
    refine ⟨_, ?_, joins_tells h hs hj, ?_⟩
    · rw [joined_served h hs hj]
      exact .joined (hmeaning.symm.trans hi)
    · rw [← hmeaning, hi]
      exact joins_answers h hs hj
  | operation op =>
    obtain ⟨answer, clk, hstep, hservice, hanswers⟩ := operation_served h hs ⟨uuid, value, session, he, hk, hi⟩
    refine ⟨_, ?_, hanswers.tells, fun _ => hanswers⟩
    rw [hservice]
    exact .operation (hmeaning.symm.trans hi) hstep

theorem maintained_step (h : Sound sv) (hs : Steps py cfg sv o sv') {timeoutMs : Time}
    {shuffle : InMemoryLockStorage.Shuffle} (he : o.event = .maintenance timeoutMs shuffle) :
    Service.Step py (serviceOf sv) o (serviceOf sv') := by
  have hsound := sound_step h hs
  obtain ⟨store, clk, heq, rfl⟩ := maintenance_change h hs he
  have hsweeps : Table.Sweeps o.clk clk (o.clk.now + timeoutMs * 1000) (holding sv.adaptor.store)
      (holding store) := by
    obtain ⟨s', clk', heq', hstep⟩ := maintenance_step py.fnmatch h.rep o.clk timeoutMs shuffle
    rw [heq] at heq'
    obtain ⟨rfl, rfl⟩ := Prod.mk.inj (Except.ok.inj heq')
    generalize holding store = t at hstep
    cases hstep with
    | maintained _ _ _ hsweeps => exact hsweeps
  refine .maintained timeoutMs shuffle he hsweeps fun c => ?_
  obtain hsame | ⟨hnone, hidle⟩ := (maintenance_forgets heq).address c
  · exact .inl hsame
  · refine .inr ⟨hnone, fun l holds hl hc => ?_⟩
    obtain ⟨howner, r, hr, -⟩ := holding_some hl
    have hlisted : r ∈ store.locksOf holds.owner := (hsound.rep.listed _ r).mpr ⟨l, hr, howner⟩
    rw [hc, hidle] at hlisted
    cases hlisted

theorem serviceOf_erase (sv : Server) (a : StorageAdaptor) (k : ConnId) :
    serviceOf { sv with adaptor := a, connections := sv.connections.erase k } =
      { (serviceOf sv).leave k with table := holding a.store, seen := a.getClientLastAddress } := by
  refine Service.ext rfl rfl ?_ ?_ rfl
  · funext j
    simp only [serviceOf, Service.leave, Function.update_apply, peerOf, Dict.get?_erase]
    split <;> rfl
  · funext j
    simp only [serviceOf, Service.leave, Function.update_apply]
    exact idOf_erase sv a k j

/-- Every event of the server is a step of the service. -/
theorem step_refines (h : Sound sv) (hs : Steps py cfg sv o sv') :
    Service.Step py (serviceOf sv) o (serviceOf sv') := by
  cases step_change h hs with
  | connect peername he hw hfree =>
    have hopened : serviceOf { sv with
        connections := sv.connections.set sv.accepted { peername := peername }, accepted := sv.accepted + 1 } =
          { serviceOf sv with
            accepted := sv.accepted + 1
            peer := Function.update (peerOf sv) sv.accepted (some peername) } := by
      refine Service.ext rfl rfl ?_ (funext (idOf_connect h peername)) rfl
      funext j
      simp only [serviceOf, Function.update_apply, peerOf, Dict.get?_set]
      split <;> rfl
    rw [hopened]
    refine .opened peername he fun j hj => ?_
    obtain ⟨session, hsession, hpeer⟩ := Option.map_eq_some_iff.mp hj
    exact hfree j session hsession hpeer
  | command k uuid value session t he hw hk =>
    obtain ⟨told, hserves, htells, hanswers⟩ := command_serves h hs he
    refine .request k uuid value he ?_ hserves htells hanswers
    simp [serviceOf, peerOf, hk]
  | lost k session he hw hk hnot =>
    rw [serviceOf_erase]
    refine .left k he fun c hc => ?_
    simp only [serviceOf, idOf, hk, Option.bind_some] at hc
    simp only [serviceOf, peerOf, hk, Option.map_some]
    exact hnot c hc
  | lostLast k session c he hw hk hc hlast =>
    have hmark : holding (sv.adaptor.store.releaseAll o.clk c (some sv.adaptor.releaseAllTimeout)).1 =
        (holding sv.adaptor.store).mark c (some (o.reading 0 + Service.grace none)) := by
      rw [holding_releaseAll h.rep, h.releaseAllTimeout, graceTime_default]
      rfl
    rw [serviceOf_erase, hmark]
    refine .dropped k c he ?_ ?_
    · simp only [serviceOf, idOf, hk, Option.bind_some, hc]
    · simpa only [serviceOf, peerOf, hk, Option.map_some] using hlast
  | maintenance timeoutMs shuffle store clk he => exact maintained_step h hs he

theorem run_refines {os : List Occurrence} (h : Run (Steps py cfg) sv os sv') (hsound : Sound sv) :
    Run (Service.Step py) (serviceOf sv) os (serviceOf sv') := by
  induction h with
  | nil => exact .nil
  | @snoc os o v w hrun hs ih => exact ih.snoc (step_refines (sound_run hrun hsound) hs)

theorem serviceOf_start (T : Time) : serviceOf (.start T) = .start := by
  apply Service.ext
  · funext l
    rfl
  · rfl
  · funext k
    rfl
  · funext k
    rfl
  · funext c
    rfl

/-- The server refines the service: what clients do to the server and what they
read from it is a run of the service, request by request. -/
theorem server_refines {T : Time} {os : List Occurrence} (h : Run (Steps py cfg) (.start T) os sv) :
    Run (Service.Step py) .start os (serviceOf sv) := by
  rw [← serviceOf_start T]
  exact run_refines h (sound_start T)

theorem request_serves {s s' : Service} {o : Occurrence} {uuid : ClientId} {value : List Arg}
    (hs : Service.Step py s o s') (he : o.event = .command k uuid value) :
    ∃ told, s.peer k ≠ none ∧ Service.Serves py s k uuid value o.clk told s' ∧ Service.Tells py o told := by
  cases hs with
  | @request k' uuid' value' told _ he' hpeer hserves htells =>
    cases he.symm.trans he'
    exact ⟨told, hpeer, hserves, htells⟩
  | opened _ he' | left _ he' | dropped _ _ he' | maintained _ _ he' => cases he.symm.trans he'

def contested : List Event :=
  [.connect ⟨"10.0.0.1", 40001⟩, .command 0 carol (words ["CONN", "alice"]), .command 0 carol (words ["AQ", "l"]),
    .connect ⟨"10.0.0.2", 40002⟩, .command 1 bob (words ["CONN"]), .command 1 carol (words ["AQ", "l"])]

theorem server_refines_contested : ∃ os sv, Run (Service.Step ascii) .start os (serviceOf sv) ∧
    (serviceOf sv).table "l" = some ⟨alice, { id := "l", time := 1 }⟩ ∧ (serviceOf sv).speaker 1 = some bob := by
  have heval : ((allAt 1 contested).foldlM (Server.next ascii plainConfig) (.start 5)).map (fun sv =>
      (holding sv.adaptor.store "l", idOf sv 1)) = some (some ⟨alice, { id := "l", time := 1 }⟩, some bob) := by
    decide +kernel
  obtain ⟨sv, hplay, hfacts⟩ := Option.map_eq_some_iff.mp heval
  obtain ⟨htable, hspeaker⟩ := Prod.mk.inj hfacts
  obtain ⟨os, hrun, -⟩ := play_run hplay
  exact ⟨os, sv, server_refines hrun, htable, hspeaker⟩

end Livelock.LockService
