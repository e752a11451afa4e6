import Livelock.ServerRun

namespace Livelock.ServerLease

open Livelock.Lib Livelock.Shared Livelock.MemoryStorage
open Livelock.StorageLease Livelock.StorageRun Livelock.Server Livelock.CommandSpec
open Livelock.ServerRun

def leaseOf (sv : Server) (l : LockId) : Option (Lease ClientId Time) := lease sv.adaptor.store l

/-- The client that an open connection has identified itself as. -/
def idOf (sv : Server) (k : ConnId) : Option ClientId := (sv.connections.get? k).bind Session.clientId

def peerOf (sv : Server) (k : ConnId) : Option Address :=
  (sv.connections.get? k).map Session.peername

def clients (sv : Server) : List ClientId := sv.connections.items.filterMap fun p => p.2.clientId

theorem mem_clients {sv : Server} {c : ClientId} : c ∈ clients sv ↔ ∃ k, idOf sv k = some c := by
  rw [clients, List.mem_filterMap]
  constructor
  · rintro ⟨⟨k, session⟩, hp, hc⟩
    exact ⟨k, Option.bind_eq_some_iff.mpr ⟨session, (Dict.mem_items _ k session).mp hp, hc⟩⟩
  · rintro ⟨k, hk⟩
    obtain ⟨session, hs, hc⟩ := Option.bind_eq_some_iff.mp hk
    exact ⟨(k, session), (Dict.mem_items _ k session).mpr hs, hc⟩

variable (py : Builtins) (cfg : Config)

/-- The event is a request on connection `k` for an operation of the storage. -/
def Asks (sv : Server) (o : Occurrence) (k : ConnId) (op : Op) : Prop :=
  ∃ uuid value session, o.event = .command k uuid value ∧ sv.connections.get? k = some session ∧
    intent py cfg session uuid value = .operation op

/-- The event is a `CONN` that gives connection `k` the id `c`, and restores
the locks of `c` when the id came with the request. -/
def Joins (sv : Server) (o : Occurrence) (k : ConnId) (c : ClientId) (restore : Bool) : Prop :=
  ∃ uuid value session, o.event = .command k uuid value ∧ sv.connections.get? k = some session ∧
    intent py cfg session uuid value = .conn c restore

/-- The event is the loss of a connection of `c` that releases its locks. -/
def Drops (sv : Server) (o : Occurrence) (k : ConnId) (c : ClientId) : Prop :=
  o.event = .lost k ∧ ∃ session, sv.connections.get? k = some session ∧ session.clientId = some c ∧
    (sv.adaptor.getClientLastAddress c = some session.peername ∨
      sv.adaptor.getClientLastAddress c = none)

def Answers (o : Occurrence) (b : Bool) : Prop := o.writes.getLast? = some (.reply (.bool b))

/-- Why an event acts on the lease of lock `l` as it does. -/
inductive Cause (sv : Server) (o : Occurrence) (l : LockId) : Lease.Act ClientId Time → Prop
  | idle : Cause sv o l .idle
  | granted {k : ConnId} {c : ClientId} {reentrant : Bool} :
      Asks py cfg sv o k (.acquire c l reentrant) → Answers o true → Cause sv o l (.grant c)
  | takenOver {k : ConnId} {c : ClientId} {reentrant : Bool} (n : Nat) :
      Asks py cfg sv o k (.acquire c l reentrant) → Answers o true →
        Cause sv o l (.takeOver (o.reading n) c)
  | released {k : ConnId} {c : ClientId} :
      Asks py cfg sv o k (.release c l) → Answers o true → Cause sv o l (.drop c)
  | lost {k : ConnId} {c : ClientId} : Drops sv o k c →
      Cause sv o l (.suspend c (o.reading 0 + StorageAdaptor.defaultReleaseAllTimeout))
  | joined {k : ConnId} {c : ClientId} : Joins py cfg sv o k c true → Cause sv o l (.resume c)
  | found {k : ConnId} (n : Nat) : Asks py cfg sv o k (.locked l) → Answers o false →
      Cause sv o l (.expire (o.reading n))
  | swept {timeoutMs : Time} {shuffle : InMemoryLockStorage.Shuffle} (n : Nat) :
      o.event = .maintenance timeoutMs shuffle → Cause sv o l (.expire (o.reading n))

variable {py cfg} {sv sv' : Server} {o : Occurrence} {k : ConnId} {l : LockId} {c : ClientId}

theorem answer_answers {answer : Answer} {t : Turn} {b : Bool}
    (h : answer = .bool b ∨ answer = .signal (.bool b))
    (hw : o.writes = (Turn.answer answer t).writes) : Answers o b := by
  obtain rfl | rfl := h
  · rw [Answers, hw, Turn.answer, Turn.reply]
    exact List.getLast?_concat
  · rw [Answers, hw, Turn.answer, Turn.reply]
    exact List.getLast?_concat

theorem answers_unique {b b' : Bool} (h : Answers o b) (h' : Answers o b') : b = b' := by
  have he := h.symm.trans h'
  simpa using he

def AskedBy (c : ClientId) : Op → Prop
  | .acquire c' _ _ | .release c' _ => c' = c
  | .releaseAll _ _ | .unreleaseAll _ | .setClientLastAddress _ _ | .maintenance _ _ => False
  | _ => True

theorem operationOf_asked {verb : Verb} {args : List Arg} {op : Op}
    (h : operationOf py c verb args = some op) : AskedBy c op := by
  cases verb with
  | aq | aqr | release | locked | find | sigset | sigexists | sigdel =>
    obtain ⟨_, -, rfl⟩ := Option.map_eq_some_iff.mp h
    simp [AskedBy]
  | _ => cases h

theorem intent_asked {session : Session} {uuid : ClientId} {value : List Arg} {op : Op}
    (h : intent py cfg session uuid value = .operation op) :
    ∃ c, session.clientId = some c ∧ AskedBy c op := by
  obtain ⟨c, _, _, hc, hop⟩ := intent_operation h
  exact ⟨c, hc, operationOf_asked hop⟩

theorem idOf_after (sv : Server) (k : ConnId) (t : Turn) (j : ConnId) :
    idOf (sv.after k t) j = if j = k then t.session.clientId else idOf sv j := by
  unfold idOf
  rw [Server.after, Dict.get?_set]
  split <;> rfl

theorem asks_words {uuid : ClientId} {k' : ConnId} {verb : String} {args : List String} {op : Op}
    (ha : Asks py cfg sv o k op) (he : o.event = .command k' uuid (words (verb :: args))) :
    k = k' ∧ ∃ c, idOf sv k = some c ∧
      operationOf py c (Verb.named (py.lower verb)) (words args) = some op := by
  obtain ⟨uuid', value, session, he', hk, hi⟩ := ha
  cases he'.symm.trans he
  rw [intent_words] at hi
  obtain ⟨c, hc, hop⟩ := verbIntent_operation hi
  exact ⟨rfl, c, by rw [idOf, hk]; exact hc, hop⟩

theorem joins_words {uuid : ClientId} {k' : ConnId} {verb : String} {args : List String}
    {restore : Bool} (hj : Joins py cfg sv o k c restore)
    (he : o.event = .command k' uuid (words (verb :: args))) :
    k = k' ∧ Verb.named (py.lower verb) = .conn ∧ connIntent uuid (words args) = .conn c restore := by
  obtain ⟨uuid', value, session, he', hk, hi⟩ := hj
  cases he'.symm.trans he
  rw [intent_words, verbIntent] at hi
  split at hi
  · next hv => exact ⟨rfl, hv, hi⟩
  · split at hi
    · cases hi
    · next c' _ => cases hop : operationOf py c' (Verb.named (py.lower verb)) (words args) <;>
        rw [hop] at hi <;> cases hi

/-- A request for an operation has the effect of the operation and tells its
answer. -/
theorem asks_effect (h : Sound sv) (hs : Steps py cfg sv o sv') {op : Op}
    (ha : Asks py cfg sv o k op) :
    ∃ answer clk,
      exec py.fnmatch op sv.adaptor.store o.clk = .ok (answer, sv'.adaptor.store, clk) ∧
      Effect sv.adaptor.store o.clk op answer sv'.adaptor.store clk ∧
      (∀ b, answer = .bool b ∨ answer = .signal (.bool b) → Answers o b) ∧ (∃ c, idOf sv k = some c ∧ AskedBy c op) ∧
        ∀ j, idOf sv' j = idOf sv j := by
  obtain ⟨uuid, value, session, he, hk, hi⟩ := ha
  have hid : idOf sv k = session.clientId := by rw [idOf, hk]; rfl
  obtain ⟨session', t, hk', rfl, hw, -, -, -, hdoes⟩ := command_change h hs he
  cases hk.symm.trans hk'
  rw [hi] at hdoes
  obtain ⟨ha, hclk⟩ := opened_adaptor cfg sv.adaptor o.clk session
  obtain ⟨hc, -⟩ := opened_session cfg sv.adaptor o.clk session
  obtain ⟨c, hcl, hasked⟩ := intent_asked hi
  generalize opened cfg sv.adaptor o.clk session = t₀ at hdoes ha hclk hc
  cases hdoes with
  | @operation _ answer store clk hexec heff =>
    rw [ha, hclk] at hexec heff
    refine ⟨answer, clk, ?_, ?_, fun b hb => answer_answers hb hw, ⟨c, hid.trans hcl, hasked⟩,
      fun j => ?_⟩
    · simpa [Server.after] using hexec
    · simpa [Server.after] using heff
    · rw [idOf_after]
      split
      · next hj => rw [hj, hid, answer_session, hc]
      · rfl

/-- A `CONN` restores the locks of an id that came with it, records the peer
address of its connection, and gives the connection the id. -/
theorem joins_effect (h : Sound sv) (hs : Steps py cfg sv o sv') {restore : Bool}
    (hj : Joins py cfg sv o k c restore) :
    ∃ session, sv.connections.get? k = some session ∧
      sv'.adaptor.store = joined sv.adaptor.store c restore session.peername ∧
      ∀ j, idOf sv' j = if j = k then some c else idOf sv j := by
  obtain ⟨uuid, value, session, he, hk, hi⟩ := hj
  refine ⟨session, hk, ?_⟩
  obtain ⟨session', t, hk', rfl, -, -, -, -, hdoes⟩ := command_change h hs he
  cases hk.symm.trans hk'
  rw [hi] at hdoes
  obtain ⟨ha, -⟩ := opened_adaptor cfg sv.adaptor o.clk session
  obtain ⟨-, hp, -⟩ := opened_session cfg sv.adaptor o.clk session
  generalize opened cfg sv.adaptor o.clk session = t₀ at hdoes ha hp
  cases hdoes with
  | conn =>
    refine ⟨?_, fun j => idOf_after sv k _ j⟩
    simp only [Server.after, ha, hp]

theorem quiet_effect (h : Sound sv) (hs : Steps py cfg sv o sv') {uuid : ClientId} {value : List Arg}
    {session : Session} (he : o.event = .command k uuid value)
    (hk : sv.connections.get? k = some session) (hi : intent py cfg session uuid value = .nothing) :
    sv'.adaptor.store = sv.adaptor.store ∧ ∀ j, idOf sv' j = idOf sv j := by
  have hid : idOf sv k = session.clientId := by rw [idOf, hk]; rfl
  obtain ⟨session', t, hk', rfl, -, -, -, -, hdoes⟩ := command_change h hs he
  cases hk.symm.trans hk'
  rw [hi] at hdoes
  obtain ⟨ha, -⟩ := opened_adaptor cfg sv.adaptor o.clk session
  obtain ⟨hc, -⟩ := opened_session cfg sv.adaptor o.clk session
  generalize opened cfg sv.adaptor o.clk session = t₀ at hdoes ha hc
  cases hdoes with
  | nothing hinert =>
    refine ⟨hinert.store.trans (by rw [ha]), fun j => ?_⟩
    rw [idOf_after]
    split
    · next hj => rw [hj, hid, hinert.clientId, hc]
    · rfl

theorem asks_lease (h : Sound sv) (hs : Steps py cfg sv o sv') {op : Op}
    (ha : Asks py cfg sv o k op) (l : LockId) :
    ∃ act, Cause py cfg sv o l act ∧ Lease.Step (leaseOf sv l) act (leaseOf sv' l) := by
  obtain ⟨answer, clk, -, heff, hans, ⟨c, -, hasked⟩, -⟩ := asks_effect h hs ha
  obtain ⟨act, hact, hstep⟩ := heff.act l
  refine ⟨act, ?_, hstep⟩
  cases hact with
  | elsewhere | held | notOwner | locked | passed => exact .idle
  | granted c' r => exact .granted ha (hans true (.inl rfl))
  | takenOver c' r n => exact .takenOver n ha (hans true (.inl rfl))
  | released c' => exact .released ha (hans true (.inl rfl))
  | lockedExpired n => exact .found n ha (hans false (.inl rfl))
  | releasedAll | unreleasedAll | swept => exact hasked.elim

theorem asks_acquire (h : Sound sv) (hs : Steps py cfg sv o sv') {reentrant : Bool}
    (ha : Asks py cfg sv o k (.acquire c l reentrant)) :
    (∃ a m, leaseOf sv l = some ⟨a, m⟩ ∧ ¬ Overdue (o.reading 0) (leaseOf sv l) ∧
        Answers o (reentrant && decide (a = c)) ∧ leaseOf sv' l = leaseOf sv l) ∨
      ((leaseOf sv l = none ∨ Overdue (o.reading 0) (leaseOf sv l)) ∧ Answers o true ∧
        leaseOf sv' l = some ⟨c, none⟩) := by
  obtain ⟨answer, clk, hexec, -, hans, -⟩ := asks_effect h hs ha
  obtain ⟨a, m, clk', hl, hov, -, heq⟩ | ⟨s₁, clk₁, heq, hrep, -, -, -, hfree⟩ :=
    acquire_spec h.rep o.clk c l reentrant
  · simp only [exec, heq] at hexec
    obtain ⟨rfl, hstore, -⟩ : Answer.bool (reentrant && decide (a = c)) = answer ∧
        sv.adaptor.store = sv'.adaptor.store ∧ clk' = clk := by simpa using Except.ok.inj hexec
    refine .inl ⟨a, m, hl, hov, hans _ (.inl rfl), ?_⟩
    rw [leaseOf, leaseOf, hstore]
  · simp only [exec, heq] at hexec
    obtain ⟨rfl, hstore, -⟩ : Answer.bool true = answer ∧
        s₁.createLock clk₁ c l = sv'.adaptor.store ∧ clk₁.tick = clk := by
      simpa using Except.ok.inj hexec
    refine .inr ⟨hfree.imp_right And.left, hans _ (.inl rfl), ?_⟩
    rw [leaseOf, ← hstore, lease_createLock hrep, if_pos rfl]

theorem asks_locked (h : Sound sv) (hs : Steps py cfg sv o sv')
    (ha : Asks py cfg sv o k (.locked l)) :
    (Overdue (o.reading 0) (leaseOf sv l) ∧ Answers o false) ∨
      (¬ Overdue (o.reading 0) (leaseOf sv l) ∧ Answers o (leaseOf sv l).isSome) := by
  obtain ⟨answer, clk, hexec, -, hans, -⟩ := asks_effect h hs ha
  obtain ⟨b, s', clk', heq, -, -, -, hcase⟩ := locked_spec h.rep o.clk l
  simp only [exec, heq] at hexec
  obtain ⟨rfl, -⟩ : Answer.bool b = answer ∧ s' = sv'.adaptor.store ∧ clk' = clk := by
    simpa using Except.ok.inj hexec
  obtain ⟨hov, rfl, -⟩ | ⟨hov, rfl, -⟩ := hcase
  · exact .inl ⟨hov, hans _ (.inl rfl)⟩
  · exact .inr ⟨hov, hans _ (.inl rfl)⟩

def Serving (sv : Server) (k : ConnId) : Prop :=
  ∃ session, sv.connections.get? k = some session ∧ session.serving = true

theorem request_serving (h : Sound sv) (hs : Steps py cfg sv o sv') {uuid : ClientId}
    {value : List Arg} {session : Session} (he : o.event = .command k uuid value)
    (hk : sv.connections.get? k = some session) (hi : intent py cfg session uuid value ≠ .nothing) :
    sv'.exited = false ∧ Serving sv' k ∧ ∀ j, Serving sv j → Serving sv' j := by
  obtain ⟨session', t, hk', rfl, -, hserving, -, -, hdoes⟩ := command_change h hs he
  cases hk.symm.trans hk'
  obtain ⟨hserv, hend⟩ := opened_serving cfg sv.adaptor o.clk session
  have hturn : t.ending = .done ∧ t.session.serving = true := by
    generalize opened cfg sv.adaptor o.clk session = t₀ at hdoes hserv hend
    generalize intent py cfg session uuid value = i at hdoes hi
    cases hdoes with
    | nothing => exact absurd rfl hi
    | conn => exact ⟨hend, hserv.trans hserving⟩
    | operation =>
      rw [answer_ending, answer_session]
      exact ⟨hend, hserv.trans hserving⟩
  have hself : Serving (sv.after k t) k :=
    ⟨_, Dict.get?_set_self _ _ _, by simp [hturn.1, hturn.2]⟩
  refine ⟨by simp [Server.after, hturn.1], hself, fun j hj => ?_⟩
  by_cases hjk : j = k
  · rw [hjk]
    exact hself
  · obtain ⟨other, hother, hok⟩ := hj
    refine ⟨other, ?_, hok⟩
    rw [Server.after, Dict.get?_set, if_neg hjk, hother]

theorem asks_serving (h : Sound sv) (hs : Steps py cfg sv o sv') {op : Op}
    (ha : Asks py cfg sv o k op) :
    sv'.exited = false ∧ Serving sv' k ∧ ∀ j, Serving sv j → Serving sv' j := by
  obtain ⟨uuid, value, session, he, hk, hi⟩ := ha
  exact request_serving h hs he hk (by rw [hi]; nofun)

theorem joins_serving (h : Sound sv) (hs : Steps py cfg sv o sv') {restore : Bool}
    (hj : Joins py cfg sv o k c restore) :
    sv'.exited = false ∧ Serving sv' k ∧ ∀ j, Serving sv j → Serving sv' j := by
  obtain ⟨uuid, value, session, he, hk, hi⟩ := hj
  exact request_serving h hs he hk (by rw [hi]; nofun)

variable (cfg) in
theorem can_ask {name : String} {verb : Verb} {args : List Arg} {op : Op}
    (hlive : sv.exited = false) (hserving : Serving sv k) (hid : idOf sv k = some c)
    (hverb : Verb.named (py.lower name) = verb) (hconn : verb ≠ .conn) (hpass : verb ≠ .pass)
    (hop : operationOf py c verb args = some op) (reading : Nat → Time) :
    ∃ event writes sv', Steps py cfg sv ⟨event, reading, writes⟩ sv' ∧
      Asks py cfg sv ⟨event, reading, writes⟩ k op := by
  obtain ⟨session, hk, hserved⟩ := hserving
  have hc : session.clientId = some c := by
    rw [idOf, hk] at hid
    exact hid
  obtain ⟨uuid, hfresh⟩ := exists_fresh sv
  obtain ⟨writes, sv', hs⟩ := steps_command py cfg hlive hk hserved hfresh
    (.bytes (encode name) :: args) reading
  refine ⟨_, writes, sv', hs, uuid, _, session, rfl, hk, ?_⟩
  rw [intent_verb cfg hc hverb hconn hpass, hop]
  rfl

theorem can_acquire (hlive : sv.exited = false) (hserving : Serving sv k) (hid : idOf sv k = some c)
    (hl : l ≠ "") (reentrant : Bool) (reading : Nat → Time) :
    ∃ event writes sv', Steps py cfg sv ⟨event, reading, writes⟩ sv' ∧
      Asks py cfg sv ⟨event, reading, writes⟩ k (.acquire c l reentrant) := by
  have htext : oneText [.bytes (encode l)] = some l := oneText_words hl
  cases reentrant with
  | false =>
    exact can_ask cfg hlive hserving hid (verb_aq py) (by decide) (by decide)
      (by rw [operationOf, htext, Option.map_some]) reading
  | true =>
    have hverb : Verb.named (py.lower "AQR") = .aqr := named_lower py rfl (by decide +kernel)
    exact can_ask cfg hlive hserving hid hverb (by decide) (by decide)
      (by rw [operationOf, htext, Option.map_some]) reading

variable (py cfg) in
theorem can_join (hlive : sv.exited = false) (hserving : Serving sv k) (c : ClientId)
    (reading : Nat → Time) :
    ∃ event writes sv', Steps py cfg sv ⟨event, reading, writes⟩ sv' ∧
      Joins py cfg sv ⟨event, reading, writes⟩ k c true := by
  obtain ⟨session, hk, hserved⟩ := hserving
  obtain ⟨uuid, hfresh⟩ := exists_fresh sv
  obtain ⟨writes, sv', hs⟩ := steps_command py cfg hlive hk hserved hfresh
    [.bytes (encode "CONN"), .bytes (encode c.name)] reading
  exact ⟨_, writes, sv', hs, uuid, _, session, rfl, hk, intent_conn py cfg session uuid c⟩

variable (py cfg) in
theorem can_lose (hlive : sv.exited = false) (hserving : Serving sv k) (reading : Nat → Time) :
    ∃ sv', Steps py cfg sv ⟨.lost k, reading, []⟩ sv' ∧ sv'.exited = false ∧
      ∀ j, j ≠ k → Serving sv j → Serving sv' j := by
  obtain ⟨session, hk, -⟩ := hserving
  have hother : ∀ (a : StorageAdaptor) j, j ≠ k → Serving sv j →
      Serving { sv with adaptor := a, connections := sv.connections.erase k } j := by
    rintro a j hj ⟨other, hother, hok⟩
    refine ⟨other, ?_, hok⟩
    rw [Dict.get?_erase, if_neg hj, hother]
  cases hlost : connectionLost py sv.adaptor ⟨reading, 0⟩ session with
  | error e =>
    refine ⟨{ sv with connections := sv.connections.erase k }, ?_, hlive, hother sv.adaptor⟩
    simp [Steps, Server.step, Occurrence.clk, hlive, hk, hlost]
  | ok p =>
    refine ⟨{ sv with adaptor := p.1, connections := sv.connections.erase k }, ?_, hlive, hother p.1⟩
    simp [Steps, Server.step, Occurrence.clk, hlive, hk, hlost]

theorem asks_text {reentrant : Bool} (ha : Asks py cfg sv o k (.acquire c l reentrant)) :
    ∃ args, oneText args = some l := by
  obtain ⟨uuid, value, session, -, -, hi⟩ := ha
  obtain ⟨c', verb, args, -, hop⟩ := intent_operation hi
  refine ⟨args, ?_⟩
  cases verb with
  | aq | aqr =>
    obtain ⟨l', hl', he⟩ := Option.map_eq_some_iff.mp hop
    cases he
    exact hl'
  | release | locked | find | sigset | sigexists | sigdel =>
    obtain ⟨_, -, he⟩ := Option.map_eq_some_iff.mp hop
    cases he
  | _ => cases hop

theorem graceTime_default (s : InMemoryLockStorage) :
    s.graceTime (some StorageAdaptor.defaultReleaseAllTimeout) =
      StorageAdaptor.defaultReleaseAllTimeout := by
  have hne : StorageAdaptor.defaultReleaseAllTimeout ≠ 0 := by decide +kernel
  rw [InMemoryLockStorage.graceTime, if_neg hne]

theorem joins_lease (h : Sound sv) (hs : Steps py cfg sv o sv') {restore : Bool}
    (hj : Joins py cfg sv o k c restore) (l : LockId) :
    leaseOf sv' l = if restore then Lease.stamp c none (leaseOf sv l) else leaseOf sv l := by
  obtain ⟨session, -, hstore, -⟩ := joins_effect h hs hj
  rw [leaseOf, hstore, lease_joined h.rep]
  rfl

theorem joins_address (h : Sound sv) (hs : Steps py cfg sv o sv') {restore : Bool}
    (hj : Joins py cfg sv o k c restore) (c' : ClientId) : sv'.adaptor.getClientLastAddress c' =
      if c' = c then peerOf sv k else sv.adaptor.getClientLastAddress c' := by
  obtain ⟨session, hk, hstore, -⟩ := joins_effect h hs hj
  rw [StorageAdaptor.getClientLastAddress, hstore, address_joined, peerOf, hk]
  rfl

/-- Each event is one act on the lease of each lock. -/
theorem event_lease (h : Sound sv) (hs : Steps py cfg sv o sv') (l : LockId) :
    ∃ act, Cause py cfg sv o l act ∧ Lease.Step (leaseOf sv l) act (leaseOf sv' l) := by
  cases step_change h hs with
  | connect => exact ⟨.idle, .idle, .idle _⟩
  | command k uuid value session t he hw hk hserving hfresh ht hdoes =>
    cases hi : intent py cfg session uuid value with
    | nothing =>
      obtain ⟨hstore, -⟩ := quiet_effect h hs he hk hi
      refine ⟨.idle, .idle, ?_⟩
      rw [leaseOf, leaseOf, hstore]
      exact .idle _
    | conn c restore =>
      have hj : Joins py cfg sv o k c restore := ⟨uuid, value, session, he, hk, hi⟩
      rw [joins_lease h hs hj]
      cases restore with
      | false => exact ⟨.idle, .idle, .idle _⟩
      | true => exact ⟨.resume c, .joined hj, .resume c _⟩
    | operation op => exact asks_lease h hs ⟨uuid, value, session, he, hk, hi⟩ l
  | lost => exact ⟨.idle, .idle, .idle _⟩
  | lostLast k session c he _ hk hc hlast =>
    refine ⟨_, .lost ⟨he, session, hk, hc, hlast⟩, ?_⟩
    rw [leaseOf, leaseOf, lease_releaseAll h.rep, h.releaseAllTimeout, graceTime_default]
    exact .suspend c _ _
  | maintenance timeoutMs shuffle store clk he _ heff =>
    obtain ⟨act, hact, hstep⟩ := heff.act l
    refine ⟨act, ?_, hstep⟩
    cases hact with
    | elsewhere | passed => exact .idle
    | swept _ _ n => exact .swept n he

theorem unmarked_step (h : Sound sv) (hs : Steps py cfg sv o sv')
    (hl : leaseOf sv l = some ⟨c, none⟩) : leaseOf sv' l = some ⟨c, none⟩ ∨
      (∃ k, Asks py cfg sv o k (.release c l) ∧ Answers o true) ∨ ∃ k, Drops sv o k c := by
  obtain ⟨act, hcause, hstep⟩ := event_lease h hs l
  rw [hl] at hstep
  obtain ⟨hy, -⟩ | ⟨d, rfl, -⟩ | ⟨-, hy⟩ | rfl | ⟨d, now, hm, -⟩ := Lease.step_held hstep
  · exact .inl hy
  · cases hcause with
    | lost hd => exact .inr (.inr ⟨_, hd⟩)
  · exact .inl hy
  · cases hcause with
    | released ha hans => exact .inr (.inl ⟨_, ha, hans⟩)
  · cases hm

theorem drops_effect (h : Sound sv) (hs : Steps py cfg sv o sv') (hd : Drops sv o k c) (l : LockId) :
    leaseOf sv' l =
      Lease.stamp c (some (o.reading 0 + StorageAdaptor.defaultReleaseAllTimeout)) (leaseOf sv l) := by
  obtain ⟨he, session, hk, hc, hlast⟩ := hd
  cases step_change h hs with
  | lost k' session' he' _ hk' hother =>
    cases he.symm.trans he'
    cases hk.symm.trans hk'
    obtain ⟨hpeer, hnone⟩ := hother c hc
    exact absurd hlast (not_or.mpr ⟨hpeer, hnone⟩)
  | lostLast k' session' c' he' _ hk' hc' =>
    cases he.symm.trans he'
    cases hk.symm.trans hk'
    cases hc.symm.trans hc'
    rw [leaseOf, leaseOf, lease_releaseAll h.rep, h.releaseAllTimeout, graceTime_default]
    rfl
  | connect _ he' | command _ _ _ _ _ he' | maintenance _ _ _ _ he' => cases he.symm.trans he'

theorem lost_cases (he : o.event = .lost k) (hc : idOf sv k = some c) : Drops sv o k c ∨
    (sv.adaptor.getClientLastAddress c ≠ none ∧ sv.adaptor.getClientLastAddress c ≠ peerOf sv k) := by
  obtain ⟨session, hk, hid⟩ := Option.bind_eq_some_iff.mp hc
  have hpeer : peerOf sv k = some session.peername := by rw [peerOf, hk]; rfl
  rw [hpeer]
  by_cases hlast : sv.adaptor.getClientLastAddress c = some session.peername ∨
      sv.adaptor.getClientLastAddress c = none
  · exact .inl ⟨he, session, hk, hid, hlast⟩
  · exact .inr ⟨fun hn => hlast (.inr hn), fun hp => hlast (.inl hp)⟩

/-- Deadlines are positive, so none of them is the falsy zero. -/
def Positive (sv : Server) : Prop := ∀ l c d, leaseOf sv l = some ⟨c, some d⟩ → 0 < d

theorem positive_step (hs : Steps py cfg sv o sv') (h : Sound sv) (hclk : 0 ≤ o.reading 0)
    (hpos : Positive sv) : Positive sv' := by
  intro l c d hl
  obtain ⟨act, hcause, hstep⟩ := event_lease h hs l
  rw [hl] at hstep
  obtain hx | ⟨hm, -⟩ | ⟨d', _, rfl, -, hd⟩ | ⟨-, hm⟩ := Lease.step_owned hstep
  · exact hpos l c d hx
  · cases hm
  · cases hd
    cases hcause with
    | lost =>
      have hdefault : (0 : Time) < StorageAdaptor.defaultReleaseAllTimeout := by decide +kernel
      exact add_pos_of_nonneg_of_pos hclk hdefault
  · cases hm

theorem positive_run {T : Time} {es : List Occurrence} (h : Run (Steps py cfg) (.start T) es sv)
    (hclk : ∀ o ∈ es, 0 ≤ o.reading 0) : Positive sv := by
  refine (h.invariant (I := fun sv => Sound sv ∧ Positive sv) ⟨sound_start T, nofun⟩ ?_).2
  rintro v e w he ⟨hv, hpos⟩ hs
  exact ⟨sound_step hv hs, positive_step hs hv (hclk e he) hpos⟩

theorem idOf_erase (sv : Server) (a : StorageAdaptor) (k j : ConnId) :
    idOf { sv with adaptor := a, connections := sv.connections.erase k } j =
      if j = k then none else idOf sv j := by
  unfold idOf
  rw [Dict.get?_erase]
  split <;> rfl

theorem joins_unique {k' : ConnId} {c' : ClientId} {r r' : Bool} (h : Joins py cfg sv o k c r)
    (h' : Joins py cfg sv o k' c' r') : k = k' ∧ c = c' ∧ r = r' := by
  obtain ⟨uuid, value, session, he, hk, hi⟩ := h
  obtain ⟨_, _, _, he', hk', hi'⟩ := h'
  cases he.symm.trans he'
  cases hk.symm.trans hk'
  cases hi.symm.trans hi'
  exact ⟨rfl, rfl, rfl⟩

theorem intent_uuid {session : Session} {uuid : ClientId} {value : List Arg}
    (h : intent py cfg session uuid value = .conn c false) : c = uuid := by
  have hconn : ∀ args, connIntent uuid args = .conn c false → c = uuid := by
    intro args hc
    unfold connIntent at hc
    split at hc
    · cases hc
      rfl
    split at hc
    · split at hc <;> cases hc
    · cases hc
  have hverb : ∀ verb args, verbIntent py session uuid verb args = .conn c false → c = uuid := by
    intro verb args hc
    unfold verbIntent at hc
    split at hc
    · exact hconn args hc
    split at hc
    · cases hc
    · next c' _ => cases hop : operationOf py c' verb args <;> rw [hop] at hc <;> cases hc
  unfold intent at h
  split at h
  · cases h
  split at h
  · cases h
  simp only at h
  split at h
  · split at h
    · exact hverb _ _ h
    · cases h
  · exact hverb _ _ h

theorem fresh_lease (hf : sv.fresh c = true) (l : LockId) (m : Option Time) :
    leaseOf sv l ≠ some ⟨c, m⟩ := by
  intro hl
  rw [Server.fresh, Bool.and_eq_true, Bool.and_eq_true] at hf
  have hmem := (Dict.mem_items _ l c).mpr (lease_some hl).1
  simpa using List.all_eq_true.mp hf.1.2 (l, c) hmem

theorem joins_new (h : Sound sv) (hs : Steps py cfg sv o sv') (hj : Joins py cfg sv o k c false)
    (l : LockId) (m : Option Time) : leaseOf sv l ≠ some ⟨c, m⟩ := by
  obtain ⟨uuid, value, session, he, -, hi⟩ := hj
  obtain rfl := intent_uuid hi
  obtain ⟨_, _, -, -, -, -, hfresh, -⟩ := command_change h hs he
  exact fresh_lease hfresh l m

theorem idOf_connect (h : Sound sv) (peername : Address) (j : ConnId) :
    idOf { sv with
      connections := sv.connections.set sv.accepted { peername := peername }
      accepted := sv.accepted + 1 } j = idOf sv j := by
  unfold idOf
  rw [Dict.get?_set]
  split
  · next hj =>
    cases ho : sv.connections.get? j with
    | none => rfl
    | some session => exact absurd hj (h.older j session ho).ne
  · rfl

variable (py cfg) in
/-- How one event changes who acts for whom, and the last known addresses. -/
inductive Moves (sv : Server) (o : Occurrence) (sv' : Server) : Prop
  | joined (k : ConnId) (c : ClientId) (restore : Bool) : Joins py cfg sv o k c restore →
      (∀ j, idOf sv' j = if j = k then some c else idOf sv j) →
      (∀ c', sv'.adaptor.getClientLastAddress c' =
        if c' = c then peerOf sv k else sv.adaptor.getClientLastAddress c') → Moves sv o sv'
  | lost (k : ConnId) : o.event = .lost k →
      (∀ j, idOf sv' j = if j = k then none else idOf sv j) →
      (∀ c, sv'.adaptor.getClientLastAddress c = sv.adaptor.getClientLastAddress c) → Moves sv o sv'
  | stays : (∀ k c restore, ¬ Joins py cfg sv o k c restore) → (∀ k, o.event ≠ .lost k) →
      (∀ j, idOf sv' j = idOf sv j) →
      (∀ c, sv'.adaptor.getClientLastAddress c = sv.adaptor.getClientLastAddress c ∨
        sv'.adaptor.getClientLastAddress c = none) → Moves sv o sv'

theorem event_moves (h : Sound sv) (hs : Steps py cfg sv o sv') :
    Moves py cfg sv o sv' := by
  have hjoins : ∀ {k c restore}, Joins py cfg sv o k c restore →
      ∃ uuid value, o.event = .command k uuid value := by
    rintro k c restore ⟨uuid, value, _, he, -⟩
    exact ⟨uuid, value, he⟩
  cases step_change h hs with
  | connect peername he =>
    refine .stays (fun k c r hj => ?_) (fun k hl => ?_) (idOf_connect h peername) fun c => .inl rfl
    · obtain ⟨_, _, he'⟩ := hjoins hj
      cases he.symm.trans he'
    · cases he.symm.trans hl
  | command k uuid value session t he hw hk hserving hfresh ht hdoes =>
    have hlost : ∀ j, o.event ≠ .lost j := fun j hl => by cases he.symm.trans hl
    cases hi : intent py cfg session uuid value with
    | nothing =>
      obtain ⟨hstore, hid⟩ := quiet_effect h hs he hk hi
      refine .stays (fun j c r hj => ?_) hlost hid fun c => .inl ?_
      · obtain ⟨_, _, _, he', hk', hi'⟩ := hj
        cases he.symm.trans he'
        cases hk.symm.trans hk'
        cases hi.symm.trans hi'
      · rw [StorageAdaptor.getClientLastAddress, hstore]
        rfl
    | conn c restore =>
      have hj : Joins py cfg sv o k c restore := ⟨uuid, value, session, he, hk, hi⟩
      obtain ⟨-, -, -, hid⟩ := joins_effect h hs hj
      exact .joined k c restore hj hid (joins_address h hs hj)
    | operation op =>
      obtain ⟨answer, clk, -, heff, -, ⟨c, -, hasked⟩, hid⟩ :=
        asks_effect h hs ⟨uuid, value, session, he, hk, hi⟩
      refine .stays (fun j c r hj => ?_) hlost hid fun c' => ?_
      · obtain ⟨_, _, _, he', hk', hi'⟩ := hj
        cases he.symm.trans he'
        cases hk.symm.trans hk'
        cases hi.symm.trans hi'
      · obtain ha | ha | ⟨a, rfl, -⟩ := heff.address c'
        · exact .inl ha
        · exact .inr ha
        · exact hasked.elim
  | lost k session he => exact .lost k he (idOf_erase sv sv.adaptor k) fun c => rfl
  | lostLast k session c he => exact .lost k he (idOf_erase sv _ k) fun c' => rfl
  | maintenance timeoutMs shuffle store clk he _ heff =>
    refine .stays (fun k c r hj => ?_) (fun k hl => ?_) (fun j => rfl) fun c => ?_
    · obtain ⟨_, _, he'⟩ := hjoins hj
      cases he.symm.trans he'
    · cases he.symm.trans hl
    · obtain ha | ha | ⟨a, ha, -⟩ := heff.address c
      · exact .inl ha
      · exact .inr ha
      · cases ha

/-- A connection gets an id by a `CONN` of its own. -/
theorem moved_id (h : Sound sv) (hs : Steps py cfg sv o sv') {j : ConnId} {c : ClientId}
    (hj : idOf sv' j = some c) : idOf sv j = some c ∨ ∃ restore, Joins py cfg sv o j c restore := by
  cases event_moves h hs with
  | joined k c' restore hjoin hids =>
    rw [hids] at hj
    split at hj
    · next hjk =>
      obtain rfl := Option.some_inj.mp hj
      subst hjk
      exact .inr ⟨restore, hjoin⟩
    · exact .inl hj
  | lost k _ hids =>
    rw [hids] at hj
    split at hj
    · cases hj
    · exact .inl hj
  | stays _ _ hids =>
    rw [hids] at hj
    exact .inl hj

theorem event_peer (h : Sound sv) (hs : Steps py cfg sv o sv') {j : ConnId}
    (hj : idOf sv' j ≠ none) : peerOf sv' j = peerOf sv j := by
  have herase : ∀ (a : StorageAdaptor) (k : ConnId),
      idOf { sv with adaptor := a, connections := sv.connections.erase k } j ≠ none →
        peerOf { sv with adaptor := a, connections := sv.connections.erase k } j = peerOf sv j := by
    intro a k hne
    rw [idOf_erase] at hne
    rw [peerOf, peerOf, Dict.get?_erase]
    by_cases hjk : j = k
    · exact absurd (if_pos hjk) hne
    · rw [if_neg hjk]
  cases step_change h hs with
  | connect peername =>
    rw [idOf_connect h] at hj
    have hne : j ≠ sv.accepted := by
      rintro rfl
      cases ho : sv.connections.get? sv.accepted with
      | none => simp [idOf, ho] at hj
      | some session => exact absurd (h.older _ session ho) (lt_irrefl _)
    simp only [peerOf, Dict.get?_set, if_neg hne]
  | command k uuid value session t _ _ hk _ _ _ hdoes =>
    obtain ⟨-, hp, -⟩ := opened_session cfg sv.adaptor o.clk session
    obtain ⟨ha, -⟩ := opened_adaptor cfg sv.adaptor o.clk session
    obtain ⟨-, -, -, hpeer, -⟩ := hdoes.frame (by rw [ha]; exact h.rep)
      (by rw [ha]; exact h.killActive (steps_live hs))
    simp only [peerOf, Server.after, Dict.get?_set]
    by_cases hjk : j = k
    · rw [if_pos hjk, hjk, hk]
      exact congrArg some (hpeer.trans hp)
    · rw [if_neg hjk]
  | lost k => exact herase sv.adaptor k hj
  | lostLast k => exact herase _ k hj
  | maintenance => rfl

end Livelock.ServerLease
