import Livelock.ServerRun
import Livelock.StorageTable
import Livelock.Ascii

namespace Livelock.ErrorAnswers

open Livelock.Lib Livelock.Shared Livelock.MemoryStorage Livelock.StorageInvariant
open Livelock.StorageLease Livelock.StorageRun Livelock.StorageTable Livelock.Server
open Livelock.CommandSpec Livelock.ServerRun Livelock.Ascii

variable {py : Builtins} {cfg : Config}

def AnswersError (writes : List Write) : Prop := ∃ code, Write.reply (.error code) ∈ writes

def identity (sv : Server) (k : ConnId) : Option (Option ClientId × Option String × Bool) :=
  (sv.connections.get? k).map fun session => (session.clientId, session.clientInfo, session.authorized)

/-- The session of the connection and the storage are as before. -/
structure Unchanged (k : ConnId) (sv sv' : Server) : Prop where
  identity : identity sv' k = identity sv k
  table : holding sv'.adaptor.store = holding sv.adaptor.store
  address : ∀ c, sv'.adaptor.getClientLastAddress c = sv.adaptor.getClientLastAddress c

/-- A `CONN` that goes through on a connection that has an id, and finds
something to change: the id, the recorded address, or marks on the locks. -/
def Renames (py : Builtins) (sv : Server) (session : Session) (verb : String) (args : List String) :
    Prop :=
  Verb.named (py.lower verb) = .conn ∧ ∃ c, session.clientId = some c ∧
    match args with
    | [] => True
    | id :: _ => id ≠ "" ∧ ¬ (id = c.name ∧
        sv.adaptor.getClientLastAddress c = some session.peername ∧
        ∀ l m, lease sv.adaptor.store l = some ⟨c, m⟩ → m = none)

variable {t t' : Turn} {op : Op} {s s' : InMemoryLockStorage} {clk clk' : Clock}

theorem exec_keyNotExists
    (h : exec py.fnmatch op s clk = .ok (.signal .keyNotExists, s', clk')) : s' = s := by
  cases op with
  | acquire | release | locked | maintenance =>
    simp only [exec, bind, Except.bind] at h
    split at h <;> cases h
  | releaseAll | unreleaseAll | setClientLastAddress | find => cases h
  | hasSignal l signal =>
    simp only [exec, Except.ok.injEq, Prod.mk.injEq] at h
    exact h.2.1.symm
  | addSignal l signal =>
    simp only [exec, Except.ok.injEq, Prod.mk.injEq, Answer.signal.injEq] at h
    obtain ⟨hanswer, rfl, -⟩ := h
    unfold InMemoryLockStorage.addSignal at hanswer ⊢
    split at hanswer
    · rfl
    · cases hanswer
  | removeSignal l signal =>
    simp only [exec, Except.ok.injEq, Prod.mk.injEq, Answer.signal.injEq] at h
    obtain ⟨hanswer, rfl, -⟩ := h
    unfold InMemoryLockStorage.removeSignal at hanswer ⊢
    split at hanswer
    · rfl
    split at hanswer
    · cases hanswer
    split at hanswer <;> cases hanswer

def Clean (t : Turn) : Prop := ¬ AnswersError t.writes

theorem answer_error {answer : Answer} (ht : Clean t)
    (h : AnswersError (Turn.answer answer t).writes) : answer = .signal .keyNotExists := by
  have hreply : ∀ b, ¬ AnswersError (t.reply (.bool b)).writes := by
    rintro b ⟨code, hc⟩
    obtain hc | hc := List.mem_append.mp hc
    · exact ht ⟨code, hc⟩
    · simp at hc
  cases answer with
  | none => exact absurd h ht
  | bool b => exact absurd h (hreply b)
  | found locks =>
    obtain ⟨code, hc⟩ := h
    obtain hc | hc := List.mem_append.mp hc
    · exact absurd ⟨code, hc⟩ ht
    · simp at hc
  | signal a =>
    cases a with
    | bool b => exact absurd h (hreply b)
    | keyNotExists => rfl

def Keeps (t t' : Turn) : Prop := t'.session = t.session ∧ t'.adaptor.store = t.adaptor.store

theorem call_error (ht : Clean t) {result : Except Raised (Answer × StorageAdaptor × Clock)}
    (hresult : result = t.adaptor.guarded py t.clk op ∨ result = t.adaptor.unguarded py t.clk op)
    (h : AnswersError (t.call result Turn.answer).writes) : Keeps t (t.call result Turn.answer) := by
  cases hr : result with
  | error e =>
    rw [hr] at h
    exact absurd h ht
  | ok r =>
    obtain ⟨answer, adaptor, clk⟩ := r
    rw [hr] at h hresult
    have hanswer : answer = .signal .keyNotExists :=
      answer_error (t := { t with adaptor := adaptor, clk := clk }) ht h
    have hun : t.adaptor.unguarded py t.clk op = .ok (answer, adaptor, clk) := by
      obtain hg | hg := hresult
      · rw [StorageAdaptor.guarded] at hg
        split at hg
        · cases hg
        · exact hg.symm
      · exact hg.symm
    refine ⟨answer_session _ _, ?_⟩
    rw [Turn.call, answer_adaptor]
    rw [StorageAdaptor.unguarded, hanswer] at hun
    cases hexec : exec py.fnmatch op t.adaptor.store t.clk with
    | error e =>
      rw [hexec] at hun
      cases hun
    | ok r =>
      obtain ⟨answer', store, clk'⟩ := r
      rw [hexec] at hun
      cases hun
      exact exec_keyNotExists hexec

theorem keeps_reply (t : Turn) (content : Content) : Keeps t (t.reply content) := ⟨rfl, rfl⟩

theorem find_error (ht : Clean t) (c : ClientId) (args : List Arg)
    (herr : AnswersError (t.serve py cfg c .find args).writes) :
    Keeps t (t.serve py cfg c .find args) := by
  match args with
  | [] | _ :: _ :: _ => exact keeps_reply t _
  | [arg] =>
    simp only [Turn.serve] at herr ⊢
    by_cases htr : arg.truthy
    · rw [if_pos htr] at herr ⊢
      cases hd : arg.decode with
      | none => exact ⟨rfl, rfl⟩
      | some pattern =>
        simp only [hd] at herr
        exact call_error ht (.inr rfl) herr
    · rw [if_neg htr]
      exact keeps_reply t _

theorem serve_error (ht : Clean t) (c : ClientId) (verb : Verb) (args : List Arg)
    (herr : AnswersError (t.serve py cfg c verb args).writes) :
    Keeps t (t.serve py cfg c verb args) := by
  let Kept := fun t' : Turn => AnswersError t'.writes → Keeps t t'
  have hwrong : Kept (t.reply (.error .wrongArgs)) := fun _ => keeps_reply t _
  cases verb with
  | aq | aqr | release =>
    exact oneArg_cases (P := Kept) hwrong (fun _ => call_error ht (.inl rfl)) args herr
  | locked => exact oneArg_cases (P := Kept) hwrong (fun _ => call_error ht (.inr rfl)) args herr
  | sigset | sigdel =>
    exact twoArgs_cases (P := Kept) hwrong (fun _ _ => call_error ht (.inl rfl)) args herr
  | sigexists => exact twoArgs_cases (P := Kept) hwrong (fun _ _ => call_error ht (.inr rfl)) args herr
  | find => exact find_error ht c args herr
  | conninfo =>
    refine oneArg_cases (P := Kept) hwrong (fun clientInfo herr => ?_) args herr
    obtain ⟨code, hc⟩ := herr
    obtain hc | hc := List.mem_append.mp hc
    · exact absurd ⟨code, hc⟩ ht
    · simp at hc
  | ping | pass | conn | unknown => exact keeps_reply t _
  | stats | dump =>
    simp only [Turn.serve]
    split <;> exact ⟨rfl, rfl⟩
  | shutdown =>
    simp only [Turn.serve]
    split <;> exact ⟨rfl, rfl⟩

theorem received_dispatch {a : StorageAdaptor} (hk : a.killActive = false) {session : Session}
    (hopen : lockedOut cfg session = false) (clk : Clock) (uuid : ClientId) (verb : String)
    (args : List String) :
    onCommandReceived py cfg a clk session uuid (words (verb :: args)) =
      Turn.dispatch py cfg { adaptor := a, clk := clk, session := session } uuid
        (Verb.named (py.lower verb)) (words args) := by
  simp [onCommandReceived, processCommand, words, hk, decode_arg, hopen]

theorem dispatch_error (ht : Clean t) (uuid : ClientId) {verb : Verb} (hverb : verb ≠ .conn)
    (args : List Arg) (herr : AnswersError (t.dispatch py cfg uuid verb args).writes) :
    Keeps t (t.dispatch py cfg uuid verb args) := by
  unfold Turn.dispatch at herr ⊢
  rw [if_neg hverb] at herr ⊢
  cases hid : t.session.clientId with
  | none => exact keeps_reply t _
  | some c =>
    rw [hid] at herr
    exact serve_error ht c verb args herr

theorem mark_none_iff (s : InMemoryLockStorage) (c : ClientId) :
    (holding s).mark c none = holding s ↔ ∀ l m, lease s l = some ⟨c, m⟩ → m = none := by
  constructor
  · intro h l m hl
    rw [lease_holding] at hl
    obtain ⟨x, hx, he⟩ := Option.map_eq_some_iff.mp hl
    obtain ⟨rfl, rfl⟩ := Lease.mk.inj he
    have hmark := congrFun h l
    rw [Table.mark, hx, Option.map_some, if_pos rfl, Option.some_inj] at hmark
    rw [← hmark]
    rfl
  · intro h
    funext l
    cases hl : holding s l with
    | none => simp [Table.mark, hl]
    | some x =>
      by_cases ho : x.owner = c
      · have hm : x.info.markFreeAfter = none := h l _ (by rw [lease_holding, hl, ← ho]; rfl)
        obtain ⟨owner, info⟩ := x
        obtain ⟨id, time, m, signals⟩ := info
        cases hm
        simp [Table.mark, hl, Holding.marked]
      · simp [Table.mark, hl, ho]

theorem holding_joined (hs : Rep s) (c : ClientId) (restore : Bool) (peername : Address) :
    holding (joined s c restore peername) =
      if restore then (holding s).mark c none else holding s := by
  have hset : holding (joined s c restore peername) =
      holding (if restore then s.unreleaseAll c else s) := holding_congr rfl rfl rfl
  rw [hset]
  split
  · exact holding_unreleaseAll hs c
  · rfl

theorem joined_keeps (hs : Rep s) (c : ClientId) (restore : Bool) (peername : Address) :
    (holding (joined s c restore peername) = holding s ∧
      ∀ c', (joined s c restore peername).getClientLastAddress c' = s.getClientLastAddress c') ↔
    (restore = true → ∀ l m, lease s l = some ⟨c, m⟩ → m = none) ∧
      s.getClientLastAddress c = some peername := by
  refine and_congr ?_ ?_
  · rw [holding_joined hs]
    cases restore with
    | false => simp
    | true => simpa using mark_none_iff s c
  · constructor
    · intro h
      rw [← h c, address_joined, if_pos rfl]
    · intro h c'
      rw [address_joined]
      split
      · next hc => rw [hc, h]
      · rfl

def joins (t : Turn) (c : ClientId) (restore : Bool) : Turn :=
  { t with
    adaptor := { t.adaptor with store := joined t.adaptor.store c restore t.session.peername }
    session := { t.session with clientId := some c }
    writes := t.writes ++ (if t.session.clientId.isSome then [.reply (.error .connHasId)] else [])
      ++ [.reply (.text c.name)] }

variable (py) in
theorem conn_turn (hk : t.adaptor.killActive = false) (uuid : ClientId) (args : List String) :
    (∃ rest, args = "" :: rest ∧ Keeps t (t.conn py uuid (words args))) ∨
      (args = [] ∧ t.conn py uuid (words args) = joins t uuid false) ∨
      ∃ c rest, args = c.name :: rest ∧ t.conn py uuid (words args) = joins t c true := by
  have hdoes := conn_does py hk uuid (words args)
  cases args with
  | nil =>
    refine .inr (.inl ⟨rfl, ?_⟩)
    generalize t.conn py uuid (words []) = t' at hdoes
    cases hdoes
    rfl
  | cons id rest =>
    by_cases he : id = ""
    · subst he
      refine .inl ⟨rest, rfl, ?_⟩
      have htr : Arg.truthy (.bytes (encode "")) = false := by simp [Arg.truthy, encode_eq_nil]
      simp only [words, List.map_cons, Turn.conn, htr, Bool.false_eq_true, if_false]
      split <;> exact ⟨rfl, rfl⟩
    · refine .inr (.inr ⟨⟨id, he⟩, rest, rfl, ?_⟩)
      have htr : Arg.truthy (.bytes (encode id)) = true := by simp [Arg.truthy, encode_eq_nil, he]
      have hintent : connIntent uuid (words (id :: rest)) = .conn ⟨id, he⟩ true := by
        simp only [words, List.map_cons, connIntent, htr, if_true,
          clientId_encode (⟨id, he⟩ : ClientId)]
      rw [hintent] at hdoes
      generalize t.conn py uuid (words (id :: rest)) = t' at hdoes
      cases hdoes
      rfl

variable {sv sv' : Server} {o : Occurrence} {k : ConnId} {session : Session} {uuid : ClientId}

theorem keeps_unchanged (clk : Clock) (hk : sv.connections.get? k = some session) (t' : Turn)
    (h : Keeps { adaptor := sv.adaptor, clk := clk, session := session } t') :
    Unchanged k sv (sv.after k t') where
  identity := by
    simp only [identity, Server.after, Dict.get?_set_self, hk, Option.map_some, h.1]
  table := congrArg holding h.2
  address c := congrArg (fun s => InMemoryLockStorage.getClientLastAddress s c) h.2

theorem joins_unchanged (hs : Rep sv.adaptor.store) (hk : sv.connections.get? k = some session)
    (c : ClientId) (restore : Bool) :
    Unchanged k sv (sv.after k (joins { adaptor := sv.adaptor, clk := clk, session := session } c
      restore)) ↔
    session.clientId = some c ∧
      (restore = true → ∀ l m, lease sv.adaptor.store l = some ⟨c, m⟩ → m = none) ∧
      sv.adaptor.getClientLastAddress c = some session.peername := by
  have hjoined := joined_keeps hs c restore session.peername
  constructor
  · intro h
    have hid := h.identity
    simp only [identity, Server.after, Dict.get?_set_self, hk, Option.map_some, joins,
      Option.some.injEq, Prod.mk.injEq] at hid
    exact ⟨hid.1.symm, hjoined.mp ⟨h.table, h.address⟩⟩
  · rintro ⟨hid, hkeep⟩
    obtain ⟨htable, haddress⟩ := hjoined.mpr hkeep
    refine ⟨?_, htable, haddress⟩
    simp only [identity, Server.after, Dict.get?_set_self, hk, Option.map_some, joins, hid]

theorem joins_error (hid : session.clientId = none) (a : StorageAdaptor) (c : ClientId)
    (restore : Bool) :
    ¬ AnswersError (joins { adaptor := a, clk := clk, session := session } c restore).writes := by
  rintro ⟨code, hc⟩
  simp [joins, hid] at hc

theorem joins_connHasId {c : ClientId} (hid : session.clientId = some c) (a : StorageAdaptor)
    (clk : Clock) (c' : ClientId) (restore : Bool) :
    AnswersError (joins { adaptor := a, clk := clk, session := session } c' restore).writes :=
  ⟨.connHasId, by simp [joins, hid]⟩

theorem fresh_unused (h : sv.fresh uuid = true) (hk : sv.connections.get? k = some session) :
    session.clientId ≠ some uuid := by
  simp only [Server.fresh, Bool.and_eq_true, List.all_eq_true, decide_eq_true_eq] at h
  exact h.1.1 (k, session) ((Dict.mem_items _ k session).mpr hk)

/-- On a connection that the server listens to, a command answered with an
error changes nothing, except a `CONN` that renames the connection. -/
theorem error_changes_nothing {T : Time} {es : List Occurrence} {verb : String} {args : List String}
    (hrun : Run (Steps py cfg) (.start T) es sv) (hs : Steps py cfg sv o sv')
    (hevent : o.event = .command k uuid (words (verb :: args)))
    (hk : sv.connections.get? k = some session) (hopen : lockedOut cfg session = false) :
    (AnswersError o.writes → Unchanged k sv sv') ↔ ¬ Renames py sv session verb args := by
  have hsound := sound_run hrun (sound_start T)
  have hkill := hsound.killActive (steps_live hs)
  obtain ⟨session', t, hk', rfl, hw, -, hfresh, ht, -⟩ := command_change hsound hs hevent
  cases hk.symm.trans hk'
  rw [received_dispatch hkill hopen] at ht
  rw [hw]
  by_cases hverb : Verb.named (py.lower verb) = .conn
  · rw [hverb, Turn.dispatch, if_pos rfl] at ht
    obtain ⟨rest, rfl, hkeeps⟩ | ⟨rfl, hturn⟩ | ⟨c', rest, rfl, hturn⟩ := conn_turn py
      (t := { adaptor := sv.adaptor, clk := o.clk, session := session }) hkill uuid args
    · rw [← ht] at hkeeps
      refine iff_of_true (fun _ => keeps_unchanged o.clk hk t hkeeps) ?_
      rintro ⟨-, c, -, hne, -⟩
      exact hne rfl
    · rw [hturn] at ht
      subst ht
      cases hid : session.clientId with
      | none => simp [joins_error hid, Renames, hid]
      | some c =>
        have herr := joins_connHasId hid sv.adaptor o.clk uuid false
        have hne := fresh_unused hfresh hk
        rw [hid] at hne
        simp [joins_unchanged hsound.rep hk, Renames, hid, herr, hverb, hne]
    · rw [hturn] at ht
      subst ht
      cases hid : session.clientId with
      | none => simp [joins_error hid, Renames, hid]
      | some c =>
        have herr := joins_connHasId hid sv.adaptor o.clk c' true
        rw [joins_unchanged hsound.rep hk]
        constructor
        · rintro h ⟨-, c₁, hc₁, -, hnot⟩
          cases hid.symm.trans hc₁
          obtain ⟨hown, hmark, haddress⟩ := h herr
          cases hid.symm.trans hown
          exact hnot ⟨rfl, haddress, hmark rfl⟩
        · intro h _
          by_contra hnot
          refine h ⟨hverb, c, hid, c'.nonempty, fun ⟨hname, haddress, hmark⟩ => hnot ?_⟩
          obtain rfl : c' = c := ClientId.ext hname
          exact ⟨hid, fun _ => hmark, haddress⟩
  · refine iff_of_true (fun herr => keeps_unchanged o.clk hk t ?_) fun h => hverb h.1
    rw [ht] at herr ⊢
    exact dispatch_error (by rintro ⟨code, hc⟩; cases hc) uuid hverb _ herr

def probe (py : Builtins) (first : List (List Arg)) (value : List Arg) :
    Option (Server × Server × List Write) :=
  ((allAt 0 (.connect ⟨"10.0.0.1", 40001⟩ :: first.map fun value => .command 0 carol value)).foldlM
    (Server.next py plainConfig) (.start 5)).bind fun sv =>
      (sv.step py plainConfig (.command 0 carol value) ⟨fun _ => 0, 0⟩).map fun r => (sv, r.1, r.2)

def outcome (p : Server × Server × List Write) : Option ClientId × Option ClientId × Bool :=
  (((identity p.1 0).bind fun session => session.1), ((identity p.2.1 0).bind fun session => session.1),
    p.2.2.any fun write => match write with | .reply (.error _) => true | _ => false)

theorem probe_run {first : List (List Arg)} {value : List Arg} {id id' : Option ClientId}
    (h : (probe ascii first value).map outcome = some (id, id', true)) :
    ∃ es sv o sv' session, Run (Steps ascii plainConfig) (.start 5) es sv ∧
      Steps ascii plainConfig sv o sv' ∧ o.event = .command 0 carol value ∧
      sv.connections.get? 0 = some session ∧ AnswersError o.writes ∧
      ((identity sv 0).bind fun session => session.1) = id ∧
      ((identity sv' 0).bind fun session => session.1) = id' := by
  obtain ⟨p, hp, hout⟩ := Option.map_eq_some_iff.mp h
  obtain ⟨sv, hsv, hr⟩ := Option.bind_eq_some_iff.mp hp
  obtain ⟨⟨sv', writes⟩, hstep, he⟩ := Option.map_eq_some_iff.mp hr
  cases he
  obtain ⟨hid, hid', herr⟩ : _ ∧ _ ∧ _ := by simpa [outcome] using hout
  obtain ⟨es, hrun, -⟩ := play_run hsv
  have hs : Steps ascii plainConfig sv ⟨.command 0 carol value, fun _ => 0, writes⟩ sv' := hstep
  obtain ⟨session, hk⟩ := steps_session (sound_run hrun (sound_start 5)) hs rfl
  refine ⟨es, sv, _, sv', session, hrun, hs, rfl, hk, ?_, hid, hid'⟩
  obtain ⟨write, hmem, hwrite⟩ := herr
  cases write with
  | data => cases hwrite
  | reply content =>
    cases content with
    | bool | text => cases hwrite
    | error code => exact ⟨code, hmem⟩

theorem error_changes_nothing_unknown : ∃ sv o sv', Steps ascii plainConfig sv o sv' ∧
    AnswersError o.writes ∧ Unchanged 0 sv sv' := by
  have heval : (probe ascii [] (words ["PING"])).map outcome = some (none, none, true) := by
    decide +kernel
  obtain ⟨es, sv, o, sv', session, hrun, hs, he, hk, herr, -⟩ := probe_run heval
  have hping : ¬ Renames ascii sv session "PING" [] := by
    rintro ⟨h, -⟩
    exact absurd h (by decide +kernel)
  exact ⟨sv, o, sv', hs, herr, (error_changes_nothing hrun hs he hk rfl).mpr hping herr⟩

/-- A second `CONN` is answered with `CONN_HAS_ID_ERROR` and then obeyed. -/
theorem error_renames : ¬ ∀ es sv o sv' k uuid session verb args,
    Run (Steps ascii plainConfig) (.start 5) es sv → Steps ascii plainConfig sv o sv' →
    o.event = .command k uuid (words (verb :: args)) → sv.connections.get? k = some session →
    lockedOut plainConfig session = false → AnswersError o.writes → Unchanged k sv sv' := by
  intro h
  have heval : (probe ascii [words ["CONN", "alice"]] (words ["CONN", "bob"])).map outcome =
      some (some alice, some bob, true) := by decide +kernel
  obtain ⟨es, sv, o, sv', session, hrun, hs, he, hk, herr, hid, hid'⟩ := probe_run heval
  have hsame := (h es sv o sv' 0 carol session "CONN" ["bob"] hrun hs he hk rfl herr).identity
  rw [hsame, hid] at hid'
  exact absurd hid' (by decide)

end Livelock.ErrorAnswers
