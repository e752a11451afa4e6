import Livelock.Server

namespace Livelock.CommandSpec

open Livelock.Lib Livelock.Shared Livelock.MemoryStorage Livelock.StorageInvariant
open Livelock.StorageLease Livelock.StorageRun Livelock.Server

variable (py : Builtins) (cfg : Config)

/-- What a request asks of the storage once its own checks are passed. -/
inductive Intent
  | nothing
  | conn (clientId : ClientId) (restore : Bool)
  | operation (op : Op)

def asked : Option Op → Intent
  | none => .nothing
  | some op => .operation op

def operationOf (clientId : ClientId) (verb : Verb) (args : List Arg) : Option Op :=
  match verb with
  | .aq => (oneText args).map fun lockId => .acquire clientId lockId false
  | .aqr => (oneText args).map fun lockId => .acquire clientId lockId true
  | .release => (oneText args).map fun lockId => .release clientId lockId
  | .locked => (oneText args).map fun lockId => .locked lockId
  | .find => (oneText args).map fun pattern => .find pattern
  | .sigset => (twoTexts args).map fun p => .addSignal p.1 (py.lower p.2)
  | .sigexists => (twoTexts args).map fun p => .hasSignal p.1 (py.lower p.2)
  | .sigdel => (twoTexts args).map fun p => .removeSignal p.1 (py.lower p.2)
  | _ => none

def connIntent (uuid : ClientId) (args : List Arg) : Intent :=
  match args with
  | [] => .conn uuid false
  | arg :: _ =>
    if arg.truthy then
      match arg.clientId with
      | none => .nothing
      | some clientId => .conn clientId true
    else .nothing

def verbIntent (session : Session) (uuid : ClientId) (verb : Verb) (args : List Arg) : Intent :=
  if verb = .conn then connIntent uuid args
  else
    match session.clientId with
    | none => .nothing
    | some clientId => asked (operationOf py clientId verb args)

def intent (session : Session) (uuid : ClientId) (value : List Arg) : Intent :=
  match value with
  | [] => .nothing
  | command :: args =>
    match command.decode with
    | none => .nothing
    | some name =>
      let verb := Verb.named (py.lower name)
      if lockedOut cfg session then
        match checkPassword cfg verb args with
        | .refused => verbIntent py session uuid verb args
        | _ => .nothing
      else verbIntent py session uuid verb args

theorem verbIntent_operation {py : Builtins} {session : Session} {uuid : ClientId} {verb : Verb}
    {args : List Arg} {op : Op} (h : verbIntent py session uuid verb args = .operation op) :
    ∃ c, session.clientId = some c ∧ operationOf py c verb args = some op := by
  unfold verbIntent at h
  split at h
  · unfold connIntent at h
    split at h
    · cases h
    split at h
    · split at h <;> cases h
    · cases h
  · split at h
    · cases h
    · next c hc =>
      refine ⟨c, hc, ?_⟩
      cases hop : operationOf py c verb args with
      | none =>
        rw [hop] at h
        cases h
      | some op' =>
        rw [hop] at h
        cases h
        rfl

theorem intent_request {py : Builtins} {cfg : Config} {session : Session} {uuid : ClientId}
    {value : List Arg} {op : Op} (h : intent py cfg session uuid value = .operation op) :
    ∃ command args name c, value = command :: args ∧ command.decode = some name ∧
      session.clientId = some c ∧ operationOf py c (Verb.named (py.lower name)) args = some op := by
  unfold intent at h
  split at h
  · cases h
  split at h
  · cases h
  · next command args _ name hname =>
    simp only at h
    split at h
    · split at h
      · obtain ⟨c, hc, hop⟩ := verbIntent_operation h
        exact ⟨command, args, name, c, rfl, hname, hc, hop⟩
      · cases h
    · obtain ⟨c, hc, hop⟩ := verbIntent_operation h
      exact ⟨command, args, name, c, rfl, hname, hc, hop⟩

theorem intent_operation {py : Builtins} {cfg : Config} {session : Session} {uuid : ClientId}
    {value : List Arg} {op : Op} (h : intent py cfg session uuid value = .operation op) :
    ∃ c verb args, session.clientId = some c ∧ operationOf py c verb args = some op := by
  obtain ⟨_, args, name, c, -, -, hc, hop⟩ := intent_request h
  exact ⟨c, _, args, hc, hop⟩

theorem intent_named {py : Builtins} (cfg : Config) {session : Session} {c : ClientId} {command : Arg}
    {name : String} {verb : Verb} (hid : session.clientId = some c) (hname : command.decode = some name)
    (hverb : Verb.named (py.lower name) = verb) (hconn : verb ≠ .conn) (hpass : verb ≠ .pass)
    (uuid : ClientId) (args : List Arg) :
    intent py cfg session uuid (command :: args) = asked (operationOf py c verb args) := by
  have hcheck : checkPassword cfg verb args = .refused := by
    cases verb with
    | pass => exact absurd rfl hpass
    | _ => rfl
  have hintent : verbIntent py session uuid verb args = asked (operationOf py c verb args) := by
    rw [verbIntent, if_neg hconn, hid]
  simp only [intent, hname, hverb, hcheck, hintent]
  split <;> rfl

theorem decode_arg (text : String) : Arg.decode (.bytes (encode text)) = some text := decode_encode text

theorem intent_verb {py : Builtins} (cfg : Config) {session : Session} {c : ClientId} {name : String}
    {verb : Verb} (hid : session.clientId = some c) (hverb : Verb.named (py.lower name) = verb)
    (hconn : verb ≠ .conn) (hpass : verb ≠ .pass) (uuid : ClientId) (args : List Arg) :
    intent py cfg session uuid (.bytes (encode name) :: args) = asked (operationOf py c verb args) :=
  intent_named cfg hid (decode_arg name) hverb hconn hpass uuid args

theorem intent_words (py : Builtins) (cfg : Config) (session : Session) (uuid : ClientId)
    (verb : String) (args : List String) : intent py cfg session uuid (words (verb :: args)) =
      verbIntent py session uuid (Verb.named (py.lower verb)) (words args) := by
  simp only [words, List.map_cons, intent, decode_arg]
  generalize Verb.named (py.lower verb) = v
  split
  · cases v with
    | pass =>
      have hnothing : ∀ args, verbIntent py session uuid .pass args = .nothing := by
        intro args
        unfold verbIntent
        cases session.clientId <;> rfl
      rw [hnothing]
      split <;> rfl
    | _ => rfl
  · rfl

theorem named_lower (py : Builtins) {name : String} {verb : Verb}
    (hascii : (name.toList.all fun c => decide (c.toNat < 128)) = true)
    (h : Verb.named name.toLower = verb) : Verb.named (py.lower name) = verb := by
  have hchars : ∀ c ∈ name.toList, c.toNat < 128 := fun c hc =>
    of_decide_eq_true (List.all_eq_true.mp hascii c hc)
  rw [py.lower_ascii name hchars, h]

theorem verb_pass (py : Builtins) : Verb.named (py.lower "PASS") = .pass := named_lower py rfl (by decide +kernel)

theorem verb_conn (py : Builtins) : Verb.named (py.lower "CONN") = .conn := named_lower py rfl (by decide +kernel)

theorem verb_connInfo (py : Builtins) : Verb.named (py.lower "CONNINFO") = .conninfo :=
  named_lower py rfl (by decide +kernel)

theorem verb_aq (py : Builtins) : Verb.named (py.lower "AQ") = .aq := named_lower py rfl (by decide +kernel)

theorem oneText_words {text : String} (h : text ≠ "") : oneText (words [text]) = some text := by
  have htruthy : Arg.truthy (.bytes (encode text)) = true := by simp [Arg.truthy, encode_eq_nil, h]
  rw [words, List.map_singleton, oneText, Arg.text, if_pos htruthy, decode_arg]

theorem oneText_inj {text text' : String} (h : oneText (words [text]) = some text') : text' = text := by
  simp only [words, List.map_cons, List.map_nil, oneText, Arg.text, decode_arg] at h
  split at h
  · exact (Option.some_inj.mp h).symm
  · cases h

theorem clientId_encode (c : ClientId) : Arg.clientId (.bytes (encode c.name)) = some c := by
  rw [Arg.clientId, decode_arg]
  exact dif_neg c.nonempty

theorem intent_conn (py : Builtins) (cfg : Config) (session : Session) (uuid c : ClientId) :
    intent py cfg session uuid [.bytes (encode "CONN"), .bytes (encode c.name)] = .conn c true := by
  have htruthy : Arg.truthy (.bytes (encode c.name)) = true := by
    simp [Arg.truthy, encode_eq_nil, c.nonempty]
  have hintent : verbIntent py session uuid .conn [.bytes (encode c.name)] = .conn c true := by
    simp only [verbIntent, connIntent, htruthy, clientId_encode, if_true]
  simp only [intent, decode_arg, verb_conn, checkPassword, hintent]
  split <;> rfl

/-- The storage and the identity of the connection are as before, and a kill
is requested only by a command that ends the process. -/
structure Inert (t t' : Turn) : Prop where
  store : t'.adaptor.store = t.adaptor.store
  releaseAllTimeout : t'.adaptor.releaseAllTimeout = t.adaptor.releaseAllTimeout
  killActive : t'.adaptor.killActive = t.adaptor.killActive ∨ t'.ending = .exited
  clientId : t'.session.clientId = t.session.clientId
  peername : t'.session.peername = t.session.peername
  authorized : t.session.authorized = true → t'.session.authorized = true

def joined (s : InMemoryLockStorage) (c : ClientId) (restore : Bool) (peername : Address) :
    InMemoryLockStorage :=
  InMemoryLockStorage.setClientLastAddress (if restore then s.unreleaseAll c else s) c peername

theorem rep_joined {s : InMemoryLockStorage} (h : Rep s) (c : ClientId) (restore : Bool)
    (peername : Address) : Rep (joined s c restore peername) := by
  refine rep_setClientLastAddress ?_ c peername
  split
  · exact rep_unreleaseAll h c
  · exact h

theorem lease_joined {s : InMemoryLockStorage} (h : Rep s) (c : ClientId) (restore : Bool)
    (peername : Address) (l : LockId) : lease (joined s c restore peername) l =
      if restore then Lease.stamp c none (lease s l) else lease s l := by
  have hset : lease (joined s c restore peername) l =
      lease (if restore then s.unreleaseAll c else s) l := lease_congr rfl rfl (fun _ => rfl) l
  rw [hset]
  split
  · exact lease_unreleaseAll h c
  · rfl

theorem address_joined (s : InMemoryLockStorage) (c c' : ClientId) (restore : Bool)
    (peername : Address) : (joined s c restore peername).getClientLastAddress c' =
      if c' = c then some peername else s.getClientLastAddress c' := by
  have hkeep : (if restore then s.unreleaseAll c else s).clientLastAddress = s.clientLastAddress := by
    split <;> rfl
  simp only [joined, InMemoryLockStorage.getClientLastAddress,
    InMemoryLockStorage.setClientLastAddress, Dict.get?_set, hkeep]

/-- What a turn comes to, by what its request asks of the storage. -/
inductive Does (t : Turn) : Intent → Turn → Prop
  | nothing {t' : Turn} (h : Inert t t') : Does t .nothing t'
  | conn (c : ClientId) (restore : Bool) : Does t (.conn c restore)
      { t with
        adaptor := { t.adaptor with store := joined t.adaptor.store c restore t.session.peername }
        session := { t.session with clientId := some c }
        writes := t.writes ++ (if t.session.clientId.isSome then [.reply (.error .connHasId)] else [])
          ++ [.reply (.text c.name)] }
  | operation {op : Op} {answer : Answer} {store : InMemoryLockStorage} {clk : Clock}
      (heq : exec py.fnmatch op t.adaptor.store t.clk = .ok (answer, store, clk))
      (h : Effect t.adaptor.store t.clk op answer store clk) :
      Does t (.operation op)
        (Turn.answer answer { t with adaptor := { t.adaptor with store := store }, clk := clk })

variable {t t' : Turn}

@[simp] theorem answer_adaptor (answer : Answer) (t : Turn) :
    (Turn.answer answer t).adaptor = t.adaptor := by
  cases answer with
  | signal a => cases a <;> rfl
  | none | bool | found => rfl

@[simp] theorem answer_session (answer : Answer) (t : Turn) :
    (Turn.answer answer t).session = t.session := by
  cases answer with
  | signal a => cases a <;> rfl
  | none | bool | found => rfl

@[simp] theorem answer_ending (answer : Answer) (t : Turn) :
    (Turn.answer answer t).ending = t.ending := by
  cases answer with
  | signal a => cases a <;> rfl
  | none | bool | found => rfl

/-- What every turn leaves alone, whatever was asked. -/
theorem Does.frame {py : Builtins} {i : Intent} (hd : Does py t i t') (h : Rep t.adaptor.store)
    (hk : t.adaptor.killActive = false) :
    Rep t'.adaptor.store ∧ (t'.ending ≠ .exited → t'.adaptor.killActive = false) ∧
      t'.adaptor.releaseAllTimeout = t.adaptor.releaseAllTimeout ∧
      t'.session.peername = t.session.peername ∧
      (t.session.authorized = true → t'.session.authorized = true) := by
  cases hd with
  | nothing hi =>
    refine ⟨hi.store ▸ h, fun he => ?_, hi.releaseAllTimeout, hi.peername, hi.authorized⟩
    exact (hi.killActive.resolve_right he).trans hk
  | conn c restore =>
    exact ⟨rep_joined h c restore _, fun _ => hk, rfl, rfl, id⟩
  | operation _ he =>
    simp only [answer_adaptor, answer_session]
    exact ⟨he.rep, fun _ => hk, trivial, trivial, id⟩

theorem call_unguarded (h : Rep t.adaptor.store) (op : Op) (next : Answer → Turn → Turn) :
    ∃ answer store clk, exec py.fnmatch op t.adaptor.store t.clk = .ok (answer, store, clk) ∧
      Effect t.adaptor.store t.clk op answer store clk ∧
      t.call (t.adaptor.unguarded py t.clk op) next =
        next answer { t with adaptor := { t.adaptor with store := store }, clk := clk } := by
  obtain ⟨answer, store, clk, heq, he⟩ := exec_effect py.fnmatch h op t.clk
  refine ⟨answer, store, clk, heq, he, ?_⟩
  rw [StorageAdaptor.unguarded, heq]
  rfl

theorem call_guarded (h : Rep t.adaptor.store) (hk : t.adaptor.killActive = false) (op : Op)
    (next : Answer → Turn → Turn) :
    ∃ answer store clk, exec py.fnmatch op t.adaptor.store t.clk = .ok (answer, store, clk) ∧
      Effect t.adaptor.store t.clk op answer store clk ∧
      t.call (t.adaptor.guarded py t.clk op) next =
        next answer { t with adaptor := { t.adaptor with store := store }, clk := clk } := by
  have hg : t.adaptor.guarded py t.clk op = t.adaptor.unguarded py t.clk op := by
    rw [StorageAdaptor.guarded, hk]
    rfl
  rw [hg]
  exact call_unguarded py h op next

theorem does_unguarded (h : Rep t.adaptor.store) (op : Op) :
    Does py t (.operation op) (t.call (t.adaptor.unguarded py t.clk op) Turn.answer) := by
  obtain ⟨answer, store, clk, hexec, he, heq⟩ := call_unguarded py h op Turn.answer
  rw [heq]
  exact .operation hexec he

theorem does_guarded (h : Rep t.adaptor.store) (hk : t.adaptor.killActive = false) (op : Op) :
    Does py t (.operation op) (t.call (t.adaptor.guarded py t.clk op) Turn.answer) := by
  obtain ⟨answer, store, clk, hexec, he, heq⟩ := call_guarded py h hk op Turn.answer
  rw [heq]
  exact .operation hexec he

theorem does_reply (t : Turn) (content : Content) : Does py t .nothing (t.reply content) :=
  .nothing ⟨rfl, rfl, .inl rfl, rfl, rfl, id⟩

theorem oneArg_cases {P : Turn → Prop} {use : String → Turn} (hwrong : P (t.reply (.error .wrongArgs)))
    (h : ∀ text, P (use text)) (args : List Arg) : P (t.oneArg args use) := by
  unfold Turn.oneArg
  cases oneText args with
  | none => exact hwrong
  | some text => exact h text

theorem twoArgs_cases {P : Turn → Prop} {use : String → String → Turn}
    (hwrong : P (t.reply (.error .wrongArgs))) (h : ∀ text text', P (use text text')) (args : List Arg) :
    P (t.twoArgs args use) := by
  unfold Turn.twoArgs
  cases twoTexts args with
  | none => exact hwrong
  | some p => exact h p.1 p.2

theorem does_oneArg {use : String → Turn} {op : String → Op}
    (h : ∀ text, Does py t (.operation (op text)) (use text)) (args : List Arg) :
    Does py t (asked ((oneText args).map op)) (t.oneArg args use) := by
  unfold Turn.oneArg
  cases oneText args with
  | none => exact does_reply py t _
  | some text => exact h text

theorem does_twoArgs {use : String → String → Turn} {op : String × String → Op}
    (h : ∀ text text', Does py t (.operation (op (text, text'))) (use text text')) (args : List Arg) :
    Does py t (asked ((twoTexts args).map op)) (t.twoArgs args use) := by
  unfold Turn.twoArgs
  cases twoTexts args with
  | none => exact does_reply py t _
  | some p => exact h p.1 p.2

theorem does_find (h : Rep t.adaptor.store) (c : ClientId) (args : List Arg) :
    Does py t (asked (operationOf py c .find args)) (t.serve py cfg c .find args) := by
  simp only [operationOf, Turn.serve]
  match args with
  | [] => exact does_reply py t _
  | _ :: _ :: _ => exact does_reply py t _
  | [arg] =>
    simp only [oneText, Arg.text]
    by_cases ht : arg.truthy
    · rw [if_pos ht, if_pos ht]
      cases arg.decode with
      | none => exact .nothing ⟨rfl, rfl, .inl rfl, rfl, rfl, id⟩
      | some pattern => exact does_unguarded py h _
    · rw [if_neg ht, if_neg ht]
      exact does_reply py t _

theorem serve_does (h : Rep t.adaptor.store) (hk : t.adaptor.killActive = false) (c : ClientId)
    (verb : Verb) (args : List Arg) :
    Does py t (asked (operationOf py c verb args)) (t.serve py cfg c verb args) := by
  cases verb with
  | aq | aqr | release => exact does_oneArg py (fun _ => does_guarded py h hk _) args
  | locked => exact does_oneArg py (fun _ => does_unguarded py h _) args
  | sigset | sigdel => exact does_twoArgs py (fun _ _ => does_guarded py h hk _) args
  | sigexists => exact does_twoArgs py (fun _ _ => does_unguarded py h _) args
  | find => exact does_find py cfg h c args
  | conninfo =>
    refine .nothing ?_
    simp only [Turn.serve, Turn.oneArg]
    split <;> exact ⟨rfl, rfl, .inl rfl, rfl, rfl, id⟩
  | ping | pass | conn | unknown => exact does_reply py t _
  | stats =>
    refine .nothing ?_
    simp only [Turn.serve]
    split <;> exact ⟨rfl, rfl, .inl rfl, rfl, rfl, id⟩
  | shutdown =>
    refine .nothing ?_
    simp only [Turn.serve]
    split
    · exact ⟨rfl, rfl, .inr rfl, rfl, rfl, id⟩
    · exact ⟨rfl, rfl, .inl rfl, rfl, rfl, id⟩
  | dump =>
    refine .nothing ?_
    simp only [Turn.serve]
    split <;> exact ⟨rfl, rfl, .inl rfl, rfl, rfl, id⟩

theorem joined_does {t₀ : Turn} (ht₀ : t₀ = if t.session.clientId.isSome
      then t.reply (.error .connHasId) else t) (hk : t.adaptor.killActive = false)
    (c : ClientId) (restore : Bool) :
    Does py t (.conn c restore) ({ t₀.identify c with
      adaptor := { t₀.adaptor with
        store := if restore then t₀.adaptor.store.unreleaseAll c else t₀.adaptor.store } }
          |>.register py c) := by
  obtain ⟨⟨store, kill, timeout⟩, clk, session, writes, ending⟩ := t
  cases hk
  have h : Does py (⟨⟨store, false, timeout⟩, clk, session, writes, ending⟩ : Turn) (.conn c restore) _ :=
    .conn c restore
  cases hid : session.clientId with
  | none =>
    simp only [hid, Option.isSome_none, Bool.false_eq_true, if_false, List.append_nil] at h ht₀
    rw [ht₀]
    exact h
  | some c' =>
    simp only [hid, Option.isSome_some, if_true] at h ht₀
    rw [ht₀]
    exact h

theorem conn_does (hk : t.adaptor.killActive = false) (uuid : ClientId) (args : List Arg) :
    Does py t (connIntent uuid args) (t.conn py uuid args) := by
  obtain ⟨t₀, ht₀⟩ : ∃ t₀, t₀ = if t.session.clientId.isSome
      then t.reply (.error .connHasId) else t := ⟨_, rfl⟩
  have ha : t₀.adaptor = t.adaptor ∧ t₀.session = t.session := by
    rw [ht₀]
    split <;> exact ⟨rfl, rfl⟩
  have hinert : ∀ writes ending, Inert t { t₀ with writes := writes, ending := ending } :=
    fun _ _ => ⟨by rw [ha.1], by rw [ha.1], .inl (by rw [ha.1]), by rw [ha.2], by rw [ha.2],
      fun hauth => by rw [ha.2, hauth]⟩
  have hkill : t₀.adaptor.killActive = false := by rw [ha.1, hk]
  simp only [Turn.conn, ← ht₀]
  match args with
  | [] => exact joined_does py ht₀ hk uuid false
  | arg :: _ =>
    simp only [connIntent]
    by_cases ht : arg.truthy
    · rw [if_pos ht, if_pos ht]
      cases arg.clientId with
      | none => exact .nothing (hinert _ _)
      | some c =>
        have hcall := joined_does py ht₀ hk c true
        obtain ⟨⟨store, kill, timeout⟩, clk, session, writes, ending⟩ := t₀
        cases hkill
        exact hcall
    · rw [if_neg ht, if_neg ht]
      exact .nothing (hinert _ _)

def opened (adaptor : StorageAdaptor) (clk : Clock) (session : Session) : Turn :=
  let t : Turn := { adaptor := adaptor, clk := clk, session := session }
  if lockedOut cfg session then
    let t := t.reply (.error .pass)
    { t with session := { t.session with closing := true } }
  else t

theorem dispatch_does (h : Rep t.adaptor.store) (hk : t.adaptor.killActive = false) (uuid : ClientId)
    (verb : Verb) (args : List Arg) :
    Does py t (verbIntent py t.session uuid verb args) (t.dispatch py cfg uuid verb args) := by
  unfold verbIntent Turn.dispatch
  by_cases hv : verb = .conn
  · rw [if_pos hv, if_pos hv]
    exact conn_does py hk uuid args
  · rw [if_neg hv, if_neg hv]
    cases t.session.clientId with
    | none => exact does_reply py t _
    | some c => exact serve_does py cfg h hk c verb args

theorem opened_adaptor (a : StorageAdaptor) (clk : Clock) (session : Session) :
    (opened cfg a clk session).adaptor = a ∧ (opened cfg a clk session).clk = clk := by
  unfold opened
  by_cases hl : lockedOut cfg session
  · simp [hl, Turn.reply]
  · simp [hl]

theorem opened_session (a : StorageAdaptor) (clk : Clock) (session : Session) :
    (opened cfg a clk session).session.clientId = session.clientId ∧
      (opened cfg a clk session).session.peername = session.peername ∧
      (opened cfg a clk session).session.authorized = session.authorized := by
  unfold opened
  by_cases hl : lockedOut cfg session
  · simp [hl, Turn.reply]
  · simp [hl]

theorem opened_serving (a : StorageAdaptor) (clk : Clock) (session : Session) :
    (opened cfg a clk session).session.serving = session.serving ∧
      (opened cfg a clk session).ending = .done := by
  unfold opened
  by_cases hl : lockedOut cfg session
  · simp [hl, Turn.reply]
  · simp [hl]

/-- Every request does what its intent says. -/
theorem command_does {a : StorageAdaptor} (h : Rep a.store) (hk : a.killActive = false) (clk : Clock)
    (session : Session) (uuid : ClientId) (value : List Arg) :
    Does py (opened cfg a clk session) (intent py cfg session uuid value)
      (onCommandReceived py cfg a clk session uuid value) := by
  obtain ⟨ha, -⟩ := opened_adaptor cfg a clk session
  obtain ⟨hc, hp, hauth⟩ := opened_session cfg a clk session
  have hinert : ∀ t : Turn, t.adaptor = a → t.session.clientId = session.clientId →
      t.session.peername = session.peername →
      (session.authorized = true → t.session.authorized = true) → Inert (opened cfg a clk session) t :=
    fun t hta htc htp hta' => ⟨by rw [hta, ha], by rw [hta, ha], .inl (by rw [hta, ha]),
      htc.trans hc.symm, htp.trans hp.symm, by rw [hauth]; exact hta'⟩
  cases value with
  | nil => exact .nothing (hinert _ rfl rfl rfl id)
  | cons command args =>
    simp only [onCommandReceived, processCommand, intent, hk, Bool.false_eq_true, if_false]
    cases command.decode with
    | none => exact .nothing (hinert _ rfl rfl rfl id)
    | some name =>
      by_cases hl : lockedOut cfg session
      · simp only [hl, if_true]
        cases checkPassword cfg (Verb.named (py.lower name)) args with
        | granted => exact .nothing (hinert _ rfl rfl rfl fun _ => rfl)
        | raised => exact .nothing (hinert _ rfl rfl rfl id)
        | refused =>
          have ho : opened cfg a clk session =
              { { adaptor := a, clk := clk, session := session : Turn }.reply (.error .pass) with
                session := { session with closing := true } } := by
            simp [opened, hl, Turn.reply]
          rw [ho]
          exact dispatch_does py cfg h hk uuid _ args
      · have ho : opened cfg a clk session = { adaptor := a, clk := clk, session := session } := by
          simp [opened, hl]
        simp only [hl, Bool.false_eq_true, if_false]
        rw [ho]
        exact dispatch_does py cfg h hk uuid _ args

end Livelock.CommandSpec
