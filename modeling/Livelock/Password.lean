import Livelock.CommandSpec
import Livelock.Ascii

namespace Livelock.Password

open Livelock.Lib Livelock.Shared Livelock.MemoryStorage Livelock.StorageInvariant
open Livelock.StorageRun Livelock.Server Livelock.CommandSpec Livelock.Ascii

variable (py : Builtins) (cfg : Config)

/-- A request in the buffer of a connection, with the id that `uuid4` and the
readings that the clock would give while it is processed. -/
structure Arrival where
  uuid : ClientId
  value : List Arg
  reading : Nat → Time

/-- The loop of `receive_commands` over the requests of one connection, which
a request that raises ends. -/
def receive (a : StorageAdaptor) (session : Session) :
    List Arrival → StorageAdaptor × Session × List Write
  | [] => (a, session, [])
  | m :: ms =>
    let t := onCommandReceived py cfg a ⟨m.reading, 0⟩ session m.uuid m.value
    if t.ending = .done then
      let (a, session, writes) := receive t.adaptor t.session ms
      (a, session, t.writes ++ writes)
    else (t.adaptor, t.session, t.writes)

def unlocks (value : List Arg) : Bool :=
  match value with
  | [] => false
  | command :: args =>
    command.decode.any fun name =>
      match checkPassword cfg (Verb.named (py.lower name)) args with
      | .granted => true
      | _ => false

def identifies (value : List Arg) : Bool :=
  match value with
  | [] => false
  | command :: args =>
    command.decode.any fun name =>
      decide (Verb.named (py.lower name) = .conn) &&
        match args with
        | [] => true
        | arg :: _ => arg.truthy && arg.clientId.isSome

/-- The request raises on a connection that is locked out: it has no command
word, or one that does not decode, or is a `PASS` or `CONN` whose argument does
not decode. -/
def fails (value : List Arg) : Bool :=
  match value with
  | [] => true
  | command :: args =>
    command.decode.all fun name =>
      match Verb.named (py.lower name), args with
      | .pass, [arg] => arg.truthy && arg.decode.isNone
      | .conn, arg :: _ => arg.truthy && arg.clientId.isNone
      | _, _ => false

/-- Processing the requests and losing the connection leaves the storage and
the session without a trace, and what is written tells nothing about the
storage. -/
def Protected (session : Session) (ms : List Arrival) (lost : Clock) : Prop :=
  (∀ a : StorageAdaptor, a.killActive = false →
    (receive py cfg a session ms).2.1.clientId = none ∧
      ∃ a' clk, connectionLost py (receive py cfg a session ms).1 lost
          (receive py cfg a session ms).2.1 = .ok (a', clk) ∧ a'.store = a.store) ∧
  ∀ a a' : StorageAdaptor, a.killActive = false → a'.killActive = false →
    (receive py cfg a session ms).2.2.map (Write.payload py) =
      (receive py cfg a' session ms).2.2.map (Write.payload py)

variable {py cfg} {session : Session} {value : List Arg}

theorem checkPassword_raised {verb : Verb} {args : List Arg} : checkPassword cfg verb args = .raised ↔
    verb = .pass ∧ ∃ arg, args = [arg] ∧ arg.truthy = true ∧ arg.decode = none := by
  constructor
  · intro h
    unfold checkPassword at h
    split at h
    · next arg =>
      split at h
      · next ht =>
        split at h
        · next hd => exact ⟨rfl, arg, rfl, ht, hd⟩
        · split at h <;> cases h
      · cases h
    · cases h
  · rintro ⟨rfl, arg, rfl, ht, hd⟩
    simp only [checkPassword, ht, hd, if_true]

theorem fails_refused {command : Arg} {args : List Arg} {name : String} (hname : command.decode = some name)
    (hconn : Verb.named (py.lower name) ≠ .conn)
    (hcheck : checkPassword cfg (Verb.named (py.lower name)) args = .refused) :
    fails py (command :: args) = false := by
  generalize hverb : Verb.named (py.lower name) = verb at hconn hcheck
  simp only [fails, hname, Option.all_some, hverb]
  split
  · next arg =>
    cases hd : arg.decode with
    | some _ => simp
    | none =>
      by_cases ht : arg.truthy
      · have hraised : checkPassword cfg .pass [arg] = .raised :=
          checkPassword_raised.mpr ⟨rfl, arg, rfl, ht, hd⟩
        rw [hcheck] at hraised
        cases hraised
      · simp [ht]
  · exact absurd rfl hconn
  · rfl

theorem refused_dispatch {command : Arg} {args : List Arg} {name : String}
    (hid : session.clientId = none) (hname : command.decode = some name)
    (hcheck : checkPassword cfg (Verb.named (py.lower name)) args = .refused)
    (hconn : identifies py (command :: args) = false) (uuid : ClientId) :
    ∃ writes, ∀ (a : StorageAdaptor) (clk : Clock),
      Turn.dispatch py cfg ⟨a, clk, session, [.reply (.error .pass)], .done⟩ uuid
          (Verb.named (py.lower name)) args =
        ⟨a, clk, session, writes, if fails py (command :: args) then .raised else .done⟩ := by
  by_cases hv : Verb.named (py.lower name) = .conn
  · simp only [identifies, hname, Option.any_some, hv] at hconn
    rw [hv]
    cases args with
    | nil => cases hconn
    | cons arg rest =>
      by_cases ht : arg.truthy
      · have hc : arg.clientId = none := by simpa [ht] using hconn
        have hfail : fails py (command :: arg :: rest) = true := by simp [fails, hname, hv, ht, hc]
        refine ⟨[.reply (.error .pass)], fun a clk => ?_⟩
        rw [hfail]
        simp [Turn.dispatch, Turn.conn, hid, ht, hc, Turn.raise]
      · have hfail : fails py (command :: arg :: rest) = false := by simp [fails, hname, hv, ht]
        refine ⟨[.reply (.error .pass), .reply (.error .wrongArgs)], fun a clk => ?_⟩
        rw [hfail]
        simp [Turn.dispatch, Turn.conn, hid, ht, Turn.reply]
  · refine ⟨[.reply (.error .pass), .reply (.error .connRequired)], fun a clk => ?_⟩
    rw [fails_refused hname hv hcheck, Turn.dispatch, if_neg hv]
    simp [hid, Turn.reply]

/-- A request on a locked out connection that neither unlocks nor identifies
it ends as it would over any other storage. -/
theorem refused_uniform (hlock : lockedOut cfg session = true) (hid : session.clientId = none)
    (hpass : unlocks py cfg value = false) (hconn : identifies py value = false) (uuid : ClientId) :
    ∃ session' writes, session'.clientId = none ∧ lockedOut cfg session' = true ∧
      ∀ a : StorageAdaptor, a.killActive = false → ∀ clk,
        onCommandReceived py cfg a clk session uuid value =
          ⟨a, clk, session', writes, if fails py value then .raised else .done⟩ := by
  cases value with
  | nil => exact ⟨session, [], hid, hlock, fun a _ clk => rfl⟩
  | cons command args =>
    cases hname : command.decode with
    | none =>
      refine ⟨session, [], hid, hlock, fun a hk clk => ?_⟩
      simp only [onCommandReceived, processCommand, hk, hname, fails, Option.all_none, if_true,
        Bool.false_eq_true, if_false]
      rfl
    | some name =>
      cases hcheck : checkPassword cfg (Verb.named (py.lower name)) args with
      | granted =>
        simp only [unlocks, hname, Option.any_some, hcheck] at hpass
        cases hpass
      | raised =>
        obtain ⟨hverb, arg, rfl, ht, hd⟩ := checkPassword_raised.mp hcheck
        rw [hverb] at hcheck
        have hfail : fails py [command, arg] = true := by simp [fails, hname, hverb, ht, hd]
        refine ⟨session, [], hid, hlock, fun a hk clk => ?_⟩
        simp only [onCommandReceived, processCommand, hk, hname, hverb, hlock, hcheck, hfail, if_true,
          Bool.false_eq_true, if_false]
        rfl
      | refused =>
        have hclosing : ({ session with closing := true } : Session).clientId = none := hid
        obtain ⟨writes, hdispatch⟩ := refused_dispatch hclosing hname hcheck hconn uuid
        refine ⟨{ session with closing := true }, writes, hid, hlock, fun a hk clk => ?_⟩
        rw [← hdispatch a clk]
        simp only [onCommandReceived, processCommand, hk, hname, hlock, hcheck, if_true,
          Bool.false_eq_true, if_false]
        rfl

theorem identifies_conn (hconn : identifies py value = true) :
    ∃ command args name, value = command :: args ∧ command.decode = some name ∧
      Verb.named (py.lower name) = .conn ∧
      (args = [] ∨ ∃ arg rest c, args = arg :: rest ∧ arg.truthy = true ∧ arg.clientId = some c) := by
  cases value with
  | nil => cases hconn
  | cons command args =>
    cases hname : command.decode with
    | none => simp [identifies, hname] at hconn
    | some name =>
      simp only [identifies, hname, Option.any_some, Bool.and_eq_true, decide_eq_true_eq] at hconn
      obtain ⟨hverb, hargs⟩ := hconn
      refine ⟨command, args, name, rfl, hname, hverb, ?_⟩
      cases args with
      | nil => exact .inl rfl
      | cons arg rest =>
        obtain ⟨htruthy, hid⟩ := Bool.and_eq_true_iff.mp hargs
        obtain ⟨c, hc⟩ := Option.isSome_iff_exists.mp hid
        exact .inr ⟨arg, rest, c, rfl, htruthy, hc⟩

theorem identifies_done (hconn : identifies py value = true) : fails py value = false := by
  obtain ⟨command, args, name, rfl, hname, hverb, rfl | ⟨arg, rest, c, rfl, -, hc⟩⟩ := identifies_conn hconn
  · simp [fails, hname]
  · simp [fails, hname, hverb, hc]

theorem receive_uniform (ms : List Arrival) (hlock : lockedOut cfg session = true)
    (hid : session.clientId = none) (hpass : ∀ m ∈ ms, unlocks py cfg m.value = false)
    (hconn : ∀ m ∈ ms.takeWhile (fun m => !fails py m.value), identifies py m.value = false) :
    ∃ session' writes, session'.clientId = none ∧ ∀ a : StorageAdaptor, a.killActive = false →
      receive py cfg a session ms = (a, session', writes) := by
  induction ms generalizing session with
  | nil => exact ⟨session, [], hid, fun a _ => rfl⟩
  | cons m ms ih =>
    have hm : fails py m.value = false → identifies py m.value = false := fun hf =>
      hconn m (by simp [hf])
    cases hf : fails py m.value with
    | true =>
      have hi : identifies py m.value = false := by
        cases hi : identifies py m.value with
        | false => rfl
        | true => exact absurd ((identifies_done hi).symm.trans hf) (by simp)
      obtain ⟨session', writes, hid', -, heq⟩ :=
        refused_uniform hlock hid (hpass m (by simp)) hi m.uuid
      refine ⟨session', writes, hid', fun a hk => ?_⟩
      simp [receive, heq a hk, hf]
    | false =>
      obtain ⟨session', writes, hid', hlock', heq⟩ :=
        refused_uniform hlock hid (hpass m (by simp)) (hm hf) m.uuid
      have hrest : ∀ m' ∈ ms.takeWhile (fun m => !fails py m.value), identifies py m'.value = false :=
        fun m' hm' => hconn m' (by simp [hf, hm'])
      obtain ⟨session'', writes', hid'', heq'⟩ :=
        ih hlock' hid' (fun m' hm' => hpass m' (by simp [hm'])) hrest
      refine ⟨session'', writes ++ writes', hid'', fun a hk => ?_⟩
      simp [receive, heq a hk, hf, heq' a hk]

theorem identifies_intent (hlock : lockedOut cfg session = true) (hconn : identifies py value = true)
    (uuid : ClientId) : ∃ c restore, intent py cfg session uuid value = .conn c restore := by
  obtain ⟨command, args, name, rfl, hname, hverb, hargs⟩ := identifies_conn hconn
  simp only [intent, hname, hverb, hlock, if_true, checkPassword, verbIntent]
  obtain rfl | ⟨arg, rest, c, rfl, ht, hc⟩ := hargs
  · exact ⟨uuid, false, rfl⟩
  · exact ⟨c, true, by simp [connIntent, ht, hc]⟩

theorem receive_keeps_id (ms : List Arrival) {a : StorageAdaptor} (h : Rep a.store)
    (hk : a.killActive = false) (hid : session.clientId ≠ none) :
    (receive py cfg a session ms).2.1.clientId ≠ none := by
  induction ms generalizing a session with
  | nil => exact hid
  | cons m ms ih =>
    have hdoes := command_does py cfg h hk ⟨m.reading, 0⟩ session m.uuid m.value
    obtain ⟨ha, -⟩ := opened_adaptor cfg a ⟨m.reading, 0⟩ session
    obtain ⟨hc, -⟩ := opened_session cfg a ⟨m.reading, 0⟩ session
    obtain ⟨hrep, hkill, -⟩ := hdoes.frame (by rw [ha]; exact h) (by rw [ha]; exact hk)
    rw [receive]
    generalize onCommandReceived py cfg a ⟨m.reading, 0⟩ session m.uuid m.value = t at *
    generalize opened cfg a ⟨m.reading, 0⟩ session = t₀ at *
    generalize intent py cfg session m.uuid m.value = i at hdoes
    have hid' : t.session.clientId ≠ none := by
      cases hdoes with
      | nothing hi => rw [hi.clientId, hc]; exact hid
      | conn => exact nofun
      | operation => rw [answer_session, hc]; exact hid
    by_cases hend : t.ending = .done
    · rw [if_pos hend]
      exact ih hrep (hkill (by rw [hend]; exact nofun)) hid'
    · rw [if_neg hend]
      exact hid'

theorem receive_identified (ms : List Arrival) (hlock : lockedOut cfg session = true)
    (hid : session.clientId = none) (hpass : ∀ m ∈ ms, unlocks py cfg m.value = false)
    (hconn : ∃ m ∈ ms.takeWhile (fun m => !fails py m.value), identifies py m.value = true)
    {a : StorageAdaptor} (h : Rep a.store) (hk : a.killActive = false) :
    (receive py cfg a session ms).2.1.clientId ≠ none := by
  induction ms generalizing session with
  | nil =>
    obtain ⟨m, hm, -⟩ := hconn
    cases hm
  | cons m ms ih =>
    have hf : fails py m.value = false := by
      cases hf : fails py m.value with
      | false => rfl
      | true =>
        obtain ⟨m', hm', -⟩ := hconn
        simp [hf] at hm'
    cases hi : identifies py m.value with
    | true =>
      obtain ⟨c, restore, hintent⟩ := identifies_intent hlock hi m.uuid
      have hdoes := command_does py cfg h hk ⟨m.reading, 0⟩ session m.uuid m.value
      obtain ⟨ha, -⟩ := opened_adaptor cfg a ⟨m.reading, 0⟩ session
      have hend : (opened cfg a ⟨m.reading, 0⟩ session).ending = .done := by simp [opened, hlock, Turn.reply]
      obtain ⟨hrep, hkill, -⟩ := hdoes.frame (by rw [ha]; exact h) (by rw [ha]; exact hk)
      rw [hintent] at hdoes
      rw [receive]
      generalize onCommandReceived py cfg a ⟨m.reading, 0⟩ session m.uuid m.value = t at *
      generalize opened cfg a ⟨m.reading, 0⟩ session = t₀ at *
      cases hdoes with
      | conn =>
        rw [if_pos hend]
        have hlive : Ending.done ≠ .exited := by decide
        exact receive_keeps_id ms hrep (hkill (by rw [hend]; exact hlive)) (Option.some_ne_none c)
    | false =>
      obtain ⟨session', writes, hid', hlock', heq⟩ :=
        refused_uniform hlock hid (hpass m (by simp)) hi m.uuid
      have hrest : ∃ m' ∈ ms.takeWhile (fun m => !fails py m.value), identifies py m'.value = true := by
        obtain ⟨m', hm', hi'⟩ := hconn
        rw [List.takeWhile_cons_of_pos (by simp [hf]), List.mem_cons] at hm'
        obtain rfl | hm' := hm'
        · rw [hi] at hi'
          cases hi'
        · exact ⟨m', hm', hi'⟩
      simpa [receive, heq a hk, hf] using
        ih hlock' hid' (fun m' hm' => hpass m' (by simp [hm'])) hrest

/-- The state behind a password is protected from a connection exactly when no
request that it gets to is a `CONN` that goes through. -/
theorem password_protects (hlock : lockedOut cfg session = true) (hid : session.clientId = none)
    (ms : List Arrival) (hpass : ∀ m ∈ ms, unlocks py cfg m.value = false) (lost : Clock) :
    Protected py cfg session ms lost ↔
      ∀ m ∈ ms.takeWhile (fun m => !fails py m.value), identifies py m.value = false := by
  constructor
  · rintro ⟨hleft, -⟩ m hm
    by_contra hi
    have hi' : identifies py m.value = true := by simpa using hi
    exact receive_identified ms hlock hid hpass ⟨m, hm, hi'⟩ (rep_empty 5) rfl
      (hleft (.new (.empty 5)) rfl).1
  · intro hconn
    obtain ⟨session', writes, hid', heq⟩ := receive_uniform ms hlock hid hpass hconn
    refine ⟨fun a hk => ?_, fun a a' hk hk' => ?_⟩
    · rw [heq a hk]
      exact ⟨hid', a, lost, by simp [connectionLost, hk, hid'], rfl⟩
    · rw [heq a hk, heq a' hk']

def secretConfig : Config := { plainConfig with password := some "secret" }

/-- A stranger sends a command without and with a wrong password. -/
theorem password_protects_stranger : Protected ascii secretConfig { peername := ⟨"10.0.0.9", 50000⟩ }
    [⟨bob, words ["AQ", "l"], fun _ => 0⟩, ⟨bob, words ["PASS", "guess"], fun _ => 0⟩] ⟨fun _ => 0, 0⟩ :=
  (password_protects (by decide +kernel) rfl _ (by decide +kernel) _).mpr (by decide +kernel)

/-- A `CONN` without any password goes through. -/
theorem password_ignored : ¬ ∀ ms : List Arrival, (∀ m ∈ ms, unlocks ascii secretConfig m.value = false) →
    Protected ascii secretConfig { peername := ⟨"10.0.0.9", 50000⟩ } ms ⟨fun _ => 0, 0⟩ := by
  intro h
  have hid : (receive ascii secretConfig (.new (.empty 5)) { peername := ⟨"10.0.0.9", 50000⟩ }
      [⟨bob, words ["CONN", "alice"], fun _ => 0⟩]).2.1.clientId = some alice := by decide +kernel
  have hnone := ((h [⟨bob, words ["CONN", "alice"], fun _ => 0⟩] (by decide +kernel)).1
    (.new (.empty 5)) rfl).1
  rw [hid] at hnone
  cases hnone

end Livelock.Password
