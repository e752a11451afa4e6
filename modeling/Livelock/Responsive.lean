import Livelock.Framing
import Livelock.Pipeline

namespace Livelock.Responsive

open Livelock.Lib Livelock.Shared Livelock.MemoryStorage Livelock.StorageInvariant
open Livelock.StorageLease Livelock.StorageRun Livelock.Server Livelock.CommandSpec
open Livelock.ServerLease Livelock.ServerReader Livelock.Ascii
open Livelock.MemoryStorage.InMemoryLockStorage (empty)

/-- What decides about a session how a command is received. -/
structure Mode where
  locked : Bool
  named : Bool
deriving DecidableEq

def mode (cfg : Config) (session : Session) : Mode := ⟨lockedOut cfg session, session.clientId.isSome⟩

/-- What is going to come of a command: an exception, the end of the
connection or of the process, or a reply. -/
inductive Verdict
  | fails
  | closes
  | ends
  | serves (m : Mode)
deriving DecidableEq

variable (py : Builtins) (cfg : Config)

def serveVerdict (m : Mode) (verb : Verb) (args : List Arg) : Verdict :=
  match verb, args with
  | .find, [arg] => if arg.truthy && arg.decode.isNone then .fails else .serves m
  | .shutdown, _ => if cfg.shutdownSupport then .ends else .serves m
  | _, _ => .serves m

def connVerdict (m : Mode) (args : List Arg) : Verdict :=
  match args with
  | [] => .serves { m with named := true }
  | arg :: _ =>
    if arg.truthy then
      if arg.clientId.isSome then .serves { m with named := true } else .fails
    else .serves m

def dispatchVerdict (m : Mode) (verb : Verb) (args : List Arg) : Verdict :=
  if verb = .conn then connVerdict m args
  else if m.named then serveVerdict cfg m verb args
  else .serves m

def verdict (m : Mode) (value : List Arg) : Verdict :=
  match value with
  | [] => .fails
  | command :: args =>
    match command.decode with
    | none => .fails
    | some name =>
      let verb := Verb.named (py.lower name)
      if m.locked then
        match checkPassword cfg verb args with
        | .raised => .fails
        | .granted => .serves { m with locked := false }
        | .refused => .closes
      else dispatchVerdict cfg m verb args

def Meets (t t' : Turn) : Verdict → Prop
  | .fails => t'.ending = .raised ∧ t'.session.closing = t.session.closing
  | .closes => t'.session.closing = true
  | .ends => t'.ending = .exited ∧ t'.session.closing = t.session.closing
  | .serves m => t'.ending = .done ∧ t'.writes ≠ [] ∧ t'.session.closing = t.session.closing ∧
      mode cfg t'.session = m

variable {py cfg} {t t' : Turn} {c : ClientId} {op : Op}

theorem meets_reply (hdone : t.ending = .done) (content : Content) :
    Meets cfg t (t.reply content) (.serves (mode cfg t.session)) :=
  ⟨hdone, by simp [Turn.reply], rfl, rfl⟩

theorem answer_writes_ne {answer : Answer} (h : answer ≠ .none) (t : Turn) :
    (Turn.answer answer t).writes ≠ [] := by
  cases answer with
  | none => exact absurd rfl h
  | bool | found => simp [Turn.answer, Turn.reply, Turn.replyData]
  | signal a => cases a <;> simp [Turn.answer, Turn.reply]

theorem meets_operation (hdone : t.ending = .done) (h : Does py t (.operation op) t')
    (hop : AskedBy c op) : Meets cfg t t' (.serves (mode cfg t.session)) := by
  cases h with
  | operation heq =>
    have hne := answer_writes_ne (Framing.exec_answers heq hop)
    exact ⟨by rw [answer_ending]; exact hdone, hne _, by rw [answer_session], by rw [answer_session]⟩

theorem meets_find (hdone : t.ending = .done) (h : Rep t.adaptor.store) (c : ClientId) (args : List Arg) :
    Meets cfg t (t.serve py cfg c .find args) (serveVerdict cfg (mode cfg t.session) .find args) := by
  cases args with
  | nil => exact meets_reply hdone _
  | cons arg rest =>
    cases rest with
    | cons => exact meets_reply hdone _
    | nil =>
      simp only [Turn.serve, serveVerdict]
      cases htruthy : arg.truthy with
      | false => exact meets_reply hdone _
      | true =>
        cases hdecode : arg.decode with
        | none => exact ⟨rfl, rfl⟩
        | some pattern => exact meets_operation (c := c) hdone (does_unguarded py h (.find pattern)) trivial

theorem serve_meets (hdone : t.ending = .done) (h : Rep t.adaptor.store)
    (hk : t.adaptor.killActive = false) (c : ClientId) (verb : Verb) (args : List Arg) :
    Meets cfg t (t.serve py cfg c verb args) (serveVerdict cfg (mode cfg t.session) verb args) := by
  let Serves := fun t' => Meets cfg t t' (.serves (mode cfg t.session))
  have hwrong : Serves (t.reply (.error .wrongArgs)) := meets_reply hdone _
  cases verb with
  | aq | aqr | release =>
    apply oneArg_cases (P := Serves) hwrong
    intro lockId
    exact meets_operation (c := c) hdone (does_guarded py h hk _) rfl
  | locked =>
    apply oneArg_cases (P := Serves) hwrong
    intro lockId
    exact meets_operation (c := c) hdone (does_unguarded py h _) trivial
  | sigset | sigdel =>
    apply twoArgs_cases (P := Serves) hwrong
    intro lockId signal
    exact meets_operation (c := c) hdone (does_guarded py h hk _) trivial
  | sigexists =>
    apply twoArgs_cases (P := Serves) hwrong
    intro lockId signal
    exact meets_operation (c := c) hdone (does_unguarded py h _) trivial
  | conninfo =>
    apply oneArg_cases (P := Serves) hwrong
    intro text
    exact ⟨hdone, by simp [Turn.reply], rfl, rfl⟩
  | find => exact meets_find hdone h c args
  | ping | pass | conn | unknown => exact meets_reply hdone _
  | stats =>
    simp only [Turn.serve]
    split
    · exact ⟨hdone, by simp [Turn.replyData], rfl, rfl⟩
    · exact meets_reply hdone _
  | shutdown =>
    simp only [Turn.serve, serveVerdict]
    split
    · exact ⟨rfl, rfl⟩
    · exact meets_reply hdone _
  | dump =>
    simp only [Turn.serve]
    split <;> exact meets_reply hdone _

theorem conn_meets (hdone : t.ending = .done) (hk : t.adaptor.killActive = false) (uuid : ClientId)
    (args : List Arg) :
    Meets cfg t (t.conn py uuid args) (connVerdict (mode cfg t.session) args) := by
  have hdoes := conn_does py hk uuid args
  have hjoin : ∀ {c restore} {t' : Turn}, Does py t (.conn c restore) t' →
      Meets cfg t t' (.serves { mode cfg t.session with named := true }) := by
    intro c restore t' h
    cases h
    exact ⟨hdone, by simp, rfl, rfl⟩
  obtain ⟨t₀, ht₀, hending, hsession⟩ : ∃ t₀, t₀ = (if t.session.clientId.isSome
      then t.reply (.error .connHasId) else t) ∧ t₀.ending = .done ∧ t₀.session = t.session := by
    refine ⟨_, rfl, ?_, ?_⟩
    · split <;> exact hdone
    · split <;> rfl
  cases args with
  | nil => exact hjoin hdoes
  | cons arg rest =>
    simp only [connIntent] at hdoes
    simp only [connVerdict]
    by_cases htruthy : arg.truthy = true
    · cases hid : arg.clientId with
      | some c =>
        simp only [htruthy, hid, if_true] at hdoes
        simp only [htruthy, if_true, Option.isSome_some]
        exact hjoin hdoes
      | none =>
        simp only [Turn.conn, ← ht₀, htruthy, hid, if_true, Option.isSome_none, Bool.false_eq_true, if_false]
        exact ⟨rfl, congrArg Session.closing hsession⟩
    · simp only [Turn.conn, ← ht₀, if_neg htruthy]
      exact ⟨hending, by simp [Turn.reply], congrArg Session.closing hsession,
        congrArg (mode cfg) hsession⟩

theorem dispatch_meets (hdone : t.ending = .done) (h : Rep t.adaptor.store)
    (hk : t.adaptor.killActive = false) (uuid : ClientId) (verb : Verb) (args : List Arg) :
    Meets cfg t (t.dispatch py cfg uuid verb args)
      (dispatchVerdict cfg (mode cfg t.session) verb args) := by
  unfold Turn.dispatch dispatchVerdict
  by_cases hconn : verb = .conn
  · rw [if_pos hconn, if_pos hconn]
    exact conn_meets hdone hk uuid args
  · rw [if_neg hconn, if_neg hconn]
    cases hid : t.session.clientId with
    | none =>
      rw [if_neg (by simp [mode, hid])]
      exact meets_reply hdone _
    | some c =>
      rw [if_pos (by simp [mode, hid])]
      exact serve_meets hdone h hk c verb args

theorem meets_closing {v : Verdict} (h : Meets cfg t t' v) (hclosing : t.session.closing = true) :
    t'.session.closing = true := by
  cases v with
  | closes => exact h
  | fails | ends => exact h.2.trans hclosing
  | serves m => exact h.2.2.1.trans hclosing

/-- Every command comes to what its verdict says. -/
theorem command_meets {a : StorageAdaptor} (h : Rep a.store) (hk : a.killActive = false) (clk : Clock)
    (session : Session) (uuid : ClientId) (value : List Arg) :
    Meets cfg { adaptor := a, clk := clk, session := session }
      (onCommandReceived py cfg a clk session uuid value) (verdict py cfg (mode cfg session) value) := by
  cases value with
  | nil => exact ⟨rfl, rfl⟩
  | cons command args =>
    simp only [onCommandReceived, processCommand, verdict, hk, Bool.false_eq_true, if_false]
    cases command.decode with
    | none => exact ⟨rfl, rfl⟩
    | some name =>
      have hmode : (mode cfg session).locked = lockedOut cfg session := rfl
      simp only [hmode]
      by_cases hl : lockedOut cfg session = true
      · rw [if_pos hl, if_pos hl]
        cases checkPassword cfg (Verb.named (py.lower name)) args with
        | raised => exact ⟨rfl, rfl⟩
        | granted =>
          refine ⟨rfl, by simp [Turn.reply], rfl, ?_⟩
          have hopen : lockedOut cfg { session with authorized := true } = false := by
            unfold lockedOut
            split
            · rfl
            · simp
          simp only [Turn.reply, mode, hopen]
        | refused => exact meets_closing (dispatch_meets rfl h hk uuid _ args) rfl
      · rw [if_neg hl, if_neg hl]
        exact dispatch_meets rfl h hk uuid _ args

structure Moment where
  adaptor : StorageAdaptor
  clk : Clock
  uuid : ClientId

/-- A connection, with the number of its commands so far. -/
structure Talk where
  session : Session
  commands : Nat := 0
  silent : Bool := false
  exited : Bool := false

def dispatch (py : Builtins) (cfg : Config) (moments : Nat → Moment) (st : Talk) (value : List Arg) :
    Talk × Bool :=
  let m := moments st.commands
  let t := onCommandReceived py cfg m.adaptor m.clk st.session m.uuid value
  ({ session := t.session
     commands := st.commands + 1
     silent := st.silent || t.writes.isEmpty
     exited := decide (t.ending = .exited) }, decide (t.ending = .done))

/-- The beginning of a request that more bytes will complete. -/
def Begins (py : Builtins) (depth : Nat) (rest : Bytes) : Prop :=
  ∃ t value, t ≠ [] ∧ Request py depth (rest ++ t) value

/-- The loop goes on, has answered all commands and has the beginning of the
next one, or the connection was closed. -/
def Fine (py : Builtins) (depth : Nat) : Loop Talk → Prop
  | .waiting st rest => st.session.closing = true ∨ (st.silent = false ∧ Begins py depth rest)
  | .ended st _ => st.session.closing = true ∨ st.exited = true

/-- No kill is requested meanwhile, and the storage is kept in order. -/
def Running (moments : Nat → Moment) : Prop :=
  ∀ n, Rep (moments n).adaptor.store ∧ (moments n).adaptor.killActive = false

/-- Whatever the server does meanwhile, the connection is not dead after the
bytes of `s`. -/
def Alive (py : Builtins) (cfg : Config) (depth : Nat) (session : Session) (s : Bytes) : Prop :=
  ∀ moments : Nat → Moment, Running moments →
      Fine py depth (receiveCommands py depth (dispatch py cfg moments) s.length { session := session } s)

/-- Requests that are served, one after the other, and the beginning of
another, or one that closes the connection. -/
inductive Orderly (py : Builtins) (cfg : Config) (depth : Nat) : Mode → Bytes → Prop
  | pending {m : Mode} {s : Bytes} : Begins py depth s → Orderly py cfg depth m s
  | served {m m' : Mode} {w rest : Bytes} {value : List Arg} : Request py depth w value →
      verdict py cfg m value = .serves m' → Orderly py cfg depth m' rest →
        Orderly py cfg depth m (w ++ rest)
  | closed {m : Mode} {w : Bytes} {value : List Arg} (rest : Bytes) : Request py depth w value →
      (verdict py cfg m value = .closes ∨ verdict py cfg m value = .ends) →
        Orderly py cfg depth m (w ++ rest)

variable {depth : Nat} {moments : Nat → Moment} {s : Bytes} {st : Talk}

variable (py cfg) in
theorem dispatch_turn (h : Running moments) (st : Talk) (value : List Arg) : ∃ t₀ t : Turn,
    t₀.session = st.session ∧ Meets cfg t₀ t (verdict py cfg (mode cfg st.session) value) ∧
      dispatch py cfg moments st value = ({ session := t.session
                                            commands := st.commands + 1
                                            silent := st.silent || t.writes.isEmpty
                                            exited := decide (t.ending = .exited) },
        decide (t.ending = .done)) := by
  obtain ⟨hrep, hk⟩ := h st.commands
  exact ⟨_, _, rfl, command_meets hrep hk (moments st.commands).clk st.session
    (moments st.commands).uuid value, rfl⟩

theorem fine_closing (h : Running moments) (hclosing : st.session.closing = true) (fuel : Nat) :
    Fine py depth (receiveCommands py depth (dispatch py cfg moments) fuel st s) := by
  induction fuel generalizing st s with
  | zero => exact .inl hclosing
  | succ fuel ih =>
    rw [receiveCommands]
    cases readCommand py depth s with
    | more | raised => exact .inl hclosing
    | done value rest =>
      obtain ⟨t₀, t, hsession, hmeets, heq⟩ := dispatch_turn py cfg h st value
      have hstill := meets_closing hmeets (by rw [hsession, hclosing])
      simp only [heq]
      split
      · exact ih hstill
      · exact .inl hstill

theorem receive_served {w : Bytes} {value : List Arg} {m : Mode} (rest : Bytes) (h : Running moments)
    (hw : Request py depth w value) (hv : verdict py cfg (mode cfg st.session) value = .serves m)
    (fuel : Nat) : ∃ st', mode cfg st'.session = m ∧ st'.session.closing = st.session.closing ∧
      st'.silent = st.silent ∧ st'.exited = false ∧
      receiveCommands py depth (dispatch py cfg moments) (fuel + 1) st (w ++ rest) =
        receiveCommands py depth (dispatch py cfg moments) fuel st' rest := by
  obtain ⟨t₀, t, hsession, hmeets, heq⟩ := dispatch_turn py cfg h st value
  rw [hv] at hmeets
  obtain ⟨hdone, hwrites, hclosing, hmode⟩ := hmeets
  refine ⟨(dispatch py cfg moments st value).1, ?_, ?_, ?_, ?_, ?_⟩
  · rw [heq, hmode]
  · rw [heq, hclosing, hsession]
  · rw [heq]
    simp [hwrites]
  · rw [heq]
    simp [hdone]
  · rw [receiveCommands, (recognises_request depth).takes hw]
    simp only
    rw [if_pos (by rw [heq]; exact decide_eq_true hdone)]

theorem fine_orderly (h : Running moments) {m : Mode} (ho : Orderly py cfg depth m s)
    (hm : mode cfg st.session = m) (hsilent : st.silent = false) {fuel : Nat} (hfuel : s.length ≤ fuel) :
    Fine py depth (receiveCommands py depth (dispatch py cfg moments) fuel st s) := by
  induction ho generalizing st fuel with
  | @pending m s hbegins =>
    cases fuel with
    | zero => exact .inr ⟨hsilent, hbegins⟩
    | succ fuel =>
      obtain ⟨t, value, ht, hw⟩ := hbegins
      rw [receiveCommands, (recognises_request depth).more hw ht]
      exact .inr ⟨hsilent, t, value, ht, hw⟩
  | @served m m' w rest value hw hv _ ih =>
    have hlength := List.length_pos_of_ne_nil (request_ne_nil hw)
    rw [List.length_append] at hfuel
    obtain ⟨fuel, rfl⟩ : ∃ n, fuel = n + 1 := Nat.exists_eq_succ_of_ne_zero (by omega)
    obtain ⟨st', hmode, -, hsilent', -, heq⟩ := receive_served rest h hw (hm ▸ hv) fuel
    rw [heq]
    exact ih hmode (hsilent'.trans hsilent) (by omega)
  | @closed m w value rest hw hv =>
    have hlength := List.length_pos_of_ne_nil (request_ne_nil hw)
    rw [List.length_append] at hfuel
    obtain ⟨fuel, rfl⟩ : ∃ n, fuel = n + 1 := Nat.exists_eq_succ_of_ne_zero (by omega)
    obtain ⟨t₀, t, hsession, hmeets, heq⟩ := dispatch_turn py cfg h st value
    rw [hm] at hmeets
    rw [receiveCommands, (recognises_request depth).takes hw]
    simp only [heq]
    obtain hv | hv := hv
    · rw [hv] at hmeets
      have hclosed : t.session.closing = true := hmeets
      split
      · exact fine_closing h hclosed fuel
      · exact .inl hclosed
    · rw [hv] at hmeets
      have hnot : t.ending ≠ .done := by
        rw [hmeets.1]
        decide
      rw [if_neg (by simp [hnot])]
      exact .inr (decide_eq_true hmeets.1)

theorem orderly_fine (h : Running moments) (hopen : st.session.closing = false)
    (hexited : st.exited = false) {fuel : Nat}
    (hfine : Fine py depth (receiveCommands py depth (dispatch py cfg moments) fuel st s)) :
    Orderly py cfg depth (mode cfg st.session) s := by
  have hnot : ¬ (st.session.closing = true ∨ st.exited = true) := by simp [hopen, hexited]
  induction fuel generalizing st s with
  | zero =>
    obtain hclosing | ⟨-, hbegins⟩ := hfine
    · exact absurd (.inl hclosing) hnot
    · exact .pending hbegins
  | succ fuel ih =>
    cases hread : readCommand py depth s with
    | more =>
      rw [receiveCommands, hread] at hfine
      obtain hclosing | ⟨-, hbegins⟩ := hfine
      · exact absurd (.inl hclosing) hnot
      · exact .pending hbegins
    | raised =>
      rw [receiveCommands, hread] at hfine
      exact absurd hfine hnot
    | done value rest =>
      obtain ⟨w, rfl, hw⟩ := (recognises_request depth).taken hread
      cases hv : verdict py cfg (mode cfg st.session) value with
      | closes => exact .closed rest hw (.inl hv)
      | ends => exact .closed rest hw (.inr hv)
      | serves m =>
        obtain ⟨st', hmode, hclosing, -, hexited', heq⟩ := receive_served rest h hw hv fuel
        rw [heq] at hfine
        have hopen' : st'.session.closing = false := hclosing.trans hopen
        refine .served hw hv (hmode ▸ ih hopen' hexited' hfine ?_)
        simp [hopen', hexited']
      | fails =>
        -- the exception ends the task that reads the connection
        obtain ⟨t₀, t, hsession, hmeets, heq⟩ := dispatch_turn py cfg h st value
        rw [hv] at hmeets
        rw [receiveCommands, hread] at hfine
        simp only [heq] at hfine
        rw [if_neg (by simp [hmeets.1])] at hfine
        obtain hclosing | hends := hfine
        · have hclosing' : t.session.closing = true := hclosing
          rw [hmeets.2, hsession, hopen] at hclosing'
          cases hclosing'
        · have hends' : decide (t.ending = .exited) = true := hends
          rw [hmeets.1] at hends'
          cases hends'

def quiet : Nat → Moment := fun _ => ⟨.new (empty 5), ⟨fun _ => 0, 0⟩, ⟨"x", by decide⟩⟩

theorem quiet_running : Running quiet := fun _ => ⟨rep_empty 5, rfl⟩

/-- A connection is never silently dead exactly when what it sends are requests
that can be served, up to one that closes it or the beginning of another. -/
theorem connection_alive (session : Session) (hopen : session.closing = false) (s : Bytes) :
    Alive py cfg depth session s ↔ Orderly py cfg depth (mode cfg session) s := by
  constructor
  · intro h
    have hfine := h quiet quiet_running
    exact orderly_fine quiet_running hopen rfl hfine
  · intro h moments hrunning
    exact fine_orderly hrunning h rfl rfl le_rfl

/-- An array of negative length is never complete, whatever follows. -/
theorem negative_swallows {w u : Bytes} {n : Int} {value : List Arg} (hw : Number py.intOf w n)
    (hn : n < 0) (h : Request py depth u value) (rest t : Bytes) :
    '*'.toUInt8 :: (w ++ rest) ≠ u ++ t := by
  intro he
  cases h with
  | raw hc =>
    obtain ⟨rfl, -⟩ := List.cons.inj he
    exact hc (by decide)
  | resp hc hv =>
    cases depth with
    | zero => exact hv
    | succ depth =>
      obtain ⟨c, u, hu, hlayer⟩ := hv
      obtain ⟨rfl, rfl⟩ := List.cons.inj hu
      obtain ⟨rfl, hrest⟩ := List.cons.inj he
      cases hlayer with
      | int hc | float hc | null hc | bytes hc => exact absurd hc (by decide)
      | @array u ws items _ hlen _ =>
        have hnumber := (recognises_number py.intOf).takes hw rest
        have hcount := (recognises_number py.intOf).takes hlen (ws.flatten ++ t)
        have hsame : w ++ rest = u ++ (ws.flatten ++ t) := hrest.trans (List.append_assoc _ _ _)
        obtain ⟨hn', -⟩ := Scanned.done.inj (hcount.symm.trans ((congrArg _ hsame.symm).trans hnumber))
        omega

def emptyArray : Bytes := '*'.toUInt8 :: (encode (toString (0 : Int)) ++ crlf)

def negativeArray : Bytes :=
  '*'.toUInt8 :: (encode (toString (-1 : Int)) ++ crlf ++ encode "PING\r\n")

theorem empty_array_kills : ¬ Alive ascii plainConfig 2 { peername := ⟨"10.0.0.1", 40001⟩ } emptyArray ∧
    ¬ Alive ascii plainConfig 2 { peername := ⟨"10.0.0.1", 40001⟩ } negativeArray := by
  constructor
  · intro h
    have hnumber : Number ascii.intOf (encode (toString (0 : Int)) ++ crlf) 0 :=
      Pipeline.number_str 0 (by decide)
    have hrequest : Request ascii 2 emptyArray [] := by
      refine .resp (v := .array []) (by decide) ⟨_, _, rfl, ?_⟩
      have hlayer : Layer ascii (Resp ascii 1) '*'.toUInt8
        (encode (toString (0 : Int)) ++ crlf ++ ([] : List Bytes).flatten) (.array []) :=
          .array rfl hnumber .nil
      rwa [List.flatten_nil, List.append_nil] at hlayer
    have hread := (recognises_request 2).takes hrequest []
    rw [List.append_nil] at hread
    have hfine := h quiet quiet_running
    have hlength : emptyArray.length = 3 + 1 := by decide
    rw [hlength, receiveCommands, hread] at hfine
    obtain hclosing | hends := hfine
    · cases hclosing
    · cases hends
  · intro h
    have hnumber : Number ascii.intOf (encode (toString (-1 : Int)) ++ crlf) (-1) :=
      Pipeline.number_str (-1) (by decide)
    have hnever : ∀ x u value t, Request ascii 2 u value → negativeArray ++ x ≠ u ++ t := by
      intro x u value t hu
      have hne := negative_swallows hnumber (by decide) hu (encode "PING\r\n" ++ x) t
      rwa [← List.append_assoc, ← List.cons_append] at hne
    have hfine := h quiet quiet_running
    have hlength : negativeArray.length = 10 + 1 := by decide
    rw [hlength, receiveCommands] at hfine
    cases hread : readCommand ascii 2 negativeArray with
    | done value rest =>
      obtain ⟨u, hu, hrequest⟩ := (recognises_request 2).taken hread
      exact hnever [] u value rest hrequest (by rw [List.append_nil, hu])
    | more =>
      rw [hread] at hfine
      obtain hclosing | ⟨-, t, value, -, hrequest⟩ := hfine
      · cases hclosing
      · exact hnever t _ value [] hrequest (List.append_nil _).symm
    | raised =>
      rw [hread] at hfine
      obtain hclosing | hends := hfine
      · cases hclosing
      · cases hends

theorem connection_alive_conn : ∃ s : Bytes, s ≠ [] ∧
    Alive ascii plainConfig 2 { peername := ⟨"10.0.0.1", 40001⟩ } s := by
  have hsendable : (Pipeline.Frame.resp ["CONN", "alice"]).Sendable := ⟨by decide, by decide⟩
  obtain ⟨w, -, hw⟩ := Pipeline.request_frame ascii 0 hsendable
  have hv : verdict ascii plainConfig ⟨false, false⟩ (words ["CONN", "alice"]) = .serves ⟨false, true⟩ := by
    decide +kernel
  have horderly : Orderly ascii plainConfig 2 ⟨false, false⟩ (w ++ []) :=
    .served hw hv (.pending ⟨w, _, request_ne_nil hw, hw⟩)
  rw [List.append_nil] at horderly
  exact ⟨w, request_ne_nil hw, (connection_alive _ rfl w).mpr horderly⟩

end Livelock.Responsive
