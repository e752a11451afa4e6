import Livelock.GenuineAnswers
import Livelock.LockMethods

namespace Livelock.MethodCalls

open Livelock.Lib Livelock.Shared Livelock.MemoryStorage Livelock.StorageRun Livelock.StorageTable
open Livelock.Server Livelock.CommandSpec Livelock.ServerRun Livelock.ServerLease Livelock.ClientReader
open Livelock.CallHistory Livelock.Exchange Livelock.LockService Livelock.GenuineAnswers Livelock.Ascii
open Livelock.Client (LiveLock Process Exc Comp agreed rows)
open Livelock.Signals (steps_unique)
open Livelock.Lib.Prog (exec_bind exec_handle)

/-- The methods of a lock object, by what they return. -/
inductive Method : Type → Type
  | acquire : Method Bool
  | release (reconnect : Bool) : Method Bool
  | isLocked : Method Bool
  | locked : Method Bool
  | signal (name : Signal) : Method Bool
  | removeSignal (name : Signal) : Method Bool
  | signalExists (name : Signal) : Method Bool
  | cancel : Method Bool
  | cancelled : Method Bool
  | find (pattern : String) : Method (List (Value × Value))

namespace Method

variable {α : Type} (m : Method α)

def program (proc : Process) (depth : Nat) (lock : LiveLock) {α : Type} : Method α → Comp α
  | .acquire => lock._acquire proc depth
  | .release reconnect => do
    let (resp, _) ← lock.release proc depth reconnect
    pure resp
  | .isLocked => LiveLock.isLocked proc depth lock.id
  | .locked => lock.locked proc depth
  | .signal name => lock.signal proc depth name
  | .removeSignal name => lock.removeSignal proc depth name
  | .signalExists name => lock.signalExists proc depth name
  | .cancel => lock.cancel proc depth
  | .cancelled => lock.cancelled proc depth
  | .find pattern => LiveLock.find proc depth pattern

def words (lock : LiveLock) {α : Type} : Method α → List String
  | .acquire => lock.acquireWords
  | .release _ => lock.releaseWords
  | .isLocked | .locked => ["LOCKED", lock.id]
  | .signal name => ["SIGSET", lock.id, name]
  | .removeSignal name => ["SIGDEL", lock.id, name]
  | .signalExists name => ["SIGEXISTS", lock.id, name]
  | .cancel => ["SIGSET", lock.id, "CANCEL"]
  | .cancelled => ["SIGEXISTS", lock.id, "CANCEL"]
  | .find pattern => ["FIND", pattern]

def reconnects {α : Type} : Method α → Bool
  | .release reconnect => reconnect
  | _ => true

def read {α : Type} : Method α → Response → Option α
  | .find _, r => rows r
  | .acquire, r | .release _, r | .isLocked, r | .locked, r | .signal _, r | .removeSignal _, r
  | .signalExists _, r | .cancel, r | .cancelled, r => some (decide (r.str? = some "1"))

def caught {α : Type} : Method α → Exc → Except Exc α
  | .cancelled, .client msg code =>
    if code = some (ErrorCode.keyNotExists.number : Int) then .ok true else .error (.client msg code)
  | _, e => .error e

def heard (answered : Except Exc Response) : Except Exc α :=
  match answered with
  | .error e => m.caught e
  | .ok r =>
    match m.read r with
    | none => .error .other
    | some a => .ok a

def operation (py : Builtins) (c : ClientId) (lock : LiveLock) {α : Type} : Method α → Op
  | .acquire => .acquire c lock.id lock.reentrant
  | .release _ => .release c lock.id
  | .isLocked | .locked => .locked lock.id
  | .signal name => .addSignal lock.id (py.lower name)
  | .removeSignal name => .removeSignal lock.id (py.lower name)
  | .signalExists name => .hasSignal lock.id (py.lower name)
  | .cancel => .addSignal lock.id (py.lower "CANCEL")
  | .cancelled => .hasSignal lock.id (py.lower "CANCEL")
  | .find pattern => .find pattern

/-- What it returns when the table answers so, if it does not raise. -/
def returns {α : Type} : Method α → Answer → Option α
  | .find _, .found locks => some (locks.map fun lock => (.str lock.1, .float (.finite lock.2)))
  | .acquire, .bool b | .release _, .bool b | .isLocked, .bool b | .locked, .bool b => some b
  | .signal _, .signal (.bool b) | .removeSignal _, .signal (.bool b) | .signalExists _, .signal (.bool b)
  | .cancel, .signal (.bool b) | .cancelled, .signal (.bool b) => some b
  | .cancelled, .signal .keyNotExists => some true
  | _, _ => none

end Method

variable {py : Builtins} {cfg : Config} {proc : Process} {T : Time} {past : List Occurrence} {w w' : World}
  {ws : List String} {r : Response} {lock : LiveLock} {α : Type} {m : Method α} {depth : Nat} {c : ClientId}
  {op : ClientId → Op}

theorem exec_agreed {reconnect : Bool} {result : Except Exc Bool}
    (h : (agreed proc depth ws reconnect).Exec (Responds py cfg) (Meanwhile py cfg) w result w') :
    ∃ answered, (Client.sendCommand proc depth ws reconnect true).Exec (Responds py cfg) (Meanwhile py cfg) w
      answered w' ∧ result = answered.map fun r => decide (r.str? = some "1") := by
  obtain ⟨r, w₁, hsend, hpure⟩ | ⟨e, hsend, rfl⟩ := exec_bind h
  · obtain ⟨rfl, rfl⟩ := hpure
    exact ⟨.ok r, hsend, rfl⟩
  · exact ⟨.error e, hsend, rfl⟩

theorem exec_release {reconnect : Bool} {result : Except Exc Bool}
    (h : ((Method.release reconnect).program proc depth lock).Exec (Responds py cfg) (Meanwhile py cfg) w result w') :
    (agreed proc depth lock.releaseWords reconnect).Exec (Responds py cfg) (Meanwhile py cfg) w result w' := by
  obtain ⟨p, w₁, hrelease, hpure⟩ | ⟨e, hrelease, rfl⟩ := exec_bind h
  · obtain ⟨rfl, rfl⟩ := hpure
    obtain ⟨b, w₂, hexec, hpure⟩ | ⟨e, -, he⟩ := exec_bind hrelease
    · obtain ⟨hp, rfl⟩ := hpure
      cases hp
      exact hexec
    · cases he
  · obtain ⟨b, w₂, -, hpure⟩ | ⟨e', hexec, he⟩ := exec_bind hrelease
    · cases hpure.1
    · cases he
      exact hexec

theorem exec_cancelled {result : Except Exc Bool}
    (h : (lock.cancelled proc depth).Exec (Responds py cfg) (Meanwhile py cfg) w result w') :
    ∃ answered, (Client.sendCommand proc depth (Method.cancelled.words lock) true true).Exec (Responds py cfg)
      (Meanwhile py cfg) w answered w' ∧ result = Method.cancelled.heard answered := by
  obtain ⟨b, hexec, rfl⟩ | ⟨e, w₁, hexec, hcatch⟩ := exec_handle h
  · obtain ⟨answered, hsend, hb⟩ := exec_agreed hexec
    cases answered with
    | ok r =>
      cases hb
      exact ⟨.ok r, hsend, rfl⟩
    | error e => cases hb
  · obtain ⟨answered, hsend, he⟩ := exec_agreed hexec
    cases answered with
    | ok r => cases he
    | error e' =>
      cases he
      cases e with
      | client msg code =>
        by_cases hcode : code = some (ErrorCode.keyNotExists.number : Int)
        · simp only [if_pos hcode] at hcatch
          obtain ⟨rfl, rfl⟩ := hcatch
          exact ⟨_, hsend, (if_pos hcode).symm⟩
        · simp only [if_neg hcode] at hcatch
          obtain ⟨rfl, rfl⟩ := hcatch
          exact ⟨_, hsend, (if_neg hcode).symm⟩
      | os | refused | other =>
        obtain ⟨rfl, rfl⟩ := hcatch
        exact ⟨_, hsend, rfl⟩

theorem exec_find {pattern : String} {result : Except Exc (List (Value × Value))}
    (h : (LiveLock.find proc depth pattern).Exec (Responds py cfg) (Meanwhile py cfg) w result w') :
    ∃ answered, (Client.sendCommand proc depth ["FIND", pattern] true true).Exec (Responds py cfg)
      (Meanwhile py cfg) w answered w' ∧ result = (Method.find pattern).heard answered := by
  obtain ⟨r, w₁, hsend, hrest⟩ | ⟨e, hsend, rfl⟩ := exec_bind h
  · refine ⟨.ok r, ?_⟩
    cases hrows : rows r with
    | none =>
      rw [hrows] at hrest
      obtain ⟨rfl, rfl⟩ := hrest
      exact ⟨hsend, by rw [Method.heard, Method.read, hrows]⟩
    | some result =>
      rw [hrows] at hrest
      obtain ⟨rfl, rfl⟩ := hrest
      exact ⟨hsend, by rw [Method.heard, Method.read, hrows]⟩
  · exact ⟨.error e, hsend, rfl⟩

theorem exec_method {result : Except Exc α}
    (h : (m.program proc depth lock).Exec (Responds py cfg) (Meanwhile py cfg) w result w') :
    ∃ answered, (Client.sendCommand proc depth (m.words lock) m.reconnects true).Exec (Responds py cfg)
      (Meanwhile py cfg) w answered w' ∧ result = m.heard answered := by
  have hagreed : ∀ {m : Method Bool} {result : Except Exc Bool},
      (∀ r, m.read r = some (decide (r.str? = some "1"))) → (∀ e, m.caught e = .error e) →
      (agreed proc depth (m.words lock) m.reconnects).Exec (Responds py cfg) (Meanwhile py cfg) w result w' →
      ∃ answered, (Client.sendCommand proc depth (m.words lock) m.reconnects true).Exec (Responds py cfg)
        (Meanwhile py cfg) w answered w' ∧ result = m.heard answered := by
    intro m result hread hcaught hexec
    obtain ⟨answered, hsend, rfl⟩ := exec_agreed hexec
    refine ⟨answered, hsend, ?_⟩
    cases answered with
    | ok r =>
      rw [Method.heard, hread]
      rfl
    | error e => exact (hcaught e).symm
  cases m with
  | release reconnect => exact hagreed (fun _ => rfl) (fun _ => rfl) (exec_release h)
  | cancelled => exact exec_cancelled h
  | find pattern => exact exec_find h
  | acquire | isLocked | locked | signal | removeSignal | signalExists | cancel =>
    exact hagreed (fun _ => rfl) (fun _ => rfl) h

theorem twoTexts_inj {text text' : String} {p : String × String}
    (h : twoTexts (words [text, text']) = some p) : p = (text, text') := by
  have htext : ∀ s t, Arg.text (.bytes (encode s)) = some t → t = s := by
    intro s t ht
    rw [Arg.text, decode_arg] at ht
    split at ht
    · exact (Option.some_inj.mp ht).symm
    · cases ht
  obtain ⟨s, hs, h⟩ := Option.bind_eq_some_iff.mp h
  obtain ⟨s', hs', h⟩ := Option.bind_eq_some_iff.mp h
  rw [← Option.some_inj.mp h, htext _ _ hs, htext _ _ hs']

variable (py) in
def Means (ws : List String) (op : ClientId → Op) : Prop :=
  ∃ name args, ws = name :: args ∧ Verb.named (py.lower name) ∈ lockVerbs ∧
    ∀ c asked, operationOf py c (Verb.named (py.lower name)) (words args) = some asked → asked = op c

theorem means_one {name text : String} (verb : Verb) {f : ClientId → String → Op}
    (hverb : Verb.named (py.lower name) = verb) (hmem : verb ∈ lockVerbs)
    (hop : ∀ c args, operationOf py c verb args = (oneText args).map (f c)) :
    Means py [name, text] fun c => f c text := by
  subst hverb
  refine ⟨name, [text], rfl, hmem, fun c asked h => ?_⟩
  rw [hop] at h
  obtain ⟨text', htext, rfl⟩ := Option.map_eq_some_iff.mp h
  rw [oneText_inj htext]

theorem means_two {name text text' : String} (verb : Verb) {f : String × String → Op}
    (hverb : Verb.named (py.lower name) = verb) (hmem : verb ∈ lockVerbs)
    (hop : ∀ c args, operationOf py c verb args = (twoTexts args).map f) :
    Means py [name, text, text'] fun _ => f (text, text') := by
  subst hverb
  refine ⟨name, [text, text'], rfl, hmem, fun c asked h => ?_⟩
  rw [hop] at h
  obtain ⟨p, hp, rfl⟩ := Option.map_eq_some_iff.mp h
  rw [twoTexts_inj hp]

variable (py lock m) in
theorem method_means : Means py (m.words lock) fun c => m.operation py c lock := by
  have hset : ∀ name, Means py ["SIGSET", lock.id, name] fun _ => .addSignal lock.id (py.lower name) :=
    fun name => means_two .sigset (f := fun p => .addSignal p.1 (py.lower p.2))
      (named_lower py rfl (by decide +kernel)) (by decide) fun _ _ => rfl
  have hexists : ∀ name, Means py ["SIGEXISTS", lock.id, name] fun _ => .hasSignal lock.id (py.lower name) :=
    fun name => means_two .sigexists (f := fun p => .hasSignal p.1 (py.lower p.2))
      (named_lower py rfl (by decide +kernel)) (by decide) fun _ _ => rfl
  have hlocked : Means py ["LOCKED", lock.id] fun _ => .locked lock.id :=
    means_one .locked (f := fun _ => .locked) (named_lower py rfl (by decide +kernel)) (by decide) fun _ _ => rfl
  cases m with
  | acquire =>
    cases hr : lock.reentrant with
    | false =>
      rw [Method.words, LiveLock.acquireWords, hr]
      simp only [Method.operation, hr]
      exact means_one .aq (f := fun c l => .acquire c l false) (verb_aq py) (by decide) fun _ _ => rfl
    | true =>
      rw [Method.words, LiveLock.acquireWords, hr]
      simp only [Method.operation, hr]
      exact means_one .aqr (f := fun c l => .acquire c l true) (named_lower py rfl (by decide +kernel)) (by decide)
        fun _ _ => rfl
  | release =>
    exact means_one .release (f := .release) (named_lower py rfl (by decide +kernel)) (by decide) fun _ _ => rfl
  | isLocked | locked => exact hlocked
  | signal name => exact hset name
  | cancel => exact hset "CANCEL"
  | removeSignal name =>
    exact means_two .sigdel (f := fun p => .removeSignal p.1 (py.lower p.2)) (named_lower py rfl (by decide +kernel))
      (by decide) fun _ _ => rfl
  | signalExists name => exact hexists name
  | cancelled => exact hexists "CANCEL"
  | find pattern =>
    exact means_one .find (f := fun _ => .find) (named_lower py rfl (by decide +kernel)) (by decide) fun _ _ => rfl

theorem means_plain (h : Means py ws op) : Plain py ws := by
  obtain ⟨name, args, rfl, hverb, -⟩ := h
  apply plain_verb rfl
  intro hconn
  rw [hconn] at hverb
  exact absurd hverb (by decide)

theorem means_asks (h : Means py ws op) : asksLocks py (words ws) = true := by
  obtain ⟨name, args, rfl, hverb, -⟩ := h
  simp only [words, List.map_cons, asksLocks, decode_arg, Option.any_some]
  exact decide_eq_true hverb

theorem means_meaning (h : Means py ws op) (speaker : Option ClientId) (uuid : ClientId) :
    meaning py speaker uuid (words ws) = .nothing ∨
      ∃ c, speaker = some c ∧ meaning py speaker uuid (words ws) = .operation (op c) := by
  obtain ⟨name, args, rfl, hverb, hop⟩ := h
  have hconn : Verb.named (py.lower name) ≠ .conn := by
    intro hconn
    rw [hconn] at hverb
    exact absurd hverb (by decide)
  simp only [words, List.map_cons, meaning, decode_arg, if_neg hconn]
  cases speaker with
  | none => exact .inl rfl
  | some c =>
    cases hasked : operationOf py c (Verb.named (py.lower name)) (words args) with
    | none =>
      rw [words] at hasked
      simp only [hasked]
      exact .inl rfl
    | some asked =>
      obtain rfl := hop c asked hasked
      rw [words] at hasked
      simp only [hasked]
      exact .inr ⟨c, rfl, rfl⟩

theorem rows_found (locks : List (LockId × Time)) :
    rows (.value (.list (locks.map fun lock => .list [.str lock.1, .float (.finite lock.2)]))) =
      some (locks.map fun lock => (.str lock.1, .float (.finite lock.2))) := by
  have hrows : ∀ locks : List (LockId × Time),
      (locks.map fun lock => Value.list [.str lock.1, .float (.finite lock.2)]).mapM Client.unpack =
        some (locks.map fun lock => (.str lock.1, .float (.finite lock.2))) := by
    intro locks
    induction locks with
    | nil => rfl
    | cons lock locks ih =>
      rw [List.map_cons, List.mapM_cons, ih]
      rfl
  cases locks with
  | nil => rfl
  | cons lock locks => exact hrows (lock :: locks)

theorem read_returns {clk clk' : Clock} {t t' : Table} {answer : Answer} {a : α}
    (hstep : Table.Step py.fnmatch Service.grace clk clk' t (m.operation py c lock) answer t')
    (htold : Told answer r) (hr : ∀ msg code, r ≠ .error msg code) (hread : m.read r = some a) :
    m.returns answer = some a := by
  have hbool : ∀ b : Bool, decide ((Response.text (if b then "1" else "0")).str? = some "1") = b := by decide
  cases htold with
  | keyNotExists msg => exact absurd rfl (hr _ _)
  | bool b =>
    cases m with
    | acquire | release | isLocked | locked =>
      rw [Method.read, hbool] at hread
      exact hread
    | signal | removeSignal | signalExists | cancel | cancelled | find => cases hstep
  | signal b =>
    cases m with
    | signal | removeSignal | signalExists | cancel | cancelled =>
      rw [Method.read, hbool] at hread
      exact hread
    | acquire | release | isLocked | locked | find => cases hstep
  | found locks =>
    cases m with
    | find =>
      rw [← hread]
      exact (rows_found locks).symm
    | acquire | release | isLocked | locked | signal | removeSignal | signalExists | cancel | cancelled => cases hstep

variable (py cfg T) in
/-- Later than the history `past` the server has executed the command on a
connection of the client, in whose name the operation is a step of the table,
which answers so. -/
def Takes (past : List Occurrence) (w : World) (ws : List String) (op : ClientId → Op) (answer : Answer) : Prop :=
  ∃ pre o post sv sv' k uuid clk c, w.history = pre ++ o :: post ∧ past <+: pre ∧
    Run (Steps py cfg) (.start T) pre sv ∧ Steps py cfg sv o sv' ∧
    (k ∈ w.net.mine ∧ o.event = .command k uuid (words ws) ∧ idOf sv k = some c) ∧
    w.net.client.clientId = some c.name ∧ Table.Step py.fnmatch Service.grace o.clk clk (holding sv.adaptor.store)
      (op c) answer (holding sv'.adaptor.store)

theorem takes_before {answer : Answer} {later : List Occurrence} {v : Server} (h : Takes py cfg T past w ws op answer)
    (hlater : w.history <+: later) (hv : Run (Steps py cfg) (.start T) later v) :
    ∃ pre o os sv sv' clk c, later = pre ++ o :: os ∧ past <+: pre ∧ Run (Steps py cfg) (.start T) pre sv ∧
      Steps py cfg sv o sv' ∧ Run (Steps py cfg) sv' os v ∧ w.net.client.clientId = some c.name ∧
      Table.Step py.fnmatch Service.grace o.clk clk (holding sv.adaptor.store) (op c) answer
        (holding sv'.adaptor.store) := by
  obtain ⟨pre, o, post, sv, sv', -, -, clk, c, hsplit, hpast, hrun, hstep, -, hc, htable⟩ := h
  obtain ⟨rest, rfl⟩ := hlater
  rw [hsplit, List.append_assoc, List.cons_append] at hv ⊢
  obtain ⟨u, hu, hafter⟩ := hv.append_inv
  have hdet : ∀ u e u₁ u₂, Steps py cfg u e u₁ → Steps py cfg u e u₂ → u₁ = u₂ := fun _ _ _ _ => steps_unique
  obtain rfl : u = sv := hu.unique hdet hrun
  obtain ⟨u', hu', hbetween⟩ := hafter.cons_inv
  obtain rfl := steps_unique hu' hstep
  exact ⟨pre, o, post ++ rest, u, u', clk, c, rfl, hpast, hrun, hstep, hbetween, hc, htable⟩

theorem served_takes (hmeans : Means py ws op) (h : Served py cfg T past w ws r) (hr : ¬ Refusal py (words ws) r) :
    ∃ answer, Told answer r ∧ Takes py cfg T past w ws op answer := by
  obtain ⟨pre, o, post, sv, sv', k, uuid, hsplit, hpast, hpre, hstep, hk, he, hown, hread⟩ := h
  have hrefined := step_refines (sound_run hpre (sound_start T)) hstep
  obtain ⟨told, -, hserves, htells⟩ := request_serves hrefined he
  have htold : told r := htells r hread
  generalize hafter : serviceOf sv' = after at hserves
  obtain hnothing | ⟨c, hspeaker, hop⟩ := means_meaning hmeans ((serviceOf sv).speaker k) uuid
  · cases hserves with
    | nothing => exact absurd htold hr
    | joined hjoin => cases hnothing.symm.trans hjoin
    | operation hmeaning => cases hnothing.symm.trans hmeaning
  · cases hserves with
    | nothing hmeaning => cases hop.symm.trans hmeaning
    | joined hjoin => cases hop.symm.trans hjoin
    | operation hmeaning htable =>
      obtain rfl := Intent.operation.inj (hop.symm.trans hmeaning)
      obtain rfl := congrArg Service.table hafter
      exact ⟨_, htold, pre, o, post, sv, sv', k, uuid, _, c, hsplit, hpast, hpre, hstep, ⟨hk, he, hspeaker⟩,
        hown c hspeaker, htable⟩

theorem connIntent_ne_operation {uuid : ClientId} {args : List Arg} {op : Op} :
    connIntent uuid args ≠ .operation op := by
  cases args with
  | nil => exact Intent.noConfusion
  | cons arg args =>
    rw [connIntent]
    split
    · cases arg.clientId with
      | none => exact Intent.noConfusion
      | some c => exact Intent.noConfusion
    · exact Intent.noConfusion

theorem greets_meaning (h : Greets py ws) {speaker : Option ClientId} {uuid : ClientId} {op : Op} :
    meaning py speaker uuid (words ws) ≠ .operation op := by
  have hother : ∀ {name verb args}, Verb.named (py.lower name) = verb → verb ≠ .conn →
      (∀ c, operationOf py c verb (words args) = none) →
      meaning py speaker uuid (words (name :: args)) ≠ .operation op := by
    intro name verb args hverb hconn hnone
    simp only [words, List.map_cons, meaning, decode_arg, hverb, if_neg hconn]
    cases speaker with
    | none => exact Intent.noConfusion
    | some c =>
      have hasked := hnone c
      rw [words] at hasked
      simp only [hasked]
      exact Intent.noConfusion
  obtain ⟨password, rfl⟩ | hconn | ⟨info, rfl⟩ := h
  · exact hother (verb_pass py) (by decide) fun _ => rfl
  · cases ws with
    | nil => exact Intent.noConfusion
    | cons name args =>
      simp only [words, List.map_cons, meaning, decode_arg, isConn_cons.mp hconn, ↓reduceIte]
      exact connIntent_ne_operation
  · exact hother (verb_connInfo py) (by decide) fun _ => rfl

theorem greets_found (hgreets : Greets py ws) {msg : String} :
    ¬ TookEffect py past w ws (.error msg (some ErrorCode.keyNotExists.number)) := by
  rintro ⟨pre, o, post, s, s', k, uuid, told, -, -, -, -, -, -, hserves, -, htold, -⟩
  cases hserves with
  | nothing => exact htold.2 msg rfl
  | joined => cases htold
  | operation hmeaning => exact greets_meaning hgreets hmeaning

theorem caught_ok {e : Exc} {a : α} (h : m.caught e = .ok a) :
    m.returns (.signal .keyNotExists) = some a ∧ ∃ msg, e = .client msg (some ErrorCode.keyNotExists.number) := by
  cases m with
  | cancelled =>
    cases e with
    | client msg code =>
      rw [Method.caught] at h
      split at h
      · next hcode =>
        cases h
        exact ⟨rfl, msg, by rw [hcode]⟩
      · cases h
    | os | refused | other => cases h
  | acquire | release | isLocked | locked | signal | removeSignal | signalExists | cancel | find => cases h

theorem caught_error {e : Exc} {msg : String}
    (h : m.caught e = .error (.client msg (some ErrorCode.keyNotExists.number))) :
    m.returns (.signal .keyNotExists) = none ∧ e = .client msg (some ErrorCode.keyNotExists.number) := by
  cases m with
  | cancelled =>
    cases e with
    | client msg' code =>
      rw [Method.caught] at h
      split at h
      · cases h
      · next hcode =>
        cases h
        exact absurd rfl hcode
    | os | refused | other => cases h
  | acquire | release | isLocked | locked | signal | removeSignal | signalExists | cancel | find =>
    exact ⟨rfl, Except.error.inj h⟩

theorem response_takes (h : Served py cfg T past w (m.words lock) r) (hr : ∀ msg code, r ≠ .error msg code) {a : α}
    (hread : m.read r = some a) : ∃ answer, m.returns answer = some a ∧
      Takes py cfg T past w (m.words lock) (fun c => m.operation py c lock) answer := by
  have hunrefused : ¬ Refusal py (words (m.words lock)) r := by
    intro hrefused
    obtain ⟨msg, code, he⟩ := hrefused.1 (means_asks (method_means py lock m))
    exact hr msg code he
  obtain ⟨answer, htold, pre, o, post, sv, sv', k, uuid, clk, c, hsplit, hpast, hpre, hstep, hasked, hc, htable⟩ :=
    served_takes (method_means py lock m) h hunrefused
  exact ⟨answer, read_returns htable htold hr hread, pre, o, post, sv, sv', k, uuid, clk, c, hsplit, hpast, hpre,
    hstep, hasked, hc, htable⟩

theorem missing_takes (hw : Inv py cfg proc T w) {msg : String}
    (h : Explained py cfg T past (m.words lock) (.client msg (some ErrorCode.keyNotExists.number)) w) :
    Takes py cfg T past w (m.words lock) (fun c => m.operation py c lock) (.signal .keyNotExists) := by
  obtain ⟨ws, hws, hserved⟩ := h msg _ rfl
  obtain rfl | hgreets := hws
  · obtain ⟨answer, htold, htakes⟩ := served_takes (method_means py lock m) hserved fun hr => hr.2 msg rfl
    cases htold
    exact htakes
  · exact absurd (served_effect hw hserved) (greets_found hgreets)

/-- A call, with the steps of the table that it rests on. -/
theorem method_spec (hopen : ∀ session, lockedOut cfg session = false) {result : Except Exc α}
    (h : (m.program proc depth lock).Exec (Responds py cfg) (Meanwhile py cfg) w result w')
    (hw : Ready py cfg proc T w) : At py cfg proc T w.history false w' ∧
      (∀ a, result = .ok a → ∃ answer, m.returns answer = some a ∧
        Takes py cfg T w.history w' (m.words lock) (fun c => m.operation py c lock) answer) ∧
      ∀ msg, result = .error (.client msg (some ErrorCode.keyNotExists.number)) →
        m.returns (.signal .keyNotExists) = none ∧
          Takes py cfg T w.history w' (m.words lock) (fun c => m.operation py c lock) (.signal .keyNotExists) := by
  have hplain : Plain py (m.words lock) := means_plain (method_means py lock m)
  obtain ⟨answered, hsend, rfl⟩ := exec_method h
  let c : Request := {
    depth := depth
    words := m.words lock
    reconnect := m.reconnects
    result := answered }
  have hgoes : Goes py cfg proc w (some c) w' := ⟨hplain, hsend⟩
  obtain ⟨hat, hok, herror⟩ := call_spec hopen hgoes hw
  refine ⟨hat, ?_⟩
  cases answered with
  | ok r =>
    obtain ⟨hserved, hr⟩ := hok r rfl
    cases hread : m.read r with
    | none =>
      rw [Method.heard, hread]
      exact ⟨nofun, nofun⟩
    | some a =>
      rw [Method.heard, hread]
      refine ⟨fun a' ha => ?_, nofun⟩
      obtain rfl := Except.ok.inj ha
      exact response_takes hserved hr hread
  | error e =>
    refine ⟨fun a ha => ?_, fun msg he => ?_⟩
    · obtain ⟨hreturns, msg, rfl⟩ := caught_ok ha
      exact ⟨.signal .keyNotExists, hreturns, missing_takes hat.1.1 (herror _ rfl)⟩
    · obtain ⟨hreturns, rfl⟩ := caught_error he
      exact ⟨hreturns, missing_takes hat.1.1 (herror _ rfl)⟩

/-- A method of a lock object returns what a step of the table of the locks
during the call answers, and raises that a lock has no entry only when it had none. -/
theorem methods_linearize (hopen : ∀ session, lockedOut cfg session = false) (hstart : Start py cfg proc T w)
    {stages : List (Option Request)} {w₁ w₂ : World} (hrun : Run (Goes py cfg proc) w stages w₁)
    {result : Except Exc α}
    (hcall : (m.program proc depth lock).Exec (Responds py cfg) (Meanwhile py cfg) w₁ result w₂) :
    (∀ a, result = .ok a → ∃ answer, m.returns answer = some a ∧
      Takes py cfg T w₁.history w₂ (m.words lock) (fun c => m.operation py c lock) answer) ∧
    ∀ msg, result = .error (.client msg (some ErrorCode.keyNotExists.number)) →
      m.returns (.signal .keyNotExists) = none ∧
        Takes py cfg T w₁.history w₂ (m.words lock) (fun c => m.operation py c lock) (.signal .keyNotExists) :=
  (method_spec hopen hcall (ready_run hopen hrun (start_ready hstart)).1).2

def batchLock : LiveLock where
  id := "batch"
  reentrant := false
  blocking := true
  timeout := 60
  acquired := false

/-- A lock that nobody holds has been cancelled. -/
theorem methods_linearize_unheld : ∃ w answer, w.history.length = 4 ∧
    Method.returns .cancelled answer = some true ∧
    Takes ascii plainConfig 5 [] w ["SIGEXISTS", "batch", "CANCEL"]
      (fun _ => .hasSignal "batch" (ascii.lower "CANCEL")) answer := by
  have hplay : (played ascii (Method.cancelled.program homeProcess 3 batchLock)
      (greeted 0 ⟨"10.0.0.1", 40001⟩ ++ succeeds 1 ++ exchanged 0) home).map
        (fun p => (p.1.toOption, p.2.history.length)) = some (some true, 4) := by
    decide +kernel
  obtain ⟨⟨result, w⟩, hplay, hfacts⟩ := Option.map_eq_some_iff.mp hplay
  obtain ⟨hresult, hlength⟩ := Prod.mk.inj hfacts
  obtain ⟨hok, -⟩ := methods_linearize (fun _ => rfl) home_start .nil (played_exec hplay)
  cases result with
  | error e => cases hresult
  | ok b =>
    obtain rfl := Option.some_inj.mp hresult
    obtain ⟨answer, hreturns, htakes⟩ := hok true rfl
    exact ⟨w, answer, hlength, hreturns, htakes⟩

end Livelock.MethodCalls
