import Livelock.LockService
import Livelock.MaintenanceTiming
import Livelock.Password
import Mathlib.Tactic.Linarith
import Mathlib.Tactic.Positivity

namespace Livelock.LockIndependence

open Livelock.Lib Livelock.Shared Livelock.MemoryStorage Livelock.StorageInvariant Livelock.StorageRun
open Livelock.StorageTable
open Livelock.Server Livelock.CommandSpec Livelock.ServerRun Livelock.ServerLease
open Livelock.LockService Livelock.Ascii
open Livelock.MaintenanceTiming (cause answer_writes)
open Livelock.LatestConn
open Livelock.ClientReader (Response)
open Livelock.Password (unlocks)

def lockOf : Op → Option LockId
  | .acquire _ l _ | .release _ l | .locked l | .addSignal l _ | .hasSignal l _ | .removeSignal l _ => some l
  | _ => none

variable (py : Builtins)

/-- A request about another lock than `l`, or about all that match a pattern. -/
def elsewhere (l : LockId) (value : List Arg) : Bool :=
  match value with
  | [] => false
  | command :: args =>
    match command.decode with
    | none => false
    | some name =>
      match Verb.named (py.lower name) with
      | .aq | .aqr | .release | .locked => (oneText args).any fun lockId => decide (lockId ≠ l)
      | .sigset | .sigexists | .sigdel => (twoTexts args).any fun texts => decide (texts.1 ≠ l)
      | .find => true
      | _ => false

/-- What else happens: connections and losses, maintenance, and all other requests. -/
def concerns (l : LockId) (o : Occurrence) : Bool :=
  match o.event with
  | .command _ _ value => !elsewhere py l value
  | _ => true

/-- The part of the service that the requests about a lock have to do with. -/
def view (l : LockId) (s : Service) :
    Option Holding × ConnId × (ConnId → Option Address) × (ConnId → Option ClientId) :=
  (s.table l, s.accepted, s.peer, s.speaker)

/-- A request about locks is answered alike: the same is written for it. -/
def SameAnswer (o o' : Occurrence) : Prop :=
  ∀ k uuid value, o.event = .command k uuid value → asksLocks py value = true → o.writes = o'.writes

def barred (cfg : Config) (sv : Server) : ConnId → Option Bool := fun k =>
  (sv.connections.get? k).map (lockedOut cfg)

def bars (cfg : Config) (accepted : ConnId) (event : Event) (b : ConnId → Option Bool) : ConnId → Option Bool :=
  match event with
  | .connect peername => Function.update b accepted (some (lockedOut cfg { peername := peername }))
  | .command k _ value => Function.update b k ((b k).map fun locked => locked && !unlocks py cfg value)
  | .lost k => Function.update b k none
  | .maintenance _ _ => b

/-- The clock stands while the event is handled, and maintenance has some time. -/
structure Still (o : Occurrence) : Prop where
  clock : ∃ now, o.reading = fun _ => now
  budget : ∀ timeoutMs shuffle, o.event = .maintenance timeoutMs shuffle → 0 ≤ timeoutMs

/-- No late loss of an old connection releases the lock. -/
def Settled (l : LockId) (w : Watched) (o : Occurrence) : Prop :=
  ∀ k c, Drops w.server o k c → w.recorded c = peerOf w.server k ∨ ∀ m, leaseOf w.server l ≠ some ⟨c, m⟩

variable {py} {cfg : Config} {l : LockId} {s₁ s₂ s₁' s₂' : Service} {t₁ t₂ t₁' t₂' : Table} {o o₁ o₂ : Occurrence}
  {k : ConnId} {c : ClientId} {op : Op} {clk clk₁ clk₂ : Clock} {now : Time}

theorem lockOf_elsewhere {command : Arg} {args : List Arg} {name : String} (hname : command.decode = some name)
    (hop : operationOf py c (Verb.named (py.lower name)) args = some op) :
    elsewhere py l (command :: args) = decide (lockOf op ≠ some l) := by
  simp only [elsewhere, hname]
  generalize Verb.named (py.lower name) = verb at hop
  cases verb with
  | aq | aqr | release | locked =>
    obtain ⟨lockId, hargs, rfl⟩ := Option.map_eq_some_iff.mp hop
    simp [hargs, lockOf]
  | sigset | sigexists | sigdel =>
    obtain ⟨texts, hargs, rfl⟩ := Option.map_eq_some_iff.mp hop
    simp [hargs, lockOf]
  | find =>
    obtain ⟨pattern, -, rfl⟩ := Option.map_eq_some_iff.mp hop
    simp [lockOf]
  | pass | conn | conninfo | ping | stats | shutdown | dump | unknown => cases hop

theorem meaning_operation {speaker : Option ClientId} {uuid : ClientId} {value : List Arg}
    (h : meaning py speaker uuid value = .operation op) :
    ∃ c, AskedBy c op ∧ elsewhere py l value = decide (lockOf op ≠ some l) := by
  cases value with
  | nil => cases h
  | cons command args =>
    rw [meaning] at h
    cases hname : command.decode with
    | none => simp [hname] at h
    | some name =>
      simp only [hname] at h
      by_cases hconn : Verb.named (py.lower name) = .conn
      · rw [if_pos hconn] at h
        unfold connIntent at h
        split at h
        · cases h
        · split at h
          · split at h <;> cases h
          · cases h
      · rw [if_neg hconn] at h
        cases speaker with
        | none => cases h
        | some c =>
          cases hop : operationOf py c (Verb.named (py.lower name)) args with
          | none => simp [hop, asked] at h
          | some op' =>
            simp only [hop, asked] at h
            cases h
            exact ⟨c, operationOf_asked hop, lockOf_elsewhere hname hop⟩

theorem meaning_elsewhere {speaker : Option ClientId} {uuid : ClientId} {value : List Arg} {restore : Bool}
    (he : elsewhere py l value = true) : meaning py speaker uuid value ≠ .conn c restore := by
  intro h
  cases value with
  | nil => cases h
  | cons command args =>
    rw [meaning] at h
    rw [elsewhere] at he
    cases hname : command.decode with
    | none => simp [hname] at h
    | some name =>
      simp only [hname] at h he
      by_cases hconn : Verb.named (py.lower name) = .conn
      · simp [hconn] at he
      · rw [if_neg hconn] at h
        cases speaker with
        | none => cases h
        | some c =>
          cases hop : operationOf py c (Verb.named (py.lower name)) args with
          | none => simp [hop, asked] at h
          | some op => simp [hop, asked] at h

theorem unlocks_elsewhere {value : List Arg} (he : elsewhere py l value = true) : unlocks py cfg value = false := by
  cases value with
  | nil => rfl
  | cons command args =>
    rw [elsewhere] at he
    cases hname : command.decode with
    | none => simp [unlocks, hname]
    | some name =>
      simp only [hname] at he
      simp only [unlocks, hname, Option.any_some]
      generalize Verb.named (py.lower name) = verb at he
      cases verb with
      | pass => cases he
      | _ => rfl

theorem op_frame {fnmatch : String → String → Bool} {grace : Option Time → Time} {answer : Answer}
    (hop : AskedBy c op) (hl : lockOf op ≠ some l)
    (h : Table.Step fnmatch grace clk clk₁ t₁ op answer t₁') : t₁' l = t₁ l := by
  have hne : ∀ l', lockOf op = some l' → l ≠ l' := by
    rintro l' hl' rfl
    exact hl hl'
  cases h with
  | held | notOwner | locked | found | addToNone | signalRead | readOfNone | signalMissing | removeFromNone => rfl
  | created c l' => exact Function.update_of_ne (hne l' rfl) _ _
  | released c l' => exact Function.update_of_ne (hne l' rfl) _ _
  | lockedLate l' => exact Function.update_of_ne (hne l' rfl) _ _
  | signalAdded l' => exact Function.update_of_ne (hne l' rfl) _ _
  | signalRemoved l' => exact Function.update_of_ne (hne l' rfl) _ _
  | releasedAll | unreleasedAll | addressSet | maintained => exact hop.elim

theorem live_agree (hl : t₁ l = t₂ l) {h₁ h₂ : Holding} (h : t₁.live now l = some h₁)
    (h' : t₂.live now l = some h₂) : h₁ = h₂ := by
  rw [live_congr now hl, h'] at h
  exact (Option.some_inj.mp h).symm

theorem live_differ (hl : t₁ l = t₂ l) {h : Holding} (h₁ : t₁.live now l = some h)
    (h₂ : t₂.live now l = none) : False := by
  rw [live_congr now hl, h₂] at h₁
  cases h₁

section

variable {fnmatch : String → String → Bool} {grace : Option Time → Time} {answer₁ answer₂ : Answer} {signal : Signal}

theorem acquire_local (hstill : clk.reading = fun _ => now) (hl : t₁ l = t₂ l) {reentrant : Bool}
    (h₁ : Table.Step fnmatch grace clk clk₁ t₁ (.acquire c l reentrant) answer₁ t₁')
    (h₂ : Table.Step fnmatch grace clk clk₂ t₂ (.acquire c l reentrant) answer₂ t₂') :
    answer₁ = answer₂ ∧ t₁' l = t₂' l := by
  cases h₁ with
  | held _ _ _ h₁ hlive₁ =>
    cases h₂ with
    | held _ _ _ h₂ hlive₂ =>
      obtain rfl := live_agree hl hlive₁ hlive₂
      exact ⟨rfl, hl⟩
    | created _ _ _ _ hlive₂ => exact (live_differ hl hlive₁ hlive₂).elim
  | created _ _ _ n₁ hlive₁ =>
    cases h₂ with
    | held _ _ _ h₂ hlive₂ => exact (live_differ hl.symm hlive₂ hlive₁).elim
    | created _ _ _ n₂ =>
      refine ⟨rfl, ?_⟩
      rw [Table.create, Table.create, Function.update_self, Function.update_self, hstill]

theorem release_local (hl : t₁ l = t₂ l) (h₁ : Table.Step fnmatch grace clk clk₁ t₁ (.release c l) answer₁ t₁')
    (h₂ : Table.Step fnmatch grace clk clk₂ t₂ (.release c l) answer₂ t₂') :
    answer₁ = answer₂ ∧ t₁' l = t₂' l := by
  cases h₁ with
  | released _ _ h₁ hl₁ hc₁ =>
    cases h₂ with
    | released =>
      refine ⟨rfl, ?_⟩
      rw [Table.remove, Table.remove, Function.update_self, Function.update_self]
    | notOwner _ _ hno => exact absurd hc₁ (hno h₁ (hl.symm.trans hl₁))
  | notOwner _ _ hno =>
    cases h₂ with
    | released _ _ h₂ hl₂ hc₂ => exact absurd hc₂ (hno h₂ (hl.trans hl₂))
    | notOwner => exact ⟨rfl, hl⟩

theorem locked_local (hl : t₁ l = t₂ l) (h₁ : Table.Step fnmatch grace clk clk₁ t₁ (.locked l) answer₁ t₁')
    (h₂ : Table.Step fnmatch grace clk clk₂ t₂ (.locked l) answer₂ t₂') : answer₁ = answer₂ ∧ t₁' l = t₂' l := by
  have hlive : t₁.live clk.now l = t₂.live clk.now l := live_congr _ hl
  cases h₁ with
  | locked _ hlive₁ =>
    cases h₂ with
    | locked => exact ⟨by rw [hl], hl⟩
    | lockedLate _ hlive₂ =>
      have hnone : t₁ l = none := hlive₁.symm.trans (hlive.trans hlive₂)
      refine ⟨by rw [hnone]; rfl, ?_⟩
      rw [Table.remove, Function.update_self, hnone]
  | lockedLate _ hlive₁ =>
    cases h₂ with
    | locked _ hlive₂ =>
      have hnone : t₂ l = none := hlive₂.symm.trans (hlive.symm.trans hlive₁)
      refine ⟨by rw [hnone]; rfl, ?_⟩
      rw [Table.remove, Function.update_self, hnone]
    | lockedLate => exact ⟨rfl, by rw [Table.remove, Table.remove, Function.update_self, Function.update_self]⟩

theorem addSignal_local (hl : t₁ l = t₂ l)
    (h₁ : Table.Step fnmatch grace clk clk₁ t₁ (.addSignal l signal) answer₁ t₁')
    (h₂ : Table.Step fnmatch grace clk clk₂ t₂ (.addSignal l signal) answer₂ t₂') :
    answer₁ = answer₂ ∧ t₁' l = t₂' l := by
  cases h₁ with
  | signalAdded _ _ h₁ hl₁ =>
    cases h₂ with
    | signalAdded => exact ⟨rfl, by rw [Table.modify, Table.modify, Function.update_self, Function.update_self, hl]⟩
    | addToNone _ _ hl₂ => cases hl₁.symm.trans (hl.trans hl₂)
  | addToNone _ _ hl₁ =>
    cases h₂ with
    | signalAdded _ _ h₂ hl₂ => cases hl₁.symm.trans (hl.trans hl₂)
    | addToNone => exact ⟨rfl, hl⟩

theorem hasSignal_local (hl : t₁ l = t₂ l)
    (h₁ : Table.Step fnmatch grace clk clk₁ t₁ (.hasSignal l signal) answer₁ t₁')
    (h₂ : Table.Step fnmatch grace clk clk₂ t₂ (.hasSignal l signal) answer₂ t₂') :
    answer₁ = answer₂ ∧ t₁' l = t₂' l := by
  cases h₁ with
  | signalRead _ _ h₁ hl₁ =>
    cases h₂ with
    | signalRead _ _ h₂ hl₂ =>
      obtain rfl := Option.some_inj.mp (hl₁.symm.trans (hl.trans hl₂))
      exact ⟨rfl, hl⟩
    | readOfNone _ _ hl₂ => cases hl₁.symm.trans (hl.trans hl₂)
  | readOfNone _ _ hl₁ =>
    cases h₂ with
    | signalRead _ _ h₂ hl₂ => cases hl₁.symm.trans (hl.trans hl₂)
    | readOfNone => exact ⟨rfl, hl⟩

theorem removeSignal_local (hl : t₁ l = t₂ l)
    (h₁ : Table.Step fnmatch grace clk clk₁ t₁ (.removeSignal l signal) answer₁ t₁')
    (h₂ : Table.Step fnmatch grace clk clk₂ t₂ (.removeSignal l signal) answer₂ t₂') :
    answer₁ = answer₂ ∧ t₁' l = t₂' l := by
  cases h₁ with
  | signalRemoved _ _ h₁ hl₁ hsignal₁ =>
    cases h₂ with
    | signalRemoved => exact ⟨rfl, by rw [Table.modify, Table.modify, Function.update_self, Function.update_self, hl]⟩
    | signalMissing _ _ h₂ hl₂ hsignal₂ =>
      obtain rfl := Option.some_inj.mp (hl₁.symm.trans (hl.trans hl₂))
      cases hsignal₁.symm.trans hsignal₂
    | removeFromNone _ _ hl₂ => cases hl₁.symm.trans (hl.trans hl₂)
  | signalMissing _ _ h₁ hl₁ hsignal₁ =>
    cases h₂ with
    | signalRemoved _ _ h₂ hl₂ hsignal₂ =>
      obtain rfl := Option.some_inj.mp (hl₁.symm.trans (hl.trans hl₂))
      cases hsignal₂.symm.trans hsignal₁
    | signalMissing => exact ⟨rfl, hl⟩
    | removeFromNone _ _ hl₂ => cases hl₁.symm.trans (hl.trans hl₂)
  | removeFromNone _ _ hl₁ =>
    cases h₂ with
    | signalRemoved _ _ h₂ hl₂ => cases hl₁.symm.trans (hl.trans hl₂)
    | signalMissing _ _ h₂ hl₂ => cases hl₁.symm.trans (hl.trans hl₂)
    | removeFromNone => exact ⟨rfl, hl⟩

/-- An operation on a lock sees nothing but this lock. -/
theorem op_local (hop : lockOf op = some l) (hstill : clk.reading = fun _ => now) (hl : t₁ l = t₂ l)
    (h₁ : Table.Step fnmatch grace clk clk₁ t₁ op answer₁ t₁')
    (h₂ : Table.Step fnmatch grace clk clk₂ t₂ op answer₂ t₂') : answer₁ = answer₂ ∧ t₁' l = t₂' l := by
  cases op with
  | acquire c l' reentrant =>
    cases hop
    exact acquire_local hstill hl h₁ h₂
  | release c l' =>
    cases hop
    exact release_local hl h₁ h₂
  | locked l' =>
    cases hop
    exact locked_local hl h₁ h₂
  | addSignal l' signal =>
    cases hop
    exact addSignal_local hl h₁ h₂
  | hasSignal l' signal =>
    cases hop
    exact hasSignal_local hl h₁ h₂
  | removeSignal l' signal =>
    cases hop
    exact removeSignal_local hl h₁ h₂
  | releaseAll | unreleaseAll | setClientLastAddress | find | maintenance => cases hop

end

section

variable {session session₁ session₂ : Session} {uuid : ClientId} {value : List Arg} {a a₁ a₂ : StorageAdaptor}

theorem call_authorized {next : Answer → Turn → Turn}
    (h : ∀ answer t, (next answer t).session.authorized = t.session.authorized) (t : Turn)
    (result : Except Raised (Answer × StorageAdaptor × Clock)) :
    (t.call result next).session.authorized = t.session.authorized := by
  cases result with
  | error e => rfl
  | ok p => exact h _ _

variable (py cfg) in
theorem serve_authorized (t : Turn) (c : ClientId) (verb : Verb) (args : List Arg) :
    (t.serve py cfg c verb args).session.authorized = t.session.authorized := by
  have hcall : ∀ result, (t.call result Turn.answer).session.authorized = t.session.authorized :=
    call_authorized (fun answer t => by rw [answer_session]) t
  let P : Turn → Prop := fun t' => t'.session.authorized = t.session.authorized
  have hreply : ∀ content, P (t.reply content) := fun _ => rfl
  cases verb with
  | aq | aqr | release | locked => exact oneArg_cases (P := P) (hreply _) (fun _ => hcall _) args
  | sigset | sigexists | sigdel => exact twoArgs_cases (P := P) (hreply _) (fun _ _ => hcall _) args
  | conninfo =>
    simp only [Turn.serve, Turn.oneArg]
    split <;> rfl
  | find =>
    simp only [Turn.serve]
    split
    · split
      · split
        · rfl
        · exact hcall _
      · rfl
    · rfl
  | stats | shutdown | dump =>
    simp only [Turn.serve]
    split <;> rfl
  | ping | pass | conn | unknown => rfl

variable (py) in
theorem conn_authorized (t : Turn) (uuid : ClientId) (args : List Arg) :
    (t.conn py uuid args).session.authorized = t.session.authorized := by
  have hregister : ∀ (t : Turn) c, (t.register py c).session.authorized = t.session.authorized := by
    intro t c
    unfold Turn.register
    exact call_authorized (fun _ _ => by rfl) t _
  obtain ⟨t₀, ht₀, hsession⟩ : ∃ t₀ : Turn, t₀ = (if t.session.clientId.isSome then t.reply (.error .connHasId)
      else t) ∧ t₀.session = t.session := ⟨_, rfl, by split <;> rfl⟩
  simp only [Turn.conn, ← ht₀]
  rw [← hsession]
  cases args with
  | nil => exact hregister _ _
  | cons arg args =>
    dsimp only
    split
    · split
      · rfl
      · exact call_authorized (fun _ t => hregister t _) _ _
    · rfl

variable (py cfg) in
theorem dispatch_authorized (t : Turn) (uuid : ClientId) (verb : Verb) (args : List Arg) :
    (t.dispatch py cfg uuid verb args).session.authorized = t.session.authorized := by
  unfold Turn.dispatch
  split
  · exact conn_authorized py t uuid args
  · split
    · rfl
    · exact serve_authorized py cfg t _ verb args

theorem lockedOut_congr (h : session₁.authorized = session₂.authorized) :
    lockedOut cfg session₁ = lockedOut cfg session₂ := by
  rw [lockedOut, lockedOut, h]

theorem lockedOut_after (hkill : a.killActive = false) (clk : Clock) :
    lockedOut cfg (onCommandReceived py cfg a clk session uuid value).session =
      (lockedOut cfg session && !unlocks py cfg value) := by
  cases value with
  | nil => simp [onCommandReceived, unlocks]
  | cons command args =>
    simp only [onCommandReceived, processCommand, hkill, Bool.false_eq_true, if_false]
    cases hname : command.decode with
    | none => simp [Turn.raise, unlocks, hname]
    | some name =>
      by_cases hl : lockedOut cfg session = true
      · simp only [hl, if_true, unlocks, hname, Option.any_some, Bool.true_and]
        cases checkPassword cfg (Verb.named (py.lower name)) args with
        | granted =>
          simp only [Turn.reply, lockedOut]
          cases cfg.password <;> simp
        | raised => exact hl
        | refused => exact (lockedOut_congr (dispatch_authorized py cfg _ uuid _ args)).trans hl
      · have hopen : lockedOut cfg session = false := Bool.eq_false_iff.mpr hl
        simp only [hopen, Bool.false_and, Bool.false_eq_true, if_false]
        exact (lockedOut_congr (dispatch_authorized py cfg _ uuid _ args)).trans hopen

theorem barred_step {sv sv' : Server} (h : Sound sv) (hs : Steps py cfg sv o sv') :
    barred cfg sv' = bars py cfg sv.accepted o.event (barred cfg sv) := by
  funext j
  cases step_change h hs with
  | connect peername he =>
    simp only [barred, bars, he, Function.update_apply, Dict.get?_set]
    split <;> rfl
  | command k uuid value session t he hw hk hserving hfresh ht =>
    simp only [barred, bars, he, Function.update_apply, Server.after, Dict.get?_set]
    split
    · have hafter : lockedOut cfg t.session = (lockedOut cfg session && !unlocks py cfg value) := by
        rw [ht]
        exact lockedOut_after (h.killActive (steps_live hs)) o.clk
      rw [hk, Option.map_some, Option.map_some, Option.map_some, ← hafter]
      exact congrArg some (lockedOut_congr rfl)
    · rfl
  | lost k session he | lostLast k session c he =>
    simp only [barred, bars, he, Function.update_apply, Dict.get?_erase]
    split <;> rfl
  | maintenance timeoutMs shuffle store clk he => simp only [barred, bars, he]

theorem exec_local {fnmatch : String → String → Bool} {s₁ s₂ s₁' s₂' : InMemoryLockStorage}
    {answer₁ answer₂ : Answer} (h₁ : Rep s₁) (h₂ : Rep s₂) (hasked : AskedBy c op) (hop : lockOf op = some l)
    (hstill : clk.reading = fun _ => now) (hl : holding s₁ l = holding s₂ l)
    (heq₁ : exec fnmatch op s₁ clk = .ok (answer₁, s₁', clk₁))
    (heq₂ : exec fnmatch op s₂ clk = .ok (answer₂, s₂', clk₂)) : answer₁ = answer₂ := by
  obtain ⟨a₁, u₁, c₁, hexec₁, hstep₁⟩ := exec_refines fnmatch h₁ op clk
  obtain ⟨a₂, u₂, c₂, hexec₂, hstep₂⟩ := exec_refines fnmatch h₂ op clk
  cases heq₁.symm.trans hexec₁
  cases heq₂.symm.trans hexec₂
  have hgrace : ∀ {clk' t t' answer} {grace : Option Time → Time},
      Table.Step fnmatch grace clk clk' t op answer t' → Table.Step fnmatch Service.grace clk clk' t op answer t' :=
    fun h => asked_grace h hasked
  exact (op_local hop hstill hl (hgrace hstep₁) (hgrace hstep₂)).1

/-- What is written for a request about a lock depends on the connection and on
this lock alone. -/
theorem writes_local (h₁ : Rep a₁.store) (h₂ : Rep a₂.store) (hkill₁ : a₁.killActive = false)
    (hkill₂ : a₂.killActive = false) (hid : session₁.clientId = session₂.clientId)
    (hlock : lockedOut cfg session₁ = lockedOut cfg session₂) (hstill : clk.reading = fun _ => now)
    (hl : holding a₁.store l = holding a₂.store l) (hasks : asksLocks py value = true)
    (hvalue : elsewhere py l value = false) :
    (onCommandReceived py cfg a₁ clk session₁ uuid value).writes =
      (onCommandReceived py cfg a₂ clk session₂ uuid value).writes := by
  obtain ⟨command, args, name, rfl, hname, hverb⟩ := asksLocks_named hasks
  rw [lock_dispatch hkill₁ hname hverb, lock_dispatch hkill₂ hname hverb]
  have hopened : (opened cfg a₁ clk session₁).writes = (opened cfg a₂ clk session₂).writes := by
    rw [opened_writes, opened_writes, hlock]
  have hid₁ : (opened cfg a₁ clk session₁).session.clientId = session₂.clientId :=
    (opened_session cfg a₁ clk session₁).1.trans hid
  have hid₂ : (opened cfg a₂ clk session₂).session.clientId = session₂.clientId :=
    (opened_session cfg a₂ clk session₂).1
  obtain ⟨ha₁, hclk₁⟩ := opened_adaptor cfg a₁ clk session₁
  obtain ⟨ha₂, hclk₂⟩ := opened_adaptor cfg a₂ clk session₂
  by_cases hnothing : ∀ c, session₂.clientId = some c → operationOf py c (Verb.named (py.lower name)) args = none
  · obtain ⟨codes, hcodes⟩ := refused_writes cfg uuid hverb hnothing
    rw [hcodes _ hid₁, hcodes _ hid₂, hopened]
  · obtain ⟨c, hc, op, hop⟩ : ∃ c, session₂.clientId = some c ∧ ∃ op,
        operationOf py c (Verb.named (py.lower name)) args = some op := by
      simpa only [not_forall, exists_prop, ← ne_eq, Option.ne_none_iff_exists'] using hnothing
    have hlockOf : lockOf op = some l := by
      have hdecide := lockOf_elsewhere (l := l) hname hop
      rw [hvalue, eq_comm, decide_eq_false_iff_not, not_not] at hdecide
      exact hdecide
    have hconn : Verb.named (py.lower name) ≠ .conn := by
      intro hconn
      rw [hconn] at hverb
      exact absurd hverb (by decide)
    have hserve : ∀ t : Turn, t.session.clientId = session₂.clientId →
        t.dispatch py cfg uuid (Verb.named (py.lower name)) args =
          t.serve py cfg c (Verb.named (py.lower name)) args := by
      intro t ht
      simp only [Turn.dispatch, if_neg hconn, ht, hc]
    rw [hserve _ hid₁, hserve _ hid₂]
    generalize opened cfg a₁ clk session₁ = t₁ at hopened ha₁ hclk₁
    generalize opened cfg a₂ clk session₂ = t₂ at hopened ha₂ hclk₂
    have hdoes₁ := serve_does py cfg (ha₁ ▸ h₁ : Rep t₁.adaptor.store) (ha₁ ▸ hkill₁) c
      (Verb.named (py.lower name)) args
    have hdoes₂ := serve_does py cfg (ha₂ ▸ h₂ : Rep t₂.adaptor.store) (ha₂ ▸ hkill₂) c
      (Verb.named (py.lower name)) args
    rw [hop, asked] at hdoes₁ hdoes₂
    generalize t₁.serve py cfg c (Verb.named (py.lower name)) args = t₁' at hdoes₁
    generalize t₂.serve py cfg c (Verb.named (py.lower name)) args = t₂' at hdoes₂
    cases hdoes₁ with
    | operation hexec₁ =>
      cases hdoes₂ with
      | operation hexec₂ =>
        rw [ha₁, hclk₁] at hexec₁
        rw [ha₂, hclk₂] at hexec₂
        obtain rfl := exec_local h₁ h₂ (operationOf_asked hop) hlockOf hstill hl hexec₁ hexec₂
        exact answer_writes _ hopened

end

theorem mark_congr (hl : t₁ l = t₂ l) (c : ClientId) (m : Option Time) : t₁.mark c m l = t₂.mark c m l := by
  rw [Table.mark, Table.mark, hl]

theorem sweeps_still {timeoutMs : Time} (hstill : clk.reading = fun _ => now) (hbudget : 0 ≤ timeoutMs)
    (h : Table.Sweeps clk clk₁ (clk.now + timeoutMs * 1000) t₁ t₁') : t₁' l = t₁.live now l := by
  obtain ⟨n, -, -, hl⟩ | ⟨-, n, -, -, hcut⟩ := h l
  · rw [hl, hstill]
  · have hnow : clk.now = now := by rw [Clock.now, hstill]
    rw [hnow, hstill] at hcut
    have hpositive : 0 ≤ timeoutMs * 1000 := by positivity
    linarith

theorem view_eq : view l s₁ = view l s₂ ↔ s₁.table l = s₂.table l ∧ s₁.accepted = s₂.accepted ∧
    s₁.peer = s₂.peer ∧ s₁.speaker = s₂.speaker := by
  rw [view, view, Prod.mk.injEq, Prod.mk.injEq, Prod.mk.injEq]

theorem hidden_view (hs : Service.Step py s₁ o s₁') (ho : concerns py l o = false) : view l s₁' = view l s₁ := by
  cases he : o.event with
  | connect | lost | maintenance =>
    rw [concerns, he] at ho
    cases ho
  | command k uuid value =>
    have hvalue : elsewhere py l value = true := by simpa [concerns, he] using ho
    cases hs with
    | request k' uuid' value' he' hpeer hserves =>
      cases he.symm.trans he'
      cases hserves with
      | operation hop hstep =>
        obtain ⟨c, hasked, hdecide⟩ := meaning_operation hop
        rw [hvalue] at hdecide
        exact view_eq.mpr ⟨op_frame hasked (of_decide_eq_true hdecide.symm) hstep, rfl, rfl, rfl⟩
      | joined hjoin => exact absurd hjoin (meaning_elsewhere hvalue)
      | nothing => rfl
    | opened _ he' | left _ he' | dropped _ _ he' | maintained _ _ he' => cases he.symm.trans he'

theorem request_view (hsame : view l s₁ = view l s₂) (hstill : clk.reading = fun _ => now) {uuid : ClientId}
    {value : List Arg} (hvalue : elsewhere py l value = false) {told₁ told₂ : Response → Prop}
    (h₁ : Service.Serves py s₁ k uuid value clk told₁ s₁') (h₂ : Service.Serves py s₂ k uuid value clk told₂ s₂') :
    view l s₁' = view l s₂' := by
  obtain ⟨htable, haccepted, hpeer, hspeaker⟩ := view_eq.mp hsame
  cases h₁ with
  | operation hop₁ hstep₁ =>
    cases h₂ with
    | operation hop₂ hstep₂ =>
      rw [← hspeaker, hop₁] at hop₂
      cases hop₂
      obtain ⟨c, -, hdecide⟩ := meaning_operation hop₁
      have hlock := of_decide_eq_false (hvalue ▸ hdecide).symm
      obtain ⟨-, htable'⟩ := op_local (not_not.mp hlock) hstill htable hstep₁ hstep₂
      exact view_eq.mpr ⟨htable', haccepted, hpeer, hspeaker⟩
    | joined hjoin₂ =>
      rw [← hspeaker, hop₁] at hjoin₂
      cases hjoin₂
    | nothing hnothing₂ =>
      rw [← hspeaker, hop₁] at hnothing₂
      cases hnothing₂
  | @joined c restore hjoin₁ =>
    cases h₂ with
    | operation hop₂ =>
      rw [← hspeaker, hjoin₁] at hop₂
      cases hop₂
    | joined hjoin₂ =>
      rw [← hspeaker, hjoin₁] at hjoin₂
      cases hjoin₂
      refine view_eq.mpr ⟨?_, haccepted, hpeer, ?_⟩
      · cases restore with
        | false => exact htable
        | true => exact mark_congr htable c none
      · rw [Service.join, Service.join, hspeaker]
    | nothing hnothing₂ =>
      rw [← hspeaker, hjoin₁] at hnothing₂
      cases hnothing₂
  | nothing hnothing₁ =>
    cases h₂ with
    | operation hop₂ =>
      rw [← hspeaker, hnothing₁] at hop₂
      cases hop₂
    | joined hjoin₂ =>
      rw [← hspeaker, hnothing₁] at hjoin₂
      cases hjoin₂
    | nothing => exact hsame

def Releases (s : Service) (k : ConnId) (c : ClientId) : Prop :=
  s.speaker k = some c ∧ (s.seen c = s.peer k ∨ s.seen c = none)

def Unowned (l : LockId) (c : ClientId) (s : Service) : Prop := ∀ h, s.table l = some h → h.owner ≠ c

theorem lost_view (hsame : view l s₁ = view l s₂) (he₁ : o₁.event = .lost k) (he₂ : o₂.event = .lost k)
    (hreading : o₁.reading = o₂.reading)
    (h₁ : ∀ c, Releases s₁ k c → ¬ Releases s₂ k c → Unowned l c s₁)
    (h₂ : ∀ c, Releases s₂ k c → ¬ Releases s₁ k c → Unowned l c s₂)
    (hs₁ : Service.Step py s₁ o₁ s₁') (hs₂ : Service.Step py s₂ o₂ s₂') : view l s₁' = view l s₂' := by
  obtain ⟨htable, haccepted, hpeer, hspeaker⟩ := view_eq.mp hsame
  have hleave : view l (s₁.leave k) = view l (s₂.leave k) :=
    view_eq.mpr ⟨htable, haccepted, by rw [Service.leave, Service.leave, hpeer],
      by rw [Service.leave, Service.leave, hspeaker]⟩
  have hno : ∀ s : Service, (∀ c, s.speaker k = some c → s.seen c ≠ s.peer k ∧ s.seen c ≠ none) →
      ∀ c, ¬ Releases s k c := by
    rintro s hleft c ⟨hc, hseen⟩
    obtain ⟨hne, hne'⟩ := hleft c hc
    exact hseen.elim hne hne'
  obtain ⟨-, hpeers, hspeakers⟩ := (view_eq.mp hleave).2
  cases hs₁ with
  | left j he hleft₁ =>
    cases he₁.symm.trans he
    cases hs₂ with
    | left j he hleft₂ =>
      cases he₂.symm.trans he
      exact hleave
    | dropped j c he hc hseen =>
      cases he₂.symm.trans he
      refine view_eq.mpr ⟨?_, haccepted, hpeers, hspeakers⟩
      exact htable.trans (Table.mark_unowned (h₂ c ⟨hc, hseen⟩ (hno s₁ hleft₁ c)) _).symm
    | opened _ he | request _ _ _ he | maintained _ _ he => cases he₂.symm.trans he
  | dropped j c he hc hseen =>
    cases he₁.symm.trans he
    cases hs₂ with
    | left j he hleft₂ =>
      cases he₂.symm.trans he
      refine view_eq.mpr ⟨?_, haccepted, hpeers, hspeakers⟩
      exact (Table.mark_unowned (h₁ c ⟨hc, hseen⟩ (hno s₂ hleft₂ c)) _).trans htable
    | dropped j c' he hc' hseen' =>
      cases he₂.symm.trans he
      rw [← hspeaker, hc] at hc'
      cases hc'
      refine view_eq.mpr ⟨?_, haccepted, hpeers, hspeakers⟩
      rw [hreading]
      exact mark_congr htable c _
    | opened _ he | request _ _ _ he | maintained _ _ he => cases he₂.symm.trans he
  | opened _ he | request _ _ _ he | maintained _ _ he => cases he₁.symm.trans he

theorem connect_view (hsame : view l s₁ = view l s₂) {peername : Address} (he₁ : o₁.event = .connect peername)
    (he₂ : o₂.event = .connect peername) (hs₁ : Service.Step py s₁ o₁ s₁') (hs₂ : Service.Step py s₂ o₂ s₂') :
    view l s₁' = view l s₂' := by
  obtain ⟨htable, haccepted, hpeer, hspeaker⟩ := view_eq.mp hsame
  cases hs₁ with
  | opened peername₁ he =>
    cases he₁.symm.trans he
    cases hs₂ with
    | opened peername₂ he =>
      cases he₂.symm.trans he
      exact view_eq.mpr ⟨htable, by rw [haccepted], by rw [haccepted, hpeer], hspeaker⟩
    | request _ _ _ he | left _ he | dropped _ _ he | maintained _ _ he => cases he₂.symm.trans he
  | request _ _ _ he | left _ he | dropped _ _ he | maintained _ _ he => cases he₁.symm.trans he

theorem pass_view (hsame : view l s₁ = view l s₂) {timeoutMs : Time} {shuffle : InMemoryLockStorage.Shuffle}
    (he₁ : o₁.event = .maintenance timeoutMs shuffle) (he₂ : o₂.event = .maintenance timeoutMs shuffle)
    (hr₁ : o₁.reading = fun _ => now) (hr₂ : o₂.reading = fun _ => now) (hbudget : 0 ≤ timeoutMs)
    (hs₁ : Service.Step py s₁ o₁ s₁') (hs₂ : Service.Step py s₂ o₂ s₂') : view l s₁' = view l s₂' := by
  obtain ⟨htable, haccepted, hpeer, hspeaker⟩ := view_eq.mp hsame
  have hswept : ∀ {s s' : Service} {o : Occurrence}, o.event = .maintenance timeoutMs shuffle →
      o.reading = (fun _ => now) → Service.Step py s o s' → s'.table l = s.table.live now l ∧
        s'.accepted = s.accepted ∧ s'.peer = s.peer ∧ s'.speaker = s.speaker := by
    intro s s' o he hr hs
    cases hs with
    | maintained timeoutMs' shuffle' he' hsweeps =>
      cases he.symm.trans he'
      exact ⟨sweeps_still hr hbudget hsweeps, rfl, rfl, rfl⟩
    | opened _ he' | request _ _ _ he' | left _ he' | dropped _ _ he' => cases he.symm.trans he'
  obtain ⟨htable₁, haccepted₁, hpeer₁, hspeaker₁⟩ := hswept he₁ hr₁ hs₁
  obtain ⟨htable₂, haccepted₂, hpeer₂, hspeaker₂⟩ := hswept he₂ hr₂ hs₂
  refine view_eq.mpr ⟨?_, ?_, ?_, ?_⟩
  · rw [htable₁, htable₂, live_congr now htable]
  · rw [haccepted₁, haccepted₂, haccepted]
  · rw [hpeer₁, hpeer₂, hpeer]
  · rw [hspeaker₁, hspeaker₂, hspeaker]

variable {w w' w₁ w₂ w₁' w₂' : Watched} {es fs : List Occurrence} {restore : Bool}

theorem joins_meaning {sv : Server} (hj : Joins py cfg sv o k c restore) : ∃ uuid value,
    o.event = .command k uuid value ∧ meaning py (idOf sv k) uuid value = .conn c restore := by
  obtain ⟨uuid, value, session, he, hk, hi⟩ := hj
  refine ⟨uuid, value, he, ?_⟩
  rw [idOf, hk, Option.bind_some, ← hi, intent_meaning py cfg session]

theorem joins_same {sv₁ sv₂ sv₂' : Server} (hid : idOf sv₁ = idOf sv₂) (hevent : o₁.event = o₂.event)
    (h₂ : Sound sv₂) (hs₂ : Steps py cfg sv₂ o₂ sv₂') (hj : Joins py cfg sv₁ o₁ k c restore) :
    Joins py cfg sv₂ o₂ k c restore := by
  obtain ⟨uuid, value, he, hmeaning⟩ := joins_meaning hj
  rw [hevent] at he
  obtain ⟨session, hk⟩ := steps_session h₂ hs₂ he
  refine ⟨uuid, value, session, he, hk, ?_⟩
  rw [hid, idOf, hk, Option.bind_some] at hmeaning
  rw [intent_meaning py cfg session, hmeaning]

theorem latest_same (hlatest : w₁.latest = w₂.latest) (hid : idOf w₁.server = idOf w₂.server)
    (hpeer : peerOf w₁.server = peerOf w₂.server) (hevent : o₁.event = o₂.event)
    (h₁ : Sound w₁.server) (h₂ : Sound w₂.server) (hs₁ : w₁.Step py cfg o₁ w₁') (hs₂ : w₂.Step py cfg o₂ w₂') :
    w₁'.latest = w₂'.latest := by
  rw [hs₁.2, hs₂.2]
  by_cases hj : ∃ k c restore, Joins py cfg w₁.server o₁ k c restore
  · obtain ⟨k, c, restore, hj⟩ := hj
    obtain ⟨address₁, hpeer₁, hafter₁⟩ := latest_joined hj
    obtain ⟨address₂, hpeer₂, hafter₂⟩ := latest_joined (joins_same hid hevent h₂ hs₂.1 hj)
    rw [hpeer, hpeer₂, Option.some_inj] at hpeer₁
    rw [hafter₁, hafter₂, hlatest, hpeer₁]
  · have hno₁ : ∀ k c restore, ¬ Joins py cfg w₁.server o₁ k c restore :=
      fun k c restore hjoins => hj ⟨k, c, restore, hjoins⟩
    have hno₂ : ∀ k c restore, ¬ Joins py cfg w₂.server o₂ k c restore :=
      fun k c restore hjoins => hno₁ k c restore (joins_same hid.symm hevent.symm h₁ hs₁.1 hjoins)
    rw [latest_kept hno₁, latest_kept hno₂, hlatest]

theorem drops_of_releases {sv : Server} (he : o.event = .lost k) (h : Releases (serviceOf sv) k c) :
    Drops sv o k c := by
  obtain ⟨hc, hseen⟩ := h
  obtain ⟨session, hk, hid⟩ := Option.bind_eq_some_iff.mp hc
  refine ⟨he, session, hk, hid, ?_⟩
  have hpeer : peerOf sv k = some session.peername := by rw [peerOf, hk, Option.map_some]
  rw [← hpeer]
  exact hseen

theorem releases_unowned (hrecorded : w₁.recorded = w₂.recorded)
    (hsame : view l (serviceOf w₁.server) = view l (serviceOf w₂.server)) (hk₂ : w₂.Known)
    (hsettled : Settled l w₁ o) (he : o.event = .lost k) (h₁ : Releases (serviceOf w₁.server) k c)
    (h₂ : ¬ Releases (serviceOf w₂.server) k c) : Unowned l c (serviceOf w₁.server) := by
  obtain ⟨-, -, hpeer, hspeaker⟩ := view_eq.mp hsame
  obtain hlatest | hfree := hsettled k c (drops_of_releases he h₁)
  · refine absurd ⟨(congrFun hspeaker k).symm.trans h₁.1, ?_⟩ h₂
    obtain hnone | hknown := hk₂ c
    · exact .inr hnone
    · refine .inl (hknown.trans ?_)
      rw [← hrecorded, hlatest]
      exact congrFun hpeer k
  · intro holds hl hc
    refine hfree holds.info.markFreeAfter ?_
    rw [leaseOf, lease_holding]
    simp only [serviceOf] at hl
    rw [hl, Option.map_some, hc]

theorem visible_view (hrecorded : w₁.recorded = w₂.recorded)
    (hbarred : barred cfg w₁.server = barred cfg w₂.server)
    (hsame : view l (serviceOf w₁.server) = view l (serviceOf w₂.server)) (h₁ : Sound w₁.server)
    (h₂ : Sound w₂.server) (hk₁ : w₁.Known) (hk₂ : w₂.Known) (hs₁ : w₁.Step py cfg o₁ w₁')
    (hs₂ : w₂.Step py cfg o₂ w₂') (hsettled₁ : Settled l w₁ o₁) (hsettled₂ : Settled l w₂ o₂)
    (hcause : cause o₁ = cause o₂) (hstill : Still o₁) (ho : concerns py l o₁ = true) :
    view l (serviceOf w₁'.server) = view l (serviceOf w₂'.server) ∧ SameAnswer py o₁ o₂ := by
  obtain ⟨hevent, hreading⟩ := Prod.mk.inj hcause
  obtain ⟨now, hnow⟩ := hstill.clock
  have hstep₁ := step_refines h₁ hs₁.1
  have hstep₂ := step_refines h₂ hs₂.1
  cases he : o₁.event with
  | connect peername =>
    refine ⟨connect_view hsame he (hevent ▸ he) hstep₁ hstep₂, fun k uuid value he' => ?_⟩
    cases he.symm.trans he'
  | lost k =>
    have he₂ : o₂.event = .lost k := hevent ▸ he
    refine ⟨lost_view hsame he he₂ hreading ?_ ?_ hstep₁ hstep₂, fun k uuid value he' => ?_⟩
    · exact fun c => releases_unowned hrecorded hsame hk₂ hsettled₁ he
    · exact fun c => releases_unowned hrecorded.symm hsame.symm hk₁ hsettled₂ he₂
    · cases he.symm.trans he'
  | maintenance timeoutMs shuffle =>
    refine ⟨pass_view hsame he (hevent ▸ he) hnow (hreading ▸ hnow) (hstill.budget timeoutMs shuffle he)
      hstep₁ hstep₂, fun k uuid value he' => ?_⟩
    cases he.symm.trans he'
  | command k uuid value =>
    have hvalue : elsewhere py l value = false := by simpa [concerns, he] using ho
    obtain ⟨told₁, -, hserves₁, -⟩ := request_serves hstep₁ he
    obtain ⟨told₂, -, hserves₂, -⟩ := request_serves hstep₂ (hevent ▸ he)
    have hclk : o₂.clk = o₁.clk := by rw [Occurrence.clk, Occurrence.clk, hreading]
    rw [hclk] at hserves₂
    refine ⟨request_view hsame hnow hvalue hserves₁ hserves₂, fun k' uuid' value' he' hasks => ?_⟩
    cases he.symm.trans he'
    obtain ⟨htable, -, -, hspeaker⟩ := view_eq.mp hsame
    obtain ⟨session₁, t₁, hk₁, -, hw₁, -, -, rfl, -⟩ := command_change h₁ hs₁.1 he
    obtain ⟨session₂, t₂, hk₂, -, hw₂, -, -, rfl, -⟩ := command_change h₂ hs₂.1 (hevent ▸ he)
    have hid : session₁.clientId = session₂.clientId := by
      have hspeaks := congrFun hspeaker k
      simpa only [serviceOf, idOf, hk₁, hk₂, Option.bind_some] using hspeaks
    have hlock : lockedOut cfg session₁ = lockedOut cfg session₂ := by
      have hbars := congrFun hbarred k
      simpa only [barred, hk₁, hk₂, Option.map_some, Option.some_inj] using hbars
    rw [hw₁, hw₂, hclk]
    exact writes_local h₁.rep h₂.rep (h₁.killActive (steps_live hs₁.1)) (h₂.killActive (steps_live hs₂.1)) hid
      hlock hnow htable hasks hvalue

variable (py cfg) in
structure Agree (l : LockId) (es : List Occurrence) (w₁ : Watched) (fs : List Occurrence) (w₂ : Watched) : Prop where
  sound₁ : Sound w₁.server
  sound₂ : Sound w₂.server
  known₁ : w₁.Known
  known₂ : w₂.Known
  latest : w₁.latest = w₂.latest
  view : view l (serviceOf w₁.server) = view l (serviceOf w₂.server)
  barred : barred cfg w₁.server = barred cfg w₂.server
  answers : List.Forall₂ (SameAnswer py) (es.filter (concerns py l)) (fs.filter (concerns py l))

theorem agree_start (l : LockId) (T : Time) : Agree py cfg l [] (.start T) [] (.start T) where
  sound₁ := sound_start T
  sound₂ := sound_start T
  known₁ _ := .inl rfl
  known₂ _ := .inl rfl
  latest := rfl
  view := rfl
  barred := rfl
  answers := .nil

theorem hidden_barred {sv sv' : Server} (h : Sound sv) (hs : Steps py cfg sv o sv')
    (ho : concerns py l o = false) : barred cfg sv' = barred cfg sv := by
  rw [barred_step h hs]
  cases he : o.event with
  | connect | lost | maintenance =>
    rw [concerns, he] at ho
    cases ho
  | command k uuid value =>
    have hvalue : elsewhere py l value = true := by simpa [concerns, he] using ho
    simp only [bars, unlocks_elsewhere hvalue, Bool.not_false, Bool.and_true, Option.map_id_fun', id,
      Function.update_eq_self]

theorem hidden_step (h : Sound w.server) (hs : w.Step py cfg o w') (ho : concerns py l o = false) :
    w'.latest = w.latest ∧ view l (serviceOf w'.server) = view l (serviceOf w.server) ∧
      barred cfg w'.server = barred cfg w.server := by
  refine ⟨?_, hidden_view (step_refines h hs.1) ho, hidden_barred h hs.1 ho⟩
  rw [hs.2]
  refine latest_kept fun k c restore hj => ?_
  obtain ⟨uuid, value, he, hmeaning⟩ := joins_meaning hj
  have hvalue : elsewhere py l value = true := by simpa [concerns, he] using ho
  exact meaning_elsewhere hvalue hmeaning

theorem filter_hidden (es : List Occurrence) (ho : concerns py l o = false) :
    (es ++ [o]).filter (concerns py l) = es.filter (concerns py l) := by
  rw [List.filter_append, List.filter_cons_of_neg (by simp [ho]), List.filter_nil, List.append_nil]

/-- Locks are independent: whatever is done with other locks, and however often
it is asked which are held, makes no difference to what is answered about one
lock, nor to what becomes of it. -/
theorem locks_independent {T : Time} (h : Run (Where (Watched.Step py cfg) (Settled l)) (.start T) es w)
    (h' : Run (Where (Watched.Step py cfg) (Settled l)) (.start T) fs w')
    (hstill : ∀ o ∈ es, concerns py l o = true → Still o)
    (hsame : (es.filter (concerns py l)).map cause = (fs.filter (concerns py l)).map cause) :
    List.Forall₂ (SameAnswer py) (es.filter (concerns py l)) (fs.filter (concerns py l)) ∧
      holding w.server.adaptor.store l = holding w'.server.adaptor.store l := by
  let R : List Occurrence → Watched → List Occurrence → Watched → Prop := fun es w fs w' =>
    (∀ o ∈ es, concerns py l o = true → Still o) → Agree py cfg l es w fs w'
  have hpair : R es w fs w' := by
    refine Run.pair h h' hsame (fun _ => agree_start l T) ?_ ?_ ?_
    · intro es v fs u e v' ih he hs hes
      have hagree := ih fun o ho => hes o (List.mem_append_left _ ho)
      obtain ⟨hlatest, hview, hbarred⟩ := hidden_step hagree.sound₁ hs.1 he
      exact ⟨sound_step hagree.sound₁ hs.1.1, hagree.sound₂, known_step hs.1 hagree.sound₁ hagree.known₁,
        hagree.known₂, hlatest.trans hagree.latest, hview.trans hagree.view, hbarred.trans hagree.barred,
        (filter_hidden es he).symm ▸ hagree.answers⟩
    · intro es v fs u f u' ih hf hs hes
      have hagree := ih hes
      obtain ⟨hlatest, hview, hbarred⟩ := hidden_step hagree.sound₂ hs.1 hf
      exact ⟨hagree.sound₁, sound_step hagree.sound₂ hs.1.1, hagree.known₁,
        known_step hs.1 hagree.sound₂ hagree.known₂, hagree.latest.trans hlatest.symm,
        hagree.view.trans hview.symm, hagree.barred.trans hbarred.symm, (filter_hidden fs hf).symm ▸ hagree.answers⟩
    · intro es v fs u e v' f u' ih he hf hkey hs hs' hes
      have hagree := ih fun o ho => hes o (List.mem_append_left _ ho)
      obtain ⟨-, haccepted, hpeer, hspeaker⟩ := view_eq.mp hagree.view
      obtain ⟨hview, hanswer⟩ := visible_view (recorded_congr hagree.latest) hagree.barred hagree.view
        hagree.sound₁ hagree.sound₂ hagree.known₁ hagree.known₂ hs.1 hs'.1 hs.2 hs'.2 hkey (hes e (by simp) he) he
      refine ⟨sound_step hagree.sound₁ hs.1.1, sound_step hagree.sound₂ hs'.1.1,
        known_step hs.1 hagree.sound₁ hagree.known₁, known_step hs'.1 hagree.sound₂ hagree.known₂, ?_, hview, ?_, ?_⟩
      · exact latest_same hagree.latest hspeaker hpeer (Prod.mk.inj hkey).1 hagree.sound₁ hagree.sound₂
          hs.1 hs'.1
      · have haccepted' : v.server.accepted = u.server.accepted := haccepted
        rw [barred_step hagree.sound₁ hs.1.1, barred_step hagree.sound₂ hs'.1.1, haccepted', hagree.barred,
          (Prod.mk.inj hkey).1]
      · rw [List.filter_append, List.filter_append, List.filter_cons_of_pos he, List.filter_cons_of_pos hf]
        exact List.rel_append hagree.answers (.cons hanswer .nil)
  have hagree := hpair hstill
  exact ⟨hagree.answers, (view_eq.mp hagree.view).1⟩

theorem concerned_causes {inputs : List Input} (h : List.Forall₂ Plays inputs es) :
    (es.filter (concerns py l)).map cause =
      inputs.filter fun input => concerns py l ⟨input.1, input.2, []⟩ := by
  induction h with
  | nil => rfl
  | @cons input o inputs es hplays _ ih =>
    obtain ⟨hevent, hreading⟩ := hplays
    have hsame : concerns py l o = concerns py l ⟨input.1, input.2, []⟩ := by
      rw [concerns, concerns, hevent]
    have hcause : cause o = input := Prod.ext hevent hreading
    cases ho : concerns py l o with
    | true =>
      rw [List.filter_cons_of_pos ho, List.filter_cons_of_pos (hsame ▸ ho), List.map_cons, ih, hcause]
    | false =>
      rw [List.filter_cons_of_neg (by simp [ho]), List.filter_cons_of_neg (by simp [← hsame, ho]), ih]

def current (w : Watched) (event : Event) : Bool :=
  match event with
  | .lost k => (idOf w.server k).all fun c => decide (w.recorded c = peerOf w.server k)
  | _ => true

theorem settled_of_current (h : current w o.event = true) : Settled l w o := by
  rintro k c ⟨he, session, hk, hc, -⟩
  have hid : idOf w.server k = some c := by rw [idOf, hk, Option.bind_some, hc]
  simp only [current, he, hid, Option.all_some, decide_eq_true_eq] at h
  exact .inl h

def lockedRun (before after : List Event) : List Event :=
  [.connect ⟨"10.0.0.1", 40001⟩, .connect ⟨"10.0.0.2", 40002⟩, .command 0 carol (words ["CONN", "alice"]),
      .command 1 bob (words ["CONN"])] ++ before ++
    [.command 0 carol (words ["AQ", "l"]), .lost 0] ++ after ++ [.command 1 carol (words ["AQ", "l"])]

def others : List Event :=
  [.command 0 carol (words ["AQ", "m"]), .command 1 carol (words ["AQ", "n"]), .command 1 carol (words ["FIND", "*"])]

theorem locks_independent_others : ∃ es fs : List Occurrence, es.length = 7 ∧ fs.length = 11 ∧
    List.Forall₂ (SameAnswer ascii) (es.filter (concerns ascii "l")) (fs.filter (concerns ascii "l")) := by
  let f : Watched → Input → Option Watched := fun w input =>
    if current w input.1 then w.next ascii plainConfig input else none
  have hstep : ∀ input v v', f v input = some v' → ∃ o, Plays input o ∧
      Where (Watched.Step ascii plainConfig) (Settled "l") v o v' := by
    intro input v v' hv
    simp only [f] at hv
    split at hv
    · next hlatest =>
      obtain ⟨⟨sv, writes⟩, hs, rfl⟩ := Option.map_eq_some_iff.mp hv
      exact ⟨⟨input.1, input.2, writes⟩, ⟨rfl, rfl⟩, ⟨hs, rfl⟩, settled_of_current hlatest⟩
    · cases hv
  have hruns : ∀ before after, ((allAt 0 (lockedRun before after)).foldlM f (.start 5)).isSome = true →
      ∃ es w, Run (Where (Watched.Step ascii plainConfig) (Settled "l")) (.start 5) es w ∧
        List.Forall₂ Plays (allAt 0 (lockedRun before after)) es := by
    intro before after heval
    obtain ⟨w, hw⟩ := Option.isSome_iff_exists.mp heval
    obtain ⟨es, hrun, hplays⟩ := Run.exists_of_foldlM hstep hw
    exact ⟨es, w, hrun, hplays⟩
  obtain ⟨es, w, hrun, hes⟩ := hruns [] [] (by decide +kernel)
  obtain ⟨fs, w', hrun', hfs⟩ := hruns others [.command 1 carol (words ["RELEASE", "n"])] (by decide +kernel)
  have hstill : ∀ o ∈ es, concerns ascii "l" o = true → Still o := by
    refine forall₂_right hes fun input hinput o ⟨hevent, hreading⟩ _ => ?_
    obtain ⟨event, hmem, rfl⟩ := List.mem_map.mp hinput
    refine ⟨⟨0, hreading⟩, fun timeoutMs shuffle he => ?_⟩
    rw [hevent] at he
    simp [lockedRun] at hmem
    obtain rfl | rfl | rfl | rfl | rfl | rfl | rfl := hmem <;> cases he
  have hcauses : (es.filter (concerns ascii "l")).map cause = (fs.filter (concerns ascii "l")).map cause := by
    have helsewhere : ∀ ws ∈ [["AQ", "m"], ["AQ", "n"], ["FIND", "*"], ["RELEASE", "n"]],
        elsewhere ascii "l" (words ws) = true := by decide +kernel
    have hhere : ∀ ws ∈ [["CONN", "alice"], ["CONN"], ["AQ", "l"]],
        elsewhere ascii "l" (words ws) = false := by decide +kernel
    rw [concerned_causes hes, concerned_causes hfs]
    simp [allAt, lockedRun, others, concerns, helsewhere, hhere]
  exact ⟨es, fs, hes.length_eq.symm, hfs.length_eq.symm, (locks_independent hrun hrun' hstill hcauses).1⟩

end Livelock.LockIndependence
