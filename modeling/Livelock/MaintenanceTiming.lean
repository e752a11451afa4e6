import Livelock.LiveView
import Livelock.LatestConn
import Livelock.Ascii

namespace Livelock.MaintenanceTiming

open Livelock.Lib Livelock.Shared Livelock.MemoryStorage Livelock.StorageInvariant
open Livelock.StorageLease Livelock.StorageRun Livelock.StorageTable Livelock.LiveView
open Livelock.Server Livelock.CommandSpec Livelock.ServerRun Livelock.ServerLease
open Livelock.LatestConn Livelock.Ascii

variable (py : Builtins) (cfg : Config)

/-- Nothing is done with leftovers that maintenance may have removed: locks
past their deadline are not restored, released or marked again, and a client
whose address may have been forgotten owns nothing when an older connection
of it is lost. -/
structure Timely (w : Watched) (o : Occurrence) : Prop where
  restores : ∀ k c, Joins py cfg w.server o k c true →
    OnTime (o.reading 0) w.server.adaptor.store c
  releases : ∀ k c l, Asks py cfg w.server o k (.release c l) →
    Punctual (o.reading 0) w.server.adaptor.store (.release c l)
  losses : ∀ k c, Drops w.server o k c → OnTime (o.reading 0) w.server.adaptor.store c ∧
    (w.recorded c = none ∨ w.recorded c = peerOf w.server k ∨
      ∀ l m, leaseOf w.server l ≠ some ⟨c, m⟩)

variable {py : Builtins} {cfg : Config} {w w' : Watched} {o : Occurrence}

/-- A command that neither asks for signals nor counts the entries. -/
def LockCommand (py : Builtins) (value : List Arg) : Prop :=
  ∀ command ∈ value.head?, ∀ name ∈ command.decode,
    Verb.named (py.lower name) ∉ [.stats, .sigset, .sigexists, .sigdel]

def LockEvent (py : Builtins) : Event → Prop
  | .command _ _ value => LockCommand py value
  | _ => True

instance (py : Builtins) (value : List Arg) : Decidable (LockCommand py value) :=
  inferInstanceAs (Decidable (∀ command ∈ value.head?, ∀ name ∈ command.decode,
    Verb.named (py.lower name) ∉ [.stats, .sigset, .sigexists, .sigdel]))

instance (py : Builtins) : DecidablePred (LockEvent py)
  | .command _ _ value => inferInstanceAs (Decidable (LockCommand py value))
  | .connect _ | .lost _ | .maintenance _ _ => .isTrue trivial

theorem operationOf_lockOp {c : ClientId} {verb : Verb} {args : List Arg} {op : Op}
    (hverb : verb ∉ [.stats, .sigset, .sigexists, .sigdel])
    (h : operationOf py c verb args = some op) : LockOp op := by
  cases verb with
  | aq | aqr | release | locked | find =>
    obtain ⟨_, -, rfl⟩ := Option.map_eq_some_iff.mp h
    trivial
  | sigset | sigexists | sigdel => simp at hverb
  | _ => cases h

theorem intent_lockOp {session : Session} {uuid : ClientId} {value : List Arg} {op : Op}
    (hvalue : LockCommand py value) (h : intent py cfg session uuid value = .operation op) :
    LockOp op := by
  unfold intent at h
  split at h
  · cases h
  · next command args =>
    split at h
    · cases h
    · next name hname =>
      have hverb := hvalue command rfl name hname
      simp only at h
      split at h
      · split at h
        · obtain ⟨c, -, hop⟩ := verbIntent_operation h
          exact operationOf_lockOp hverb hop
        · cases h
      · obtain ⟨c, -, hop⟩ := verbIntent_operation h
        exact operationOf_lockOp hverb hop

def withStore (t : Turn) (s : InMemoryLockStorage) : Turn :=
  { t with adaptor := { t.adaptor with store := s } }

variable {t : Turn} {s : InMemoryLockStorage}

theorem serve_withStore {c : ClientId} {verb : Verb} {args : List Arg}
    (hverb : verb ∉ [.stats, .sigset, .sigexists, .sigdel])
    (h : operationOf py c verb args = none) :
    (withStore t s).serve py cfg c verb args = withStore (t.serve py cfg c verb args) s := by
  cases verb with
  | stats | sigset | sigexists | sigdel => simp at hverb
  | aq | aqr | release | locked =>
    have hargs : oneText args = none := Option.map_eq_none_iff.mp h
    simp only [Turn.serve, Turn.oneArg, hargs]
    rfl
  | find =>
    have hargs : oneText args = none := Option.map_eq_none_iff.mp h
    cases args with
    | nil => rfl
    | cons arg rest =>
      cases rest with
      | cons => rfl
      | nil =>
        simp only [oneText, Arg.text] at hargs
        simp only [Turn.serve]
        by_cases ht : arg.truthy
        · rw [if_pos ht] at hargs
          rw [if_pos ht, if_pos ht, hargs]
          rfl
        · rw [if_neg ht, if_neg ht]
          rfl
  | conninfo =>
    simp only [Turn.serve, Turn.oneArg]
    split <;> rfl
  | ping | pass | conn | unknown => rfl
  | shutdown | dump =>
    simp only [Turn.serve]
    split <;> rfl

theorem conn_withStore {uuid : ClientId} {args : List Arg} (h : connIntent uuid args = .nothing) :
    (withStore t s).conn py uuid args = withStore (t.conn py uuid args) s := by
  cases args with
  | nil => cases h
  | cons arg rest =>
    simp only [connIntent] at h
    simp only [Turn.conn]
    by_cases ht : arg.truthy
    · rw [if_pos ht] at h
      cases hid : arg.clientId with
      | some c =>
        rw [hid] at h
        cases h
      | none =>
        simp only [if_pos ht]
        cases hc : t.session.clientId <;> simp [withStore, hc, Turn.reply, Turn.raise]
    · simp only [if_neg ht]
      cases hc : t.session.clientId <;> simp [withStore, hc, Turn.reply]

theorem dispatch_withStore {session : Session} {uuid : ClientId} {verb : Verb} {args : List Arg}
    (hid : t.session.clientId = session.clientId)
    (hverb : verb ∉ [.stats, .sigset, .sigexists, .sigdel])
    (h : verbIntent py session uuid verb args = .nothing) :
    (withStore t s).dispatch py cfg uuid verb args = withStore (t.dispatch py cfg uuid verb args) s := by
  unfold verbIntent at h
  unfold Turn.dispatch
  have hsession : (withStore t s).session = t.session := rfl
  by_cases hc : verb = .conn
  · rw [if_pos hc] at h ⊢
    rw [if_pos hc]
    exact conn_withStore h
  · rw [if_neg hc] at h ⊢
    rw [if_neg hc, hsession, hid]
    cases hc' : session.clientId with
    | none => rfl
    | some c =>
      rw [hc'] at h
      refine serve_withStore hverb ?_
      cases hop : operationOf py c verb args with
      | none => rfl
      | some op =>
        simp only [hop] at h
        cases h

theorem received_withStore (clk : Clock) {a : StorageAdaptor} (hk : a.killActive = false)
    {session : Session} {uuid : ClientId} {value : List Arg} (hvalue : LockCommand py value)
    (h : intent py cfg session uuid value = .nothing) :
    onCommandReceived py cfg { a with store := s } clk session uuid value =
      withStore (onCommandReceived py cfg a clk session uuid value) s := by
  obtain ⟨store, kill, timeout⟩ := a
  cases hk
  cases value with
  | nil => rfl
  | cons command args =>
    simp only [intent] at h
    simp only [onCommandReceived, processCommand, Bool.false_eq_true, if_false]
    cases hname : command.decode with
    | none => rfl
    | some name =>
      have hverb := hvalue command rfl name hname
      simp only [hname] at h
      simp only
      by_cases hl : lockedOut cfg session
      · simp only [hl, if_true] at h ⊢
        cases hcheck : checkPassword cfg (Verb.named (py.lower name)) args with
        | granted | raised => rfl
        | refused =>
          simp only [hcheck] at h
          let t : Turn := { adaptor := ⟨store, false, timeout⟩, clk := clk, session := session }
          let t' := { t.reply (.error .pass) with session := { session with closing := true } }
          have hdispatch : (withStore t' s).dispatch py cfg uuid _ args = _ :=
            dispatch_withStore rfl hverb h
          exact hdispatch
      · simp only [hl, Bool.false_eq_true, if_false] at h ⊢
        let t : Turn := { adaptor := ⟨store, false, timeout⟩, clk := clk, session := session }
        have hdispatch : (withStore t s).dispatch py cfg uuid _ args = _ :=
          dispatch_withStore rfl hverb h
        exact hdispatch

variable {now : Time} {s₁ s₂ : InMemoryLockStorage} {a a₁ a₂ : StorageAdaptor} {clk : Clock}
variable {session : Session} {uuid : ClientId} {value : List Arg} {t₁ t₂ : Turn}

structure SameTurn (now : Time) (t₁ t₂ : Turn) : Prop where
  writes : t₁.writes = t₂.writes
  session : t₁.session = t₂.session
  ending : t₁.ending = t₂.ending
  store : Alike now t₁.adaptor.store t₂.adaptor.store

theorem alike_setAddress (s : InMemoryLockStorage) (c : ClientId) (address : Address) :
    Alike now (s.setClientLastAddress c address) s := by
  have hsame : holding (s.setClientLastAddress c address) = holding s := holding_congr rfl rfl rfl
  constructor
  · rw [hsame]
  · rw [liveOrder, hsame]
    rfl

theorem joined_alike (h₁ : Rep s₁) (h₂ : Rep s₂) (ha : Alike now s₁ s₂) (c : ClientId)
    (restore : Bool) (peername : Address) (ht₁ : restore = true → OnTime now s₁ c)
    (ht₂ : restore = true → OnTime now s₂ c) :
    Alike now (joined s₁ c restore peername) (joined s₂ c restore peername) := by
  refine (alike_setAddress _ c peername).trans (Alike.trans ?_ (alike_setAddress _ c peername).symm)
  cases restore with
  | false => exact ha
  | true =>
    obtain ⟨hlive₁, horder₁⟩ := unreleaseAll_live h₁ c (ht₁ rfl)
    obtain ⟨hlive₂, horder₂⟩ := unreleaseAll_live h₂ c (ht₂ rfl)
    exact ⟨by rw [if_pos rfl, if_pos rfl, hlive₁, hlive₂, ha.live],
      by rw [if_pos rfl, if_pos rfl, horder₁, horder₂, ha.order]⟩

theorem opened_withStore (cfg : Config) (a : StorageAdaptor) (clk : Clock) (session : Session) :
    opened cfg a clk session = withStore (opened cfg { a with store := s } clk session) a.store := by
  unfold opened
  split <;> rfl

theorem answer_writes (answer : Answer) (hw : t₁.writes = t₂.writes) :
    (Turn.answer answer t₁).writes = (Turn.answer answer t₂).writes := by
  cases answer with
  | none => exact hw
  | bool | found => simp [Turn.answer, Turn.reply, Turn.replyData, hw]
  | signal a => cases a <;> simp [Turn.answer, Turn.reply, hw]

theorem received_alike (hk : a.killActive = false) (h₁ : Rep s₁) (h₂ : Rep s₂)
    (ha : Alike now s₁ s₂) (hclk : clk.reading = fun _ => now) (hvalue : LockCommand py value)
    (hconn : ∀ c, intent py cfg session uuid value = .conn c true → OnTime now s₁ c ∧ OnTime now s₂ c)
    (hop : ∀ op, intent py cfg session uuid value = .operation op →
      Punctual now s₁ op ∧ Punctual now s₂ op) :
    SameTurn now (onCommandReceived py cfg { a with store := s₁ } clk session uuid value)
      (onCommandReceived py cfg { a with store := s₂ } clk session uuid value) := by
  have hdoes₁ := command_does py cfg (a := { a with store := s₁ }) h₁ hk clk session uuid value
  have hdoes₂ := command_does py cfg (a := { a with store := s₂ }) h₂ hk clk session uuid value
  have hopen := opened_withStore (s := s₂) cfg { a with store := s₁ } clk session
  obtain ⟨hadaptor, hoclk⟩ := opened_adaptor cfg { a with store := s₂ } clk session
  rw [hopen] at hdoes₁
  cases hi : intent py cfg session uuid value with
  | nothing =>
    have heq := received_withStore clk (s := s₁) (a := { a with store := s₂ }) hk hvalue hi
    rw [heq]
    rw [hi] at hdoes₂
    cases hdoes₂ with
    | nothing hinert =>
      have hstore := hinert.store
      rw [hadaptor] at hstore
      refine ⟨rfl, rfl, rfl, ?_⟩
      rw [hstore]
      exact ha
  | conn c restore =>
    rw [hi] at hdoes₁ hdoes₂
    generalize onCommandReceived py cfg { a with store := s₁ } clk session uuid value = t₁ at hdoes₁
    generalize onCommandReceived py cfg { a with store := s₂ } clk session uuid value = t₂ at hdoes₂
    generalize opened cfg { a with store := s₂ } clk session = t at hdoes₁ hdoes₂ hadaptor
    cases hdoes₁
    cases hdoes₂
    refine ⟨rfl, rfl, rfl, ?_⟩
    simp only [hadaptor]
    exact joined_alike h₁ h₂ ha c restore _ (fun hr => (hconn c (hr ▸ hi)).1)
      fun hr => (hconn c (hr ▸ hi)).2
  | operation op =>
    obtain ⟨hp₁, hp₂⟩ := hop op hi
    have hlock := intent_lockOp hvalue hi
    rw [hi] at hdoes₁ hdoes₂
    generalize onCommandReceived py cfg { a with store := s₁ } clk session uuid value = t₁ at hdoes₁
    generalize onCommandReceived py cfg { a with store := s₂ } clk session uuid value = t₂ at hdoes₂
    generalize opened cfg { a with store := s₂ } clk session = t at hdoes₁ hdoes₂ hadaptor hoclk
    cases hdoes₁ with
    | operation hexec₁ =>
      cases hdoes₂ with
      | operation hexec₂ =>
        rw [hadaptor, hoclk] at hexec₂
        have hexec₁' := hexec₁
        simp only [withStore, hoclk] at hexec₁'
        obtain ⟨rfl, hsame⟩ := exec_alike py.fnmatch h₁ h₂ ha hclk hlock hp₁ hp₂ hexec₁' hexec₂
        refine ⟨answer_writes _ rfl, ?_, ?_, ?_⟩
        · rw [answer_session, answer_session]
          rfl
        · rw [answer_ending, answer_ending]
          rfl
        · rw [answer_adaptor, answer_adaptor]
          exact hsame

/-- Servers that differ at most in entries that are late and in forgotten
addresses. -/
structure SameServer (t : Time) (sv₁ sv₂ : Server) : Prop where
  connections : sv₁.connections = sv₂.connections
  accepted : sv₁.accepted = sv₂.accepted
  exited : sv₁.exited = sv₂.exited
  store : Alike t sv₁.adaptor.store sv₂.adaptor.store

variable {w₁ w₂ w₁' w₂' : Watched} {o₁ o₂ : Occurrence}

theorem default_positive (s : InMemoryLockStorage) :
    0 < s.graceTime (some StorageAdaptor.defaultReleaseAllTimeout) := by
  rw [graceTime_default]
  decide +kernel

theorem releaseAll_unowned (hs : Rep s) (clk : Clock) (c : ClientId) (timeout : Option Time)
    (hno : ∀ l m, lease s l ≠ some ⟨c, m⟩) : Alike now (s.releaseAll clk c timeout).1 s := by
  have hsame : holding (s.releaseAll clk c timeout).1 = holding s := by
    rw [holding_releaseAll hs]
    funext l
    cases hl : holding s l with
    | none => simp [Table.mark, hl]
    | some h =>
      have ho : h.owner ≠ c := by
        rintro rfl
        exact hno l _ (by rw [lease_holding, hl]; rfl)
      simp [Table.mark, hl, ho]
  constructor
  · rw [hsame]
  · rw [liveOrder, hsame]
    rfl

theorem releaseAll_alike (h₁ : Rep s₁) (h₂ : Rep s₂) (ha : Alike now s₁ s₂) {clk₁ clk₂ : Clock}
    (hclk₁ : clk₁.now = now) (hclk₂ : clk₂.now = now) (c : ClientId) (ht₁ : OnTime now s₁ c)
    (ht₂ : OnTime now s₂ c) :
    Alike now (s₁.releaseAll clk₁ c (some StorageAdaptor.defaultReleaseAllTimeout)).1
      (s₂.releaseAll clk₂ c (some StorageAdaptor.defaultReleaseAllTimeout)).1 := by
  obtain ⟨hlive₁, horder₁⟩ := releaseAll_live h₁ hclk₁ c _ (default_positive s₁) ht₁
  obtain ⟨hlive₂, horder₂⟩ := releaseAll_live h₂ hclk₂ c _ (default_positive s₂) ht₂
  rw [graceTime_default] at hlive₁ hlive₂
  exact ⟨by rw [hlive₁, hlive₂, ha.live], by rw [horder₁, horder₂, ha.order]⟩

/-- When only one of two runs releases the locks of a lost client, it has
forgotten the address that the other one knows, and there are none. -/
theorem released_unowned {k : ConnId} {c : ClientId} (hk₁ : w₁.Known)
    (hrec : w₁.recorded = w₂.recorded) (ht : Timely py cfg w₂ o) (hd : Drops w₂.server o k c)
    (hnone : w₁.server.adaptor.getClientLastAddress c ≠ none)
    (hpeer : w₁.server.adaptor.getClientLastAddress c ≠ peerOf w₂.server k) :
    ∀ l m, leaseOf w₂.server l ≠ some ⟨c, m⟩ := by
  have haddress := (hk₁ c).resolve_left hnone
  rw [haddress, hrec] at hnone hpeer
  obtain h | h | h := (ht.losses k c hd).2
  · exact absurd h hnone
  · exact absurd h hpeer
  · exact h

theorem same_adaptor {sv₁ sv₂ : Server} (h₁ : Sound sv₁) (h₂ : Sound sv₂) (hl₁ : sv₁.exited = false)
    (hl₂ : sv₂.exited = false) :
    sv₂.adaptor = { sv₁.adaptor with store := sv₂.adaptor.store } := by
  have hkill : sv₂.adaptor.killActive = sv₁.adaptor.killActive :=
    (h₂.killActive hl₂).trans (h₁.killActive hl₁).symm
  have htimeout : sv₂.adaptor.releaseAllTimeout = sv₁.adaptor.releaseAllTimeout :=
    h₂.releaseAllTimeout.trans h₁.releaseAllTimeout.symm
  generalize sv₁.adaptor = a₁ at hkill htimeout
  generalize sv₂.adaptor = a₂ at hkill htimeout
  obtain ⟨store₁, kill₁, timeout₁⟩ := a₁
  obtain ⟨store₂, kill₂, timeout₂⟩ := a₂
  obtain rfl : kill₂ = kill₁ := hkill
  obtain rfl : timeout₂ = timeout₁ := htimeout
  rfl

variable {sv₁ sv₂ sv₁' sv₂' : Server}

theorem connect_alike {peername : Address} (hsame : SameServer now sv₁ sv₂) (h₁ : Sound sv₁)
    (h₂ : Sound sv₂) (hs₁ : Steps py cfg sv₁ o₁ sv₁') (hs₂ : Steps py cfg sv₂ o₂ sv₂')
    (he₁ : o₁.event = .connect peername) (he₂ : o₂.event = .connect peername) :
    o₁.writes = o₂.writes ∧ SameServer now sv₁' sv₂' := by
  cases step_change h₁ hs₁ with
  | command _ _ _ _ _ he | lost _ _ he | lostLast _ _ _ he | maintenance _ _ _ _ he =>
    cases he₁.symm.trans he
  | connect p he hw₁ =>
    cases he₁.symm.trans he
    cases step_change h₂ hs₂ with
    | command _ _ _ _ _ he | lost _ _ he | lostLast _ _ _ he | maintenance _ _ _ _ he =>
      cases he₂.symm.trans he
    | connect p he hw₂ =>
      cases he₂.symm.trans he
      refine ⟨hw₁.trans hw₂.symm, ?_, ?_, hsame.exited, hsame.store⟩
      · rw [hsame.connections, hsame.accepted]
      · rw [hsame.accepted]

theorem command_alike {k : ConnId} (hsame : SameServer now sv₁ sv₂) (h₁ : Sound sv₁)
    (h₂ : Sound sv₂) (hs₁ : Steps py cfg sv₁ o₁ sv₁') (hs₂ : Steps py cfg sv₂ o₂ sv₂')
    (he₁ : o₁.event = .command k uuid value) (he₂ : o₂.event = .command k uuid value)
    (hr₁ : o₁.reading = fun _ => now) (hr₂ : o₂.reading = fun _ => now)
    (hvalue : LockCommand py value)
    (hconn : ∀ c, Joins py cfg sv₁ o₁ k c true → Joins py cfg sv₂ o₂ k c true →
      OnTime now sv₁.adaptor.store c ∧ OnTime now sv₂.adaptor.store c)
    (hop : ∀ op, Asks py cfg sv₁ o₁ k op → Asks py cfg sv₂ o₂ k op →
      Punctual now sv₁.adaptor.store op ∧ Punctual now sv₂.adaptor.store op) :
    o₁.writes = o₂.writes ∧ SameServer now sv₁' sv₂' := by
  have hl₁ := steps_live hs₁
  have hl₂ := steps_live hs₂
  obtain ⟨session, t₁, hget₁, rfl, hw₁, -, -, ht₁, -⟩ := command_change h₁ hs₁ he₁
  obtain ⟨session', t₂, hget₂, rfl, hw₂, -, -, ht₂, -⟩ := command_change h₂ hs₂ he₂
  have hget := hget₂
  rw [← hsame.connections] at hget
  obtain rfl : session = session' := Option.some_inj.mp (hget₁.symm.trans hget)
  have hclk : o₂.clk = o₁.clk := by rw [Occurrence.clk, Occurrence.clk, hr₁, hr₂]
  have hturn : SameTurn now t₁ t₂ := by
    rw [ht₁, ht₂, hclk, same_adaptor h₁ h₂ hl₁ hl₂]
    refine received_alike (h₁.killActive hl₁) h₁.rep h₂.rep hsame.store hr₁ hvalue
      (fun c hc => ?_) fun op ho => ?_
    · exact hconn c ⟨uuid, value, session, he₁, hget₁, hc⟩ ⟨uuid, value, session, he₂, hget₂, hc⟩
    · exact hop op ⟨uuid, value, session, he₁, hget₁, ho⟩ ⟨uuid, value, session, he₂, hget₂, ho⟩
  refine ⟨by rw [hw₁, hw₂, hturn.writes], ?_, hsame.accepted, ?_, hturn.store⟩
  · simp only [Server.after, hsame.connections, hturn.session, hturn.ending]
  · simp only [Server.after, hturn.ending]

theorem lost_alike {k : ConnId} (hsame : SameServer now sv₁ sv₂) (h₁ : Sound sv₁)
    (h₂ : Sound sv₂) (hs₁ : Steps py cfg sv₁ o₁ sv₁') (hs₂ : Steps py cfg sv₂ o₂ sv₂')
    (he₁ : o₁.event = .lost k) (he₂ : o₂.event = .lost k)
    (hr₁ : o₁.reading = fun _ => now) (hr₂ : o₂.reading = fun _ => now)
    (hboth : ∀ c, Drops sv₁ o₁ k c → Drops sv₂ o₂ k c →
      OnTime now sv₁.adaptor.store c ∧ OnTime now sv₂.adaptor.store c)
    (hleft : ∀ c, Drops sv₁ o₁ k c → ¬ Drops sv₂ o₂ k c → ∀ l m, leaseOf sv₁ l ≠ some ⟨c, m⟩)
    (hright : ∀ c, Drops sv₂ o₂ k c → ¬ Drops sv₁ o₁ k c → ∀ l m, leaseOf sv₂ l ≠ some ⟨c, m⟩) :
    o₁.writes = o₂.writes ∧ SameServer now sv₁' sv₂' := by
  have hclk₁ : o₁.clk.now = now := by rw [Occurrence.clk, hr₁]; rfl
  have hclk₂ : o₂.clk.now = now := by rw [Occurrence.clk, hr₂]; rfl
  cases step_change h₁ hs₁ with
  | connect _ he | command _ _ _ _ _ he | maintenance _ _ _ _ he => cases he₁.symm.trans he
  | lost k' session he hw₁ hget₁ hother₁ =>
    cases he₁.symm.trans he
    cases step_change h₂ hs₂ with
    | connect _ he | command _ _ _ _ _ he | maintenance _ _ _ _ he => cases he₂.symm.trans he
    | lost k' session' he hw₂ =>
      cases he₂.symm.trans he
      exact ⟨hw₁.trans hw₂.symm, by rw [hsame.connections], hsame.accepted, hsame.exited, hsame.store⟩
    | lostLast k' session' c he hw₂ hget₂ hid hlast =>
      cases he₂.symm.trans he
      have hno := hright c ⟨he₂, session', hget₂, hid, hlast⟩ fun hd => by
        obtain ⟨-, s, hs, hc, hrel⟩ := hd
        cases hget₁.symm.trans hs
        exact hrel.elim (hother₁ c hc).1 (hother₁ c hc).2
      exact ⟨hw₁.trans hw₂.symm, by rw [hsame.connections], hsame.accepted, hsame.exited,
        hsame.store.trans (releaseAll_unowned h₂.rep _ c _ hno).symm⟩
  | lostLast k' session c he hw₁ hget₁ hid₁ hlast₁ =>
    cases he₁.symm.trans he
    have hd₁ : Drops sv₁ o₁ k c := ⟨he₁, session, hget₁, hid₁, hlast₁⟩
    cases step_change h₂ hs₂ with
    | connect _ he | command _ _ _ _ _ he | maintenance _ _ _ _ he => cases he₂.symm.trans he
    | lost k' session' he hw₂ hget₂ hother₂ =>
      cases he₂.symm.trans he
      have hno := hleft c hd₁ fun hd => by
        obtain ⟨-, s, hs, hc, hrel⟩ := hd
        cases hget₂.symm.trans hs
        exact hrel.elim (hother₂ c hc).1 (hother₂ c hc).2
      exact ⟨hw₁.trans hw₂.symm, by rw [hsame.connections], hsame.accepted, hsame.exited,
        (releaseAll_unowned h₁.rep _ c _ hno).trans hsame.store⟩
    | lostLast k' session' c' he hw₂ hget₂ hid₂ hlast₂ =>
      cases he₂.symm.trans he
      have hget := hget₂
      rw [← hsame.connections] at hget
      obtain rfl : session = session' := Option.some_inj.mp (hget₁.symm.trans hget)
      cases hid₁.symm.trans hid₂
      obtain ⟨ht₁, ht₂⟩ := hboth c hd₁ ⟨he₂, session, hget₂, hid₂, hlast₂⟩
      refine ⟨hw₁.trans hw₂.symm, by rw [hsame.connections], hsame.accepted, hsame.exited, ?_⟩
      rw [h₁.releaseAllTimeout, h₂.releaseAllTimeout]
      exact releaseAll_alike h₁.rep h₂.rep hsame.store hclk₁ hclk₂ c ht₁ ht₂

theorem drops_id {k : ConnId} {c : ClientId} (hd : Drops sv₁ o k c) : idOf sv₁ k = some c := by
  obtain ⟨-, session, hget, hid, -⟩ := hd
  rw [idOf, hget]
  exact hid

/-- One event, the same in two runs, gets the same answer. -/
theorem visible_step (hsame : SameServer now w₁.server w₂.server) (h₁ : Sound w₁.server)
    (h₂ : Sound w₂.server) (hk₁ : w₁.Known) (hk₂ : w₂.Known) (hrec : w₁.recorded = w₂.recorded)
    (hs₁ : w₁.Step py cfg o₁ w₁') (hs₂ : w₂.Step py cfg o₂ w₂') (hev : o₁.event = o₂.event)
    (hr₁ : o₁.reading = fun _ => now) (hr₂ : o₂.reading = fun _ => now)
    (ht₁ : Timely py cfg w₁ o₁) (ht₂ : Timely py cfg w₂ o₂)
    (hvisible : ∀ timeoutMs shuffle, o₁.event ≠ .maintenance timeoutMs shuffle)
    (hcommand : LockEvent py o₁.event) :
    o₁.writes = o₂.writes ∧ SameServer now w₁'.server w₂'.server := by
  have hzero₁ : o₁.reading 0 = now := by rw [hr₁]
  have hzero₂ : o₂.reading 0 = now := by rw [hr₂]
  have hpeers : ∀ k, peerOf w₁.server k = peerOf w₂.server k := fun k => by
    rw [peerOf, peerOf, hsame.connections]
  have hids : ∀ k, idOf w₁.server k = idOf w₂.server k := fun k => by
    rw [idOf, idOf, hsame.connections]
  cases he₁ : o₁.event with
  | connect peername =>
    exact connect_alike hsame h₁ h₂ hs₁.1 hs₂.1 he₁ (hev ▸ he₁)
  | command k uuid value =>
    rw [he₁] at hcommand
    refine command_alike hsame h₁ h₂ hs₁.1 hs₂.1 he₁ (hev ▸ he₁) hr₁ hr₂ hcommand
      (fun c hj₁ hj₂ => ?_) fun op ha₁ ha₂ => ?_
    · exact ⟨hzero₁ ▸ ht₁.restores k c hj₁, hzero₂ ▸ ht₂.restores k c hj₂⟩
    · cases op with
      | release c l =>
        exact ⟨hzero₁ ▸ ht₁.releases k c l ha₁, hzero₂ ▸ ht₂.releases k c l ha₂⟩
      | _ => exact ⟨trivial, trivial⟩
  | lost k =>
    have he₂ : o₂.event = .lost k := hev ▸ he₁
    refine lost_alike hsame h₁ h₂ hs₁.1 hs₂.1 he₁ he₂ hr₁ hr₂
      (fun c hd₁ hd₂ => ?_) (fun c hd hnot => ?_) fun c hd hnot => ?_
    · exact ⟨hzero₁ ▸ (ht₁.losses k c hd₁).1, hzero₂ ▸ (ht₂.losses k c hd₂).1⟩
    · obtain ⟨hnone, hpeer⟩ := (lost_cases he₂ ((hids k).symm.trans (drops_id hd))).resolve_left hnot
      exact released_unowned hk₂ hrec.symm ht₁ hd hnone (hpeers k ▸ hpeer)
    · obtain ⟨hnone, hpeer⟩ := (lost_cases he₁ ((hids k).trans (drops_id hd))).resolve_left hnot
      exact released_unowned hk₁ hrec ht₂ hd hnone (hpeers k ▸ hpeer)
  | maintenance timeoutMs shuffle => exact absurd he₁ (hvisible timeoutMs shuffle)

theorem SameServer.refl (t : Time) (sv : Server) : SameServer t sv sv := ⟨rfl, rfl, rfl, rfl, rfl⟩

theorem SameServer.symm (h : SameServer now sv₁ sv₂) : SameServer now sv₂ sv₁ :=
  ⟨h.connections.symm, h.accepted.symm, h.exited.symm, h.store.symm⟩

theorem SameServer.trans (h : SameServer now sv₁ sv₂) (h' : SameServer now sv₂ sv₁') :
    SameServer now sv₁ sv₁' :=
  ⟨h.connections.trans h'.connections, h.accepted.trans h'.accepted, h.exited.trans h'.exited,
    h.store.trans h'.store⟩

theorem SameServer.later {t : Time} (h : SameServer now sv₁ sv₂) (hle : now ≤ t) :
    SameServer t sv₁ sv₂ :=
  ⟨h.connections, h.accepted, h.exited, h.store.later hle⟩

def shown : Event → Bool
  | .maintenance _ _ => false
  | _ => true

def visible (o : Occurrence) : Bool := shown o.event

def cause (o : Occurrence) : Input := (o.event, o.reading)

theorem visible_false : visible o = false ↔ ∃ timeoutMs shuffle, o.event = .maintenance timeoutMs shuffle := by
  cases he : o.event <;> simp [visible, shown, he]

theorem hidden_step {t : Time} (h : Sound sv₁) (hs : Steps py cfg sv₁ o sv₁')
    (ho : visible o = false) (hread : ∀ n, o.reading n ≤ t) : SameServer t sv₁ sv₁' := by
  obtain ⟨timeoutMs, shuffle, he⟩ := visible_false.mp ho
  obtain ⟨store, clk, heq, rfl⟩ := maintenance_change h hs he
  exact ⟨rfl, rfl, rfl, maintenance_alike h.rep timeoutMs shuffle hread heq⟩

theorem latest_hidden (ho : visible o = false) (hs : w.Step py cfg o w') : w'.latest = w.latest := by
  obtain ⟨timeoutMs, shuffle, he⟩ := visible_false.mp ho
  rw [hs.2, he]
  rfl

/-- Two runs after the same visible events: what they answered is the same,
and from the latest reading on they cannot be told apart. -/
structure Matched (es : List Occurrence) (w₁ : Watched) (fs : List Occurrence) (w₂ : Watched) : Prop where
  sound₁ : Sound w₁.server
  sound₂ : Sound w₂.server
  known₁ : w₁.Known
  known₂ : w₂.Known
  latest : w₁.latest = w₂.latest
  answers : es.filter visible = fs.filter visible
  same : ∀ t, (∀ o ∈ es, ∀ n, o.reading n ≤ t) → (∀ o ∈ fs, ∀ n, o.reading n ≤ t) →
    SameServer t w₁.server w₂.server

variable {es fs : List Occurrence}

theorem Matched.symm (h : Matched es w₁ fs w₂) : Matched fs w₂ es w₁ :=
  ⟨h.sound₂, h.sound₁, h.known₂, h.known₁, h.latest.symm, h.answers.symm,
    fun t hfs hes => (h.same t hes hfs).symm⟩

theorem matched_start (T : Time) : Matched [] (.start T) [] (.start T) where
  sound₁ := sound_start T
  sound₂ := sound_start T
  known₁ _ := .inl rfl
  known₂ _ := .inl rfl
  latest := rfl
  answers := rfl
  same t _ _ := .refl t _

theorem matched_hidden (h : Matched es w₁ fs w₂) (ho : visible o = false)
    (hs : w₁.Step py cfg o w₁') : Matched (es ++ [o]) w₁' fs w₂ where
  sound₁ := sound_step h.sound₁ hs.1
  sound₂ := h.sound₂
  known₁ := known_step hs h.sound₁ h.known₁
  known₂ := h.known₂
  latest := (latest_hidden ho hs).trans h.latest
  answers := by simp [List.filter_append, ho, h.answers]
  same t hes hfs := by
    obtain ⟨hpast, hlast⟩ := List.forall_mem_append.mp hes
    have hread := hlast o (List.mem_singleton_self o)
    exact (hidden_step h.sound₁ hs.1 ho hread).symm.trans (h.same t hpast hfs)

theorem matched_visible (h : Matched es w₁ fs w₂) (hc₁ : Clocked (es ++ [o₁]))
    (hc₂ : Clocked (fs ++ [o₂])) (ho₁ : visible o₁ = true) (ho₂ : visible o₂ = true)
    (hsame : cause o₁ = cause o₂) (hr : o₁.reading = fun _ => now)
    (hcommand : LockEvent py o₁.event) (hs₁ : w₁.Step py cfg o₁ w₁') (hs₂ : w₂.Step py cfg o₂ w₂')
    (ht₁ : Timely py cfg w₁ o₁) (ht₂ : Timely py cfg w₂ o₂) :
    Matched (es ++ [o₁]) w₁' (fs ++ [o₂]) w₂' := by
  obtain ⟨hevent, hreading⟩ := Prod.mk.inj hsame
  have hr₂ : o₂.reading = fun _ => now := hreading.symm.trans hr
  have hpast₁ : ∀ o ∈ es, ∀ n, o.reading n ≤ now := fun o ho n => by
    have hle := (List.pairwise_append.mp hc₁.forward).2.2 o ho o₁ (List.mem_singleton_self o₁) n
    rwa [hr] at hle
  have hpast₂ : ∀ o ∈ fs, ∀ n, o.reading n ≤ now := fun o ho n => by
    have hle := (List.pairwise_append.mp hc₂.forward).2.2 o ho o₂ (List.mem_singleton_self o₂) n
    rwa [hr₂] at hle
  have hnow := h.same now hpast₁ hpast₂
  have hseen : ∀ timeoutMs shuffle, o₁.event ≠ .maintenance timeoutMs shuffle := by
    intro timeoutMs shuffle he
    rw [visible_false.mpr ⟨timeoutMs, shuffle, he⟩] at ho₁
    cases ho₁
  obtain ⟨hwrites, hafter⟩ := visible_step hnow h.sound₁ h.sound₂ h.known₁ h.known₂ (recorded_congr h.latest) hs₁ hs₂
    hevent hr hr₂ ht₁ ht₂ hseen hcommand
  have hocc : o₁ = o₂ := by
    obtain ⟨event₁, reading₁, writes₁⟩ := o₁
    obtain ⟨event₂, reading₂, writes₂⟩ := o₂
    obtain rfl : event₁ = event₂ := hevent
    obtain rfl : reading₁ = reading₂ := hreading
    obtain rfl : writes₁ = writes₂ := hwrites
    rfl
  refine ⟨sound_step h.sound₁ hs₁.1, sound_step h.sound₂ hs₂.1, known_step hs₁ h.sound₁ h.known₁,
    known_step hs₂ h.sound₂ h.known₂, ?_, ?_, fun t hes _ => ?_⟩
  · rw [hs₁.2, hs₂.2, hevent]
    exact latest_alike hnow.connections h.latest _
  · rw [List.filter_append, List.filter_append, h.answers, hocc]
  · have hlast := (List.forall_mem_append.mp hes).2 o₁ (List.mem_singleton_self o₁) 0
    rw [hr] at hlast
    exact hafter.later hlast

/-- A lock command, a connection or a loss of one, at one clock time. -/
def Presented (py : Builtins) (o : Occurrence) : Prop :=
  (∃ now, o.reading = fun _ => now) ∧ LockEvent py o.event

/-- Two runs with the same connections, lock commands and losses at the same
clock times give the same answers wherever maintenance passes are inserted, as
long as nothing is done with the leftovers that only one of them has removed. -/
theorem answers_same {T : Time} (h : Run (Where (Watched.Step py cfg) (Timely py cfg)) (.start T) es w)
    (h' : Run (Where (Watched.Step py cfg) (Timely py cfg)) (.start T) fs w')
    (hes : Clocked es) (hfs : Clocked fs) (hpresented : ∀ o ∈ es, visible o = true → Presented py o)
    (hsame : (es.filter visible).map cause = (fs.filter visible).map cause) :
    es.filter visible = fs.filter visible := by
  let R : List Occurrence → Watched → List Occurrence → Watched → Prop := fun es w fs w' =>
    Clocked es → Clocked fs → (∀ o ∈ es, visible o = true → Presented py o) → Matched es w fs w'
  have hpair : R es w fs w' := by
    refine Run.pair h h' hsame (fun _ _ _ => matched_start T) ?_ ?_ ?_
    · intro es v fs u e v' ih he hs hes hfs hp
      exact matched_hidden (ih hes.init hfs fun o ho => hp o (List.mem_append_left _ ho)) he hs.1
    · intro es v fs u f u' ih hf hs hes hfs hp
      exact (matched_hidden (ih hes hfs.init hp).symm hf hs.1).symm
    · intro es v fs u e v' f u' ih he hf hkey hs hs' hes hfs hp
      obtain ⟨⟨now, hnow⟩, hcommand⟩ := hp e (by simp) he
      exact matched_visible (ih hes.init hfs.init fun o ho => hp o (List.mem_append_left _ ho)) hes hfs
        he hf hkey hnow hcommand hs.1 hs'.1 hs.2 hs'.2
  exact (hpair hes hfs hpresented).answers

theorem timely_empty (hempty : w.server.adaptor.store.allLocks.items = [])
    (hlost : ∀ k, o.event ≠ .lost k) : Timely py cfg w o := by
  have hnone : ∀ l, holding w.server.adaptor.store l = none := by
    intro l
    have hget : w.server.adaptor.store.allLocks.get? l = none := by
      rw [Dict.get?, hempty]
      rfl
    unfold holding
    split
    · next hl => cases hget.symm.trans hl
    · rfl
  have hontime : ∀ c, OnTime (o.reading 0) w.server.adaptor.store c := by
    intro c l h hl
    cases (hnone l).symm.trans hl
  exact ⟨fun _ c _ => hontime c, fun _ c l _ h hl => hontime c l h hl, fun k c hd => absurd hd.1 (hlost k)⟩

theorem causes_plays {inputs : List Input} (h : List.Forall₂ Plays inputs es) :
    (es.filter visible).map cause = inputs.filter fun input => shown input.1 := by
  have hmap : es.map cause = inputs := by
    induction h with
    | nil => rfl
    | cons hp _ ih => rw [List.map_cons, ih, cause, hp.1, hp.2]
  rw [← hmap, List.filter_map]
  rfl

theorem plays_still {now : Time} {events : List Event}
    (h : List.Forall₂ Plays (allAt now events) es) : ∀ o ∈ es, o.reading = fun _ => now := by
  refine forall₂_right h fun input hinput o ho => ?_
  obtain ⟨event, -, rfl⟩ := List.mem_map.mp hinput
  exact ho.2

theorem plays_lockEvent {now : Time} {events : List Event}
    (h : List.Forall₂ Plays (allAt now events) es) (hlock : ∀ event ∈ events, LockEvent py event) :
    ∀ o ∈ es, LockEvent py o.event := by
  refine forall₂_right h fun input hinput o ho => ?_
  obtain ⟨event, hevent, rfl⟩ := List.mem_map.mp hinput
  rw [ho.1]
  exact hlock event hevent

def calm (w : Watched) (event : Event) : Bool :=
  w.server.adaptor.store.allLocks.items.isEmpty &&
    match event with
    | .lost _ => false
    | _ => true

theorem timely_of_calm (h : calm w o.event = true) : Timely py cfg w o := by
  obtain ⟨hempty, hevent⟩ := Bool.and_eq_true_iff.mp h
  refine timely_empty (List.isEmpty_iff.mp hempty) fun k he => ?_
  simp [he] at hevent

def lockingRun (es : List Event) : List Event :=
  [.connect ⟨"10.0.0.1", 40001⟩, .command 0 bob (words ["CONN", "alice"])] ++ es ++
    [.command 0 bob (words ["AQ", "l"])]

theorem answers_same_locking : ∃ es fs : List Occurrence, es.length = 3 ∧ fs.length = 4 ∧
    es.filter visible = fs.filter visible := by
  let f : Watched → Input → Option Watched := fun w input =>
    if calm w input.1 then w.next ascii plainConfig input else none
  have hstep : ∀ input v v', f v input = some v' → ∃ o, Plays input o ∧
      Where (Watched.Step ascii plainConfig) (Timely ascii plainConfig) v o v' := by
    intro input v v' hv
    simp only [f] at hv
    split at hv
    · next hcalm =>
      obtain ⟨⟨sv, writes⟩, hs, rfl⟩ := Option.map_eq_some_iff.mp hv
      exact ⟨⟨input.1, input.2, writes⟩, ⟨rfl, rfl⟩, ⟨hs, rfl⟩, timely_of_calm hcalm⟩
    · cases hv
  have hruns : ∀ events, ((allAt 0 (lockingRun events)).foldlM f (.start 5)).isSome = true →
      ∃ es w, Run (Where (Watched.Step ascii plainConfig) (Timely ascii plainConfig)) (.start 5) es w ∧
        List.Forall₂ Plays (allAt 0 (lockingRun events)) es := by
    intro events heval
    obtain ⟨w, hw⟩ := Option.isSome_iff_exists.mp heval
    obtain ⟨es, hrun, hplays⟩ := Run.exists_of_foldlM hstep hw
    exact ⟨es, w, hrun, hplays⟩
  obtain ⟨es, w, hrun, hes⟩ := hruns [] (by decide +kernel)
  obtain ⟨fs, w', hrun', hfs⟩ := hruns [.maintenance 50 .same] (by decide +kernel)
  have hlock : ∀ event ∈ lockingRun [], LockEvent ascii event := by decide +kernel
  refine ⟨es, fs, hes.length_eq.symm, hfs.length_eq.symm, answers_same hrun hrun'
    (clocked_still le_rfl (plays_still hes)) (clocked_still le_rfl (plays_still hfs))
    (fun o ho _ => ⟨⟨0, plays_still hes o ho⟩, plays_lockEvent hes hlock o ho⟩) ?_⟩
  rw [causes_plays hes, causes_plays hfs]
  rfl

def losingRun (es : List Event) : List Event :=
  [.connect ⟨"10.0.0.1", 40001⟩, .connect ⟨"10.0.0.1", 40002⟩,
    .command 0 bob (words ["CONN", "alice"]), .command 1 bob (words ["CONN", "alice"])] ++ es ++
    [.command 1 bob (words ["AQ", "l"]), .lost 0]

def answered (b : Bool) : Occurrence :=
  ⟨.command 1 bob (words ["LOCKED", "l"]), fun _ => 5, [.reply (.bool b)]⟩

def told (py : Builtins) (es : List Event) : Option Bool :=
  ((allAt 0 (losingRun es)).foldlM (Server.next py plainConfig) (.start 5)).bind fun sv =>
    (sv.step py plainConfig (answered true).event (answered true).clk).bind fun r =>
      match r.2 with
      | [.reply (.bool b)] => some b
      | _ => none

theorem told_run {es : List Event} {b : Bool} (h : told py es = some b) : ∃ pre w w',
    Run (Steps py plainConfig) (.start 5) pre w ∧ Steps py plainConfig w (answered b) w' ∧
      List.Forall₂ Plays (allAt 0 (losingRun es)) pre := by
  obtain ⟨w, hw, h⟩ := Option.bind_eq_some_iff.mp h
  obtain ⟨⟨w', writes⟩, hs, h⟩ := Option.bind_eq_some_iff.mp h
  obtain ⟨pre, hrun, hplays⟩ := play_events hw
  simp only at h
  split at h
  · cases h
    exact ⟨pre, w, w', hrun, hs, hplays⟩
  · cases h

/-- A maintenance pass that finds Alice without locks forgets her address: the
loss of her older connection then marks her lock, and it runs out. -/
theorem answers_differ : ¬ ∀ es w fs w', Run (Steps ascii plainConfig) (.start 5) es w →
    Run (Steps ascii plainConfig) (.start 5) fs w' → Clocked es → Clocked fs →
    (∀ o ∈ es, visible o = true → Presented ascii o) →
    (es.filter visible).map cause = (fs.filter visible).map cause →
    es.filter visible = fs.filter visible := by
  intro h
  have hkept : told ascii [] = some true := by decide +kernel
  have hgone : told ascii [.maintenance 50 .same] = some false := by decide +kernel
  obtain ⟨es, v, w, hrun, hs, hes⟩ := told_run hkept
  obtain ⟨fs, v', w', hrun', hs', hfs⟩ := told_run hgone
  have hclocked : ∀ es : List Occurrence, (∀ o ∈ es, o.reading = fun _ => 0) → ∀ b,
      Clocked (es ++ [answered b]) := by
    intro es hread b
    have hfive : (0 : Time) ≤ 5 := by decide +kernel
    refine clocked_snoc (clocked_still le_rfl hread) (fun o ho n => ?_) hfive _ _
    rw [hread o ho]
    exact hfive
  have hlast : ∀ es b, (es ++ [answered b]).filter visible = es.filter visible ++ [answered b] := by
    intro es b
    rw [List.filter_append]
    rfl
  have hsame := h (es ++ [answered true]) w (fs ++ [answered false]) w' (hrun.snoc hs) (hrun'.snoc hs')
    (hclocked es (plays_still hes) true) (hclocked fs (plays_still hfs) false)
    (fun o ho _ => ?_) ?_
  · rw [hlast, hlast] at hsame
    obtain ⟨-, hanswers⟩ := List.append_singleton_inj.mp hsame
    cases hanswers
  · have hlock : ∀ event ∈ losingRun [], LockEvent ascii event := by decide +kernel
    obtain ho | ho := List.mem_append.mp ho
    · exact ⟨⟨0, plays_still hes o ho⟩, plays_lockEvent hes hlock o ho⟩
    · rw [List.mem_singleton.mp ho]
      exact ⟨⟨5, rfl⟩, by decide +kernel⟩
  · rw [hlast, hlast, List.map_append, List.map_append, causes_plays hes, causes_plays hfs]
    rfl

end Livelock.MaintenanceTiming
