import Livelock.OwnSockets
import Livelock.Ascii

namespace Livelock.ForkedProcesses

open Livelock.Lib Livelock.Shared Livelock.MemoryStorage Livelock.Server Livelock.CommandSpec
open Livelock.ServerRun hiding Steps
open Livelock.StorageRun Livelock.ServerLease Livelock.Framing
open Livelock.ProcessTree Livelock.ProcessInvariant Livelock.OwnSockets Livelock.Ascii
open Livelock.Client (LiveLockConnection Exc Call Comp)
open Livelock.Network (Choice)

variable (py : Builtins) (cfg : Config) (hostname : String) (given : Given)

/-- What an object still has to do keeps to what is its own. -/
def Keeps (a : Agent) (t : Comp Unit) (w : World) : Prop :=
  t.Safe (Responds py cfg a) (Around py cfg given a) (fun w e => Allowed py w a e) (fun _ _ => True)
    (fun _ _ => True) w

/-- What holds of the system at any moment. -/
structure Good (s : State) : Prop where
  wf : WellFormed py given s.world
  busy : ∀ a, idle (s.task a) = false → (s.world.client a).isSome = true
  keeps : ∀ a, Keeps py cfg given a (s.task a) s.world

def used : Call → Option ConnId
  | .sendall k _ | .read k | .close k => some k
  | _ => none

/-- The request that is next on a connection asks the storage for an operation. -/
def Requests (s : State) (k : ConnId) (uuid : ClientId) (op : Op) : Prop :=
  ∃ ws rest session, s.world.queue k = ws :: rest ∧ s.world.server.connections.get? k = some session ∧
    intent py cfg session uuid (Server.words ws) = .operation op

/-- On the way from `s₀` to `s` the process has asked for the lock as client `c`. -/
def Acquired (s₀ : State) (p : Nat) (c : ClientId) (l : LockId) (s : State) : Prop :=
  ∃ ms t a k uuid reentrant reading t' ms', Run (Steps py cfg hostname given) s₀ ms t ∧
    t.world.opener k = some a ∧ a.pid = p ∧ Requests py cfg t k uuid (.acquire c l reentrant) ∧
    Steps py cfg hostname given t (.execute k uuid reading) t' ∧ Run (Steps py cfg hostname given) t' ms' s

/-- A request to release the lock is executed, or its connection is lost. -/
inductive GivesUp (s : State) (k : ConnId) (l : LockId) : Move → Prop
  | release (uuid c : ClientId) (reading : Nat → Time) : Requests py cfg s k uuid (.release c l) →
      GivesUp s k l (.execute k uuid reading)
  | lost (reading : Nat → Time) : GivesUp s k l (.other (.lost k) reading)

/-- What a move does to the system. -/
inductive Change (s : State) : Move → State → Prop
  | call {a : Agent} {choice : Choice} {e : Call} {next : e.Result → Comp Unit} {r : e.Result} {w' : World} :
      s.task a = .call e next → s.world.answer py cfg a e choice = some (r, w') →
      Change s (.call a choice) ⟨w', Function.update s.task a (next r)⟩
  | start {a : Agent} {job : Job} : (s.world.client a).isSome = true → job.ordinary py = true →
      Change s (.start a job) ⟨s.world, Function.update s.task a (job.program ⟨a.pid, hostname⟩)⟩
  | construct {a : Agent} {clientId password : Option String} {maxPayload : Nat} : a.pid ∈ s.world.born →
      s.world.client a = none → (∀ id ∈ Client.truthy clientId, (a.pid, id) ∈ given) →
      Change s (.construct a clientId password maxPayload) (s.construct a clientId password maxPayload)
  | fork {p q : Nat} {between : Nat → Bool} : q ∉ s.world.born → Change s (.fork p q between) (s.fork p q between)
  | execute {k : ConnId} {uuid : ClientId} {reading : Nat → Time} {ws : List String} {rest : List (List String)}
      {writes : List Write} {sv' : Server} : s.world.queue k = ws :: rest → s.world.unused given uuid = true →
      ServerRun.Steps py cfg s.world.server ⟨.command k uuid (Server.words ws), reading, writes⟩ sv' →
      Change s (.execute k uuid reading) ⟨s.world.executed py k uuid ws rest sv' writes, s.task⟩
  | other {event : Event} {reading : Nat → Time} {writes : List Write} {sv' : Server} :
      State.foreign s.world event = true → ServerRun.Steps py cfg s.world.server ⟨event, reading, writes⟩ sv' →
      Change s (.other event reading) ⟨{ s.world with server := sv' }, s.task⟩

variable {py cfg hostname given} {s s' : State} {a b : Agent} {w w' : World} {t : Comp Unit} {k : ConnId}

theorem keeps_idle (h : idle t = true) (w : World) : Keeps py cfg given a t w := by
  cases t with
  | ret | raise => exact trivial
  | call => cases h

theorem keeps_around (h : Keeps py cfg given a t w) (haround : Around py cfg given a w w') :
    Keeps py cfg given a t w' :=
  Prog.safe_env h haround (fun _ _ _ _ _ => trivial) fun _ _ _ _ _ => trivial

theorem good_around (h : Good py cfg given s) (hwf : WellFormed py given w)
    (haround : ∀ a, Around py cfg given a s.world w) : Good py cfg given ⟨w, s.task⟩ where
  wf := hwf
  busy a ha := by
    simp only [(haround a).client]
    exact h.busy a ha
  keeps a := keeps_around (h.keeps a) (haround a)

theorem good_call {e : Call} {next : e.Result → Comp Unit} {r : e.Result} (h : Good py cfg given s)
    (htask : s.task a = .call e next) (hr : Responds py cfg a s.world e r w') :
    Good py cfg given ⟨w', Function.update s.task a (next r)⟩ := by
  have hpresent : Present py given a s.world := ⟨h.wf, h.busy a (by rw [htask]; rfl)⟩
  obtain ⟨hok, hnext⟩ := Prog.safe_call (htask ▸ h.keeps a)
  have hafter : Present py given a w' := present_responds hpresent hr hok
  have haround : ∀ b, b ≠ a → Around py cfg given b s.world w' :=
    fun b hb => around_responds hb hpresent hok hr
  refine ⟨hafter.1, fun b hbusy => ?_, fun b => ?_⟩
  · by_cases hb : b = a
    · subst hb
      exact hafter.2
    · simp only [Function.update_of_ne hb] at hbusy
      simp only [(haround b hb).client]
      exact h.busy b hbusy
  · by_cases hb : b = a
    · subst hb
      simp only [Function.update_self]
      exact hnext r w' hr
    · simp only [Function.update_of_ne hb]
      exact keeps_around (h.keeps b) (haround b hb)

theorem good_start {job : Job} (h : Good py cfg given s) (hclient : (s.world.client a).isSome = true)
    (hjob : job.ordinary py = true) :
    Good py cfg given ⟨s.world, Function.update s.task a (job.program ⟨a.pid, hostname⟩)⟩ := by
  refine ⟨h.wf, fun b hbusy => ?_, fun b => ?_⟩
  · by_cases hb : b = a
    · subst hb
      exact hclient
    · simp only [Function.update_of_ne hb] at hbusy
      exact h.busy b hbusy
  · by_cases hb : b = a
    · subst hb
      simp only [Function.update_self]
      exact spec_program hjob s.world ⟨h.wf, hclient⟩
    · simp only [Function.update_of_ne hb]
      exact h.keeps b

theorem good_construct (h : Good py cfg given s) (ha : a.pid ∈ s.world.born) (hnone : s.world.client a = none)
    {clientId password : Option String} {maxPayload : Nat}
    (hgiven : ∀ x ∈ given, ∀ y ∈ given, x.2 = y.2 → x.1 = y.1)
    (hid : ∀ id ∈ Client.truthy clientId, (a.pid, id) ∈ given) :
    Good py cfg given (s.construct a clientId password maxPayload) := by
  have haround : ∀ b, b ≠ a → Around py cfg given b s.world (s.construct a clientId password maxPayload).world :=
    fun b hb => around_construct hb h.wf ha hgiven hid
  have hidle : idle (s.task a) = true := by
    by_contra hbusy
    have hsome := h.busy a (Bool.eq_false_iff.mpr hbusy)
    rw [hnone] at hsome
    cases hsome
  refine ⟨wf_construct h.wf ha hgiven hid, fun b hbusy => ?_, fun b => ?_⟩
  · have hb : b ≠ a := by
      rintro rfl
      cases hidle.symm.trans hbusy
    rw [(haround b hb).client]
    exact h.busy b hbusy
  · by_cases hb : b = a
    · subst hb
      exact keeps_idle hidle _
    · exact keeps_around (h.keeps b) (haround b hb)

theorem good_fork (h : Good py cfg given s) {p q : Nat} (hq : q ∉ s.world.born) (between : Nat → Bool) :
    Good py cfg given (s.fork p q between) := by
  refine ⟨wf_fork h.wf hq between, fun b hbusy => ?_, fun b => ?_⟩
  · by_cases hb : b.pid = q
    · simp only [State.fork, if_pos hb] at hbusy
      cases hbusy
    · simp only [State.fork, if_neg hb] at hbusy ⊢
      exact h.busy b hbusy
  · by_cases hb : b.pid = q
    · simp only [State.fork, if_pos hb]
      exact keeps_idle rfl _
    · simp only [State.fork, if_neg hb]
      exact keeps_around (h.keeps b) (around_fork h.wf hq between hb)

theorem steps_change {m : Move} (hs : Steps py cfg hostname given s m s') :
    Change py cfg hostname given s m s' := by
  cases m with
  | call a choice =>
    simp only [Steps, State.next, State.call] at hs
    cases htask : s.task a with
    | ret | raise =>
      rw [htask] at hs
      cases hs
    | call e next =>
      rw [htask] at hs
      obtain ⟨p, hanswer, rfl⟩ := Option.map_eq_some_iff.mp hs
      exact .call htask hanswer
  | start a job =>
    simp only [Steps, State.next] at hs
    split at hs
    · next hcond =>
      rw [Bool.and_eq_true, Bool.and_eq_true] at hcond
      cases hs
      exact .start hcond.1.2 hcond.2
    · cases hs
  | construct a clientId password maxPayload =>
    simp only [Steps, State.next] at hs
    split at hs
    · next hcond =>
      cases hs
      exact .construct hcond.1 (Option.isNone_iff_eq_none.mp hcond.2.1) hcond.2.2
    · cases hs
  | fork p q between =>
    simp only [Steps, State.next] at hs
    split at hs
    · next hcond =>
      cases hs
      exact .fork hcond.2
    · cases hs
  | execute k uuid reading =>
    simp only [Steps, State.next] at hs
    cases hqueue : s.world.queue k with
    | nil =>
      rw [hqueue] at hs
      cases hs
    | cons ws rest =>
      simp only [hqueue] at hs
      split at hs
      · next hunused =>
        obtain ⟨p, hstep, rfl⟩ := Option.map_eq_some_iff.mp hs
        exact .execute hqueue hunused hstep
      · cases hs
  | other event reading =>
    simp only [Steps, State.next] at hs
    split at hs
    · next hforeign =>
      obtain ⟨p, hstep, rfl⟩ := Option.map_eq_some_iff.mp hs
      exact .other hforeign hstep
    · cases hs

theorem good_step (h : Good py cfg given s)
    (hgiven : ∀ x ∈ given, ∀ y ∈ given, x.2 = y.2 → x.1 = y.1) {m : Move}
    (hs : Steps py cfg hostname given s m s') : Good py cfg given s' := by
  cases steps_change hs with
  | call htask hanswer => exact good_call h htask ⟨_, hanswer⟩
  | start hclient hjob => exact good_start h hclient hjob
  | construct hborn hnone hid => exact good_construct h hborn hnone hgiven hid
  | fork hq => exact good_fork h hq _
  | execute hqueue hunused hstep =>
    exact good_around h (wf_executed h.wf hunused hqueue hstep rfl)
      fun b => around_executed h.wf hunused hqueue hstep rfl
  | other hforeign hstep =>
    have haround : ∀ b, Around py cfg given b s.world _ := fun b => around_foreign h.wf hstep hforeign
    exact good_around h (haround ⟨0, 0⟩).wf haround

theorem good_init (root : Nat) (T : Time) : Good py cfg given (.start root T) where
  wf := {
    sound := sound_start T
    unopened := fun _ _ => ⟨rfl, rfl, rfl⟩
    stamped := fun _ _ hc => by cases hc
    queued := fun _ _ _ _ hk => by cases hk
    session := fun _ _ _ hk => by cases hk
    source := fun _ _ hid => by cases hid
    apart := fun _ _ _ hid => by cases hid
    unborn := fun _ _ => rfl
    opened := fun _ _ hk => by cases hk }
  busy _ ha := by cases ha
  keeps _ := trivial

variable {ms : List Move}

theorem good_run (h : Good py cfg given s)
    (hgiven : ∀ x ∈ given, ∀ y ∈ given, x.2 = y.2 → x.1 = y.1)
    (hrun : Run (Steps py cfg hostname given) s ms s') : Good py cfg given s' :=
  hrun.invariant h fun _ _ _ _ hgood hs => good_step hgood hgiven hs

theorem ids_step {m : Move} (hs : Steps py cfg hostname given s m s') {p : Nat} {id : String}
    (hid : id ∈ s.world.ids p) : id ∈ s'.world.ids p := by
  cases steps_change hs with
  | @call a _ _ _ _ _ _ hanswer =>
    have hr : Responds py cfg a s.world _ _ _ := ⟨_, hanswer⟩
    simp only [responds_ids hr]
    exact hid
  | start | fork | other => exact hid
  | @construct a clientId =>
    unfold State.construct
    cases Client.truthy clientId with
    | none => exact hid
    | some id' => exact (mem_learn s.world a.pid id').mpr (.inl hid)
  | execute => exact issued_mono hid

theorem ids_run (hrun : Run (Steps py cfg hostname given) s ms s') {p : Nat} {id : String}
    (hid : id ∈ s.world.ids p) : id ∈ s'.world.ids p := by
  induction hrun with
  | nil => exact hid
  | snoc _ hs ih => exact ids_step hs ih

variable {c : ClientId} {l : LockId}

theorem requests_id (h : Good py cfg given s) {uuid : ClientId} {reading : Nat → Time} {op : Op}
    (hrequest : Requests py cfg s k uuid op) (hs : Steps py cfg hostname given s (.execute k uuid reading) s')
    (hop : ∀ c', AskedBy c' op → c' = c) (hk : s.world.opener k = some a) : c.name ∈ s.world.ids a.pid := by
  obtain ⟨ws, rest, session, hqueue, hsession, hintent⟩ := hrequest
  cases steps_change hs with
  | execute hqueue' _ hstep =>
    obtain ⟨rfl, -⟩ := List.cons.inj (hqueue.symm.trans hqueue')
    obtain ⟨_, _, -, -, -, ⟨c', hid, hasked⟩, -⟩ :=
      asks_effect h.wf.sound hstep ⟨uuid, _, session, rfl, hsession, hintent⟩
    obtain rfl := hop c' hasked
    exact h.wf.session k a c' hk hid

theorem acquired_id {s₀ : State} (h : Good py cfg given s₀)
    (hgiven : ∀ x ∈ given, ∀ y ∈ given, x.2 = y.2 → x.1 = y.1) {p : Nat}
    (hacquired : Acquired py cfg hostname given s₀ p c l s) : c.name ∈ s.world.ids p := by
  obtain ⟨ms, t, a, k, uuid, reentrant, reading, t', ms', hrun, hk, rfl, hrequest, hs, hrest⟩ := hacquired
  have hid : c.name ∈ t.world.ids a.pid :=
    requests_id (good_run h hgiven hrun) hrequest hs (fun c' hasked => Eq.symm hasked) hk
  exact ids_run hrest (ids_step hs hid)

theorem lease_kept {sv sv' : Server} {o : Occurrence} (h : Sound sv) (hs : ServerRun.Steps py cfg sv o sv')
    {x : Option Time} (hlease : leaseOf sv l = some ⟨c, x⟩) (hdrops : ∀ j, ¬ Drops sv o j c)
    (hjoins : ∀ j, ¬ Joins py cfg sv o j c true)
    (hasks : ∀ j op, Asks py cfg sv o j op → ∃ c', op = .release c' l ∧ c' ≠ c)
    (hevent : ∀ timeoutMs shuffle, o.event ≠ .maintenance timeoutMs shuffle) :
    leaseOf sv' l = leaseOf sv l := by
  obtain ⟨act, hcause, hact⟩ := event_lease h hs l
  rw [hlease] at hact ⊢
  obtain ⟨hkept, -⟩ | ⟨d, rfl, -⟩ | ⟨rfl, -⟩ | rfl | ⟨d, now, -, -, rfl | ⟨c', rfl⟩⟩ := Lease.step_held hact
  · exact hkept
  · cases hcause with
    | lost hd => exact absurd hd (hdrops _)
  · cases hcause with
    | joined hj => exact absurd hj (hjoins _)
  · cases hcause with
    | released ha =>
      obtain ⟨c', hop, hne⟩ := hasks _ _ ha
      cases hop
      exact absurd rfl hne
  · cases hcause with
    | found n ha =>
      obtain ⟨c', hop, -⟩ := hasks _ _ ha
      cases hop
    | swept n he => exact absurd he (hevent _ _)
  · cases hcause with
    | takenOver n ha =>
      obtain ⟨c'', hop, -⟩ := hasks _ _ ha
      cases hop

theorem givesUp_lease (h : Good py cfg given s) {m : Move} (hgives : GivesUp py cfg s k l m)
    (hs : Steps py cfg hostname given s m s') {x : Option Time}
    (hlease : leaseOf s.world.server l = some ⟨c, x⟩) (hk : s.world.opener k = some b)
    (hother : c.name ∉ s.world.ids b.pid) :
    leaseOf s'.world.server l = leaseOf s.world.server l := by
  cases hgives with
  | release uuid c' reading hrequest =>
    have hmine : c' ≠ c := by
      rintro rfl
      exact hother (requests_id h hrequest hs (fun c'' hasked => Eq.symm hasked) hk)
    obtain ⟨ws, rest, session, hqueue, hsession, hintent⟩ := hrequest
    cases steps_change hs with
    | execute hqueue' _ hstep =>
      obtain ⟨rfl, -⟩ := List.cons.inj (hqueue.symm.trans hqueue')
      apply lease_kept h.wf.sound hstep hlease
      · rintro j ⟨he, -⟩
        cases he
      · rintro j ⟨uuid', value, session', he, hsession', hintent'⟩
        cases he
        cases hsession.symm.trans hsession'
        cases hintent.symm.trans hintent'
      · rintro j op ⟨uuid', value, session', he, hsession', hintent'⟩
        cases he
        cases hsession.symm.trans hsession'
        cases hintent.symm.trans hintent'
        exact ⟨c', rfl, hmine⟩
      · intro timeoutMs shuffle he
        cases he
  | lost reading =>
    cases steps_change hs with
    | other _ hstep =>
      apply lease_kept h.wf.sound hstep hlease
      · rintro j ⟨he, session, hsession, hid, -⟩
        cases he
        refine hother (h.wf.session k b c hk ?_)
        rw [idOf, hsession, Option.bind_some, hid]
      · rintro j ⟨uuid, value, session, he, -⟩
        cases he
      · rintro j op ⟨uuid, value, session, he, -⟩
        cases he
      · intro timeoutMs shuffle he
        cases he

/-- A process uses the sockets that it has opened and presents the ids that are
its own, and what it gives up is no lock of another process. -/
theorem forked_apart (hgiven : ∀ x ∈ given, ∀ y ∈ given, x.2 = y.2 → x.1 = y.1) {root : Nat} {T : Time}
    (hrun : Run (Steps py cfg hostname given) (.start root T) ms s) :
    (∀ a e next k, s.task a = .call e next → used e = some k → s.world.opener k = some a) ∧
    (∀ a k ws next id, s.task a = .call (.sendall k ws) next → presented py ws = some id →
      id ∈ s.world.ids a.pid) ∧
    ∀ p b c l k x m s', Acquired py cfg hostname given (.start root T) p c l s →
      leaseOf s.world.server l = some ⟨c, x⟩ → s.world.opener k = some b → b.pid ≠ p →
      GivesUp py cfg s k l m → Steps py cfg hostname given s m s' →
      leaseOf s'.world.server l = leaseOf s.world.server l := by
  have hgood : Good py cfg given s := good_run (good_init root T) hgiven hrun
  have hallowed : ∀ a e next, s.task a = .call e next → Allowed py s.world a e := by
    intro a e next htask
    have hkeeps : Keeps py cfg given a (.call e next) s.world := htask ▸ hgood.keeps a
    exact (Prog.safe_call hkeeps).1
  refine ⟨fun a e next k htask hused => ?_, fun a k ws next id htask hpres => ?_, ?_⟩
  · have hok := hallowed a e next htask
    cases e with
    | sendall =>
      obtain rfl := Option.some_inj.mp hused
      exact hok.1
    | read | close =>
      obtain rfl := Option.some_inj.mp hused
      exact hok
    | self | keepSock | dropSock | keepId | connect => cases hused
  · exact (hallowed a _ next htask).2 id hpres
  · intro p b c l k x m s' hacquired hlease hk hne hgives hs
    refine givesUp_lease hgood hgives hs hlease hk fun hid => hne ?_
    exact hgood.wf.apart _ _ _ hid (acquired_id (good_init root T) hgiven hacquired)

def parent : Agent := ⟨1, 0⟩

def child : Agent := ⟨2, 0⟩

def calls (a : Agent) (choices : List Choice) : List Move := choices.map (.call a)

def succeeds (a : Agent) (n : Nat) : List Move := calls a (List.replicate n .succeed)

def exchanged (a : Agent) (k : ConnId) (uuid : ClientId) : List Move :=
  succeeds a 2 ++ [Move.execute k uuid fun _ => 0] ++ succeeds a 1

def connected (a : Agent) (ws : List String) (k : ConnId) (peername : Address) (uuid : ClientId) : List Move :=
  [Move.start a (.command ws true 3)] ++ succeeds a 1 ++ calls a [.accept peername] ++ succeeds a 1 ++
    -- `CONN`, which brings a new id, and `CONNINFO`
    succeeds a 4 ++ exchanged a k uuid ++ succeeds a 1 ++ succeeds a 2 ++ exchanged a k carol ++ succeeds a 2

def forkRelease : List Move :=
  [Move.construct parent none none 1024] ++ connected parent ["AQ", "l"] 0 ⟨"10.0.0.1", 40001⟩ alice ++
    succeeds parent 1 ++ [Move.execute 0 carol fun _ => 0] ++ succeeds parent 1 ++
    [Move.fork 1 2 fun _ => false] ++ connected child ["RELEASE", "l"] 1 ⟨"10.0.0.1", 40002⟩ bob

def nextSend : Comp Unit → Option (ConnId × List String)
  | .call (.sendall k ws) _ => some (k, ws)
  | _ => none

theorem nextSend_call {ws : List String} (h : nextSend t = some (k, ws)) :
    ∃ next, t = .call (.sendall k ws) next := by
  unfold nextSend at h
  split at h
  · cases h
    exact ⟨_, rfl⟩
  · cases h

theorem forked_apart_child : ∃ s next, Run (Steps ascii plainConfig "home" []) (.start 1 5) forkRelease s ∧
    leaseOf s.world.server "l" = some ⟨alice, none⟩ ∧
    s.task child = .call (.sendall 1 ["RELEASE", "l"]) next ∧ s.world.opener 1 = some child := by
  have hplay : (forkRelease.foldlM (State.next ascii plainConfig "home" []) (.start 1 5)).map
      (fun s => (nextSend (s.task child), leaseOf s.world.server "l")) =
        some (some (1, ["RELEASE", "l"]), some ⟨alice, none⟩) := by decide +kernel
  obtain ⟨s, hs, hseen⟩ := Option.map_eq_some_iff.mp hplay
  obtain ⟨hsend, hlease⟩ := Prod.mk.inj hseen
  obtain ⟨next, htask⟩ := nextSend_call hsend
  have hrun : Run (Steps ascii plainConfig "home" []) (.start 1 5) forkRelease s := Run.of_foldlM hs
  refine ⟨s, next, hrun, hlease, htask, ?_⟩
  exact (forked_apart (by simp) hrun).1 child _ next 1 htask rfl

end Livelock.ForkedProcesses
