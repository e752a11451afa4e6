import Livelock.Threads
import Livelock.Framing
import Livelock.Ascii

namespace Livelock.WithBlocks

open Livelock.Lib Livelock.Shared Livelock.MemoryStorage Livelock.StorageInvariant
open Livelock.StorageLease Livelock.StorageRun Livelock.Server Livelock.CommandSpec
open Livelock.ServerRun Livelock.ServerLease Livelock.ClientReader Livelock.Framing
open Livelock.Client (LiveLock)
open Livelock.Threads Livelock.Ascii

/-- A server and the clients of its connections. -/
structure System where
  server : Server
  threads : ConnId → Thread

/-- A step of the server that is no request of a thread, a move of a thread, or
the execution of the request that a thread has sent. -/
inductive Action
  | other (event : Event) (reading : Nat → Time)
  | move (k : ConnId) (m : Move)
  | execute (k : ConnId) (uuid : ClientId) (reading : Nat → Time)

variable (py : Builtins) (cfg : Config)

def quiet (sv : Server) : Event → Bool
  | .connect _ | .maintenance _ _ => true
  | .lost _ => false
  | .command k uuid value =>
    match sv.connections.get? k with
    | none => true
    | some session =>
      match intent py cfg session uuid value with
      | .nothing => true
      | .conn c _ => session.clientId.isNone && decide (c ∉ clients sv)
      | .operation (.acquire _ _ _) | .operation (.release _ _) => false
      | .operation _ => true

def established (sv : Server) (k : ConnId) : Bool :=
  match sv.connections.get? k with
  | none => false
  | some session => session.clientId.isSome && !lockedOut cfg session

namespace System

def start (T : Time) (maxPayload : ConnId → Nat) (objects : ConnId → ObjId → LiveLock) : System where
  server := .start T
  threads k :=
    { maxPayload := maxPayload k
      objects := fun obj => { objects k obj with acquired := false } }

def step (sys : System) : Action → Option System
  | .other event reading =>
    if quiet py cfg sys.server event then
      (sys.server.step py cfg event ⟨reading, 0⟩).map fun p => { sys with server := p.1 }
    else none
  | .move k m =>
    if established cfg sys.server k then
      ((sys.threads k).move py m).map fun t =>
        { sys with threads := Function.update sys.threads k t }
    else none
  | .execute k uuid reading =>
    match (sys.threads k).request with
    | none => none
    | some ws =>
      (sys.server.step py cfg (.command k uuid (words ws)) ⟨reading, 0⟩).map fun p =>
        { server := p.1
          threads := Function.update sys.threads k ((sys.threads k).replied (sent py p.2)) }

def Steps (sys : System) (action : Action) (sys' : System) : Prop :=
  sys.step py cfg action = some sys'

end System

variable {py cfg} {t : Thread} {l : LockId}

/-- The event loses no connection, and gives an id only to a connection that
has none, one that no other connection has. -/
structure Gentle (py : Builtins) (cfg : Config) (sv : Server) (o : Occurrence) : Prop where
  stays : ∀ k, o.event ≠ .lost k
  joins : ∀ k c restore, Joins py cfg sv o k c restore → idOf sv k = none ∧ c ∉ clients sv

structure Calm (sv : Server) : Prop where
  sound : Sound sv
  unmarked : ∀ l c m, leaseOf sv l = some ⟨c, m⟩ → m = none
  distinct : ∀ k k' c, idOf sv k = some c → idOf sv k' = some c → k = k'

variable {sv sv' : Server} {o : Occurrence} {k : ConnId} {c : ClientId} {uuid : ClientId}

theorem calm_start (T : Time) : Calm (.start T) := ⟨sound_start T, nofun, nofun⟩

theorem gentle_id (h : Sound sv) (hs : Steps py cfg sv o sv') (hg : Gentle py cfg sv o)
    (hid : idOf sv k = some c) : idOf sv' k = some c := by
  cases event_moves h hs with
  | joined j c' restore hj hids =>
    obtain ⟨hnone, -⟩ := hg.joins j c' restore hj
    have hne : k ≠ j := by
      rintro rfl
      cases hid.symm.trans hnone
    rw [hids, if_neg hne, hid]
  | lost j he => exact absurd he (hg.stays j)
  | stays _ _ hids => rw [hids, hid]

theorem gentle_distinct (h : Calm sv) (hs : Steps py cfg sv o sv') (hg : Gentle py cfg sv o) :
    ∀ k k' c, idOf sv' k = some c → idOf sv' k' = some c → k = k' := by
  intro k k' c hk hk'
  cases event_moves h.sound hs with
  | joined j c' restore hj hids =>
    obtain ⟨-, hnew⟩ := hg.joins j c' restore hj
    have hother : ∀ i, i ≠ j → idOf sv' i = some c → c ≠ c' ∧ idOf sv i = some c := by
      intro i hi hc
      rw [hids, if_neg hi] at hc
      refine ⟨?_, hc⟩
      rintro rfl
      exact hnew (mem_clients.mpr ⟨i, hc⟩)
    have hself : idOf sv' j = some c' := by rw [hids, if_pos rfl]
    by_cases hkj : k = j
    · by_cases hkj' : k' = j
      · exact hkj.trans hkj'.symm
      · subst hkj
        cases hself.symm.trans hk
        exact absurd rfl (hother k' hkj' hk').1
    · by_cases hkj' : k' = j
      · subst hkj'
        cases hself.symm.trans hk'
        exact absurd rfl (hother k hkj hk).1
      · exact h.distinct k k' c (hother k hkj hk).2 (hother k' hkj' hk').2
  | lost j he => exact absurd he (hg.stays j)
  | stays _ _ hids =>
    rw [hids] at hk hk'
    exact h.distinct k k' c hk hk'

theorem gentle_unmarked (h : Calm sv) (hs : Steps py cfg sv o sv') (hg : Gentle py cfg sv o) :
    ∀ l c m, leaseOf sv' l = some ⟨c, m⟩ → m = none := by
  intro l c m hl
  obtain ⟨act, hcause, hstep⟩ := event_lease h.sound hs l
  rw [hl] at hstep
  obtain hx | ⟨hm, -⟩ | ⟨d, m₀, rfl, -⟩ | ⟨-, hm⟩ := Lease.step_owned hstep
  · exact h.unmarked l c m hx
  · exact hm
  · cases hcause with
    | lost hd => exact absurd hd.1 (hg.stays _)
  · exact hm

theorem calm_step (h : Calm sv) (hs : Steps py cfg sv o sv') (hg : Gentle py cfg sv o) : Calm sv' :=
  ⟨sound_step h.sound hs, gentle_unmarked h hs hg, gentle_distinct h hs hg⟩

theorem gentle_lease (h : Calm sv) (hs : Steps py cfg sv o sv') (hg : Gentle py cfg sv o)
    (hrelease : ∀ k, ¬ Asks py cfg sv o k (.release c l)) (hl : leaseOf sv l = some ⟨c, none⟩) :
    leaseOf sv' l = some ⟨c, none⟩ := by
  obtain hl' | ⟨k, ha, -⟩ | ⟨k, hd⟩ := unmarked_step h.sound hs hl
  · exact hl'
  · exact absurd ha (hrelease k)
  · exact absurd hd.1 (hg.stays k)

theorem quiet_gentle {event : Event} (h : quiet py cfg sv event = true) (reading : Nat → Time)
    (writes : List Write) : Gentle py cfg sv ⟨event, reading, writes⟩ ∧
      ∀ k c l, ¬ Asks py cfg sv ⟨event, reading, writes⟩ k (.release c l) := by
  refine ⟨⟨fun k he => ?_, fun k c restore hj => ?_⟩, fun k c l ha => ?_⟩
  · simp only at he
    rw [he] at h
    cases h
  · obtain ⟨uuid, value, session, he, hk, hi⟩ := hj
    simp only at he
    rw [he, quiet, hk] at h
    simp only [hi, Bool.and_eq_true, Option.isNone_iff_eq_none, decide_eq_true_eq] at h
    exact ⟨by rw [idOf, hk, Option.bind_some, h.1], h.2⟩
  · obtain ⟨uuid, value, session, he, hk, hi⟩ := ha
    simp only at he
    rw [he, quiet, hk] at h
    simp [hi] at h

theorem established_iff (h : Sound sv) : established cfg sv k = true ↔
    Admitted cfg k sv ∧ ∃ c, idOf sv k = some c := by
  cases hk : sv.connections.get? k with
  | none => simp [established, idOf, hk]
  | some session =>
    simp only [established, idOf, hk, Option.bind_some, Bool.and_eq_true, Bool.not_eq_true',
      Option.isSome_iff_exists]
    constructor
    · rintro ⟨hid, hopen⟩
      refine ⟨⟨h.older k session hk, fun session' hk' => ?_⟩, hid⟩
      cases hk.symm.trans hk'
      exact hopen
    · rintro ⟨hadmitted, hid⟩
      exact ⟨hid, hadmitted.unlocked session hk⟩

def owned (sv : Server) (c : ClientId) (l : LockId) : Prop := leaseOf sv l = some ⟨c, none⟩

/-- A thread is idle, or its connection is established and its client owns
what the thread takes it to own. -/
def Follows (py : Builtins) (cfg : Config) (sv : Server) (k : ConnId) (t : Thread) : Prop :=
  t.Idle ∨ (Admitted cfg k sv ∧ ∃ c, idOf sv k = some c ∧ t.Ok py (owned sv c))

structure Consistent (py : Builtins) (cfg : Config) (sys : System) : Prop where
  calm : Calm sys.server
  threads : ∀ k, Follows py cfg sys.server k (sys.threads k)

/-- A thread that does nothing meanwhile keeps its locks when its client does
not release any. -/
theorem follows_step (h : Calm sv) (hs : Steps py cfg sv o sv') (hg : Gentle py cfg sv o)
    (hrelease : ∀ c, idOf sv k = some c → ∀ j l, ¬ Asks py cfg sv o j (.release c l))
    (ht : Follows py cfg sv k t) : Follows py cfg sv' k t := by
  obtain hidle | ⟨hadmitted, c, hid, hok⟩ := ht
  · exact .inl hidle
  · refine .inr ⟨admitted_step h.sound hs hadmitted, c, gentle_id h.sound hs hg hid, ?_⟩
    exact Thread.ok_mono hok fun l hl => gentle_lease h hs hg (fun j => hrelease c hid j l) hl

theorem ok_asked {obj : ObjId} {verb : String} (h : Calm sv) (hs : Steps py cfg sv o sv')
    (hg : Gentle py cfg sv o) (he : o.event = .command k uuid (words [verb, (t.objects obj).id]))
    (hk : Admitted cfg k sv) (hid : idOf sv k = some c) (ht : t.Ok py (owned sv c))
    (hp : t.phase = .asking obj)
    (hverb : Verb.named (py.lower verb) = if (t.objects obj).reentrant then .aqr else .aq) :
    (t.replied (sent py o.writes)).Ok py (owned sv' c) := by
  have hconn : Verb.named (py.lower verb) ≠ .conn := by
    rw [hverb]
    split <;> decide
  have hclean : t.received = [] := ht.clean fun o => by simp [hp]
  have hrelease : ∀ j c' l, ¬ Asks py cfg sv o j (.release c' l) := by
    intro j c' l ha
    obtain ⟨-, c'', -, hop⟩ := asks_words ha he
    rw [hverb] at hop
    cases hr : (t.objects obj).reentrant <;> rw [hr] at hop <;>
      obtain ⟨_, -, hop⟩ := Option.map_eq_some_iff.mp hop <;> cases hop
  obtain ⟨r, hread⟩ := reads_reply h.sound hs he hk hconn
  have hone : r.str? = some "1" → owned sv' c (t.objects obj).id := by
    intro hr
    obtain ⟨msg, n, rfl⟩ | ⟨-, c', b, hid', ha, hans, rfl⟩ := acquire_reply h.sound hs hverb he hread
    · cases hr
    · cases hid.symm.trans hid'
      have hb : b = true := by
        cases b with
        | true => rfl
        | false => simp [Response.str?] at hr
      subst hb
      obtain ⟨a, m, hl, -, hans', hkept⟩ | ⟨-, -, hl⟩ := asks_acquire h.sound hs ha
      · have htrue := answers_unique hans hans'
        rw [eq_comm, Bool.and_eq_true, decide_eq_true_eq] at htrue
        obtain ⟨-, rfl⟩ := htrue
        obtain rfl := h.unmarked _ _ _ hl
        exact hkept.trans hl
      · exact hl
  rw [replied_asking hp]
  refine ⟨fun l hl => ?_, fun hno => ?_, fun obj' ho => ?_, nofun, fun obj' ho => ?_⟩
  · exact gentle_lease h hs hg (fun j => hrelease j c l) (ht.held l hl)
  · exact absurd rfl (hno obj).1
  · cases ho
    exact ⟨r, by rw [hclean, List.nil_append]; exact hread, hone⟩
  · obtain ho | ho := ho <;> cases ho

theorem ok_returned {obj : ObjId} {verb : String} (h : Calm sv) (hs : Steps py cfg sv o sv')
    (hg : Gentle py cfg sv o) (he : o.event = .command k uuid (words [verb, (t.objects obj).id]))
    (hk : Admitted cfg k sv) (ht : t.Ok py (owned sv c)) (hp : t.phase = .returning obj)
    (hverb : Verb.named (py.lower verb) = .release) :
    (t.replied (sent py o.writes)).Ok py (owned sv' c) := by
  have hconn : Verb.named (py.lower verb) ≠ .conn := by
    rw [hverb]
    decide
  have hclean : t.received = [] := ht.clean fun o => by simp [hp]
  obtain ⟨r, hread⟩ := reads_reply h.sound hs he hk hconn
  have hgiven : ¬ t.Holds (t.objects obj).id := ht.given obj (.inl hp)
  have hrelease : ∀ j c' l, Asks py cfg sv o j (.release c' l) → l = (t.objects obj).id := by
    intro j c' l ha
    obtain ⟨-, c'', -, hop⟩ := asks_words ha he
    rw [hverb] at hop
    obtain ⟨text, htext, hop⟩ := Option.map_eq_some_iff.mp hop
    cases hop
    exact oneText_inj htext
  rw [replied_returning hp]
  refine ⟨fun l hl => ?_, fun hno => ?_, nofun, fun obj' ho => ?_, fun obj' ho => ?_⟩
  · refine gentle_lease h hs hg (fun j ha => ?_) (ht.held l hl)
    rw [hrelease j c l ha] at hl
    exact hgiven hl
  · exact absurd rfl (hno obj).2
  · exact ⟨r, by rw [hclean, List.nil_append]; exact hread⟩
  · obtain ho | ho := ho <;> cases ho
    exact hgiven

theorem follows_execute {ws : List String} (h : Calm sv) (hs : Steps py cfg sv o sv')
    (hg : Gentle py cfg sv o) (he : o.event = .command k uuid (words ws))
    (ht : Follows py cfg sv k t) (hreq : t.request = some ws) :
    Follows py cfg sv' k (t.replied (sent py o.writes)) := by
  obtain hidle | ⟨hk, c, hid, hok⟩ := ht
  · rw [Thread.request, hidle.phase] at hreq
    cases hreq
  · refine .inr ⟨admitted_step h.sound hs hk, c, gentle_id h.sound hs hg hid, ?_⟩
    obtain ⟨obj, verb, rfl, ⟨hp, hverb⟩ | ⟨hp, hverb⟩⟩ := request_verb py hreq
    · exact ok_asked h hs hg he hk hid hok hp hverb
    · exact ok_returned h hs hg he hk hok hp hverb

theorem execute_gentle {ws : List String} (he : o.event = .command k uuid (words ws))
    (hreq : t.request = some ws) : Gentle py cfg sv o ∧
      ∀ j c l, Asks py cfg sv o j (.release c l) → idOf sv k = some c := by
  obtain ⟨obj, verb, rfl, hcase⟩ := request_verb py hreq
  refine ⟨⟨fun j hl => ?_, fun j c restore hj => ?_⟩, fun j c l ha => ?_⟩
  · cases he.symm.trans hl
  · obtain ⟨-, hconn, -⟩ := joins_words hj he
    obtain ⟨-, hverb⟩ | ⟨-, hverb⟩ := hcase
    · rw [hconn] at hverb
      split at hverb <;> cases hverb
    · cases hconn.symm.trans hverb
  · obtain ⟨rfl, c', hid, hop⟩ := asks_words ha he
    have hasked : AskedBy c' _ := operationOf_asked hop
    obtain rfl : c = c' := hasked
    exact hid

theorem consistent_start (T : Time) (maxPayload : ConnId → Nat) (objects : ConnId → ObjId → LiveLock) :
    Consistent py cfg (.start T maxPayload objects) :=
  ⟨calm_start T, fun _ => .inl ⟨rfl, rfl, rfl⟩⟩

theorem consistent_step {sys sys' : System} {action : Action} (h : Consistent py cfg sys)
    (hs : sys.Steps py cfg action sys') : Consistent py cfg sys' := by
  cases action with
  | other event reading =>
    simp only [System.Steps, System.step] at hs
    split at hs
    · next hquiet =>
      obtain ⟨⟨sv', writes⟩, hstep, rfl⟩ := Option.map_eq_some_iff.mp hs
      obtain ⟨hg, hrelease⟩ := quiet_gentle hquiet reading writes
      have hsteps : Steps py cfg sys.server ⟨event, reading, writes⟩ sv' := hstep
      exact ⟨calm_step h.calm hsteps hg, fun k =>
        follows_step h.calm hsteps hg (fun c _ j l => hrelease j c l) (h.threads k)⟩
    · cases hs
  | move k m =>
    simp only [System.Steps, System.step] at hs
    split at hs
    · next hest =>
      obtain ⟨t, hmove, rfl⟩ := Option.map_eq_some_iff.mp hs
      obtain ⟨hk, c, hid⟩ := (established_iff h.calm.sound).mp hest
      have hok : (sys.threads k).Ok py (owned sys.server c) := by
        obtain hidle | ⟨-, c', hid', hok⟩ := h.threads k
        · exact hidle.ok
        · cases hid.symm.trans hid'
          exact hok
      refine ⟨h.calm, fun j => ?_⟩
      by_cases hj : j = k
      · subst hj
        simp only [Function.update_self]
        exact .inr ⟨hk, c, hid, Thread.ok_moves hok (Thread.move_moves hmove)⟩
      · simp only [Function.update_of_ne hj]
        exact h.threads j
    · cases hs
  | execute k uuid reading =>
    simp only [System.Steps, System.step] at hs
    split at hs
    · cases hs
    · next ws hreq =>
      obtain ⟨⟨sv', writes⟩, hstep, rfl⟩ := Option.map_eq_some_iff.mp hs
      have hsteps : Steps py cfg sys.server ⟨.command k uuid (words ws), reading, writes⟩ sv' := hstep
      obtain ⟨hg, hrelease⟩ : Gentle py cfg sys.server ⟨.command k uuid (words ws), reading, writes⟩ ∧ _ :=
        execute_gentle rfl hreq
      refine ⟨calm_step h.calm hsteps hg, fun j => ?_⟩
      by_cases hj : j = k
      · subst hj
        simp only [Function.update_self]
        exact follows_execute h.calm hsteps hg rfl (h.threads j) hreq
      · simp only [Function.update_of_ne hj]
        refine follows_step h.calm hsteps hg (fun c hid i l ha => hj ?_) (h.threads j)
        exact h.calm.distinct j k c hid (hrelease i c l ha)

/-- Inside an acquired with-block, as long as no inner block of the same lock
has begun to exit, the client owns the lock, and no other client is inside such
a block of it. -/
theorem inside_owner {T : Time} {maxPayload : ConnId → Nat} {objects : ConnId → ObjId → LiveLock}
    {actions : List Action} {sys : System}
    (h : Run (System.Steps py cfg) (.start T maxPayload objects) actions sys) :
    (∀ k l, (sys.threads k).Holds l → ∃ c, idOf sys.server k = some c ∧
      sys.server.adaptor.store.locksToClient.get? l = some c) ∧
    ∀ k k' l, (sys.threads k).Holds l → (sys.threads k').Holds l → k = k' := by
  have hsys : Consistent py cfg sys :=
    h.invariant (I := Consistent py cfg) (consistent_start T maxPayload objects)
      fun _ _ _ _ hv hs => consistent_step hv hs
  have hheld : ∀ k l, (sys.threads k).Holds l → ∃ c, idOf sys.server k = some c ∧
      sys.server.adaptor.store.locksToClient.get? l = some c := by
    intro k l hl
    obtain hidle | ⟨-, c, hid, hok⟩ := hsys.threads k
    · obtain ⟨b, hb, -⟩ := hl
      rw [hidle.blocks] at hb
      cases hb
    · exact ⟨c, hid, (lease_some (hok.held l hl)).1⟩
  refine ⟨hheld, fun k k' l hl hl' => ?_⟩
  obtain ⟨c, hid, howner⟩ := hheld k l hl
  obtain ⟨c', hid', howner'⟩ := hheld k' l hl'
  cases howner.symm.trans howner'
  exact hsys.calm.distinct k k' c hid hid'

def oneLock (_ : ConnId) (obj : ObjId) : LiveLock where
  id := "l"
  reentrant := decide (obj = 1)
  blocking := true
  timeout := 60
  acquired := false

def oneClient (k : ConnId) (port : Nat) (name : String) : List Action :=
  [.other (.connect ⟨"10.0.0.1", port⟩) fun _ => 0,
    .other (.command k carol (words ["CONN", name])) fun _ => 0]

def enters (k : ConnId) (obj : ObjId) : List Action :=
  [.move k (.enter obj), .execute k carol fun _ => 0, .move k .read]

def nested : List Action := oneClient 0 40001 "alice" ++ enters 0 0 ++ enters 0 1

def innerExit : List Action := [.move 0 .leave, .execute 0 carol fun _ => 0] ++
  oneClient 1 40002 "bob" ++ enters 1 0

theorem inside_owner_nested : ∃ sys : System, (sys.threads 0).Holds "l" ∧
    ∃ c, idOf sys.server 0 = some c ∧ sys.server.adaptor.store.locksToClient.get? "l" = some c := by
  have heval : (nested.foldlM (System.step ascii plainConfig)
      (.start 5 (fun _ => 1024) oneLock)).map (fun sys => decide ((sys.threads 0).Holds "l")) =
        some true := by decide +kernel
  obtain ⟨sys, hsys, hholds⟩ := Option.map_eq_some_iff.mp heval
  have hrun : Run (System.Steps ascii plainConfig) (.start 5 (fun _ => 1024) oneLock) nested sys :=
    Run.of_foldlM hsys
  exact ⟨sys, of_decide_eq_true hholds, (inside_owner hrun).1 0 "l" (of_decide_eq_true hholds)⟩

/-- The exit of the inner block releases the lock of the outer one, and another
client can enter a block of it. -/
theorem both_inside :
    (¬ ∀ (T : Time) (maxPayload : ConnId → Nat) (objects : ConnId → ObjId → LiveLock)
        (actions : List Action) (sys : System),
      Run (System.Steps ascii plainConfig) (.start T maxPayload objects) actions sys →
      ∀ k l, (sys.threads k).Inside l → ∃ c, idOf sys.server k = some c ∧
        sys.server.adaptor.store.locksToClient.get? l = some c) ∧
    ¬ ∀ (T : Time) (maxPayload : ConnId → Nat) (objects : ConnId → ObjId → LiveLock)
        (actions : List Action) (sys : System),
      Run (System.Steps ascii plainConfig) (.start T maxPayload objects) actions sys →
      ∀ k k' l, (sys.threads k).Inside l → (sys.threads k').Inside l → k = k' := by
  have heval : ((nested ++ innerExit).foldlM (System.step ascii plainConfig)
      (.start 5 (fun _ => 1024) oneLock)).map (fun sys =>
        (decide ((sys.threads 0).Inside "l"), decide ((sys.threads 1).Inside "l"),
          idOf sys.server 0, sys.server.adaptor.store.locksToClient.get? "l")) =
        some (true, true, some alice, some bob) := by decide +kernel
  obtain ⟨sys, hsys, hfacts⟩ := Option.map_eq_some_iff.mp heval
  simp only [Prod.mk.injEq, decide_eq_true_eq] at hfacts
  obtain ⟨hinside, hinside', halice, hbob⟩ := hfacts
  refine ⟨fun h => ?_, fun h => ?_⟩
  · obtain ⟨c, hid, howner⟩ := h _ _ _ _ sys (Run.of_foldlM hsys) 0 "l" hinside
    have hsame : alice = bob :=
      (Option.some_inj.mp (halice.symm.trans hid)).trans (Option.some_inj.mp (howner.symm.trans hbob))
    exact absurd hsame (by decide)
  · cases h _ _ _ _ sys (Run.of_foldlM hsys) 0 1 "l" hinside hinside'

end Livelock.WithBlocks
