import Livelock.Client
import Livelock.Framing

namespace Livelock.Network

open Livelock.Lib Livelock.Shared Livelock.MemoryStorage Livelock.StorageInvariant
open Livelock.StorageLease Livelock.StorageRun Livelock.Server Livelock.CommandSpec
open Livelock.ServerRun Livelock.ServerLease Livelock.ClientReader Livelock.Framing
open Livelock.Client (LiveLockConnection Process Exc Call)

/-- One client, the server, and what is under way between them on the
connections of the client. `granted` are those on which a request for the lock
in question has found it free. -/
structure World where
  server : Server
  client : LiveLockConnection
  mine : List ConnId
  queue : ConnId → List (List String)
  received : ConnId → Bytes
  closed : ConnId → Bool
  granted : List ConnId

/-- How a call of the client on its surroundings comes out. A request whose
`sendall` fails may have been delivered all the same. -/
inductive Choice
  | succeed
  | accept (peername : Address)
  | refuse
  | fail
  | failLate

/-- What the surroundings do by themselves: an event that is none of the
client's, the execution of its next request on a connection, or the loss of
one. -/
inductive Move
  | other (event : Event)
  | execute (k : ConnId) (uuid : ClientId)
  | lost (k : ConnId)

variable (py : Builtins) (cfg : Config) (c : ClientId) (l : LockId)

def free (sv : Server) (now : Time) : Bool :=
  match leaseOf sv l with
  | none => true
  | some ⟨_, none⟩ => false
  | some ⟨_, some d⟩ => decide (d ≠ 0 ∧ d ≤ now)

def acquires (sv : Server) (k : ConnId) (uuid : ClientId) (ws : List String) : Bool :=
  match sv.connections.get? k with
  | none => false
  | some session =>
    match intent py cfg session uuid (words ws) with
    | .operation (.acquire c' l' _) => decide (c' = c ∧ l' = l)
    | _ => false

namespace World

def foreign (w : World) : Event → Bool
  | .connect _ | .maintenance _ _ => true
  | .lost k => decide (k ∉ w.mine)
  | .command k uuid value =>
    decide (k ∉ w.mine) &&
      match w.server.connections.get? k with
      | none => true
      | some session =>
        match intent py cfg session uuid value with
        | .conn c' _ => decide (c' ≠ c)
        | _ => true

def enqueue (w : World) (k : ConnId) (ws : List String) : World :=
  { w with queue := Function.update w.queue k (w.queue k ++ [ws]) }

def executed (w : World) (k : ConnId) (rest : List (List String)) (server : Server)
    (data : Bytes) (granted : Bool) : World :=
  { w with
    server := server
    queue := Function.update w.queue k rest
    received := Function.update w.received k (w.received k ++ data)
    granted := if granted then k :: w.granted else w.granted }

def move (w : World) (reading : Nat → Time) : Move → Option World
  | .other event =>
    if w.foreign py cfg c event then
      (w.server.step py cfg event ⟨reading, 0⟩).map fun p => { w with server := p.1 }
    else none
  | .execute k uuid =>
    match w.queue k with
    | [] => none
    | ws :: rest =>
      (w.server.step py cfg (.command k uuid (words ws)) ⟨reading, 0⟩).map fun p =>
        w.executed k rest p.1 (sent py p.2)
          (acquires py cfg c l w.server k uuid ws && free l w.server (reading 0))
  | .lost k =>
    if k ∈ w.mine then
      (w.server.step py cfg (.lost k) ⟨reading, 0⟩).map fun p =>
        { w with server := p.1, queue := Function.update w.queue k [] }
    else none

def answer (w : World) : (e : Call) → Choice → Option (e.Result × World)
  | .self, .succeed => some (w.client, w)
  | .keepSock k pid, .succeed =>
    some ((), { w with client := { w.client with sock := some k, sockPid := pid } })
  | .dropSock, .succeed => some ((), { w with client := { w.client with sock := none } })
  | .keepId clientId pid, .succeed =>
    some ((), { w with client := { w.client with clientId := clientId, clientIdPid := pid } })
  | .connect, .accept peername =>
    (w.server.step py cfg (.connect peername) ⟨fun _ => 0, 0⟩).map fun p =>
      (.ok w.server.accepted, { w with server := p.1, mine := w.server.accepted :: w.mine })
  | .connect, .refuse => some (.error .refused, w)
  | .connect, .fail => some (.error .os, w)
  | .sendall k ws, .succeed => if w.closed k then none else some (.ok (), w.enqueue k ws)
  | .sendall _ _, .fail => some (.error .os, w)
  | .sendall k ws, .failLate => if w.closed k then none else some (.error .os, w.enqueue k ws)
  | .read k, .succeed =>
    if w.closed k then none
    else
      match readResponse py (w.received k) with
      | none => some (.error .other, w)
      | some (resp, rest) =>
        some (.ok resp, { w with received := Function.update w.received k rest })
  | .read _, .fail => some (.error .os, w)
  | .close k, .succeed => some ((), { w with closed := Function.update w.closed k true })
  | _, _ => none

end World

def InTime (sv : Server) (reading : Nat → Time) : Prop :=
  ∀ d, leaseOf sv l = some ⟨c, some d⟩ → ∀ n, reading n < d

def Meanwhile (w w' : World) : Prop :=
  ∃ m reading, w.move py cfg c l reading m = some w' ∧ InTime c l w.server reading

def Responds (w : World) (e : Call) (r : e.Result) (w' : World) : Prop :=
  ∃ choice, w.answer py cfg e choice = some (r, w')

variable {py cfg c l} {w w' : World} {sv sv' : Server} {o : Occurrence} {k : ConnId}

/-- The ways in which things can go on without the client. -/
inductive Change (py : Builtins) (cfg : Config) (c : ClientId) (l : LockId) (w : World)
    (o : Occurrence) : World → Prop
  | other (sv : Server) : Steps py cfg w.server o sv →
      (∀ k ∈ w.mine, o.event ≠ .lost k ∧ ∀ uuid value, o.event ≠ .command k uuid value) →
      (∀ k restore, ¬ Joins py cfg w.server o k c restore) → Change py cfg c l w o { w with server := sv }
  | execute (k : ConnId) (uuid : ClientId) (ws : List String) (rest : List (List String))
      (sv : Server) : Steps py cfg w.server o sv → w.queue k = ws :: rest →
      o.event = .command k uuid (words ws) →
      Change py cfg c l w o (w.executed k rest sv (sent py o.writes)
        (acquires py cfg c l w.server k uuid ws && free l w.server (o.reading 0)))
  | lost (k : ConnId) (sv : Server) : Steps py cfg w.server o sv → o.event = .lost k →
      Change py cfg c l w o { w with server := sv, queue := Function.update w.queue k [] }

theorem meanwhile_change (h : Meanwhile py cfg c l w w') :
    ∃ o, Change py cfg c l w o w' ∧ InTime c l w.server o.reading := by
  obtain ⟨m, reading, hmove, htime⟩ := h
  cases m with
  | other event =>
    simp only [World.move] at hmove
    split at hmove
    · next hforeign =>
      obtain ⟨⟨sv, writes⟩, hstep, rfl⟩ := Option.map_eq_some_iff.mp hmove
      refine ⟨⟨event, reading, writes⟩, .other sv hstep (fun k hk => ⟨?_, ?_⟩) ?_, htime⟩
      · rintro rfl
        simp [World.foreign, hk] at hforeign
      · rintro uuid value rfl
        simp [World.foreign, hk] at hforeign
      · rintro k restore ⟨uuid, value, session, he, hsession, hi⟩
        simp only at he
        subst he
        simp [World.foreign, hsession, hi] at hforeign
    · cases hmove
  | execute k uuid =>
    simp only [World.move] at hmove
    split at hmove
    · cases hmove
    · next ws rest hqueue =>
      obtain ⟨⟨sv, writes⟩, hstep, rfl⟩ := Option.map_eq_some_iff.mp hmove
      exact ⟨⟨_, reading, writes⟩, .execute k uuid ws rest sv hstep hqueue rfl, htime⟩
  | lost k =>
    simp only [World.move] at hmove
    split at hmove
    · obtain ⟨⟨sv, writes⟩, hstep, rfl⟩ := Option.map_eq_some_iff.mp hmove
      exact ⟨⟨_, reading, writes⟩, .lost k sv hstep rfl, htime⟩
    · cases hmove

theorem free_iff {now : Time} :
    free l sv now = true ↔ leaseOf sv l = none ∨ Overdue now (leaseOf sv l) := by
  unfold free
  cases hl : leaseOf sv l with
  | none => simp
  | some x =>
    obtain ⟨a, m⟩ := x
    cases m with
    | none => simp [Overdue]
    | some d => simp [Overdue]

theorem acquires_iff {uuid : ClientId} {ws : List String} (he : o.event = .command k uuid (words ws)) :
    acquires py cfg c l sv k uuid ws = true ↔
      ∃ reentrant, Asks py cfg sv o k (.acquire c l reentrant) := by
  unfold acquires
  constructor
  · intro h
    split at h
    · cases h
    · next session hsession =>
      split at h
      · next c' l' reentrant hi =>
        obtain ⟨rfl, rfl⟩ := of_decide_eq_true h
        exact ⟨reentrant, uuid, _, session, he, hsession, hi⟩
      · cases h
  · rintro ⟨reentrant, uuid', value, session, he', hsession, hi⟩
    cases he.symm.trans he'
    simp [hsession, hi]

/-- As long as `c` neither acquires nor releases `l` and no deadline of its is
reached, it owns `l` afterwards if it did before. -/
theorem owner_step (h : Sound sv) (hs : Steps py cfg sv o sv') (htime : InTime c l sv o.reading)
    (hrelease : ∀ k, ¬ Asks py cfg sv o k (.release c l))
    (hacquire : ∀ k reentrant, ¬ Asks py cfg sv o k (.acquire c l reentrant)) :
    (∃ m, leaseOf sv' l = some ⟨c, m⟩) ↔ ∃ m, leaseOf sv l = some ⟨c, m⟩ := by
  obtain ⟨act, hcause, hstep⟩ := event_lease h hs l
  constructor
  · rintro ⟨m, hl⟩
    rw [hl] at hstep
    obtain hx | ⟨-, hgrant⟩ | ⟨d, m₀, -, hx, -⟩ | ⟨rfl, -⟩ := Lease.step_owned hstep
    · exact ⟨m, hx⟩
    · obtain rfl | ⟨now, rfl⟩ := hgrant
      · cases hcause with
        | granted ha => exact absurd ha (hacquire _ _)
      · cases hcause with
        | takenOver n ha => exact absurd ha (hacquire _ _)
    · exact ⟨m₀, hx⟩
    · generalize hx : leaseOf sv l = x at hstep
      generalize hy : some (⟨c, m⟩ : Lease ClientId Time) = y at hstep
      cases hstep with
      | resume =>
        obtain ⟨-, -, m₀, hx'⟩ | hx' := Lease.stamp_owned hy.symm
        · exact ⟨m₀, hx'⟩
        · exact ⟨m, hx'⟩
  · rintro ⟨m, hl⟩
    rw [hl] at hstep
    obtain ⟨hy, -⟩ | ⟨d, -, hy⟩ | ⟨-, hy⟩ | rfl | ⟨d, now, rfl, hd, hclears⟩ := Lease.step_held hstep
    · exact ⟨m, hy⟩
    · exact ⟨some d, hy⟩
    · exact ⟨none, hy⟩
    · cases hcause with
      | released ha => exact absurd ha (hrelease _)
    · exfalso
      have hread : ∃ n, o.reading n = now := by
        obtain rfl | ⟨b, rfl⟩ := hclears
        · cases hcause with
          | found n | swept n => exact ⟨n, rfl⟩
        · cases hcause with
          | takenOver n => exact ⟨n, rfl⟩
      obtain ⟨n, rfl⟩ := hread
      exact absurd hd (not_le.mpr (htime d hl n))

end Livelock.Network
