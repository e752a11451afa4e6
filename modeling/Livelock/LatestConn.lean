import Livelock.ServerLease

namespace Livelock.LatestConn

open Livelock.Shared Livelock.MemoryStorage Livelock.Server Livelock.CommandSpec
open Livelock.ServerRun Livelock.ServerLease

/-- A server, with the connection on which each client last executed `CONN` and
the address of that connection. -/
structure Watched where
  server : Server
  latest : ClientId → Option (ConnId × Address)

namespace Watched

variable (py : Builtins) (cfg : Config)

def start (T : Time) : Watched := ⟨.start T, fun _ => none⟩

def connection (w : Watched) (c : ClientId) : Option ConnId := (w.latest c).map Prod.fst

def recorded (w : Watched) (c : ClientId) : Option Address := (w.latest c).map Prod.snd

def latestAfter (w : Watched) (event : Event) : ClientId → Option (ConnId × Address) :=
  match event with
  | .command k uuid value =>
    match w.server.connections.get? k with
    | none => w.latest
    | some session =>
      match intent py cfg session uuid value with
      | .conn c _ => Function.update w.latest c (some (k, session.peername))
      | _ => w.latest
  | _ => w.latest

def Step (w : Watched) (o : Occurrence) (w' : Watched) : Prop :=
  Steps py cfg w.server o w'.server ∧ w'.latest = w.latestAfter py cfg o.event

def next (w : Watched) (input : Input) : Option Watched :=
  (w.server.step py cfg input.1 ⟨input.2, 0⟩).map fun r => ⟨r.1, w.latestAfter py cfg input.1⟩

theorem step_of_next {w w' : Watched} {input : Input}
    (h : w.next py cfg input = some w') : ∃ o, w.Step py cfg o w' := by
  obtain ⟨⟨sv, writes⟩, hs, rfl⟩ := Option.map_eq_some_iff.mp h
  exact ⟨⟨input.1, input.2, writes⟩, hs, rfl⟩

/-- The storage knows the address of the latest `CONN`, or none. -/
def Known (w : Watched) : Prop :=
  ∀ c, w.server.adaptor.getClientLastAddress c = none ∨
    w.server.adaptor.getClientLastAddress c = w.recorded c

end Watched

variable {py : Builtins} {cfg : Config} {w w' w₁ w₂ : Watched} {o : Occurrence} {c c' : ClientId} {k : ConnId}

theorem recorded_congr (h : w₁.latest = w₂.latest) : w₁.recorded = w₂.recorded := by
  funext c
  rw [Watched.recorded, Watched.recorded, h]

theorem latest_joined {restore : Bool} (hj : Joins py cfg w.server o k c restore) :
    ∃ address, peerOf w.server k = some address ∧
      w.latestAfter py cfg o.event = Function.update w.latest c (some (k, address)) := by
  obtain ⟨uuid, value, session, he, hk, hi⟩ := hj
  refine ⟨session.peername, by rw [peerOf, hk, Option.map_some], ?_⟩
  rw [he, Watched.latestAfter]
  simp only [hk, hi]

theorem latest_kept (hj : ∀ k c restore, ¬ Joins py cfg w.server o k c restore) :
    w.latestAfter py cfg o.event = w.latest := by
  cases he : o.event with
  | connect | lost | maintenance => rfl
  | command k uuid value =>
    cases hk : w.server.connections.get? k with
    | none => simp only [Watched.latestAfter, hk]
    | some session =>
      cases hi : intent py cfg session uuid value with
      | nothing | operation => simp only [Watched.latestAfter, hk, hi]
      | conn c restore => exact absurd ⟨uuid, value, session, he, hk, hi⟩ (hj k c restore)

theorem latest_alike (hconn : w₁.server.connections = w₂.server.connections) (hlatest : w₁.latest = w₂.latest)
    (event : Event) : w₁.latestAfter py cfg event = w₂.latestAfter py cfg event := by
  unfold Watched.latestAfter
  rw [hconn, hlatest]

theorem step_joined (hs : w.Step py cfg o w') {restore : Bool} (hj : Joins py cfg w.server o k c restore) :
    w'.connection c = some k ∧ w'.recorded c = peerOf w.server k ∧ ∀ c', c' ≠ c → w'.latest c' = w.latest c' := by
  obtain ⟨address, hpeer, hlatest⟩ := latest_joined hj
  have hself : w'.latest c = some (k, address) := by rw [hs.2, hlatest, Function.update_self]
  refine ⟨by rw [Watched.connection, hself, Option.map_some], ?_, fun c' hne => ?_⟩
  · rw [Watched.recorded, hself, hpeer, Option.map_some]
  · rw [hs.2, hlatest, Function.update_of_ne hne]

theorem known_step (hs : w.Step py cfg o w') (h : Sound w.server) (hk : w.Known) : w'.Known := by
  intro c
  cases event_moves h hs.1 with
  | joined k c' restore hj _ haddress =>
    obtain ⟨-, hself, hother⟩ := step_joined hs hj
    rw [haddress]
    by_cases hc : c = c'
    · subst hc
      rw [if_pos rfl, hself]
      exact .inr rfl
    · rw [if_neg hc, Watched.recorded, hother c hc]
      exact hk c
  | lost k he _ haddress =>
    have hjoins : ∀ j c r, ¬ Joins py cfg w.server o j c r := by
      rintro j c r ⟨_, _, _, he', -⟩
      cases he.symm.trans he'
    rw [recorded_congr (hs.2.trans (latest_kept hjoins)), haddress]
    exact hk c
  | stays hjoins _ _ haddress =>
    rw [recorded_congr (hs.2.trans (latest_kept hjoins))]
    obtain ha | ha := haddress c
    · rw [ha]
      exact hk c
    · exact .inl ha

end Livelock.LatestConn
