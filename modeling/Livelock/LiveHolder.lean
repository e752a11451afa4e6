import Livelock.LatestConn
import Livelock.Ascii

namespace Livelock.LiveHolder

open Livelock.Lib Livelock.Shared Livelock.MemoryStorage Livelock.StorageRun
open Livelock.Server Livelock.CommandSpec Livelock.ServerRun Livelock.ServerLease Livelock.LatestConn
open Livelock.Ascii

/-- The connection that most recently executed `CONN` as `c` is still open and
still acts for `c`. -/
def Live (w : Watched) (c : ClientId) (k : ConnId) : Prop :=
  w.connection c = some k ∧ idOf w.server k = some c

/-- No lock of a live client is marked to be freed. -/
def Unmarked (w : Watched) : Prop :=
  ∀ c k, Live w c k → ∀ l m, leaseOf w.server l = some ⟨c, m⟩ → m = none

/-- No connection is lost while its client is live on another one, owns a lock
and has no last address. -/
def Orderly (w : Watched) (o : Occurrence) : Prop :=
  ∀ k c, o.event = .lost k → idOf w.server k = some c →
    w.server.adaptor.getClientLastAddress c = none →
      ∀ j, Live w c j → j ≠ k → ∀ l m, leaseOf w.server l ≠ some ⟨c, m⟩

/-- What is recorded for a live client is the address of its live connection. -/
def Current (w : Watched) : Prop := ∀ c k, Live w c k → w.recorded c = peerOf w.server k

variable {py : Builtins} {cfg : Config} {w w' : Watched} {o : Occurrence} {c : ClientId} {k : ConnId}

theorem live_before (hs : w.Step py cfg o w') (h : Sound w.server) (hl : Live w' c k) :
    (∃ restore, Joins py cfg w.server o k c restore) ∨
      (Live w c k ∧ o.event ≠ .lost k ∧ w'.latest c = w.latest c) := by
  obtain ⟨hlatest, hid⟩ := hl
  have hold : w'.latest c = w.latest c → idOf w.server k = some c → o.event ≠ .lost k →
      Live w c k ∧ o.event ≠ .lost k ∧ w'.latest c = w.latest c := by
    intro hkept hid hevent
    refine ⟨⟨?_, hid⟩, hevent, hkept⟩
    rw [Watched.connection, ← hkept]
    exact hlatest
  cases event_moves h hs.1 with
  | joined k' c' restore hj hids =>
    obtain ⟨hself, -, hother⟩ := step_joined hs hj
    by_cases hc : c = c'
    · subst hc
      obtain rfl := Option.some_inj.mp (hself.symm.trans hlatest)
      exact .inl ⟨restore, hj⟩
    · rw [hids] at hid
      have hk : k ≠ k' := by
        rintro rfl
        rw [if_pos rfl, Option.some_inj] at hid
        exact hc hid.symm
      rw [if_neg hk] at hid
      have hevent : o.event ≠ .lost k := by
        obtain ⟨_, _, _, he, -⟩ := hj
        intro hl
        cases he.symm.trans hl
      exact .inr (hold (hother c hc) hid hevent)
  | lost k' he hids =>
    have hjoins : ∀ j c r, ¬ Joins py cfg w.server o j c r := by
      rintro j c r ⟨_, _, _, he', -⟩
      cases he.symm.trans he'
    rw [hids] at hid
    have hk : k ≠ k' := by
      rintro rfl
      rw [if_pos rfl] at hid
      cases hid
    rw [if_neg hk] at hid
    have hevent : o.event ≠ .lost k := fun he' => hk (Event.lost.inj (he'.symm.trans he))
    exact .inr (hold (congrFun (hs.2.trans (latest_kept hjoins)) c) hid hevent)
  | stays hjoins hlost hids =>
    rw [hids] at hid
    exact .inr (hold (congrFun (hs.2.trans (latest_kept hjoins)) c) hid (hlost k))

theorem current_step (hs : w.Step py cfg o w') (h : Sound w.server) (hc : Current w) : Current w' := by
  intro c k hl
  have hpeer : peerOf w'.server k = peerOf w.server k := by
    apply event_peer h hs.1
    rw [hl.2]
    exact nofun
  rw [hpeer]
  obtain ⟨restore, hj⟩ | ⟨hlive, -, hkept⟩ := live_before hs h hl
  · exact (step_joined hs hj).2.1
  · rw [Watched.recorded, hkept]
    exact hc c k hlive

/-- Dropping another connection of a live client that owns a lock releases
nothing. -/
theorem not_drops (h : Sound w.server) (hk : w.Known) (hcurrent : Current w) (ho : Orderly w o)
    (hl : Live w c k) {l : LockId} {m : Option Time} (hlease : leaseOf w.server l = some ⟨c, m⟩)
    {j : ConnId} (hd : Drops w.server o j c) : j = k := by
  obtain ⟨he, session, hj, hc, hlast⟩ := hd
  have hidj : idOf w.server j = some c := by
    rw [idOf, hj]
    exact hc
  by_contra hne
  have hsome : w.server.adaptor.getClientLastAddress c = some session.peername := by
    refine hlast.resolve_right fun hnone => ?_
    exact ho j c he hidj hnone k hl (Ne.symm hne) l m hlease
  obtain hnone | hrecorded := hk c
  · rw [hsome] at hnone
    cases hnone
  · rw [hcurrent c k hl, hsome, peerOf, eq_comm, Option.map_eq_some_iff] at hrecorded
    obtain ⟨session', hk', hp⟩ := hrecorded
    exact hne (h.distinct j k session session' hj hk' hp.symm)

theorem unmarked_step (hs : w.Step py cfg o w') (h : Sound w.server) (hk : w.Known)
    (hcurrent : Current w) (ho : Orderly w o) (hu : Unmarked w) : Unmarked w' := by
  intro c k hl l m hlease
  obtain ⟨restore, hj⟩ | ⟨hlive, hlost, -⟩ := live_before hs h hl
  · obtain ⟨session, -, hstore, -⟩ := joins_effect h hs.1 hj
    rw [leaseOf, hstore, lease_joined h.rep] at hlease
    cases restore with
    | false => exact absurd hlease (joins_new h hs.1 hj l m)
    | true =>
      obtain ⟨-, hm, -⟩ | hx := Lease.stamp_owned hlease
      · exact hm
      · have hstamp := hlease
        rw [if_pos rfl, hx, Lease.stamp_self, Option.some.injEq, Lease.mk.injEq] at hstamp
        exact hstamp.2.symm
  · obtain ⟨act, hcause, hstep⟩ := event_lease h hs.1 l
    rw [hlease] at hstep
    obtain hx | ⟨hm, -⟩ | ⟨d, m₀, rfl, hx, rfl⟩ | ⟨-, hm⟩ := Lease.step_owned hstep
    · exact hu c k hlive l m hx
    · exact hm
    · cases hcause with
      | lost hd =>
        obtain rfl := not_drops h hk hcurrent ho hlive hx hd
        exact absurd hd.1 hlost
    · exact hm

/-- While every event is orderly, no lock of a live client carries a mark, and
no event takes one away but its release by the client or the loss of the live
connection itself. -/
theorem live_holder {T : Time} {es : List Occurrence}
    (h : Run (Where (Watched.Step py cfg) Orderly) (.start T) es w) :
    Unmarked w ∧ ∀ o w', w.Step py cfg o w' → Orderly w o → ∀ c k, Live w c k →
      ∀ l m, leaseOf w.server l = some ⟨c, m⟩ → leaseOf w'.server l = some ⟨c, none⟩ ∨
        (∃ j, Asks py cfg w.server o j (.release c l) ∧ Answers o true) ∨ o.event = .lost k := by
  have hinv : Sound w.server ∧ w.Known ∧ Current w ∧ Unmarked w := by
    refine h.invariant (I := fun w => Sound w.server ∧ w.Known ∧ Current w ∧ Unmarked w) ⟨?_, ?_, ?_, ?_⟩ ?_
    · exact sound_start T
    · exact fun c => .inl rfl
    · rintro c k ⟨hl, -⟩
      cases hl
    · rintro c k ⟨hl, -⟩
      cases hl
    · rintro v e v' - ⟨hsound, hknown, hcurrent, hun⟩ ⟨hs, ho⟩
      exact ⟨sound_step hsound hs.1, known_step hs hsound hknown, current_step hs hsound hcurrent,
        unmarked_step hs hsound hknown hcurrent ho hun⟩
  obtain ⟨hsound, hknown, hcurrent, hun⟩ := hinv
  refine ⟨hun, fun o w' hs ho c k hl l m hlease => ?_⟩
  obtain rfl := hun c k hl l m hlease
  obtain ⟨act, hcause, hstep⟩ := event_lease hsound hs.1 l
  rw [hlease] at hstep
  obtain ⟨hy, -⟩ | ⟨d, rfl, -⟩ | ⟨-, hy⟩ | rfl | ⟨d, now, hm, -⟩ := Lease.step_held hstep
  · exact .inl hy
  · cases hcause with
    | lost hd =>
      obtain rfl := not_drops hsound hknown hcurrent ho hl hlease hd
      exact .inr (.inr hd.1)
  · exact .inl hy
  · cases hcause with
    | released ha hans => exact .inr (.inl ⟨_, ha, hans⟩)
  · cases hm

def addressed (w : Watched) (event : Event) : Bool :=
  match event with
  | .lost k => (idOf w.server k).all fun c => (w.server.adaptor.getClientLastAddress c).isSome
  | _ => true

theorem orderly_of_addressed (h : addressed w o.event = true) : Orderly w o := by
  intro k c he hid hnone
  rw [he, addressed, hid] at h
  simp [hnone] at h

def droppedRun (es : List Event) : List Input :=
  allAt 0 ([.connect ⟨"10.0.0.1", 40001⟩, .command 0 bob (words ["CONN", "alice"]),
    .connect ⟨"10.0.0.1", 40002⟩, .command 1 bob (words ["CONN", "alice"])] ++ es ++
    [.command 1 bob (words ["AQ", "l"]), .lost 0])

theorem live_holder_kept : ∃ w : Watched, Live w alice 1 ∧
    leaseOf w.server "l" = some ⟨alice, none⟩ ∧ Unmarked w := by
  let f : Watched → Input → Option Watched := fun w input =>
    if addressed w input.1 then w.next ascii plainConfig input else none
  have heval : ((droppedRun []).foldlM f (.start 5)).map
      (fun w => (w.connection alice, idOf w.server 1, leaseOf w.server "l")) =
        some (some 1, some alice, some ⟨alice, none⟩) := by decide +kernel
  obtain ⟨w, hw, hfacts⟩ := Option.map_eq_some_iff.mp heval
  simp only [Prod.mk.injEq] at hfacts
  have hstep : ∀ input v v', f v input = some v' → ∃ o, True ∧
      Where (Watched.Step ascii plainConfig) Orderly v o v' := by
    intro input v v' hv
    simp only [f] at hv
    split at hv
    · next ha =>
      obtain ⟨⟨sv, writes⟩, hs, rfl⟩ := Option.map_eq_some_iff.mp hv
      exact ⟨⟨input.1, input.2, writes⟩, trivial, ⟨hs, rfl⟩, orderly_of_addressed ha⟩
    · cases hv
  obtain ⟨es, hrun, -⟩ := Run.exists_of_foldlM hstep hw
  exact ⟨w, ⟨hfacts.1, hfacts.2.1⟩, hfacts.2.2, (live_holder hrun).1⟩

/-- A maintenance pass that finds Alice without locks forgets her address, and
the drop of her older connection then marks the lock she holds on the newer. -/
theorem live_holder_forgotten : ¬ ∀ es w,
    Run (Watched.Step ascii plainConfig) (.start 5) es w → Unmarked w := by
  intro h
  have heval : ((droppedRun [.maintenance 50 .same]).foldlM (Watched.next ascii plainConfig)
      (.start 5)).map (fun w => (w.connection alice, idOf w.server 1, leaseOf w.server "l")) =
        some (some 1, some alice, some ⟨alice, some 5⟩) := by decide +kernel
  obtain ⟨w, hw, hfacts⟩ := Option.map_eq_some_iff.mp heval
  simp only [Prod.mk.injEq] at hfacts
  have hstep : ∀ input v v', Watched.next ascii plainConfig v input = some v' →
      ∃ o, True ∧ Watched.Step ascii plainConfig v o v' := fun _ _ _ hs =>
    (Watched.step_of_next _ _ hs).imp fun _ ho => ⟨trivial, ho⟩
  obtain ⟨es, hrun, -⟩ := Run.exists_of_foldlM hstep hw
  cases h es w hrun alice 1 ⟨hfacts.1, hfacts.2.1⟩ "l" _ hfacts.2.2

end Livelock.LiveHolder
