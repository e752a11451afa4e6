import Livelock.ClientRecords
import Livelock.Garbage
import Livelock.Ascii

namespace Livelock.BoundedMemory

open Livelock.Lib Livelock.Shared Livelock.MemoryStorage Livelock.MemoryStorage.InMemoryLockStorage
open Livelock.StorageInvariant Livelock.StorageLease Livelock.StorageRun Livelock.Server Livelock.CommandSpec
open Livelock.ServerRun Livelock.ServerLease Livelock.ClientRecords Livelock.MaintenancePass Livelock.Garbage
open Livelock.Ascii

/-- The storage keeps a record of the client. -/
def Known (sv : Server) (c : ClientId) : Prop :=
  Listed sv.adaptor.store c ∨ sv.adaptor.getClientLastAddress c ≠ none

/-- An open connection of the client is the one it was last seen on. -/
def Tracked (sv : Server) (c : ClientId) : Prop :=
  ∃ k, idOf sv k = some c ∧ peerOf sv k = sv.adaptor.getClientLastAddress c

variable (py : Builtins) (cfg : Config)

/-- A connection of the client took another id. -/
def Renames (sv : Server) (o : Occurrence) (c : ClientId) : Prop :=
  ∃ k c' restore, Joins py cfg sv o k c' restore ∧ idOf sv k = some c ∧ c' ≠ c

def Renamed (T : Time) (os : List Occurrence) (c : ClientId) : Prop :=
  ∃ pre o post sv, os = pre ++ o :: post ∧ Run (Steps py cfg) (.start T) pre sv ∧ Renames py cfg sv o c

variable {py cfg} {sv sv' : Server} {o : Occurrence} {os : List Occurrence} {c : ClientId} {k : ConnId} {T : Time}

theorem renamed_snoc (h : Renamed py cfg T os c) (o : Occurrence) : Renamed py cfg T (os ++ [o]) c := by
  obtain ⟨pre, o', post, v, rfl, hpre, hrenames⟩ := h
  exact ⟨pre, o', post ++ [o], v, by simp, hpre, hrenames⟩

theorem tracked_step (h : Sound sv) (hs : Steps py cfg sv o sv')
    (hpeer : peerOf sv k = sv.adaptor.getClientLastAddress c) (hkeep : idOf sv' k = some c)
    (haddress : sv'.adaptor.getClientLastAddress c = sv.adaptor.getClientLastAddress c) : Tracked sv' c := by
  refine ⟨k, hkeep, ?_⟩
  rw [event_peer h hs (by simp [hkeep]), hpeer, haddress]

/-- The address of a client that nothing but its connections can tell of. -/
def Accounted (sv : Server) (c : ClientId) : Prop :=
  sv.adaptor.getClientLastAddress c ≠ none → Listed sv.adaptor.store c ∨ Tracked sv c

theorem accounted_same (h : Sound sv) (hs : Steps py cfg sv o sv') (ha : Accounted sv c)
    (hkeeps : Keeps sv.adaptor.store sv'.adaptor.store) (hid : ∀ j, idOf sv' j = idOf sv j) :
    Accounted sv' c := by
  have haddress : sv'.adaptor.getClientLastAddress c = sv.adaptor.getClientLastAddress c := by
    simp only [StorageAdaptor.getClientLastAddress, InMemoryLockStorage.getClientLastAddress, hkeeps.address]
  intro hne
  rw [haddress] at hne
  obtain hlisted | ⟨k, hk, hpeer⟩ := ha hne
  · exact .inl (hkeeps.listed c hlisted)
  · exact .inr (tracked_step h hs hpeer ((hid k).trans hk) haddress)

theorem accounted_joined (h : Sound sv) (hs : Steps py cfg sv o sv') (ha : Accounted sv c) {c' : ClientId}
    {restore : Bool} (hj : Joins py cfg sv o k c' restore) : Accounted sv' c ∨ Renames py cfg sv o c := by
  obtain ⟨session, -, hstore, hid⟩ := joins_effect h hs hj
  have haddress := joins_address h hs hj c
  have hlisted : Listed sv.adaptor.store c → Listed sv'.adaptor.store c := by
    rw [hstore]
    intro hc
    cases restore with
    | false => exact hc
    | true => exact (keeps_unreleaseAll _ c').listed c hc
  by_cases hcc : c = c'
  · -- the connection is now the one that the client was last seen on
    subst hcc
    have hkeep : idOf sv' k = some c := (hid k).trans (if_pos rfl)
    rw [if_pos rfl] at haddress
    refine .inl fun _ => .inr ⟨k, hkeep, ?_⟩
    rw [event_peer h hs (by simp [hkeep]), haddress]
  · rw [if_neg hcc] at haddress
    by_cases hrenames : Renames py cfg sv o c
    · exact .inr hrenames
    · refine .inl fun hne => ?_
      rw [haddress] at hne
      obtain hc | ⟨j, hj', hpeer⟩ := ha hne
      · exact .inl (hlisted hc)
      · have hjk : j ≠ k := by
          rintro rfl
          exact hrenames ⟨j, c', restore, hj, hj', fun he => hcc he.symm⟩
        exact .inr (tracked_step h hs hpeer ((hid j).trans ((if_neg hjk).trans hj')) haddress)

theorem accounted_lost (h : Sound sv) (ha : Accounted sv c) {session : Session}
    (hs : Steps py cfg sv o { sv with connections := sv.connections.erase k })
    (hk : sv.connections.get? k = some session)
    (hnot : session.clientId = some c → sv.adaptor.getClientLastAddress c ≠ some session.peername) :
    Accounted { sv with connections := sv.connections.erase k } c := by
  intro hne
  obtain hc | ⟨j, hj, hpeer⟩ := ha hne
  · exact .inl hc
  · have hjk : j ≠ k := by
      rintro rfl
      rw [idOf, hk, Option.bind_some] at hj
      rw [peerOf, hk, Option.map_some] at hpeer
      exact hnot hj hpeer.symm
    have hkeep := idOf_erase sv sv.adaptor k j
    rw [if_neg hjk] at hkeep
    exact .inr (tracked_step h hs hpeer (hkeep.trans hj) rfl)

theorem accounted_released (h : Sound sv) (ha : Accounted sv c) {session : Session} {c' : ClientId}
    {m : Option Time}
    (hs : Steps py cfg sv o { sv with
      adaptor := { sv.adaptor with store := (sv.adaptor.store.releaseAll o.clk c' m).1 }
      connections := sv.connections.erase k })
    (hk : sv.connections.get? k = some session) (hc' : session.clientId = some c') :
    Accounted { sv with
      adaptor := { sv.adaptor with store := (sv.adaptor.store.releaseAll o.clk c' m).1 }
      connections := sv.connections.erase k } c := by
  intro hne
  obtain hc | ⟨j, hj, hpeer⟩ := ha hne
  · exact .inl ((keeps_releaseAll _ _ c' _).listed c hc)
  · by_cases hjk : j = k
    · subst hjk
      rw [idOf, hk, Option.bind_some, hc'] at hj
      cases hj
      exact .inl (listed_touch sv.adaptor.store c)
    · refine .inr (tracked_step h hs hpeer ?_ rfl)
      rw [idOf_erase, if_neg hjk, hj]

theorem accounted_maintenance (h : Sound sv) (hs : Steps py cfg sv o sv') (ha : Accounted sv c)
    {timeoutMs : Time} {shuffle : Shuffle} (he : o.event = .maintenance timeoutMs shuffle) :
    Accounted sv' c := by
  obtain ⟨store, clk, heq, rfl⟩ := maintenance_change h hs he
  have hforgets := maintenance_forgets heq
  intro hne
  have haddress := (hforgets.address c).resolve_right fun hnone => hne hnone.1
  obtain hc | ⟨j, hj, hpeer⟩ := ha fun hnone => hne (haddress.trans hnone)
  · exact .inl ((hforgets.listed c hc).resolve_right hne)
  · exact .inr (tracked_step h hs hpeer hj haddress)

theorem accounted_step (h : Sound sv) (hs : Steps py cfg sv o sv') (ha : Accounted sv c) :
    Accounted sv' c ∨ Renames py cfg sv o c := by
  cases step_change h hs with
  | connect peername => exact .inl (accounted_same h hs ha (keeps_refl _) (idOf_connect h peername))
  | command k uuid value session t he hw hk hserving hfresh ht hdoes =>
    cases hi : intent py cfg session uuid value with
    | nothing =>
      obtain ⟨hstore, hid⟩ := quiet_effect h hs he hk hi
      exact .inl (accounted_same h hs ha (hstore ▸ keeps_refl _) hid)
    | operation op =>
      obtain ⟨answer, clk, hexec, -, -, ⟨c', -, hasked⟩, hid⟩ :=
        asks_effect h hs ⟨uuid, value, session, he, hk, hi⟩
      exact .inl (accounted_same h hs ha (exec_keeps hexec hasked) hid)
    | conn c' restore => exact accounted_joined h hs ha ⟨uuid, value, session, he, hk, hi⟩
  | lost k session he hw hk hnot => exact .inl (accounted_lost h ha hs hk fun hc => (hnot c hc).1)
  | lostLast k session c' he hw hk hc' hlast => exact .inl (accounted_released h ha hs hk hc')
  | maintenance timeoutMs shuffle store clk he => exact .inl (accounted_maintenance h hs ha he)

theorem accounted_run (h : Run (Steps py cfg) (.start T) os sv) (c : ClientId) :
    Accounted sv c ∨ Renamed py cfg T os c := by
  induction h with
  | nil => exact .inl fun hne => absurd rfl hne
  | @snoc os o v w hrun hs ih =>
    obtain ha | hrenamed := ih
    · obtain ha' | hrenames := accounted_step (sound_run hrun (sound_start T)) hs ha
      · exact .inl ha'
      · exact .inr ⟨os, o, [], v, rfl, hrun, hrenames⟩
    · exact .inr (renamed_snoc hrenamed o)

theorem listed_owns {s s' : InMemoryLockStorage} {clk clk' : Clock} (hs : Rep s) (hs' : Rep s') {timeoutMs : Time}
    {shuffle : Shuffle} (huncut : Uncut s clk timeoutMs shuffle)
    (heq : s.maintenance clk timeoutMs shuffle = .ok (s', clk')) (hc : Listed s' c) :
    ∃ l m, lease s' l = some ⟨c, m⟩ := by
  obtain ⟨gone, heq', -⟩ := maintenance_uncut hs huncut
  rw [heq] at heq'
  obtain ⟨rfl, -⟩ := Prod.mk.inj (Except.ok.inj heq')
  obtain ⟨locks', hlocks'⟩ := Option.isSome_iff_exists.mp hc
  have hbusy : locks' ≠ [] := by
    rw [swept, Dict.get?_filterMap] at hlocks'
    obtain ⟨locks, hlocks, hkept⟩ := Option.bind_eq_some_iff.mp hlocks'
    have hdone : c ∈ shuffle.order s.clientToLocks.keys :=
      (shuffle.perm _).mem_iff.mpr ((Dict.mem_keys _ c).mpr ⟨locks, hlocks⟩)
    split at hkept
    · cases hkept
    · next hnot =>
      cases hkept
      exact fun hempty => hnot ⟨hdone, hempty⟩
  obtain ⟨r, hr⟩ := List.exists_mem_of_ne_nil _ hbusy
  obtain ⟨l, hl, howner⟩ := (hs'.listed c r).mp (by rw [locksOf, hlocks']; exact hr)
  exact ⟨l, _, lease_eq howner hl⟩

/-- Nothing is kept of a client for longer than it takes the next whole pass of
maintenance: whoever is known after it owns a lock or has an open connection,
unless some connection of it has taken another id. -/
theorem clients_collected (h : Run (Steps py cfg) (.start T) os sv) (hs : Steps py cfg sv o sv')
    {timeoutMs : Time} {shuffle : Shuffle} (he : o.event = .maintenance timeoutMs shuffle)
    (huncut : Uncut sv.adaptor.store o.clk timeoutMs shuffle) (hc : Known sv' c) :
    (∃ l m, leaseOf sv' l = some ⟨c, m⟩) ∨ c ∈ clients sv' ∨ Renamed py cfg T os c := by
  have hsound := sound_run h (sound_start T)
  obtain ⟨store, clk, heq, hsv'⟩ := maintenance_change hsound hs he
  have howns : Listed sv'.adaptor.store c → ∃ l m, leaseOf sv' l = some ⟨c, m⟩ := by
    intro hlisted
    have hrep := (sound_step hsound hs).rep
    rw [hsv'] at hlisted hrep ⊢
    exact listed_owns hsound.rep hrep huncut heq hlisted
  obtain hlisted | hne := hc
  · exact .inl (howns hlisted)
  obtain ha | hrenamed := accounted_run h c
  · obtain ha' | ⟨k, c', restore, ⟨uuid, value, session, he', -⟩, -⟩ := accounted_step hsound hs ha
    · obtain hlisted | ⟨k, hk, -⟩ := ha' hne
      · exact .inl (howns hlisted)
      · exact .inr (.inl (mem_clients.mpr ⟨k, hk⟩))
    · cases he.symm.trans he'
  · exact .inr (.inr hrenamed)

def visitors : List Event :=
  [.connect ⟨"10.0.0.1", 40001⟩, .command 0 carol (words ["CONN", "alice"]), .command 0 carol (words ["AQ", "l"]),
    .connect ⟨"10.0.0.2", 40002⟩, .command 1 bob (words ["CONN"]), .lost 1]

theorem clients_collected_visitors : ∃ os sv o sv', Run (Steps ascii plainConfig) (.start 5) os sv ∧
    Steps ascii plainConfig sv o sv' ∧ Known sv bob ∧ ¬ Known sv' bob ∧ Known sv' alice ∧
      ((∃ l m, leaseOf sv' l = some ⟨alice, m⟩) ∨ alice ∈ clients sv' ∨
        Renamed ascii plainConfig 5 os alice) := by
  let known : Server → ClientId → Bool := fun sv c =>
    (sv.adaptor.store.clientToLocks.get? c).isSome || (sv.adaptor.getClientLastAddress c).isSome
  have hknown : ∀ sv c, known sv c = true ↔ Known sv c := by
    intro sv c
    simp [known, Known, Listed, Option.isSome_iff_ne_none]
  have heval : ((allAt 1 visitors).foldlM (Server.next ascii plainConfig) (.start 5)).bind (fun sv =>
      (sv.next ascii plainConfig (.maintenance 1 .same, fun _ => 1)).map fun sv' =>
        (known sv bob, known sv' bob, known sv' alice)) = some (true, false, true) := by decide +kernel
  obtain ⟨sv, hplay, heval⟩ := Option.bind_eq_some_iff.mp heval
  obtain ⟨sv', hnext, hfacts⟩ := Option.map_eq_some_iff.mp heval
  obtain ⟨hbob, hfacts⟩ := Prod.mk.inj hfacts
  obtain ⟨hbob', halice⟩ := Prod.mk.inj hfacts
  obtain ⟨os, hrun, -⟩ := play_run hplay
  obtain ⟨o, ⟨hevent, hreading⟩, hs⟩ := plays_next _ sv sv' hnext
  have hsound := sound_run hrun (sound_start 5)
  have hbound : (1 : Time) ≤ 1 + 1 * 1000 := by decide +kernel
  have huncut : Uncut sv.adaptor.store o.clk 1 .same := by
    refine uncut_of_bound hsound.rep .same fun n => ?_
    simp only [Occurrence.clk, Clock.now, hreading]
    exact hbound
  have hforgotten : ¬ Known sv' bob := fun hk => by simp [(hknown sv' bob).mpr hk] at hbob'
  exact ⟨os, sv, o, sv', hrun, hs, (hknown sv bob).mp hbob, hforgotten, (hknown sv' alice).mp halice,
    clients_collected hrun hs hevent huncut ((hknown sv' alice).mp halice)⟩

end Livelock.BoundedMemory
