import Livelock.ServerLease
import Livelock.Ascii

namespace Livelock.Orphan

open Livelock.Lib Livelock.Shared Livelock.MemoryStorage Livelock.StorageInvariant
open Livelock.StorageLease Livelock.StorageRun Livelock.Server Livelock.CommandSpec
open Livelock.ServerRun Livelock.ServerLease Livelock.Ascii

variable (py : Builtins) (cfg : Config)

/-- The event takes connection `k` away from its client `c` without releasing
the locks: the loss of a connection that is not the last known one, or a `CONN`
with another id. -/
def Leaves (sv : Server) (o : Occurrence) (k : ConnId) (c : ClientId) : Prop :=
  idOf sv k = some c ∧
    ((o.event = .lost k ∧ sv.adaptor.getClientLastAddress c ≠ none ∧
        sv.adaptor.getClientLastAddress c ≠ peerOf sv k) ∨
      ∃ c' restore, c' ≠ c ∧ Joins py cfg sv o k c' restore)

/-- A client is left so only if another of its connections is open, or it has
no lock that is not marked already. -/
def Orderly (sv : Server) (o : Occurrence) : Prop :=
  ∀ k c, Leaves py cfg sv o k c →
    (∃ j, j ≠ k ∧ idOf sv j = some c) ∨ ∀ l, leaseOf sv l ≠ some ⟨c, none⟩

/-- Every lock that is not marked belongs to a client with an open connection. -/
def Covered (sv : Server) : Prop :=
  ∀ l c, leaseOf sv l = some ⟨c, none⟩ → ∃ k, idOf sv k = some c

variable {py cfg} {sv sv' : Server} {o : Occurrence} {k : ConnId} {c : ClientId}

theorem covered_step (hs : Steps py cfg sv o sv') (h : Sound sv) (ho : Orderly py cfg sv o)
    (hcov : Covered sv) : Covered sv' := by
  intro l c hl
  obtain ⟨act, hcause, hstep⟩ := event_lease h hs l
  rw [hl] at hstep
  have hgrant : ∀ k r, Asks py cfg sv o k (.acquire c l r) → ∃ k, idOf sv' k = some c := by
    intro k r ha
    obtain ⟨_, _, -, -, -, ⟨c', hid, rfl⟩, hids⟩ := asks_effect h hs ha
    exact ⟨k, (hids k).trans hid⟩
  obtain hx | ⟨-, rfl | ⟨now, rfl⟩⟩ | ⟨d, _, -, -, hd⟩ | ⟨rfl, -⟩ := Lease.step_owned hstep
  · -- the lock was not marked before either, and its client had an open connection
    obtain ⟨k, hk⟩ := hcov l c hx
    have hother : Leaves py cfg sv o k c → ∃ j, j ≠ k ∧ idOf sv j = some c := fun hleave =>
      (ho k c hleave).resolve_right fun hno => hno l hx
    cases event_moves h hs with
    | joined k' c' restore hj hids =>
      by_cases hc : c' = c
      · exact ⟨k', by rw [hids, if_pos rfl, hc]⟩
      by_cases hkk : k = k'
      · subst hkk
        obtain ⟨j, hjk, hid⟩ := hother ⟨hk, .inr ⟨c', restore, hc, hj⟩⟩
        exact ⟨j, by rw [hids, if_neg hjk, hid]⟩
      · exact ⟨k, by rw [hids, if_neg hkk, hk]⟩
    | lost k' he hids =>
      by_cases hkk : k = k'
      · subst hkk
        obtain hd | hknown := lost_cases he hk
        · have hmark := drops_effect h hs hd l
          rw [hx, Lease.stamp_self, hl] at hmark
          cases hmark
        · obtain ⟨j, hjk, hid⟩ := hother ⟨hk, .inl ⟨he, hknown⟩⟩
          exact ⟨j, by rw [hids, if_neg hjk, hid]⟩
      · exact ⟨k, by rw [hids, if_neg hkk, hk]⟩
    | stays _ _ hids => exact ⟨k, (hids k).trans hk⟩
  · cases hcause with
    | granted ha => exact hgrant _ _ ha
  · cases hcause with
    | takenOver _ ha => exact hgrant _ _ ha
  · cases hd
  · cases hcause with
    | joined hj =>
      obtain ⟨_, -, -, hids⟩ := joins_effect h hs hj
      exact ⟨_, (hids _).trans (if_pos rfl)⟩

/-- While no client is left with an unmarked lock and no connection, every lock
is marked or its owner is connected, and the locks of a client that is not
connected have deadlines past which any request for them is granted. -/
theorem no_orphan {T : Time} {es : List Occurrence}
    (h : Run (Where (Steps py cfg) (Orderly py cfg)) (.start T) es sv)
    (hclk : ∀ o ∈ es, 0 ≤ o.reading 0) :
    (∀ l r, sv.adaptor.store.allLocks.get? l = some r →
      (sv.adaptor.store.objects r).markFreeAfter ≠ none ∨
        ∃ c k, sv.adaptor.store.locksToClient.get? l = some c ∧ idOf sv k = some c) ∧
    ∀ c, (∀ k, idOf sv k ≠ some c) → ∀ l r, sv.adaptor.store.locksToClient.get? l = some c →
      sv.adaptor.store.allLocks.get? l = some r →
        ∃ d, (sv.adaptor.store.objects r).markFreeAfter = some d ∧
          ∀ o sv' k c' reentrant, Steps py cfg sv o sv' → d ≤ o.reading 0 →
            Asks py cfg sv o k (.acquire c' l reentrant) → Answers o true := by
  obtain ⟨hsound, hcov, hpos⟩ : Sound sv ∧ Covered sv ∧ Positive sv := by
    refine h.invariant (I := fun sv => Sound sv ∧ Covered sv ∧ Positive sv) ⟨?_, ?_, ?_⟩ ?_
    · exact sound_start T
    · intro l c hl
      cases hl
    · intro l c d hl
      cases hl
    · rintro v e v' he ⟨hsound, hcov, hpos⟩ ⟨hs, ho⟩
      exact ⟨sound_step hsound hs, covered_step hs hsound ho hcov,
        positive_step hs hsound (hclk e he) hpos⟩
  constructor
  · intro l r hr
    obtain ⟨c, hc⟩ := hsound.rep.owned hr
    cases hm : (sv.adaptor.store.objects r).markFreeAfter with
    | some d => exact .inl nofun
    | none =>
      have hl : leaseOf sv l = some ⟨c, none⟩ := by rw [leaseOf, lease_eq hc hr, hm]
      obtain ⟨k, hk⟩ := hcov l c hl
      exact .inr ⟨c, k, hc, hk⟩
  · intro c hgone l r hc hr
    cases hm : (sv.adaptor.store.objects r).markFreeAfter with
    | none =>
      have hl : leaseOf sv l = some ⟨c, none⟩ := by rw [leaseOf, lease_eq hc hr, hm]
      obtain ⟨k, hk⟩ := hcov l c hl
      exact absurd hk (hgone k)
    | some d =>
      have hl : leaseOf sv l = some ⟨c, some d⟩ := by rw [leaseOf, lease_eq hc hr, hm]
      refine ⟨d, rfl, fun o sv' k c' reentrant hs hd ha => ?_⟩
      have hover : Overdue (o.reading 0) (leaseOf sv l) := ⟨c, d, hl, (hpos l c d hl).ne', hd⟩
      obtain ⟨_, _, -, hnot, -⟩ | ⟨-, hans, -⟩ := asks_acquire hsound hs ha
      · exact absurd hover hnot
      · exact hans

def settled (py : Builtins) (cfg : Config) (sv : Server) (event : Event) : Bool :=
  match event with
  | .lost k => (idOf sv k).all fun c => decide (sv.adaptor.getClientLastAddress c = peerOf sv k)
  | .command k uuid value =>
    (sv.connections.get? k).all fun session =>
      match intent py cfg session uuid value with
      | .conn _ _ => session.clientId.isNone
      | _ => true
  | _ => true

theorem orderly_of_settled (h : settled py cfg sv o.event = true) : Orderly py cfg sv o := by
  rintro k c ⟨hid, ⟨he, -, hpeer⟩ | ⟨c', restore, -, uuid, value, session, he, hk, hi⟩⟩
  · rw [he, settled, hid] at h
    simp [hpeer] at h
  · rw [he, settled, hk, Option.all_some, hi] at h
    rw [idOf, hk] at hid
    have hc : session.clientId = some c := hid
    simp [hc] at h

theorem no_orphan_lost : ∃ sv : Server, leaseOf sv "l" = some ⟨alice, some 5⟩ ∧ clients sv = [] ∧
    ∃ d, ∀ o sv' k c' reentrant, Steps ascii plainConfig sv o sv' → d ≤ o.reading 0 →
      Asks ascii plainConfig sv o k (.acquire c' "l" reentrant) → Answers o true := by
  let f : Server → Input → Option Server := fun sv input =>
    if settled ascii plainConfig sv input.1 ∧ 0 ≤ input.2 0 then sv.next ascii plainConfig input else none
  have heval : ((allAt 0 [.connect ⟨"10.0.0.1", 40001⟩, .command 0 bob (words ["CONN", "alice"]),
      .command 0 bob (words ["AQ", "l"]), .lost 0]).foldlM f (.start 5)).map
      (fun sv => (leaseOf sv "l", clients sv)) = some (some ⟨alice, some 5⟩, []) := by decide +kernel
  obtain ⟨sv, hsv, hfacts⟩ := Option.map_eq_some_iff.mp heval
  obtain ⟨hlease, hclients⟩ := Prod.mk.inj hfacts
  have hstep : ∀ input v w, f v input = some w → ∃ o : Occurrence, 0 ≤ o.reading 0 ∧
      Where (Steps ascii plainConfig) (Orderly ascii plainConfig) v o w := by
    intro input v w hs
    simp only [f] at hs
    split at hs
    · next hok =>
      obtain ⟨writes, hs⟩ := steps_of_next hs
      exact ⟨_, hok.2, hs, orderly_of_settled hok.1⟩
    · cases hs
  obtain ⟨es, hrun, hreadings⟩ := Run.exists_of_foldlM hstep hsv
  have hclk : ∀ o ∈ es, 0 ≤ o.reading 0 := forall₂_right hreadings fun _ _ _ ho => ho
  obtain ⟨hc, r, hr, -⟩ := lease_some hlease
  have hgone : ∀ k, idOf sv k ≠ some alice := by
    intro k hk
    have hmem := mem_clients.mpr ⟨k, hk⟩
    rw [hclients] at hmem
    cases hmem
  obtain ⟨d, -, hgrant⟩ := (no_orphan hrun hclk).2 alice hgone "l" r hc hr
  exact ⟨sv, hlease, hclients, d, hgrant⟩

/-- Alice locks, and her connection then takes the name of Bob. -/
theorem no_orphan_renamed : ¬ ∀ es sv, Run (Steps ascii plainConfig) (.start 5) es sv →
    ∀ l r, sv.adaptor.store.allLocks.get? l = some r →
      (sv.adaptor.store.objects r).markFreeAfter ≠ none ∨
        ∃ c k, sv.adaptor.store.locksToClient.get? l = some c ∧ idOf sv k = some c := by
  intro h
  have heval : ((allAt 0 [.connect ⟨"10.0.0.1", 40001⟩, .command 0 bob (words ["CONN", "alice"]),
      .command 0 bob (words ["AQ", "l"]), .command 0 bob (words ["CONN", "bob"])]).foldlM
        (Server.next ascii plainConfig) (.start 5)).map
      (fun sv => (leaseOf sv "l", clients sv)) = some (some ⟨alice, none⟩, [bob]) := by decide +kernel
  obtain ⟨sv, hsv, hfacts⟩ := Option.map_eq_some_iff.mp heval
  obtain ⟨hlease, hclients⟩ := Prod.mk.inj hfacts
  obtain ⟨es, hrun, -⟩ := play_run hsv
  obtain ⟨hc, r, hr, hm⟩ := lease_some hlease
  obtain hmark | ⟨c, k, hc', hk⟩ := h es sv hrun "l" r hr
  · exact hmark hm
  · cases hc.symm.trans hc'
    have hmem := mem_clients.mpr ⟨k, hk⟩
    rw [hclients] at hmem
    exact absurd (List.mem_singleton.mp hmem) (by decide)

end Livelock.Orphan
