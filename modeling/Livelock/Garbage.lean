import Livelock.MaintenancePass

namespace Livelock.Garbage

open Livelock.Lib Livelock.MemoryStorage Livelock.MemoryStorage.InMemoryLockStorage
open Livelock.StorageInvariant Livelock.StorageRun Livelock.StorageTable Livelock.MaintenancePass

/-- The pass is not cut short. -/
def Uncut (s : InMemoryLockStorage) (clk : Clock) (timeoutMs : Time) (shuffle : Shuffle) : Prop :=
  Whole (clk.now + timeoutMs * 1000) (shuffle.order s.clientToLocks.keys) s clk.tick

/-- What has become of a store in a pass between two readings of the clock. -/
structure Collected (s s' : InMemoryLockStorage) (first last : Clock) : Prop where
  gone : ∀ l h, holding s l = some h → (h.info.expired first).1 = true → holding s' l = none
  kept : ∀ l h, holding s l = some h → (h.info.expired last).1 = false → holding s' l = some h
  old : ∀ l h, holding s' l = some h → holding s l = some h
  busy : ∀ c, s'.clientToLocks.get? c ≠ some []
  address : ∀ l h, holding s' l = some h →
    s'.getClientLastAddress h.owner = s.getClientLastAddress h.owner

variable {s s' : InMemoryLockStorage} {gone gone' : List Ref} {done done' : List ClientId}
  {c : ClientId} {l : LockId} {r : Ref} {h : Holding} {clk : Clock}

theorem expired_late (h : Holding) (clk : Clock) : (h.info.expired clk).1 = late clk.now h.info := by
  rw [expired_eq]

theorem holding_swept (hr : s.allLocks.get? l = some r) (done : List ClientId) :
    holding (swept s gone done) l = if r ∈ gone then none else holding s l := by
  by_cases hg : r ∈ gone
  · simp [holding, swept, Dict.get?_filterMap, hr, hg]
  · cases hc : s.locksToClient.get? l with
    | none => simp [holding, swept, Dict.get?_filterMap, hr, hg, hc]
    | some c => simp [holding, swept, Dict.get?_filterMap, hr, hg, hc]

theorem holding_swept_some (hl : holding (swept s gone done) l = some h) :
    ∃ r, s.allLocks.get? l = some r ∧ r ∉ gone ∧ holding s l = some h := by
  cases hr : s.allLocks.get? l with
  | none => simp [holding, swept, Dict.get?_filterMap, hr] at hl
  | some r =>
    rw [holding_swept hr] at hl
    by_cases hg : r ∈ gone
    · rw [if_pos hg] at hl
      cases hl
    · rw [if_neg hg] at hl
      exact ⟨r, rfl, hg, hl⟩

theorem listed_owner (hs : Rep s) (hl : holding s l = some h) (hr : s.allLocks.get? l = some r) :
    r ∈ s.locksOf h.owner :=
  (hs.listed h.owner r).mpr ⟨l, hr, (holding_some hl).1⟩

theorem swept_congr (hs : Rep s) (hgone : ∀ c, ∀ r ∈ s.locksOf c, r ∈ gone ↔ r ∈ gone')
    (hdone : ∀ c, c ∈ done ↔ c ∈ done') : swept s gone done = swept s gone' done' := by
  have hentry : ∀ l r, s.allLocks.get? l = some r → (r ∈ gone ↔ r ∈ gone') := by
    intro l r hr
    obtain ⟨c, hc⟩ := hs.owned hr
    exact hgone c r ((hs.listed c r).mpr ⟨l, hr, hc⟩)
  have hleft : ∀ c, remaining gone (s.locksOf c) = remaining gone' (s.locksOf c) := fun c =>
    remaining_congr (hgone c)
  refine eq_swept rfl rfl rfl ?_ ?_ ?_ ?_
  · simp only [swept]
    refine s.clientToLocks.filterMap_congr fun c locks hc => ?_
    have hof : s.locksOf c = locks := by rw [locksOf, hc, Option.getD_some]
    simp only [hdone, ← hof, hleft]
  · simp only [swept]
    refine s.locksToClient.filterMap_congr fun l c _ => ?_
    have hiff : (∃ r ∈ s.allLocks.get? l, r ∈ gone) ↔ ∃ r ∈ s.allLocks.get? l, r ∈ gone' :=
      exists_congr fun r => and_congr_right fun hr => hentry l r hr
    simp only [hiff]
  · simp only [swept]
    refine s.allLocks.filterMap_congr fun l r hr => ?_
    simp only [hentry l r hr]
  · simp only [swept]
    refine s.clientLastAddress.filterMap_congr fun c address _ => ?_
    simp only [hdone, hleft]

theorem collected_swept (hs : Rep s) {first last : Nat} {reading : Nat → Time}
    (hmono : ∀ m n, m ≤ n → reading m ≤ reading n) (hall : ∀ c, c ∈ s.clientToLocks.keys → c ∈ done)
    (hj : Judged s reading (first + 1) last (done.flatMap s.locksOf) gone) :
    Collected s (swept s gone done) ⟨reading, first⟩ ⟨reading, last⟩ := by
  have hjudged : ∀ l h r, holding s l = some h → s.allLocks.get? l = some r →
      ∃ n, first + 1 ≤ n ∧ n ≤ last ∧ (r ∈ gone ↔ late (reading n) h.info = true) := by
    intro l h r hl hr
    have howner := hall h.owner (owner_listed hs hl)
    obtain ⟨-, r', hr', hinfo⟩ := holding_some hl
    rw [hr, Option.some_inj] at hr'
    subst r'
    rw [← hinfo]
    exact hj.judged r (List.mem_flatMap.mpr ⟨h.owner, howner, listed_owner hs hl hr⟩)
  constructor
  · intro l h hl hexp
    obtain ⟨-, r, hr, -⟩ := holding_some hl
    obtain ⟨n, hn, -, hiff⟩ := hjudged l h r hl hr
    rw [expired_late] at hexp
    rw [holding_swept hr, if_pos (hiff.mpr (late_mono (hmono first n (by omega)) hexp))]
  · intro l h hl hexp
    obtain ⟨-, r, hr, -⟩ := holding_some hl
    obtain ⟨n, -, hn, hiff⟩ := hjudged l h r hl hr
    rw [expired_late] at hexp
    have hkept : r ∉ gone := by
      intro hg
      have hlate := late_mono (hmono n last hn) (hiff.mp hg)
      exact Bool.eq_false_iff.mp hexp hlate
    rw [holding_swept hr, if_neg hkept, hl]
  · intro l h hl
    obtain ⟨_, -, -, hl⟩ := holding_swept_some hl
    exact hl
  · intro c hc
    rw [swept, Dict.get?_filterMap] at hc
    obtain ⟨locks, hlocks, hkept⟩ := Option.bind_eq_some_iff.mp hc
    have hdone : c ∈ done := hall c ((Dict.mem_keys _ c).mpr ⟨locks, hlocks⟩)
    by_cases hempty : remaining gone locks = []
    · rw [if_pos ⟨hdone, hempty⟩] at hkept
      cases hkept
    · rw [if_neg (fun hb => hempty hb.2), Option.some_inj] at hkept
      exact hempty hkept
  · intro l h hl
    obtain ⟨r, hr, hg, hl⟩ := holding_swept_some hl
    have hmem : r ∈ remaining gone (s.locksOf h.owner) :=
      mem_remaining.mpr ⟨listed_owner hs hl hr, hg⟩
    have hbusy : remaining gone (s.locksOf h.owner) ≠ [] := List.ne_nil_of_mem hmem
    rw [getClientLastAddress, clientLastAddress_swept, Dict.get?_filterMap, getClientLastAddress]
    cases s.clientLastAddress.get? h.owner with
    | none => rfl
    | some address => rw [Option.bind_some, if_neg (fun hb => hbusy hb.2)]

theorem spent_pos (s : InMemoryLockStorage) (hc : c ∈ done) : 1 ≤ spent s done := by
  obtain ⟨pre, post, rfl⟩ := List.append_of_mem hc
  simp [spent]
  omega

theorem spent_perm (s : InMemoryLockStorage) (hp : done.Perm done') : spent s done = spent s done' :=
  (hp.map _).sum_nat

/-- A pass that is not cut short, as a whole. -/
theorem maintenance_uncut (hs : Rep s) {timeoutMs : Time} {shuffle : Shuffle}
    (huncut : Uncut s clk timeoutMs shuffle) :
    ∃ gone, s.maintenance clk timeoutMs shuffle =
        .ok (swept s gone (shuffle.order s.clientToLocks.keys),
          (skip clk (spent s s.clientToLocks.keys)).tick) ∧
      Judged s clk.reading (clk.ticks + 1) (clk.ticks + spent s s.clientToLocks.keys)
        ((shuffle.order s.clientToLocks.keys).flatMap s.locksOf) gone := by
  have hperm := shuffle.perm s.clientToLocks.keys
  obtain ⟨s', heq, gone, rfl, -, hsub, hjudged⟩ := sweepClients_whole hs
    (hperm.nodup_iff.mpr s.clientToLocks.nodup) (fun c hc => hperm.mem_iff.mp hc) huncut
  rw [spent_perm s hperm] at heq hjudged
  refine ⟨gone, ?_, hsub, fun r hr => ?_⟩
  · rw [maintenance, heq, Clock.tick, skip, skip, Clock.tick, Nat.add_right_comm]
  · obtain ⟨c, hc, -⟩ := List.mem_flatMap.mp hr
    have hpos := spent_pos s (hperm.mem_iff.mp hc)
    obtain ⟨n, hn, hn', hiff⟩ := hjudged r hr
    have hfirst : clk.ticks + 1 ≤ n := hn
    have hlast : n ≤ clk.ticks + 1 + (spent s s.clientToLocks.keys - 1) := hn'
    exact ⟨n, hfirst, by omega, hiff⟩

/-- A maintenance pass collects exactly the garbage. -/
theorem maintenance_collects (hs : Rep s) (timeoutMs : Time) (shuffle : Shuffle)
    (hmono : Monotone clk.reading) (huncut : Uncut s clk timeoutMs shuffle) :
    ∃ s' n, s.maintenance clk timeoutMs shuffle = .ok (s', (skip clk n).tick) ∧
      Collected s s' clk (skip clk n) ∧
      ((∀ i, clk.ticks ≤ i → i ≤ clk.ticks + n → clk.reading i = clk.now) →
        ∀ shuffle', Uncut s clk timeoutMs shuffle' →
          s.maintenance clk timeoutMs shuffle' = .ok (s', (skip clk n).tick)) := by
  obtain ⟨gone, heq, hj⟩ := maintenance_uncut hs huncut
  refine ⟨_, _, heq, ?_, fun hstands shuffle' huncut' => ?_⟩
  · refine collected_swept hs (fun m n hmn => hmono hmn) (fun c hc => ?_) hj
    exact (shuffle.perm _).mem_iff.mpr hc
  · obtain ⟨gone', heq', hj'⟩ := maintenance_uncut hs huncut'
    have hsame : ∀ c, c ∈ shuffle'.order s.clientToLocks.keys ↔ c ∈ shuffle.order s.clientToLocks.keys :=
      fun c => (shuffle'.perm _).mem_iff.trans (shuffle.perm _).mem_iff.symm
    have hnow : ∀ (gone : List Ref) (order : List ClientId), order.Perm s.clientToLocks.keys →
        Judged s clk.reading (clk.ticks + 1) (clk.ticks + spent s s.clientToLocks.keys)
          (order.flatMap s.locksOf) gone →
        ∀ c, ∀ r ∈ s.locksOf c, r ∈ gone ↔ late clk.now (s.objects r) = true := by
      intro gone order hperm hj c r hr
      have hkey : c ∈ s.clientToLocks.keys := by
        rw [Dict.mem_keys]
        cases hk : s.clientToLocks.get? c with
        | none => simp [locksOf, hk] at hr
        | some locks => exact ⟨locks, rfl⟩
      obtain ⟨n, hn, hn', hiff⟩ :=
        hj.judged r (List.mem_flatMap.mpr ⟨c, hperm.mem_iff.mpr hkey, hr⟩)
      rwa [hstands n (by omega) hn'] at hiff
    rw [heq']
    congr 2
    refine swept_congr hs (fun c r hr => ?_) hsame
    rw [hnow gone' _ (shuffle'.perm _) hj' c r hr, hnow gone _ (shuffle.perm _) hj c r hr]

theorem uncut_of_bound (hs : Rep s) {timeoutMs : Time} (shuffle : Shuffle)
    (hbound : ∀ n, clk.reading n ≤ clk.now + timeoutMs * 1000) : Uncut s clk timeoutMs shuffle := by
  intro done p c rest s' clk' hrun hleft hbody _
  have hperm := shuffle.perm s.clientToLocks.keys
  obtain ⟨s'', heq, -⟩ := run_next hs (hperm.nodup_iff.mpr s.clientToLocks.nodup)
    (fun c hc => hperm.mem_iff.mp hc) hrun hleft
  rw [heq] at hbody
  obtain ⟨rfl, rfl⟩ := Prod.mk.inj (Except.ok.inj hbody)
  exact hbound _

def leftovers : InMemoryLockStorage :=
  let clk : Clock := ⟨fun _ => 1, 0⟩
  ((((empty 5).createLock clk alice "l").createLock clk bob "m").releaseAll clk alice none).1

theorem leftovers_rep : Rep leftovers := by
  have h := rep_createLock (rep_empty 5) ⟨fun _ => 1, 0⟩ alice (l := "l") rfl
  exact rep_releaseAll (rep_createLock h ⟨fun _ => 1, 0⟩ bob (by decide)) _ alice none

theorem maintenance_collects_leftovers :
    ∃ s' n, leftovers.maintenance ⟨fun _ => 6, 0⟩ 1 .same = .ok (s', (skip ⟨fun _ => 6, 0⟩ n).tick) ∧
      holding s' "l" = none ∧ holding s' "m" = some ⟨bob, { id := "m", time := 1 }⟩ := by
  have hbound : (6 : Time) ≤ 6 + 1 * 1000 := by decide +kernel
  have huncut : Uncut leftovers ⟨fun _ => 6, 0⟩ 1 .same :=
    uncut_of_bound leftovers_rep .same fun _ => hbound
  obtain ⟨s', n, heq, hcollected, -⟩ :=
    maintenance_collects leftovers_rep 1 .same monotone_const huncut
  refine ⟨s', n, heq, ?_, ?_⟩
  · exact hcollected.gone "l" ⟨alice, { id := "l", time := 1, markFreeAfter := some 6 }⟩
      (by decide +kernel) (by decide +kernel)
  · exact hcollected.kept "m" ⟨bob, { id := "m", time := 1 }⟩ (by decide +kernel) rfl

end Livelock.Garbage
