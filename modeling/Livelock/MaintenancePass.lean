import Livelock.StorageTable
import Livelock.Lib.Run
import Mathlib.Algebra.GroupWithZero.Nat

namespace Livelock.MaintenancePass

open Livelock.Lib Livelock.MemoryStorage Livelock.MemoryStorage.InMemoryLockStorage
open Livelock.StorageInvariant Livelock.StorageTable

def remaining (gone locks : List Ref) : List Ref := locks.filter fun r => decide (r ∉ gone)

/-- What a pass leaves that has processed the clients of `done` and removed
the entries of `gone` on its way. -/
def swept (s : InMemoryLockStorage) (gone : List Ref) (done : List ClientId) : InMemoryLockStorage :=
  { s with
    clientToLocks := s.clientToLocks.filterMap fun c locks =>
      if c ∈ done ∧ remaining gone locks = [] then none else some (remaining gone locks)
    locksToClient := s.locksToClient.filterMap fun l c =>
      if ∃ r ∈ s.allLocks.get? l, r ∈ gone then none else some c
    allLocks := s.allLocks.filterMap fun _ r => if r ∈ gone then none else some r
    clientLastAddress := s.clientLastAddress.filterMap fun c address =>
      if c ∈ done ∧ remaining gone (s.locksOf c) = [] then none else some address }

variable {s s' : InMemoryLockStorage} {gone gone' locks : List Ref} {done done' : List ClientId}
  {c : ClientId} {l : LockId} {r : Ref} {clk clk' : Clock}

theorem eq_swept (htimeout : s'.releaseAllTimeout = s.releaseAllTimeout)
    (hobjects : s'.objects = s.objects) (hnext : s'.nextRef = s.nextRef)
    (hlocks : s'.clientToLocks = s.clientToLocks.filterMap fun c locks =>
      if c ∈ done ∧ remaining gone locks = [] then none else some (remaining gone locks))
    (howners : s'.locksToClient = s.locksToClient.filterMap fun l c =>
      if ∃ r ∈ s.allLocks.get? l, r ∈ gone then none else some c)
    (hall : s'.allLocks = s.allLocks.filterMap fun _ r => if r ∈ gone then none else some r)
    (haddress : s'.clientLastAddress = s.clientLastAddress.filterMap fun c address =>
      if c ∈ done ∧ remaining gone (s.locksOf c) = [] then none else some address) :
    s' = swept s gone done := by
  cases s'
  subst htimeout hobjects hnext hlocks howners hall haddress
  rfl

@[simp] theorem mem_remaining : r ∈ remaining gone locks ↔ r ∈ locks ∧ r ∉ gone := by
  simp [remaining]

theorem remaining_same (h : ∀ r ∈ locks, r ∉ gone) : remaining gone locks = locks :=
  List.filter_eq_self.mpr fun r hr => decide_eq_true (h r hr)

theorem remaining_remaining (gone gone' locks : List Ref) :
    remaining gone' (remaining gone locks) = remaining (gone ++ gone') locks := by
  rw [remaining, remaining, List.filter_filter]
  refine List.filter_congr fun r _ => ?_
  by_cases hr : r ∈ gone <;> simp [hr]

theorem remaining_congr (h : ∀ r ∈ locks, r ∈ gone ↔ r ∈ gone') :
    remaining gone locks = remaining gone' locks :=
  List.filter_congr fun r hr => by simp [h r hr]

theorem locksOf_swept (s : InMemoryLockStorage) (gone : List Ref) (done : List ClientId) (c : ClientId) :
    (swept s gone done).locksOf c = remaining gone (s.locksOf c) := by
  rw [locksOf, locksOf, swept, Dict.get?_filterMap]
  cases s.clientToLocks.get? c with
  | none => rfl
  | some locks =>
    by_cases h : c ∈ done ∧ remaining gone locks = []
    · simp [h.1, h.2]
    · simp [h]

theorem clientLastAddress_swept (s : InMemoryLockStorage) (gone : List Ref) (done : List ClientId) :
    (swept s gone done).clientLastAddress = s.clientLastAddress.filterMap fun c address =>
      if c ∈ done ∧ remaining gone (s.locksOf c) = [] then none else some address :=
  rfl

theorem swept_nil (s : InMemoryLockStorage) : swept s [] [] = s := by
  have hnone : ∀ locks : List Ref, remaining [] locks = locks := fun locks =>
    remaining_same fun r _ => List.not_mem_nil
  refine (eq_swept rfl rfl rfl ?_ ?_ ?_ ?_).symm
  · exact (s.clientToLocks.filterMap_some (by simp [hnone])).symm
  · exact (s.locksToClient.filterMap_some (by simp)).symm
  · exact (s.allLocks.filterMap_some (by simp)).symm
  · exact (s.clientLastAddress.filterMap_some (by simp)).symm

/-- Two parts of a pass make one, when the second removes nothing of the
clients that the first has processed. -/
theorem swept_swept (s : InMemoryLockStorage) (hdone : ∀ c ∈ done, ∀ r ∈ s.locksOf c, r ∉ gone') :
    swept (swept s gone done) gone' done' = swept s (gone ++ gone') (done ++ done') := by
  have hidle : ∀ c ∈ done, remaining (gone ++ gone') (s.locksOf c) = remaining gone (s.locksOf c) := by
    intro c hc
    refine remaining_congr fun r hr => ?_
    simp [hdone c hc r hr]
  apply eq_swept
  · rfl
  · rfl
  · rfl
  · simp only [swept, Dict.filterMap_filterMap]
    refine s.clientToLocks.filterMap_congr fun c locks hc => ?_
    have hof : s.locksOf c = locks := by rw [locksOf, hc, Option.getD_some]
    by_cases hd : c ∈ done
    · have hsame := hidle c hd
      rw [hof] at hsame
      by_cases hk : remaining gone locks = []
      · simp [hd, hk, hsame]
      · simp [hd, hk, hsame, remaining_remaining]
    · simp [hd, remaining_remaining]
  · simp only [swept, Dict.filterMap_filterMap, Dict.get?_filterMap]
    refine s.locksToClient.filterMap_congr fun l c _ => ?_
    cases hr : s.allLocks.get? l with
    | none => simp
    | some r => by_cases hg : r ∈ gone <;> simp [hg]
  · simp only [swept, Dict.filterMap_filterMap]
    refine s.allLocks.filterMap_congr fun l r _ => ?_
    by_cases hg : r ∈ gone <;> simp [hg]
  · simp only [clientLastAddress_swept, locksOf_swept, Dict.filterMap_filterMap, remaining_remaining]
    refine s.clientLastAddress.filterMap_congr fun c address _ => ?_
    by_cases hd : c ∈ done
    · by_cases hk : remaining gone (s.locksOf c) = [] <;> simp [hd, hk, hidle c hd]
    · simp [hd]

/-- `_delete_lock` removes one entry. -/
theorem removeEntry_eq (h : Rep s) (hr : s.allLocks.get? l = some r)
    (hc : s.locksToClient.get? l = some c) : removeEntry s l c r = swept s [r] [] := by
  have hmem : r ∈ s.locksOf c := (h.listed c r).mpr ⟨l, hr, hc⟩
  have hlocks : s.clientToLocks.get? c = some (s.locksOf c) := by
    cases hk : s.clientToLocks.get? c with
    | none => simp [locksOf, hk] at hmem
    | some locks => simp [locksOf, hk]
  have hother : ∀ c', c' ≠ c → remaining [r] (s.locksOf c') = s.locksOf c' := by
    intro c' hne
    refine remaining_same fun r' hr' hm => ?_
    rw [List.mem_singleton.mp hm] at hr'
    obtain ⟨l', hl', hc'⟩ := (h.listed c' r).mp hr'
    rw [h.entry_inj hl' hr, hc] at hc'
    exact hne (Option.some_inj.mp hc').symm
  have hself : (s.locksOf c).erase r = remaining [r] (s.locksOf c) := by
    rw [(h.nodup c).erase_eq_filter, remaining]
    refine List.filter_congr fun r' _ => ?_
    simp [bne, BEq.beq]
  have hentry : ∀ l', (∃ r' ∈ s.allLocks.get? l', r' ∈ [r]) ↔ l' = l := by
    intro l'
    constructor
    · rintro ⟨r', hl', hm⟩
      rw [List.mem_singleton.mp hm] at hl'
      exact h.entry_inj hl' hr
    · rintro rfl
      exact ⟨r, hr, List.mem_singleton_self r⟩
  apply eq_swept
  · rfl
  · rfl
  · rfl
  · refine (Dict.set_eq_filterMap _ _ hlocks).trans (s.clientToLocks.filterMap_congr fun c' locks hc' => ?_)
    have hof : s.locksOf c' = locks := by rw [locksOf, hc', Option.getD_some]
    by_cases he : c' = c
    · rw [← hof, he]
      simp [hself]
    · have hsame := hother c' he
      rw [hof] at hsame
      simp [he, hsame]
  · refine (Dict.erase_eq_filterMap _ l).trans (s.locksToClient.filterMap_congr fun l' c' _ => ?_)
    simp only [hentry]
  · refine (Dict.erase_eq_filterMap _ l).trans (s.allLocks.filterMap_congr fun l' r' hl' => ?_)
    have hiff : l' = l ↔ r' ∈ [r] := by
      rw [← hentry l']
      constructor
      · rintro ⟨r'', hr'', hm⟩
        rwa [Option.some_inj.mp (hl'.symm.trans hr'')]
      · intro hm
        exact ⟨r', hl', hm⟩
    simp only [hiff]
  · rw [removeEntry, Dict.filterMap_some]
    simp

theorem mem_keys_swept (hc : c ∈ s.clientToLocks.keys) (gone : List Ref) (hd : c ∉ done) :
    c ∈ (swept s gone done).clientToLocks.keys := by
  obtain ⟨locks, hlocks⟩ := (Dict.mem_keys _ c).mp hc
  refine (Dict.mem_keys _ c).mpr ⟨remaining gone locks, ?_⟩
  rw [swept, Dict.get?_filterMap, hlocks, Option.bind_some, if_neg (fun h => hd h.1)]

theorem forgetIdle_eq (hc : c ∈ s.clientToLocks.keys) : s.forgetIdle c = swept s [] [c] := by
  have hnone : ∀ locks : List Ref, remaining [] locks = locks := fun locks =>
    remaining_same fun r _ => List.not_mem_nil
  have hsame : ∀ c' locks', s.clientToLocks.get? c' = some locks' → c' = c → locks' = s.locksOf c := by
    intro c' locks' hc' he
    rw [← he, locksOf, hc', Option.getD_some]
  unfold forgetIdle
  split
  · next hidle =>
    refine eq_swept rfl rfl rfl ?_ ?_ ?_ ?_
    · refine (Dict.erase_eq_filterMap _ c).trans (s.clientToLocks.filterMap_congr fun c' locks hc' => ?_)
      by_cases he : c' = c
      · simp [hnone, he, hsame c' locks hc' he, hidle]
      · simp [hnone, he]
    · exact (s.locksToClient.filterMap_some (by simp)).symm
    · exact (s.allLocks.filterMap_some (by simp)).symm
    · refine (Dict.erase_eq_filterMap _ c).trans (s.clientLastAddress.filterMap_congr fun c' address _ => ?_)
      by_cases he : c' = c
      · simp [hnone, he, hidle]
      · simp [he]
  · next hbusy =>
    rw [touch_same hc]
    refine eq_swept rfl rfl rfl ?_ ?_ ?_ ?_
    · refine (s.clientToLocks.filterMap_some fun c' locks hc' => ?_).symm
      by_cases he : c' = c
      · simp [hnone, he, hsame c' locks hc' he, hbusy]
      · simp [hnone, he]
    · exact (s.locksToClient.filterMap_some (by simp)).symm
    · exact (s.allLocks.filterMap_some (by simp)).symm
    · refine (s.clientLastAddress.filterMap_some fun c' address _ => ?_).symm
      by_cases he : c' = c
      · simp [hnone, he, hbusy]
      · simp [he]

def timed (lock : MemoryLockInfo) : Bool :=
  match lock.markFreeAfter with
  | none => false
  | some mark => decide (mark ≠ 0)

def skip (clk : Clock) (n : Nat) : Clock := { clk with ticks := clk.ticks + n }

@[simp] theorem skip_ticks (clk : Clock) (n : Nat) : (skip clk n).ticks = clk.ticks + n := rfl

theorem skip_now (clk : Clock) (n : Nat) : (skip clk n).now = clk.reading (clk.ticks + n) := rfl

@[simp] theorem skip_skip (clk : Clock) (m n : Nat) : skip (skip clk m) n = skip clk (m + n) := by
  simp [skip, Nat.add_assoc]

@[simp] theorem tick_skip (clk : Clock) (n : Nat) : (skip clk n).tick = skip clk (n + 1) := rfl

theorem expired_eq (lock : MemoryLockInfo) (clk : Clock) :
    lock.expired clk = (late clk.now lock, skip clk (if timed lock then 1 else 0)) := by
  cases hm : lock.markFreeAfter with
  | none => simp [MemoryLockInfo.expired, late, timed, skip, hm]
  | some mark =>
    by_cases hz : mark = 0
    · simp [MemoryLockInfo.expired, late, timed, skip, hm, hz]
    · simp [MemoryLockInfo.expired, late, timed, skip, Clock.tick, hm, hz]

def readings (s : InMemoryLockStorage) (locks : List Ref) : Nat :=
  locks.countP fun r => timed (s.objects r)

/-- The entries of `gone` are those of `locks` that were found late, each at
a reading of its own between two places of the clock. -/
structure Judged (s : InMemoryLockStorage) (reading : Nat → Time) (first last : Nat)
    (locks gone : List Ref) : Prop where
  sub : ∀ r ∈ gone, r ∈ locks
  judged : ∀ r ∈ locks, ∃ n, first ≤ n ∧ n ≤ last ∧
    (r ∈ gone ↔ late (reading n) (s.objects r) = true)

theorem sweepLocks_eq (locks : List Ref) (h : Rep s) (clk : Clock) (hlocks : Entries s locks) :
    ∃ gone, sweepLocks locks s clk = .ok (swept s gone [], skip clk (readings s locks)) ∧
      Rep (swept s gone []) ∧
      Judged s clk.reading clk.ticks (clk.ticks + readings s locks) locks gone := by
  induction locks generalizing s clk with
  | nil =>
    refine ⟨[], ?_, ?_, by simp, by simp⟩
    · rw [swept_nil]
      rfl
    · rw [swept_nil]
      exact h
  | cons r locks ih =>
    obtain ⟨l, hr⟩ := hlocks.2 r (.head _)
    obtain ⟨c, hc⟩ := h.owned hr
    have hnot : r ∉ locks := (List.nodup_cons.mp hlocks.1).1
    have hcount : readings s (r :: locks) = (if timed (s.objects r) then 1 else 0) + readings s locks := by
      rw [readings, List.countP_cons, Nat.add_comm, readings]
    cases hlate : late clk.now (s.objects r) with
    | true =>
      have hrep := rep_removeEntry h hr hc
      have hent := entries_removeEntry (c := c) hlocks hr
      rw [removeEntry_eq h hr hc] at hrep hent
      obtain ⟨gone, heq, hrep', hsub, hjudged⟩ :=
        ih hrep (skip clk (if timed (s.objects r) then 1 else 0)) hent
      have hmerge : swept (swept s [r] []) gone [] = swept s (r :: gone) [] :=
        swept_swept s (by simp)
      rw [hmerge] at heq hrep'
      refine ⟨r :: gone, ?_, hrep', ?_, ?_⟩
      · simp only [sweepLocks, expired_eq, hlate, if_true, h.entryId l r hr, deleteLock_eq h hr hc,
          removeEntry_eq h hr hc, hcount, ← skip_skip]
        exact heq
      · intro r' hr'
        obtain rfl | hr' := List.mem_cons.mp hr'
        · exact .head _
        · exact .tail _ (hsub r' hr')
      · intro r' hr'
        obtain rfl | hr' := List.mem_cons.mp hr'
        · exact ⟨clk.ticks, le_rfl, Nat.le_add_right _ _, iff_of_true (.head _) hlate⟩
        · obtain ⟨n, hn, hn', hiff⟩ := hjudged r' hr'
          have hne : r' ≠ r := fun he => hnot (he ▸ hr')
          have hfirst : clk.ticks + (if timed (s.objects r) then 1 else 0) ≤ n := hn
          have hlast : n ≤ clk.ticks + (if timed (s.objects r) then 1 else 0) + readings s locks := hn'
          have hsame : r' ∈ gone ↔ late (clk.reading n) (s.objects r') = true := hiff
          exact ⟨n, by omega, by omega, by simpa [hne] using hsame⟩
    | false =>
      obtain ⟨gone, heq, hrep, hsub, hjudged⟩ :=
        ih h (skip clk (if timed (s.objects r) then 1 else 0)) hlocks.tail
      refine ⟨gone, ?_, hrep, fun r' hr' => .tail _ (hsub r' hr'), ?_⟩
      · simp only [sweepLocks, expired_eq, hlate, Bool.false_eq_true, if_false, hcount, ← skip_skip]
        exact heq
      · intro r' hr'
        obtain rfl | hr' := List.mem_cons.mp hr'
        · have hkept : r' ∉ gone := fun hm => hnot (hsub r' hm)
          have hearly : ¬ late clk.now (s.objects r') = true := Bool.eq_false_iff.mp hlate
          exact ⟨clk.ticks, le_rfl, Nat.le_add_right _ _, iff_of_false hkept hearly⟩
        · obtain ⟨n, hn, hn', hiff⟩ := hjudged r' hr'
          have hfirst : clk.ticks + (if timed (s.objects r) then 1 else 0) ≤ n := hn
          have hlast : n ≤ clk.ticks + (if timed (s.objects r) then 1 else 0) + readings s locks := hn'
          exact ⟨n, by omega, by omega, hiff⟩

def sweepClient (s : InMemoryLockStorage) (clk : Clock) (clientId : ClientId) :
    Except Raised (InMemoryLockStorage × Clock) := do
  let (s, clk) ← sweepLocks (s.locksOf clientId) (s.touch clientId) clk
  .ok (s.forgetIdle clientId, clk)

theorem sweepClient_eq (h : Rep s) (hc : c ∈ s.clientToLocks.keys) (clk : Clock) :
    ∃ gone, sweepClient s clk c = .ok (swept s gone [c], skip clk (readings s (s.locksOf c))) ∧
      Rep (swept s gone [c]) ∧
      Judged s clk.reading clk.ticks (clk.ticks + readings s (s.locksOf c)) (s.locksOf c) gone := by
  have hent := entries_locksOf h c
  rw [touch_same hc] at hent
  obtain ⟨gone, heq, hrep, hjudged⟩ := sweepLocks_eq (s.locksOf c) h clk hent
  have hmerge : (swept s gone []).forgetIdle c = swept s gone [c] := by
    rw [forgetIdle_eq (mem_keys_swept hc gone List.not_mem_nil), swept_swept s (by simp),
      List.append_nil, List.nil_append]
  refine ⟨gone, ?_, ?_, hjudged⟩
  · simp only [sweepClient, touch_same hc, heq, bind, Except.bind, hmerge]
  · rw [← hmerge]
    exact rep_forgetIdle hrep c

/-- What the loop of `maintenance` goes on with. -/
structure Pass where
  left : List ClientId
  store : InMemoryLockStorage
  clock : Clock

def Pass.Step (finishAt : Time) (p : Pass) (c : ClientId) (p' : Pass) : Prop :=
  ∃ rest s' clk', p.left = c :: rest ∧ sweepClient p.store p.clock c = .ok (s', clk') ∧
    clk'.now ≤ finishAt ∧ p' = ⟨rest, s', clk'.tick⟩

theorem sweepClients_cons (finishAt : Time) (c : ClientId) (clients : List ClientId)
    (s : InMemoryLockStorage) (clk : Clock) :
    sweepClients finishAt (c :: clients) s clk =
      (sweepClient s clk c).bind fun r =>
        if finishAt < r.2.now then .ok (r.1, r.2.tick) else sweepClients finishAt clients r.1 r.2.tick := by
  simp only [sweepClients, sweepClient, bind, Except.bind]
  cases sweepLocks (s.locksOf c) (s.touch c) clk <;> rfl

def spent (s : InMemoryLockStorage) (clients : List ClientId) : Nat :=
  (clients.map fun c => readings s (s.locksOf c) + 1).sum

theorem spent_concat (s : InMemoryLockStorage) (done : List ClientId) (c : ClientId) :
    spent s (done ++ [c]) = spent s done + (readings s (s.locksOf c) + 1) := by
  simp [spent]

/-- The clients of `done` have been processed, with `n` readings of the clock. -/
def Processed (s : InMemoryLockStorage) (clk : Clock) (done : List ClientId) (n : Nat)
    (s' : InMemoryLockStorage) : Prop :=
  ∃ gone, s' = swept s gone done ∧ Rep s' ∧
    Judged s clk.reading clk.ticks (clk.ticks + n) (done.flatMap s.locksOf) gone

theorem processed_nil (h : Rep s) (clk : Clock) : Processed s clk [] 0 s :=
  ⟨[], (swept_nil s).symm, h, by simp, by simp⟩

theorem listed_once {c' : ClientId} (h : Rep s) (hr : r ∈ s.locksOf c) (hr' : r ∈ s.locksOf c') :
    c = c' := by
  obtain ⟨l, hl, hc⟩ := (h.listed c r).mp hr
  obtain ⟨l', hl', hc'⟩ := (h.listed c' r).mp hr'
  rw [h.entry_inj hl' hl, hc] at hc'
  exact Option.some_inj.mp hc'

theorem Processed.mono {n m : Nat} (hp : Processed s clk done n s') (hle : n ≤ m) :
    Processed s clk done m s' := by
  obtain ⟨gone, heq, hrep, hsub, hjudged⟩ := hp
  refine ⟨gone, heq, hrep, hsub, fun r hr => ?_⟩
  obtain ⟨k, hk, hk', hiff⟩ := hjudged r hr
  exact ⟨k, hk, by omega, hiff⟩

theorem sweepClient_processed {n : Nat} (h : Rep s) (hp : Processed s clk done n s')
    (hc : c ∈ s.clientToLocks.keys) (hnew : c ∉ done) :
    ∃ s'', sweepClient s' (skip clk n) c =
        .ok (s'', skip clk (n + readings s (s.locksOf c))) ∧
      Processed s clk (done ++ [c]) (n + readings s (s.locksOf c)) s'' := by
  obtain ⟨gone, rfl, hrep, hsub, hjudged⟩ := hp
  have hapart : ∀ c' ∈ done, ∀ r ∈ s.locksOf c', r ∉ s.locksOf c := by
    intro c' hc' r hr hr'
    exact hnew (listed_once h hr' hr ▸ hc')
  have hof : (swept s gone done).locksOf c = s.locksOf c := by
    rw [locksOf_swept]
    refine remaining_same fun r hr hg => ?_
    obtain ⟨c', hc', hr'⟩ := List.mem_flatMap.mp (hsub r hg)
    exact hapart c' hc' r hr' hr
  obtain ⟨gone', heq, hrep', hsub', hjudged'⟩ :=
    sweepClient_eq hrep (mem_keys_swept hc gone hnew) (skip clk n)
  rw [hof] at heq hsub' hjudged'
  have hmerge : swept (swept s gone done) gone' [c] = swept s (gone ++ gone') (done ++ [c]) :=
    swept_swept s fun c' hc' r hr hg => hapart c' hc' r hr (hsub' r hg)
  have hread : readings (swept s gone done) (s.locksOf c) = readings s (s.locksOf c) := rfl
  rw [hread, hmerge, skip_skip] at heq
  rw [hmerge] at hrep'
  refine ⟨_, heq, gone ++ gone', rfl, hrep', ?_, ?_⟩
  · intro r hr
    rw [List.flatMap_append, List.mem_append]
    obtain hr | hr := List.mem_append.mp hr
    · exact .inl (hsub r hr)
    · exact .inr (by simpa using hsub' r hr)
  · intro r hr
    rw [List.flatMap_append, List.mem_append, List.flatMap_singleton] at hr
    obtain hr | hr := hr
    · obtain ⟨k, hk, hk', hiff⟩ := hjudged r hr
      obtain ⟨c', hc', hr'⟩ := List.mem_flatMap.mp hr
      have hother : r ∉ gone' := fun hg => hapart c' hc' r hr' (hsub' r hg)
      exact ⟨k, hk, by omega, by simpa [hother] using hiff⟩
    · obtain ⟨k, hk, hk', hiff⟩ := hjudged' r hr
      have hother : r ∉ gone := by
        intro hg
        obtain ⟨c', hc', hr'⟩ := List.mem_flatMap.mp (hsub r hg)
        exact hapart c' hc' r hr' hr
      have hfirst : clk.ticks + n ≤ k := hk
      have hlast : k ≤ clk.ticks + n + readings s (s.locksOf c) := by rwa [hread] at hk'
      have hsame : r ∈ gone' ↔ late (clk.reading k) (s.objects r) = true := hiff
      exact ⟨k, by omega, by omega, by simpa [hother] using hsame⟩

variable {finishAt : Time} {clients : List ClientId} {p : Pass}

theorem next_new {rest : List ClientId} (hnodup : clients.Nodup) (hsplit : clients = done ++ c :: rest) :
    c ∉ done := by
  rw [hsplit] at hnodup
  exact fun hd => (List.disjoint_of_nodup_append hnodup) hd (.head _)

/-- What the loop has done when it gets to a client. -/
theorem run_processed (h : Rep s) (hnodup : clients.Nodup)
    (hkeys : ∀ c ∈ clients, c ∈ s.clientToLocks.keys)
    (hrun : Run (Pass.Step finishAt) ⟨clients, s, clk⟩ done p) :
    clients = done ++ p.left ∧ p.clock = skip clk (spent s done) ∧
      Processed s clk done (spent s done - 1) p.store ∧
      sweepClients finishAt clients s clk = sweepClients finishAt p.left p.store p.clock := by
  induction hrun with
  | nil => exact ⟨rfl, rfl, processed_nil h clk, rfl⟩
  | @snoc done c p p' _ hstep ih =>
    obtain ⟨hsplit, hclock, hproc, hloop⟩ := ih
    obtain ⟨rest, s', clk', hleft, hbody, htime, rfl⟩ := hstep
    rw [hleft] at hsplit hloop
    have hmem : c ∈ clients := by simp [hsplit]
    obtain ⟨s'', heq, hproc'⟩ := sweepClient_processed h (hproc.mono (Nat.sub_le _ 1)) (hkeys c hmem)
      (next_new hnodup hsplit)
    rw [hclock, heq] at hbody
    obtain ⟨rfl, rfl⟩ := Prod.mk.inj (Except.ok.inj hbody)
    refine ⟨by simp [hsplit], ?_, ?_, ?_⟩
    · rw [tick_skip, spent_concat, Nat.add_assoc]
    · rw [spent_concat]
      exact hproc'
    · rw [hloop, sweepClients_cons, hclock, heq]
      exact if_neg (not_lt.mpr htime)

theorem run_next (h : Rep s) (hnodup : clients.Nodup) (hkeys : ∀ c ∈ clients, c ∈ s.clientToLocks.keys)
    (hrun : Run (Pass.Step finishAt) ⟨clients, s, clk⟩ done p) {rest : List ClientId}
    (hleft : p.left = c :: rest) :
    ∃ s', sweepClient p.store p.clock c =
        .ok (s', skip clk (spent s done + readings s (s.locksOf c))) ∧
      Processed s clk (done ++ [c]) (spent s done + readings s (s.locksOf c)) s' := by
  obtain ⟨hsplit, hclock, hproc, -⟩ := run_processed h hnodup hkeys hrun
  rw [hleft] at hsplit
  rw [hclock]
  exact sweepClient_processed h (hproc.mono (Nat.sub_le _ 1)) (hkeys c (by simp [hsplit]))
    (next_new hnodup hsplit)

/-- No look at the time ends the pass while clients are left. -/
def Whole (finishAt : Time) (clients : List ClientId) (s : InMemoryLockStorage) (clk : Clock) : Prop :=
  ∀ done p c rest s' clk', Run (Pass.Step finishAt) ⟨clients, s, clk⟩ done p → p.left = c :: rest →
    sweepClient p.store p.clock c = .ok (s', clk') → rest ≠ [] → clk'.now ≤ finishAt

theorem sweepClients_whole (h : Rep s) (hnodup : clients.Nodup)
    (hkeys : ∀ c ∈ clients, c ∈ s.clientToLocks.keys) (hwhole : Whole finishAt clients s clk) :
    ∃ s', sweepClients finishAt clients s clk = .ok (s', skip clk (spent s clients)) ∧
      Processed s clk clients (spent s clients - 1) s' := by
  have hrest : ∀ left done p, Run (Pass.Step finishAt) ⟨clients, s, clk⟩ done p → p.left = left →
      ∃ s', sweepClients finishAt left p.store p.clock = .ok (s', skip clk (spent s clients)) ∧
        Processed s clk clients (spent s clients - 1) s' := by
    intro left
    induction left with
    | nil =>
      intro done p hrun hleft
      obtain ⟨hsplit, hclock, hproc, -⟩ := run_processed h hnodup hkeys hrun
      rw [hleft, List.append_nil] at hsplit
      subst hsplit
      exact ⟨p.store, by rw [sweepClients, hclock], hproc⟩
    | cons c rest ih =>
      intro done p hrun hleft
      obtain ⟨hsplit, -⟩ := run_processed h hnodup hkeys hrun
      rw [hleft] at hsplit
      obtain ⟨s', heq, hproc'⟩ := run_next h hnodup hkeys hrun hleft
      rw [sweepClients_cons, heq]
      by_cases htime : finishAt < (skip clk (spent s done + readings s (s.locksOf c))).now
      · have hlast : rest = [] := by
          by_contra hmore
          exact absurd (hwhole done p c rest _ _ hrun hleft heq hmore) (not_le.mpr htime)
        have hall : clients = done ++ [c] := by rw [hsplit, hlast]
        refine ⟨s', ?_, ?_⟩
        · rw [hall, spent_concat]
          exact if_pos htime
        · rw [hall, spent_concat]
          exact hproc'
      · obtain ⟨s'', heq', hproc''⟩ := ih (done ++ [c]) ⟨rest, s', _⟩
          (.snoc hrun ⟨rest, s', _, hleft, heq, not_lt.mp htime, rfl⟩) rfl
        exact ⟨s'', (if_neg htime).trans heq', hproc''⟩
  exact hrest clients [] ⟨clients, s, clk⟩ .nil rfl

end Livelock.MaintenancePass
