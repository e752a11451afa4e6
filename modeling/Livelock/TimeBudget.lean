import Livelock.Garbage

namespace Livelock.TimeBudget

open Livelock.Lib Livelock.MemoryStorage Livelock.MemoryStorage.InMemoryLockStorage
open Livelock.StorageInvariant Livelock.StorageRun Livelock.StorageTable Livelock.MaintenancePass
open Livelock.Garbage

/-- Everything about a client is as it was. -/
structure Untouched (s s' : InMemoryLockStorage) (c : ClientId) : Prop where
  locks : s'.clientToLocks.get? c = s.clientToLocks.get? c
  address : s'.getClientLastAddress c = s.getClientLastAddress c
  holdings : ∀ l h, h.owner = c → (holding s' l = some h ↔ holding s l = some h)

/-- Once a client has been processed and more than `timeoutMs` milliseconds
have passed, the pass returns, and the clients that are left are as they were. -/
def WithinBudget (s : InMemoryLockStorage) (clk : Clock) (timeoutMs : Time) (shuffle : Shuffle) : Prop :=
  ∀ done p c rest s' clk',
    Run (Pass.Step (clk.now + timeoutMs * 1000)) ⟨shuffle.order s.clientToLocks.keys, s, clk.tick⟩ done p →
    p.left = c :: rest → sweepClient p.store p.clock c = .ok (s', clk') →
    clk.now + timeoutMs / 1000 < clk'.now →
    s.maintenance clk timeoutMs shuffle = .ok (s', clk'.tick) ∧ ∀ c' ∈ rest, Untouched s s' c'

/-- The reading by which the pass looks at the time when it has processed
these clients: it has read the clock at the start, for every timed lock of
theirs, and after each of them. -/
def look (s : InMemoryLockStorage) (clk : Clock) (done : List ClientId) : Time :=
  clk.reading (clk.ticks + spent s done)

variable {s s' : InMemoryLockStorage} {done rest : List ClientId} {c : ClientId} {clk : Clock}
  {finishAt : Time} {clients : List ClientId} {p : Pass}

theorem untouched_processed {n : Nat} (hs : Rep s) (hp : Processed s clk done n s') (hnew : c ∉ done) :
    Untouched s s' c := by
  obtain ⟨gone, rfl, -, hj⟩ := hp
  have hkept : ∀ r ∈ s.locksOf c, r ∉ gone := by
    intro r hr hg
    obtain ⟨c', hc', hr'⟩ := List.mem_flatMap.mp (hj.sub r hg)
    exact hnew (listed_once hs hr hr' ▸ hc')
  constructor
  · rw [swept, Dict.get?_filterMap]
    cases hlocks : s.clientToLocks.get? c with
    | none => rfl
    | some locks =>
      have hof : s.locksOf c = locks := by rw [locksOf, hlocks, Option.getD_some]
      rw [Option.bind_some, if_neg (fun hd => hnew hd.1), remaining_same (hof ▸ hkept)]
  · rw [getClientLastAddress, clientLastAddress_swept, Dict.get?_filterMap, getClientLastAddress]
    cases s.clientLastAddress.get? c with
    | none => rfl
    | some address => rw [Option.bind_some, if_neg (fun hd => hnew hd.1)]
  · intro l h ho
    constructor
    · intro hl
      obtain ⟨_, -, -, hl⟩ := holding_swept_some hl
      exact hl
    · intro hl
      obtain ⟨-, r, hr, -⟩ := holding_some hl
      rw [holding_swept hr, if_neg (hkept r (ho ▸ listed_owner hs hl hr)), hl]

theorem spent_append (s : InMemoryLockStorage) (done rest : List ClientId) :
    spent s (done ++ rest) = spent s done + spent s rest := by
  simp [spent]

theorem run_reaches (h : Rep s) (hnodup : clients.Nodup) (hkeys : ∀ c ∈ clients, c ∈ s.clientToLocks.keys)
    (hsplit : clients = done ++ rest)
    (htime : ∀ pre c post, done = pre ++ c :: post →
      (skip clk (spent s pre + readings s (s.locksOf c))).now ≤ finishAt) :
    ∃ p, Run (Pass.Step finishAt) ⟨clients, s, clk⟩ done p ∧ p.left = rest := by
  induction done using List.reverseRecOn generalizing rest with
  | nil => exact ⟨_, .nil, hsplit⟩
  | append_singleton done c ih =>
    have hbefore : clients = done ++ c :: rest := by simp [hsplit]
    obtain ⟨p, hrun, hleft⟩ := ih hbefore fun pre c' post hpre => htime pre c' (post ++ [c]) (by simp [hpre])
    obtain ⟨s', heq, -⟩ := run_next h hnodup hkeys hrun hleft
    exact ⟨_, .snoc hrun ⟨rest, s', _, hleft, heq, htime done c [] rfl, rfl⟩, rfl⟩

theorem sweepClients_ticks (h : Rep s) (hnodup : clients.Nodup)
    (hkeys : ∀ c ∈ clients, c ∈ s.clientToLocks.keys)
    (hrun : Run (Pass.Step finishAt) ⟨clients, s, clk⟩ done p) (hleft : p.left ≠ []) {clk' : Clock}
    (heq : sweepClients finishAt p.left p.store p.clock = .ok (s', clk')) :
    p.clock.ticks < clk'.ticks := by
  cases hl : p.left with
  | nil => exact absurd hl hleft
  | cons c rest =>
    obtain ⟨s₁, hbody, gone, -, hrep, -⟩ := run_next h hnodup hkeys hrun hl
    obtain ⟨-, hclock, -⟩ := run_processed h hnodup hkeys hrun
    rw [hl, sweepClients_cons, hbody] at heq
    rw [hclock, skip_ticks]
    by_cases htime : finishAt < (skip clk (spent s done + readings s (s.locksOf c))).now
    · have hret := Except.ok.inj ((if_pos htime).symm.trans heq)
      rw [← (Prod.mk.inj hret).2, tick_skip, skip_ticks]
      omega
    · obtain ⟨s₂, clk₂, hgo, -, hclears⟩ := StorageLease.sweepClients_spec finishAt rest hrep
        (skip clk (spent s done + readings s (s.locksOf c))).tick
      have hret := Except.ok.inj (hgo.symm.trans ((if_neg htime).symm.trans heq))
      have hle := hclears.ticks
      rw [tick_skip, skip_ticks] at hle
      rw [← (Prod.mk.inj hret).2]
      omega

/-- A pass keeps to its time exactly when no look at the time, with clients
left, falls between `timeoutMs` milliseconds and `timeoutMs` thousand seconds
after the start. -/
theorem time_budget (hs : Rep s) (hmono : Monotone clk.reading) (timeoutMs : Time) (shuffle : Shuffle) :
    WithinBudget s clk timeoutMs shuffle ↔
      ∀ done rest, shuffle.order s.clientToLocks.keys = done ++ rest → done ≠ [] → rest ≠ [] →
        ¬ (clk.now + timeoutMs / 1000 < look s clk done ∧ look s clk done ≤ clk.now + timeoutMs * 1000) := by
  have hperm := shuffle.perm s.clientToLocks.keys
  have hnodup := hperm.nodup_iff.mpr s.clientToLocks.nodup
  have hkeys : ∀ c ∈ shuffle.order s.clientToLocks.keys, c ∈ s.clientToLocks.keys :=
    fun c hc => hperm.mem_iff.mp hc
  have hlook : ∀ done c, (skip clk.tick (spent s done + readings s (s.locksOf c))).now =
      look s clk (done ++ [c]) := by
    intro done c
    have hindex : clk.ticks + 1 + (spent s done + readings s (s.locksOf c)) =
        clk.ticks + spent s (done ++ [c]) := by
      rw [spent_concat]
      omega
    rw [skip_now, look, ← hindex]
    rfl
  constructor
  · rintro hbudget done rest hsplit hdone hrest ⟨hlate, hgoes⟩
    obtain ⟨init, c, rfl⟩ := (List.eq_nil_or_concat done).resolve_left hdone
    rw [List.concat_eq_append] at hsplit hlate hgoes
    -- the looks before this one have not found the time up either
    have htime : ∀ pre c' post, init = pre ++ c' :: post →
        (skip clk.tick (spent s pre + readings s (s.locksOf c'))).now ≤ clk.now + timeoutMs * 1000 := by
      intro pre c' post hpre
      rw [hlook]
      refine (hmono ?_).trans hgoes
      have hspent : spent s (init ++ [c]) = spent s (pre ++ [c']) + spent s (post ++ [c]) := by
        rw [← spent_append, hpre]
        simp
      omega
    have hsplit' : shuffle.order s.clientToLocks.keys = init ++ c :: rest := by simp [hsplit]
    obtain ⟨p, hrun, hleft⟩ := run_reaches hs hnodup hkeys hsplit' htime
    obtain ⟨s', heq, -⟩ := run_next hs hnodup hkeys hrun hleft
    rw [← hlook] at hlate hgoes
    obtain ⟨hret, -⟩ := hbudget init p c rest s' _ hrun hleft heq hlate
    have hrun' := Run.snoc hrun ⟨rest, s', _, hleft, heq, hgoes, rfl⟩
    obtain ⟨-, -, -, hloop⟩ := run_processed hs hnodup hkeys hrun'
    rw [maintenance, hloop] at hret
    exact absurd (sweepClients_ticks hs hnodup hkeys hrun' hrest hret) (lt_irrefl _)
  · intro hcond done p c rest s' clk' hrun hleft hbody hlate
    obtain ⟨hsplit, hclock, -, hloop⟩ := run_processed hs hnodup hkeys hrun
    rw [hleft] at hsplit hloop
    obtain ⟨s'', heq, hproc⟩ := run_next hs hnodup hkeys hrun hleft
    rw [heq] at hbody
    obtain ⟨rfl, rfl⟩ := Prod.mk.inj (Except.ok.inj hbody)
    have hfresh : ∀ c' ∈ rest, c' ∉ done ++ [c] := by
      intro c' hc' hm
      rw [hsplit, ← List.singleton_append, ← List.append_assoc] at hnodup
      exact (List.disjoint_of_nodup_append hnodup) hm hc'
    refine ⟨?_, fun c' hc' => untouched_processed hs hproc (hfresh c' hc')⟩
    rw [maintenance, hloop, sweepClients_cons, heq]
    by_cases htime : clk.now + timeoutMs * 1000 <
        (skip clk.tick (spent s done + readings s (s.locksOf c))).now
    · exact if_pos htime
    · have hlast : rest = [] := by
        by_contra hmore
        have hsplit' : shuffle.order s.clientToLocks.keys = (done ++ [c]) ++ rest := by simp [hsplit]
        refine hcond (done ++ [c]) rest hsplit' (by simp) hmore ?_
        rw [← hlook]
        exact ⟨hlate, not_lt.mp htime⟩
      rw [hlast]
      exact if_neg htime

def twoLocks : InMemoryLockStorage :=
  let clk : Clock := ⟨fun _ => 0, 0⟩
  ((empty 5).createLock clk alice "l").createLock clk bob "m"

theorem twoLocks_rep : Rep twoLocks :=
  rep_createLock (rep_createLock (rep_empty 5) ⟨fun _ => 0, 0⟩ alice (by decide)) ⟨fun _ => 0, 0⟩ bob
    (by decide)

def stalled : Clock := ⟨fun n => if n = 0 then 0 else 1, 0⟩

def overslept : Clock := ⟨fun n => if n = 0 then 0 else 60000, 0⟩

/-- A pass of 50 milliseconds that finds 60000 seconds gone after the first of
two clients returns there. -/
theorem time_budget_two : WithinBudget twoLocks overslept 50 .same ∧
    (twoLocks.maintenance overslept 50 .same).map (fun r => r.2.ticks) = .ok 2 := by
  have hmono : Monotone overslept.reading := by
    intro m n hmn
    by_cases hm : m = 0
    · have hlong : (0 : Time) ≤ 60000 := by decide +kernel
      by_cases hn : n = 0 <;> simp [overslept, hm, hn, hlong]
    · have hn : n ≠ 0 := fun hn => hm (Nat.le_zero.mp (hn ▸ hmn))
      simp [overslept, hm, hn]
  refine ⟨(time_budget twoLocks_rep hmono 50 .same).mpr fun done rest _ hdone _ hlook => ?_,
    by decide +kernel⟩
  obtain ⟨c, hc⟩ := List.exists_mem_of_ne_nil done hdone
  have hlate : look twoLocks overslept done = 60000 := by
    have hpos := spent_pos twoLocks hc
    exact if_neg (by simp only [overslept]; omega)
  rw [hlate] at hlook
  exact absurd hlook.2 (by decide +kernel)

/-- The second of two clients is processed although the whole second went by
before, in a pass that has 50 milliseconds. -/
theorem time_budget_ignored : ¬ WithinBudget twoLocks stalled 50 .same := by
  intro hbudget
  have hrun : Run (Pass.Step (stalled.now + 50 * 1000)) ⟨[alice, bob], twoLocks, stalled.tick⟩ []
    ⟨[alice, bob], twoLocks, stalled.tick⟩ := .nil
  obtain ⟨s', hbody, -⟩ := run_next twoLocks_rep (by decide) (by decide) hrun rfl
  obtain ⟨hret, -⟩ := hbudget [] _ alice [bob] s' _ hrun rfl hbody (by decide +kernel)
  have hticks : (twoLocks.maintenance stalled 50 .same).map (fun r => r.2.ticks) = .ok 3 := by
    decide +kernel
  rw [hret] at hticks
  have hless : stalled.tick.ticks + readings twoLocks (twoLocks.locksOf alice) + 1 = 3 :=
    Except.ok.inj hticks
  exact absurd hless (by decide +kernel)

end Livelock.TimeBudget
