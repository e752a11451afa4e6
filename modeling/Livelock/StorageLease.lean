import Livelock.StorageInvariant
import Livelock.Lib.Lease

namespace Livelock.StorageLease

open Livelock.Lib Livelock.MemoryStorage Livelock.MemoryStorage.InMemoryLockStorage
open Livelock.StorageInvariant

/-- What the storage says about one lock: who owns it, and until when if it
has been marked to be freed. -/
def lease (s : InMemoryLockStorage) (l : LockId) : Option (Lease ClientId Time) :=
  match s.locksToClient.get? l, s.allLocks.get? l with
  | some c, some r => some ⟨c, (s.objects r).markFreeAfter⟩
  | _, _ => none

variable {s s' : InMemoryLockStorage} {l l' : LockId} {c a : ClientId} {r : Ref} {m : Option Time}

theorem lease_eq (hc : s.locksToClient.get? l = some c) (hr : s.allLocks.get? l = some r) :
    lease s l = some ⟨c, (s.objects r).markFreeAfter⟩ := by
  rw [lease, hc, hr]

theorem lease_none (h : Rep s) : lease s l = none ↔ s.locksToClient.get? l = none := by
  cases hc : s.locksToClient.get? l with
  | none => simp [lease, hc]
  | some c =>
    obtain ⟨r, hr⟩ := h.entry hc
    simp [lease_eq hc hr]

theorem lease_none_entry (h : Rep s) : lease s l = none ↔ s.allLocks.get? l = none := by
  cases hr : s.allLocks.get? l with
  | none => cases hc : s.locksToClient.get? l <;> simp [lease, hc, hr]
  | some r =>
    obtain ⟨c, hc⟩ := h.owned hr
    simp [lease_eq hc hr]

theorem lease_some (h : lease s l = some ⟨a, m⟩) :
    s.locksToClient.get? l = some a ∧
      ∃ r, s.allLocks.get? l = some r ∧ (s.objects r).markFreeAfter = m := by
  cases hc : s.locksToClient.get? l with
  | none => simp [lease, hc] at h
  | some c =>
    cases hr : s.allLocks.get? l with
    | none => simp [lease, hc, hr] at h
    | some r =>
      rw [lease_eq hc hr, Option.some.injEq, Lease.mk.injEq] at h
      exact ⟨congrArg some h.1, r, rfl, h.2⟩

theorem lease_owner (h : Rep s) : (∃ m, lease s l = some ⟨c, m⟩) ↔ s.locksToClient.get? l = some c := by
  constructor
  · rintro ⟨m, hm⟩
    exact (lease_some hm).1
  · intro hc
    obtain ⟨r, hr⟩ := h.entry hc
    exact ⟨_, lease_eq hc hr⟩

theorem lease_congr (ho : s'.locksToClient = s.locksToClient) (ha : s'.allLocks = s.allLocks)
    (hm : ∀ r, (s'.objects r).markFreeAfter = (s.objects r).markFreeAfter) (l : LockId) :
    lease s' l = lease s l := by
  simp [lease, ho, ha, hm]

theorem lease_removeEntry (s : InMemoryLockStorage) (l l' : LockId) (c : ClientId) (r : Ref) :
    lease (removeEntry s l c r) l' = if l' = l then none else lease s l' := by
  by_cases h : l' = l
  · simp [lease, removeEntry, h]
  · simp [lease, removeEntry, Dict.get?_erase, h]

theorem lease_createLock (h : Rep s) (clk : Clock) (c : ClientId) (l l' : LockId) :
    lease (s.createLock clk c l) l' = if l' = l then some ⟨c, none⟩ else lease s l' := by
  by_cases he : l' = l
  · simp [lease, createLock, he]
  · have hold : ∀ r, s.allLocks.get? l' = some r → r ≠ s.nextRef := fun r hr => (h.older l' r hr).ne
    cases hr : s.allLocks.get? l' with
    | none => simp [lease, createLock, Dict.get?_set, he, hr]
    | some r =>
      cases hc : s.locksToClient.get? l' with
      | none => simp [lease, createLock, Dict.get?_set, he, hc]
      | some c' => simp [lease, createLock, Dict.get?_set, he, hr, hc, hold r hr]

theorem lease_markAll (h : Rep s) (c : ClientId) (m : Option Time) (l : LockId) :
    lease { s.touch c with objects := markAll m ((s.touch c).locksOf c) s.objects } l =
      Lease.stamp c m (lease s l) := by
  cases hc : s.locksToClient.get? l with
  | none => simp [lease, touch, hc, Lease.stamp]
  | some a =>
    obtain ⟨r, hr⟩ := h.entry hc
    have hmem : r ∈ s.locksOf c ↔ a = c := by
      rw [h.listed]
      constructor
      · rintro ⟨l', hr', hc'⟩
        rw [h.entry_inj hr' hr, hc] at hc'
        exact Option.some_inj.mp hc'
      · rintro rfl
        exact ⟨l, hr, hc⟩
    have hmark : lease { s.touch c with objects := markAll m ((s.touch c).locksOf c) s.objects } l =
        some ⟨a, (markAll m ((s.touch c).locksOf c) s.objects r).markFreeAfter⟩ := lease_eq hc hr
    rw [hmark, lease_eq hc hr, markAll_apply, locksOf_touch, Lease.stamp]
    by_cases he : a = c
    · rw [if_pos (hmem.mpr he), if_pos he, he]
    · rw [if_neg (fun hm => he (hmem.mp hm)), if_neg he]

theorem lease_releaseAll (h : Rep s) (clk : Clock) (c : ClientId) (timeout : Option Time) :
    lease (s.releaseAll clk c timeout).1 l =
      Lease.stamp c (some (clk.now + s.graceTime timeout)) (lease s l) :=
  lease_markAll h c _ l

theorem lease_unreleaseAll (h : Rep s) (c : ClientId) :
    lease (s.unreleaseAll c) l = Lease.stamp c none (lease s l) :=
  lease_markAll h c none l

theorem lease_update_object (s : InMemoryLockStorage) (r : Ref) (lock : MemoryLockInfo)
    (hm : lock.markFreeAfter = (s.objects r).markFreeAfter) :
    lease { s with objects := Function.update s.objects r lock } l = lease s l := by
  have hsame : ∀ r', (Function.update s.objects r lock r').markFreeAfter =
      (s.objects r').markFreeAfter := by
    intro r'
    by_cases hr : r' = r
    · subst r'
      simpa using hm
    · simp [hr]
  exact lease_congr (by rfl) (by rfl) hsame l

theorem lease_addSignal (s : InMemoryLockStorage) (l' : LockId) (signal : Signal) :
    lease (s.addSignal l' signal).2 l = lease s l := by
  unfold addSignal
  split
  · rfl
  · exact lease_update_object s _ _ rfl

theorem lease_removeSignal (s : InMemoryLockStorage) (l' : LockId) (signal : Signal) :
    lease (s.removeSignal l' signal).2 l = lease s l := by
  unfold removeSignal
  split
  · rfl
  split
  · rfl
  split
  · exact lease_update_object s _ _ rfl
  · rfl

theorem lease_touch (s : InMemoryLockStorage) (c : ClientId) : lease (s.touch c) l = lease s l :=
  lease_congr rfl rfl (fun _ => rfl) l

theorem lease_forgetIdle (s : InMemoryLockStorage) (c : ClientId) :
    lease (s.forgetIdle c) l = lease s l := by
  unfold forgetIdle
  split
  · exact lease_congr rfl rfl (fun _ => rfl) l
  · exact lease_touch s c

def Overdue (now : Time) (x : Option (Lease ClientId Time)) : Prop :=
  ∃ a d, x = some ⟨a, some d⟩ ∧ d ≠ 0 ∧ d ≤ now

theorem expired_cases (lock : MemoryLockInfo) (clk : Clock) :
    ((∃ d, lock.markFreeAfter = some d ∧ d ≠ 0 ∧ d ≤ clk.now) ∧ lock.expired clk = (true, clk.tick)) ∨
      (¬ (∃ d, lock.markFreeAfter = some d ∧ d ≠ 0 ∧ d ≤ clk.now) ∧
        (lock.expired clk = (false, clk) ∨ lock.expired clk = (false, clk.tick))) := by
  cases hm : lock.markFreeAfter with
  | none => simp [MemoryLockInfo.expired, hm]
  | some d =>
    by_cases hd : d = 0
    · simp [MemoryLockInfo.expired, hm, hd]
    · by_cases hn : d ≤ clk.now <;> simp [MemoryLockInfo.expired, hm, hd, hn]

/-- Between two states only entries whose deadline was read past have gone. -/
structure Clears (s : InMemoryLockStorage) (clk : Clock) (s' : InMemoryLockStorage) (clk' : Clock) :
    Prop where
  reading : clk'.reading = clk.reading
  ticks : clk.ticks ≤ clk'.ticks
  nextRef : s'.nextRef = s.nextRef
  releaseAllTimeout : s'.releaseAllTimeout = s.releaseAllTimeout
  address : ∀ c, s'.getClientLastAddress c = s.getClientLastAddress c ∨ s'.getClientLastAddress c = none
  lease : ∀ l, lease s' l = lease s l ∨ ∃ a d n, lease s l = some ⟨a, some d⟩ ∧ lease s' l = none ∧
    clk.ticks ≤ n ∧ n < clk'.ticks ∧ d ≤ clk.reading n

variable {clk clk' clk'' : Clock} {s'' : InMemoryLockStorage}

theorem Clears.refl (s : InMemoryLockStorage) (clk : Clock) : Clears s clk s clk :=
  ⟨rfl, le_rfl, rfl, rfl, fun _ => .inl rfl, fun _ => .inl rfl⟩

theorem Clears.tick (s : InMemoryLockStorage) (clk : Clock) : Clears s clk s clk.tick :=
  ⟨rfl, Nat.le_succ _, rfl, rfl, fun _ => .inl rfl, fun _ => .inl rfl⟩

theorem Clears.trans (h : Clears s clk s' clk') (h' : Clears s' clk' s'' clk'') :
    Clears s clk s'' clk'' where
  reading := h'.reading.trans h.reading
  ticks := h.ticks.trans h'.ticks
  nextRef := h'.nextRef.trans h.nextRef
  releaseAllTimeout := h'.releaseAllTimeout.trans h.releaseAllTimeout
  address c := by
    obtain hc | hc := h'.address c
    · rw [hc]
      exact h.address c
    · exact .inr hc
  lease l := by
    obtain hl | ⟨a, d, n, hs, hnone, hn, hn', hd⟩ := h'.lease l
    · rw [hl]
      obtain hl' | ⟨a, d, n, hs, hnone, hn, hn', hd⟩ := h.lease l
      · exact .inl hl'
      · exact .inr ⟨a, d, n, hs, hnone, hn, hn'.trans_le h'.ticks, hd⟩
    · obtain hl' | ⟨_, _, _, _, hnone', _⟩ := h.lease l
      · rw [h.reading] at hd
        exact .inr ⟨a, d, n, hl'.symm.trans hs, hnone, h.ticks.trans hn, hn', hd⟩
      · rw [hs] at hnone'
        cases hnone'

theorem clears_removeEntry {d : Time} (hc : s.locksToClient.get? l = some c)
    (hr : s.allLocks.get? l = some r) (hm : (s.objects r).markFreeAfter = some d)
    (hd : d ≤ clk.now) : Clears s clk (removeEntry s l c r) clk.tick where
  reading := rfl
  ticks := Nat.le_succ _
  nextRef := rfl
  releaseAllTimeout := rfl
  address _ := .inl rfl
  lease l' := by
    rw [lease_removeEntry]
    by_cases he : l' = l
    · subst l'
      rw [if_pos rfl, lease_eq hc hr, hm]
      exact .inr ⟨c, d, clk.ticks, rfl, rfl, le_rfl, Nat.lt_succ_self _, hd⟩
    · exact .inl (if_neg he)

theorem dropExpired_spec (h : Rep s) (clk : Clock) (l : LockId) :
    ∃ s' clk', s.dropExpired clk l = .ok (s', clk') ∧ Rep s' ∧ Clears s clk s' clk' ∧
      ((Overdue clk.now (lease s l) ∧ lease s' l = none ∧ clk' = clk.tick ∧
          ∀ l', l' ≠ l → lease s' l' = lease s l') ∨
        (¬ Overdue clk.now (lease s l) ∧ s' = s ∧ (clk' = clk ∨ clk' = clk.tick))) := by
  cases hr : s.allLocks.get? l with
  | none =>
    have hl : lease s l = none := (lease_none_entry h).mpr hr
    refine ⟨s, clk, by simp [dropExpired, hr], h, Clears.refl s clk, .inr ⟨?_, rfl, .inl rfl⟩⟩
    rw [hl]
    rintro ⟨_, _, ho, -⟩
    cases ho
  | some r =>
    obtain ⟨c, hc⟩ := h.owned hr
    have hl := lease_eq hc hr
    obtain ⟨⟨d, hm, hd, hn⟩, he⟩ | ⟨hno, he⟩ := expired_cases (s.objects r) clk
    · refine ⟨removeEntry s l c r, clk.tick, ?_, rep_removeEntry h hr hc,
        clears_removeEntry hc hr hm hn, .inl ⟨⟨c, d, by rw [hl, hm], hd, hn⟩, ?_, rfl, ?_⟩⟩
      · simp only [dropExpired, hr, he, if_true, deleteLock_eq h hr hc]
        rfl
      · rw [lease_removeEntry, if_pos rfl]
      · intro l' hne
        rw [lease_removeEntry, if_neg hne]
    · have hov : ¬ Overdue clk.now (lease s l) := by
        rw [hl]
        rintro ⟨_, d, ho, hd, hn⟩
        exact hno ⟨d, congrArg Lease.deadline (Option.some_inj.mp ho), hd, hn⟩
      obtain he | he := he
      · exact ⟨s, clk, by simp [dropExpired, hr, he], h, Clears.refl s clk,
          .inr ⟨hov, rfl, .inl rfl⟩⟩
      · exact ⟨s, clk.tick, by simp [dropExpired, hr, he], h, Clears.tick s clk,
          .inr ⟨hov, rfl, .inr rfl⟩⟩

theorem sweepLocks_spec (locks : List Ref) (h : Rep s) (clk : Clock) (hlocks : Entries s locks) :
    ∃ s' clk', sweepLocks locks s clk = .ok (s', clk') ∧ Rep s' ∧ Clears s clk s' clk' := by
  induction locks generalizing s clk with
  | nil => exact ⟨s, clk, rfl, h, Clears.refl s clk⟩
  | cons r locks ih =>
    obtain ⟨l, hr⟩ := hlocks.2 r (.head _)
    obtain ⟨c, hc⟩ := h.owned hr
    obtain ⟨⟨d, hm, -, hn⟩, he⟩ | ⟨-, he⟩ := expired_cases (s.objects r) clk
    · obtain ⟨s', clk', hs, hrep, hcl⟩ :=
        ih (rep_removeEntry h hr hc) clk.tick (entries_removeEntry hlocks hr)
      refine ⟨s', clk', ?_, hrep, (clears_removeEntry hc hr hm hn).trans hcl⟩
      simp only [sweepLocks, he, if_true, h.entryId l r hr, deleteLock_eq h hr hc]
      exact hs
    · obtain he | he := he
      · obtain ⟨s', clk', hs, hrep, hcl⟩ := ih h clk hlocks.tail
        exact ⟨s', clk', by simpa [sweepLocks, he] using hs, hrep, hcl⟩
      · obtain ⟨s', clk', hs, hrep, hcl⟩ := ih h clk.tick hlocks.tail
        exact ⟨s', clk', by simpa [sweepLocks, he] using hs, hrep, (Clears.tick s clk).trans hcl⟩

theorem clears_touch (s : InMemoryLockStorage) (c : ClientId) (clk : Clock) :
    Clears s clk (s.touch c) clk :=
  ⟨rfl, le_rfl, rfl, rfl, fun _ => .inl rfl, fun _ => .inl (lease_touch s c)⟩

theorem clears_forgetIdle (s : InMemoryLockStorage) (c : ClientId) (clk : Clock) :
    Clears s clk (s.forgetIdle c) clk.tick := by
  refine ⟨rfl, Nat.le_succ _, ?_, ?_, fun c' => ?_, fun _ => .inl (lease_forgetIdle s c)⟩
  · unfold forgetIdle
    split <;> rfl
  · unfold forgetIdle
    split <;> rfl
  · unfold forgetIdle
    split
    · by_cases hc : c' = c
      · exact .inr (by simp [getClientLastAddress, hc])
      · exact .inl (by simp [getClientLastAddress, Dict.get?_erase, hc])
    · exact .inl rfl

theorem sweepClients_spec (finishAt : Time) (clients : List ClientId) (h : Rep s) (clk : Clock) :
    ∃ s' clk', sweepClients finishAt clients s clk = .ok (s', clk') ∧ Rep s' ∧
      Clears s clk s' clk' := by
  induction clients generalizing s clk with
  | nil => exact ⟨s, clk, rfl, h, Clears.refl s clk⟩
  | cons c clients ih =>
    obtain ⟨s₁, clk₁, hs₁, hrep₁, hcl₁⟩ :=
      sweepLocks_spec (s.locksOf c) (rep_touch h c) clk (entries_locksOf h c)
    have hcl := ((clears_touch s c clk).trans hcl₁).trans (clears_forgetIdle s₁ c clk₁)
    by_cases hf : finishAt < clk₁.now
    · refine ⟨s₁.forgetIdle c, clk₁.tick, ?_, rep_forgetIdle hrep₁ c, hcl⟩
      simp only [sweepClients, hs₁]
      exact if_pos hf
    · obtain ⟨s₂, clk₂, hs₂, hrep₂, hcl₂⟩ := ih (rep_forgetIdle hrep₁ c) clk₁.tick
      refine ⟨s₂, clk₂, ?_, hrep₂, hcl.trans hcl₂⟩
      simp only [sweepClients, hs₁]
      exact (if_neg hf).trans hs₂

theorem maintenance_spec (h : Rep s) (clk : Clock) (timeoutMs : Time) (shuffle : Shuffle) :
    ∃ s' clk', s.maintenance clk timeoutMs shuffle = .ok (s', clk') ∧ Rep s' ∧
      Clears s clk s' clk' := by
  obtain ⟨s', clk', hs, hrep, hcl⟩ := sweepClients_spec (clk.now + timeoutMs * 1000)
    (shuffle.order s.clientToLocks.keys) h clk.tick
  exact ⟨s', clk', hs, hrep, (Clears.tick s clk).trans hcl⟩

end Livelock.StorageLease
