import Livelock.MemoryStorage

namespace Livelock.StorageInvariant

open Livelock.Lib Livelock.MemoryStorage Livelock.MemoryStorage.InMemoryLockStorage

/-- The representation invariant: the dictionaries describe one set of
holdings, and the list of a client refers to exactly the entries it owns. -/
structure Rep (s : InMemoryLockStorage) : Prop where
  sameKeys : ∀ l, (∃ r, s.allLocks.get? l = some r) ↔ ∃ c, s.locksToClient.get? l = some c
  entryId : ∀ l r, s.allLocks.get? l = some r → (s.objects r).id = l
  listed : ∀ c r, r ∈ s.locksOf c ↔ ∃ l, s.allLocks.get? l = some r ∧ s.locksToClient.get? l = some c
  nodup : ∀ c, (s.locksOf c).Nodup
  older : ∀ l r, s.allLocks.get? l = some r → r < s.nextRef

variable {s s' : InMemoryLockStorage}

theorem Rep.of_same (h : Rep s) (hl : ∀ c, s'.locksOf c = s.locksOf c)
    (ho : s'.locksToClient = s.locksToClient) (ha : s'.allLocks = s.allLocks)
    (hid : ∀ r, (s'.objects r).id = (s.objects r).id) (hn : s'.nextRef = s.nextRef) : Rep s' where
  sameKeys l := by rw [ha, ho]; exact h.sameKeys l
  entryId l r hr := by rw [hid]; rw [ha] at hr; exact h.entryId l r hr
  listed c r := by rw [hl, ha, ho]; exact h.listed c r
  nodup c := by rw [hl]; exact h.nodup c
  older l r hr := by rw [hn]; rw [ha] at hr; exact h.older l r hr

theorem Rep.entry_inj (h : Rep s) {l l' : LockId} {r : Ref} (hl : s.allLocks.get? l = some r)
    (hl' : s.allLocks.get? l' = some r) : l = l' :=
  (h.entryId l r hl).symm.trans (h.entryId l' r hl')

theorem rep_empty (T : Time) : Rep (empty T) where
  sameKeys _ := by simp [empty]
  entryId _ _ hr := by simp [empty] at hr
  listed _ _ := by simp [empty, locksOf]
  nodup _ := by simp [empty, locksOf]
  older _ _ hr := by simp [empty] at hr

theorem locksOf_set (s : InMemoryLockStorage) (c c' : ClientId) (locks : List Ref) :
    locksOf { s with clientToLocks := s.clientToLocks.set c locks } c' =
      if c' = c then locks else s.locksOf c' := by
  by_cases h : c' = c
  · simp [locksOf, h]
  · simp [locksOf, Dict.get?_set, h]

@[simp] theorem locksOf_touch (s : InMemoryLockStorage) (c c' : ClientId) :
    (s.touch c).locksOf c' = s.locksOf c' := by
  rw [touch, locksOf_set]
  split
  · next h => rw [h]
  · rfl

theorem touch_same {c : ClientId} (hc : c ∈ s.clientToLocks.keys) : s.touch c = s := by
  obtain ⟨locks, hlocks⟩ := (Dict.mem_keys _ c).mp hc
  have hof : s.locksOf c = locks := by rw [locksOf, hlocks, Option.getD_some]
  rw [touch, hof, Dict.set_same _ hlocks]

theorem rep_touch (h : Rep s) (c : ClientId) : Rep (s.touch c) :=
  h.of_same (locksOf_touch s c) rfl rfl (fun _ => rfl) rfl

def removeEntry (s : InMemoryLockStorage) (l : LockId) (c : ClientId) (r : Ref) :
    InMemoryLockStorage :=
  { s with
    locksToClient := s.locksToClient.erase l
    allLocks := s.allLocks.erase l
    clientToLocks := s.clientToLocks.set c ((s.locksOf c).erase r) }

theorem locksOf_removeEntry (s : InMemoryLockStorage) (l : LockId) (c c' : ClientId) (r : Ref) :
    (removeEntry s l c r).locksOf c' = if c' = c then (s.locksOf c).erase r else s.locksOf c' :=
  locksOf_set s c c' _

theorem rep_removeEntry (h : Rep s) {l : LockId} {c : ClientId} {r : Ref}
    (hl : s.allLocks.get? l = some r) (hc : s.locksToClient.get? l = some c) :
    Rep (removeEntry s l c r) where
  sameKeys l' := by
    by_cases he : l' = l
    · simp [removeEntry, he]
    · simpa [removeEntry, Dict.get?_erase, he] using h.sameKeys l'
  entryId l' r' hr := by
    by_cases he : l' = l
    · simp [removeEntry, he] at hr
    · simp only [removeEntry, Dict.get?_erase, if_neg he] at hr
      exact h.entryId l' r' hr
  listed c' r' := by
    rw [locksOf_removeEntry]
    have hkey : ∀ l', ((removeEntry s l c r).allLocks.get? l' = some r' ∧
        (removeEntry s l c r).locksToClient.get? l' = some c') ↔
        l' ≠ l ∧ s.allLocks.get? l' = some r' ∧ s.locksToClient.get? l' = some c' := by
      intro l'
      by_cases he : l' = l <;> simp [removeEntry, Dict.get?_erase, he]
    simp only [hkey]
    by_cases he : c' = c
    · subst he
      rw [if_pos rfl, (h.nodup c').mem_erase_iff, h.listed]
      constructor
      · rintro ⟨hne, l', hr', hc'⟩
        refine ⟨l', ?_, hr', hc'⟩
        rintro rfl
        exact hne (Option.some_inj.mp (hr'.symm.trans hl))
      · rintro ⟨l', hne, hr', hc'⟩
        refine ⟨?_, l', hr', hc'⟩
        rintro rfl
        exact hne (h.entry_inj hr' hl)
    · rw [if_neg he, h.listed]
      constructor
      · rintro ⟨l', hr', hc'⟩
        refine ⟨l', ?_, hr', hc'⟩
        rintro rfl
        exact he (Option.some_inj.mp (hc'.symm.trans hc))
      · rintro ⟨l', -, hr', hc'⟩
        exact ⟨l', hr', hc'⟩
  nodup c' := by
    rw [locksOf_removeEntry]
    split
    · exact (h.nodup c).erase r
    · exact h.nodup c'
  older l' r' hr := by
    by_cases he : l' = l
    · simp [removeEntry, he] at hr
    · simp only [removeEntry, Dict.get?_erase, if_neg he] at hr
      exact h.older l' r' hr

def Entries (s : InMemoryLockStorage) (locks : List Ref) : Prop :=
  locks.Nodup ∧ ∀ r ∈ locks, ∃ l, s.allLocks.get? l = some r

theorem Entries.tail {r : Ref} {locks : List Ref} (h : Entries s (r :: locks)) : Entries s locks :=
  ⟨h.1.of_cons, fun r' hr' => h.2 r' (.tail _ hr')⟩

theorem entries_locksOf (h : Rep s) (c : ClientId) : Entries (s.touch c) (s.locksOf c) := by
  refine ⟨h.nodup c, fun r hr => ?_⟩
  obtain ⟨l, hl, -⟩ := (h.listed c r).mp hr
  exact ⟨l, hl⟩

theorem entries_removeEntry {l : LockId} {c : ClientId} {r : Ref} {locks : List Ref}
    (h : Entries s (r :: locks)) (hl : s.allLocks.get? l = some r) : Entries (removeEntry s l c r) locks := by
  obtain ⟨hnot, hnodup⟩ := List.nodup_cons.mp h.1
  refine ⟨hnodup, fun r' hr' => ?_⟩
  obtain ⟨l', hl'⟩ := h.2 r' (.tail _ hr')
  have hne : l' ≠ l := by
    rintro rfl
    rw [hl, Option.some_inj] at hl'
    exact hnot (hl' ▸ hr')
  exact ⟨l', by simpa [removeEntry, Dict.get?_erase, hne] using hl'⟩

/-- Under the invariant no `pop` and no `list.remove` of `_delete_lock` raises. -/
theorem deleteLock_eq (h : Rep s) {l : LockId} {c : ClientId} {r : Ref}
    (hl : s.allLocks.get? l = some r) (hc : s.locksToClient.get? l = some c) :
    s.deleteLock l = .ok (removeEntry s l c r) := by
  have hmem : r ∈ s.locksOf c := (h.listed c r).mpr ⟨l, hl, hc⟩
  simp [deleteLock, hl, hc, hmem, removeEntry]

theorem Rep.owned (h : Rep s) {l : LockId} {r : Ref} (hl : s.allLocks.get? l = some r) :
    ∃ c, s.locksToClient.get? l = some c := (h.sameKeys l).mp ⟨r, hl⟩

theorem Rep.entry (h : Rep s) {l : LockId} {c : ClientId} (hc : s.locksToClient.get? l = some c) :
    ∃ r, s.allLocks.get? l = some r := (h.sameKeys l).mpr ⟨c, hc⟩

theorem rep_createLock (h : Rep s) (clk : Clock) (c : ClientId) {l : LockId}
    (hfree : s.locksToClient.get? l = none) : Rep (s.createLock clk c l) := by
  have hall : s.allLocks.get? l = none := by
    cases he : s.allLocks.get? l with
    | none => rfl
    | some r =>
      obtain ⟨c', hc'⟩ := h.owned he
      rw [hfree] at hc'
      cases hc'
  have hlocks : ∀ c', (s.createLock clk c l).locksOf c' =
      if c' = c then s.locksOf c ++ [s.nextRef] else s.locksOf c' := fun c' =>
    locksOf_set s c c' _
  have hold : ∀ c' r, r ∈ s.locksOf c' → r < s.nextRef := by
    intro c' r hr
    obtain ⟨l', hl', -⟩ := (h.listed c' r).mp hr
    exact h.older l' r hl'
  constructor
  · intro l'
    by_cases he : l' = l
    · simp [createLock, he]
    · simpa [createLock, Dict.get?_set, he] using h.sameKeys l'
  · intro l' r hr
    by_cases he : l' = l
    · simp only [createLock, he, Dict.get?_set_self, Option.some.injEq] at hr
      subst r
      simp [createLock, he]
    · simp only [createLock, Dict.get?_set, if_neg he] at hr
      have hne : r ≠ s.nextRef := (h.older l' r hr).ne
      simpa [createLock, hne] using h.entryId l' r hr
  · intro c' r
    rw [hlocks]
    have hkey : ∀ l', ((s.createLock clk c l).allLocks.get? l' = some r ∧
        (s.createLock clk c l).locksToClient.get? l' = some c') ↔
        (l' = l ∧ r = s.nextRef ∧ c' = c) ∨
          (s.allLocks.get? l' = some r ∧ s.locksToClient.get? l' = some c') := by
      intro l'
      by_cases he : l' = l
      · simp [createLock, he, hfree, eq_comm]
      · simp [createLock, Dict.get?_set, he]
    simp only [hkey]
    by_cases he : c' = c
    · subst he
      rw [if_pos rfl, List.mem_append, List.mem_singleton, h.listed]
      constructor
      · rintro (⟨l', hl'⟩ | rfl)
        · exact ⟨l', .inr hl'⟩
        · exact ⟨l, .inl ⟨rfl, rfl, rfl⟩⟩
      · rintro ⟨l', ⟨-, hr, -⟩ | hl'⟩
        · exact .inr hr
        · exact .inl ⟨l', hl'⟩
    · rw [if_neg he, h.listed]
      simp [he]
  · intro c'
    rw [hlocks]
    split
    · have hnew : s.nextRef ∉ s.locksOf c := fun hm => (hold c _ hm).ne rfl
      exact List.nodup_append.mpr ⟨h.nodup c, by simp, fun a ha b hb => by
        rw [List.mem_singleton.mp hb]
        exact fun hab => hnew (hab ▸ ha)⟩
    · exact h.nodup c'
  · intro l' r hr
    by_cases he : l' = l
    · simp only [createLock, he, Dict.get?_set_self, Option.some.injEq] at hr
      subst r
      exact Nat.lt_succ_self _
    · simp only [createLock, Dict.get?_set, if_neg he] at hr
      exact (h.older l' r hr).trans (Nat.lt_succ_self _)

theorem markAll_apply (m : Option Time) (locks : List Ref) (objects : Ref → MemoryLockInfo)
    (r : Ref) : markAll m locks objects r =
      if r ∈ locks then { objects r with markFreeAfter := m } else objects r := by
  induction locks generalizing objects with
  | nil => simp [markAll]
  | cons lock locks ih =>
    have hcons : markAll m (lock :: locks) objects = markAll m locks
        (Function.update objects lock { objects lock with markFreeAfter := m }) := rfl
    rw [hcons, ih]
    by_cases hr : r = lock
    · subst r
      simp
    · simp [hr]

theorem rep_releaseAll (h : Rep s) (clk : Clock) (c : ClientId) (timeout : Option Time) :
    Rep (s.releaseAll clk c timeout).1 := by
  refine h.of_same (locksOf_touch s c) rfl rfl (fun r => ?_) rfl
  simp only [releaseAll, markAll_apply]
  split <;> rfl

theorem rep_unreleaseAll (h : Rep s) (c : ClientId) : Rep (s.unreleaseAll c) := by
  refine h.of_same (locksOf_touch s c) rfl rfl (fun r => ?_) rfl
  simp only [unreleaseAll, markAll_apply]
  split <;> rfl

theorem rep_setClientLastAddress (h : Rep s) (c : ClientId) (a : Address) :
    Rep (s.setClientLastAddress c a) :=
  h.of_same (fun _ => rfl) rfl rfl (fun _ => rfl) rfl

theorem rep_update_object (h : Rep s) (r : Ref) (lock : MemoryLockInfo)
    (hid : lock.id = (s.objects r).id) :
    Rep { s with objects := Function.update s.objects r lock } := by
  refine h.of_same (fun _ => rfl) rfl rfl (fun r' => ?_) rfl
  by_cases hr : r' = r
  · subst r'
    simpa using hid
  · simp [hr]

theorem rep_addSignal (h : Rep s) (l : LockId) (signal : Signal) : Rep (s.addSignal l signal).2 := by
  unfold addSignal
  split
  · exact h
  · exact rep_update_object h _ _ rfl

theorem rep_removeSignal (h : Rep s) (l : LockId) (signal : Signal) :
    Rep (s.removeSignal l signal).2 := by
  unfold removeSignal
  split
  · exact h
  split
  · exact h
  split
  · exact rep_update_object h _ _ rfl
  · exact h

theorem locksOf_forgetIdle (s : InMemoryLockStorage) (c c' : ClientId) :
    (s.forgetIdle c).locksOf c' = s.locksOf c' := by
  unfold forgetIdle
  split
  · next hc =>
    by_cases he : c' = c
    · subst c'
      rw [hc]
      simp [locksOf]
    · simp [locksOf, Dict.get?_erase, he]
  · exact locksOf_touch s c c'

theorem rep_forgetIdle (h : Rep s) (c : ClientId) : Rep (s.forgetIdle c) := by
  have hsame := locksOf_forgetIdle s c
  unfold forgetIdle at hsame ⊢
  split at hsame
  · next hc =>
    rw [if_pos hc]
    exact h.of_same hsame rfl rfl (fun _ => rfl) rfl
  · next hc =>
    rw [if_neg hc]
    exact rep_touch h c

end Livelock.StorageInvariant
