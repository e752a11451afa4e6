import Livelock.StorageRun

namespace Livelock.StorageTable

open Livelock.Lib Livelock.MemoryStorage Livelock.MemoryStorage.InMemoryLockStorage
open Livelock.StorageInvariant Livelock.StorageLease Livelock.StorageRun

/-- What is recorded of a lock that is held. -/
structure Holding where
  owner : ClientId
  info : MemoryLockInfo
deriving DecidableEq

def Holding.marked (h : Holding) (m : Option Time) : Holding :=
  { h with info := { h.info with markFreeAfter := m } }

@[simp] theorem Holding.marked_owner (h : Holding) (m : Option Time) : (h.marked m).owner = h.owner :=
  rfl

@[simp] theorem Holding.marked_time (h : Holding) (m : Option Time) :
    (h.marked m).info.time = h.info.time := rfl

@[simp] theorem Holding.marked_mark (h : Holding) (m : Option Time) :
    (h.marked m).info.markFreeAfter = m := rfl

@[simp] theorem Holding.marked_marked (h : Holding) (m m' : Option Time) :
    (h.marked m).marked m' = h.marked m' := rfl

def late (now : Time) (info : MemoryLockInfo) : Bool :=
  match info.markFreeAfter with
  | none => false
  | some mark => decide (mark ≠ 0) && decide (mark ≤ now)

/-- What the storage is for: a table of who holds which lock. -/
abbrev Table := LockId → Option Holding

namespace Table

def remove (t : Table) (l : LockId) : Table := Function.update t l none

def create (t : Table) (c : ClientId) (l : LockId) (now : Time) : Table :=
  Function.update t l (some ⟨c, { id := l, time := now }⟩)

def modify (t : Table) (l : LockId) (f : MemoryLockInfo → MemoryLockInfo) : Table :=
  Function.update t l ((t l).map fun h => { h with info := f h.info })

def mark (t : Table) (c : ClientId) (m : Option Time) : Table := fun l =>
  (t l).map fun h => if h.owner = c then h.marked m else h

theorem mark_unowned {t : Table} {c : ClientId} {l : LockId} (hl : ∀ h, t l = some h → h.owner ≠ c)
    (m : Option Time) : t.mark c m l = t l := by
  rw [mark]
  cases ht : t l with
  | none => rfl
  | some h => rw [Option.map_some, if_neg (hl h ht)]

/-- The holdings that nobody may take over at `now`. -/
def live (t : Table) (now : Time) : Table := fun l => (t l).filter fun h => !late now h.info

/-- Every holding was checked at some reading of the clock, unless a reading
past `finishAt` ended the pass. -/
def Sweeps (clk clk' : Clock) (finishAt : Time) (t t' : Table) : Prop :=
  ∀ l, (∃ n, clk.ticks ≤ n ∧ n < clk'.ticks ∧ t' l = t.live (clk.reading n) l) ∨
    (t' l = t l ∧ ∃ n, clk.ticks ≤ n ∧ n < clk'.ticks ∧ finishAt < clk.reading n)

/-- The list has each lock that matches and was not late when it was looked at,
once and with its time, and no other. -/
def Lists (fnmatch : String → String → Bool) (pattern : String) (clk clk' : Clock) (t : Table)
    (locks : List (LockId × Time)) : Prop :=
  (locks.map Prod.fst).Nodup ∧ ∀ l, ∃ n, clk.ticks ≤ n ∧ (n < clk'.ticks ∨ n = clk.ticks) ∧ ∀ time,
    (l, time) ∈ locks ↔ fnmatch l pattern = true ∧ ∃ h, t.live (clk.reading n) l = some h ∧ h.info.time = time

/-- The operations of the storage as steps of the table. -/
inductive Step (fnmatch : String → String → Bool) (grace : Option Time → Time) (clk clk' : Clock)
    (t : Table) : Op → Answer → Table → Prop
  | held (c : ClientId) (l : LockId) (reentrant : Bool) (h : Holding) : t.live clk.now l = some h →
      Step fnmatch grace clk clk' t (.acquire c l reentrant)
        (.bool (reentrant && decide (h.owner = c))) t
  | created (c : ClientId) (l : LockId) (reentrant : Bool) (n : Nat) : t.live clk.now l = none →
      clk.ticks ≤ n → n < clk'.ticks →
      Step fnmatch grace clk clk' t (.acquire c l reentrant) (.bool true)
        (t.create c l (clk.reading n))
  | released (c : ClientId) (l : LockId) (h : Holding) : t l = some h → h.owner = c →
      Step fnmatch grace clk clk' t (.release c l) (.bool true) (t.remove l)
  | notOwner (c : ClientId) (l : LockId) : (∀ h, t l = some h → h.owner ≠ c) →
      Step fnmatch grace clk clk' t (.release c l) (.bool false) t
  | releasedAll (c : ClientId) (timeout : Option Time) : clk.ticks < clk'.ticks →
      Step fnmatch grace clk clk' t (.releaseAll c timeout) .none
        (t.mark c (some (clk.now + grace timeout)))
  | unreleasedAll (c : ClientId) :
      Step fnmatch grace clk clk' t (.unreleaseAll c) .none (t.mark c none)
  | locked (l : LockId) : t.live clk.now l = t l →
      Step fnmatch grace clk clk' t (.locked l) (.bool (t l).isSome) t
  | lockedLate (l : LockId) : t.live clk.now l = none → clk.ticks < clk'.ticks →
      Step fnmatch grace clk clk' t (.locked l) (.bool false) (t.remove l)
  | addressSet (c : ClientId) (address : Address) :
      Step fnmatch grace clk clk' t (.setClientLastAddress c address) .none t
  | found (pattern : String) (locks : List (LockId × Time)) : t.Lists fnmatch pattern clk clk' locks →
      Step fnmatch grace clk clk' t (.find pattern) (.found locks) t
  | signalAdded (l : LockId) (signal : Signal) (h : Holding) : t l = some h →
      Step fnmatch grace clk clk' t (.addSignal l signal) (.signal (.bool true))
        (t.modify l (·.addSignal signal))
  | addToNone (l : LockId) (signal : Signal) : t l = none →
      Step fnmatch grace clk clk' t (.addSignal l signal) (.signal .keyNotExists) t
  | signalRead (l : LockId) (signal : Signal) (h : Holding) : t l = some h →
      Step fnmatch grace clk clk' t (.hasSignal l signal)
        (.signal (.bool (h.info.hasSignal signal))) t
  | readOfNone (l : LockId) (signal : Signal) : t l = none →
      Step fnmatch grace clk clk' t (.hasSignal l signal) (.signal .keyNotExists) t
  | signalRemoved (l : LockId) (signal : Signal) (h : Holding) : t l = some h →
      h.info.hasSignal signal = true →
      Step fnmatch grace clk clk' t (.removeSignal l signal) (.signal (.bool true))
        (t.modify l fun info => { info with signals := info.signals.map (·.erase signal) })
  | signalMissing (l : LockId) (signal : Signal) (h : Holding) : t l = some h →
      h.info.hasSignal signal = false →
      Step fnmatch grace clk clk' t (.removeSignal l signal) (.signal (.bool false)) t
  | removeFromNone (l : LockId) (signal : Signal) : t l = none →
      Step fnmatch grace clk clk' t (.removeSignal l signal) (.signal .keyNotExists) t
  | maintained (timeoutMs : Time) (shuffle : Shuffle) (t' : Table) :
      Sweeps clk clk' (clk.now + timeoutMs * 1000) t t' →
      Step fnmatch grace clk clk' t (.maintenance timeoutMs shuffle) .none t'

end Table

/-- The table that the dictionaries and the entry objects stand for. -/
def holding (s : InMemoryLockStorage) : Table := fun l =>
  match s.locksToClient.get? l, s.allLocks.get? l with
  | some c, some r => some ⟨c, s.objects r⟩
  | _, _ => none

variable {s s' : InMemoryLockStorage} {l l' : LockId} {c : ClientId} {r : Ref} {h : Holding}

theorem holding_eq (hc : s.locksToClient.get? l = some c) (hr : s.allLocks.get? l = some r) :
    holding s l = some ⟨c, s.objects r⟩ := by
  rw [holding, hc, hr]

theorem holding_some (hl : holding s l = some h) : s.locksToClient.get? l = some h.owner ∧
    ∃ r, s.allLocks.get? l = some r ∧ s.objects r = h.info := by
  cases hc : s.locksToClient.get? l with
  | none => simp [holding, hc] at hl
  | some c =>
    cases hr : s.allLocks.get? l with
    | none => simp [holding, hc, hr] at hl
    | some r =>
      rw [holding_eq hc hr, Option.some.injEq] at hl
      subst hl
      exact ⟨rfl, r, rfl, rfl⟩

theorem holding_none (hs : Rep s) : holding s l = none ↔ s.allLocks.get? l = none := by
  cases hr : s.allLocks.get? l with
  | none => cases hc : s.locksToClient.get? l <;> simp [holding, hc, hr]
  | some r =>
    obtain ⟨c, hc⟩ := hs.owned hr
    simp [holding_eq hc hr]

theorem lease_holding (s : InMemoryLockStorage) (l : LockId) :
    lease s l = (holding s l).map fun h => ⟨h.owner, h.info.markFreeAfter⟩ := by
  cases hc : s.locksToClient.get? l with
  | none => simp [lease, holding, hc]
  | some c => cases hr : s.allLocks.get? l <;> simp [lease, holding, hc, hr]

theorem holding_congr (ho : s'.locksToClient = s.locksToClient) (ha : s'.allLocks = s.allLocks)
    (hobj : s'.objects = s.objects) : holding s' = holding s := by
  funext l
  simp [holding, ho, ha, hobj]

theorem holding_touch (s : InMemoryLockStorage) (c : ClientId) : holding (s.touch c) = holding s :=
  holding_congr rfl rfl rfl

theorem holding_forgetIdle (s : InMemoryLockStorage) (c : ClientId) :
    holding (s.forgetIdle c) = holding s := by
  unfold forgetIdle
  split
  · exact holding_congr rfl rfl rfl
  · exact holding_touch s c

theorem holding_removeEntry (s : InMemoryLockStorage) (l : LockId) (c : ClientId) (r : Ref) :
    holding (removeEntry s l c r) = (holding s).remove l := by
  funext l'
  by_cases he : l' = l
  · simp [holding, removeEntry, Table.remove, he]
  · simp [holding, removeEntry, Dict.get?_erase, Table.remove, he]

theorem holding_createLock (hs : Rep s) (clk : Clock) (c : ClientId) (l : LockId) :
    holding (s.createLock clk c l) = (holding s).create c l clk.now := by
  funext l'
  by_cases he : l' = l
  · simp [holding, createLock, Table.create, he]
  · cases hr : s.allLocks.get? l' with
    | none => simp [holding, createLock, Dict.get?_set, Table.create, he, hr]
    | some r =>
      obtain ⟨c', hc'⟩ := hs.owned hr
      have hne : r ≠ s.nextRef := (hs.older l' r hr).ne
      simp [holding, createLock, Dict.get?_set, Table.create, he, hr, hc', hne]

theorem holding_markAll (hs : Rep s) (c : ClientId) (m : Option Time) :
    holding { s.touch c with objects := markAll m ((s.touch c).locksOf c) s.objects } =
      (holding s).mark c m := by
  funext l
  cases hc : s.locksToClient.get? l with
  | none => simp [holding, touch, hc, Table.mark]
  | some a =>
    obtain ⟨r, hr⟩ := hs.entry hc
    have hmem : r ∈ s.locksOf c ↔ a = c := by
      rw [hs.listed]
      constructor
      · rintro ⟨l', hr', hc'⟩
        rw [hs.entry_inj hr' hr, hc] at hc'
        exact Option.some_inj.mp hc'
      · rintro rfl
        exact ⟨l, hr, hc⟩
    have hmark : holding { s.touch c with objects := markAll m ((s.touch c).locksOf c) s.objects } l =
        some ⟨a, markAll m ((s.touch c).locksOf c) s.objects r⟩ := holding_eq hc hr
    rw [hmark, Table.mark, holding_eq hc hr, markAll_apply, locksOf_touch, Option.map_some]
    by_cases he : a = c
    · rw [if_pos (hmem.mpr he), if_pos he, Holding.marked]
    · rw [if_neg (fun hm => he (hmem.mp hm)), if_neg he]

theorem holding_releaseAll (hs : Rep s) (clk : Clock) (c : ClientId) (timeout : Option Time) :
    holding (s.releaseAll clk c timeout).1 =
      (holding s).mark c (some (clk.now + s.graceTime timeout)) :=
  holding_markAll hs c _

theorem holding_unreleaseAll (hs : Rep s) (c : ClientId) :
    holding (s.unreleaseAll c) = (holding s).mark c none :=
  holding_markAll hs c none

theorem holding_update_object (hs : Rep s) (hr : s.allLocks.get? l = some r)
    (f : MemoryLockInfo → MemoryLockInfo) :
    holding { s with objects := Function.update s.objects r (f (s.objects r)) } =
      (holding s).modify l f := by
  obtain ⟨c, hc⟩ := hs.owned hr
  funext l'
  by_cases he : l' = l
  · subst l'
    have hnew : holding { s with objects := Function.update s.objects r (f (s.objects r)) } l =
        some ⟨c, Function.update s.objects r (f (s.objects r)) r⟩ := holding_eq hc hr
    simp [hnew, Table.modify, holding_eq hc hr]
  · rw [Table.modify, Function.update_of_ne he]
    cases hr' : s.allLocks.get? l' with
    | none => simp [holding, hr']
    | some r' =>
      obtain ⟨c', hc'⟩ := hs.owned hr'
      have hne : r' ≠ r := by
        rintro rfl
        exact he (hs.entry_inj hr' hr)
      simp [holding, hr', hc', hne]

theorem expired_late (lock : MemoryLockInfo) (clk : Clock) :
    (late clk.now lock = true ∧ lock.expired clk = (true, clk.tick)) ∨
      (late clk.now lock = false ∧
        (lock.expired clk = (false, clk) ∨ lock.expired clk = (false, clk.tick))) := by
  cases hm : lock.markFreeAfter with
  | none => simp [late, MemoryLockInfo.expired, hm]
  | some mark =>
    by_cases hz : mark = 0
    · simp [late, MemoryLockInfo.expired, hm, hz]
    · by_cases hn : mark ≤ clk.now <;> simp [late, MemoryLockInfo.expired, hm, hz, hn]

theorem late_mono {now later : Time} (hle : now ≤ later) {info : MemoryLockInfo}
    (h : late now info = true) : late later info = true := by
  unfold late at h ⊢
  cases hm : info.markFreeAfter with
  | none => simp [hm] at h
  | some mark =>
    simp only [hm, Bool.and_eq_true, decide_eq_true_eq] at h ⊢
    exact ⟨h.1, h.2.trans hle⟩

theorem live_eq (t : Table) (now : Time) (hl : t l = some h) :
    t.live now l = if late now h.info then none else some h := by
  cases he : late now h.info <;> simp [Table.live, hl, he]

theorem live_of_none {t : Table} (now : Time) (hl : t l = none) : t.live now l = none := by
  rw [Table.live, hl, Option.filter_none]

theorem live_cases (t : Table) (now : Time) (l : LockId) :
    t.live now l = t l ∨ t.live now l = none := by
  cases hl : t l with
  | none => exact .inr (live_of_none now hl)
  | some h =>
    rw [live_eq t now hl]
    cases late now h.info with
    | false => exact .inl rfl
    | true => exact .inr rfl

theorem live_congr {t t' : Table} (now : Time) (hl : t l = t' l) : t.live now l = t'.live now l := by
  rw [Table.live, Table.live, hl]

theorem dropExpired_cases (hs : Rep s) (clk : Clock) (l : LockId) :
    (∃ c r, s.locksToClient.get? l = some c ∧ s.allLocks.get? l = some r ∧
        (holding s).live clk.now l = none ∧
        s.dropExpired clk l = .ok (removeEntry s l c r, clk.tick)) ∨
      ((holding s).live clk.now l = holding s l ∧
        ∃ clk', (clk' = clk ∨ clk' = clk.tick) ∧ s.dropExpired clk l = .ok (s, clk')) := by
  cases hr : s.allLocks.get? l with
  | none =>
    have hl : holding s l = none := (holding_none hs).mpr hr
    exact .inr ⟨by rw [hl, live_of_none _ hl], clk, .inl rfl, by simp [dropExpired, hr]⟩
  | some r =>
    obtain ⟨c, hc⟩ := hs.owned hr
    have hlive := live_eq (holding s) clk.now (holding_eq hc hr)
    obtain ⟨hlate, he⟩ | ⟨hlate, he⟩ := expired_late (s.objects r) clk
    · rw [hlate, if_pos rfl] at hlive
      refine .inl ⟨c, r, hc, rfl, hlive, ?_⟩
      simp only [dropExpired, hr, he, if_true, deleteLock_eq hs hr hc]
      rfl
    · rw [hlate, if_neg Bool.false_ne_true] at hlive
      refine .inr ⟨hlive.trans (holding_eq hc hr).symm, ?_⟩
      obtain he | he := he
      · exact ⟨clk, .inl rfl, by simp [dropExpired, hr, he]⟩
      · exact ⟨clk.tick, .inr rfl, by simp [dropExpired, hr, he]⟩

theorem create_remove (t : Table) (c : ClientId) (l : LockId) (now : Time) :
    (t.remove l).create c l now = t.create c l now :=
  Function.update_idem _ _ _

theorem acquire_cases (hs : Rep s) (clk : Clock) (c : ClientId) (l : LockId) (reentrant : Bool) :
    (∃ h clk', (holding s).live clk.now l = some h ∧ holding s l = some h ∧
        s.acquire clk c l reentrant = .ok (reentrant && decide (h.owner = c), s, clk')) ∨
      ((holding s).live clk.now l = none ∧ ∃ s₁ clk₁, (clk₁ = clk ∨ clk₁ = clk.tick) ∧ Rep s₁ ∧
        holding s₁ = (holding s).remove l ∧ s₁.allLocks = s.allLocks.erase l ∧
        s.acquire clk c l reentrant = .ok (true, s₁.createLock clk₁ c l, clk₁.tick)) := by
  obtain ⟨a, r, ha, hr, hlive, heq⟩ | ⟨hlive, clk', hclk, heq⟩ := dropExpired_cases hs clk l
  · have hfree : (removeEntry s l a r).locksToClient.get? l = none := by simp [removeEntry]
    refine .inr ⟨hlive, removeEntry s l a r, clk.tick, .inr rfl, rep_removeEntry hs hr ha,
      holding_removeEntry s l a r, rfl, ?_⟩
    simp only [acquire, heq, bind, Except.bind, hfree]
  · cases hl : holding s l with
    | none =>
      have hfree : s.locksToClient.get? l = none := (lease_none hs).mp (by
        rw [lease_holding, hl, Option.map_none])
      refine .inr ⟨hlive.trans hl, s, clk', hclk, hs, ?_, ?_, ?_⟩
      · exact (Function.update_eq_self_iff.mpr hl.symm).symm
      · exact (s.allLocks.erase_of_none ((holding_none hs).mp hl)).symm
      · simp only [acquire, heq, bind, Except.bind, hfree]
    | some h =>
      have howner := (holding_some hl).1
      refine .inl ⟨h, clk', hlive.trans hl, rfl, ?_⟩
      simp only [acquire, heq, bind, Except.bind, howner]

theorem acquire_step (fnmatch : String → String → Bool) (hs : Rep s) (clk : Clock) (c : ClientId)
    (l : LockId) (reentrant : Bool) :
    ∃ b s' clk', s.acquire clk c l reentrant = .ok (b, s', clk') ∧
      Table.Step fnmatch s.graceTime clk clk' (holding s) (.acquire c l reentrant) (.bool b)
        (holding s') := by
  obtain ⟨h, clk', hlive, -, heq⟩ | ⟨hlive, s₁, clk₁, hclk, hrep, hremove, -, heq⟩ :=
    acquire_cases hs clk c l reentrant
  · exact ⟨_, s, clk', heq, .held c l reentrant h hlive⟩
  · refine ⟨true, _, _, heq, ?_⟩
    rw [holding_createLock hrep, hremove, create_remove]
    obtain rfl | rfl := hclk
    · exact .created c l reentrant clk₁.ticks hlive le_rfl (Nat.lt_succ_self _)
    · exact .created c l reentrant (clk.ticks + 1) hlive (by omega) (Nat.lt_succ_self _)

theorem release_step (fnmatch : String → String → Bool) (hs : Rep s) (clk : Clock) (c : ClientId)
    (l : LockId) : ∃ b s', s.release c l = .ok (b, s') ∧
      Table.Step fnmatch s.graceTime clk clk (holding s) (.release c l) (.bool b) (holding s') := by
  obtain ⟨hc, r, hr, heq⟩ | ⟨hc, heq⟩ := release_spec hs c l
  · refine ⟨true, _, heq, ?_⟩
    rw [holding_removeEntry, holding_touch]
    exact .released c l ⟨c, s.objects r⟩ (holding_eq hc hr) rfl
  · refine ⟨false, _, heq, ?_⟩
    rw [holding_touch]
    refine .notOwner c l fun h hl ho => hc ?_
    rw [← ho]
    exact (holding_some hl).1

theorem locked_step (fnmatch : String → String → Bool) (hs : Rep s) (clk : Clock) (l : LockId) :
    ∃ b s' clk', s.locked clk l = .ok (b, s', clk') ∧
      Table.Step fnmatch s.graceTime clk clk' (holding s) (.locked l) (.bool b) (holding s') := by
  obtain ⟨a, r, ha, hr, hlive, heq⟩ | ⟨hlive, clk', -, heq⟩ := dropExpired_cases hs clk l
  · refine ⟨false, removeEntry s l a r, clk.tick, ?_, ?_⟩
    · simp [locked, heq, bind, Except.bind, removeEntry]
    · rw [holding_removeEntry]
      exact .lockedLate l hlive (Nat.lt_succ_self _)
  · refine ⟨(holding s l).isSome, s, clk', ?_, .locked l hlive⟩
    have hsome : (s.allLocks.get? l).isSome = (holding s l).isSome := by
      cases hl : holding s l with
      | none =>
        rw [(holding_none hs).mp hl]
        rfl
      | some h =>
        obtain ⟨-, r, hr, -⟩ := holding_some hl
        rw [hr]
        rfl
    simp only [locked, heq, bind, Except.bind, hsome]

theorem live_remove (t : Table) (now : Time) (l l' : LockId) :
    (t.remove l).live now l' = if l' = l then none else t.live now l' := by
  by_cases he : l' = l
  · simp [Table.live, Table.remove, he]
  · simp [Table.live, Table.remove, he]

theorem sweepLocks_checks (locks : List Ref) (hs : Rep s) (clk : Clock) (hlocks : Entries s locks) :
    ∃ s' clk', sweepLocks locks s clk = .ok (s', clk') ∧ Rep s' ∧ clk'.reading = clk.reading ∧
      clk.ticks ≤ clk'.ticks ∧ ∀ l,
        (∃ n, clk.ticks ≤ n ∧ n ≤ clk'.ticks ∧ holding s' l = (holding s).live (clk.reading n) l) ∨
          (holding s' l = holding s l ∧ ∀ r ∈ locks, s.allLocks.get? l ≠ some r) := by
  induction locks generalizing s clk with
  | nil => exact ⟨s, clk, rfl, hs, rfl, le_rfl, fun l => .inr ⟨rfl, by simp⟩⟩
  | cons r locks ih =>
    obtain ⟨l₀, hr⟩ := hlocks.2 r (.head _)
    obtain ⟨c, hc⟩ := hs.owned hr
    have hlive := live_eq (holding s) clk.now (holding_eq hc hr)
    obtain ⟨hlate, he⟩ | ⟨hlate, he⟩ := expired_late (s.objects r) clk
    · rw [hlate, if_pos rfl] at hlive
      have hget : ∀ l, l ≠ l₀ → (removeEntry s l₀ c r).allLocks.get? l = s.allLocks.get? l :=
        fun l hl => by simp [removeEntry, Dict.get?_erase, hl]
      obtain ⟨s', clk', hs', hrep, hread, hticks, hcheck⟩ :=
        ih (rep_removeEntry hs hr hc) clk.tick (entries_removeEntry hlocks hr)
      have hticks' : clk.ticks + 1 ≤ clk'.ticks := hticks
      refine ⟨s', clk', ?_, hrep, hread, by omega, fun l => ?_⟩
      · simp only [sweepLocks, he, if_true, hs.entryId l₀ r hr, deleteLock_eq hs hr hc]
        exact hs'
      · rw [holding_removeEntry] at hcheck
        by_cases hl : l = l₀
        · subst l
          have hnone : holding s' l₀ = none := by
            obtain ⟨n, -, -, hn⟩ | ⟨hn, -⟩ := hcheck l₀
            · rw [hn, live_remove, if_pos rfl]
            · rw [hn, Table.remove, Function.update_self]
          exact .inl ⟨clk.ticks, le_rfl, by omega, hnone.trans hlive.symm⟩
        · obtain ⟨n, hn, hn', hl'⟩ | ⟨hl', hother⟩ := hcheck l
          · rw [live_remove, if_neg hl] at hl'
            have hn'' : clk.ticks + 1 ≤ n := hn
            exact .inl ⟨n, by omega, hn', hl'⟩
          · rw [Table.remove, Function.update_of_ne hl] at hl'
            refine .inr ⟨hl', List.forall_mem_cons.mpr ⟨fun hr' => hl (hs.entry_inj hr' hr), ?_⟩⟩
            intro r' hr'
            rw [← hget l hl]
            exact hother r' hr'
    · rw [hlate, if_neg Bool.false_ne_true] at hlive
      obtain ⟨clk₁, hclk₁, heq⟩ : ∃ clk₁, (clk₁ = clk ∨ clk₁ = clk.tick) ∧
          (s.objects r).expired clk = (false, clk₁) := by
        obtain he | he := he
        · exact ⟨clk, .inl rfl, he⟩
        · exact ⟨clk.tick, .inr rfl, he⟩
      have hclk : clk₁.reading = clk.reading ∧ clk.ticks ≤ clk₁.ticks := by
        obtain rfl | rfl := hclk₁
        · exact ⟨rfl, le_rfl⟩
        · exact ⟨rfl, Nat.le_succ _⟩
      obtain ⟨s', clk', hs', hrep, hread, hticks, hcheck⟩ :=
        ih hs clk₁ hlocks.tail
      rw [hclk.1] at hread hcheck
      refine ⟨s', clk', by simpa [sweepLocks, heq] using hs', hrep, hread, hclk.2.trans hticks,
        fun l => ?_⟩
      obtain ⟨n, hn, hn', hl'⟩ | ⟨hl', hother⟩ := hcheck l
      · exact .inl ⟨n, hclk.2.trans hn, hn', hl'⟩
      · by_cases hl : l = l₀
        · subst l
          refine .inl ⟨clk.ticks, le_rfl, hclk.2.trans hticks, ?_⟩
          rw [hl', holding_eq hc hr]
          exact hlive.symm
        · exact .inr ⟨hl', List.forall_mem_cons.mpr ⟨fun hr' => hl (hs.entry_inj hr' hr), hother⟩⟩

theorem sweepClients_checks (finishAt : Time) (clients : List ClientId) (hs : Rep s) (clk : Clock) :
    ∃ s' clk', sweepClients finishAt clients s clk = .ok (s', clk') ∧ Rep s' ∧
      clk'.reading = clk.reading ∧ clk.ticks ≤ clk'.ticks ∧ ∀ l,
        (∃ n, clk.ticks ≤ n ∧ n < clk'.ticks ∧ holding s' l = (holding s).live (clk.reading n) l) ∨
          (holding s' l = holding s l ∧ ((∀ h, holding s l = some h → h.owner ∉ clients) ∨
            ∃ n, clk.ticks ≤ n ∧ n < clk'.ticks ∧ finishAt < clk.reading n)) := by
  induction clients generalizing s clk with
  | nil => exact ⟨s, clk, rfl, hs, rfl, le_rfl, fun l => .inr ⟨rfl, .inl (by simp)⟩⟩
  | cons c clients ih =>
    obtain ⟨s₁, clk₁, hs₁, hrep₁, hread₁, hticks₁, hcheck₁⟩ :=
      sweepLocks_checks (s.locksOf c) (rep_touch hs c) clk (entries_locksOf hs c)
    rw [holding_touch] at hcheck₁
    have hskip : ∀ l, (∀ r ∈ s.locksOf c, (s.touch c).allLocks.get? l ≠ some r) →
        ∀ h, holding s l = some h → h.owner ≠ c := by
      intro l hl h hh ho
      obtain ⟨howner, r, hr, -⟩ := holding_some hh
      exact hl r ((hs.listed c r).mpr ⟨l, hr, ho ▸ howner⟩) hr
    by_cases hf : finishAt < clk₁.now
    · refine ⟨s₁.forgetIdle c, clk₁.tick, ?_, rep_forgetIdle hrep₁ c, hread₁,
        hticks₁.trans (Nat.le_succ _), fun l => ?_⟩
      · simp only [sweepClients, hs₁]
        exact if_pos hf
      · rw [holding_forgetIdle]
        obtain ⟨n, hn, hn', hl⟩ | ⟨hl, -⟩ := hcheck₁ l
        · exact .inl ⟨n, hn, Nat.lt_succ_of_le hn', hl⟩
        · refine .inr ⟨hl, .inr ⟨clk₁.ticks, hticks₁, Nat.lt_succ_self _, ?_⟩⟩
          rw [← hread₁]
          exact hf
    · obtain ⟨s₂, clk₂, hs₂, hrep₂, hread₂, hticks₂, hcheck₂⟩ :=
        ih (rep_forgetIdle hrep₁ c) clk₁.tick
      have hread₂' : clk₂.reading = clk.reading := hread₂.trans hread₁
      have hticks₂' : clk₁.ticks + 1 ≤ clk₂.ticks := hticks₂
      have htick : clk₁.tick.reading = clk.reading := hread₁
      rw [holding_forgetIdle, htick] at hcheck₂
      refine ⟨s₂, clk₂, ?_, hrep₂, hread₂', by omega, fun l => ?_⟩
      · simp only [sweepClients, hs₁]
        exact (if_neg hf).trans hs₂
      · obtain ⟨n, hn, hn', hl⟩ | ⟨hl, hnone⟩ := hcheck₁ l
        · obtain ⟨m, hm, hm', hl'⟩ | ⟨hl', -⟩ := hcheck₂ l
          · have hm'' : clk₁.ticks + 1 ≤ m := hm
            obtain hkeep | hgone := live_cases (holding s) (clk.reading n) l
            · exact .inl ⟨m, by omega, hm', hl'.trans (live_congr _ (hl.trans hkeep))⟩
            · refine .inl ⟨n, hn, by omega, ?_⟩
              rw [hl', live_of_none _ (hl.trans hgone), hgone]
          · exact .inl ⟨n, hn, by omega, hl'.trans hl⟩
        · obtain ⟨m, hm, hm', hl'⟩ | ⟨hl', hend⟩ := hcheck₂ l
          · have hm'' : clk₁.ticks + 1 ≤ m := hm
            exact .inl ⟨m, by omega, hm', hl'.trans (live_congr _ hl)⟩
          · refine .inr ⟨hl'.trans hl, ?_⟩
            obtain hother | ⟨m, hm, hm', h⟩ := hend
            · refine .inl fun h ho hmem => ?_
              obtain he | hmem := List.mem_cons.mp hmem
              · exact hskip l hnone h ho he
              · exact hother h (hl.trans ho) hmem
            · have hm'' : clk₁.ticks + 1 ≤ m := hm
              exact .inr ⟨m, by omega, hm', h⟩

theorem owner_listed (hs : Rep s) (hl : holding s l = some h) : h.owner ∈ s.clientToLocks.keys := by
  obtain ⟨howner, r, hr, -⟩ := holding_some hl
  have hmem : r ∈ s.locksOf h.owner := (hs.listed h.owner r).mpr ⟨l, hr, howner⟩
  cases hk : s.clientToLocks.get? h.owner with
  | none => simp [locksOf, hk] at hmem
  | some locks =>
    have hitem := (s.clientToLocks.mem_items h.owner locks).mpr hk
    exact List.mem_map_of_mem (f := Prod.fst) hitem

theorem maintenance_step (fnmatch : String → String → Bool) (hs : Rep s) (clk : Clock)
    (timeoutMs : Time) (shuffle : Shuffle) :
    ∃ s' clk', s.maintenance clk timeoutMs shuffle = .ok (s', clk') ∧
      Table.Step fnmatch s.graceTime clk clk' (holding s) (.maintenance timeoutMs shuffle) .none
        (holding s') := by
  obtain ⟨s', clk', heq, -, -, hticks, hcheck⟩ := sweepClients_checks (clk.now + timeoutMs * 1000)
    (shuffle.order s.clientToLocks.keys) hs clk.tick
  have hticks' : clk.ticks + 1 ≤ clk'.ticks := hticks
  refine ⟨s', clk', heq, .maintained timeoutMs shuffle _ fun l => ?_⟩
  obtain ⟨n, hn, hn', hl⟩ | ⟨hl, hend⟩ := hcheck l
  · have hn'' : clk.ticks + 1 ≤ n := hn
    exact .inl ⟨n, by omega, hn', hl⟩
  · obtain hout | ⟨n, hn, hn', hlt⟩ := hend
    · refine .inl ⟨clk.ticks, le_rfl, hticks', ?_⟩
      cases hh : holding s l with
      | none => rw [hl, hh, live_of_none _ hh]
      | some h => exact absurd ((shuffle.perm _).mem_iff.mpr (owner_listed hs hh)) (hout h hh)
    · have hn'' : clk.ticks + 1 ≤ n := hn
      exact .inr ⟨hl, n, by omega, hn', hlt⟩

/-- An entry is looked at now, or it is late at no time. -/
theorem expired_looked (lock : MemoryLockInfo) (clk : Clock) :
    lock.expired clk = (late clk.now lock, clk.tick) ∨
      (lock.expired clk = (false, clk) ∧ ∀ now, late now lock = false) := by
  cases hm : lock.markFreeAfter with
  | none => simp [late, MemoryLockInfo.expired, hm]
  | some mark => by_cases hz : mark = 0 <;> simp [late, MemoryLockInfo.expired, hm, hz]

def Shows (fnmatch : String → String → Bool) (pattern : String) (found : List (LockId × Time)) (l : LockId)
    (info : MemoryLockInfo) (now : Time) : Prop :=
  ∀ time, (l, time) ∈ found ↔ fnmatch l pattern = true ∧ late now info = false ∧ info.time = time

section

variable (fnmatch : String → String → Bool) (pattern : String) (objects : Ref → MemoryLockInfo)

theorem findIn_cons (l : LockId) (r : Ref) (items : List (LockId × Ref)) (clk : Clock) :
    (findIn fnmatch pattern objects ((l, r) :: items) clk).1 =
        (if !((objects r).expired clk).1 && fnmatch l pattern then [(l, (objects r).time)] else []) ++
          (findIn fnmatch pattern objects items ((objects r).expired clk).2).1 ∧
      (findIn fnmatch pattern objects ((l, r) :: items) clk).2 =
        (findIn fnmatch pattern objects items ((objects r).expired clk).2).2 := by
  simp only [findIn]
  split <;> exact ⟨rfl, rfl⟩

theorem findIn_keys (items : List (LockId × Ref)) (clk : Clock) :
    ((findIn fnmatch pattern objects items clk).1.map Prod.fst).Sublist (items.map Prod.fst) := by
  induction items generalizing clk with
  | nil => exact List.Sublist.refl _
  | cons p items ih =>
    obtain ⟨l, r⟩ := p
    rw [(findIn_cons fnmatch pattern objects l r items clk).1, List.map_append, List.map_cons]
    split
    · exact (ih _).cons_cons l
    · exact (ih _).cons l

theorem findIn_shows (items : List (LockId × Ref)) (hkeys : (items.map Prod.fst).Nodup) (clk : Clock)
    {l : LockId} {r : Ref} (hmem : (l, r) ∈ items) :
    (∃ n, clk.ticks ≤ n ∧ n < (findIn fnmatch pattern objects items clk).2.ticks ∧
        Shows fnmatch pattern (findIn fnmatch pattern objects items clk).1 l (objects r) (clk.reading n)) ∨
      ∀ now, Shows fnmatch pattern (findIn fnmatch pattern objects items clk).1 l (objects r) now := by
  induction items generalizing clk with
  | nil => cases hmem
  | cons p items ih =>
    obtain ⟨l', r'⟩ := p
    obtain ⟨hnot, hkeys'⟩ := List.nodup_cons.mp hkeys
    obtain ⟨hfound, hclk⟩ := findIn_cons fnmatch pattern objects l' r' items clk
    rw [hfound, hclk]
    obtain hhead | htail := List.mem_cons.mp hmem
    · obtain ⟨rfl, rfl⟩ := Prod.mk.inj hhead
      have hrest : ∀ clk' time, (l, time) ∉ (findIn fnmatch pattern objects items clk').1 :=
        fun clk' time h => hnot ((findIn_keys fnmatch pattern objects items clk').subset (List.mem_map_of_mem h))
      have hshows : ∀ now, ((objects r).expired clk).1 = late now (objects r) →
          Shows fnmatch pattern ((if !((objects r).expired clk).1 && fnmatch l pattern
            then [(l, (objects r).time)] else []) ++
              (findIn fnmatch pattern objects items ((objects r).expired clk).2).1) l (objects r) now := by
        intro now hlate time
        rw [hlate, List.mem_append, or_iff_left (hrest _ time)]
        cases late now (objects r) <;> cases fnmatch l pattern <;> simp [eq_comm]
      obtain he | ⟨he, hnever⟩ := expired_looked (objects r) clk
      · refine .inl ⟨clk.ticks, le_rfl, ?_, hshows _ (by rw [he]; rfl)⟩
        rw [he]
        exact (StorageRun.findIn_clock fnmatch pattern objects items clk.tick).2
      · exact .inr fun now => hshows now (by rw [he, hnever])
    · have hkey : l ∈ items.map Prod.fst := List.mem_map_of_mem (f := Prod.fst) htail
      have hne : l ≠ l' := fun he => hnot (he ▸ hkey)
      have hshows : ∀ {now}, Shows fnmatch pattern
          (findIn fnmatch pattern objects items ((objects r').expired clk).2).1 l (objects r) now →
          Shows fnmatch pattern ((if !((objects r').expired clk).1 && fnmatch l' pattern
            then [(l', (objects r').time)] else []) ++
              (findIn fnmatch pattern objects items ((objects r').expired clk).2).1) l (objects r) now := by
        intro now h time
        rw [← h time, List.mem_append]
        split <;> simp [hne]
      have hreading : ((objects r').expired clk).2.reading = clk.reading ∧
          clk.ticks ≤ ((objects r').expired clk).2.ticks := by
        obtain he | ⟨he, -⟩ := expired_looked (objects r') clk
        · rw [he]
          exact ⟨rfl, Nat.le_succ _⟩
        · rw [he]
          exact ⟨rfl, le_rfl⟩
      obtain ⟨n, hn, hn', h⟩ | h := ih hkeys' _ htail
      · rw [hreading.1] at h
        exact .inl ⟨n, hreading.2.trans hn, hn', hshows h⟩
      · exact .inr fun now => hshows (h now)

end

theorem findIn_standing (fnmatch : String → String → Bool) (now : Time) (pattern : String)
    (objects : Ref → MemoryLockInfo) (items : List (LockId × Ref)) (clk : Clock) (hclk : clk.reading = fun _ => now) :
    (findIn fnmatch pattern objects items clk).1 =
      (items.filter fun p => !late now (objects p.2) && fnmatch p.1 pattern).map
        fun p => (p.1, (objects p.2).time) := by
  induction items generalizing clk with
  | nil => rfl
  | cons p items ih =>
    obtain ⟨l, r⟩ := p
    have hnow : clk.now = now := by rw [Clock.now, hclk]
    obtain ⟨clk', hclk', he⟩ : ∃ clk', clk'.reading = (fun _ => now) ∧
        (objects r).expired clk = (late now (objects r), clk') := by
      obtain ⟨hl, he⟩ | ⟨hl, he | he⟩ := expired_late (objects r) clk
      · exact ⟨clk.tick, hclk, by rw [he, ← hnow, hl]⟩
      · exact ⟨clk, hclk, by rw [he, ← hnow, hl]⟩
      · exact ⟨clk.tick, hclk, by rw [he, ← hnow, hl]⟩
    simp only [findIn, he]
    cases hcond : !late now (objects r) && fnmatch l pattern with
    | true =>
      rw [if_pos rfl, List.filter_cons_of_pos (by exact hcond), List.map_cons, ih clk' hclk']
    | false =>
      rw [if_neg Bool.false_ne_true, List.filter_cons_of_neg (by simp [hcond]), ih clk' hclk']

theorem find_step (fnmatch : String → String → Bool) (hs : Rep s) (clk : Clock) (pattern : String) :
    Table.Step fnmatch s.graceTime clk (s.find fnmatch clk pattern).2 (holding s) (.find pattern)
      (.found (s.find fnmatch clk pattern).1) (holding s) := by
  refine .found pattern _ ⟨s.allLocks.nodup.sublist (findIn_keys fnmatch pattern s.objects _ clk), fun l => ?_⟩
  cases hr : s.allLocks.get? l with
  | none =>
    have hnone : holding s l = none := (holding_none hs).mpr hr
    refine ⟨clk.ticks, le_rfl, .inr rfl, fun time => ⟨fun hmem => ?_, ?_⟩⟩
    · have hkey := (findIn_keys fnmatch pattern s.objects _ clk).subset (List.mem_map_of_mem (f := Prod.fst) hmem)
      obtain ⟨⟨l', r⟩, hitem, rfl⟩ := List.mem_map.mp hkey
      cases hr.symm.trans ((s.allLocks.mem_items l' r).mp hitem)
    · rintro ⟨-, h, hh, -⟩
      cases hh.symm.trans (live_of_none _ hnone)
  | some r =>
    obtain ⟨c, hc⟩ := hs.owned hr
    have hitem := (s.allLocks.mem_items l r).mpr hr
    have hlive : ∀ {now}, Shows fnmatch pattern (s.find fnmatch clk pattern).1 l (s.objects r) now → ∀ time,
        (l, time) ∈ (s.find fnmatch clk pattern).1 ↔ fnmatch l pattern = true ∧
          ∃ h, (holding s).live now l = some h ∧ h.info.time = time := by
      intro now h time
      rw [h time, live_eq (holding s) now (holding_eq hc hr)]
      cases late now (s.objects r) <;> simp
    obtain ⟨n, hn, hn', h⟩ | h := findIn_shows fnmatch pattern s.objects _ s.allLocks.nodup clk hitem
    · exact ⟨n, hn, .inl hn', hlive h⟩
    · exact ⟨clk.ticks, le_rfl, .inr rfl, hlive (h _)⟩

theorem addSignal_step (fnmatch : String → String → Bool) (hs : Rep s) (clk : Clock) (l : LockId)
    (signal : Signal) :
    Table.Step fnmatch s.graceTime clk clk (holding s) (.addSignal l signal)
      (.signal (s.addSignal l signal).1) (holding (s.addSignal l signal).2) := by
  cases hr : s.allLocks.get? l with
  | none =>
    simp only [addSignal, hr]
    exact .addToNone l signal ((holding_none hs).mpr hr)
  | some r =>
    obtain ⟨c, hc⟩ := hs.owned hr
    simp only [addSignal, hr, holding_update_object hs hr (·.addSignal signal)]
    exact .signalAdded l signal _ (holding_eq hc hr)

theorem hasSignal_step (fnmatch : String → String → Bool) (hs : Rep s) (clk : Clock) (l : LockId)
    (signal : Signal) :
    Table.Step fnmatch s.graceTime clk clk (holding s) (.hasSignal l signal)
      (.signal (s.hasSignal l signal)) (holding s) := by
  cases hr : s.allLocks.get? l with
  | none =>
    simp only [hasSignal, hr]
    exact .readOfNone l signal ((holding_none hs).mpr hr)
  | some r =>
    obtain ⟨c, hc⟩ := hs.owned hr
    simp only [hasSignal, hr]
    exact .signalRead l signal _ (holding_eq hc hr)

theorem removeSignal_step (fnmatch : String → String → Bool) (hs : Rep s) (clk : Clock) (l : LockId)
    (signal : Signal) :
    Table.Step fnmatch s.graceTime clk clk (holding s) (.removeSignal l signal)
      (.signal (s.removeSignal l signal).1) (holding (s.removeSignal l signal).2) := by
  cases hr : s.allLocks.get? l with
  | none =>
    simp only [removeSignal, hr]
    exact .removeFromNone l signal ((holding_none hs).mpr hr)
  | some r =>
    obtain ⟨c, hc⟩ := hs.owned hr
    have hl := holding_eq hc hr
    cases hsig : (s.objects r).signals with
    | none =>
      simp only [removeSignal, hr, hsig]
      exact .signalMissing l signal _ hl (by simp [MemoryLockInfo.hasSignal, hsig])
    | some signals =>
      by_cases hm : signal ∈ signals
      · have hupdate := holding_update_object hs hr
          (fun info => { info with signals := info.signals.map (·.erase signal) })
        simp only [hsig, Option.map_some] at hupdate
        simp only [removeSignal, hr, hsig, if_pos hm, hupdate]
        exact .signalRemoved l signal _ hl (by simp [MemoryLockInfo.hasSignal, hsig, hm])
      · simp only [removeSignal, hr, hsig, if_neg hm]
        exact .signalMissing l signal _ hl (by simp [MemoryLockInfo.hasSignal, hsig, hm])

/-- The storage refines the table: what an operation answers and leaves is a
step of the table. -/
theorem exec_refines (fnmatch : String → String → Bool) (hs : Rep s) (op : Op) (clk : Clock) :
    ∃ answer s' clk', exec fnmatch op s clk = .ok (answer, s', clk') ∧
      Table.Step fnmatch s.graceTime clk clk' (holding s) op answer (holding s') := by
  cases op with
  | acquire c l reentrant =>
    obtain ⟨b, s', clk', heq, hstep⟩ := acquire_step fnmatch hs clk c l reentrant
    exact ⟨.bool b, s', clk', by simp only [exec, heq]; rfl, hstep⟩
  | release c l =>
    obtain ⟨b, s', heq, hstep⟩ := release_step fnmatch hs clk c l
    exact ⟨.bool b, s', clk, by simp only [exec, heq]; rfl, hstep⟩
  | releaseAll c timeout =>
    refine ⟨.none, (s.releaseAll clk c timeout).1, clk.tick, rfl, ?_⟩
    rw [holding_releaseAll hs]
    exact .releasedAll c timeout (Nat.lt_succ_self _)
  | unreleaseAll c =>
    refine ⟨.none, s.unreleaseAll c, clk, rfl, ?_⟩
    rw [holding_unreleaseAll hs]
    exact .unreleasedAll c
  | locked l =>
    obtain ⟨b, s', clk', heq, hstep⟩ := locked_step fnmatch hs clk l
    exact ⟨.bool b, s', clk', by simp only [exec, heq]; rfl, hstep⟩
  | setClientLastAddress c address =>
    have hsame : holding (s.setClientLastAddress c address) = holding s := holding_congr rfl rfl rfl
    refine ⟨.none, s.setClientLastAddress c address, clk, rfl, ?_⟩
    rw [hsame]
    exact .addressSet c address
  | find pattern => exact ⟨_, _, _, rfl, find_step fnmatch hs clk pattern⟩
  | addSignal l signal => exact ⟨_, _, _, rfl, addSignal_step fnmatch hs clk l signal⟩
  | hasSignal l signal => exact ⟨_, _, _, rfl, hasSignal_step fnmatch hs clk l signal⟩
  | removeSignal l signal => exact ⟨_, _, _, rfl, removeSignal_step fnmatch hs clk l signal⟩
  | maintenance timeoutMs shuffle =>
    obtain ⟨s', clk', heq, hstep⟩ := maintenance_step fnmatch hs clk timeoutMs shuffle
    exact ⟨.none, s', clk', by simp only [exec, heq]; rfl, hstep⟩

end Livelock.StorageTable
