import Livelock.StorageLease

namespace Livelock.StorageRun

open Livelock.Lib Livelock.MemoryStorage Livelock.MemoryStorage.InMemoryLockStorage
open Livelock.StorageInvariant Livelock.StorageLease

inductive Op
  | acquire (clientId : ClientId) (lockId : LockId) (reentrant : Bool)
  | release (clientId : ClientId) (lockId : LockId)
  | releaseAll (clientId : ClientId) (timeout : Option Time)
  | unreleaseAll (clientId : ClientId)
  | locked (lockId : LockId)
  | setClientLastAddress (clientId : ClientId) (address : Address)
  | find (pattern : String)
  | addSignal (lockId : LockId) (signal : Signal)
  | hasSignal (lockId : LockId) (signal : Signal)
  | removeSignal (lockId : LockId) (signal : Signal)
  | maintenance (timeoutMs : Time) (shuffle : Shuffle)

inductive Answer
  | none
  | bool (b : Bool)
  | signal (answer : SignalAnswer)
  | found (locks : List (LockId × Time))

variable (fnmatch : String → String → Bool)

def exec (op : Op) (s : InMemoryLockStorage) (clk : Clock) :
    Except Raised (Answer × InMemoryLockStorage × Clock) :=
  match op with
  | .acquire c l reentrant => do
    let (b, s, clk) ← s.acquire clk c l reentrant
    .ok (.bool b, s, clk)
  | .release c l => do
    let (b, s) ← s.release c l
    .ok (.bool b, s, clk)
  | .releaseAll c timeout =>
    let (s, clk) := s.releaseAll clk c timeout
    .ok (.none, s, clk)
  | .unreleaseAll c => .ok (.none, s.unreleaseAll c, clk)
  | .locked l => do
    let (b, s, clk) ← s.locked clk l
    .ok (.bool b, s, clk)
  | .setClientLastAddress c address => .ok (.none, s.setClientLastAddress c address, clk)
  | .find pattern =>
    let (locks, clk) := s.find fnmatch clk pattern
    .ok (.found locks, s, clk)
  | .addSignal l signal => .ok (.signal (s.addSignal l signal).1, (s.addSignal l signal).2, clk)
  | .hasSignal l signal => .ok (.signal (s.hasSignal l signal), s, clk)
  | .removeSignal l signal =>
    .ok (.signal (s.removeSignal l signal).1, (s.removeSignal l signal).2, clk)
  | .maintenance timeoutMs shuffle => do
    let (s, clk) ← s.maintenance clk timeoutMs shuffle
    .ok (.none, s, clk)

def Op.Elsewhere (l : LockId) : Op → Prop
  | .acquire _ l' _ | .release _ l' | .locked l' => l' ≠ l
  | .releaseAll _ _ | .unreleaseAll _ | .maintenance _ _ => False
  | _ => True

/-- How an operation with its answer acts on the lease `x` of lock `l`. The
clock is the one before and after the operation. -/
inductive Acts (grace : Option Time → Time) (clk clk' : Clock) (l : LockId)
    (x : Option (Lease ClientId Time)) : Op → Answer → Lease.Act ClientId Time → Prop
  | elsewhere {op : Op} {answer : Answer} : op.Elsewhere l → Acts grace clk clk' l x op answer .idle
  | held (c a : ClientId) (m : Option Time) (reentrant : Bool) : x = some ⟨a, m⟩ →
      Acts grace clk clk' l x (.acquire c l reentrant) (.bool (reentrant && decide (a = c))) .idle
  | granted (c : ClientId) (reentrant : Bool) :
      Acts grace clk clk' l x (.acquire c l reentrant) (.bool true) (.grant c)
  | takenOver (c : ClientId) (reentrant : Bool) (n : Nat) : clk.ticks ≤ n → n < clk'.ticks →
      Acts grace clk clk' l x (.acquire c l reentrant) (.bool true) (.takeOver (clk.reading n) c)
  | released (c : ClientId) : Acts grace clk clk' l x (.release c l) (.bool true) (.drop c)
  | notOwner (c : ClientId) : (∀ m, x ≠ some ⟨c, m⟩) →
      Acts grace clk clk' l x (.release c l) (.bool false) .idle
  | releasedAll (c : ClientId) (timeout : Option Time) :
      Acts grace clk clk' l x (.releaseAll c timeout) .none (.suspend c (clk.now + grace timeout))
  | unreleasedAll (c : ClientId) : Acts grace clk clk' l x (.unreleaseAll c) .none (.resume c)
  | locked : Acts grace clk clk' l x (.locked l) (.bool x.isSome) .idle
  | lockedExpired (n : Nat) : clk.ticks ≤ n → n < clk'.ticks →
      Acts grace clk clk' l x (.locked l) (.bool false) (.expire (clk.reading n))
  | passed (timeoutMs : Time) (shuffle : Shuffle) :
      Acts grace clk clk' l x (.maintenance timeoutMs shuffle) .none .idle
  | swept (timeoutMs : Time) (shuffle : Shuffle) (n : Nat) : clk.ticks ≤ n → n < clk'.ticks →
      Acts grace clk clk' l x (.maintenance timeoutMs shuffle) .none (.expire (clk.reading n))

/-- What an operation does: the invariant and the sequence of clock readings
go on, the last address of a client is only written or forgotten, and each
lock sees one act on its lease. -/
structure Effect (s : InMemoryLockStorage) (clk : Clock) (op : Op) (answer : Answer)
    (s' : InMemoryLockStorage) (clk' : Clock) : Prop where
  rep : Rep s'
  reading : clk'.reading = clk.reading
  ticks : clk.ticks ≤ clk'.ticks
  releaseAllTimeout : s'.releaseAllTimeout = s.releaseAllTimeout
  address : ∀ c, s'.getClientLastAddress c = s.getClientLastAddress c ∨
    s'.getClientLastAddress c = none ∨
      ∃ a, op = .setClientLastAddress c a ∧ s'.getClientLastAddress c = some a
  act : ∀ l, ∃ act, Acts s.graceTime clk clk' l (lease s l) op answer act ∧
    Lease.Step (lease s l) act (lease s' l)

variable {s s' : InMemoryLockStorage} {clk clk' : Clock} {l : LockId} {c : ClientId}

theorem acquire_spec (h : Rep s) (clk : Clock) (c : ClientId) (l : LockId) (reentrant : Bool) :
    (∃ a m clk', lease s l = some ⟨a, m⟩ ∧ ¬ Overdue clk.now (lease s l) ∧
      (clk' = clk ∨ clk' = clk.tick) ∧
      s.acquire clk c l reentrant = .ok (reentrant && decide (a = c), s, clk')) ∨
    ∃ s₁ clk₁, s.acquire clk c l reentrant = .ok (true, s₁.createLock clk₁ c l, clk₁.tick) ∧
      Rep s₁ ∧ Clears s clk s₁ clk₁ ∧ lease s₁ l = none ∧ (∀ l', l' ≠ l → lease s₁ l' = lease s l') ∧
      (lease s l = none ∨ (Overdue clk.now (lease s l) ∧ clk₁ = clk.tick)) := by
  obtain ⟨s₁, clk₁, hd, hrep, hcl, ⟨hov, hnone, rfl, hother⟩ | ⟨hov, rfl, hclk⟩⟩ :=
    dropExpired_spec h clk l
  · have hfree := (lease_none hrep).mp hnone
    refine .inr ⟨s₁, _, ?_, hrep, hcl, hnone, hother, .inr ⟨hov, rfl⟩⟩
    simp only [acquire, hd, bind, Except.bind, hfree]
  · cases hl : lease s₁ l with
    | none =>
      have hfree := (lease_none hrep).mp hl
      refine .inr ⟨s₁, clk₁, ?_, hrep, hcl, hl, fun _ _ => rfl, .inl rfl⟩
      simp only [acquire, hd, bind, Except.bind, hfree]
    | some x =>
      obtain ⟨a, m⟩ := x
      have howner := (lease_some hl).1
      refine .inl ⟨a, m, clk₁, rfl, hl ▸ hov, hclk, ?_⟩
      simp only [acquire, hd, bind, Except.bind, howner]

theorem acquire_effect (h : Rep s) (clk : Clock) (c : ClientId) (l : LockId) (reentrant : Bool) :
    ∃ b s' clk', s.acquire clk c l reentrant = .ok (b, s', clk') ∧
      Effect s clk (.acquire c l reentrant) (.bool b) s' clk' := by
  obtain ⟨a, m, clk', hl, -, hclk, heq⟩ | ⟨s₁, clk₁, heq, hrep, hcl, hnone, hother, hfree⟩ :=
    acquire_spec h clk c l reentrant
  · have hticks : clk'.reading = clk.reading ∧ clk.ticks ≤ clk'.ticks := by
      obtain rfl | rfl := hclk
      · exact ⟨rfl, le_rfl⟩
      · exact ⟨rfl, Nat.le_succ _⟩
    refine ⟨_, s, clk', heq, h, hticks.1, hticks.2, rfl, fun _ => .inl rfl, fun l' => ?_⟩
    by_cases he : l' = l
    · subst l'
      exact ⟨.idle, .held c a m reentrant hl, .idle _⟩
    · exact ⟨.idle, .elsewhere (Ne.symm he), .idle _⟩
  · refine ⟨true, _, _, heq, rep_createLock hrep clk₁ c ((lease_none hrep).mp hnone), hcl.reading,
      hcl.ticks.trans (Nat.le_succ _), hcl.releaseAllTimeout, fun c' => ?_, fun l' => ?_⟩
    · exact (hcl.address c').imp_right .inl
    · rw [lease_createLock hrep]
      by_cases he : l' = l
      · subst l'
        rw [if_pos rfl]
        obtain hl | ⟨⟨a, d, hl, -, hd⟩, rfl⟩ := hfree
        · rw [hl]
          exact ⟨.grant c, .granted c reentrant, .grant c⟩
        · rw [hl]
          have hread : clk.ticks < clk.tick.tick.ticks := by simp only [Clock.tick]; omega
          exact ⟨.takeOver clk.now c, .takenOver c reentrant clk.ticks le_rfl hread,
            .takeOver a c hd⟩
      · rw [if_neg he, hother l' he]
        exact ⟨.idle, .elsewhere (Ne.symm he), .idle _⟩

theorem release_spec (h : Rep s) (c : ClientId) (l : LockId) :
    (s.locksToClient.get? l = some c ∧ ∃ r, s.allLocks.get? l = some r ∧
        s.release c l = .ok (true, removeEntry (s.touch c) l c r)) ∨
      (s.locksToClient.get? l ≠ some c ∧ s.release c l = .ok (false, s.touch c)) := by
  have hany : ((s.touch c).locksOf c).any (fun r => decide (((s.touch c).objects r).id = l)) = true ↔
      s.locksToClient.get? l = some c := by
    simp only [List.any_eq_true, decide_eq_true_eq, locksOf_touch]
    constructor
    · rintro ⟨r, hr, hid⟩
      obtain ⟨l', hl', hc⟩ := (h.listed c r).mp hr
      have hid' : (s.objects r).id = l := hid
      rw [h.entryId l' r hl'] at hid'
      exact hid' ▸ hc
    · intro hc
      obtain ⟨r, hr⟩ := h.entry hc
      exact ⟨r, (h.listed c r).mpr ⟨l, hr, hc⟩, h.entryId l r hr⟩
  by_cases hc : s.locksToClient.get? l = some c
  · obtain ⟨r, hr⟩ := h.entry hc
    refine .inl ⟨hc, r, hr, ?_⟩
    have hdel : (s.touch c).deleteLock l = .ok (removeEntry (s.touch c) l c r) :=
      deleteLock_eq (rep_touch h c) hr hc
    rw [release, if_pos (hany.mpr hc), hdel]
    rfl
  · refine .inr ⟨hc, ?_⟩
    rw [release, if_neg (fun hm => hc (hany.mp hm))]

theorem release_effect (h : Rep s) (clk : Clock) (c : ClientId) (l : LockId) :
    ∃ b s', s.release c l = .ok (b, s') ∧ Effect s clk (.release c l) (.bool b) s' clk := by
  obtain ⟨hc, r, hr, heq⟩ | ⟨hc, heq⟩ := release_spec h c l
  · refine ⟨true, _, heq, rep_removeEntry (rep_touch h c) hr hc, rfl, le_rfl, rfl, fun _ => .inl rfl,
      fun l' => ?_⟩
    rw [lease_removeEntry, lease_touch]
    by_cases he : l' = l
    · subst l'
      rw [if_pos rfl, lease_eq hc hr]
      exact ⟨.drop c, .released c, .drop c _⟩
    · rw [if_neg he]
      exact ⟨.idle, .elsewhere (Ne.symm he), .idle _⟩
  · refine ⟨false, _, heq, rep_touch h c, rfl, le_rfl, rfl, fun _ => .inl rfl, fun l' => ?_⟩
    rw [lease_touch]
    by_cases he : l' = l
    · subst l'
      exact ⟨.idle, .notOwner c fun m hm => hc (lease_some hm).1, .idle _⟩
    · exact ⟨.idle, .elsewhere (Ne.symm he), .idle _⟩

theorem releaseAll_effect (h : Rep s) (clk : Clock) (c : ClientId) (timeout : Option Time) :
    Effect s clk (.releaseAll c timeout) .none (s.releaseAll clk c timeout).1
      (s.releaseAll clk c timeout).2 where
  rep := rep_releaseAll h clk c timeout
  reading := rfl
  ticks := Nat.le_succ _
  releaseAllTimeout := rfl
  address _ := .inl rfl
  act l := by
    rw [lease_releaseAll h]
    exact ⟨_, .releasedAll c timeout, .suspend c _ _⟩

theorem unreleaseAll_effect (h : Rep s) (clk : Clock) (c : ClientId) :
    Effect s clk (.unreleaseAll c) .none (s.unreleaseAll c) clk where
  rep := rep_unreleaseAll h c
  reading := rfl
  ticks := le_rfl
  releaseAllTimeout := rfl
  address _ := .inl rfl
  act l := by
    rw [lease_unreleaseAll h]
    exact ⟨_, .unreleasedAll c, .resume c _⟩

theorem locked_spec (h : Rep s) (clk : Clock) (l : LockId) :
    ∃ b s' clk', s.locked clk l = .ok (b, s', clk') ∧ Rep s' ∧ Clears s clk s' clk' ∧
      (∀ l', l' ≠ l → lease s' l' = lease s l') ∧
      ((Overdue clk.now (lease s l) ∧ b = false ∧ lease s' l = none ∧ clk' = clk.tick) ∨
        (¬ Overdue clk.now (lease s l) ∧ b = (lease s l).isSome ∧ s' = s)) := by
  obtain ⟨s', clk', hd, hrep, hcl, hcase⟩ := dropExpired_spec h clk l
  have heq : s.locked clk l = .ok ((s'.allLocks.get? l).isSome, s', clk') := by
    simp only [locked, hd]
    rfl
  obtain ⟨hov, hnone, hclk, hother⟩ | ⟨hov, rfl, -⟩ := hcase
  · refine ⟨_, s', clk', heq, hrep, hcl, hother, .inl ⟨hov, ?_, hnone, hclk⟩⟩
    rw [(lease_none_entry hrep).mp hnone]
    rfl
  · refine ⟨_, s', clk', heq, hrep, hcl, fun _ _ => rfl, .inr ⟨hov, ?_, rfl⟩⟩
    cases hl : lease s' l with
    | none => rw [(lease_none_entry hrep).mp hl]; rfl
    | some x =>
      obtain ⟨a, m⟩ := x
      obtain ⟨-, r, hr, -⟩ := lease_some hl
      rw [hr]
      rfl

theorem locked_effect (h : Rep s) (clk : Clock) (l : LockId) :
    ∃ b s' clk', s.locked clk l = .ok (b, s', clk') ∧
      Effect s clk (.locked l) (.bool b) s' clk' := by
  obtain ⟨b, s', clk', heq, hrep, hcl, hother, hcase⟩ := locked_spec h clk l
  refine ⟨b, s', clk', heq, hrep, hcl.reading, hcl.ticks, hcl.releaseAllTimeout,
    fun c => (hcl.address c).imp_right .inl, fun l' => ?_⟩
  by_cases he : l' = l
  · subst l'
    obtain ⟨⟨a, d, hl, -, hd⟩, rfl, hnone, rfl⟩ | ⟨-, rfl, rfl⟩ := hcase
    · rw [hnone, hl]
      exact ⟨.expire clk.now, .lockedExpired clk.ticks le_rfl (by simp [Clock.tick]), .expire a hd⟩
    · exact ⟨.idle, .locked, .idle _⟩
  · rw [hother l' he]
    exact ⟨.idle, .elsewhere (Ne.symm he), .idle _⟩

theorem findIn_clock (pattern : String) (objects : Ref → MemoryLockInfo)
    (items : List (LockId × Ref)) (clk : Clock) :
    (findIn fnmatch pattern objects items clk).2.reading = clk.reading ∧
      clk.ticks ≤ (findIn fnmatch pattern objects items clk).2.ticks := by
  induction items generalizing clk with
  | nil => exact ⟨rfl, le_rfl⟩
  | cons p items ih =>
    obtain ⟨l, r⟩ := p
    have hclk : ((objects r).expired clk).2 = clk ∨ ((objects r).expired clk).2 = clk.tick := by
      obtain ⟨-, he⟩ | ⟨-, he | he⟩ := expired_cases (objects r) clk
      · exact .inr (by rw [he])
      · exact .inl (by rw [he])
      · exact .inr (by rw [he])
    have hsnd : (findIn fnmatch pattern objects ((l, r) :: items) clk).2 =
        (findIn fnmatch pattern objects items ((objects r).expired clk).2).2 := by
      simp only [findIn]
      split <;> rfl
    rw [hsnd]
    obtain he | he := hclk
    · rw [he]
      exact ih clk
    · rw [he]
      exact ⟨(ih clk.tick).1, (Nat.le_succ _).trans (ih clk.tick).2⟩

theorem maintenance_effect (h : Rep s) (clk : Clock) (timeoutMs : Time) (shuffle : Shuffle) :
    ∃ s' clk', s.maintenance clk timeoutMs shuffle = .ok (s', clk') ∧
      Effect s clk (.maintenance timeoutMs shuffle) .none s' clk' := by
  obtain ⟨s', clk', heq, hrep, hcl⟩ := maintenance_spec h clk timeoutMs shuffle
  refine ⟨s', clk', heq, hrep, hcl.reading, hcl.ticks, hcl.releaseAllTimeout,
    fun c => (hcl.address c).imp_right .inl, fun l => ?_⟩
  obtain hl | ⟨a, d, n, hl, hnone, hn, hn', hd⟩ := hcl.lease l
  · rw [hl]
    exact ⟨.idle, .passed timeoutMs shuffle, .idle _⟩
  · rw [hl, hnone]
    exact ⟨.expire (clk.reading n), .swept timeoutMs shuffle n hn hn', .expire a hd⟩

theorem exec_effect (h : Rep s) (op : Op) (clk : Clock) :
    ∃ answer s' clk', exec fnmatch op s clk = .ok (answer, s', clk') ∧
      Effect s clk op answer s' clk' := by
  have hidle : ∀ (op : Op) (s' : InMemoryLockStorage), (∀ l, op.Elsewhere l) →
      (∀ l, lease s' l = lease s l) → ∀ l, ∃ act,
        Acts s.graceTime clk clk l (lease s l) op .none act ∧ Lease.Step (lease s l) act (lease s' l) := by
    intro op s' hop hl l
    rw [hl]
    exact ⟨.idle, .elsewhere (hop l), .idle _⟩
  cases op with
  | acquire c l reentrant =>
    obtain ⟨b, s', clk', heq, he⟩ := acquire_effect h clk c l reentrant
    exact ⟨.bool b, s', clk', by simp only [exec, heq]; rfl, he⟩
  | release c l =>
    obtain ⟨b, s', heq, he⟩ := release_effect h clk c l
    exact ⟨.bool b, s', clk, by simp only [exec, heq]; rfl, he⟩
  | releaseAll c timeout => exact ⟨_, _, _, rfl, releaseAll_effect h clk c timeout⟩
  | unreleaseAll c => exact ⟨_, _, _, rfl, unreleaseAll_effect h clk c⟩
  | locked l =>
    obtain ⟨b, s', clk', heq, he⟩ := locked_effect h clk l
    exact ⟨.bool b, s', clk', by simp only [exec, heq]; rfl, he⟩
  | setClientLastAddress c address =>
    refine ⟨_, _, _, rfl, rep_setClientLastAddress h c address, rfl, le_rfl, rfl, fun c' => ?_,
      hidle _ _ (fun _ => trivial) fun l => lease_congr rfl rfl (fun _ => rfl) l⟩
    by_cases he : c' = c
    · subst c'
      exact .inr (.inr ⟨address, rfl, by simp [getClientLastAddress, setClientLastAddress]⟩)
    · exact .inl (by simp [getClientLastAddress, setClientLastAddress, Dict.get?_set, he])
  | find pattern =>
    obtain ⟨hr, ht⟩ := findIn_clock fnmatch pattern s.objects s.allLocks.items clk
    refine ⟨_, _, _, rfl, h, hr, ht, rfl, fun _ => .inl rfl, fun l => ?_⟩
    exact ⟨.idle, .elsewhere trivial, .idle _⟩
  | addSignal l signal =>
    refine ⟨_, _, _, rfl, rep_addSignal h l signal, rfl, le_rfl, ?_, fun c => .inl ?_, fun l' => ?_⟩
    · unfold addSignal
      split <;> rfl
    · unfold addSignal getClientLastAddress
      split <;> rfl
    · rw [lease_addSignal]
      exact ⟨.idle, .elsewhere trivial, .idle _⟩
  | hasSignal l signal =>
    exact ⟨_, _, _, rfl, h, rfl, le_rfl, rfl, fun _ => .inl rfl,
      fun l' => ⟨.idle, .elsewhere trivial, .idle _⟩⟩
  | removeSignal l signal =>
    refine ⟨_, _, _, rfl, rep_removeSignal h l signal, rfl, le_rfl, ?_, fun c => .inl ?_, fun l' => ?_⟩
    · unfold removeSignal
      split
      · rfl
      split
      · rfl
      split <;> rfl
    · unfold removeSignal getClientLastAddress
      split
      · rfl
      split
      · rfl
      split <;> rfl
    · rw [lease_removeSignal]
      exact ⟨.idle, .elsewhere trivial, .idle _⟩
  | maintenance timeoutMs shuffle =>
    obtain ⟨s', clk', heq, he⟩ := maintenance_effect h clk timeoutMs shuffle
    exact ⟨.none, s', clk', by simp only [exec, heq]; rfl, he⟩

/-! Two clients for the runs on concrete inputs, here and in later modules. -/

def alice : ClientId := ⟨"alice", by decide⟩

def bob : ClientId := ⟨"bob", by decide⟩

def carol : ClientId := ⟨"carol", by decide⟩

end Livelock.StorageRun
