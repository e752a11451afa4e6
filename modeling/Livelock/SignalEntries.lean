import Livelock.StorageTable

namespace Livelock.SignalEntries

open Livelock.Lib Livelock.MemoryStorage Livelock.MemoryStorage.InMemoryLockStorage
open Livelock.StorageInvariant Livelock.StorageRun Livelock.StorageTable

def entry (s : InMemoryLockStorage) (l : LockId) : Option (Ref × Option (Finset Signal)) :=
  (s.allLocks.get? l).map fun r => (r, (s.objects r).signals)

def raised (signals : Option (Finset Signal)) (signal : Signal) : Prop := signal ∈ signals.getD ∅

def add (signal : Signal) (signals : Option (Finset Signal)) : Option (Finset Signal) :=
  some (insert signal (signals.getD ∅))

def drop (signal : Signal) (signals : Option (Finset Signal)) : Option (Finset Signal) :=
  signals.map (·.erase signal)

variable {s s' : InMemoryLockStorage} {l l' : LockId} {c : ClientId} {r : Ref} {clk clk' : Clock}
  {signal signal' : Signal} {signals : Option (Finset Signal)}

theorem hasSignal_iff (info : MemoryLockInfo) (signal : Signal) :
    info.hasSignal signal = true ↔ raised info.signals signal := by
  unfold MemoryLockInfo.hasSignal raised
  cases info.signals <;> simp

theorem not_raised_none (signal : Signal) : ¬ raised none signal := by simp [raised]

theorem raised_add : raised (add signal' signals) signal ↔ signal = signal' ∨ raised signals signal := by
  simp [raised, add]

theorem raised_drop :
    raised (drop signal' signals) signal ↔ signal ≠ signal' ∧ raised signals signal := by
  cases signals <;> simp [raised, drop]

theorem entry_congr (ha : s'.allLocks = s.allLocks)
    (hsignals : ∀ r, (s'.objects r).signals = (s.objects r).signals) : entry s' l = entry s l := by
  simp [entry, ha, hsignals]

theorem entry_markAll (c : ClientId) (m : Option Time) :
    entry { s.touch c with objects := markAll m ((s.touch c).locksOf c) s.objects } l = entry s l := by
  refine entry_congr rfl fun r => ?_
  simp only [markAll_apply]
  split <;> rfl

theorem entry_forgetIdle (s : InMemoryLockStorage) (c : ClientId) :
    entry (s.forgetIdle c) l = entry s l := by
  unfold forgetIdle
  split <;> exact entry_congr rfl fun _ => rfl

def Keeps (s s' : InMemoryLockStorage) (l : LockId) : Prop := entry s' l = entry s l ∨ entry s' l = none

theorem Keeps.refl (s : InMemoryLockStorage) (l : LockId) : Keeps s s l := .inl rfl

theorem Keeps.trans {s'' : InMemoryLockStorage} (h : Keeps s s' l) (h' : Keeps s' s'' l) :
    Keeps s s'' l := by
  obtain he | he := h'
  · obtain he' | he' := h
    · exact .inl (he.trans he')
    · exact .inr (he.trans he')
  · exact .inr he

theorem deleteLock_entry (h : s.deleteLock l' = .ok s') (l : LockId) :
    (l ≠ l' → entry s' l = entry s l) ∧ Keeps s s' l := by
  unfold deleteLock at h
  split at h
  · cases h
  · cases h
  · split at h
    · cases h
      by_cases he : l = l'
      · exact ⟨fun hne => absurd he hne, .inr (by simp [entry, he])⟩
      · have hsame : entry { s with allLocks := s.allLocks.erase l' } l = entry s l := by
          simp [entry, Dict.get?_erase, he]
        exact ⟨fun _ => hsame, .inl hsame⟩
    · cases h

theorem dropExpired_entry (h : s.dropExpired clk l' = .ok (s', clk')) (l : LockId) :
    (l ≠ l' → entry s' l = entry s l) ∧ Keeps s s' l := by
  unfold dropExpired at h
  split at h
  · cases h
    exact ⟨fun _ => rfl, .refl _ l⟩
  · simp only at h
    split at h
    · cases hdel : s.deleteLock l' with
      | error e =>
        rw [hdel] at h
        cases h
      | ok s₁ =>
        rw [hdel] at h
        cases h
        exact deleteLock_entry hdel l
    · cases h
      exact ⟨fun _ => rfl, .refl _ l⟩

theorem sweepLocks_entry (locks : List Ref) (h : sweepLocks locks s clk = .ok (s', clk')) (l : LockId) :
    Keeps s s' l := by
  induction locks generalizing s clk with
  | nil =>
    cases h
    exact .refl _ l
  | cons r locks ih =>
    simp only [sweepLocks] at h
    split at h
    · cases hdel : s.deleteLock (s.objects r).id with
      | error e =>
        rw [hdel] at h
        cases h
      | ok s₁ =>
        rw [hdel] at h
        exact (deleteLock_entry hdel l).2.trans (ih h)
    · exact ih h

theorem sweepClients_entry (finishAt : Time) (clients : List ClientId)
    (h : sweepClients finishAt clients s clk = .ok (s', clk')) (l : LockId) : Keeps s s' l := by
  induction clients generalizing s clk with
  | nil =>
    cases h
    exact .refl _ l
  | cons c clients ih =>
    simp only [sweepClients] at h
    cases hsweep : sweepLocks (s.locksOf c) (s.touch c) clk with
    | error e =>
      rw [hsweep] at h
      cases h
    | ok p =>
      obtain ⟨s₁, clk₁⟩ := p
      have htouch : Keeps s (s.touch c) l := .inl (entry_congr rfl fun _ => rfl)
      have hbody : Keeps s (s₁.forgetIdle c) l :=
        (htouch.trans (sweepLocks_entry (s.locksOf c) hsweep l)).trans (.inl (entry_forgetIdle s₁ c))
      rw [hsweep] at h
      simp only [bind, Except.bind] at h
      split at h
      · cases h
        exact hbody
      · exact hbody.trans (ih h)

theorem createLock_entry (h : Rep s) (clk : Clock) (c : ClientId) (l' l : LockId) :
    entry (s.createLock clk c l') l = if l = l' then some (s.nextRef, none) else entry s l := by
  by_cases he : l = l'
  · simp [entry, createLock, he]
  · cases hr : s.allLocks.get? l with
    | none => simp [entry, createLock, Dict.get?_set, he, hr]
    | some r =>
      have hne : r ≠ s.nextRef := (h.older l r hr).ne
      simp [entry, createLock, Dict.get?_set, he, hr, hne]

theorem update_entry (h : Rep s) (hr : s.allLocks.get? l' = some r) (lock : MemoryLockInfo) (l : LockId) :
    entry { s with objects := Function.update s.objects r lock } l =
      if l = l' then some (r, lock.signals) else entry s l := by
  by_cases he : l = l'
  · simp [entry, he, hr]
  · cases hr' : s.allLocks.get? l with
    | none => simp [entry, he, hr']
    | some r' =>
      have hne : r' ≠ r := by
        rintro rfl
        exact he (h.entry_inj hr' hr)
      simp [entry, he, hr', hne]

/-- What an operation does to the entry of a lock. -/
inductive Touches (s : InMemoryLockStorage) (l : LockId) (op : Op) (answer : Answer)
    (s' : InMemoryLockStorage) : Prop
  | keeps : Keeps s s' l → (∀ signal, op ≠ .addSignal l signal) →
      (∀ signal, op ≠ .removeSignal l signal) → Touches s l op answer s'
  | creates (c : ClientId) (reentrant : Bool) : op = .acquire c l reentrant → answer = .bool true →
      entry s' l = some (s.nextRef, none) → Touches s l op answer s'
  | adds (signal : Signal) : op = .addSignal l signal →
      entry s' l = (entry s l).map (fun p => (p.1, add signal p.2)) → Touches s l op answer s'
  | drops (signal : Signal) : op = .removeSignal l signal →
      entry s' l = (entry s l).map (fun p => (p.1, drop signal p.2)) → Touches s l op answer s'

theorem acquire_touches (h : Rep s) {reentrant b : Bool}
    (heq : s.acquire clk c l' reentrant = .ok (b, s', clk')) (l : LockId) :
    Keeps s s' l ∨ (l = l' ∧ b = true ∧ entry s' l = some (s.nextRef, none)) := by
  obtain ⟨s₁, clk₁, hd, hrep, hclears, -⟩ := StorageLease.dropExpired_spec h clk l'
  have hdrop := dropExpired_entry hd l
  cases howner : s₁.locksToClient.get? l' with
  | some lockedBy =>
    simp only [acquire, hd, bind, Except.bind, howner] at heq
    cases heq
    exact .inl hdrop.2
  | none =>
    simp only [acquire, hd, bind, Except.bind, howner] at heq
    cases heq
    by_cases he : l = l'
    · refine .inr ⟨he, rfl, ?_⟩
      rw [createLock_entry hrep, if_pos he, hclears.nextRef]
    · refine .inl (.inl ?_)
      rw [createLock_entry hrep, if_neg he, hdrop.1 he]

theorem release_entry {b : Bool} (heq : s.release c l' = .ok (b, s')) (l : LockId) : Keeps s s' l := by
  have htouch : Keeps s (s.touch c) l := .inl (entry_congr rfl fun _ => rfl)
  unfold release at heq
  simp only at heq
  split at heq
  · cases hdel : (s.touch c).deleteLock l' with
    | error e =>
      rw [hdel] at heq
      cases heq
    | ok s₁ =>
      rw [hdel] at heq
      cases heq
      exact htouch.trans (deleteLock_entry hdel l).2
  · cases heq
    exact htouch

theorem addSignal_entry (h : Rep s) (l' : LockId) (signal : Signal) (l : LockId) :
    entry (s.addSignal l' signal).2 l =
      if l = l' then (entry s l).map (fun p => (p.1, add signal p.2)) else entry s l := by
  cases hr : s.allLocks.get? l' with
  | none =>
    have hnone : entry s l' = none := by rw [entry, hr, Option.map_none]
    simp only [addSignal, hr]
    by_cases he : l = l'
    · rw [if_pos he, he, hnone, Option.map_none]
    · rw [if_neg he]
  | some r =>
    simp only [addSignal, hr]
    rw [update_entry h hr]
    by_cases he : l = l'
    · rw [if_pos he, if_pos he, he, entry, hr]
      rfl
    · rw [if_neg he, if_neg he]

theorem removeSignal_entry (h : Rep s) (l' : LockId) (signal : Signal) (l : LockId) :
    entry (s.removeSignal l' signal).2 l =
      if l = l' then (entry s l).map (fun p => (p.1, drop signal p.2)) else entry s l := by
  by_cases he : l = l'
  · rw [if_pos he]
    subst l'
    cases hr : s.allLocks.get? l with
    | none => simp [removeSignal, hr, entry]
    | some r =>
      cases hsig : (s.objects r).signals with
      | none => simp [removeSignal, hr, hsig, entry, drop]
      | some signals =>
        by_cases hm : signal ∈ signals
        · simp only [removeSignal, hr, hsig, if_pos hm]
          rw [update_entry h hr, if_pos rfl, entry, hr, Option.map_some, Option.map_some, hsig, drop,
            Option.map_some]
        · simp [removeSignal, hr, hsig, hm, entry, drop]
  · rw [if_neg he]
    cases hr : s.allLocks.get? l' with
    | none => simp only [removeSignal, hr]
    | some r =>
      cases hsig : (s.objects r).signals with
      | none => simp only [removeSignal, hr, hsig]
      | some signals =>
        by_cases hm : signal ∈ signals
        · simp only [removeSignal, hr, hsig, if_pos hm]
          rw [update_entry h hr, if_neg he]
        · simp only [removeSignal, hr, hsig, if_neg hm]

theorem exec_touches (fnmatch : String → String → Bool) (h : Rep s) {op : Op} {answer : Answer}
    (heq : exec fnmatch op s clk = .ok (answer, s', clk')) (l : LockId) :
    Touches s l op answer s' := by
  cases op with
  | acquire c l' reentrant =>
    cases hacq : s.acquire clk c l' reentrant with
    | error e =>
      simp only [exec, hacq] at heq
      cases heq
    | ok p =>
      obtain ⟨b, s₁, clk₁⟩ := p
      simp only [exec, hacq] at heq
      cases heq
      obtain hk | ⟨rfl, rfl, hnew⟩ := acquire_touches h hacq l
      · exact .keeps hk (fun _ => by simp) (fun _ => by simp)
      · exact .creates c reentrant rfl rfl hnew
  | release c l' =>
    cases hrel : s.release c l' with
    | error e =>
      simp only [exec, hrel] at heq
      cases heq
    | ok p =>
      obtain ⟨b, s₁⟩ := p
      simp only [exec, hrel] at heq
      cases heq
      exact .keeps (release_entry hrel l) (fun _ => by simp) (fun _ => by simp)
  | releaseAll c timeout =>
    cases heq
    exact .keeps (.inl (entry_markAll c _)) (fun _ => by simp) (fun _ => by simp)
  | unreleaseAll c =>
    cases heq
    exact .keeps (.inl (entry_markAll c none)) (fun _ => by simp) (fun _ => by simp)
  | locked l' =>
    obtain ⟨s₁, clk₁, hd, -⟩ := StorageLease.dropExpired_spec h clk l'
    simp only [exec, locked, hd] at heq
    cases heq
    exact .keeps (dropExpired_entry hd l).2 (fun _ => by simp) (fun _ => by simp)
  | setClientLastAddress c address =>
    cases heq
    exact .keeps (.inl (entry_congr rfl fun _ => rfl)) (fun _ => by simp) (fun _ => by simp)
  | find pattern | hasSignal l' signal =>
    cases heq
    exact .keeps (.refl _ l) (fun _ => by simp) (fun _ => by simp)
  | addSignal l' signal =>
    cases heq
    have hentry := addSignal_entry h l' signal l
    by_cases he : l = l'
    · rw [if_pos he] at hentry
      exact .adds signal (by rw [he]) hentry
    · rw [if_neg he] at hentry
      exact .keeps (.inl hentry) (fun _ ho => he (Op.addSignal.inj ho).1.symm) (fun _ => by simp)
  | removeSignal l' signal =>
    cases heq
    have hentry := removeSignal_entry h l' signal l
    by_cases he : l = l'
    · rw [if_pos he] at hentry
      exact .drops signal (by rw [he]) hentry
    · rw [if_neg he] at hentry
      exact .keeps (.inl hentry) (fun _ => by simp) (fun _ ho => he (Op.removeSignal.inj ho).1.symm)
  | maintenance timeoutMs shuffle =>
    cases hm : s.maintenance clk timeoutMs shuffle with
    | error e =>
      simp only [exec, hm] at heq
      cases heq
    | ok p =>
      obtain ⟨s₁, clk₁⟩ := p
      simp only [exec, hm] at heq
      cases heq
      exact .keeps (sweepClients_entry _ _ hm l) (fun _ => by simp) (fun _ => by simp)

theorem hasSignal_answer (he : entry s l = some (r, signals)) (signal : Signal) :
    ∃ b, s.hasSignal l signal = .bool b ∧ (b = true ↔ raised signals signal) := by
  obtain ⟨r', hr, heq⟩ := Option.map_eq_some_iff.mp he
  obtain ⟨rfl, rfl⟩ := Prod.mk.inj heq
  refine ⟨(s.objects r').hasSignal signal, ?_, hasSignal_iff _ signal⟩
  simp only [hasSignal, hr]

theorem removeSignal_answer (he : entry s l = some (r, signals)) (signal : Signal) :
    ∃ b, (s.removeSignal l signal).1 = .bool b ∧ (b = true ↔ raised signals signal) := by
  obtain ⟨r', hr, heq⟩ := Option.map_eq_some_iff.mp he
  obtain ⟨rfl, rfl⟩ := Prod.mk.inj heq
  cases hsig : (s.objects r').signals with
  | none => exact ⟨false, by simp only [removeSignal, hr, hsig], by simp [not_raised_none]⟩
  | some set =>
    by_cases hm : signal ∈ set
    · exact ⟨true, by simp only [removeSignal, hr, hsig, if_pos hm], by simp [raised, hm]⟩
    · exact ⟨false, by simp only [removeSignal, hr, hsig, if_neg hm], by simp [raised, hm]⟩

end Livelock.SignalEntries
