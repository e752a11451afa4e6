import Livelock.ServerLease

namespace Livelock.ClientRecords

open Livelock.Lib Livelock.MemoryStorage Livelock.MemoryStorage.InMemoryLockStorage
open Livelock.StorageInvariant Livelock.StorageRun Livelock.ServerLease

def Listed (s : InMemoryLockStorage) (c : ClientId) : Prop := (s.clientToLocks.get? c).isSome

/-- No record of a client goes. -/
structure Keeps (s s' : InMemoryLockStorage) : Prop where
  address : s'.clientLastAddress = s.clientLastAddress
  listed : ∀ c, Listed s c → Listed s' c

/-- No client gets a lock, and one that is forgotten has none: its last address
goes with its list. -/
structure Forgets (s s' : InMemoryLockStorage) : Prop where
  fewer : ∀ c, s.locksOf c = [] → s'.locksOf c = []
  address : ∀ c, s'.getClientLastAddress c = s.getClientLastAddress c ∨
    (s'.getClientLastAddress c = none ∧ s'.locksOf c = [])
  listed : ∀ c, Listed s c → Listed s' c ∨ s'.getClientLastAddress c = none

variable {s s' s'' : InMemoryLockStorage} {c : ClientId} {l : LockId} {clk clk' : Clock}

theorem keeps_refl (s : InMemoryLockStorage) : Keeps s s := ⟨rfl, fun _ => id⟩

theorem Keeps.trans (h : Keeps s s') (h' : Keeps s' s'') : Keeps s s'' :=
  ⟨h'.address.trans h.address, fun c hc => h'.listed c (h.listed c hc)⟩

theorem Keeps.forgets (h : Keeps s s') (hfewer : ∀ c, s.locksOf c = [] → s'.locksOf c = []) :
    Forgets s s' where
  fewer := hfewer
  address c := .inl (by rw [getClientLastAddress, h.address, getClientLastAddress])
  listed c hc := .inl (h.listed c hc)

theorem forgets_refl (s : InMemoryLockStorage) : Forgets s s := (keeps_refl s).forgets fun _ => id

theorem Forgets.trans (h : Forgets s s') (h' : Forgets s' s'') : Forgets s s'' where
  fewer c hc := h'.fewer c (h.fewer c hc)
  address c := by
    obtain hc | hc := h'.address c
    · rw [hc]
      obtain hc' | ⟨hnone, hidle⟩ := h.address c
      · exact .inl hc'
      · exact .inr ⟨hnone, h'.fewer c hidle⟩
    · exact .inr hc
  listed c hc := by
    obtain hc | hnone := h.listed c hc
    · exact h'.listed c hc
    · obtain hsame | ⟨hnone', -⟩ := h'.address c
      · exact .inr (hsame.trans hnone)
      · exact .inr hnone'

theorem listed_set (s : InMemoryLockStorage) (c : ClientId) (locks : List Ref) {c' : ClientId}
    (hc : Listed s c') : (({ s with clientToLocks := s.clientToLocks.set c locks } :
      InMemoryLockStorage).clientToLocks.get? c').isSome := by
  rw [Dict.get?_set]
  split
  · rfl
  · exact hc

theorem keeps_touch (s : InMemoryLockStorage) (c : ClientId) : Keeps s (s.touch c) :=
  ⟨rfl, fun _ => listed_set s c _⟩

theorem listed_touch (s : InMemoryLockStorage) (c : ClientId) : Listed (s.touch c) c := by
  rw [Listed, touch, Dict.get?_set, if_pos rfl]
  rfl

theorem delete_cases (h : s.deleteLock l = .ok s') : ∃ c r, s' = removeEntry s l c r := by
  unfold deleteLock at h
  split at h
  · cases h
  · cases h
  · next c r _ _ =>
    split at h
    · exact ⟨c, r, (Except.ok.inj h).symm⟩
    · cases h

theorem delete_keeps (h : s.deleteLock l = .ok s') : Keeps s s' := by
  obtain ⟨c, r, rfl⟩ := delete_cases h
  exact ⟨rfl, fun _ => listed_set s c _⟩

theorem delete_forgets (h : s.deleteLock l = .ok s') : Forgets s s' := by
  refine (delete_keeps h).forgets fun c' hc' => ?_
  obtain ⟨c, r, rfl⟩ := delete_cases h
  rw [locksOf_removeEntry]
  split
  · next he =>
    rw [← he, hc']
    rfl
  · exact hc'

theorem drop_keeps (h : s.dropExpired clk l = .ok (s', clk')) : Keeps s s' := by
  unfold dropExpired at h
  split at h
  · cases h
    exact keeps_refl s
  · next r _ =>
    dsimp only at h
    split at h
    · cases hd : s.deleteLock l with
      | error e =>
        rw [hd] at h
        cases h
      | ok s₁ =>
        rw [hd] at h
        cases h
        exact delete_keeps hd
    · cases h
      exact keeps_refl s

theorem keeps_create (s : InMemoryLockStorage) (clk : Clock) (c : ClientId) (l : LockId) :
    Keeps s (s.createLock clk c l) := ⟨rfl, fun _ => listed_set s c _⟩

theorem exec_keeps {fnmatch : String → String → Bool} {op : Op} {answer : Answer}
    (h : exec fnmatch op s clk = .ok (answer, s', clk')) (hop : AskedBy c op) : Keeps s s' := by
  cases op with
  | acquire c' l reentrant =>
    simp only [exec, acquire] at h
    cases hd : s.dropExpired clk l with
    | error e =>
      rw [hd] at h
      cases h
    | ok p =>
      obtain ⟨s₁, clk₁⟩ := p
      have hkeeps := drop_keeps hd
      rw [hd] at h
      simp only [bind, Except.bind] at h
      cases ho : s₁.locksToClient.get? l with
      | none =>
        rw [ho] at h
        cases h
        exact hkeeps.trans (keeps_create s₁ clk₁ c' l)
      | some a =>
        rw [ho] at h
        cases h
        exact hkeeps
  | release c' l =>
    simp only [exec, release] at h
    split at h
    · cases hd : (s.touch c').deleteLock l with
      | error e =>
        rw [hd] at h
        cases h
      | ok s₁ =>
        rw [hd] at h
        cases h
        exact (keeps_touch s c').trans (delete_keeps hd)
    · cases h
      exact keeps_touch s c'
  | locked l =>
    simp only [exec, locked] at h
    cases hd : s.dropExpired clk l with
    | error e =>
      rw [hd] at h
      cases h
    | ok p =>
      rw [hd] at h
      cases h
      exact drop_keeps hd
  | find pattern =>
    cases h
    exact keeps_refl s
  | addSignal l signal =>
    cases h
    unfold addSignal
    split
    · exact keeps_refl s
    · exact ⟨rfl, fun _ => id⟩
  | hasSignal l signal =>
    cases h
    exact keeps_refl s
  | removeSignal l signal =>
    cases h
    unfold removeSignal
    split
    · exact keeps_refl s
    split
    · exact keeps_refl s
    split
    · exact ⟨rfl, fun _ => id⟩
    · exact keeps_refl s
  | releaseAll | unreleaseAll | setClientLastAddress | maintenance => exact hop.elim

theorem keeps_releaseAll (s : InMemoryLockStorage) (clk : Clock) (c : ClientId) (timeout : Option Time) :
    Keeps s (s.releaseAll clk c timeout).1 := ⟨rfl, fun _ => listed_set s c _⟩

theorem keeps_unreleaseAll (s : InMemoryLockStorage) (c : ClientId) : Keeps s (s.unreleaseAll c) :=
  ⟨rfl, fun _ => listed_set s c _⟩

theorem sweepLocks_forgets (locks : List Ref) (h : sweepLocks locks s clk = .ok (s', clk')) :
    Forgets s s' := by
  induction locks generalizing s clk with
  | nil =>
    cases h
    exact forgets_refl _
  | cons r locks ih =>
    rw [sweepLocks] at h
    dsimp only at h
    split at h
    · cases hd : s.deleteLock (s.objects r).id with
      | error e =>
        rw [hd] at h
        cases h
      | ok s₁ =>
        rw [hd] at h
        exact (delete_forgets hd).trans (ih h)
    · exact ih h

theorem forgetIdle_forgets (s : InMemoryLockStorage) (c : ClientId) : Forgets s (s.forgetIdle c) := by
  unfold forgetIdle
  split
  · next hidle =>
    refine ⟨fun c' hc' => ?_, fun c' => ?_, fun c' hc' => ?_⟩
    · by_cases he : c' = c
      · simp [locksOf, he]
      · simpa [locksOf, Dict.get?_erase, he] using hc'
    · by_cases he : c' = c
      · exact .inr ⟨by simp [getClientLastAddress, he], by simp [locksOf, he]⟩
      · exact .inl (by simp [getClientLastAddress, Dict.get?_erase, he])
    · by_cases he : c' = c
      · exact .inr (by simp [getClientLastAddress, he])
      · exact .inl (by simpa [Listed, Dict.get?_erase, he] using hc')
  · exact (keeps_touch s c).forgets fun c' hc' => (locksOf_touch s c c').trans hc'

theorem sweepClients_forgets (finishAt : Time) (clients : List ClientId)
    (h : sweepClients finishAt clients s clk = .ok (s', clk')) : Forgets s s' := by
  induction clients generalizing s clk with
  | nil =>
    cases h
    exact forgets_refl _
  | cons c clients ih =>
    rw [sweepClients] at h
    cases hd : sweepLocks (s.locksOf c) (s.touch c) clk with
    | error e =>
      rw [hd] at h
      cases h
    | ok p =>
      obtain ⟨s₁, clk₁⟩ := p
      rw [hd] at h
      have htouch : Forgets s (s.touch c) :=
        (keeps_touch s c).forgets fun c' hc' => (locksOf_touch s c c').trans hc'
      have hclient := (htouch.trans (sweepLocks_forgets _ hd)).trans (forgetIdle_forgets s₁ c)
      simp only [bind, Except.bind] at h
      split at h
      · cases h
        exact hclient
      · exact hclient.trans (ih h)

/-- A pass, cut short or not, forgets only clients that have no lock when it ends. -/
theorem maintenance_forgets {timeoutMs : Time} {shuffle : Shuffle}
    (h : s.maintenance clk timeoutMs shuffle = .ok (s', clk')) : Forgets s s' :=
  sweepClients_forgets _ _ h

end Livelock.ClientRecords
