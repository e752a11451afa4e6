import Livelock.StorageRun

namespace Livelock.MutualExclusion

open Livelock.Lib Livelock.MemoryStorage Livelock.MemoryStorage.InMemoryLockStorage
open Livelock.StorageInvariant Livelock.StorageLease Livelock.StorageRun

variable (fnmatch : String → String → Bool)

structure Request where
  op : Op
  reading : Nat → Time

def execAll : List Request → InMemoryLockStorage → Except Raised InMemoryLockStorage
  | [], s => .ok s
  | request :: requests, s => do
    let (_, s, _) ← exec fnmatch request.op s ⟨request.reading, 0⟩
    execAll requests s

theorem execAll_rep {s : InMemoryLockStorage} (h : Rep s) (requests : List Request) :
    ∃ s', execAll fnmatch requests s = .ok s' ∧ Rep s' := by
  induction requests generalizing s with
  | nil => exact ⟨s, rfl, h⟩
  | cons request requests ih =>
    obtain ⟨answer, s₁, clk', heq, heff⟩ := exec_effect fnmatch h request.op ⟨request.reading, 0⟩
    obtain ⟨s', heq', hrep⟩ := ih heff.rep
    refine ⟨s', ?_, hrep⟩
    simp only [execAll, heq]
    exact heq'

theorem release_answer {s : InMemoryLockStorage} (h : Rep s) (c : ClientId) (l : LockId) :
    ∃ b s', s.release c l = .ok (b, s') ∧ (b = true ↔ s.locksToClient.get? l = some c) := by
  obtain ⟨hc, r, -, heq⟩ | ⟨hc, heq⟩ := release_spec h c l
  · exact ⟨true, _, heq, by simp [hc]⟩
  · exact ⟨false, _, heq, by simp [hc]⟩

/-- Whatever operations are made on an empty storage, in whatever order of
readings and of shuffling, none raises, the dictionaries stay one consistent
description, and a release succeeds exactly for the owner. -/
theorem storage_representation (T : Time) (requests : List Request) :
    ∃ s, execAll fnmatch requests (empty T) = .ok s ∧ Rep s ∧
      ∀ c l, ∃ b s', s.release c l = .ok (b, s') ∧
        (b = true ↔ s.locksToClient.get? l = some c) := by
  obtain ⟨s, heq, hrep⟩ := execAll_rep fnmatch (rep_empty T) requests
  exact ⟨s, heq, hrep, release_answer hrep⟩

/-- An operation that was made, with its answer and the readings it took. -/
structure Call where
  op : Op
  reading : Nat → Time
  answer : Answer
  reads : Nat

def Performs (s : InMemoryLockStorage) (e : Call) (s' : InMemoryLockStorage) : Prop :=
  exec fnmatch e.op s ⟨e.reading, 0⟩ = .ok (e.answer, s', ⟨e.reading, e.reads⟩)

variable {fnmatch} {s s' : InMemoryLockStorage} {e : Call} {T : Time} {l : LockId} {a : ClientId}

theorem performs_effect (h : Rep s) (hs : Performs fnmatch s e s') :
    Effect s ⟨e.reading, 0⟩ e.op e.answer s' ⟨e.reading, e.reads⟩ := by
  obtain ⟨answer, t, clk', heq, heff⟩ := exec_effect fnmatch h e.op ⟨e.reading, 0⟩
  rw [Performs, heq] at hs
  cases hs
  exact heff

/-- The act of a call on lock `l`, in a storage configured with `T`. -/
def CallActs (T : Time) (l : LockId) (e : Call) (act : Lease.Act ClientId Time) : Prop :=
  ∃ x, Acts (graceTime (empty T)) ⟨e.reading, 0⟩ ⟨e.reading, e.reads⟩ l x e.op e.answer act

/-- A run of the storage is, for each lock, a run of its lease. -/
theorem run_lease (l : LockId) {es : List Call} (h : Run (Performs fnmatch) s es s') (hrep : Rep s)
    (hT : s.releaseAllTimeout = T) : (Rep s' ∧ s'.releaseAllTimeout = T) ∧
      ∃ acts, List.Forall₂ (CallActs T l) es acts ∧ Run Lease.Step (lease s l) acts (lease s' l) := by
  refine h.simulate (I := fun t => Rep t ∧ t.releaseAllTimeout = T) (f := fun t => lease t l)
    ⟨hrep, hT⟩ ?_
  rintro t e u - ⟨ht, hTt⟩ hs
  have heff := performs_effect ht hs
  obtain ⟨act, hact, hstep⟩ := heff.act l
  refine ⟨⟨heff.rep, heff.releaseAllTimeout.trans hTt⟩, act, ⟨lease t l, ?_⟩, hstep⟩
  have hgrace : graceTime t = graceTime (empty T) := by
    funext timeout
    cases timeout <;> simp [graceTime, hTt, empty]
  rwa [hgrace] at hact

theorem CallActs.dropped (h : CallActs T l e (.drop a)) :
    e.op = .release a l ∧ e.answer = .bool true := by
  obtain ⟨op, reading, answer, reads⟩ := e
  obtain ⟨x, h⟩ := h
  cases h
  exact ⟨rfl, rfl⟩

theorem CallActs.suspended {d : Time} (h : CallActs T l e (.suspend a d)) :
    ∃ timeout, e.op = .releaseAll a timeout ∧ d = e.reading 0 + graceTime (empty T) timeout := by
  obtain ⟨op, reading, answer, reads⟩ := e
  obtain ⟨x, h⟩ := h
  cases h
  exact ⟨_, rfl, rfl⟩

theorem CallActs.resumed {act : Lease.Act ClientId Time} (h : CallActs T l e act)
    (hop : e.op = .unreleaseAll a) : act = .resume a := by
  obtain ⟨op, reading, answer, reads⟩ := e
  obtain ⟨x, h⟩ := h
  cases hop
  cases h with
  | elsewhere hel => exact absurd hel id
  | unreleasedAll => rfl

theorem CallActs.cleared {act : Lease.Act ClientId Time} {now : Time} (h : CallActs T l e act)
    (hc : act.Clears now) : ∃ n, n < e.reads ∧ e.reading n = now := by
  obtain ⟨op, reading, answer, reads⟩ := e
  obtain ⟨x, h⟩ := h
  obtain rfl | ⟨b, rfl⟩ := hc
  · cases h with
    | lockedExpired n _ hn => exact ⟨n, hn, rfl⟩
    | swept _ _ n _ hn => exact ⟨n, hn, rfl⟩
  · cases h with
    | takenOver _ _ n _ hn => exact ⟨n, hn, rfl⟩

theorem not_unreleaseAll {es : List Call} {acts : List (Lease.Act ClientId Time)}
    (h : List.Forall₂ (CallActs T l) es acts) (hres : .resume a ∉ acts) :
    ∀ e ∈ es, e.op ≠ .unreleaseAll a := by
  induction h with
  | nil => simp
  | cons hm _ ih =>
    simp only [List.mem_cons, not_or] at hres
    intro e he hop
    obtain rfl | he := List.mem_cons.mp he
    · exact hres.1 (hm.resumed hop).symm
    · exact ih hres.2 e he hop

def Released (a : ClientId) (l : LockId) (es : List Call) : Prop :=
  ∃ e ∈ es, e.op = .release a l ∧ e.answer = .bool true

/-- The locks of `a` were marked in `es`, were not unmarked again, and a later
call of `es` read a clock at or past the mark. -/
def RanOut (T : Time) (a : ClientId) (es : List Call) : Prop :=
  ∃ es₁ k es₂ m es₃ timeout, es = es₁ ++ k :: (es₂ ++ m :: es₃) ∧ k.op = .releaseAll a timeout ∧
    (∀ e ∈ es₂, e.op ≠ .unreleaseAll a) ∧
      ∃ n, n < m.reads ∧ k.reading 0 + graceTime (empty T) timeout ≤ m.reading n

theorem ended_calls {es : List Call} {acts : List (Lease.Act ClientId Time)}
    (h : List.Forall₂ (CallActs T l) es acts) (hend : Lease.Ended a acts) :
    Released a l es ∨ RanOut T a es := by
  obtain hdrop | ⟨pre, d, mid, act, post, now, rfl, hres, hclear, hd⟩ := hend
  · obtain ⟨pre, post, rfl⟩ := List.append_of_mem hdrop
    obtain ⟨es₁, e, es₂, rfl, -, he, -⟩ := forall₂_split h
    exact .inl ⟨e, by simp, he.dropped⟩
  · obtain ⟨es₁, k, rest, rfl, -, hk, hrest⟩ := forall₂_split h
    obtain ⟨es₂, m, es₃, rfl, hmid, hm, -⟩ := forall₂_split hrest
    obtain ⟨timeout, hop, rfl⟩ := hk.suspended
    obtain ⟨n, hn, hread⟩ := hm.cleared hclear
    exact .inr ⟨es₁, k, es₂, m, es₃, timeout, rfl, hop, not_unreleaseAll hmid hres, n, hn,
      by rw [hread]; exact hd⟩

theorem Released.append {es : List Call} (h : Released a l es) (fs : List Call) :
    Released a l (es ++ fs) := by
  obtain ⟨e, he, hop⟩ := h
  exact ⟨e, by simp [he], hop⟩

theorem RanOut.append {es : List Call} (h : RanOut T a es) (fs : List Call) :
    RanOut T a (es ++ fs) := by
  obtain ⟨es₁, k, es₂, m, es₃, timeout, rfl, h⟩ := h
  exact ⟨es₁, k, es₂, m, es₃ ++ fs, timeout, by simp, h⟩

theorem created_lease {c : ClientId} {reentrant : Bool} (h : Rep s) (hs : Performs fnmatch s e s')
    (hop : e.op = .acquire c l reentrant) (hnew : s'.allLocks.get? l = some s.nextRef) :
    lease s' l = some ⟨c, none⟩ := by
  obtain ⟨a, m, clk', -, -, -, heq⟩ | ⟨s₁, clk₁, heq, hrep, -, -, -, -⟩ :=
    acquire_spec h ⟨e.reading, 0⟩ c l reentrant
  · rw [Performs, hop, exec, heq] at hs
    obtain ⟨-, rfl, -⟩ := by simpa [bind, Except.bind] using hs
    exact absurd (h.older l _ hnew) (lt_irrefl _)
  · rw [Performs, hop, exec, heq] at hs
    obtain ⟨-, rfl, -⟩ := by simpa [bind, Except.bind] using hs
    rw [lease_createLock hrep, if_pos rfl]

/-- Mutual exclusion over whole runs: between the call that creates a holding
of `l` for `c₁` and a later successful acquire of `l`, by another client or
not reentrant, `c₁` released `l` or the grace time of `c₁` ran out. -/
theorem mutual_exclusion {pre mid : List Call} {i j : Call} {c₁ c₂ : ClientId}
    {reentrant₁ reentrant₂ : Bool} {s₁ s₂ s₃ s₄ : InMemoryLockStorage}
    (hpre : Run (Performs fnmatch) (empty T) pre s₁) (hi : Performs fnmatch s₁ i s₂)
    (hmid : Run (Performs fnmatch) s₂ mid s₃) (hj : Performs fnmatch s₃ j s₄)
    (hiop : i.op = .acquire c₁ l reentrant₁) (hnew : s₂.allLocks.get? l = some s₁.nextRef)
    (hjop : j.op = .acquire c₂ l reentrant₂) (htrue : j.answer = .bool true)
    (hother : c₂ ≠ c₁ ∨ reentrant₂ = false) :
    Released c₁ l (mid ++ [j]) ∨ RanOut T c₁ (mid ++ [j]) := by
  obtain ⟨⟨hrep₁, hT₁⟩, -⟩ := run_lease l hpre (rep_empty T) rfl
  have heff := performs_effect hrep₁ hi
  obtain ⟨⟨hrep₃, hT₃⟩, acts, hmatch, hrun⟩ :=
    run_lease l hmid heff.rep (heff.releaseAllTimeout.trans hT₁)
  rw [created_lease hrep₁ hi hiop hnew] at hrun
  obtain hend | ⟨m, hheld, hstamp⟩ := Lease.held_or_ended hrun
  · exact (ended_calls hmatch hend).imp (·.append [j]) (·.append [j])
  -- the holding is still there, so the successful call `j` has read past its mark
  obtain ⟨act, hact, hstep⟩ := (performs_effect hrep₃ hj).act l
  rw [hheld] at hact hstep
  generalize lease s₄ l = y at hstep
  obtain ⟨op, reading, answer, reads⟩ := j
  cases hjop
  cases hact with
  | elsewhere hel => exact absurd rfl hel
  | held c a m' _ hx =>
    simp only [Option.some.injEq, Lease.mk.injEq] at hx
    simp only [Answer.bool.injEq, Bool.and_eq_true, decide_eq_true_eq] at htrue
    obtain hne | hre := hother
    · exact absurd (hx.1.trans htrue.2).symm hne
    · rw [hre] at htrue
      exact absurd htrue.1 (by simp)
  | granted => cases hstep
  | takenOver c _ n _ hn =>
    cases hstep with
    | takeOver _ _ hd =>
      obtain ⟨pre, d', post, rfl, hres, he⟩ := hstamp.resolve_left (by simp)
      cases he
      obtain ⟨es₁, k, es₂, rfl, -, hk, hpost⟩ := forall₂_split hmatch
      obtain ⟨timeout, hop, rfl⟩ := hk.suspended
      exact .inr ⟨es₁, k, es₂, ⟨_, reading, _, reads⟩, [], timeout, List.append_assoc _ _ _, hop,
        not_unreleaseAll hpost hres, n, hn, hd⟩

theorem mutual_exclusion_released :
    Released alice "l" ([⟨.release alice "l", fun _ => 0, .bool true, 0⟩] ++
        [⟨.acquire bob "l" false, fun _ => 0, .bool true, 1⟩]) ∨
      RanOut 5 alice ([⟨.release alice "l", fun _ => 0, .bool true, 0⟩] ++
        [⟨.acquire bob "l" false, fun _ => 0, .bool true, 1⟩]) := by
  let s₂ := (empty 5).createLock ⟨fun _ => 0, 0⟩ alice "l"
  let s₃ := removeEntry (s₂.touch alice) "l" alice 0
  have hi : Performs (fun _ _ => false) (empty 5)
      ⟨.acquire alice "l" false, fun _ => 0, .bool true, 1⟩ s₂ := rfl
  have hrel : Performs (fun _ _ => false) s₂
      ⟨.release alice "l", fun _ => 0, .bool true, 0⟩ s₃ := rfl
  have hj : Performs (fun _ _ => false) s₃ ⟨.acquire bob "l" false, fun _ => 0, .bool true, 1⟩
      (s₃.createLock ⟨fun _ => 0, 0⟩ bob "l") := rfl
  exact mutual_exclusion .nil hi (.single hrel) hj rfl rfl rfl rfl (.inl (by decide))

end Livelock.MutualExclusion
