import Livelock.StorageTable
import Livelock.MutualExclusion

namespace Livelock.Reconnect

open Livelock.Lib Livelock.MemoryStorage Livelock.MemoryStorage.InMemoryLockStorage
open Livelock.StorageInvariant Livelock.StorageRun Livelock.StorageTable Livelock.MutualExclusion

/-- The locks that `c` owns, each with its acquisition time and its deadline. -/
def owned (t : Table) (c : ClientId) (l : LockId) : Option (Time × Option Time) :=
  ((t l).filter fun h => decide (h.owner = c)).map fun h => (h.info.time, h.info.markFreeAfter)

/-- Operations that are not issued on behalf of `c`. -/
def Foreign (c : ClientId) : Op → Prop
  | .acquire c' _ _ | .release c' _ | .releaseAll c' _ | .unreleaseAll c' => c' ≠ c
  | _ => True

variable {fnmatch : String → String → Bool} {grace : Option Time → Time} {clk clk' : Clock}
variable {t t' : Table} {op : Op} {answer : Answer} {c : ClientId} {l : LockId} {d now : Time}
variable {h : Holding}

theorem owned_own (hl : t l = some h) (ho : h.owner = c) :
    owned t c l = some (h.info.time, h.info.markFreeAfter) := by
  simp [owned, hl, ho]

theorem owned_other (ho : ∀ h, t l = some h → h.owner ≠ c) : owned t c l = none := by
  cases hl : t l with
  | none => simp [owned, hl]
  | some h => simp [owned, hl, ho h hl]

theorem owned_some {p : Time × Option Time} (h : owned t c l = some p) :
    ∃ info, t l = some ⟨c, info⟩ ∧ p = (info.time, info.markFreeAfter) := by
  cases hl : t l with
  | none => simp [owned, hl] at h
  | some x =>
    obtain ⟨a, info⟩ := x
    by_cases ha : a = c
    · subst a
      rw [owned_own hl rfl, Option.some.injEq] at h
      exact ⟨info, rfl, h.symm⟩
    · simp [owned, hl, ha] at h

theorem owned_update (t : Table) (c : ClientId) (l l' : LockId) (x : Option Holding)
    (hx : owned (Function.update t l x) c l = owned t c l) :
    owned (Function.update t l x) c l' = owned t c l' := by
  by_cases he : l' = l
  · subst l'
    exact hx
  · simp [owned, he]

theorem owned_modify (t : Table) (c : ClientId) (l l' : LockId) (f : MemoryLockInfo → MemoryLockInfo)
    (hf : ∀ info, (f info).time = info.time ∧ (f info).markFreeAfter = info.markFreeAfter) :
    owned (t.modify l f) c l' = owned t c l' := by
  apply owned_update
  rw [owned, Function.update_self, owned]
  cases hl : t l with
  | none => rfl
  | some h => by_cases ho : h.owner = c <;> simp [Option.filter, ho, hf]

theorem owned_mark_other (t : Table) {c c' : ClientId} (hne : c' ≠ c) (m : Option Time) (l : LockId) :
    owned (t.mark c' m) c l = owned t c l := by
  cases hl : t l with
  | none => simp [owned, Table.mark, hl]
  | some h =>
    by_cases ho : h.owner = c'
    · simp [owned, Table.mark, hl, ho, hne, Option.filter]
    · simp [owned, Table.mark, hl, ho]

theorem owned_mark (t : Table) (c : ClientId) (m : Option Time) (l : LockId) :
    owned (t.mark c m) c l = (owned t c l).map fun p => (p.1, m) := by
  cases hl : t l with
  | none => simp [owned, Table.mark, hl]
  | some h => by_cases ho : h.owner = c <;> simp [owned, Table.mark, hl, ho, Option.filter]

theorem owner_ne (hl : owned t c l = none) (ht : t l = some h) : h.owner ≠ c := by
  intro ho
  rw [owned_own ht ho] at hl
  cases hl

def MarkedUntil (t : Table) (c : ClientId) (d : Time) : Prop :=
  ∀ l time m, owned t c l = some (time, m) → m = some d

theorem live_of_marked (hd : MarkedUntil t c d) (hn : now < d) (hl : t l = some h)
    (ho : h.owner = c) : t.live now l = some h := by
  have hm : h.info.markFreeAfter = some d := hd l _ _ (owned_own hl ho)
  have hnot : late now h.info = false := by simp [late, hm, hn]
  rw [live_eq t now hl, hnot]
  rfl

theorem owned_of_live_none (hd : MarkedUntil t c d) (hn : now < d) (hl : t.live now l = none) :
    owned t c l = none := by
  refine owned_other fun h hh ho => ?_
  rw [live_of_marked hd hn hh ho] at hl
  cases hl

theorem owned_sweep (hd : MarkedUntil t c d) (hn : now < d) (hl : t' l = t.live now l) :
    owned t' c l = owned t c l := by
  obtain hkeep | hgone := live_cases t now l
  · rw [owned, owned, hl, hkeep]
  · rw [owned_of_live_none hd hn hgone, owned, hl, hgone]
    rfl

/-- The frame of `c`: operations that are not its own, and that read the
clock before its deadline, leave its locks alone. -/
theorem step_frame (hs : Table.Step fnmatch grace clk clk' t op answer t') (hop : Foreign c op)
    (hd : MarkedUntil t c d) (hread : ∀ n, clk.ticks ≤ n → n < clk'.ticks → clk.reading n < d) :
    owned t' c = owned t c := by
  funext l
  cases hs with
  | held | notOwner | locked | addressSet | found | addToNone | signalRead | readOfNone
  | signalMissing | removeFromNone => rfl
  | created c' l' reentrant n hlive hn hn' =>
    apply owned_update
    have hnow := hread clk.ticks le_rfl (hn.trans_lt hn')
    rw [owned_of_live_none hd hnow hlive]
    exact owned_other fun h hh => by
      rw [Function.update_self, Option.some.injEq] at hh
      rw [← hh]
      exact hop
  | released c' l' h hl ho =>
    apply owned_update
    have hne : ∀ h', t l' = some h' → h'.owner ≠ c := fun h' hl' => by
      rw [hl, Option.some.injEq] at hl'
      rw [← hl', ho]
      exact hop
    rw [owned_other hne, owned, Function.update_self]
    rfl
  | releasedAll c' timeout => exact owned_mark_other t hop _ l
  | unreleasedAll c' => exact owned_mark_other t hop none l
  | lockedLate l' hlive hlt =>
    apply owned_update
    rw [owned_of_live_none hd (hread clk.ticks le_rfl hlt) hlive, owned, Function.update_self]
    rfl
  | signalAdded l' signal => exact owned_modify t c l' l _ fun info => ⟨rfl, rfl⟩
  | signalRemoved l' signal => exact owned_modify t c l' l _ fun info => ⟨rfl, rfl⟩
  | maintained timeoutMs shuffle _ hsweep =>
    obtain ⟨n, hn, hn', hl⟩ | ⟨hl, -⟩ := hsweep l
    · exact owned_sweep hd (hread n hn hn') hl
    · rw [owned, owned, hl]

theorem step_releaseAll {timeout : Option Time}
    (hs : Table.Step fnmatch grace clk clk' t (.releaseAll c timeout) answer t') :
    t' = t.mark c (some (clk.now + grace timeout)) := by
  cases hs
  rfl

theorem step_unreleaseAll (hs : Table.Step fnmatch grace clk clk' t (.unreleaseAll c) answer t') :
    t' = t.mark c none := by
  cases hs
  rfl

variable {s s₀ s₁ s₂ s₃ : InMemoryLockStorage} {e : Call} {T : Time}

theorem performs_step (hrep : Rep s) (hs : Performs fnmatch s e s₁) :
    Table.Step fnmatch s.graceTime ⟨e.reading, 0⟩ ⟨e.reading, e.reads⟩ (holding s) e.op e.answer
      (holding s₁) := by
  obtain ⟨answer, s', clk', heq, hstep⟩ := exec_refines fnmatch hrep e.op ⟨e.reading, 0⟩
  rw [Performs, heq] at hs
  cases hs
  exact hstep

theorem MarkedUntil.congr (hd : MarkedUntil t c d) (h : owned t' c = owned t c) :
    MarkedUntil t' c d := by
  intro l time m hl
  rw [h] at hl
  exact hd l time m hl

theorem run_frame {es : List Call} (h : Run (Performs fnmatch) s es s₁) (hrep : Rep s)
    (hd : MarkedUntil (holding s) c d) (hforeign : ∀ e ∈ es, Foreign c e.op)
    (hread : ∀ e ∈ es, ∀ n, n < e.reads → e.reading n < d) :
    Rep s₁ ∧ owned (holding s₁) c = owned (holding s) c := by
  refine h.invariant (I := fun s₁ => Rep s₁ ∧ owned (holding s₁) c = owned (holding s) c)
    ⟨hrep, rfl⟩ fun u e v he ⟨hu, hsame⟩ hs => ⟨(performs_effect hu hs).rep, ?_⟩
  rw [← hsame]
  exact step_frame (performs_step hu hs) (hforeign e he) (hd.congr hsame)
    fun n _ hn => hread e he n hn

/-- After `releaseAll` and before the deadline it sets, nothing that others do
touches the locks of `c`, and `unreleaseAll` gives back exactly those. -/
theorem reconnect_restores {pre mid : List Call} {k r : Call} {timeout : Option Time}
    (hpre : Run (Performs fnmatch) (empty T) pre s₀) (hk : Performs fnmatch s₀ k s₁)
    (hkop : k.op = .releaseAll c timeout) (hmid : Run (Performs fnmatch) s₁ mid s₂)
    (hforeign : ∀ e ∈ mid, Foreign c e.op)
    (hread : ∀ e ∈ mid, ∀ n, n < e.reads →
      e.reading n < k.reading 0 + graceTime (empty T) timeout)
    (hr : Performs fnmatch s₂ r s₃) (hrop : r.op = .unreleaseAll c) :
    owned (holding s₁) c = (fun l => (owned (holding s₀) c l).map fun p =>
        (p.1, some (k.reading 0 + graceTime (empty T) timeout))) ∧
      owned (holding s₂) c = owned (holding s₁) c ∧
      owned (holding s₃) c = (fun l => (owned (holding s₂) c l).map fun p => (p.1, none)) ∧
      ∀ l, owned (holding s₂) c l = none → holding s₃ l = holding s₂ l := by
  obtain ⟨⟨hrep₀, hT⟩, -⟩ := run_lease "" hpre (rep_empty T) rfl
  have hgrace : graceTime s₀ timeout = graceTime (empty T) timeout := by
    cases timeout <;> simp [graceTime, hT, empty]
  have hmark : holding s₁ =
      (holding s₀).mark c (some (k.reading 0 + graceTime (empty T) timeout)) := by
    have hstep := performs_step hrep₀ hk
    rw [hkop] at hstep
    rw [step_releaseAll hstep, hgrace]
    rfl
  have howned₁ : owned (holding s₁) c = fun l => (owned (holding s₀) c l).map fun p =>
      (p.1, some (k.reading 0 + graceTime (empty T) timeout)) := by
    funext l
    rw [hmark, owned_mark]
  have hd : MarkedUntil (holding s₁) c (k.reading 0 + graceTime (empty T) timeout) := by
    intro l time m hl
    rw [howned₁] at hl
    obtain ⟨p, -, hp⟩ := Option.map_eq_some_iff.mp hl
    exact (congrArg Prod.snd hp).symm
  obtain ⟨hrep₂, hsame⟩ := run_frame hmid (performs_effect hrep₀ hk).rep hd hforeign hread
  have hunmark : holding s₃ = (holding s₂).mark c none := by
    have hstep := performs_step hrep₂ hr
    rw [hrop] at hstep
    exact step_unreleaseAll hstep
  refine ⟨howned₁, hsame, ?_, fun l hl => ?_⟩
  · funext l
    rw [hunmark, owned_mark]
  · rw [hunmark]
    exact Table.mark_unowned (fun _ ht => owner_ne hl ht) none

theorem reconnect_restores_alice : ∃ s₃ : InMemoryLockStorage,
    s₃ = (((((empty 5).createLock ⟨fun _ => 0, 0⟩ alice "l").releaseAll ⟨fun _ => 0, 0⟩ alice
      none).1.createLock ⟨fun _ => 4, 0⟩ bob "m").unreleaseAll alice) ∧
    owned (holding s₃) alice "l" = some (0, none) := by
  let s₀ := (empty 5).createLock ⟨fun _ => 0, 0⟩ alice "l"
  let s₁ := (s₀.releaseAll ⟨fun _ => 0, 0⟩ alice none).1
  let s₂ := s₁.createLock ⟨fun _ => 4, 0⟩ bob "m"
  have hi : Performs (fun _ _ => false) (empty 5)
      ⟨.acquire alice "l" false, fun _ => 0, .bool true, 1⟩ s₀ := rfl
  have hk : Performs (fun _ _ => false) s₀ ⟨.releaseAll alice none, fun _ => 0, .none, 1⟩ s₁ := rfl
  have hm : Performs (fun _ _ => false) s₁ ⟨.acquire bob "m" false, fun _ => 4, .bool true, 1⟩ s₂ :=
    rfl
  have hr : Performs (fun _ _ => false) s₂ ⟨.unreleaseAll alice, fun _ => 4, .none, 0⟩
      (s₂.unreleaseAll alice) := rfl
  have hbefore : (4 : Time) < 0 + 5 := by decide +kernel
  obtain ⟨h₁, h₂, h₃, -⟩ := reconnect_restores (.single hi) hk rfl (.single hm)
    (by simp [Foreign, alice, bob]) (by simpa [graceTime, empty] using hbefore) hr rfl
  refine ⟨s₂.unreleaseAll alice, rfl, ?_⟩
  rw [h₃, h₂, h₁]
  rfl

end Livelock.Reconnect
