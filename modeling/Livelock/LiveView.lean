import Livelock.StorageTable

namespace Livelock.LiveView

open Livelock.Lib Livelock.MemoryStorage Livelock.MemoryStorage.InMemoryLockStorage
open Livelock.StorageInvariant Livelock.StorageLease Livelock.StorageRun Livelock.StorageTable

def liveOrder (now : Time) (s : InMemoryLockStorage) : List LockId :=
  s.allLocks.keys.filter fun l => ((holding s).live now l).isSome

/-- Two storages that differ at most in entries that are late at `now`. -/
structure Alike (now : Time) (s₁ s₂ : InMemoryLockStorage) : Prop where
  live : (holding s₁).live now = (holding s₂).live now
  order : liveOrder now s₁ = liveOrder now s₂

variable {now t : Time} {s s' s₁ s₂ s₃ s₁' s₂' : InMemoryLockStorage} {l : LockId} {c : ClientId}
variable {tbl : Table} {h : Holding} {m : Option Time}

theorem Alike.symm (h : Alike now s₁ s₂) : Alike now s₂ s₁ := ⟨h.live.symm, h.order.symm⟩

theorem Alike.trans (h : Alike now s₁ s₂) (h' : Alike now s₂ s₃) : Alike now s₁ s₃ :=
  ⟨h.live.trans h'.live, h.order.trans h'.order⟩

theorem live_live (tbl : Table) (hle : now ≤ t) : (tbl.live now).live t = tbl.live t := by
  funext l
  cases hl : tbl l with
  | none => rw [live_of_none t hl, live_of_none t (live_of_none now hl)]
  | some h =>
    cases hn : late now h.info with
    | false =>
      have hlive : tbl.live now l = some h := by rw [live_eq tbl now hl, hn]; rfl
      exact live_congr t (hlive.trans hl.symm)
    | true =>
      have hlive : tbl.live now l = none := by rw [live_eq tbl now hl, hn]; rfl
      rw [live_of_none t hlive, live_eq tbl t hl, late_mono hle hn]
      rfl

theorem liveOrder_later (hle : now ≤ t) (s : InMemoryLockStorage) :
    liveOrder t s = (liveOrder now s).filter fun l => ((holding s).live t l).isSome := by
  rw [liveOrder, liveOrder, List.filter_filter]
  refine List.filter_congr fun l _ => ?_
  cases hn : (holding s).live now l with
  | some h => simp
  | none =>
    have ht : (holding s).live t l = none := by
      rw [← live_live (holding s) hle]
      exact live_of_none t hn
    simp [ht]

theorem Alike.later (h : Alike now s₁ s₂) (hle : now ≤ t) : Alike t s₁ s₂ := by
  have hlive : (holding s₁).live t = (holding s₂).live t := by
    rw [← live_live (holding s₁) hle, h.live, live_live (holding s₂) hle]
  exact ⟨hlive, by rw [liveOrder_later hle, liveOrder_later hle, h.order, hlive]⟩

theorem mem_lockIds (hs : Rep s) : l ∈ s.allLocks.keys ↔ (holding s l).isSome := by
  rw [Dict.mem_keys]
  cases hl : holding s l with
  | none => simp [(holding_none hs).mp hl]
  | some h =>
    obtain ⟨-, r, hr, -⟩ := holding_some hl
    simp [hr]

theorem live_create (tbl : Table) (now : Time) (c : ClientId) (l : LockId) :
    (tbl.create c l now).live now = (tbl.live now).create c l now := by
  funext l'
  by_cases he : l' = l
  · simp [Table.live, Table.create, he, late]
  · simp [Table.live, Table.create, he]

theorem live_mark (hown : ∀ l h, tbl l = some h → h.owner = c → late now h.info = false)
    (hm : ∀ h : Holding, late now (h.marked m).info = false) :
    (tbl.mark c m).live now = (tbl.live now).mark c m := by
  funext l
  cases hl : tbl l with
  | none => simp [Table.live, Table.mark, hl]
  | some h =>
    by_cases ho : h.owner = c
    · simp [Table.live, Table.mark, hl, ho, hown l h hl ho, hm, Option.filter]
    · cases hlate : late now h.info <;> simp [Table.live, Table.mark, hl, ho, hlate, Option.filter]

theorem mem_liveOrder (hs : Rep s) : l ∈ liveOrder now s ↔ ((holding s).live now l).isSome := by
  rw [liveOrder, List.mem_filter, mem_lockIds hs]
  constructor
  · exact fun h => h.2
  · intro h
    refine ⟨?_, h⟩
    cases hl : holding s l with
    | none =>
      rw [live_of_none now hl] at h
      cases h
    | some => rfl

theorem liveOrder_createLock (hs : Rep s) (clk : Clock) (c : ClientId) (hclk : clk.now = now)
    (hfree : holding s l = none) :
    liveOrder now (s.createLock clk c l) = liveOrder now s ++ [l] := by
  have hkeys : (s.createLock clk c l).allLocks.keys = s.allLocks.keys ++ [l] :=
    s.allLocks.keys_set_new _ ((holding_none hs).mp hfree)
  rw [liveOrder, hkeys, List.filter_append, holding_createLock hs, hclk, live_create, liveOrder]
  congr 1
  · refine List.filter_congr fun l' hl' => ?_
    have hne : l' ≠ l := by
      rintro rfl
      rw [mem_lockIds hs, hfree] at hl'
      cases hl'
    rw [Table.create, Function.update_of_ne hne]
  · simp [Table.create]

theorem live_remove_eq (tbl : Table) (now : Time) (l : LockId) :
    (tbl.remove l).live now = (tbl.live now).remove l := by
  funext l'
  rw [live_remove]
  by_cases he : l' = l
  · simp [Table.remove, he]
  · simp [Table.remove, he]

theorem liveOrder_removed (hhold : holding s' = (holding s).remove l)
    (hkeys : s'.allLocks = s.allLocks.erase l) :
    liveOrder now s' = (liveOrder now s).filter fun l' => decide (l' ≠ l) := by
  rw [liveOrder, hkeys, Dict.keys_erase, hhold, liveOrder, List.filter_filter, List.filter_filter]
  refine List.filter_congr fun l' _ => ?_
  rw [live_remove]
  by_cases he : l' = l <;> simp [he]

theorem remove_of_none {tbl : Table} (hl : tbl l = none) : tbl.remove l = tbl :=
  Function.update_eq_self_iff.mpr hl.symm

theorem alike_removed (hs : Rep s) (hlive : (holding s).live now l = none)
    (hhold : holding s' = (holding s).remove l) (hkeys : s'.allLocks = s.allLocks.erase l) :
    Alike now s s' := by
  constructor
  · rw [hhold, live_remove_eq, remove_of_none hlive]
  · rw [liveOrder_removed hhold hkeys, List.filter_eq_self.mpr]
    intro l' hl'
    rw [mem_liveOrder hs] at hl'
    rw [decide_eq_true_eq]
    rintro rfl
    rw [hlive] at hl'
    cases hl'

variable {clk clk' : Clock}

theorem acquire_live (hs : Rep s) (hclk : clk.reading = fun _ => now) (c : ClientId) (l : LockId)
    (reentrant : Bool) :
    ∃ b s' clk', s.acquire clk c l reentrant = .ok (b, s', clk') ∧
      ((∃ h, (holding s).live now l = some h ∧ b = (reentrant && decide (h.owner = c)) ∧ s' = s) ∨
        ((holding s).live now l = none ∧ b = true ∧
          (holding s').live now = ((holding s).live now).create c l now ∧
          liveOrder now s' = liveOrder now s ++ [l])) := by
  have hnow : ∀ clk' : Clock, clk'.reading = clk.reading → clk'.now = now := by
    intro clk' hread
    rw [Clock.now, hread, hclk]
  obtain ⟨h, clk', hlive, -, heq⟩ | ⟨hlive, s₁, clk₁, hclk₁, hrep, hremove, hkeys, heq⟩ :=
    acquire_cases hs clk c l reentrant
  · rw [hnow clk rfl] at hlive
    exact ⟨_, s, clk', heq, .inl ⟨h, hlive, rfl, rfl⟩⟩
  · rw [hnow clk rfl] at hlive
    have hnow₁ : clk₁.now = now := by
      obtain rfl | rfl := hclk₁
      · exact hnow clk₁ rfl
      · exact hnow clk.tick rfl
    have halike := alike_removed hs hlive hremove hkeys
    have hfree : holding s₁ l = none := by rw [hremove, Table.remove, Function.update_self]
    refine ⟨true, _, _, heq, .inr ⟨hlive, rfl, ?_, ?_⟩⟩
    · rw [holding_createLock hrep, hnow₁, live_create, halike.live]
    · rw [liveOrder_createLock hrep clk₁ c hnow₁ hfree, halike.order]

theorem release_live (hs : Rep s) (c : ClientId) (l : LockId)
    (hok : ∀ h, holding s l = some h → h.owner = c → late now h.info = false) :
    ∃ b s', s.release c l = .ok (b, s') ∧
      ((∃ h, (holding s).live now l = some h ∧ h.owner = c ∧ b = true ∧
          (holding s').live now = ((holding s).live now).remove l ∧
          liveOrder now s' = (liveOrder now s).filter fun l' => decide (l' ≠ l)) ∨
        ((∀ h, (holding s).live now l = some h → h.owner ≠ c) ∧ b = false ∧ Alike now s s')) := by
  obtain ⟨hc, r, hr, heq⟩ | ⟨hc, heq⟩ := release_spec hs c l
  · have hl := holding_eq hc hr
    have hlive : (holding s).live now l = some ⟨c, s.objects r⟩ := by
      rw [live_eq (holding s) now hl, hok _ hl rfl]
      rfl
    have hhold : holding (removeEntry (s.touch c) l c r) = (holding s).remove l := by
      rw [holding_removeEntry, holding_touch]
    refine ⟨true, _, heq, .inl ⟨_, hlive, rfl, rfl, ?_, liveOrder_removed hhold rfl⟩⟩
    rw [hhold, live_remove_eq]
  · refine ⟨false, _, heq, .inr ⟨fun h hl ho => hc ?_, rfl, ?_⟩⟩
    · rw [← ho]
      obtain hkeep | hgone := live_cases (holding s) now l
      · exact (holding_some (hkeep.symm.trans hl)).1
      · cases hl.symm.trans hgone
    · exact ⟨by rw [holding_touch], by rw [liveOrder, liveOrder, holding_touch]; rfl⟩

theorem locked_live (hs : Rep s) (hclk : clk.reading = fun _ => now) (l : LockId) :
    ∃ b s' clk', s.locked clk l = .ok (b, s', clk') ∧ b = ((holding s).live now l).isSome ∧
      Alike now s s' := by
  have hnow : clk.now = now := by rw [Clock.now, hclk]
  obtain ⟨a, r, ha, hr, hlive, heq⟩ | ⟨hlive, clk', -, heq⟩ := dropExpired_cases hs clk l
  · rw [hnow] at hlive
    refine ⟨false, removeEntry s l a r, clk.tick, ?_, by rw [hlive]; rfl,
      alike_removed hs hlive (holding_removeEntry s l a r) rfl⟩
    simp [locked, heq, bind, Except.bind, removeEntry]
  · rw [hnow] at hlive
    refine ⟨(s.allLocks.get? l).isSome, s, clk', ?_, ?_, ⟨rfl, rfl⟩⟩
    · simp only [locked, heq, bind, Except.bind]
    · rw [hlive]
      cases hl : holding s l with
      | none =>
        rw [(holding_none hs).mp hl]
        rfl
      | some h =>
        obtain ⟨-, r, hr, -⟩ := holding_some hl
        rw [hr]
        rfl

theorem find_live (fnmatch : String → String → Bool) (hs : Rep s)
    (hclk : clk.reading = fun _ => now) (pattern : String) :
    (s.find fnmatch clk pattern).1 = (liveOrder now s).filterMap fun l =>
      if fnmatch l pattern then ((holding s).live now l).map fun h => (l, h.info.time) else none := by
  rw [find, findIn_standing fnmatch now pattern s.objects s.allLocks.items clk hclk, liveOrder,
    Dict.keys, List.filter_map, List.filterMap_map, ← List.filterMap_eq_filter,
    ← List.filterMap_eq_map, List.filterMap_filterMap, ← List.filterMap_eq_filter,
    List.filterMap_filterMap]
  refine List.filterMap_congr fun p hp => ?_
  obtain ⟨l, r⟩ := p
  have hr := (s.allLocks.mem_items l r).mp hp
  obtain ⟨c, hc⟩ := hs.owned hr
  have hlive := live_eq (holding s) now (holding_eq hc hr)
  cases hlate : late now (s.objects r) <;> cases hmatch : fnmatch l pattern <;>
    simp [hlive, hlate, hmatch, Option.guard]

def LockOp : Op → Prop
  | .acquire _ _ _ | .release _ _ | .locked _ | .find _ => True
  | _ => False

/-- A release does not ask for an own lock that is late. -/
def Punctual (now : Time) (s : InMemoryLockStorage) : Op → Prop
  | .release c l => ∀ h, holding s l = some h → h.owner = c → late now h.info = false
  | _ => True

/-- Storages that are alike give the same answers and stay alike. -/
theorem exec_alike (fnmatch : String → String → Bool) {op : Op} {a₁ a₂ : Answer}
    {clk₁ clk₂ : Clock} (h₁ : Rep s₁) (h₂ : Rep s₂) (ha : Alike now s₁ s₂)
    (hclk : clk.reading = fun _ => now) (hop : LockOp op) (hp₁ : Punctual now s₁ op)
    (hp₂ : Punctual now s₂ op) (heq₁ : exec fnmatch op s₁ clk = .ok (a₁, s₁', clk₁))
    (heq₂ : exec fnmatch op s₂ clk = .ok (a₂, s₂', clk₂)) : a₁ = a₂ ∧ Alike now s₁' s₂' := by
  cases op with
  | acquire c l reentrant =>
    obtain ⟨b₁, t₁, k₁, he₁, hcase₁⟩ := acquire_live h₁ hclk c l reentrant
    obtain ⟨b₂, t₂, k₂, he₂, hcase₂⟩ := acquire_live h₂ hclk c l reentrant
    simp only [exec, he₁, he₂] at heq₁ heq₂
    cases heq₁
    cases heq₂
    rw [← ha.live, ← ha.order] at hcase₂
    obtain ⟨x, hx, rfl, rfl⟩ | ⟨hnone, rfl, hlive₁, horder₁⟩ := hcase₁
    · obtain ⟨x', hx', rfl, rfl⟩ | ⟨hnone, -⟩ := hcase₂
      · cases hx.symm.trans hx'
        exact ⟨rfl, ha⟩
      · cases hx.symm.trans hnone
    · obtain ⟨x', hx', -⟩ | ⟨-, rfl, hlive₂, horder₂⟩ := hcase₂
      · cases hnone.symm.trans hx'
      · exact ⟨rfl, hlive₁.trans hlive₂.symm, horder₁.trans horder₂.symm⟩
  | release c l =>
    obtain ⟨b₁, t₁, he₁, hcase₁⟩ := release_live h₁ c l hp₁
    obtain ⟨b₂, t₂, he₂, hcase₂⟩ := release_live h₂ c l hp₂
    simp only [exec, he₁, he₂] at heq₁ heq₂
    cases heq₁
    cases heq₂
    rw [← ha.live, ← ha.order] at hcase₂
    obtain ⟨x, hx, ho, rfl, hlive₁, horder₁⟩ | ⟨hnot, rfl, ha₁⟩ := hcase₁
    · obtain ⟨x', -, -, rfl, hlive₂, horder₂⟩ | ⟨hnot, -⟩ := hcase₂
      · exact ⟨rfl, hlive₁.trans hlive₂.symm, horder₁.trans horder₂.symm⟩
      · exact absurd ho (hnot x hx)
    · obtain ⟨x, hx, ho, -⟩ | ⟨-, rfl, ha₂⟩ := hcase₂
      · exact absurd ho (hnot x hx)
      · exact ⟨rfl, ha₁.symm.trans (ha.trans ha₂)⟩
  | locked l =>
    obtain ⟨b₁, t₁, k₁, he₁, rfl, ha₁⟩ := locked_live h₁ hclk l
    obtain ⟨b₂, t₂, k₂, he₂, rfl, ha₂⟩ := locked_live h₂ hclk l
    simp only [exec, he₁, he₂] at heq₁ heq₂
    cases heq₁
    cases heq₂
    exact ⟨by rw [ha.live], ha₁.symm.trans (ha.trans ha₂)⟩
  | find pattern =>
    cases heq₁
    cases heq₂
    have hsame : (s₁.find fnmatch clk pattern).1 = (s₂.find fnmatch clk pattern).1 := by
      rw [find_live fnmatch h₁ hclk, find_live fnmatch h₂ hclk, ha.live, ha.order]
    exact ⟨congrArg Answer.found hsame, ha⟩
  | releaseAll | unreleaseAll | setClientLastAddress | addSignal | hasSignal | removeSignal
  | maintenance => exact absurd hop id

def OnTime (now : Time) (s : InMemoryLockStorage) (c : ClientId) : Prop :=
  ∀ l h, holding s l = some h → h.owner = c → late now h.info = false

theorem liveOrder_marked (hkeys : s'.allLocks = s.allLocks)
    (hlive : (holding s').live now = ((holding s).live now).mark c m) :
    liveOrder now s' = liveOrder now s := by
  rw [liveOrder, liveOrder, hkeys, hlive]
  refine List.filter_congr fun l _ => ?_
  rw [Table.mark, Option.isSome_map]

theorem releaseAll_live (hs : Rep s) (hclk : clk.now = now) (c : ClientId) (timeout : Option Time)
    (hgrace : 0 < s.graceTime timeout) (hok : OnTime now s c) :
    (holding (s.releaseAll clk c timeout).1).live now =
        ((holding s).live now).mark c (some (now + s.graceTime timeout)) ∧
      liveOrder now (s.releaseAll clk c timeout).1 = liveOrder now s := by
  have hlive : (holding (s.releaseAll clk c timeout).1).live now =
      ((holding s).live now).mark c (some (now + s.graceTime timeout)) := by
    rw [holding_releaseAll hs, hclk]
    refine live_mark hok fun h => ?_
    have hnot : ¬ now + s.graceTime timeout ≤ now := by simpa using hgrace
    simp [late, hnot]
  exact ⟨hlive, liveOrder_marked rfl hlive⟩

theorem unreleaseAll_live (hs : Rep s) (c : ClientId) (hok : OnTime now s c) :
    (holding (s.unreleaseAll c)).live now = ((holding s).live now).mark c none ∧
      liveOrder now (s.unreleaseAll c) = liveOrder now s := by
  have hlive : (holding (s.unreleaseAll c)).live now = ((holding s).live now).mark c none := by
    rw [holding_unreleaseAll hs]
    exact live_mark hok fun h => by simp [late]
  exact ⟨hlive, liveOrder_marked rfl hlive⟩

theorem deleteLock_order {r : InMemoryLockStorage} (h : s.deleteLock l = .ok r) :
    r.allLocks.keys.Sublist s.allLocks.keys := by
  unfold deleteLock at h
  split at h
  · cases h
  · cases h
  · split at h
    · cases h
      rw [Dict.keys_erase]
      exact List.filter_sublist
    · cases h

theorem sweepLocks_order (locks : List Ref) (h : sweepLocks locks s clk = .ok (s', clk')) :
    s'.allLocks.keys.Sublist s.allLocks.keys := by
  induction locks generalizing s clk with
  | nil =>
    cases h
    exact .refl _
  | cons r locks ih =>
    simp only [sweepLocks] at h
    split at h
    · cases hdel : s.deleteLock (s.objects r).id with
      | error e =>
        rw [hdel] at h
        cases h
      | ok s₁ =>
        rw [hdel] at h
        exact (ih h).trans (deleteLock_order hdel)
    · exact ih h

theorem forgetIdle_order (s : InMemoryLockStorage) (c : ClientId) :
    (s.forgetIdle c).allLocks = s.allLocks := by
  unfold forgetIdle
  split <;> rfl

theorem sweepClients_order (finishAt : Time) (clients : List ClientId)
    (h : sweepClients finishAt clients s clk = .ok (s', clk')) :
    s'.allLocks.keys.Sublist s.allLocks.keys := by
  induction clients generalizing s clk with
  | nil =>
    cases h
    exact .refl _
  | cons c clients ih =>
    simp only [sweepClients] at h
    cases hsweep : sweepLocks (s.locksOf c) (s.touch c) clk with
    | error e =>
      rw [hsweep] at h
      cases h
    | ok r =>
      obtain ⟨s₁, clk₁⟩ := r
      have horder : (s₁.forgetIdle c).allLocks.keys.Sublist s.allLocks.keys := by
        rw [forgetIdle_order]
        exact sweepLocks_order (s := s.touch c) (s.locksOf c) hsweep
      rw [hsweep] at h
      simp only [bind, Except.bind] at h
      split at h
      · cases h
        exact horder
      · exact (ih h).trans horder

theorem liveOrder_swept (hs : Rep s) (hs' : Rep s')
    (horder : s'.allLocks.keys.Sublist s.allLocks.keys)
    (hlive : (holding s').live t = (holding s).live t) : liveOrder t s' = liveOrder t s := by
  have hsub : (liveOrder t s').Sublist (liveOrder t s) := by
    rw [liveOrder, liveOrder, hlive]
    exact horder.filter _
  have hnodup : (liveOrder t s).Nodup := s.allLocks.nodup.filter _
  refine hsub.eq_of_length_le (hnodup.subperm fun l hl => ?_).length_le
  rw [mem_liveOrder hs', hlive, ← mem_liveOrder hs]
  exact hl

/-- A pass of maintenance removes nothing that is not late at its end. -/
theorem maintenance_alike (hs : Rep s) (timeoutMs : Time) (shuffle : Shuffle)
    (hread : ∀ n, clk.reading n ≤ t) (heq : s.maintenance clk timeoutMs shuffle = .ok (s', clk')) :
    Alike t s s' := by
  obtain ⟨s₁, clk₁, heq₁, hstep⟩ := maintenance_step (fun _ _ => false) hs clk timeoutMs shuffle
  obtain ⟨s₂, clk₂, heq₂, hrep, -⟩ := maintenance_spec hs clk timeoutMs shuffle
  cases heq.symm.trans heq₁
  cases heq.symm.trans heq₂
  have hlive : (holding s').live t = (holding s).live t := by
    generalize holding s' = tbl at hstep
    cases hstep with
    | maintained _ _ _ hsweep =>
      funext l
      obtain ⟨n, -, -, hl⟩ | ⟨hl, -⟩ := hsweep l
      · rw [live_congr t hl, live_live (holding s) (hread n)]
      · exact live_congr t hl
  exact ⟨hlive.symm, (liveOrder_swept hs hrep (sweepClients_order _ _ heq) hlive).symm⟩

end Livelock.LiveView
