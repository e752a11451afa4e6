import Livelock.InterruptedRun

namespace Livelock.InterruptedStorage

open Livelock.Lib Livelock.MemoryStorage Livelock.StorageInvariant
open Livelock.StorageLease Livelock.StorageRun Livelock.Interrupts Livelock.InterruptedRun
open Livelock.Lib.Prog (triple_bind triple_ret triple_raise triple_perform triple_lift)

variable (spared : Prop) (s₀ : InMemoryLockStorage)

/-- What a program comes to among the signals that may arrive. -/
def Spec {α : Type} (P : World → Prop) (p : Comp α) (Q : α → World → Prop) (F : Exc → World → Prop) :
    Prop :=
  Prog.Triple (Performs (Spares spared)) (Interrupted (Spares spared)) P p Q F

structure On (inCommand inGuard : Bool) (s : InMemoryLockStorage) (clk : Clock) (w : World) : Prop where
  within : Within spared s₀ inCommand inGuard w
  store : w.store = s
  clk : w.clk = clk

def Broken (inCommand inGuard : Bool) (x : Exc) (w : World) : Prop :=
  (x = .exit ∧ Over spared s₀ inCommand inGuard w) ∨
    (x ≠ .exit ∧ ¬ spared ∧ Within spared s₀ inCommand inGuard w)

/-- The program does, update by update, what the operation `result` is of
does at once. -/
def Sim {α : Type} (inCommand inGuard : Bool) (s : InMemoryLockStorage) (clk : Clock) (p : Comp α)
    (result : Except Raised (α × InMemoryLockStorage × Clock)) : Prop :=
  Spec spared (On spared s₀ inCommand inGuard s clk) p
    (fun a w => Within spared s₀ inCommand inGuard w ∧ result = .ok (a, w.store, w.clk))
    (Broken spared s₀ inCommand inGuard)

variable {spared s₀} {P G : World → Prop} {F : Exc → World → Prop} {inCommand inGuard : Bool}
  {s s' : InMemoryLockStorage} {clk clk' : Clock} {α β : Type} {op : Op} {l : LockId} {c : ClientId}
  {r : Ref}

theorem spec_ask {e : Call} {Q : e.Value → World → Prop} (hP : Steady spared P G)
    (hQ : ∀ w, P w → Q (w.perform e).1 (w.perform e).2) (hF : ∀ w, G w → F .exit w) :
    Spec spared P (ask e) Q F := by
  refine triple_bind (triple_perform ?_ fun w o w' hw hp => ?_) fun o => triple_lift
  · rintro w w' ⟨hspares, hs⟩ hw
    exact (hP w hw hspares).1 w' hs
  · cases hp with
    | step => exact hQ w hw
    | exit _ hspares hs => exact hF w' ((hP w hw hspares).2 w' hs)

theorem signal_same {w w' : World} {o : Except Exc Unit} (hs : w.signal = (o, w')) :
    w'.store = w.store ∧ w'.clk = w.clk := by
  obtain ⟨-, -, hstore, hclk, -, -⟩ := killed_same w
  rw [signal_eq] at hs
  split at hs
  · cases hs
    split
    · exact ⟨hstore, hclk⟩
    · exact ⟨hstore, hclk⟩
  · cases hs
    exact ⟨hstore, hclk⟩

theorem steady_on : Steady spared (On spared s₀ inCommand inGuard s clk) (Over spared s₀ inCommand inGuard) := by
  refine fun w hw hspares => ⟨fun w' hs => ?_, fun w' hs => ?_⟩
  · obtain ⟨hstore, hclk⟩ := signal_same hs
    exact ⟨(steady_within w hw.within hspares).1 w' hs, hstore.trans hw.store, hclk.trans hw.clk⟩
  · exact (steady_within w hw.within hspares).2 w' hs

variable {result : Except Raised (β × InMemoryLockStorage × Clock)}

theorem sim_bind {result₀ : Except Raised (α × InMemoryLockStorage × Clock)} {p : Comp α}
    {f : α → Comp β} (hp : Sim spared s₀ inCommand inGuard s clk p result₀)
    (hf : ∀ a s' clk', result₀ = .ok (a, s', clk') →
      Sim spared s₀ inCommand inGuard s' clk' (f a) result) :
    Sim spared s₀ inCommand inGuard s clk (p >>= f) result := by
  refine triple_bind hp fun a => ?_
  intro w o w' hw hexec
  exact hf a w.store w.clk hw.2 w o w' ⟨hw.1, rfl, rfl⟩ hexec

theorem sim_ret {a : β} (h : result = .ok (a, s, clk)) :
    Sim spared s₀ inCommand inGuard s clk (pure a) result := by
  refine triple_ret fun w hw => ⟨hw.within, ?_⟩
  rw [hw.store, hw.clk]
  exact h

theorem sim_raise {e : Raised} (h : ¬ spared) :
    Sim spared s₀ inCommand inGuard s clk (.raise (.raised e)) result :=
  triple_raise fun _ hw => .inr ⟨by simp, h, hw.within⟩

theorem spec_look (hP : Steady spared P G) (hF : ∀ w, G w → F .exit w) :
    Spec spared P look (fun st w => P w ∧ w.state = st) F :=
  spec_ask hP (fun _ hw => ⟨hw, rfl⟩) hF

theorem broken_exit (w : World) (hw : Over spared s₀ inCommand inGuard w) :
    Broken spared s₀ inCommand inGuard .exit w := .inl ⟨rfl, hw⟩

theorem sim_store {f : InMemoryLockStorage → Comp β}
    (hf : Sim spared s₀ inCommand inGuard s clk (f s) result) :
    Sim spared s₀ inCommand inGuard s clk (store >>= f) result := by
  refine triple_bind (triple_bind (spec_look steady_on broken_exit) fun st =>
    triple_ret (Q := fun s' w => On spared s₀ inCommand inGuard s clk w ∧ s' = s) ?_) fun s' => ?_
  · rintro w ⟨hw, rfl⟩
    exact ⟨hw, hw.store⟩
  · rintro w o w' ⟨hw, rfl⟩ hexec
    exact hf w o w' hw hexec

theorem sim_time {f : Time → Comp β}
    (hf : Sim spared s₀ inCommand inGuard s clk.tick (f clk.now) result) :
    Sim spared s₀ inCommand inGuard s clk (time >>= f) result := by
  have htime : Spec spared (On spared s₀ inCommand inGuard s clk) time
      (fun now w => On spared s₀ inCommand inGuard s clk.tick w ∧ now = clk.now)
      (Broken spared s₀ inCommand inGuard) := by
    refine spec_ask steady_on (fun w hw => ?_) broken_exit
    obtain ⟨hwithin, hstore, rfl⟩ := hw
    exact ⟨⟨{ hwithin with base := base_congr hwithin.base rfl rfl hwithin.base.flagged }, hstore, rfl⟩, rfl⟩
  refine triple_bind htime fun now => ?_
  rintro w o w' ⟨hw, rfl⟩ hexec
  exact hf w o w' hw hexec

/-- An update that a dump may see leaves the invariant, or is one of the two
pops. -/
def Fits (spared : Prop) (inCommand inGuard : Bool) (s : InMemoryLockStorage) (u : Update) : Prop :=
  spared → (inCommand = true ∧ inGuard = true) ∨ Rep (u.apply s) ∨ (inGuard = false ∧ u.isPop = true)

theorem within_update {w : World} {u : Update} (h : Within spared s₀ inCommand inGuard w)
    (hop : inGuard = false → guarded op = false) (hu : Fits spared inCommand inGuard w.store u) :
    Within spared s₀ inCommand inGuard ((w.setStore (u.apply w.store)).note (.updated op u)) where
  base := base_event h.base rfl rfl (fun n hn => by cases hn) (fun _ hs => by cases hs) h.base.flagged
  operations := h.operations
  commands := h.commands
  kill := h.kill
  saved hguard hkill := saved_append (h.saved hguard hkill) (by simp [unguarded, hop hguard])
  fit hspared := by
    have hunder : underway (w.log ++ [.updated op u]) = u.isPop := underway_updated op u
    exact (hu hspared).imp_right fun hrest => hrest.imp_right fun hpop => ⟨hpop.1, hunder.trans hpop.2⟩

theorem sim_updated {u : Update} (hop : inGuard = false → guarded op = false)
    (hu : Fits spared inCommand inGuard s u) :
    Sim spared s₀ inCommand inGuard s clk (update op u) (.ok ((), u.apply s, clk)) := by
  refine spec_ask steady_on (fun w hw => ?_) broken_exit
  obtain ⟨hwithin, rfl, rfl⟩ := hw
  exact ⟨within_update hwithin hop hu, rfl⟩

theorem sim_update {u : Update} {f : Unit → Comp β} (hop : inGuard = false → guarded op = false)
    (hu : Fits spared inCommand inGuard s u)
    (hf : Sim spared s₀ inCommand inGuard (u.apply s) clk (f ()) result) :
    Sim spared s₀ inCommand inGuard s clk (update op u >>= f) result := by
  refine sim_bind (sim_updated hop hu) fun a s' clk' h => ?_
  cases h
  exact hf

/-- The storage satisfies its invariant, or is in the guard of a command, which
no dump looks into. -/
def Sees (spared : Prop) (inCommand inGuard : Bool) (s : InMemoryLockStorage) : Prop :=
  spared → (inCommand = true ∧ inGuard = true) ∨ Rep s

theorem sees_touch (h : Sees spared inCommand inGuard s) (c : ClientId) :
    Sees spared inCommand inGuard (s.touch c) :=
  fun hspared => (h hspared).imp_right fun hrep => rep_touch hrep c

theorem sees_fits {u : Update} (h : Sees spared inCommand inGuard (u.apply s)) :
    Fits spared inCommand inGuard s u :=
  fun hspared => (h hspared).imp_right .inl

theorem sim_locksOf (hop : inGuard = false → guarded op = false)
    (hu : s.clientToLocks.get? c = none → Sees spared inCommand inGuard s) :
    Sim spared s₀ inCommand inGuard s clk (locksOf op c) (.ok (s.locksOf c, s.touch c, clk)) := by
  refine sim_store ?_
  cases hlocks : s.clientToLocks.get? c with
  | some locks =>
    have hsame : s.locksOf c = locks := by rw [InMemoryLockStorage.locksOf, hlocks, Option.getD_some]
    refine sim_ret ?_
    rw [hsame, touch_same ((Dict.mem_keys _ c).mpr ⟨locks, hlocks⟩)]
  | none =>
    have hnil : s.locksOf c = [] := by rw [InMemoryLockStorage.locksOf, hlocks, Option.getD_none]
    have htouch : s.touch c = (Update.insertList c).apply s := by
      rw [InMemoryLockStorage.touch, hnil]
      rfl
    refine sim_update hop (sees_fits ?_) (sim_ret ?_)
    · rw [← htouch]
      exact sees_touch (hu hlocks) c
    · rw [hnil, htouch]

def Deletes (spared : Prop) (inCommand inGuard : Bool) (s : InMemoryLockStorage) (l : LockId) : Prop :=
  spared → (inCommand = true ∨ inGuard = false) ∧ Rep s ∧ ∃ r, s.allLocks.get? l = some r

theorem set_touch (s : InMemoryLockStorage) (c : ClientId) (locks : List Ref) :
    { s.touch c with clientToLocks := (s.touch c).clientToLocks.set c locks } =
      { s with clientToLocks := s.clientToLocks.set c locks } := by
  simp only [InMemoryLockStorage.touch, Dict.set_set]

theorem removed_touch (s : InMemoryLockStorage) (c : ClientId) (r : Ref) :
    (Update.removeEntry c r).apply (s.touch c) = (Update.removeEntry c r).apply s := by
  simp only [Update.apply, locksOf_touch]
  exact set_touch s c _

theorem removed_eq (s : InMemoryLockStorage) (l : LockId) (c : ClientId) (r : Ref) :
    (Update.removeEntry c r).apply (((Update.popInfo l).apply ((Update.popOwner l).apply s)).touch c) =
      removeEntry s l c r := by
  rw [removed_touch]
  rfl

theorem sim_deleteLock (hop : inGuard = false → guarded op = false)
    (hd : Deletes spared inCommand inGuard s l) :
    Sim spared s₀ inCommand inGuard s clk (deleteLock op l) ((s.deleteLock l).map fun s' => ((), s', clk)) := by
  have hpop : ∀ (s' : InMemoryLockStorage) (u : Update), u.isPop = true → Fits spared inCommand inGuard s' u := by
    intro s' u hu hspared
    cases inGuard with
    | false => exact .inr (.inr ⟨rfl, hu⟩)
    | true => exact .inl ⟨(hd hspared).1.resolve_right (by decide), rfl⟩
  refine sim_store ?_
  cases hc : s.locksToClient.get? l with
  | none =>
    refine sim_raise fun hspared => ?_
    obtain ⟨-, hrep, r, hr⟩ := hd hspared
    obtain ⟨c, hc'⟩ := hrep.owned hr
    cases hc.symm.trans hc'
  | some c =>
    refine sim_update hop (hpop _ _ rfl) (sim_store ?_)
    have hsame : ((Update.popOwner l).apply s).allLocks.get? l = s.allLocks.get? l := rfl
    simp only [hsame]
    cases hr : s.allLocks.get? l with
    | none =>
      refine sim_raise fun hspared => ?_
      obtain ⟨-, -, r, hr'⟩ := hd hspared
      cases hr.symm.trans hr'
    | some r =>
      have hin : spared → r ∈ s.locksOf c := fun hspared => ((hd hspared).2.1.listed c r).mpr ⟨l, hr, hc⟩
      refine sim_update hop (hpop _ _ rfl) (sim_bind (sim_locksOf hop fun hnone hspared => ?_) ?_)
      · have hkey : s.locksOf c = [] := by
          rw [InMemoryLockStorage.locksOf, show s.clientToLocks.get? c = none from hnone, Option.getD_none]
        have hmem := hin hspared
        rw [hkey] at hmem
        cases hmem
      · intro locks s' clk' h
        cases h
        have hlocks : ((Update.popInfo l).apply ((Update.popOwner l).apply s)).locksOf c = s.locksOf c := rfl
        rw [hlocks]
        by_cases hmem : r ∈ s.locksOf c
        · rw [if_pos hmem]
          have hdelete : s.deleteLock l = .ok (removeEntry s l c r) := by
            simp [InMemoryLockStorage.deleteLock, hc, hr, hmem, removeEntry]
          rw [hdelete, ← removed_eq s l c r]
          refine sim_updated hop fun hspared => .inr (.inl ?_)
          rw [removed_eq]
          exact rep_removeEntry (hd hspared).2.1 hr hc
        · rw [if_neg hmem]
          exact sim_raise fun hspared => hmem (hin hspared)

theorem sim_expired {f : Bool → Comp β}
    (hf : ∀ b clk', (s.objects r).expired clk = (b, clk') →
      Sim spared s₀ inCommand inGuard s clk' (f b) result) :
    Sim spared s₀ inCommand inGuard s clk (expired r >>= f) result := by
  have hread : Sim spared s₀ inCommand inGuard s clk (expired r)
      (.ok (((s.objects r).expired clk).1, s, ((s.objects r).expired clk).2)) := by
    refine sim_store ?_
    cases hm : (s.objects r).markFreeAfter with
    | none =>
      refine sim_ret ?_
      simp only [MemoryLockInfo.expired, hm]
    | some mark =>
      dsimp only
      by_cases hzero : mark = 0
      · rw [if_pos hzero]
        refine sim_ret ?_
        simp only [MemoryLockInfo.expired, hm, hzero, if_true]
      · rw [if_neg hzero]
        refine sim_time (sim_ret ?_)
        simp only [MemoryLockInfo.expired, hm, hzero, if_false]
  refine sim_bind hread fun b s' clk' h => ?_
  cases h
  exact hf _ _ rfl

def Drops (spared : Prop) (inCommand inGuard : Bool) (s : InMemoryLockStorage) : Prop :=
  spared → (inCommand = true ∨ inGuard = false) ∧ Rep s

theorem sim_dropExpired (hop : inGuard = false → guarded op = false)
    (hd : Drops spared inCommand inGuard s) :
    Sim spared s₀ inCommand inGuard s clk (dropExpired op l)
      ((s.dropExpired clk l).map fun p => ((), p.1, p.2)) := by
  refine sim_store ?_
  cases hr : s.allLocks.get? l with
  | none =>
    refine sim_ret ?_
    simp only [InMemoryLockStorage.dropExpired, hr]
    rfl
  | some r =>
    refine sim_expired fun b clk' hb => ?_
    have hdrop : s.dropExpired clk l = if b then do
        let s ← s.deleteLock l
        .ok (s, clk') else .ok (s, clk') := by
      simp only [InMemoryLockStorage.dropExpired, hr, hb]
    rw [hdrop]
    cases b with
    | true =>
      have hdelete : Sim spared s₀ inCommand inGuard s clk' (deleteLock op l)
          ((s.deleteLock l).map fun s' => ((), s', clk')) :=
        sim_deleteLock hop fun hspared => ⟨(hd hspared).1, (hd hspared).2, r, hr⟩
      cases h : s.deleteLock l with
      | error e =>
        rw [h] at hdelete
        exact hdelete
      | ok s' =>
        rw [h] at hdelete
        exact hdelete
    | false => exact sim_ret rfl

theorem created_eq (s : InMemoryLockStorage) (clk : Clock) (c : ClientId) (l : LockId) :
    (Update.setInfo l s.nextRef).apply ((Update.appendEntry c s.nextRef).apply
      (((Update.newInfo l clk.now).apply ((Update.setOwner l c).apply s)).touch c)) =
        s.createLock clk c l := by
  have happend : ∀ (s : InMemoryLockStorage) (r : Ref), (Update.appendEntry c r).apply (s.touch c) =
      (Update.appendEntry c r).apply s := by
    intro s r
    simp only [Update.apply, locksOf_touch]
    exact set_touch s c _
  rw [happend]
  rfl

def Hidden (spared : Prop) (inCommand inGuard : Bool) : Prop :=
  spared → inCommand = true ∧ inGuard = true

theorem Hidden.fits (h : Hidden spared inCommand inGuard) (u : Update) : Fits spared inCommand inGuard s u :=
  fun hspared => .inl (h hspared)

theorem Hidden.sees (h : Hidden spared inCommand inGuard) : Sees spared inCommand inGuard s :=
  fun hspared => .inl (h hspared)

theorem Hidden.drops (h : Hidden spared inCommand inGuard) (hrep : spared → Rep s) :
    Drops spared inCommand inGuard s :=
  fun hspared => ⟨.inl (h hspared).1, hrep hspared⟩

theorem sim_createLock (hop : inGuard = false → guarded op = false) (hh : Hidden spared inCommand inGuard) :
    Sim spared s₀ inCommand inGuard s clk (createLock op c l) (.ok ((), s.createLock clk c l, clk.tick)) := by
  refine sim_update hop (hh.fits _) (sim_time (sim_store ?_))
  refine sim_update hop (hh.fits _) (sim_bind (sim_locksOf hop fun _ => hh.sees) fun locks s' clk' h => ?_)
  cases h
  refine sim_update hop (hh.fits _) ?_
  rw [← created_eq s clk c l]
  exact sim_updated hop (hh.fits _)

theorem ok_of_map {ε γ δ : Type} {x : Except ε γ} {f : γ → δ} {b : δ} (h : x.map f = .ok b) :
    ∃ a, x = .ok a ∧ f a = b := by
  cases x with
  | error e => cases h
  | ok a => exact ⟨a, rfl, Except.ok.inj h⟩

theorem sim_acquire (hop : inGuard = false → guarded op = false) (hh : Hidden spared inCommand inGuard)
    (hrep : spared → Rep s) (reentrant : Bool) :
    Sim spared s₀ inCommand inGuard s clk (acquire op c l reentrant) (s.acquire clk c l reentrant) := by
  refine sim_bind (sim_dropExpired hop (hh.drops hrep)) fun a s' clk' h => ?_
  obtain ⟨⟨s₁, clk₁⟩, hdrop, hp⟩ := ok_of_map h
  cases hp
  refine sim_store ?_
  cases howner : s₁.locksToClient.get? l with
  | some lockedBy =>
    refine sim_ret ?_
    simp only [InMemoryLockStorage.acquire, hdrop, bind, Except.bind, howner]
  | none =>
    refine sim_bind (sim_createLock hop hh) fun a s' clk' h => ?_
    cases h
    refine sim_ret ?_
    simp only [InMemoryLockStorage.acquire, hdrop, bind, Except.bind, howner]

theorem sim_release (hop : inGuard = false → guarded op = false) (hh : Hidden spared inCommand inGuard)
    (hrep : spared → Rep s) : Sim spared s₀ inCommand inGuard s clk (release op c l)
      ((s.release c l).map fun p => (p.1, p.2, clk)) := by
  refine sim_bind (sim_locksOf hop fun _ => hh.sees) fun locks s' clk' h => ?_
  cases h
  refine sim_store ?_
  have hlocks : (s.touch c).locksOf c = s.locksOf c := locksOf_touch s c c
  dsimp only
  cases hany : (s.locksOf c).any fun r => decide (((s.touch c).objects r).id = l) with
  | false =>
    simp only [Bool.false_eq_true, if_false]
    refine sim_ret ?_
    simp only [InMemoryLockStorage.release, hlocks, hany, Bool.false_eq_true, if_false]
    rfl
  | true =>
    have hd : Deletes spared inCommand inGuard (s.touch c) l := by
      intro hspared
      obtain ⟨r, hr, hid⟩ := List.any_eq_true.mp hany
      obtain ⟨l', hl', -⟩ := ((hrep hspared).listed c r).mp hr
      have hl : l' = l := ((hrep hspared).entryId l' r hl').symm.trans (of_decide_eq_true hid)
      exact ⟨.inl (hh hspared).1, rep_touch (hrep hspared) c, r, hl ▸ hl'⟩
    simp only [if_true]
    refine sim_bind (sim_deleteLock hop hd) fun a s₁ clk₁ h => ?_
    obtain ⟨s₂, hdelete, hp⟩ := ok_of_map h
    cases hp
    refine sim_ret ?_
    simp only [InMemoryLockStorage.release, hlocks, hany, if_true, hdelete]
    rfl

theorem sim_markAll (hop : inGuard = false → guarded op = false) (m : Option Time) (locks : List Ref)
    (hs : Sees spared inCommand inGuard s) : Sim spared s₀ inCommand inGuard s clk (markAll op m locks)
      (.ok ((), { s with objects := InMemoryLockStorage.markAll m locks s.objects }, clk)) := by
  induction locks generalizing s with
  | nil => exact sim_ret rfl
  | cons r locks ih =>
    have hmark : Sees spared inCommand inGuard ((Update.mark r m).apply s) := fun hspared =>
      (hs hspared).imp_right fun hrep => rep_update_object hrep r _ rfl
    exact sim_update hop (sees_fits hmark) (ih hmark)

theorem sim_releaseAll (hop : inGuard = false → guarded op = false)
    (hs : Sees spared inCommand inGuard s) (timeout : Option Time) :
    Sim spared s₀ inCommand inGuard s clk (releaseAll op c timeout)
      (.ok ((), (s.releaseAll clk c timeout).1, (s.releaseAll clk c timeout).2)) := by
  refine sim_time (sim_store (sim_bind (sim_locksOf hop fun _ => hs) fun locks s' clk' h => ?_))
  cases h
  have hlocks : (s.touch c).locksOf c = s.locksOf c := locksOf_touch s c c
  simp only [InMemoryLockStorage.releaseAll, hlocks]
  exact sim_markAll hop (some (clk.now + s.graceTime timeout)) (s.locksOf c) (sees_touch hs c)

theorem sim_unreleaseAll (hop : inGuard = false → guarded op = false)
    (hs : Sees spared inCommand inGuard s) :
    Sim spared s₀ inCommand inGuard s clk (unreleaseAll op c) (.ok ((), s.unreleaseAll c, clk)) := by
  refine sim_bind (sim_locksOf hop fun _ => hs) fun locks s' clk' h => ?_
  cases h
  have hlocks : (s.touch c).locksOf c = s.locksOf c := locksOf_touch s c c
  simp only [InMemoryLockStorage.unreleaseAll, hlocks]
  exact sim_markAll hop none (s.locksOf c) (sees_touch hs c)

theorem sim_locked (hop : inGuard = false → guarded op = false)
    (hd : Drops spared inCommand inGuard s) :
    Sim spared s₀ inCommand inGuard s clk (locked op l) (s.locked clk l) := by
  refine sim_bind (sim_dropExpired hop hd) fun a s' clk' h => ?_
  obtain ⟨⟨s₁, clk₁⟩, hdrop, hp⟩ := ok_of_map h
  cases hp
  refine sim_store (sim_ret ?_)
  simp only [InMemoryLockStorage.locked, hdrop]
  rfl

theorem sim_findIn (fnmatch : String → String → Bool) (pattern : String) (items : List (LockId × Ref)) :
    Sim spared s₀ inCommand inGuard s clk (findIn fnmatch pattern items)
      (.ok ((InMemoryLockStorage.findIn fnmatch pattern s.objects items clk).1, s,
        (InMemoryLockStorage.findIn fnmatch pattern s.objects items clk).2)) := by
  induction items generalizing clk with
  | nil => exact sim_ret rfl
  | cons item items ih =>
    obtain ⟨l, r⟩ := item
    refine sim_expired fun b clk' hb => ?_
    simp only [InMemoryLockStorage.findIn, hb]
    cases hmatch : !b && fnmatch l pattern with
    | true =>
      refine sim_store (sim_bind ih fun found s' clk₁ h => ?_)
      cases h
      exact sim_ret rfl
    | false => exact ih

theorem sim_addSignal (hop : inGuard = false → guarded op = false) (hh : Hidden spared inCommand inGuard)
    (signal : Signal) : Sim spared s₀ inCommand inGuard s clk (addSignal op l signal)
      (.ok ((s.addSignal l signal).1, (s.addSignal l signal).2, clk)) := by
  refine sim_store ?_
  cases hr : s.allLocks.get? l with
  | none =>
    refine sim_ret ?_
    simp only [InMemoryLockStorage.addSignal, hr]
  | some r =>
    refine sim_store ?_
    cases hsignals : (s.objects r).signals with
    | none =>
      refine sim_update hop (hh.fits _) (sim_update hop (hh.fits _) (sim_ret ?_))
      simp [InMemoryLockStorage.addSignal, hr, Update.apply, Update.entry, MemoryLockInfo.addSignal, hsignals]
    | some signals =>
      refine sim_update hop (hh.fits _) (sim_ret ?_)
      simp only [InMemoryLockStorage.addSignal, hr, Update.apply, Update.entry]

theorem sim_removeSignal (hop : inGuard = false → guarded op = false) (hh : Hidden spared inCommand inGuard)
    (signal : Signal) : Sim spared s₀ inCommand inGuard s clk (removeSignal op l signal)
      (.ok ((s.removeSignal l signal).1, (s.removeSignal l signal).2, clk)) := by
  refine sim_store ?_
  cases hr : s.allLocks.get? l with
  | none =>
    refine sim_ret ?_
    simp only [InMemoryLockStorage.removeSignal, hr]
  | some r =>
    refine sim_store ?_
    cases hsignals : (s.objects r).signals with
    | none =>
      refine sim_ret ?_
      simp only [InMemoryLockStorage.removeSignal, hr, hsignals]
    | some signals =>
      by_cases hmem : signal ∈ signals
      · simp only [hmem, if_true]
        refine sim_update hop (hh.fits _) (sim_ret ?_)
        simp only [InMemoryLockStorage.removeSignal, hr, hsignals, hmem, if_true, Update.apply, Update.entry,
          Option.map_some]
      · simp only [hmem, if_false]
        refine sim_ret ?_
        simp only [InMemoryLockStorage.removeSignal, hr, hsignals, hmem, if_false]

theorem sim_sweepLocks (hop : inGuard = false → guarded op = false) (locks : List Ref)
    (hd : Drops spared inCommand inGuard s) (hlocks : spared → Entries s locks) :
    Sim spared s₀ inCommand inGuard s clk (sweepLocks op locks)
      ((InMemoryLockStorage.sweepLocks locks s clk).map fun p => ((), p.1, p.2)) := by
  induction locks generalizing s clk with
  | nil => exact sim_ret rfl
  | cons r locks ih =>
    refine sim_expired fun b clk₁ hb => ?_
    have hsweep : InMemoryLockStorage.sweepLocks (r :: locks) s clk = if b then do
        let s ← s.deleteLock (s.objects r).id
        InMemoryLockStorage.sweepLocks locks s clk₁ else InMemoryLockStorage.sweepLocks locks s clk₁ := by
      simp only [InMemoryLockStorage.sweepLocks, hb]
    rw [hsweep]
    cases b with
    | false => exact ih hd fun hspared => (hlocks hspared).tail
    | true =>
      have hentry : spared → s.allLocks.get? (s.objects r).id = some r := by
        intro hspared
        obtain ⟨l, hl⟩ := (hlocks hspared).2 r (.head _)
        rw [(hd hspared).2.entryId l r hl]
        exact hl
      have hdelete : Deletes spared inCommand inGuard s (s.objects r).id := fun hspared =>
        ⟨(hd hspared).1, (hd hspared).2, r, hentry hspared⟩
      simp only [if_true]
      refine sim_store (sim_bind (sim_deleteLock hop hdelete) fun a s' clk' h => ?_)
      obtain ⟨_, hs₁, hp⟩ := ok_of_map h
      cases hp
      rw [hs₁]
      have hkeep : spared → Rep s' ∧ Entries s' locks := by
        intro hspared
        obtain ⟨c, hc⟩ := (hd hspared).2.owned (hentry hspared)
        rw [deleteLock_eq (hd hspared).2 (hentry hspared) hc] at hs₁
        cases hs₁
        exact ⟨rep_removeEntry (hd hspared).2 (hentry hspared) hc,
          entries_removeEntry (hlocks hspared) (hentry hspared)⟩
      exact ih (fun hspared => ⟨(hd hspared).1, (hkeep hspared).1⟩) fun hspared => (hkeep hspared).2

theorem rep_popList (h : Rep s) (hc : s.locksOf c = []) : Rep ((Update.popList c).apply s) := by
  refine h.of_same (fun c' => ?_) rfl rfl (fun _ => rfl) rfl
  by_cases he : c' = c
  · subst he
    rw [hc]
    simp [InMemoryLockStorage.locksOf, Update.apply]
  · simp [InMemoryLockStorage.locksOf, Update.apply, Dict.get?_erase, he]

theorem forgotten_eq (hc : s.locksOf c = []) :
    (Update.popAddress c).apply ((Update.popList c).apply (s.touch c)) = s.forgetIdle c := by
  simp only [Update.apply, InMemoryLockStorage.touch, InMemoryLockStorage.forgetIdle, hc, Dict.erase_set,
    if_true]

theorem sim_forgetIdle (hop : inGuard = false → guarded op = false) (hs : Sees spared inCommand inGuard s) :
    Sim spared s₀ inCommand inGuard s clk (forgetIdle op c) (.ok ((), s.forgetIdle c, clk)) := by
  refine sim_bind (sim_locksOf hop fun _ => hs) fun locks s' clk' h => ?_
  cases h
  by_cases hc : s.locksOf c = []
  · rw [if_pos hc, ← forgotten_eq hc]
    have hpop : Sees spared inCommand inGuard ((Update.popList c).apply (s.touch c)) := fun hspared =>
      (sees_touch hs c hspared).imp_right fun hrep => rep_popList hrep ((locksOf_touch s c c).trans hc)
    refine sim_update hop (sees_fits hpop) (sim_updated hop (sees_fits fun hspared => ?_))
    exact (hpop hspared).imp_right fun hrep =>
      hrep.of_same (fun _ => rfl) rfl rfl (fun _ => rfl) rfl
  · rw [if_neg hc, InMemoryLockStorage.forgetIdle, if_neg hc]
    exact sim_ret rfl

theorem sim_sweepClients (hop : inGuard = false → guarded op = false) (finishAt : Time)
    (clients : List ClientId) (hd : Drops spared inCommand inGuard s) :
    Sim spared s₀ inCommand inGuard s clk (sweepClients op finishAt clients)
      ((InMemoryLockStorage.sweepClients finishAt clients s clk).map fun p => ((), p.1, p.2)) := by
  induction clients generalizing s clk with
  | nil => exact sim_ret rfl
  | cons c clients ih =>
    have hsees : ∀ {s : InMemoryLockStorage}, Drops spared inCommand inGuard s →
        Sees spared inCommand inGuard s := fun hd hspared => .inr (hd hspared).2
    refine sim_bind (sim_locksOf hop fun _ => hsees hd) fun locks s' clk' h => ?_
    cases h
    have htouch : Drops spared inCommand inGuard (s.touch c) := fun hspared =>
      ⟨(hd hspared).1, rep_touch (hd hspared).2 c⟩
    have hentries : spared → Entries (s.touch c) (s.locksOf c) :=
      fun hspared => entries_locksOf (hd hspared).2 c
    refine sim_bind (sim_sweepLocks hop (s.locksOf c) htouch hentries) fun a s' clk' h => ?_
    obtain ⟨⟨s₁, clk₁⟩, hs₁, hp⟩ := ok_of_map h
    cases hp
    have hd₁ : Drops spared inCommand inGuard s₁ := by
      intro hspared
      obtain ⟨s₂, clk₂, hs₂, hrep, -⟩ :=
        sweepLocks_spec (s.locksOf c) (htouch hspared).2 clk (hentries hspared)
      cases hs₁.symm.trans hs₂
      exact ⟨(hd hspared).1, hrep⟩
    refine sim_bind (sim_forgetIdle hop (hsees hd₁)) fun a s' clk' h => ?_
    cases h
    have hforget : Drops spared inCommand inGuard (s₁.forgetIdle c) := fun hspared =>
      ⟨(hd₁ hspared).1, rep_forgetIdle (hd₁ hspared).2 c⟩
    have hsweep : InMemoryLockStorage.sweepClients finishAt (c :: clients) s clk =
        if finishAt < clk₁.now then .ok (s₁.forgetIdle c, clk₁.tick)
        else InMemoryLockStorage.sweepClients finishAt clients (s₁.forgetIdle c) clk₁.tick := by
      simp only [InMemoryLockStorage.sweepClients, hs₁]
      rfl
    rw [hsweep]
    refine sim_time ?_
    by_cases hf : finishAt < clk₁.now
    · rw [if_pos hf, if_pos hf]
      exact sim_ret rfl
    · rw [if_neg hf, if_neg hf]
      exact ih hforget

theorem sim_maintenance (hop : inGuard = false → guarded op = false)
    (hd : Drops spared inCommand inGuard s) (timeoutMs : Time) (shuffle : InMemoryLockStorage.Shuffle) :
    Sim spared s₀ inCommand inGuard s clk (maintenance op timeoutMs shuffle)
      ((s.maintenance clk timeoutMs shuffle).map fun p => ((), p.1, p.2)) :=
  sim_time (sim_store (sim_sweepClients hop _ _ hd))

/-- Step by step and among signals an operation ends in the storage, the clock
and the answer that it ends in at once. -/
theorem sim_program (fnmatch : String → String → Bool) (hrep : spared → Rep s)
    (hplace : spared → inCommand = true ∨ guarded op = false ∨ ∃ c timeout, op = .releaseAll c timeout) :
    Sim spared s₀ inCommand (guarded op) s clk (program fnmatch op) (exec fnmatch op s clk) := by
  have hop : guarded op = false → guarded op = false := fun h => h
  have hsees : Sees spared inCommand (guarded op) s := fun hspared => .inr (hrep hspared)
  have hhidden : guarded op = true → (∀ c timeout, op ≠ .releaseAll c timeout) →
      Hidden spared inCommand (guarded op) := by
    intro hg hne hspared
    obtain hcommand | hfalse | ⟨c, timeout, he⟩ := hplace hspared
    · exact ⟨hcommand, hg⟩
    · cases hg.symm.trans hfalse
    · exact absurd he (hne c timeout)
  have hdrops : guarded op = false → Drops spared inCommand (guarded op) s :=
    fun hg hspared => ⟨.inr hg, hrep hspared⟩
  cases op with
  | acquire c l reentrant =>
    refine sim_bind (sim_acquire hop (hhidden rfl (by simp)) hrep reentrant) fun a s' clk' h => sim_ret ?_
    simp only [exec, h]
    rfl
  | release c l =>
    refine sim_bind (sim_release hop (hhidden rfl (by simp)) hrep) fun a s' clk' h => sim_ret ?_
    obtain ⟨⟨b, s₁⟩, hs₁, hp⟩ := ok_of_map h
    cases hp
    simp only [exec, hs₁]
    rfl
  | releaseAll c timeout =>
    refine sim_bind (sim_releaseAll hop hsees timeout) fun a s' clk' h => sim_ret ?_
    cases h
    rfl
  | unreleaseAll c =>
    refine sim_bind (sim_unreleaseAll hop hsees) fun a s' clk' h => sim_ret ?_
    cases h
    rfl
  | locked l =>
    refine sim_bind (sim_locked hop (hdrops rfl)) fun a s' clk' h => sim_ret ?_
    simp only [exec, h]
    rfl
  | setClientLastAddress c address =>
    exact sim_update hop ((hhidden rfl (by simp)).fits _) (sim_ret rfl)
  | find pattern =>
    refine sim_bind (sim_store (sim_findIn fnmatch pattern _)) fun a s' clk' h => sim_ret ?_
    cases h
    rfl
  | addSignal l signal =>
    refine sim_bind (sim_addSignal hop (hhidden rfl (by simp)) signal) fun a s' clk' h => sim_ret ?_
    cases h
    rfl
  | hasSignal l signal =>
    have hread : Sim spared s₀ inCommand (guarded (.hasSignal l signal)) s clk (hasSignal l signal)
        (.ok (s.hasSignal l signal, s, clk)) := sim_store (sim_ret rfl)
    refine sim_bind hread fun a s' clk' h => sim_ret ?_
    cases h
    rfl
  | removeSignal l signal =>
    refine sim_bind (sim_removeSignal hop (hhidden rfl (by simp)) signal) fun a s' clk' h => sim_ret ?_
    cases h
    rfl
  | maintenance timeoutMs shuffle =>
    refine sim_bind (sim_maintenance hop (hdrops rfl) timeoutMs shuffle) fun a s' clk' h => sim_ret ?_
    obtain ⟨⟨s₁, clk₁⟩, hs₁, hp⟩ := ok_of_map h
    cases hp
    simp only [exec, hs₁]
    rfl

end Livelock.InterruptedStorage
