import Livelock.Dump
import Livelock.ServerLease
import Livelock.Ascii

namespace Livelock.Restarts

open Livelock.Lib Livelock.Shared Livelock.MemoryStorage Livelock.StorageInvariant
open Livelock.StorageLease Livelock.StorageRun Livelock.StorageTable Livelock.Server
open Livelock.ServerRun Livelock.ServerLease Livelock.Garbage Livelock.Dump Livelock.Ascii
open Livelock.MemoryStorage.InMemoryLockStorage (Shuffle empty)

/-- The server as `live_lock_server` starts it on a storage. -/
def launch (store : InMemoryLockStorage) : Server where
  adaptor := .new store
  connections := .empty
  accepted := 0
  exited := false

/-- What happens to a server: an event, or that the process is killed between
two commands, so that `die` dumps the storage, and is started again with a
grace time. -/
inductive Epoch
  | event (o : Occurrence)
  | restart (releaseAllTimeout : Time) (reading : Nat → Time) (shuffle : Shuffle)

def Epoch.reading : Epoch → Nat → Time
  | .event o => o.reading
  | .restart _ reading _ => reading

variable (py : Builtins) (cfg : Config)

def Lives (sv : Server) (e : Epoch) (sv' : Server) : Prop :=
  match e with
  | .event o => Steps py cfg sv o sv'
  | .restart T reading shuffle => 0 < T ∧ ∃ store,
    loadDump (empty T) ⟨reading, 0⟩ (some (dump sv.adaptor.store)) shuffle = .ok store ∧ sv' = launch store

structure Moment where
  before : Server
  epoch : Epoch

def Passes (sv : Server) (x : Moment) (sv' : Server) : Prop :=
  x.before = sv ∧ Lives py cfg sv x.epoch sv'

variable (c : ClientId) (l : LockId)

def Releases (x : Moment) : Prop :=
  ∃ o k, x.epoch = .event o ∧ Asks py cfg x.before o k (.release c l) ∧ Answers o true

/-- The locks of `c` get the deadline `d`: with the loss of a connection of it
whose address is its last known one, or of any of its connections while it has
no known address, or with a restart. -/
def Suspends (d : Time) (x : Moment) : Prop :=
  match x.epoch with
  | .event o => (∃ k, Drops x.before o k c) ∧ d = o.reading 0 + StorageAdaptor.defaultReleaseAllTimeout
  | .restart T reading _ => ∃ n, d = reading n + (T + 1)

def Rejoins (x : Moment) : Prop := ∃ o k, x.epoch = .event o ∧ Joins py cfg x.before o k c true

/-- The deadline of `c` passed: a later step, before which `c` did not connect
again, read the clock at or past it. -/
def Lapsed (xs : List Moment) : Prop :=
  ∃ xs₁ x xs₂ y xs₃ d n, xs = xs₁ ++ x :: (xs₂ ++ y :: xs₃) ∧ Suspends c d x ∧
    (∀ z ∈ xs₂, ¬ Rejoins py cfg c z) ∧ d ≤ y.epoch.reading n

structure Does (x : Moment) (act : Lease.Act ClientId Time) : Prop where
  drops : ∀ {c}, act = .drop c → Releases py cfg c l x
  suspends : ∀ {c d}, act = .suspend c d → Suspends c d x
  resumes : ∀ {c}, Rejoins py cfg c x → act = .resume c
  clears : ∀ {now}, act.Clears now → ∃ n, x.epoch.reading n = now

variable {py cfg c l} {sv sv' : Server} {x : Moment} {o : Occurrence} {k : ConnId}

theorem sound_launch {store : InMemoryLockStorage} (h : Rep store) : Sound (launch store) where
  rep := h
  killActive _ := rfl
  releaseAllTimeout := rfl
  older _ _ hk := by simp [launch] at hk
  distinct _ _ _ _ hk := by simp [launch] at hk

theorem late_marked {now : Time} {info : MemoryLockInfo} (h : late now info = true) :
    ∃ d, info.markFreeAfter = some d ∧ d ≤ now := by
  unfold late at h
  cases hm : info.markFreeAfter with
  | none => simp [hm] at h
  | some d =>
    have hpast : ¬ d = 0 ∧ d ≤ now := by simpa [hm] using h
    exact ⟨d, rfl, hpast.2⟩

/-- A load removes a lock that is late when it is checked, and marks every other,
also those that a pass cut short has not reached. -/
theorem restart_holding {T : Time} {reading : Nat → Time} {shuffle : Shuffle} {S store : InMemoryLockStorage}
    (hS : Rep S) (hT : 0 < T)
    (hload : loadDump (empty T) ⟨reading, 0⟩ (some (dump S)) shuffle = .ok store) (l : LockId) :
    Rep store ∧ ((∃ h n, holding S l = some h ∧ late (reading n) h.info = true ∧ holding store l = none) ∨
      ∃ mark : ClientId → Nat, holding store l = (holding S l).map
        fun h => h.marked (some (reading (mark h.owner) + (T + 1)))) := by
  obtain ⟨s₁, clk₁, s', clk', mark, heq₁, hsteps, hrep, -, -, htable⟩ :=
    load_dump_marks hS hT ⟨reading, 0⟩ shuffle
  rw [loadDump, hsteps] at hload
  obtain rfl := Except.ok.inj hload
  refine ⟨hrep, ?_⟩
  obtain ⟨s₂, clk₂, heq₂, hstep⟩ :=
    maintenance_step (fun _ _ => false) (rep_assigned hS T) ⟨reading, 0⟩ (1000 * 60) shuffle
  rw [heq₁] at heq₂
  obtain ⟨rfl, rfl⟩ := Prod.mk.inj (Except.ok.inj heq₂)
  have hswept : holding s₁ l = holding S l ∨ ∃ n, holding s₁ l = (holding S).live (reading n) l := by
    generalize holding s₁ = t at hstep
    cases hstep with
    | maintained _ _ _ hsweeps =>
      obtain ⟨n, -, -, hlive⟩ | ⟨hsame, -⟩ := hsweeps l
      · exact .inr ⟨n, hlive⟩
      · exact .inl hsame
  rw [htable]
  obtain hsame | ⟨n, hlive⟩ := hswept
  · exact .inr ⟨mark, by rw [hsame]⟩
  · rw [hlive]
    cases hl : holding S l with
    | none => exact .inr ⟨mark, by rw [live_of_none _ hl]⟩
    | some h =>
      by_cases hlate : late (reading n) h.info = true
      · refine .inl ⟨h, n, rfl, hlate, ?_⟩
        rw [live_eq _ _ hl, if_pos hlate, Option.map_none]
      · refine .inr ⟨mark, ?_⟩
        rw [live_eq _ _ hl, if_neg hlate]

/-- A restart keeps each lease with a new deadline, or ends it past its old one. -/
theorem restart_lease {T : Time} {reading : Nat → Time} {shuffle : Shuffle} {S store : InMemoryLockStorage}
    (hS : Rep S) (hT : 0 < T)
    (hload : loadDump (empty T) ⟨reading, 0⟩ (some (dump S)) shuffle = .ok store) (l : LockId) :
    Rep store ∧ ∃ act, Lease.Step (lease S l) act (lease store l) ∧
      (act = .idle ∨ (∃ a n, act = .suspend a (reading n + (T + 1))) ∨ ∃ n, act = .expire (reading n)) := by
  obtain ⟨hrep, hl⟩ := restart_holding hS hT hload l
  refine ⟨hrep, ?_⟩
  rw [lease_holding, lease_holding]
  obtain ⟨h, n, hh, hlate, hgone⟩ | ⟨mark, hmarked⟩ := hl
  · obtain ⟨d, hd, hle⟩ := late_marked hlate
    refine ⟨.expire (reading n), ?_, .inr (.inr ⟨_, rfl⟩)⟩
    rw [hh, hgone, Option.map_some, Option.map_none, hd]
    exact .expire h.owner hle
  · rw [hmarked]
    cases hh : holding S l with
    | none => exact ⟨.idle, .idle none, .inl rfl⟩
    | some h =>
      refine ⟨.suspend h.owner (reading (mark h.owner) + (T + 1)), ?_, .inr (.inl ⟨_, _, rfl⟩)⟩
      simp only [Option.map_some, Holding.marked_owner, Holding.marked_mark]
      have hstep := Lease.Step.suspend h.owner (reading (mark h.owner) + (T + 1))
        (some ⟨h.owner, h.info.markFreeAfter⟩)
      rwa [Lease.stamp_self] at hstep

theorem cause_does {act : Lease.Act ClientId Time} (hx : x.epoch = .event o)
    (hcause : Cause py cfg x.before o l act) (hnot : ∀ c, ¬ Rejoins py cfg c x) : Does py cfg l x act where
  drops he := by
    subst he
    cases hcause with
    | released ha hans => exact ⟨o, _, hx, ha, hans⟩
  suspends he := by
    subst he
    rw [Suspends, hx]
    cases hcause with
    | lost hd => exact ⟨⟨_, hd⟩, rfl⟩
  resumes hr := absurd hr (hnot _)
  clears hc := by
    rw [hx]
    obtain rfl | ⟨b, rfl⟩ := hc
    · cases hcause with
      | found n | swept n => exact ⟨n, rfl⟩
    · cases hcause with
      | takenOver n => exact ⟨n, rfl⟩

/-- Every step of a life keeps the server sound and is one act on each lease. -/
theorem lives_lease (h : Sound sv) (hs : Passes py cfg sv x sv') (l : LockId) :
    Sound sv' ∧ ∃ act, Does py cfg l x act ∧ Lease.Step (leaseOf sv l) act (leaseOf sv' l) := by
  obtain ⟨v, e⟩ := x
  obtain ⟨rfl, hs⟩ := hs
  cases e with
  | event o =>
    refine ⟨sound_step h hs, ?_⟩
    by_cases hj : ∃ c k, Joins py cfg v o k c true
    · obtain ⟨c, k, hj⟩ := hj
      refine ⟨.resume c, ⟨nofun, nofun, ?_, ?_⟩, ?_⟩
      · rintro c' ⟨o', k', ho, hj'⟩
        obtain rfl := Epoch.event.inj ho
        rw [(joins_unique hj hj').2.1]
      · rintro now (hc | ⟨b, hc⟩) <;> cases hc
      · rw [joins_lease h hs hj]
        exact .resume c _
    · obtain ⟨act, hcause, hstep⟩ := event_lease h hs l
      refine ⟨act, cause_does rfl hcause ?_, hstep⟩
      rintro c ⟨o', k, ho, hj'⟩
      obtain rfl := Epoch.event.inj ho
      exact hj ⟨c, k, hj'⟩
  | restart T reading shuffle =>
    obtain ⟨hT, store, hload, rfl⟩ := hs
    obtain ⟨hrep, act, hstep, hact⟩ := restart_lease h.rep hT hload l
    refine ⟨sound_launch hrep, act, ⟨?_, ?_, ?_, ?_⟩, hstep⟩
    · rintro c rfl
      obtain hact | ⟨a, n, hact⟩ | ⟨n, hact⟩ := hact <;> cases hact
    · rintro c d rfl
      obtain hact | ⟨a, n, hact⟩ | ⟨n, hact⟩ := hact <;> cases hact
      exact ⟨n, rfl⟩
    · rintro c ⟨o, k, ho, -⟩
      cases ho
    · rintro now (rfl | ⟨b, rfl⟩)
      · obtain hact | ⟨a, n, hact⟩ | ⟨n, hact⟩ := hact <;> cases hact
        exact ⟨n, rfl⟩
      · obtain hact | ⟨a, n, hact⟩ | ⟨n, hact⟩ := hact <;> cases hact

theorem run_does {xs : List Moment} (hrun : Run (Passes py cfg) sv xs sv') (h : Sound sv) (l : LockId) :
    Sound sv' ∧ ∃ acts, List.Forall₂ (Does py cfg l) xs acts ∧
      Run Lease.Step (leaseOf sv l) acts (leaseOf sv' l) :=
  hrun.simulate h fun _ _ _ _ hv hs => lives_lease hv hs l

theorem not_rejoins {xs : List Moment} {acts : List (Lease.Act ClientId Time)}
    (h : List.Forall₂ (Does py cfg l) xs acts) (hres : .resume c ∉ acts) :
    ∀ x ∈ xs, ¬ Rejoins py cfg c x := by
  induction h with
  | nil => exact nofun
  | cons hm _ ih =>
    rw [List.mem_cons, not_or] at hres
    refine List.forall_mem_cons.mpr ⟨fun hr => hres.1 (hm.resumes hr).symm, ih hres.2⟩

theorem ended_life {xs : List Moment} {acts : List (Lease.Act ClientId Time)}
    (h : List.Forall₂ (Does py cfg l) xs acts) (hend : Lease.Ended c acts) :
    (∃ x ∈ xs, Releases py cfg c l x) ∨ Lapsed py cfg c xs := by
  obtain hdrop | ⟨pre, d, mid, act, post, now, rfl, hres, hclear, hd⟩ := hend
  · obtain ⟨pre, post, rfl⟩ := List.append_of_mem hdrop
    obtain ⟨xs₁, x, xs₂, rfl, -, hx, -⟩ := forall₂_split h
    exact .inl ⟨x, by simp, hx.drops rfl⟩
  · obtain ⟨xs₁, x, rest, rfl, -, hx, hrest⟩ := forall₂_split h
    obtain ⟨xs₂, y, xs₃, rfl, hmid, hy, -⟩ := forall₂_split hrest
    obtain ⟨n, hn⟩ := hy.clears hclear
    exact .inr ⟨xs₁, x, xs₂, y, xs₃, d, n, rfl, hx.suspends rfl, not_rejoins hmid hres, hn ▸ hd⟩

theorem Lapsed.append {xs : List Moment} (h : Lapsed py cfg c xs) (ys : List Moment) :
    Lapsed py cfg c (xs ++ ys) := by
  obtain ⟨xs₁, x, xs₂, y, xs₃, d, n, rfl, h⟩ := h
  exact ⟨xs₁, x, xs₂, y, xs₃ ++ ys, d, n, by simp, h⟩

/-- A lock is held by one client at a time, across any number of restarts from
the dump: between a grant to `c` and a later one to somebody else, `c` gave the
lock up, or a deadline of `c` passed that the loss of a connection or a restart
had set, and before which it did not connect again. -/
theorem exclusive_across_restarts {T : Time} {past mid : List Moment} {sv₁ sv₂ sv₃ : Server} {y : Moment}
    {o' : Occurrence} {k' : ConnId} {c' : ClientId} {reentrant reentrant' : Bool}
    (hpast : Run (Passes py cfg) (.start T) past sv) (hs : Passes py cfg sv x sv₁)
    (hx : x.epoch = .event o) (ha : Asks py cfg sv o k (.acquire c l reentrant)) (hans : Answers o true)
    (hnew : reentrant = false ∨ ∀ d, leaseOf sv l ≠ some ⟨c, some d⟩)
    (hmid : Run (Passes py cfg) sv₁ mid sv₂) (hs' : Passes py cfg sv₂ y sv₃)
    (hy : y.epoch = .event o') (ha' : Asks py cfg sv₂ o' k' (.acquire c' l reentrant'))
    (hans' : Answers o' true) (hother : c' ≠ c ∨ reentrant' = false) :
    (∃ z ∈ mid, Releases py cfg c l z) ∨ Lapsed py cfg c (mid ++ [y]) := by
  have hsound := (run_does hpast (sound_start T) l).1
  have hstep : Steps py cfg sv o sv₁ := by
    have hlives := hs.2
    rwa [hx] at hlives
  have hlease : leaseOf sv₁ l = some ⟨c, none⟩ := by
    obtain ⟨a, m, hl, -, hanswer, hkept⟩ | ⟨-, -, hl⟩ := asks_acquire hsound hstep ha
    · have htrue := answers_unique hans hanswer
      rw [eq_comm, Bool.and_eq_true, decide_eq_true_eq] at htrue
      obtain ⟨hr, rfl⟩ := htrue
      obtain hr' | hmark := hnew
      · cases hr.symm.trans hr'
      · cases m with
        | none => exact hkept.trans hl
        | some d => exact absurd hl (hmark d)
    · exact hl
  have hsound₁ := (lives_lease hsound hs l).1
  obtain ⟨hsound₂, acts, hdoes, hrun⟩ := run_does hmid hsound₁ l
  rw [hlease] at hrun
  obtain hend | ⟨m, hheld, hstamp⟩ := Lease.held_or_ended hrun
  · exact (ended_life hdoes hend).imp_right fun h => h.append [y]
  -- the lease is still there, so the second grant has read past its deadline
  have hstep' : Steps py cfg sv₂ o' sv₃ := by
    have hlives := hs'.2
    rwa [hy] at hlives
  obtain ⟨a, m', hl, -, hanswer, -⟩ | ⟨hfree, -⟩ := asks_acquire hsound₂ hstep' ha'
  · cases hheld.symm.trans hl
    have htrue := answers_unique hans' hanswer
    rw [eq_comm, Bool.and_eq_true, decide_eq_true_eq] at htrue
    obtain ⟨hr, rfl⟩ := htrue
    obtain hne | hr' := hother
    · exact absurd rfl hne
    · cases hr.symm.trans hr'
  · obtain hnone | ⟨a, d, hl, -, hd⟩ := hfree
    · cases hheld.symm.trans hnone
    · cases hheld.symm.trans hl
      obtain ⟨pre, d', post, rfl, hres, he⟩ := hstamp.resolve_left (by simp)
      cases he
      obtain ⟨xs₁, z, xs₂, rfl, -, hz, hpost⟩ := forall₂_split hdoes
      refine .inr ⟨xs₁, z, xs₂, y, [], d, 0, by simp, hz.suspends rfl, not_rejoins hpost hres, ?_⟩
      rw [hy]
      exact hd

theorem passes_run {es : List Occurrence} (h : Run (Steps py cfg) sv es sv') :
    ∃ xs, Run (Passes py cfg) sv xs sv' := by
  induction h with
  | nil => exact ⟨[], .nil⟩
  | @snoc es o v w _ hs ih =>
    obtain ⟨xs, hxs⟩ := ih
    have hpass : Passes py cfg v ⟨v, .event o⟩ w := ⟨rfl, hs⟩
    exact ⟨_, hxs.snoc hpass⟩

variable (py cfg) in
theorem newcomer (h : Sound sv) (hlive : sv.exited = false) (hnone : sv.connections = .empty) (c : ClientId)
    (reading : Nat → Time) : ∃ xs sv' k, Run (Passes py cfg) sv xs sv' ∧ Sound sv' ∧ sv'.exited = false ∧
      Serving sv' k ∧ idOf sv' k = some c ∧ ∀ l, leaseOf sv' l = Lease.stamp c none (leaseOf sv l) := by
  have hfree : sv.freeAddress ⟨"10.0.0.1", 40001⟩ = true :=
    (freeAddress_iff sv _).mpr fun k session hk => by simp [hnone] at hk
  let sv₁ : Server := { sv with
    connections := sv.connections.set sv.accepted { peername := ⟨"10.0.0.1", 40001⟩ }
    accepted := sv.accepted + 1 }
  have hs₁ : Steps py cfg sv ⟨.connect ⟨"10.0.0.1", 40001⟩, reading, []⟩ sv₁ := by
    simp [Steps, Server.step, hlive, hfree, sv₁]
  have hserving₁ : Serving sv₁ sv.accepted := ⟨_, Dict.get?_set_self _ _ _, rfl⟩
  have hlive₁ : sv₁.exited = false := hlive
  have hlease₁ : ∀ l, leaseOf sv₁ l = leaseOf sv l := fun _ => rfl
  have h₁ := sound_step h hs₁
  obtain ⟨event, writes, sv₂, hs₂, hj⟩ := can_join py cfg hlive₁ hserving₁ c reading
  obtain ⟨hlive₂, hserving₂, -⟩ := joins_serving h₁ hs₂ hj
  obtain ⟨-, -, -, hids⟩ := joins_effect h₁ hs₂ hj
  obtain ⟨xs, hxs⟩ := passes_run (Run.cons hs₁ (Run.single hs₂))
  refine ⟨xs, sv₂, _, hxs, sound_step h₁ hs₂, hlive₂, hserving₂, by rw [hids, if_pos rfl], fun l => ?_⟩
  rw [joins_lease h₁ hs₂ hj, hlease₁]
  rfl

/-- Alice locks, the server is restarted, and Bob gets the lock when its
deadline has passed. -/
theorem exclusive_across_restarts_lapsed : ∃ mid y, (∃ z ∈ mid, ∃ T r s, z.epoch = .restart T r s) ∧
    ((∃ z ∈ mid, Releases ascii plainConfig alice "l" z) ∨ Lapsed ascii plainConfig alice (mid ++ [y])) := by
  obtain ⟨past, sv, k, hpast, h, hlive, hserving, hid, hfree⟩ :=
    newcomer ascii plainConfig (sound_start 5) rfl rfl alice fun _ => 0
  obtain ⟨event, writes, sv₁, hs, ha⟩ := can_acquire hlive hserving hid (by decide : "l" ≠ "") false fun _ => 0
  obtain ⟨hans, hlease₁⟩ : Answers ⟨event, fun _ => 0, writes⟩ true ∧ leaseOf sv₁ "l" = some ⟨alice, none⟩ := by
    obtain ⟨a, m, hl, -⟩ | ⟨-, hans, hl⟩ := asks_acquire h hs ha
    · cases (hfree "l").symm.trans hl
    · exact ⟨hans, hl⟩
  have h₁ := sound_step h hs
  -- the restart marks the lock
  have hT : (0 : Time) < 5 := by decide +kernel
  have huncut : InTime sv₁.adaptor.store 5 ⟨fun _ => 0, 0⟩ .same :=
    uncut_of_bound (rep_assigned h₁.rep 5) .same fun _ => (by decide +kernel : (0 : Time) ≤ 0 + 1000 * 60 * 1000)
  obtain ⟨store, clk', hsteps, hrestores⟩ := load_dump_restores h₁.rep hT ⟨fun _ => 0, 0⟩ .same
  obtain ⟨check, mark, hres⟩ := hrestores huncut
  have hload : loadDump (empty 5) ⟨fun _ => 0, 0⟩ (some (dump sv₁.adaptor.store)) .same = .ok store := by
    rw [loadDump, hsteps]
  have hr : Passes ascii plainConfig sv₁ ⟨sv₁, .restart 5 (fun _ => 0) .same⟩ (launch store) :=
    ⟨rfl, hT, store, hload, rfl⟩
  have hlease₂ : leaseOf (launch store) "l" = some ⟨alice, some (0 + (5 + 1))⟩ := by
    rw [leaseOf, lease_holding] at hlease₁
    obtain ⟨x, hx, hmark⟩ := Option.map_eq_some_iff.mp hlease₁
    rw [Lease.mk.injEq] at hmark
    show lease store "l" = _
    rw [lease_holding, hres.table]
    simp [Table.live, hx, late, hmark.1, hmark.2]
  -- Bob comes when the deadline has passed
  obtain ⟨xs, sv₃, k', hxs, h₃, hlive₃, hserving₃, hid₃, hlease₃⟩ :=
    newcomer ascii plainConfig (sound_launch hres.rep) rfl rfl bob fun _ => 10
  obtain ⟨event', writes', sv₄, hs', ha'⟩ :=
    can_acquire hlive₃ hserving₃ hid₃ (by decide : "l" ≠ "") false fun _ => 10
  have hans' : Answers ⟨event', fun _ => 10, writes'⟩ true := by
    obtain ⟨a, m, hl, hnot, -⟩ | ⟨-, hans, -⟩ := asks_acquire h₃ hs' ha'
    · have hpast : (0 : Time) + (5 + 1) ≤ 10 := by decide +kernel
      refine absurd ⟨alice, 0 + (5 + 1), ?_, by decide +kernel, hpast⟩ hnot
      rw [hlease₃, hlease₂]
      exact Lease.stamp_other (by decide) _ _
    · exact hans
  exact ⟨_, ⟨sv₃, .event _⟩, ⟨_, List.mem_cons_self, 5, _, _, rfl⟩,
    exclusive_across_restarts (x := ⟨sv, .event _⟩) hpast ⟨rfl, hs⟩ rfl ha hans (.inl rfl) (.cons hr hxs)
      ⟨rfl, hs'⟩ rfl ha' hans' (.inr rfl)⟩

end Livelock.Restarts
