import Livelock.Garbage
import Livelock.Reconnect

namespace Livelock.Dump

open Livelock.Lib Livelock.MemoryStorage Livelock.MemoryStorage.InMemoryLockStorage
open Livelock.StorageInvariant Livelock.StorageLease Livelock.StorageRun Livelock.StorageTable
open Livelock.MaintenancePass Livelock.Garbage Livelock.MutualExclusion Livelock.Reconnect

/-- What `pickle.load` makes of the dump file. A file that is not one of
ours may lack maps, may hold maps that do not fit together, or may hold
values that are no such maps at all: then some step of the load raises. -/
inductive Content
  | unreadable
  | null
  | maps (clientToLocks : Option (Dict ClientId (List Ref)))
      (locksToClient : Option (Dict LockId ClientId)) (allLocks : Option (Dict LockId Ref))
      (clientLastAddress : Option (Dict ClientId Address)) (objects : Ref → MemoryLockInfo)
      (nextRef : Ref)
  | misfit (left : InMemoryLockStorage)

inductive LoadError
  | unreadable
  | noData
  | keyError
  | misfit
  | maintenance (raised : Raised)

/-- Pickling keeps which maps refer to the same entry. -/
def dump (s : InMemoryLockStorage) : Content :=
  .maps (some s.clientToLocks) (some s.locksToClient) (some s.allLocks) (some s.clientLastAddress)
    s.objects s.nextRef

def cleanAllData (s : InMemoryLockStorage) : InMemoryLockStorage :=
  { s with
    clientToLocks := .empty
    locksToClient := .empty
    allLocks := .empty
    clientLastAddress := .empty }

/-- The four assignments, one by one. A raise keeps those made before it. -/
def assignMaps (s : InMemoryLockStorage) : Content → Except LoadError Unit × InMemoryLockStorage
  | .unreadable => (.error .unreadable, s)
  | .null => (.error .noData, s)
  | .misfit left => (.error .misfit, { left with releaseAllTimeout := s.releaseAllTimeout })
  | .maps clientToLocks locksToClient allLocks clientLastAddress objects nextRef =>
    match clientToLocks with
    | none => (.error .keyError, s)
    | some clientToLocks =>
      let s := { s with clientToLocks := clientToLocks, objects := objects, nextRef := nextRef }
      match locksToClient with
      | none => (.error .keyError, s)
      | some locksToClient =>
        let s := { s with locksToClient := locksToClient }
        match allLocks with
        | none => (.error .keyError, s)
        | some allLocks =>
          let s := { s with allLocks := allLocks }
          match clientLastAddress with
          | none => (.error .keyError, s)
          | some clientLastAddress => (.ok (), { s with clientLastAddress := clientLastAddress })

/-- The loop that marks the locks of every client. It writes only keys that
are there, so the dictionary it goes over keeps them. -/
def releaseClients : List ClientId → InMemoryLockStorage → Clock → InMemoryLockStorage × Clock
  | [], s, clk => (s, clk)
  | clientId :: clientIds, s, clk =>
    let (s, clk) := s.releaseAll clk clientId (some (s.releaseAllTimeout + 1))
    releaseClients clientIds s clk

/-- The steps inside `try`, with the storage as they leave it. What a pass of
`maintenance` had deleted when it raised does not matter after the clean-up. -/
def loadSteps (s : InMemoryLockStorage) (clk : Clock) (content : Content) (shuffle : Shuffle) :
    Except LoadError Clock × InMemoryLockStorage :=
  match assignMaps s content with
  | (.error e, s) => (.error e, s)
  | (.ok (), s) =>
    match s.maintenance clk (1000 * 60) shuffle with
    | .error raised => (.error (.maintenance raised), s)
    | .ok (s, clk) =>
      let (s, clk) := releaseClients s.clientToLocks.keys s clk
      (.ok clk, s)

def loadDump (s : InMemoryLockStorage) (clk : Clock) (file : Option Content) (shuffle : Shuffle) :
    Except LoadError InMemoryLockStorage :=
  match file with
  | none => .ok s
  | some content =>
    match loadSteps s clk content shuffle with
    | (.ok _, s) => .ok s
    | (.error _, s) => .ok (cleanAllData s)

variable {s s' S : InMemoryLockStorage} {l : LockId} {c : ClientId} {T : Time}

theorem releaseClients_spec (clients : List ClientId) (hs : Rep s) (clk : Clock)
    (hT : s.releaseAllTimeout + 1 ≠ 0) :
    ∃ s' clk', releaseClients clients s clk = (s', clk') ∧ Rep s' ∧ clk'.reading = clk.reading ∧
      clk.ticks ≤ clk'.ticks ∧ ∃ mark : ClientId → Nat,
        (∀ c ∈ clients, clk.ticks ≤ mark c ∧ mark c < clk'.ticks) ∧
        ∀ l, holding s' l = (holding s l).map fun h => if h.owner ∈ clients then
          h.marked (some (clk.reading (mark h.owner) + (s.releaseAllTimeout + 1))) else h := by
  induction clients generalizing s clk with
  | nil => exact ⟨s, clk, rfl, hs, rfl, le_rfl, fun _ => 0, by simp, fun l => by simp⟩
  | cons c clients ih =>
    obtain ⟨s', clk', heq, hrep, hread, hticks, mark, hmark, hl⟩ :=
      ih (rep_releaseAll hs clk c (some (s.releaseAllTimeout + 1))) clk.tick hT
    have hticks' : clk.ticks + 1 ≤ clk'.ticks := hticks
    have hgrace : s.graceTime (some (s.releaseAllTimeout + 1)) = s.releaseAllTimeout + 1 := by
      rw [graceTime, if_neg hT]
    refine ⟨s', clk', heq, hrep, hread, by omega,
      fun c' => if c' ∈ clients then mark c' else clk.ticks, fun c' _ => ?_, fun l => ?_⟩
    · by_cases hm : c' ∈ clients
      · obtain ⟨h₁, h₂⟩ := hmark c' hm
        have h₁' : clk.ticks + 1 ≤ mark c' := h₁
        simp only [if_pos hm]
        exact ⟨by omega, h₂⟩
      · simp only [if_neg hm]
        exact ⟨le_rfl, hticks'⟩
    · rw [hl, holding_releaseAll hs, hgrace, Table.mark, Option.map_map]
      refine Option.map_congr fun h _ => ?_
      by_cases hm : h.owner ∈ clients
      · by_cases ho : h.owner = c
        · simp [ho, ho ▸ hm]
          rfl
        · simp [ho, hm]
          rfl
      · by_cases ho : h.owner = c
        · simp [ho, ho ▸ hm, Clock.now]
        · simp [ho, hm]

/-- `s'` holds what a load that took the readings of `clk` up to `clk'` makes
of `S`: the locks not late when they were checked, marked client by client. -/
structure Restored (S s' : InMemoryLockStorage) (T : Time) (clk clk' : Clock) (check : LockId → Nat)
    (mark : ClientId → Nat) : Prop where
  rep : Rep s'
  checked : ∀ l, clk.ticks ≤ check l ∧ check l < clk'.ticks
  marked : ∀ l h, holding s' l = some h → clk.ticks ≤ mark h.owner ∧ mark h.owner < clk'.ticks
  table : ∀ l, holding s' l = ((holding S).live (clk.reading (check l)) l).map
    (fun h => h.marked (some (clk.reading (mark h.owner) + (T + 1))))

def assigned (S : InMemoryLockStorage) (T : Time) : InMemoryLockStorage :=
  { S with releaseAllTimeout := T }

theorem rep_assigned (hS : Rep S) (T : Time) : Rep (assigned S T) :=
  hS.of_same (fun _ => rfl) rfl rfl (fun _ => rfl) rfl

theorem assignMaps_dump (S : InMemoryLockStorage) (T : Time) :
    assignMaps (empty T) (dump S) = (.ok (), assigned S T) := rfl

/-- The pass at the start of the load is not cut short. -/
def InTime (S : InMemoryLockStorage) (T : Time) (clk : Clock) (shuffle : Shuffle) : Prop :=
  Uncut (assigned S T) clk (1000 * 60) shuffle

theorem maintenance_live (hs : Rep s) {clk clk' : Clock} {timeoutMs : Time} {shuffle : Shuffle}
    (huncut : Uncut s clk timeoutMs shuffle) (heq : s.maintenance clk timeoutMs shuffle = .ok (s', clk'))
    (l : LockId) : ∃ n, clk.ticks ≤ n ∧ n < clk'.ticks ∧
      holding s' l = (holding s).live (clk.reading n) l := by
  obtain ⟨gone, hpass, -, hjudged⟩ := maintenance_uncut hs huncut
  rw [hpass] at heq
  obtain ⟨rfl, rfl⟩ := Prod.mk.inj (Except.ok.inj heq)
  have hlast : ((skip clk (spent s s.clientToLocks.keys)).tick).ticks =
      clk.ticks + spent s s.clientToLocks.keys + 1 := rfl
  cases hl : holding s l with
  | none =>
    refine ⟨clk.ticks, le_rfl, by omega, ?_⟩
    rw [live_of_none _ hl]
    cases hl' : holding (swept s gone (shuffle.order s.clientToLocks.keys)) l with
    | none => rfl
    | some h =>
      obtain ⟨_, -, -, hkept⟩ := holding_swept_some hl'
      cases hl.symm.trans hkept
  | some h =>
    obtain ⟨-, r, hr, hinfo⟩ := holding_some hl
    have howner : h.owner ∈ shuffle.order s.clientToLocks.keys :=
      (shuffle.perm _).mem_iff.mpr (owner_listed hs hl)
    obtain ⟨n, hn, hn', hiff⟩ :=
      hjudged r (List.mem_flatMap.mpr ⟨h.owner, howner, listed_owner hs hl hr⟩)
    refine ⟨n, by omega, by omega, ?_⟩
    rw [hinfo] at hiff
    rw [holding_swept hr, live_eq _ _ hl, hl]
    simp only [hiff]

/-- A load of a dump is a pass of `maintenance`, after which every client gets its deadline. -/
theorem load_dump_marks (hS : Rep S) (hT : 0 < T) (clk : Clock) (shuffle : Shuffle) :
    ∃ s₁ clk₁ s' clk', ∃ mark : ClientId → Nat,
      (assigned S T).maintenance clk (1000 * 60) shuffle = .ok (s₁, clk₁) ∧
      loadSteps (empty T) clk (dump S) shuffle = (.ok clk', s') ∧ Rep s' ∧ clk₁.ticks ≤ clk'.ticks ∧
      (∀ l h, holding s₁ l = some h → clk.ticks ≤ mark h.owner ∧ mark h.owner < clk'.ticks) ∧
      ∀ l, holding s' l = (holding s₁ l).map
        fun h => h.marked (some (clk.reading (mark h.owner) + (T + 1))) := by
  obtain ⟨s₁, clk₁, heq₁, hrep₁, hclears⟩ := maintenance_spec (rep_assigned hS T) clk (1000 * 60) shuffle
  have hread₁ : clk₁.reading = clk.reading := hclears.reading
  have hticks₁ : clk.ticks ≤ clk₁.ticks := hclears.ticks
  have htimeout : s₁.releaseAllTimeout = T := hclears.releaseAllTimeout
  have hnz : s₁.releaseAllTimeout + 1 ≠ 0 := by
    rw [htimeout]
    exact (add_pos hT one_pos).ne'
  obtain ⟨s', clk', heq, hrep, -, hticks, mark, hmark, htable⟩ :=
    releaseClients_spec s₁.clientToLocks.keys hrep₁ clk₁ hnz
  refine ⟨s₁, clk₁, s', clk', mark, heq₁, by simp only [loadSteps, assignMaps_dump, heq₁, heq], hrep,
    hticks, fun l h hl => ?_, fun l => ?_⟩
  · obtain ⟨hm, hm'⟩ := hmark _ (owner_listed hrep₁ hl)
    exact ⟨hticks₁.trans hm, hm'⟩
  · rw [htable]
    refine Option.map_congr fun h hl => ?_
    rw [if_pos (owner_listed hrep₁ hl), hread₁, htimeout]

theorem load_dump_restores (hS : Rep S) (hT : 0 < T) (clk : Clock) (shuffle : Shuffle) :
    ∃ s' clk', loadSteps (empty T) clk (dump S) shuffle = (.ok clk', s') ∧
      (InTime S T clk shuffle → ∃ check mark, Restored S s' T clk clk' check mark) := by
  obtain ⟨s₁, clk₁, s', clk', mark, heq₁, hsteps, hrep, hticks, hmark, htable⟩ :=
    load_dump_marks hS hT clk shuffle
  refine ⟨s', clk', hsteps, fun huncut => ?_⟩
  choose check hlow hhigh hlive using maintenance_live (rep_assigned hS T) huncut heq₁
  refine ⟨check, mark, hrep, fun l => ⟨hlow l, (hhigh l).trans_le hticks⟩, fun l h hl => ?_,
    fun l => ?_⟩
  · rw [htable] at hl
    obtain ⟨h₁, hl₁, rfl⟩ := Option.map_eq_some_iff.mp hl
    exact hmark l h₁ hl₁
  · rw [htable, hlive]
    rfl

theorem Restored.markedUntil {clk clk' : Clock} {check : LockId → Nat} {mark : ClientId → Nat}
    (h : Restored S s' T clk clk' check mark) (c : ClientId) :
    MarkedUntil (holding s') c (clk.reading (mark c) + (T + 1)) := by
  intro l time m hl
  obtain ⟨info, hh, he⟩ := owned_some hl
  rw [h.table] at hh
  obtain ⟨h₀, -, hm⟩ := Option.map_eq_some_iff.mp hh
  have howner : h₀.owner = c := congrArg Holding.owner hm
  have hmark := congrArg (fun x => x.info.markFreeAfter) hm
  rw [howner] at hmark
  exact (congrArg Prod.snd he).trans hmark.symm

/-- A file that cannot be read, is empty, or lacks one of the four maps. -/
def Content.Unloadable : Content → Prop
  | .unreadable | .null => True
  | .maps clientToLocks locksToClient allLocks clientLastAddress _ _ =>
    clientToLocks = none ∨ locksToClient = none ∨ allLocks = none ∨ clientLastAddress = none
  | .misfit _ => True

theorem loadSteps_unloadable (s : InMemoryLockStorage) (clk : Clock) {content : Content}
    (shuffle : Shuffle) (h : content.Unloadable) :
    ∃ e s', loadSteps s clk content shuffle = (.error e, s') := by
  cases content with
  | unreadable | null | misfit => exact ⟨_, _, rfl⟩
  | maps m₁ m₂ m₃ m₄ =>
    cases m₁ with
    | none => exact ⟨_, _, rfl⟩
    | some m₁ =>
      cases m₂ with
      | none => exact ⟨_, _, rfl⟩
      | some m₂ =>
        cases m₃ with
        | none => exact ⟨_, _, rfl⟩
        | some m₃ =>
          cases m₄ with
          | none => exact ⟨_, _, rfl⟩
          | some m₄ => simp [Content.Unloadable] at h

def Cleared (s : InMemoryLockStorage) : Prop :=
  s.clientToLocks = .empty ∧ s.locksToClient = .empty ∧ s.allLocks = .empty ∧
    s.clientLastAddress = .empty

variable (fnmatch : String → String → Bool)

/-- Whatever others do before the deadline of `c`, its reconnection finds the
locks it had after the load, and unmarks them. -/
def Regains (s' : InMemoryLockStorage) (c : ClientId) (deadline : Time) : Prop :=
  ∀ mid r s₂ s₃, Run (Performs fnmatch) s' mid s₂ → (∀ e ∈ mid, Foreign c e.op) →
    (∀ e ∈ mid, ∀ n, n < e.reads → e.reading n < deadline) →
    Performs fnmatch s₂ r s₃ → r.op = .unreleaseAll c →
      owned (holding s₃) c = fun l => (owned (holding s') c l).map fun p => (p.1, none)

variable {fnmatch}

theorem Restored.regains {clk clk' : Clock} {check : LockId → Nat} {mark : ClientId → Nat}
    (h : Restored S s' T clk clk' check mark) (c : ClientId) :
    Regains fnmatch s' c (clk.reading (mark c) + (T + 1)) := by
  intro mid r s₂ s₃ hmid hforeign hread hr hrop
  obtain ⟨hrep₂, hsame⟩ := run_frame hmid h.rep (h.markedUntil c) hforeign hread
  have hstep := performs_step hrep₂ hr
  rw [hrop] at hstep
  funext l
  rw [step_unreleaseAll hstep, owned_mark, hsame]

variable (fnmatch) in
/-- A restart keeps the lock table: the load of a dump gives back the locks
that are not late when it checks them, each until its deadline, and a client
that reconnects in time has them unmarked. A file that cannot be loaded, at
whatever step, leaves an empty storage. -/
theorem restart_preserves (hS : Rep S) (hT : 0 < T) (clk : Clock) (shuffle : Shuffle) :
    (∃ s' clk', loadDump (empty T) clk (some (dump S)) shuffle = .ok s' ∧
      loadSteps (empty T) clk (dump S) shuffle = (.ok clk', s') ∧
      (InTime S T clk shuffle → ∃ check mark, Restored S s' T clk clk' check mark ∧
        ∀ c, Regains fnmatch s' c (clk.reading (mark c) + (T + 1)))) ∧
    ∀ s clk content shuffle, (content.Unloadable ∨
      ∃ e left, loadSteps s clk content shuffle = (.error e, left)) →
        ∃ s', loadDump s clk (some content) shuffle = .ok s' ∧ Cleared s' := by
  constructor
  · obtain ⟨s', clk', hsteps, hload⟩ := load_dump_restores hS hT clk shuffle
    refine ⟨s', clk', by rw [loadDump, hsteps], hsteps, fun huncut => ?_⟩
    obtain ⟨check, mark, hres⟩ := hload huncut
    exact ⟨check, mark, hres, fun c => hres.regains c⟩
  · intro s clk content shuffle h
    have herror : ∃ e left, loadSteps s clk content shuffle = (.error e, left) := by
      obtain h | h := h
      · exact loadSteps_unloadable s clk shuffle h
      · exact h
    obtain ⟨e, left, heq⟩ := herror
    refine ⟨cleanAllData left, ?_, rfl, rfl, rfl, rfl⟩
    rw [loadDump, heq]

theorem restart_preserves_alice : ∃ s', loadDump (empty 5) ⟨fun _ => 100, 0⟩
    (some (dump ((empty 5).createLock ⟨fun _ => 0, 0⟩ alice "l"))) .same = .ok s' ∧
    holding s' "l" = some ⟨alice, { id := "l", time := 0, markFreeAfter := some 106 }⟩ := by
  have hrep : Rep ((empty 5).createLock ⟨fun _ => 0, 0⟩ alice "l") :=
    rep_createLock (rep_empty 5) ⟨fun _ => 0, 0⟩ alice rfl
  have hT : (0 : Time) < 5 := by decide +kernel
  have hfinish : (100 : Time) ≤ 100 + 1000 * 60 * 1000 := by decide +kernel
  have hdeadline : (100 : Time) + (5 + 1) = 106 := by decide +kernel
  obtain ⟨⟨s', clk', heq, -, hload⟩, -⟩ :=
    restart_preserves (fun _ _ => false) hrep hT ⟨fun _ => 100, 0⟩ .same
  obtain ⟨check, mark, hres, -⟩ := hload (uncut_of_bound (rep_assigned hrep 5) .same fun _ => hfinish)
  refine ⟨s', heq, ?_⟩
  have hlive : (holding ((empty 5).createLock ⟨fun _ => 0, 0⟩ alice "l")).live 100 "l" =
      some ⟨alice, { id := "l", time := 0 }⟩ := rfl
  rw [hres.table, hlive, Option.map_some, hdeadline]
  rfl

end Livelock.Dump
