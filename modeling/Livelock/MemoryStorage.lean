import Livelock.Lib.Dict
import Mathlib.Data.Finset.Basic
import Mathlib.Algebra.Order.Ring.Rat
import Mathlib.Logic.Function.Basic

namespace Livelock.MemoryStorage

open Livelock.Lib

abbrev Time := ℚ
abbrev LockId := String
abbrev Signal := String

/-- Client ids are never empty: `CONN` refuses an empty one. -/
@[ext]
structure ClientId where
  name : String
  nonempty : name ≠ ""
deriving DecidableEq

structure Address where
  host : String
  port : Nat
deriving DecidableEq

/-- Successive readings of `time.time()`, and how many were taken. -/
structure Clock where
  reading : Nat → Time
  ticks : Nat

def Clock.now (clk : Clock) : Time := clk.reading clk.ticks

def Clock.tick (clk : Clock) : Clock := { clk with ticks := clk.ticks + 1 }

/-- What Python raises out of a storage operation. -/
inductive Raised
  | keyError
  | valueError
  | writesDisabled
deriving DecidableEq

structure MemoryLockInfo where
  id : LockId
  time : Time
  markFreeAfter : Option Time := none
  signals : Option (Finset Signal) := none
deriving DecidableEq

namespace MemoryLockInfo

/-- Without a mark, or with a falsy mark of zero, the clock is not read. -/
def expired (lock : MemoryLockInfo) (clk : Clock) : Bool × Clock :=
  match lock.markFreeAfter with
  | none => (false, clk)
  | some mark => if mark = 0 then (false, clk) else (decide (mark ≤ clk.now), clk.tick)

def addSignal (lock : MemoryLockInfo) (signal : Signal) : MemoryLockInfo :=
  { lock with signals := some (insert signal (lock.signals.getD ∅)) }

def hasSignal (lock : MemoryLockInfo) (signal : Signal) : Bool :=
  match lock.signals with
  | none => false
  | some signals => decide (signal ∈ signals)

end MemoryLockInfo

/-- The identity of a lock entry. The entry of a lock is one object that
`allLocks` and the owner's list both refer to. -/
abbrev Ref := Nat

/-- The storage, with the entry objects its dictionaries refer to. -/
structure InMemoryLockStorage where
  releaseAllTimeout : Time
  clientToLocks : Dict ClientId (List Ref)
  locksToClient : Dict LockId ClientId
  allLocks : Dict LockId Ref
  clientLastAddress : Dict ClientId Address
  objects : Ref → MemoryLockInfo
  nextRef : Ref

inductive SignalAnswer
  | bool (b : Bool)
  | keyNotExists
deriving DecidableEq

namespace InMemoryLockStorage

def empty (releaseAllTimeout : Time) : InMemoryLockStorage where
  releaseAllTimeout := releaseAllTimeout
  clientToLocks := .empty
  locksToClient := .empty
  allLocks := .empty
  clientLastAddress := .empty
  objects := fun _ => { id := "", time := 0 }
  nextRef := 0

def locksOf (s : InMemoryLockStorage) (clientId : ClientId) : List Ref :=
  (s.clientToLocks.get? clientId).getD []

/-- Reading a missing key of the `defaultdict` inserts an empty list. -/
def touch (s : InMemoryLockStorage) (clientId : ClientId) : InMemoryLockStorage :=
  { s with clientToLocks := s.clientToLocks.set clientId (s.locksOf clientId) }

def deleteLock (s : InMemoryLockStorage) (lockId : LockId) : Except Raised InMemoryLockStorage :=
  match s.locksToClient.get? lockId, s.allLocks.get? lockId with
  | none, _ => .error .keyError
  | some _, none => .error .keyError
  | some clientId, some lockInfo =>
    if lockInfo ∈ s.locksOf clientId then
      .ok { s with
        locksToClient := s.locksToClient.erase lockId
        allLocks := s.allLocks.erase lockId
        clientToLocks := s.clientToLocks.set clientId ((s.locksOf clientId).erase lockInfo) }
    else .error .valueError

/-- The lookup of an entry followed by its deletion when it has expired, as
`acquire` and `locked` begin. -/
def dropExpired (s : InMemoryLockStorage) (clk : Clock) (lockId : LockId) :
    Except Raised (InMemoryLockStorage × Clock) :=
  match s.allLocks.get? lockId with
  | none => .ok (s, clk)
  | some lockInfo =>
    let (expired, clk) := (s.objects lockInfo).expired clk
    if expired then do
      let s ← s.deleteLock lockId
      .ok (s, clk)
    else .ok (s, clk)

def createLock (s : InMemoryLockStorage) (clk : Clock) (clientId : ClientId) (lockId : LockId) :
    InMemoryLockStorage :=
  { s with
    locksToClient := s.locksToClient.set lockId clientId
    clientToLocks := s.clientToLocks.set clientId (s.locksOf clientId ++ [s.nextRef])
    allLocks := s.allLocks.set lockId s.nextRef
    objects := Function.update s.objects s.nextRef { id := lockId, time := clk.now }
    nextRef := s.nextRef + 1 }

def acquire (s : InMemoryLockStorage) (clk : Clock) (clientId : ClientId) (lockId : LockId)
    (reentrant : Bool) : Except Raised (Bool × InMemoryLockStorage × Clock) := do
  let (s, clk) ← s.dropExpired clk lockId
  match s.locksToClient.get? lockId with
  | some lockedBy => .ok (reentrant && decide (lockedBy = clientId), s, clk)
  | none => .ok (true, s.createLock clk clientId lockId, clk.tick)

def release (s : InMemoryLockStorage) (clientId : ClientId) (lockId : LockId) :
    Except Raised (Bool × InMemoryLockStorage) :=
  let s := s.touch clientId
  if (s.locksOf clientId).any (fun lock => decide ((s.objects lock).id = lockId)) then do
    let s ← s.deleteLock lockId
    .ok (true, s)
  else .ok (false, s)

def markAll (mark : Option Time) (locks : List Ref) (objects : Ref → MemoryLockInfo) :
    Ref → MemoryLockInfo :=
  locks.foldl (fun objects lock =>
    Function.update objects lock { objects lock with markFreeAfter := mark }) objects

/-- `None` and zero are the falsy timeouts. -/
def graceTime (s : InMemoryLockStorage) : Option Time → Time
  | none => s.releaseAllTimeout
  | some timeout => if timeout = 0 then s.releaseAllTimeout else timeout

def releaseAll (s : InMemoryLockStorage) (clk : Clock) (clientId : ClientId)
    (timeout : Option Time) : InMemoryLockStorage × Clock :=
  let markFreeAt := clk.now + s.graceTime timeout
  let s := s.touch clientId
  ({ s with objects := markAll (some markFreeAt) (s.locksOf clientId) s.objects }, clk.tick)

def unreleaseAll (s : InMemoryLockStorage) (clientId : ClientId) : InMemoryLockStorage :=
  let s := s.touch clientId
  { s with objects := markAll none (s.locksOf clientId) s.objects }

def locked (s : InMemoryLockStorage) (clk : Clock) (lockId : LockId) :
    Except Raised (Bool × InMemoryLockStorage × Clock) := do
  let (s, clk) ← s.dropExpired clk lockId
  .ok ((s.allLocks.get? lockId).isSome, s, clk)

def setClientLastAddress (s : InMemoryLockStorage) (clientId : ClientId) (address : Address) :
    InMemoryLockStorage :=
  { s with clientLastAddress := s.clientLastAddress.set clientId address }

def getClientLastAddress (s : InMemoryLockStorage) (clientId : ClientId) : Option Address :=
  s.clientLastAddress.get? clientId

def findIn (fnmatch : String → String → Bool) (pattern : String) (objects : Ref → MemoryLockInfo) :
    List (LockId × Ref) → Clock → List (LockId × Time) × Clock
  | [], clk => ([], clk)
  | (lockId, lockInfo) :: items, clk =>
    let (expired, clk) := (objects lockInfo).expired clk
    let (found, clk) := findIn fnmatch pattern objects items clk
    if !expired && fnmatch lockId pattern then ((lockId, (objects lockInfo).time) :: found, clk)
    else (found, clk)

def find (fnmatch : String → String → Bool) (s : InMemoryLockStorage) (clk : Clock)
    (pattern : String) : List (LockId × Time) × Clock :=
  findIn fnmatch pattern s.objects s.allLocks.items clk

def addSignal (s : InMemoryLockStorage) (lockId : LockId) (signal : Signal) :
    SignalAnswer × InMemoryLockStorage :=
  match s.allLocks.get? lockId with
  | none => (.keyNotExists, s)
  | some lockInfo =>
    (.bool true, { s with
      objects := Function.update s.objects lockInfo ((s.objects lockInfo).addSignal signal) })

def hasSignal (s : InMemoryLockStorage) (lockId : LockId) (signal : Signal) : SignalAnswer :=
  match s.allLocks.get? lockId with
  | none => .keyNotExists
  | some lockInfo => .bool ((s.objects lockInfo).hasSignal signal)

def removeSignal (s : InMemoryLockStorage) (lockId : LockId) (signal : Signal) :
    SignalAnswer × InMemoryLockStorage :=
  match s.allLocks.get? lockId with
  | none => (.keyNotExists, s)
  | some lockInfo =>
    match (s.objects lockInfo).signals with
    | none => (.bool false, s)
    | some signals =>
      if signal ∈ signals then
        (.bool true, { s with
          objects := Function.update s.objects lockInfo
            { s.objects lockInfo with signals := some (signals.erase signal) } })
      else (.bool false, s)

/-- The inner loop of `maintenance`, over a copy of one client's list. -/
def sweepLocks : List Ref → InMemoryLockStorage → Clock →
    Except Raised (InMemoryLockStorage × Clock)
  | [], s, clk => .ok (s, clk)
  | lock :: locks, s, clk =>
    let (expired, clk) := (s.objects lock).expired clk
    if expired then do
      let s ← s.deleteLock (s.objects lock).id
      sweepLocks locks s clk
    else sweepLocks locks s clk

def forgetIdle (s : InMemoryLockStorage) (clientId : ClientId) : InMemoryLockStorage :=
  if s.locksOf clientId = [] then
    { s with
      clientToLocks := s.clientToLocks.erase clientId
      clientLastAddress := s.clientLastAddress.erase clientId }
  else s.touch clientId

def sweepClients (finishAt : Time) : List ClientId → InMemoryLockStorage → Clock →
    Except Raised (InMemoryLockStorage × Clock)
  | [], s, clk => .ok (s, clk)
  | clientId :: clientIds, s, clk => do
    let (s, clk) ← sweepLocks (s.locksOf clientId) (s.touch clientId) clk
    let s := s.forgetIdle clientId
    if finishAt < clk.now then .ok (s, clk.tick)
    else sweepClients finishAt clientIds s clk.tick

/-- An order of the clients, as `random.shuffle` may produce it. -/
structure Shuffle where
  order : List ClientId → List ClientId
  perm : ∀ clientIds, (order clientIds).Perm clientIds

def Shuffle.same : Shuffle := ⟨id, fun _ => .refl _⟩

def maintenance (s : InMemoryLockStorage) (clk : Clock) (timeoutMs : Time) (shuffle : Shuffle) :
    Except Raised (InMemoryLockStorage × Clock) :=
  let finishAt := clk.now + timeoutMs * 1000
  sweepClients finishAt (shuffle.order s.clientToLocks.keys) s clk.tick

end InMemoryLockStorage

end Livelock.MemoryStorage
