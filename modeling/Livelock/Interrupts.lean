import Livelock.CommandSpec
import Livelock.Lib.Prog

namespace Livelock.Interrupts

open Livelock.Lib Livelock.Shared Livelock.MemoryStorage Livelock.StorageRun Livelock.Server
open Livelock.CommandSpec
open Livelock.MemoryStorage.InMemoryLockStorage (Shuffle)
open Livelock.Lib.Prog (perform lift)

/-- One update of a map, of a list or of an entry of the storage. -/
inductive Update
  | insertList (c : ClientId)
  | popOwner (l : LockId)
  | popInfo (l : LockId)
  | removeEntry (c : ClientId) (r : Ref)
  | setOwner (l : LockId) (c : ClientId)
  | newInfo (l : LockId) (time : Time)
  | appendEntry (c : ClientId) (r : Ref)
  | setInfo (l : LockId) (r : Ref)
  | mark (r : Ref) (m : Option Time)
  | newSignals (r : Ref)
  | insertSignal (r : Ref) (signal : Signal)
  | eraseSignal (r : Ref) (signal : Signal)
  | setAddress (c : ClientId) (address : Address)
  | popList (c : ClientId)
  | popAddress (c : ClientId)

namespace Update

def entry (s : InMemoryLockStorage) (r : Ref) (lock : MemoryLockInfo) : InMemoryLockStorage :=
  { s with objects := Function.update s.objects r lock }

def apply (s : InMemoryLockStorage) : Update → InMemoryLockStorage
  | .insertList c => { s with clientToLocks := s.clientToLocks.set c [] }
  | .popOwner l => { s with locksToClient := s.locksToClient.erase l }
  | .popInfo l => { s with allLocks := s.allLocks.erase l }
  | .removeEntry c r =>
    { s with clientToLocks := s.clientToLocks.set c ((s.locksOf c).erase r) }
  | .setOwner l c => { s with locksToClient := s.locksToClient.set l c }
  | .newInfo l time =>
    { entry s s.nextRef { id := l, time := time } with nextRef := s.nextRef + 1 }
  | .appendEntry c r => { s with clientToLocks := s.clientToLocks.set c (s.locksOf c ++ [r]) }
  | .setInfo l r => { s with allLocks := s.allLocks.set l r }
  | .mark r m => entry s r { s.objects r with markFreeAfter := m }
  | .newSignals r => entry s r { s.objects r with signals := some ∅ }
  | .insertSignal r signal => entry s r ((s.objects r).addSignal signal)
  | .eraseSignal r signal =>
    entry s r { s.objects r with signals := (s.objects r).signals.map fun signals => signals.erase signal }
  | .setAddress c address => { s with clientLastAddress := s.clientLastAddress.set c address }
  | .popList c => { s with clientToLocks := s.clientToLocks.erase c }
  | .popAddress c => { s with clientLastAddress := s.clientLastAddress.erase c }

def isPop : Update → Bool
  | .popOwner _ | .popInfo _ => true
  | _ => false

end Update

/-- The operations that the adaptor runs inside a `StorageOperationGuard`. -/
def guarded : Op → Bool
  | .acquire _ _ _ | .release _ _ | .releaseAll _ _ | .unreleaseAll _ | .setClientLastAddress _ _
  | .addSignal _ _ | .removeSignal _ _ => true
  | .locked _ | .find _ | .hasSignal _ _ | .maintenance _ _ => false

inductive Exc
  | raised (e : Raised)
  | counterBroken
  | undecodable
  | exit

/-- The adaptor with its counters. -/
structure State where
  adaptor : StorageAdaptor
  operations : Int
  commands : Int
  dataDumped : Bool

/-- The primitive steps between which a signal can arrive. -/
inductive Call
  | look
  | time
  | pass
  | update (op : Op) (u : Update)
  | operationStart
  | operationEnd
  | commandStart
  | commandEnd
  | killActive
  | dump
  | dataDumped

def Call.Value : Call → Type
  | .look => State
  | .time => Time
  | _ => Unit

abbrev Call.Result (e : Call) : Type := Except Exc e.Value

abbrev Comp (α : Type) := Prog Call Call.Result Exc α

def ask (e : Call) : Comp e.Value := perform (R := Call.Result) e >>= lift

def look : Comp State := ask .look

def store : Comp InMemoryLockStorage := do return (← look).adaptor.store

def time : Comp Time := ask .time

def pass : Comp Unit := ask .pass

def update (op : Op) (u : Update) : Comp Unit := ask (.update op u)

section Storage

variable (op : Op)

def locksOf (c : ClientId) : Comp (List Ref) := do
  match (← store).clientToLocks.get? c with
  | some locks => pure locks
  | none =>
    update op (.insertList c)
    pure []

def deleteLock (l : LockId) : Comp Unit := do
  match (← store).locksToClient.get? l with
  | none => .raise (.raised .keyError)
  | some c =>
    update op (.popOwner l)
    match (← store).allLocks.get? l with
    | none => .raise (.raised .keyError)
    | some r =>
      update op (.popInfo l)
      let locks ← locksOf op c
      if r ∈ locks then update op (.removeEntry c r) else .raise (.raised .valueError)

def expired (r : Ref) : Comp Bool := do
  match ((← store).objects r).markFreeAfter with
  | none => pure false
  | some mark =>
    if mark = 0 then pure false
    else do
      let now ← time
      pure (decide (mark ≤ now))

def dropExpired (l : LockId) : Comp Unit := do
  match (← store).allLocks.get? l with
  | none => pure ()
  | some r =>
    if ← expired r then deleteLock op l else pure ()

def createLock (c : ClientId) (l : LockId) : Comp Unit := do
  update op (.setOwner l c)
  let now ← time
  let r := (← store).nextRef
  update op (.newInfo l now)
  let _ ← locksOf op c
  update op (.appendEntry c r)
  update op (.setInfo l r)

def acquire (c : ClientId) (l : LockId) (reentrant : Bool) : Comp Bool := do
  dropExpired op l
  match (← store).locksToClient.get? l with
  | some lockedBy => pure (reentrant && decide (lockedBy = c))
  | none =>
    createLock op c l
    pure true

def release (c : ClientId) (l : LockId) : Comp Bool := do
  let locks ← locksOf op c
  let objects := (← store).objects
  if locks.any (fun r => decide ((objects r).id = l)) then do
    deleteLock op l
    pure true
  else pure false

def markAll (m : Option Time) : List Ref → Comp Unit
  | [] => pure ()
  | r :: rs => do
    update op (.mark r m)
    markAll m rs

def releaseAll (c : ClientId) (timeout : Option Time) : Comp Unit := do
  let now ← time
  let markFreeAt := now + (← store).graceTime timeout
  let locks ← locksOf op c
  markAll op (some markFreeAt) locks

def unreleaseAll (c : ClientId) : Comp Unit := do
  let locks ← locksOf op c
  markAll op none locks

def locked (l : LockId) : Comp Bool := do
  dropExpired op l
  return ((← store).allLocks.get? l).isSome

def findIn (fnmatch : String → String → Bool) (pattern : String) :
    List (LockId × Ref) → Comp (List (LockId × Time))
  | [] => pure []
  | (l, r) :: items => do
    if !(← expired r) && fnmatch l pattern then
      let start := ((← store).objects r).time
      return (l, start) :: (← findIn fnmatch pattern items)
    else findIn fnmatch pattern items

def find (fnmatch : String → String → Bool) (pattern : String) : Comp (List (LockId × Time)) := do
  findIn fnmatch pattern (← store).allLocks.items

def addSignal (l : LockId) (signal : Signal) : Comp SignalAnswer := do
  match (← store).allLocks.get? l with
  | none => pure .keyNotExists
  | some r =>
    match ((← store).objects r).signals with
    | none =>
      update op (.newSignals r)
      update op (.insertSignal r signal)
      pure (.bool true)
    | some _ =>
      update op (.insertSignal r signal)
      pure (.bool true)

def hasSignal (l : LockId) (signal : Signal) : Comp SignalAnswer := do
  return (← store).hasSignal l signal

def removeSignal (l : LockId) (signal : Signal) : Comp SignalAnswer := do
  match (← store).allLocks.get? l with
  | none => pure .keyNotExists
  | some r =>
    match ((← store).objects r).signals with
    | none => pure (.bool false)
    | some signals =>
      if signal ∈ signals then do
        update op (.eraseSignal r signal)
        pure (.bool true)
      else pure (.bool false)

def sweepLocks : List Ref → Comp Unit
  | [] => pure ()
  | r :: rs => do
    if ← expired r then
      deleteLock op ((← store).objects r).id
      sweepLocks rs
    else sweepLocks rs

def forgetIdle (c : ClientId) : Comp Unit := do
  let locks ← locksOf op c
  if locks = [] then do
    update op (.popList c)
    update op (.popAddress c)
  else pure ()

def sweepClients (finishAt : Time) : List ClientId → Comp Unit
  | [] => pure ()
  | c :: cs => do
    let locks ← locksOf op c
    sweepLocks op locks
    forgetIdle op c
    let now ← time
    if finishAt < now then pure () else sweepClients finishAt cs

def maintenance (timeoutMs : Time) (shuffle : Shuffle) : Comp Unit := do
  let now ← time
  sweepClients op (now + timeoutMs * 1000) (shuffle.order (← store).clientToLocks.keys)

end Storage

/-- An operation of the storage, step by step. -/
def program (fnmatch : String → String → Bool) (op : Op) : Comp Answer :=
  match op with
  | .acquire c l reentrant => do return .bool (← acquire op c l reentrant)
  | .release c l => do return .bool (← release op c l)
  | .releaseAll c timeout => do
    releaseAll op c timeout
    pure .none
  | .unreleaseAll c => do
    unreleaseAll op c
    pure .none
  | .locked l => do return .bool (← locked op l)
  | .setClientLastAddress c address => do
    update op (.setAddress c address)
    pure .none
  | .find pattern => do return .found (← find fnmatch pattern)
  | .addSignal l signal => do return .signal (← addSignal op l signal)
  | .hasSignal l signal => do return .signal (← hasSignal l signal)
  | .removeSignal l signal => do return .signal (← removeSignal op l signal)
  | .maintenance timeoutMs shuffle => do
    maintenance op timeoutMs shuffle
    pure .none

section Adaptor

def onStorageOperationStart : Comp Unit := ask .operationStart

def countOperationEnd : Comp Unit := ask .operationEnd

def onCommandStart : Comp Unit := ask .commandStart

def countCommandEnd : Comp Unit := ask .commandEnd

def setKillActive : Comp Unit := ask .killActive

def dump : Comp Unit := ask .dump

def setDataDumped : Comp Unit := ask .dataDumped

def dumpBeforeDie : Comp Unit := do
  dump
  setDataDumped

def die : Comp Unit := do
  if (← look).dataDumped then pure () else dump
  .raise .exit

def onKillRequested : Comp Unit := do
  setKillActive
  if (← look).operations = 0 then dumpBeforeDie else pure ()
  if (← look).commands = 0 then die else pure ()

def onStorageOperationEnd : Comp Unit := do
  countOperationEnd
  if (← look).operations < 0 then .raise .counterBroken else pure ()
  if (← look).adaptor.killActive then
    if (← look).operations = 0 then dumpBeforeDie else pure ()
  else pure ()

def onCommandEnd : Comp Unit := do
  countCommandEnd
  if (← look).adaptor.killActive then
    if (← look).commands = 0 then die else pure ()
  else pure ()

def finally_ {α : Type} (p : Comp α) (last : Comp Unit) : Comp α := do
  let a ← p.handle fun e => do
    last
    .raise e
  last
  pure a

/-- The body of a `with StorageOperationGuard`. A signal can also arrive before
`__enter__` has returned, and before `__exit__` has begun. -/
def guard {α : Type} (body : Comp α) : Comp α := do
  if (← look).adaptor.killActive then .raise (.raised .writesDisabled) else pure ()
  onStorageOperationStart
  pass
  finally_ (do
    let a ← body
    pass
    pure a) onStorageOperationEnd

variable (py : Builtins) (cfg : Config)

def call (op : Op) : Comp Answer :=
  if guarded op then guard (program py.fnmatch op) else program py.fnmatch op

/-- What a command does to the adaptor between its start and its end. -/
def serve (session : Session) (uuid : ClientId) (verb : Verb) (value : List Arg) : Comp Unit :=
  match intent py cfg session uuid value with
  | .conn clientId restore => do
    if restore then
      let _ ← call py (.unreleaseAll clientId)
      pure ()
    else pure ()
    let _ ← call py (.setClientLastAddress clientId session.peername)
    pure ()
  | .operation op => do
    let _ ← call py op
    pure ()
  | .nothing =>
    match verb, session.clientId with
    | .shutdown, some _ => if cfg.shutdownSupport then onKillRequested else pure ()
    | .dump, some _ => if cfg.debug then dump else pure ()
    | _, _ => pure ()

/-- A command after `on_command_start` has waited for the end of a maintenance
pass. The flag is not tested again. -/
def serveStarted (session : Session) (uuid : ClientId) (verb : Verb) (value : List Arg) : Comp Unit := do
  onCommandStart
  finally_ (serve py cfg session uuid verb value) onCommandEnd

def processCommand (session : Session) (uuid : ClientId) (command : Arg) (args : List Arg) :
    Comp Unit := do
  if (← look).adaptor.killActive then pure ()
  else
    match command.decode with
    | none => .raise .undecodable
    | some name => serveStarted py cfg session uuid (Verb.named (py.lower name)) (command :: args)

def connectionLost (session : Session) : Comp Unit := do
  if (← look).adaptor.killActive then pure ()
  else
    match session.clientId with
    | none => pure ()
    | some clientId =>
      let lastAddress := (← store).getClientLastAddress clientId
      if lastAddress = some session.peername ∨ lastAddress = none then do
        let timeout := (← look).adaptor.releaseAllTimeout
        let _ ← call py (.releaseAll clientId (some timeout))
        pure ()
      else pure ()

/-- One round of `maintenance_scheduler`. -/
def scheduledMaintenance (timeoutMs : Time) (shuffle : Shuffle) : Comp Unit := do
  if 0 < (← look).commands then pure ()
  else if (← look).adaptor.killActive then pure ()
  else
    let _ ← call py (.maintenance timeoutMs shuffle)
    pure ()

def collectStats : Comp Unit := do
  let _ ← call py (.find "*")
  pure ()

/-- What the event loop does next. A command that had to wait for the end of the
first maintenance pass is `resumed`. -/
inductive Task
  | command (session : Session) (uuid : ClientId) (head : Arg) (args : List Arg)
  | resumed (session : Session) (uuid : ClientId) (verb : Verb) (value : List Arg)
  | lost (session : Session)
  | maintenance (timeoutMs : Time) (shuffle : Shuffle)
  | stats
  | wait

def Task.program : Task → Comp Unit
  | .command session uuid head args => processCommand py cfg session uuid head args
  | .resumed session uuid verb value => serveStarted py cfg session uuid verb value
  | .lost session => connectionLost py session
  | .maintenance timeoutMs shuffle => scheduledMaintenance py timeoutMs shuffle
  | .stats => collectStats py
  | .wait => pass

end Adaptor

inductive Event
  | operationStart (operations : Int)
  | operationEnd (operations : Int)
  | commandStart (commands : Int)
  | commandEnd (commands : Int)
  | updated (op : Op) (u : Update)
  | dumped (s : InMemoryLockStorage)

structure World where
  state : State
  clk : Clock
  log : List Event
  exited : Bool

namespace World

variable (w : World)

def start (s : InMemoryLockStorage) (clk : Clock) : World where
  state := { adaptor := .new s, operations := 0, commands := 0, dataDumped := false }
  clk := clk
  log := []
  exited := false

def store : InMemoryLockStorage := w.state.adaptor.store

def note (e : Event) : World := { w with log := w.log ++ [e] }

def setOperations (n : Int) : World := { w with state := { w.state with operations := n } }

def setCommands (n : Int) : World := { w with state := { w.state with commands := n } }

def setStore (s : InMemoryLockStorage) : World :=
  { w with state := { w.state with adaptor := { w.state.adaptor with store := s } } }

def setKillActive : World :=
  { w with state := { w.state with adaptor := { w.state.adaptor with killActive := true } } }

def setDataDumped : World := { w with state := { w.state with dataDumped := true } }

def perform : (e : Call) → e.Value × World
  | .look => (w.state, w)
  | .time => (w.clk.now, { w with clk := w.clk.tick })
  | .pass => ((), w)
  | .update op u => ((), (w.setStore (u.apply w.store)).note (.updated op u))
  | .operationStart =>
    ((), (w.setOperations (w.state.operations + 1)).note (.operationStart (w.state.operations + 1)))
  | .operationEnd =>
    ((), (w.setOperations (w.state.operations - 1)).note (.operationEnd (w.state.operations - 1)))
  | .commandStart =>
    ((), (w.setCommands (w.state.commands + 1)).note (.commandStart (w.state.commands + 1)))
  | .commandEnd =>
    ((), (w.setCommands (w.state.commands - 1)).note (.commandEnd (w.state.commands - 1)))
  | .killActive => ((), w.setKillActive)
  | .dump => ((), w.note (.dumped w.store))
  | .dataDumped => ((), w.setDataDumped)

def alone (e : Call) : e.Result × World := (.ok (w.perform e).1, (w.perform e).2)

def signal : Except Exc Unit × World := onKillRequested.run alone w

end World

variable (arrives : World → Prop)

def Interrupted (w w' : World) : Prop := arrives w ∧ w.signal = (.ok (), w')

/-- A step is performed, or a signal arrives before it and `exit` is raised. -/
inductive Performs (w : World) (e : Call) : e.Result → World → Prop
  | step : Performs w e (.ok (w.perform e).1) (w.perform e).2
  | exit (w' : World) : arrives w → w.signal = (.error .exit, w') → Performs w e (.error .exit) w'

variable (py : Builtins) (cfg : Config)

def exits : Except Exc Unit → Bool
  | .error .exit => true
  | _ => false

/-- The process does a task, among signals that arrive where they may, and is
over when `exit` was raised. -/
def Does (w : World) (task : Task) (w' : World) : Prop :=
  w.exited = false ∧ ∃ o w₁, (task.program py cfg).Exec (Performs arrives) (Interrupted arrives) w o w₁ ∧
    w' = { w₁ with exited := exits o }

section Scripts

variable [DecidablePred arrives]

def World.next (w : World) (task : Task) (script : List (Unit ⊕ Bool)) : Option World :=
  if w.exited then none
  else
    (Prog.play
      (fun w e exit =>
        match exit, w.signal with
        | true, (.error .exit, w') => if arrives w then some (.error .exit, w') else none
        | true, _ => none
        | false, _ => some (w.alone e))
      (fun w _ =>
        match w.signal with
        | (.ok (), w') => if arrives w then some w' else none
        | _ => none) script (task.program py cfg) w).map fun p => { p.2 with exited := exits p.1 }

variable {arrives py cfg}

theorem next_does {w w' : World} {task : Task} {script : List (Unit ⊕ Bool)}
    (h : w.next arrives py cfg task script = some w') : Does arrives py cfg w task w' := by
  unfold World.next at h
  split at h
  · cases h
  · next hexited =>
    obtain ⟨⟨o, w₁⟩, hplay, rfl⟩ := Option.map_eq_some_iff.mp h
    refine ⟨Bool.eq_false_iff.mpr hexited, o, w₁, Prog.play_exec hplay ?_ ?_, rfl⟩
    · intro w e exit r w' hanswer
      cases exit with
      | true =>
        split at hanswer
        · next hsignal =>
          split at hanswer
          · next harrives =>
            cases hanswer
            exact .exit w' harrives hsignal
          · cases hanswer
        · cases hanswer
        · next hfalse => cases hfalse
      | false =>
        cases hanswer
        exact .step
    · intro w i w' hmove
      split at hmove
      · next hsignal =>
        split at hmove
        · next harrives =>
          cases hmove
          exact ⟨harrives, hsignal⟩
        · cases hmove
      · cases hmove

end Scripts

end Livelock.Interrupts
