import Livelock.Client

namespace Livelock.Client

open Livelock.Shared Livelock.MemoryStorage Livelock.ClientReader

variable (proc : Process) (depth : Nat)

def agreed (ws : List String) (reconnect : Bool) : Comp Bool := do
  let resp ← sendCommand proc depth ws reconnect true
  pure (decide (resp.str? = some "1"))

/-- The answer, with the object as it is left. -/
def LiveLock.release (lock : LiveLock) (reconnect : Bool) : Comp (Bool × LiveLock) := do
  let resp ← agreed proc depth lock.releaseWords reconnect
  pure (resp, { lock with acquired := false })

def LiveLock.isLocked (lockId : LockId) : Comp Bool := agreed proc depth ["LOCKED", lockId] true

def LiveLock.locked (lock : LiveLock) : Comp Bool := agreed proc depth ["LOCKED", lock.id] true

def LiveLock.signal (lock : LiveLock) (signal : Signal) : Comp Bool :=
  agreed proc depth ["SIGSET", lock.id, signal] true

def LiveLock.removeSignal (lock : LiveLock) (signal : Signal) : Comp Bool :=
  agreed proc depth ["SIGDEL", lock.id, signal] true

def LiveLock.signalExists (lock : LiveLock) (signal : Signal) : Comp Bool :=
  agreed proc depth ["SIGEXISTS", lock.id, signal] true

def LiveLock.cancel (lock : LiveLock) : Comp Bool := lock.signal proc depth "CANCEL"

/-- A lock without an entry has been cancelled as well. -/
def LiveLock.cancelled (lock : LiveLock) : Comp Bool :=
  (lock.signalExists proc depth "CANCEL").handle fun e =>
    match e with
    | .client msg code =>
      if code = some (ErrorCode.keyNotExists.number : Int) then pure true else .raise (.client msg code)
    | e => .raise e

def falsy : Value → Bool
  | .none | .bool false | .int 0 | .str "" | .bytes [] | .list [] | .tuple [] | .dict [] => true
  | .float x => decide (x = .finite 0)
  | _ => false

def iterate : Value → Option (List Value)
  | .list items | .tuple items => some items
  | .dict items => some (items.map Prod.fst)
  | .str s => some (s.toList.map fun c => .str (String.singleton c))
  | .bytes data => some (data.map fun b => .int b.toNat)
  | _ => none

def unpack (row : Value) : Option (Value × Value) :=
  match iterate row with
  | some [lockId, startTime] => some (lockId, startTime)
  | _ => none

def listed (data : Value) : Option (List (Value × Value)) :=
  if falsy data then some []
  else (iterate data).bind fun items => items.mapM unpack

def rows : Response → Option (List (Value × Value))
  | .value v => listed v
  | .text s => listed (.str s)
  | .error _ _ => none

/-- The locks that match, with their start times as the server has them. -/
def LiveLock.find (pattern : String) : Comp (List (Value × Value)) := do
  let data ← sendCommand proc depth ["FIND", pattern] true true
  match rows data with
  | none => .raise .other
  | some result => pure result

end Livelock.Client
