import Livelock.ClientReader
import Livelock.ServerRun
import Livelock.Lib.Prog

namespace Livelock.Client

open Livelock.Lib Livelock.Shared Livelock.MemoryStorage Livelock.ServerRun Livelock.ClientReader
open Livelock.Lib.Prog (perform lift triple_bind triple_handle triple_raise)

/-- A `LiveLock`; with `reentrant` set it is a `LiveRLock`, with `blocking`
unset a `LiveNBLock`. -/
structure LiveLock where
  id : LockId
  reentrant : Bool
  blocking : Bool
  timeout : Time
  acquired : Bool

def LiveLock.acquireWords (lock : LiveLock) : List String :=
  [if lock.reentrant then "AQR" else "AQ", lock.id]

def LiveLock.releaseWords (lock : LiveLock) : List String := ["RELEASE", lock.id]

def payload (ws : List String) : Bytes :=
  encode "*" ++ encode (toString ws.length) ++ crlf ++ ws.flatMap packBlobStr

/-- The process that the client runs in. -/
structure Process where
  pid : Nat
  hostname : String

structure LiveLockConnection where
  password : Option String
  maxPayload : Nat
  sock : Option ConnId
  sockPid : Nat
  clientId : Option String
  clientIdPid : Nat

def reconnectAttempts : Nat := 3

def truthy : Option String → Option String := Option.filter fun s => decide (s ≠ "")

def LiveLockConnection.ownSock (self : LiveLockConnection) (pid : Nat) : Option ConnId :=
  if self.sockPid = pid then self.sock else none

/-- The property `client_id`. -/
def LiveLockConnection.ownId (self : LiveLockConnection) (pid : Nat) : Option String :=
  if self.clientIdPid = pid then self.clientId else none

/-- The exceptions of the client that some handler or caller tells apart. -/
inductive Exc
  | os
  | refused
  | client (msg : String) (code : Option Int)
  | other

/-- `ConnectionRefusedError` is an `OSError` like every error of a socket. -/
def Exc.isOs : Exc → Bool
  | .os | .refused => true
  | .client _ _ | .other => false

/-- What the client does to its own fields and to its sockets. -/
inductive Call
  | self
  | keepSock (k : ConnId) (pid : Nat)
  | dropSock
  | keepId (clientId : Option String) (pid : Nat)
  | connect
  | sendall (k : ConnId) (ws : List String)
  | read (k : ConnId)
  | close (k : ConnId)

def Call.Result : Call → Type
  | .self => LiveLockConnection
  | .keepSock _ _ | .dropSock | .keepId _ _ | .close _ => Unit
  | .connect => Except Exc ConnId
  | .sendall _ _ => Except Exc Unit
  | .read _ => Except Exc Response

abbrev Comp (α : Type) := Prog Call Call.Result Exc α

def self : Comp LiveLockConnection := perform Call.self

def keepSock (k : ConnId) (pid : Nat) : Comp Unit := perform (Call.keepSock k pid)

def dropSock : Comp Unit := perform Call.dropSock

def keepId (clientId : Option String) (pid : Nat) : Comp Unit := perform (Call.keepId clientId pid)

def connectOnce : Comp ConnId := perform Call.connect >>= lift

def sendall (k : ConnId) (ws : List String) : Comp Unit := perform (Call.sendall k ws) >>= lift

def read (k : ConnId) : Comp Response := perform (Call.read k) >>= lift

def closeSock (k : ConnId) : Comp Unit := perform (Call.close k)

variable (proc : Process)

def close : Comp Unit := do
  match (← self).ownSock proc.pid with
  | none => pure ()
  | some k => closeSock k

/-- The loop around `sock.connect`. -/
def connectSocket : Nat → Comp ConnId
  | 0 => .raise .refused
  | attempts + 1 => connectOnce.handle fun e =>
    match e with
    | .refused => connectSocket attempts
    | e => .raise e

section

-- `send_command`, with `reconnect` and with `do_conn_on_reconnect`
variable (send : List String → Bool → Bool → Comp Response)

def sendPassword : Comp Unit := do
  match truthy (← self).password with
  | none => pure ()
  | some password =>
    let _ ← send ["PASS", password] false true
    pure ()

def sendId (reconnect : Bool) : Comp Unit := do
  match truthy ((← self).ownId proc.pid) with
  | none =>
    let resp ← send ["CONN"] reconnect false
    keepId resp.str? proc.pid
  | some clientId =>
    let resp ← send ["CONN", clientId] reconnect false
    if resp.str? = (← self).ownId proc.pid then pure () else .raise .other

def sendConnect (reconnect : Bool) : Comp Unit := do
  sendPassword send
  sendId proc send reconnect
  let _ ← send ["CONNINFO", proc.hostname ++ ":" ++ toString proc.pid] reconnect true
  pure ()

def connect (reconnect doConnOnReconnect : Bool) : Comp Unit := do
  match (← self).ownSock proc.pid with
  | some _ => pure ()
  | none =>
    let k ← connectSocket reconnectAttempts
    keepSock k proc.pid
    if doConnOnReconnect then sendConnect proc send reconnect else pure ()

/-- `_reconnect`, which does not let the commands inside it reconnect again. -/
def reconnect (doConnOnReconnect : Bool) : Comp Unit := do
  close proc
  dropSock
  connect proc send false doConnOnReconnect

/-- `_read_response`, which raises for an error of the server. -/
def readResponse (k : ConnId) : Comp Response := do
  match ← read k with
  | .error msg code => .raise (.client msg code)
  | resp => pure resp

def exchange (ws : List String) : Comp Response := do
  match (← self).sock with
  | none => .raise .other
  | some k =>
    sendall k ws
    readResponse k

def attempt (ws : List String) (doConnOnReconnect reconnectPhase : Bool) : Comp Response := do
  if reconnectPhase then reconnect proc send doConnOnReconnect else pure ()
  exchange ws

/-- The loop of `_send_command`. -/
def retry (ws : List String) (reconnect doConnOnReconnect : Bool) : Nat → Bool → Comp Response
  | 0, _ => pure (.value .none)
  | attempts + 1, reconnectPhase =>
    (attempt proc send ws doConnOnReconnect reconnectPhase).handle fun e =>
      if e.isOs then do
        close proc
        if !reconnect || decide (attempts = 0) then .raise e
        else retry ws reconnect doConnOnReconnect attempts true
      else .raise e

end

/-- The nesting of calls is bounded, as it is by the interpreter. -/
def sendCommand : Nat → List String → Bool → Bool → Comp Response
  | 0, _, _, _ => .raise .other
  | depth + 1, ws, reconnect, doConnOnReconnect => do
    connect proc (sendCommand depth) reconnect doConnOnReconnect
    let maxPayload := (← self).maxPayload
    if maxPayload + 1 < (payload ws).length then
      .raise (.client ("Max command payload size exceeded " ++ toString (payload ws).length ++
        "b with limit of " ++ toString maxPayload ++ "b") none)
    else
      retry proc (sendCommand depth) ws reconnect doConnOnReconnect reconnectAttempts false

section

variable {W : Type} {act : W → (e : Call) → e.Result → W → Prop} {env : W → W → Prop} {P C : W → Prop}
  {proc : Process} {send : List String → Bool → Bool → Comp Response} {ws : List String}
  {reconnect doConnOnReconnect : Bool}

theorem triple_connectSocket {Q : ConnId → W → Prop}
    (honce : Prog.Triple act env P connectOnce Q fun _ => P) (n : Nat) :
    Prog.Triple act env P (connectSocket n) Q fun _ => P := by
  induction n with
  | zero => exact triple_raise fun w hw => hw
  | succ n ih =>
    refine triple_handle honce fun x => ?_
    cases x with
    | refused => exact ih
    | os | client | other => exact triple_raise fun w hw => hw

variable {Q : Response → W → Prop} {B E : Exc → W → Prop} {F : W → Prop}

theorem triple_failed {n : Nat} {e : Exc}
    (hclose : e.isOs = true → Prog.Triple act env (B e) (close proc) (fun _ => C) E)
    (hagain : reconnect = true → n ≠ 0 →
      Prog.Triple act env C (retry proc send ws reconnect doConnOnReconnect n true) Q E)
    (hC : e.isOs = true → ∀ w, C w → E e w) (hB : e.isOs = false → ∀ w, B e w → E e w) :
    Prog.Triple act env (B e) (if e.isOs then do
        close proc
        if !reconnect || decide (n = 0) then .raise e
        else retry proc send ws reconnect doConnOnReconnect n true
      else .raise e) Q E := by
  split
  · next hos =>
    refine triple_bind (hclose hos) fun _ => ?_
    split
    · exact triple_raise (hC hos)
    · next hgo =>
      simp only [Bool.or_eq_true, Bool.not_eq_true', decide_eq_true_eq, not_or, Bool.not_eq_false] at hgo
      exact hagain hgo.1 hgo.2
  · next hos => exact triple_raise (hB (Bool.eq_false_iff.mpr hos))

/-- The first attempt goes from `P`, and each other one from where the socket
was closed. An error of the socket ends the loop there as well. -/
theorem triple_attempts {phase : Bool}
    (hfirst : Prog.Triple act env P (attempt proc send ws doConnOnReconnect phase) Q B)
    (hlater : reconnect = true →
      Prog.Triple act env C (attempt proc send ws doConnOnReconnect true) Q B)
    (hclose : ∀ e : Exc, e.isOs = true → Prog.Triple act env (B e) (close proc) (fun _ => C) E)
    (hC : ∀ e : Exc, e.isOs = true → ∀ w, C w → E e w)
    (hB : ∀ e : Exc, e.isOs = false → ∀ w, B e w → E e w) (n : Nat) :
    Prog.Triple act env P (retry proc send ws reconnect doConnOnReconnect (n + 1) phase) Q E := by
  have hagain : ∀ n, reconnect = true → n ≠ 0 →
      Prog.Triple act env C (retry proc send ws reconnect doConnOnReconnect n true) Q E := by
    intro n hr hn
    induction n with
    | zero => exact absurd rfl hn
    | succ n ih =>
      refine triple_handle (hlater hr) fun e => ?_
      exact triple_failed (hclose e) (fun _ hne => ih hne) (hC e) (hB e)
  exact triple_handle hfirst fun e => triple_failed (hclose e) (hagain n) (hC e) (hB e)

theorem triple_retry {phase : Bool}
    (hfirst : Prog.Triple act env P (attempt proc send ws doConnOnReconnect phase) Q B)
    (hlater : reconnect = true →
      Prog.Triple act env C (attempt proc send ws doConnOnReconnect true) Q B)
    (hclose : ∀ e : Exc, e.isOs = true → Prog.Triple act env (B e) (close proc) (fun _ => C) fun _ => F)
    (hC : ∀ w, C w → F w) (hB : ∀ e w, B e w → F w) (n : Nat) :
    Prog.Triple act env P (retry proc send ws reconnect doConnOnReconnect (n + 1) phase) Q
      fun _ => F :=
  triple_attempts hfirst hlater hclose (fun _ _ => hC) (fun e _ => hB e) n

end

def LiveLock._acquire (depth : Nat) (lock : LiveLock) : Comp Bool := do
  let resp ← sendCommand proc depth lock.acquireWords true true
  pure (decide (resp.str? = some "1"))

end Livelock.Client
