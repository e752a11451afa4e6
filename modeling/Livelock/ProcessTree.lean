import Livelock.Network

namespace Livelock.ProcessTree

open Livelock.Lib Livelock.Shared Livelock.MemoryStorage Livelock.Server Livelock.CommandSpec
open Livelock.ServerRun Livelock.ServerLease Livelock.ClientReader Livelock.Framing
open Livelock.Client (LiveLockConnection Process Exc Call Comp)
open Livelock.Network (Choice)

/-- A connection object in a process, which can have one for each thread. -/
structure Agent where
  pid : Nat
  slot : Nat
deriving DecidableEq

/-- The processes of a tree, the server, and what is under way between them.
`opener` says who opened a socket, and `ids` which client ids a process was
given for its objects or issued by the server. -/
structure World where
  server : Server
  queue : ConnId → List (List String)
  received : ConnId → Bytes
  closed : ConnId → Bool
  opener : ConnId → Option Agent
  client : Agent → Option LiveLockConnection
  ids : Nat → List String
  born : List Nat

variable (py : Builtins) (cfg : Config)

/-- The command is a `CONN`, which the server knows in any case of letters. -/
def isConn (ws : List String) : Bool :=
  match ws with
  | [] => false
  | verb :: _ => decide (Verb.named (py.lower verb) = .conn)

def presented (ws : List String) : Option String := if isConn py ws then ws.tail.head? else none

namespace World

def enqueue (w : World) (k : ConnId) (ws : List String) : World :=
  { w with queue := Function.update w.queue k (w.queue k ++ [ws]) }

def setClient (w : World) (a : Agent) (c : LiveLockConnection) : World :=
  { w with client := Function.update w.client a (some c) }

def learn (w : World) (p : Nat) (id : String) : World :=
  { w with ids := Function.update w.ids p (id :: w.ids p) }

/-- A call of an object on its surroundings. A socket works for everyone who
has a copy of it. -/
def answer (w : World) (a : Agent) : (e : Call) → Choice → Option (e.Result × World)
  | .self, .succeed => (w.client a).map fun c => (c, w)
  | .keepSock k pid, .succeed =>
    (w.client a).map fun c => ((), w.setClient a { c with sock := some k, sockPid := pid })
  | .dropSock, .succeed => (w.client a).map fun c => ((), w.setClient a { c with sock := none })
  | .keepId clientId pid, .succeed =>
    (w.client a).map fun c => ((), w.setClient a { c with clientId := clientId, clientIdPid := pid })
  | .connect, .accept peername =>
    (w.server.step py cfg (.connect peername) ⟨fun _ => 0, 0⟩).map fun p =>
      (.ok w.server.accepted,
        { w with server := p.1, opener := Function.update w.opener w.server.accepted (some a) })
  | .connect, .refuse => some (.error .refused, w)
  | .connect, .fail => some (.error .os, w)
  | .sendall k ws, .succeed => if w.closed k then none else some (.ok (), w.enqueue k ws)
  | .sendall _ _, .fail => some (.error .os, w)
  | .sendall k ws, .failLate => if w.closed k then none else some (.error .os, w.enqueue k ws)
  | .read k, .succeed =>
    if w.closed k then none
    else
      match readResponse py (w.received k) with
      | none => some (.error .other, w)
      | some (resp, rest) => some (.ok resp, { w with received := Function.update w.received k rest })
  | .read _, .fail => some (.error .os, w)
  | .close k, .succeed => some ((), { w with closed := Function.update w.closed k true })
  | _, _ => none

def issues (w : World) (k : ConnId) (ws : List String) : Bool :=
  isConn py ws && ws.tail.isEmpty && (w.server.connections.get? k).isSome

def issued (w : World) (k : ConnId) (uuid : ClientId) (ws : List String) : Nat → List String :=
  match w.opener k with
  | none => w.ids
  | some a => if w.issues py k ws then (w.learn a.pid uuid.name).ids else w.ids

def executed (w : World) (k : ConnId) (uuid : ClientId) (ws : List String) (rest : List (List String))
    (server : Server) (writes : List Write) : World :=
  { w with
    server := server
    queue := Function.update w.queue k rest
    received := Function.update w.received k (w.received k ++ sent py writes)
    ids := w.issued py k uuid ws }

end World

/-- The system: the world and what every object still has to do. -/
structure State where
  world : World
  task : Agent → Comp Unit

/-- What a user does with an object. -/
inductive Job
  | command (ws : List String) (reconnect : Bool) (depth : Nat)
  | reconnect (depth : Nat)
  | close

def Job.ordinary : Job → Bool
  | .command ws _ _ => !isConn py ws
  | _ => true

def Job.program (proc : Process) : Job → Comp Unit
  | .command ws again depth => do
    let _ ← Client.sendCommand proc depth ws again true
    pure ()
  | .reconnect depth => Client.reconnect proc (Client.sendCommand proc depth) true
  | .close => Client.close proc

/-- The explicit ids of the objects, with the process that each is for. -/
abbrev Given := List (Nat × String)

def World.unused (w : World) (given : Given) (uuid : ClientId) : Bool :=
  decide ('\n' ∉ uuid.name.toList) && given.all (fun x => decide (x.2 ≠ uuid.name)) &&
    w.born.all (fun p => decide (uuid.name ∉ w.ids p))

/-- The object as a fork copies it, which may come between the two assignments
of a socket or an id and its stamp. -/
def halfway (c : LiveLockConnection) : Comp Unit → LiveLockConnection
  | .call (.keepSock k _) _ => { c with sock := some k }
  | .call (.keepId clientId _) _ => { c with clientId := clientId }
  | _ => c

def idle : Comp Unit → Bool
  | .call _ _ => false
  | _ => true

inductive Move
  | call (a : Agent) (choice : Choice)
  | start (a : Agent) (job : Job)
  | construct (a : Agent) (clientId : Option String) (password : Option String) (maxPayload : Nat)
  | fork (p q : Nat) (between : Nat → Bool)
  | execute (k : ConnId) (uuid : ClientId) (reading : Nat → Time)
  | other (event : Event) (reading : Nat → Time)

namespace State

variable (hostname : String) (given : Given)

def start (root : Nat) (releaseAllTimeout : Time) : State where
  world := {
    server := .start releaseAllTimeout
    queue := fun _ => []
    received := fun _ => []
    closed := fun _ => false
    opener := fun _ => none
    client := fun _ => none
    ids := fun _ => []
    born := [root] }
  task _ := .ret ()

def construct (s : State) (a : Agent) (clientId password : Option String) (maxPayload : Nat) : State :=
  let c : LiveLockConnection := {
    password := password
    maxPayload := maxPayload
    sock := none
    sockPid := a.pid
    clientId := clientId
    clientIdPid := a.pid }
  let w := s.world.setClient a c
  { s with world := match Client.truthy clientId with
      | none => w
      | some id => w.learn a.pid id }

/-- The child has copies of all objects, and none of their tasks. -/
def fork (s : State) (p q : Nat) (between : Nat → Bool) : State where
  world := { s.world with
    client := fun a =>
      if a.pid = q then
        (s.world.client ⟨p, a.slot⟩).map fun c =>
          if between a.slot then halfway c (s.task ⟨p, a.slot⟩) else c
      else s.world.client a
    born := q :: s.world.born }
  task a := if a.pid = q then .ret () else s.task a

/-- The next call of an object, whoever is waiting for the others. -/
def call (s : State) (a : Agent) (choice : Choice) : Option State :=
  match s.task a with
  | .call e next =>
    (s.world.answer py cfg a e choice).map fun p => ⟨p.2, Function.update s.task a (next p.1)⟩
  | _ => none

/-- The events of the server that no process of the tree has asked for. -/
def foreign (w : World) : Event → Bool
  | .command k _ _ => (w.opener k).isNone
  | _ => true

def next (s : State) : Move → Option State
  | .call a choice => s.call py cfg a choice
  | .start a job =>
    if idle (s.task a) && (s.world.client a).isSome && job.ordinary py then
      some { s with task := Function.update s.task a (job.program ⟨a.pid, hostname⟩) }
    else none
  | .construct a clientId password maxPayload =>
    if a.pid ∈ s.world.born ∧ (s.world.client a).isNone ∧ ∀ id ∈ Client.truthy clientId, (a.pid, id) ∈ given then
      some (s.construct a clientId password maxPayload)
    else none
  | .fork p q between =>
    if p ∈ s.world.born ∧ q ∉ s.world.born then some (s.fork p q between) else none
  | .execute k uuid reading =>
    match s.world.queue k with
    | [] => none
    | ws :: rest =>
      if s.world.unused given uuid then
        (s.world.server.step py cfg (.command k uuid (words ws)) ⟨reading, 0⟩).map fun p =>
          { s with world := s.world.executed py k uuid ws rest p.1 p.2 }
      else none
  | .other event reading =>
    if foreign s.world event then
      (s.world.server.step py cfg event ⟨reading, 0⟩).map fun p =>
        { s with world := { s.world with server := p.1 } }
    else none

end State

def Steps (hostname : String) (given : Given) (s : State) (m : Move) (s' : State) : Prop :=
  s.next py cfg hostname given m = some s'

end Livelock.ProcessTree
