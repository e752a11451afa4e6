import Livelock.Shared
import Livelock.StorageRun

namespace Livelock.Server

open Livelock.Lib Livelock.Shared Livelock.MemoryStorage Livelock.StorageRun
open Livelock.MemoryStorage.InMemoryLockStorage (Shuffle)

inductive Arg
  | null
  | int (n : Int)
  | float (x : FloatValue)
  | bytes (data : Bytes)
  | array (items : List Arg)

namespace Arg

def truthy : Arg → Bool
  | .null => false
  | .int n => decide (n ≠ 0)
  | .float x => decide (x ≠ .finite 0)
  | .bytes data => !data.isEmpty
  | .array items => !items.isEmpty

/-- Only byte strings have a `decode` method. -/
def decode : Arg → Option String
  | .bytes data => Shared.decode data
  | _ => none

/-- The argument of a verb that answers a missing, empty or undecodable one
with an error. -/
def text (arg : Arg) : Option String := if arg.truthy then arg.decode else none

/-- A byte string that is not empty never decodes to the empty text. -/
def clientId (arg : Arg) : Option ClientId :=
  match arg.decode with
  | none => none
  | some name => if h : name = "" then none else some ⟨name, h⟩

end Arg

def oneText : List Arg → Option String
  | [arg] => arg.text
  | _ => none

def twoTexts : List Arg → Option (String × String)
  | [arg, arg'] => do return (← arg.text, ← arg'.text)
  | _ => none

structure Config where
  password : Option String
  shutdownSupport : Bool
  debug : Bool
  dumpFilePath : String

variable (py : Builtins) (cfg : Config)

/-- The storage behind the guards that stop writes once a kill is requested. -/
structure StorageAdaptor where
  store : InMemoryLockStorage
  killActive : Bool
  releaseAllTimeout : Time

namespace StorageAdaptor

def defaultReleaseAllTimeout : Time := 5

/-- The adaptor is a storage itself, and `super().__init__()` gives it the
default timeout whatever the one of `store` is. -/
def new (store : InMemoryLockStorage) : StorageAdaptor := ⟨store, false, defaultReleaseAllTimeout⟩

def unguarded (a : StorageAdaptor) (clk : Clock) (op : Op) :
    Except Raised (Answer × StorageAdaptor × Clock) := do
  let (answer, store, clk) ← exec py.fnmatch op a.store clk
  .ok (answer, { a with store := store }, clk)

def guarded (a : StorageAdaptor) (clk : Clock) (op : Op) :
    Except Raised (Answer × StorageAdaptor × Clock) :=
  if a.killActive then .error .writesDisabled else a.unguarded py clk op

variable (a : StorageAdaptor) (clk : Clock)

def acquire (clientId : ClientId) (lockId : LockId) (reentrant : Bool) :=
  a.guarded py clk (.acquire clientId lockId reentrant)

def release (clientId : ClientId) (lockId : LockId) := a.guarded py clk (.release clientId lockId)

def releaseAll (clientId : ClientId) :=
  a.guarded py clk (.releaseAll clientId (some a.releaseAllTimeout))

def unreleaseAll (clientId : ClientId) := a.guarded py clk (.unreleaseAll clientId)

def locked (lockId : LockId) := a.unguarded py clk (.locked lockId)

def setClientLastAddress (clientId : ClientId) (address : Address) :=
  a.guarded py clk (.setClientLastAddress clientId address)

def addSignal (lockId : LockId) (signal : Signal) := a.guarded py clk (.addSignal lockId signal)

def hasSignal (lockId : LockId) (signal : Signal) := a.unguarded py clk (.hasSignal lockId signal)

def removeSignal (lockId : LockId) (signal : Signal) :=
  a.guarded py clk (.removeSignal lockId signal)

def find (pattern : String) := a.unguarded py clk (.find pattern)

def maintenance (timeoutMs : Time) (shuffle : Shuffle) :=
  a.unguarded py clk (.maintenance timeoutMs shuffle)

def getClientLastAddress (clientId : ClientId) : Option Address :=
  a.store.getClientLastAddress clientId

def stats : Value :=
  .dict [(.str "lock_count", .int a.store.allLocks.items.length),
    (.str "dump_file_path", .str cfg.dumpFilePath)]

end StorageAdaptor

/-- One connection. `serving` is lost when the task that reads its commands
dies of an exception, and `closing` says that the transport was told to close. -/
structure Session where
  peername : Address
  clientId : Option ClientId := none
  clientInfo : Option String := none
  authorized : Bool := false
  closing : Bool := false
  serving : Bool := true

inductive Content
  | bool (b : Bool)
  | error (code : ErrorCode)
  | text (s : String)
deriving DecidableEq

inductive Write
  | reply (content : Content)
  | data (value : Value)

def Content.payload : Content → String
  | .bool true => "+1\r\n"
  | .bool false => "+0\r\n"
  | .error code => "-" ++ toString code.number ++ " " ++ code.text ++ "\r\n"
  | .text s => "+" ++ s ++ "\r\n"

/-- The bytes written to the transport, or `none` where `pack_resp` raises. -/
def Write.payload : Write → Option Bytes
  | .reply content => some (encode content.payload)
  | .data value => packResp py value

inductive Ending
  | done
  | raised
  | exited
deriving DecidableEq

/-- A command being processed, and what has come of it so far. -/
structure Turn where
  adaptor : StorageAdaptor
  clk : Clock
  session : Session
  writes : List Write := []
  ending : Ending := .done

namespace Turn

def reply (t : Turn) (content : Content) : Turn :=
  { t with writes := t.writes ++ [.reply content] }

def replyData (t : Turn) (value : Value) : Turn := { t with writes := t.writes ++ [.data value] }

def raise (t : Turn) : Turn := { t with ending := .raised }

def call (t : Turn) (result : Except Raised (Answer × StorageAdaptor × Clock))
    (next : Answer → Turn → Turn) : Turn :=
  match result with
  | .error _ => t.raise
  | .ok (answer, adaptor, clk) => next answer { t with adaptor := adaptor, clk := clk }

def answer (res : Answer) (t : Turn) : Turn :=
  match res with
  | .bool b => t.reply (.bool b)
  | .signal (.bool b) => t.reply (.bool b)
  | .signal .keyNotExists => t.reply (.error .keyNotExists)
  | .found locks =>
    t.replyData (.list (locks.map fun lock => .tuple [.str lock.1, .float (.finite lock.2)]))
  | .none => t

def oneArg (t : Turn) (args : List Arg) (use : String → Turn) : Turn :=
  match oneText args with
  | some text => use text
  | none => t.reply (.error .wrongArgs)

def twoArgs (t : Turn) (args : List Arg) (use : String → String → Turn) : Turn :=
  match twoTexts args with
  | some (text, text') => use text text'
  | none => t.reply (.error .wrongArgs)

def identify (t : Turn) (clientId : ClientId) : Turn :=
  { t with session := { t.session with clientId := some clientId } }

def register (t : Turn) (clientId : ClientId) : Turn :=
  t.call (t.adaptor.setClientLastAddress py t.clk clientId t.session.peername) fun _ t =>
    t.reply (.text clientId.name)

/-- `CONN` on a connection that has an id answers with an error and goes on. -/
def conn (t : Turn) (uuid : ClientId) (args : List Arg) : Turn :=
  let t := if t.session.clientId.isSome then t.reply (.error .connHasId) else t
  match args with
  | [] => (t.identify uuid).register py uuid
  | arg :: _ =>
    if arg.truthy then
      match arg.clientId with
      | none => t.raise
      | some clientId =>
        let t := t.identify clientId
        t.call (t.adaptor.unreleaseAll py t.clk clientId) fun _ t => t.register py clientId
    else t.reply (.error .wrongArgs)

end Turn

inductive Verb
  | pass | conn | conninfo | aq | aqr | release | locked | sigset | sigexists | sigdel
  | ping | find | stats | shutdown | dump | unknown
deriving DecidableEq

def Verb.named : String → Verb
  | "pass" => .pass
  | "conn" => .conn
  | "conninfo" => .conninfo
  | "aq" => .aq
  | "aqr" => .aqr
  | "release" => .release
  | "locked" => .locked
  | "sigset" => .sigset
  | "sigexists" => .sigexists
  | "sigdel" => .sigdel
  | "ping" => .ping
  | "find" => .find
  | "stats" => .stats
  | "shutdown" => .shutdown
  | "dump" => .dump
  | _ => .unknown

namespace Turn

/-- The verbs other than `CONN`, for a connection with a client id. -/
def serve (t : Turn) (clientId : ClientId) (verb : Verb) (args : List Arg) : Turn :=
  match verb with
  | .conninfo => t.oneArg args fun clientInfo =>
    { t with session := { t.session with clientInfo := some clientInfo } }.reply (.bool true)
  | .aq => t.oneArg args fun lockId =>
    t.call (t.adaptor.acquire py t.clk clientId lockId false) answer
  | .aqr => t.oneArg args fun lockId =>
    t.call (t.adaptor.acquire py t.clk clientId lockId true) answer
  | .release => t.oneArg args fun lockId =>
    t.call (t.adaptor.release py t.clk clientId lockId) answer
  | .locked => t.oneArg args fun lockId => t.call (t.adaptor.locked py t.clk lockId) answer
  | .sigset => t.twoArgs args fun lockId signal =>
    t.call (t.adaptor.addSignal py t.clk lockId (py.lower signal)) answer
  | .sigexists => t.twoArgs args fun lockId signal =>
    t.call (t.adaptor.hasSignal py t.clk lockId (py.lower signal)) answer
  | .sigdel => t.twoArgs args fun lockId signal =>
    t.call (t.adaptor.removeSignal py t.clk lockId (py.lower signal)) answer
  | .ping => t.reply (.text "PONG")
  | .find =>
    match args with
    | [arg] =>
      if arg.truthy then
        match arg.decode with
        | none => t.raise
        | some pattern => t.call (t.adaptor.find py t.clk pattern) answer
      else t.reply (.error .wrongArgs)
    | _ => t.reply (.error .wrongArgs)
  | .stats =>
    if args.isEmpty then t.replyData (t.adaptor.stats cfg) else t.reply (.error .wrongArgs)
  | .shutdown =>
    -- the kill is requested now, and the process exits when this command ends
    if cfg.shutdownSupport then
      { { t with adaptor := { t.adaptor with killActive := true } }.reply (.text "1") with
        ending := .exited }
    else t.reply (.error .unknownCommand)
  | .dump => if cfg.debug then t.reply (.text "1") else t.reply (.error .unknownCommand)
  | .pass | .conn | .unknown => t.reply (.error .unknownCommand)

def dispatch (t : Turn) (uuid : ClientId) (verb : Verb) (args : List Arg) : Turn :=
  if verb = .conn then t.conn py uuid args
  else
    match t.session.clientId with
    | none => t.reply (.error .connRequired)
    | some clientId => t.serve py cfg clientId verb args

end Turn

/-- The empty password is falsy, like none. -/
def lockedOut (session : Session) : Bool :=
  match cfg.password with
  | none => false
  | some password => decide (password ≠ "") && !session.authorized

inductive PassCheck
  | granted
  | refused
  | raised

def checkPassword (verb : Verb) (args : List Arg) : PassCheck :=
  match verb, args with
  | .pass, [arg] =>
    if arg.truthy then
      match arg.decode with
      | none => .raised
      | some password => if some password = cfg.password then .granted else .refused
    else .refused
  | _, _ => .refused

/-- A command refused for want of a password is answered with an error, its
connection is told to close, and the dispatch goes on all the same. -/
def processCommand (adaptor : StorageAdaptor) (clk : Clock) (session : Session) (uuid : ClientId)
    (command : Arg) (args : List Arg) : Turn :=
  let t : Turn := { adaptor := adaptor, clk := clk, session := session }
  if adaptor.killActive then t.reply (.error .serverTerminating)
  else
    match command.decode with
    | none => t.raise
    | some name =>
      let verb := Verb.named (py.lower name)
      if lockedOut cfg session then
        match checkPassword cfg verb args with
        | .raised => t.raise
        | .granted => { t with session := { session with authorized := true } }.reply (.bool true)
        | .refused =>
          let t := t.reply (.error .pass)
          let t := { t with session := { t.session with closing := true } }
          t.dispatch py cfg uuid verb args
      else t.dispatch py cfg uuid verb args

/-- A request without a command word fails on the call itself. -/
def onCommandReceived (adaptor : StorageAdaptor) (clk : Clock) (session : Session) (uuid : ClientId)
    (value : List Arg) : Turn :=
  match value with
  | [] => { adaptor := adaptor, clk := clk, session := session, ending := .raised }
  | command :: args => processCommand py cfg adaptor clk session uuid command args

/-- Only the loss of the last known connection of a client releases its
locks, or of any connection of it when no address is known. -/
def connectionLost (adaptor : StorageAdaptor) (clk : Clock) (session : Session) :
    Except Raised (StorageAdaptor × Clock) :=
  if adaptor.killActive then .ok (adaptor, clk)
  else
    match session.clientId with
    | none => .ok (adaptor, clk)
    | some clientId =>
      let lastAddress := adaptor.getClientLastAddress clientId
      if lastAddress = some session.peername ∨ lastAddress = none then do
        let (_, adaptor, clk) ← adaptor.releaseAll py clk clientId
        .ok (adaptor, clk)
      else .ok (adaptor, clk)

/-- The request that `send_command` makes of its words, as it is read. -/
def words (ws : List String) : List Arg := ws.map fun w => .bytes (encode w)

def plainConfig : Config where
  password := none
  shutdownSupport := false
  debug := false
  dumpFilePath := "/livelock_memstor_dump.pickle"

end Livelock.Server
