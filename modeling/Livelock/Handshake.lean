import Livelock.Client

namespace Livelock.Handshake

open Livelock.Lib Livelock.Shared Livelock.ServerRun Livelock.ClientReader
open Livelock.Client (LiveLockConnection Process Exc Call Comp truthy)

/-- What happens on a connection: a command is sent, where `known` is the id
that the client has then, or a response is read. -/
inductive Event
  | sent (ws : List String) (known : Option String)
  | answered (resp : Response)

def Event.command? : Event → Option (List String × Option String)
  | .sent ws known => some (ws, known)
  | .answered _ => none

def commands (t : List Event) : List (List String × Option String) := t.filterMap Event.command?

def isConn (ws : List String) : Bool := decide (ws.head? = some "CONN")

def isError : Response → Bool
  | .error _ _ => true
  | .value _ | .text _ => false

/-- `CONN` was answered, and not by an error. -/
def Welcomed (t : List Event) : Prop :=
  ∃ pre ws known resp post, t = pre ++ .sent ws known :: .answered resp :: post ∧
    isConn ws = true ∧ isError resp = false

/-- The handshake comes first on the connection. -/
structure Handshaken (password : String) (t : List Event) : Prop where
  pass : ∀ ws known, (commands t)[0]? = some (ws, known) → ws = ["PASS", password]
  conn : ∀ ws known, (commands t)[1]? = some (ws, known) → ws = "CONN" :: known.toList
  once : (commands t).countP (fun p => isConn p.1) ≤ 1
  waits : ∀ pre ws known post, t = pre ++ .sent ws known :: post → 2 ≤ (commands pre).length →
    Welcomed pre

/-- The command is the one to come next on the connection, or one of those
that can. -/
inductive Due (password : String) (t : List Event) (known : Option String) : List String → Prop
  | pass : (commands t).length = 0 → Due password t known ["PASS", password]
  | conn : (commands t).length = 1 → Due password t known ("CONN" :: known.toList)
  | other (ws : List String) : Welcomed t → isConn ws = false → Due password t known ws

variable {password : String} {t t' : List Event} {known : Option String} {ws : List String}
  {resp : Response}

@[simp] theorem commands_append : commands (t ++ t') = commands t ++ commands t' :=
  List.filterMap_append

@[simp] theorem commands_sent : commands [.sent ws known] = [(ws, known)] := rfl

@[simp] theorem commands_answered : commands [.answered resp] = [] := rfl

theorem welcomed_append (h : Welcomed t) : Welcomed (t ++ t') := by
  obtain ⟨pre, ws, known, resp, post, rfl, hconn, hresp⟩ := h
  exact ⟨pre, ws, known, resp, post ++ t', by simp, hconn, hresp⟩

theorem handshaken_nil : Handshaken password [] where
  pass := by simp [commands]
  conn := by simp [commands]
  once := by simp [commands]
  waits := by simp

theorem handshaken_prefix (h : Handshaken password t') (ht : t <+: t') : Handshaken password t := by
  obtain ⟨post, rfl⟩ := ht
  have hget : ∀ (n : Nat) p, (commands t)[n]? = some p → (commands (t ++ post))[n]? = some p := by
    intro n p hn
    rw [commands_append, List.getElem?_append_left (List.getElem?_eq_some_iff.mp hn).1, hn]
  refine ⟨fun ws known hn => h.pass ws known (hget 0 _ hn),
    fun ws known hn => h.conn ws known (hget 1 _ hn), ?_, fun pre ws known post' hpre hlen => ?_⟩
  · have honce := h.once
    rw [commands_append, List.countP_append] at honce
    omega
  · exact h.waits pre ws known (post' ++ post) (by simp [hpre]) hlen

theorem handshaken_answered (h : Handshaken password t) :
    Handshaken password (t ++ [.answered resp]) := by
  have hsame : commands (t ++ [.answered resp]) = commands t := by simp
  refine ⟨?_, ?_, ?_, fun pre ws known post hpre hlen => ?_⟩
  · rw [hsame]
    exact h.pass
  · rw [hsame]
    exact h.conn
  · rw [hsame]
    exact h.once
  · obtain ⟨-, he⟩ | ⟨post', ht⟩ := split_concat hpre
    · cases he
    · exact h.waits pre ws known post' ht hlen

theorem welcomed_length (h : Handshaken password t) (hw : Welcomed t) : 2 ≤ (commands t).length := by
  obtain ⟨pre, ws, known, resp, post, rfl, hconn, -⟩ := hw
  have hcommands : commands (pre ++ .sent ws known :: .answered resp :: post) =
      commands pre ++ (ws, known) :: commands post := by
    rw [commands_append]
    rfl
  cases hpre : commands pre with
  | nil =>
    have hpass : ws = ["PASS", password] := h.pass ws known (by simp [hcommands, hpre])
    rw [hpass] at hconn
    cases hconn
  | cons p ps =>
    simp only [hcommands, hpre, List.length_append, List.length_cons]
    omega

theorem handshaken_sent (h : Handshaken password t) (hd : Due password t known ws) :
    Handshaken password (t ++ [.sent ws known]) := by
  have hwaits : (2 ≤ (commands t).length → Welcomed t) → ∀ pre ws' known' post,
      t ++ [.sent ws known] = pre ++ .sent ws' known' :: post → 2 ≤ (commands pre).length →
      Welcomed pre := by
    intro hw pre ws' known' post hpre hlen
    obtain ⟨rfl, -⟩ | ⟨post', ht⟩ := split_concat hpre
    · exact hw hlen
    · exact h.waits pre ws' known' post' ht hlen
  have hcommands : commands (t ++ [.sent ws known]) = commands t ++ [(ws, known)] := by simp
  cases hd with
  | pass hlen =>
    have hnil : commands t = [] := List.length_eq_zero_iff.mp hlen
    rw [hnil, List.nil_append] at hcommands
    refine ⟨?_, ?_, ?_, hwaits fun h2 => absurd h2 (by omega)⟩
    · simp [hcommands]
    · simp [hcommands]
    · simp [hcommands, isConn]
  | conn hlen =>
    obtain ⟨⟨ws₀, known₀⟩, hone⟩ := List.length_eq_one_iff.mp hlen
    have hpass : ws₀ = ["PASS", password] := h.pass ws₀ known₀ (by simp [hone])
    rw [hone, hpass, List.singleton_append] at hcommands
    refine ⟨?_, ?_, ?_, hwaits fun h2 => absurd h2 (by omega)⟩
    · simp [hcommands]
    · simp [hcommands]
    · simp [hcommands, isConn]
  | other _ hw hconn =>
    have hlen := welcomed_length h hw
    refine ⟨?_, ?_, ?_, hwaits fun _ => hw⟩
    · rw [hcommands, List.getElem?_append_left (by omega)]
      exact h.pass
    · rw [hcommands, List.getElem?_append_left (by omega)]
      exact h.conn
    · rw [hcommands, List.countP_append, List.countP_singleton]
      simpa [hconn] using h.once

theorem welcomed_conn (hconn : isConn ws = true) (hresp : isError resp = false) :
    Welcomed (t ++ [.sent ws known, .answered resp]) :=
  ⟨t, ws, known, resp, [], rfl, hconn, hresp⟩

/-- How far a task of the client has come with the connection that it opens at
its start because it finds none, where it may reconnect. -/
inductive Phase
  | starting
  | opened (k : ConnId)
  /-- `CONN` has met an error of the socket there. -/
  | lost
  | running
deriving DecidableEq

structure World where
  client : LiveLockConnection
  opened : ConnId
  trace : ConnId → List Event
  closed : ConnId → Bool
  phase : Phase

inductive Choice
  | succeed
  | refuse
  | fail
  | reply (resp : Response)
  | unreadable

variable (proc : Process)

namespace World

def start (client : LiveLockConnection) : World where
  client := client
  opened := 0
  trace := fun _ => []
  closed := fun _ => false
  phase := .running

def ownSock (w : World) : Option ConnId := w.client.ownSock proc.pid

def begin (w : World) (mayReconnect : Bool) : World :=
  { w with phase := if mayReconnect && (w.ownSock proc).isNone then .starting else .running }

def accept (w : World) : World :=
  { w with
    opened := w.opened + 1
    phase := if w.phase = .starting then .opened w.opened else .running }

def log (w : World) (k : ConnId) (e : Event) : World :=
  { w with trace := Function.update w.trace k (w.trace k ++ [e]) }

def send (w : World) (k : ConnId) (ws : List String) : World :=
  if w.closed k then w else w.log k (.sent ws (truthy (w.client.ownId proc.pid)))

def cut (w : World) (k : ConnId) : World :=
  { w with
    phase :=
      if w.phase = .opened k ∧ (commands (w.trace k)).getLast?.any fun p => isConn p.1 then .lost
      else w.phase }

def answer (w : World) : (e : Call) → Choice → Option (e.Result × World)
  | .self, .succeed => some (w.client, w)
  | .keepSock k pid, .succeed =>
    some ((), { w with client := { w.client with sock := some k, sockPid := pid } })
  | .dropSock, .succeed => some ((), { w with client := { w.client with sock := none } })
  | .keepId clientId pid, .succeed =>
    some ((), { w with client := { w.client with clientId := clientId, clientIdPid := pid } })
  | .connect, .succeed => some (.ok w.opened, w.accept)
  | .connect, .refuse => some (.error .refused, w)
  | .connect, .fail => some (.error .os, w)
  | .sendall k ws, .succeed => if w.closed k then none else some (.ok (), w.send proc k ws)
  | .sendall k ws, .fail => some (.error .os, (w.send proc k ws).cut k)
  | .read k, .reply resp => if w.closed k then none else some (.ok resp, w.log k (.answered resp))
  | .read k, .unreadable => if w.closed k then none else some (.error .other, w)
  | .read k, .fail => some (.error .os, w.cut k)
  | .close k, .succeed => some ((), { w with closed := Function.update w.closed k true })
  | _, _ => none

end World

/-- No connection is opened for a `CONN` that has been lost on the connection
that the task opened at its start. -/
def spares (w : World) : Call → Choice → Bool
  | .connect, .succeed => decide (w.phase ≠ .lost)
  | _, _ => true

inductive Task
  | command (ws : List String) (hconn : isConn ws = false) (reconnect : Bool)
  | connect (reconnect : Bool)
  | reconnect
  | close

def Task.mayReconnect : Task → Bool
  | .command _ _ again | .connect again => again
  | .reconnect | .close => false

def Task.program (depth : Nat) : Task → Comp Unit
  | .command ws _ again => do
    let _ ← Client.sendCommand proc depth ws again true
    pure ()
  | .connect again => Client.connect proc (Client.sendCommand proc depth) again true
  | .reconnect => Client.reconnect proc (Client.sendCommand proc depth) true
  | .close => Client.close proc

variable (cond : World → Call → Choice → Bool)

def Responds (w : World) (e : Call) (r : e.Result) (w' : World) : Prop :=
  ∃ choice, w.answer proc e choice = some (r, w') ∧ cond w e choice = true

/-- The client does a task to its end, among surroundings that answer in every
way that meets the condition. -/
def Does (depth : Nat) (w : World) (task : Task) (w' : World) : Prop :=
  ∃ o, (task.program proc depth).Exec (Responds proc cond) (fun _ _ => False)
    (w.begin proc task.mayReconnect) o w'

/-- A command that is not too long to be sent does not find the client with a
connection that is open and not welcomed. -/
def Settled (w : World) : Task → Prop
  | .command ws _ _ => (Client.payload ws).length ≤ w.client.maxPayload + 1 →
    ∀ k, w.ownSock proc = some k → w.closed k = false → Welcomed (w.trace k)
  | .connect _ | .reconnect | .close => True

end Livelock.Handshake
