import Livelock.Conversation
import Livelock.LockService

namespace Livelock.RemoteService

open Livelock.Lib Livelock.Shared Livelock.MemoryStorage Livelock.Server Livelock.ServerRun
open Livelock.ReplyFraming Livelock.Ascii Livelock.Pipeline Livelock.WireServer
open Livelock.Connection Livelock.LockService Livelock.Conversation
open Livelock.ClientReader (Response readResponse)
open Livelock.Framing (sent)
open Livelock.Lib.Reader (Reads)
open Livelock.Lib.Chunks (drive)

variable (py : Builtins)

/-- These events are a life of the lock service, and this is what one client
hears of it. Its commands are events of their own between those of all the
others, each takes effect at once, by the clock of its event, and the response
is the one that is written for it and that the table tells at that moment. -/
inductive Heard (k : ConnId) : List Occurrence → List (List String) → List Response → Service → Prop
  | start : Heard k [] [] [] .start
  | other {os : List Occurrence} {past : List (List String)} {responses : List Response} {s s' : Service}
      {o : Occurrence} (h : Heard k os past responses s) (hs : Service.Step py s o s')
      (he : ∀ uuid value, o.event ≠ .command k uuid value) : Heard k (os ++ [o]) past responses s'
  | reply {os : List Occurrence} {past : List (List String)} {responses : List Response} {s s' : Service}
      {o : Occurrence} {uuid : ClientId} {ws : List String} {told : Response → Prop} {r : Response}
      (h : Heard k os past responses s) (he : o.event = .command k uuid (words ws)) (hpeer : s.peer k ≠ none)
      (hs : Service.Serves py s k uuid (words ws) o.clk told s')
      (hread : Reads (readResponse py) (sent py o.writes) r) (hr : told r) :
      Heard k (os ++ [o]) (past ++ [ws]) (responses ++ [r]) s'

variable {py} {cfg : Config} {k : ConnId} {os : List Occurrence} {past : List (List String)}
  {responses : List Response}

theorem dialogue_heard {s : Service} (h : Dialogue py k past os responses)
    (hrun : Run (Service.Step py) .start os s) : Heard py k os past responses s := by
  induction h generalizing s with
  | nil =>
    rw [hrun.eq_of_nil]
    exact .start
  | other _ he ih =>
    obtain ⟨v, hpast, hs⟩ := hrun.snoc_inv
    exact (ih hpast).other hs he
  | reply _ he hr ih =>
    obtain ⟨v, hpast, hs⟩ := hrun.snoc_inv
    obtain ⟨told, hpeer, hserves, htells⟩ := request_serves hs he
    exact (ih hpast).reply he hpeer hserves hr (htells _ hr)

/-- A client that writes its commands to a socket and reads its responses from
it deals with the lock service itself. -/
theorem remote_service {depth : Nat} {T : Time} {es : List Handled} {loop : EventLoop}
    (h : Run (Handles py cfg (depth + 2)) (EventLoop.start T) es loop) {commands : List Frame}
    (hsendable : ∀ f ∈ commands, f.Sendable) (horderly : Orderly py cfg (commands.map Frame.words))
    {parts : List Bytes} (hparts : commands.mapM (Frame.payload py) = some parts)
    (hreceived : received k es <+: parts.flatten)
    (hgraphic : ∀ o ∈ served es, ∀ uuid value, o.event = .command k uuid value → Graphic uuid.name)
    {thread : String} {b : SocketBuffer} (hb : b.Ok thread) (hempty : b.unread = [])
    {socket : List Recv} (hsocket : Chunks.received feed socket = (frames py k (served es)).flatten)
    {fuel : Nat} (hfuel : (Chunks.received feed socket).length < fuel) :
    ∃ past responses b' socket', past <+: commands.map Frame.words ∧
      Heard py k (served es) past responses (serviceOf loop.server) ∧
      drive (op thread) (BufferedReader.times (BufferedReader.readResponse py fuel) responses.length) b socket =
        .got responses b' socket' ∧
      ∀ stream, loop.streams.get? k = some stream → stream.woken = false → serving loop.server k = true →
        received k es = parts.flatten → past = commands.map Frame.words := by
  obtain ⟨past, responses, hpast, hdialogue, hall⟩ := dialogue_run h hsendable horderly hparts hreceived hgraphic
  obtain ⟨b', socket', hdrive, -⟩ := dialogue_read hdialogue hb hempty hsocket hfuel
  have hrun := run_refines (faithful_run h).run (sound_start T)
  rw [serviceOf_start] at hrun
  exact ⟨past, responses, b', socket', hpast, dialogue_heard hdialogue hrun, hdrive, hall⟩

theorem remote_service_two : ∃ (es : List Handled) (loop : EventLoop) (responses : List Response)
    (b' : SocketBuffer) (socket' : List Recv),
    Heard ascii 0 (served es) [["PING"], ["CONN"]] responses (serviceOf loop.server) ∧
      drive (op "main") (BufferedReader.times (BufferedReader.readResponse ascii
          ((frames ascii 0 (served es)).flatten.length + 1)) responses.length)
        (SocketBuffer.new (some "main")) (byByte (frames ascii 0 (served es)).flatten) =
          .got responses b' socket' := by
  obtain ⟨es, loop, stream, parts, hrun, hparts, hwhole, hgraphic, hstream, hwoken, hlive⟩ := cutRequests_talk
  obtain ⟨past, responses, b', socket', -, hheard, hdrive, hall⟩ := remote_service hrun pingConn_sendable
    pingConn_orderly hparts (hwhole ▸ List.prefix_rfl) hgraphic new_ok rfl (received_byByte _)
    (by rw [received_byByte]; exact Nat.lt_succ_self _)
  obtain rfl := hall stream hstream hwoken hlive hwhole
  exact ⟨es, loop, responses, b', socket', hheard, hdrive⟩

end Livelock.RemoteService
