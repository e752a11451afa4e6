import Livelock.ServerRun
import Livelock.CommandTask
import Livelock.Pipeline

namespace Livelock.WireServer

open Livelock.Lib Livelock.Shared Livelock.MemoryStorage Livelock.Server Livelock.ServerReader
open Livelock.ServerRun Livelock.CommandTask Livelock.Pipeline Livelock.Ascii
open Livelock.MemoryStorage.InMemoryLockStorage (Shuffle)
open Livelock.StorageRun (bob)
open Livelock.Lib.Coroutine (Reaches)

/-- Where `receive_commands` of a connection is: in a read, or over. -/
inductive Receiver
  | reading (task : Task)
  | ended

/-- The `StreamReader` of a connection and the task that reads from it. `woken`
says that the task has a turn to come: it was just created, or it was fed. -/
structure Stream where
  buffer : Bytes := []
  eof : Bool := false
  receiver : Receiver := .reading .start
  woken : Bool := true

structure EventLoop where
  server : Server
  streams : Dict ConnId Stream

/-- The id that `uuid4` would give a command, and the readings that it gets. -/
abbrev Stamp := ClientId × (Nat → Time)

/-- What the event loop calls. A task that has its turn comes with a stamp for
each command that it is going to process in it. -/
inductive Callback
  | connectionMade (peername : Address) (reading : Nat → Time)
  | dataReceived (k : ConnId) (data : Bytes)
  | eofReceived (k : ConnId)
  | turn (k : ConnId) (stamps : List Stamp)
  | connectionLost (k : ConnId) (reading : Nat → Time)
  | maintenance (timeoutMs : Time) (shuffle : Shuffle) (reading : Nat → Time)

structure Served where
  server : Server
  receiver : Receiver
  buffer : Bytes
  occurrences : List Occurrence := []

def serving (sv : Server) (k : ConnId) : Bool :=
  !sv.exited && (sv.connections.get? k).any Session.serving

variable (py : Builtins) (cfg : Config) (depth : Nat)

/-- The loop of `receive_commands` in one turn of its task, which lasts until a
read has to wait. At the end of the stream it does not wait but is over. -/
def serve (k : ConnId) (eof : Bool) : List Stamp → Server → Task → Bytes → Option Served
  | stamps, sv, task, s =>
    match task.run py depth s, stamps with
    | .waits task rest, [] => some ⟨sv, if eof then .ended else .reading task, rest, []⟩
    | .raised rest, [] => some ⟨sv, .ended, rest, []⟩
    | .ends value rest, (uuid, reading) :: stamps =>
      match sv.step py cfg (.command k uuid value) ⟨reading, 0⟩ with
      | none => none
      | some (sv, writes) =>
        let o : Occurrence := ⟨.command k uuid value, reading, writes⟩
        if serving sv k then
          (serve k eof stamps sv .start rest).map fun out =>
            { out with occurrences := o :: out.occurrences }
        else if stamps.isEmpty then some ⟨sv, .ended, rest, [o]⟩
        else none
    | _, _ => none

namespace EventLoop

def start (releaseAllTimeout : Time) : EventLoop := ⟨.start releaseAllTimeout, .empty⟩

def event (loop : EventLoop) (event : Event) (reading : Nat → Time) (streams : Dict ConnId Stream) :
    Option (EventLoop × List Occurrence) :=
  (loop.server.step py cfg event ⟨reading, 0⟩).map fun out =>
    (⟨out.1, streams⟩, [⟨event, reading, out.2⟩])

/-- Nothing is received once the stream has ended or the transport was told to
close. The loop keeps its callbacks in order, so the loss of a connection comes
after the turns that its task still had to come. -/
def step (loop : EventLoop) (callback : Callback) : Option (EventLoop × List Occurrence) :=
  match callback with
  | .connectionMade peername reading =>
    loop.event py cfg (.connect peername) reading (loop.streams.set loop.server.accepted {})
  | .dataReceived k data =>
    match loop.streams.get? k with
    | none => none
    | some stream =>
      if loop.server.exited || stream.eof || (loop.server.connections.get? k).any Session.closing then none
      else
        let stream := { stream with buffer := stream.buffer ++ data, woken := true }
        some ({ loop with streams := loop.streams.set k stream }, [])
  | .eofReceived k =>
    match loop.streams.get? k with
    | none => none
    | some stream =>
      if loop.server.exited then none
      else
        let stream := { stream with eof := true, woken := true }
        some ({ loop with streams := loop.streams.set k stream }, [])
  | .turn k stamps =>
    match loop.streams.get? k with
    | none => none
    | some stream =>
      if loop.server.exited || !stream.woken then none
      else
        match stream.receiver with
        | .ended =>
          let stream := { stream with woken := false }
          if stamps.isEmpty then some ({ loop with streams := loop.streams.set k stream }, []) else none
        | .reading task =>
          (serve py cfg depth k stream.eof stamps loop.server task stream.buffer).map fun out =>
            let stream := { stream with buffer := out.buffer, receiver := out.receiver, woken := false }
            (⟨out.server, loop.streams.set k stream⟩, out.occurrences)
  | .connectionLost k reading =>
    match loop.streams.get? k with
    | none => none
    | some stream =>
      if stream.woken then none else loop.event py cfg (.lost k) reading (loop.streams.erase k)
  | .maintenance timeoutMs shuffle reading =>
    loop.event py cfg (.maintenance timeoutMs shuffle) reading loop.streams

def next (loop : EventLoop) (callback : Callback) : Option EventLoop :=
  (loop.step py cfg depth callback).map Prod.fst

end EventLoop

/-- A callback, with the events of the server that it was. -/
structure Handled where
  callback : Callback
  occurrences : List Occurrence

def Handles (loop : EventLoop) (e : Handled) (loop' : EventLoop) : Prop :=
  loop.step py cfg depth e.callback = some (loop', e.occurrences)

def served (es : List Handled) : List Occurrence := es.flatMap Handled.occurrences

def Callback.data (k : ConnId) : Callback → Bytes
  | .dataReceived j data => if j = k then data else []
  | _ => []

def received (k : ConnId) (es : List Handled) : Bytes := es.flatMap fun e => e.callback.data k

def requestOn (k : ConnId) (o : Occurrence) : Option (List Arg) :=
  match o.event with
  | .command j _ value => if j = k then some value else none
  | _ => none

def processed (k : ConnId) (os : List Occurrence) : List (List Arg) := os.filterMap (requestOn k)

/-- The requests at the front of a stream, up to what is no whole request. Each
takes a byte at least. -/
def requestsIn : Nat → Bytes → List (List Arg)
  | 0, _ => []
  | fuel + 1, s =>
    match readCommand py depth s with
    | .done value rest => value :: requestsIn fuel rest
    | .more | .raised => []

/-- The stream is made of the words of these requests, with a rest. -/
def Spells (s : Bytes) (values : List (List Arg)) (rest : Bytes) : Prop :=
  ∃ ws, s = ws.flatten ++ rest ∧ List.Forall₂ (Request py depth) ws values

/-- A connection stands with its unprocessed bytes: its task means to read the
next request from them, or it is over for good reason. -/
def Stands (stream : Stream) (live : Bool) (rest : Bytes) : Prop :=
  match stream.receiver with
  | .reading task =>
    (∀ t, readCommand py depth (rest ++ t) = task.meaning py depth (stream.buffer ++ t)) ∧
      (stream.woken = false → readCommand py depth rest = .more)
  | .ended => live = true →
    readCommand py depth rest = .raised ∨ stream.eof = true ∧ readCommand py depth rest = .more

variable {py cfg depth} {k : ConnId} {sv : Server} {stream : Stream} {s fed rest : Bytes} {values : List (List Arg)}

theorem spells_append (h : Spells py depth s values rest) (t : Bytes) :
    Spells py depth (s ++ t) values (rest ++ t) := by
  obtain ⟨ws, rfl, hws⟩ := h
  exact ⟨ws, List.append_assoc _ _ _, hws⟩

theorem spells_snoc (h : Spells py depth s values rest) {value : List Arg} {rest' : Bytes}
    (hread : readCommand py depth rest = .done value rest') :
    Spells py depth s (values ++ [value]) rest' := by
  obtain ⟨ws, rfl, hws⟩ := h
  obtain ⟨w, rfl, hw⟩ := (recognises_request depth).taken hread
  refine ⟨ws ++ [w], ?_, List.rel_append hws (.cons hw .nil)⟩
  rw [List.flatten_append, List.flatten_singleton, List.append_assoc]

theorem requestsIn_enough {n m : Nat} (hn : s.length ≤ n) (hm : s.length ≤ m) :
    requestsIn py depth n s = requestsIn py depth m s := by
  induction n generalizing m s with
  | zero =>
    obtain rfl := List.length_eq_zero_iff.mp (Nat.le_zero.mp hn)
    cases m <;> rfl
  | succ n ih =>
    cases m with
    | zero =>
      obtain rfl := List.length_eq_zero_iff.mp (Nat.le_zero.mp hm)
      rfl
    | succ m =>
      rw [requestsIn, requestsIn]
      cases hs : readCommand py depth s with
      | done value rest =>
        have hless := (recognises_request depth).takes_some request_ne_nil hs
        exact congrArg _ (ih (by omega) (by omega))
      | more | raised => rfl

theorem spells_requests (h : Spells py depth s values rest) :
    requestsIn py depth s.length s = values ++ requestsIn py depth rest.length rest := by
  obtain ⟨ws, rfl, hws⟩ := h
  induction hws with
  | nil => rfl
  | @cons w value ws values hw hws ih =>
    have hlength := List.length_pos_of_ne_nil (request_ne_nil hw)
    have hread := (recognises_request depth).takes hw (ws.flatten ++ rest)
    rw [List.flatten_cons, List.append_assoc]
    obtain ⟨n, hn⟩ : ∃ n, (w ++ (ws.flatten ++ rest)).length = n + 1 :=
      Nat.exists_eq_succ_of_ne_zero (by rw [List.length_append]; omega)
    rw [hn, requestsIn, hread]
    dsimp only
    have hfuel : (ws.flatten ++ rest).length ≤ n := by
      rw [List.length_append] at hn
      omega
    rw [requestsIn_enough hfuel le_rfl, ih, List.cons_append]

theorem requestsIn_stopped (h : ∀ value rest', readCommand py depth rest ≠ .done value rest') (n : Nat) :
    requestsIn py depth n rest = [] := by
  cases n with
  | zero => rfl
  | succ n =>
    rw [requestsIn]
    cases hs : readCommand py depth rest with
    | done value rest' => exact absurd hs (h value rest')
    | more | raised => rfl

theorem processed_append (k : ConnId) (os os' : List Occurrence) :
    processed k (os ++ os') = processed k os ++ processed k os' := List.filterMap_append

theorem processed_command (k : ConnId) (uuid : ClientId) (value : List Arg) (reading : Nat → Time)
    (writes : List Write) (os : List Occurrence) :
    processed k (⟨.command k uuid value, reading, writes⟩ :: os) = value :: processed k os := by
  rw [processed, List.filterMap_cons_some (b := value) (by simp [requestOn])]
  rfl

/-- A turn of a task processes requests from the front of what is unprocessed,
and the connection stands with the rest. -/
theorem serve_spells {stamps : List Stamp} {task : Task} {eof : Bool} {out : Served}
    (hserve : serve py cfg depth k eof stamps sv task s = some out)
    (hspells : Spells py depth fed values rest)
    (hmeans : ∀ t, readCommand py depth (rest ++ t) = task.meaning py depth (s ++ t)) :
    Run (Steps py cfg) sv out.occurrences out.server ∧
      (∀ o ∈ out.occurrences, ∃ uuid value, o.event = .command k uuid value) ∧
      ∃ rest', Spells py depth fed (values ++ processed k out.occurrences) rest' ∧
        Stands py depth ⟨out.buffer, eof, out.receiver, false⟩ (serving out.server k) rest' := by
  induction stamps generalizing sv task s values rest out with
  | nil =>
    have hreach := run_reaches py depth task s
    have hrest : readCommand py depth rest = task.meaning py depth s := by simpa using hmeans []
    have hnone : values = values ++ processed k [] := (List.append_nil values).symm
    unfold serve at hserve
    cases hrun : task.run py depth s with
    | ends value r => simp [hrun] at hserve
    | waits task' r =>
      rw [hrun] at hreach
      simp only [hrun, Option.some.injEq] at hserve
      subst hserve
      refine ⟨.nil, nofun, rest, hnone ▸ hspells, ?_⟩
      cases eof with
      | false => exact ⟨fun t => (hmeans t).trans (hreach.2 t), fun _ => hrest.trans hreach.1⟩
      | true => exact fun _ => .inr ⟨rfl, hrest.trans hreach.1⟩
    | raised r =>
      rw [hrun] at hreach
      simp only [hrun, Option.some.injEq] at hserve
      subst hserve
      exact ⟨.nil, nofun, rest, hnone ▸ hspells, fun _ => .inl (hrest.trans hreach)⟩
  | cons stamp stamps ih =>
    obtain ⟨uuid, reading⟩ := stamp
    have hreach := run_reaches py depth task s
    have hrest : readCommand py depth rest = task.meaning py depth s := by simpa using hmeans []
    unfold serve at hserve
    cases hrun : task.run py depth s with
    | waits | raised => simp [hrun] at hserve
    | ends value r =>
      rw [hrun] at hreach
      simp only [hrun] at hserve
      have hnext := spells_snoc hspells (hrest.trans hreach)
      cases hstep : sv.step py cfg (.command k uuid value) ⟨reading, 0⟩ with
      | none => simp [hstep] at hserve
      | some turned =>
        obtain ⟨sv', writes⟩ := turned
        simp only [hstep] at hserve
        have hs : Steps py cfg sv ⟨.command k uuid value, reading, writes⟩ sv' := hstep
        split at hserve
        · obtain ⟨out', hout', rfl⟩ := Option.map_eq_some_iff.mp hserve
          obtain ⟨hsteps, hevents, rest', hspells', hstands⟩ := ih hout' hnext fun t => rfl
          refine ⟨Run.cons hs hsteps, ?_, rest', ?_, hstands⟩
          · exact List.forall_mem_cons.mpr ⟨⟨uuid, value, rfl⟩, hevents⟩
          · rwa [processed_command, List.append_cons]
        · next hdead =>
          split at hserve
          · obtain rfl := Option.some_inj.mp hserve
            refine ⟨Run.single hs, ?_, r, ?_, fun hlive => absurd hlive hdead⟩
            · exact List.forall_mem_singleton.mpr ⟨uuid, value, rfl⟩
            · rwa [processed_command]
          · cases hserve

theorem serving_iff (sv : Server) (k : ConnId) : serving sv k = true ↔
    sv.exited = false ∧ ∃ session, sv.connections.get? k = some session ∧ session.serving = true := by
  simp [serving, Option.any_eq_true]

theorem serving_step {sv' : Server} {o : Occurrence} {j : ConnId} (h : Sound sv) (hs : Steps py cfg sv o sv')
    (hcommand : ∀ uuid value, o.event ≠ .command j uuid value) (hj : j < sv.accepted)
    (hlive : serving sv' j = true) : serving sv j = true := by
  obtain ⟨-, session, hsession, hserving⟩ := (serving_iff sv' j).mp hlive
  refine (serving_iff sv j).mpr ⟨steps_live hs, session, ?_, hserving⟩
  cases step_change h hs with
  | connect =>
    obtain ⟨rfl, -⟩ | ⟨-, hold⟩ := connections_set hsession
    · exact absurd hj (lt_irrefl _)
    · exact hold
  | command k uuid value _ _ he =>
    obtain ⟨rfl, -⟩ | ⟨-, hold⟩ := connections_set hsession
    · exact absurd he (hcommand uuid value)
    · exact hold
  | lost | lostLast => exact (connections_erase hsession).2
  | maintenance => exact hsession

theorem accepted_connect {sv' : Server} {o : Occurrence} {peername : Address} (h : Sound sv)
    (hs : Steps py cfg sv o sv') (he : o.event = .connect peername) : sv'.accepted = sv.accepted + 1 := by
  cases step_change h hs with
  | connect => rfl
  | command _ _ _ _ _ he' | lost _ _ he' | lostLast _ _ _ he' | maintenance _ _ _ _ he' => cases he.symm.trans he'

theorem commands_frame {sv' : Server} {os : List Occurrence} (hrun : Run (Steps py cfg) sv os sv') (h : Sound sv)
    (hevents : ∀ o ∈ os, ∃ uuid value, o.event = .command k uuid value) :
    sv'.accepted = sv.accepted ∧ ∀ j ≠ k, processed j os = [] ∧
      (j < sv.accepted → serving sv' j = true → serving sv j = true) := by
  induction hrun with
  | nil => exact ⟨rfl, fun j _ => ⟨rfl, fun _ hlive => hlive⟩⟩
  | @snoc os o v w hrun hs ih =>
    obtain ⟨haccepted, hothers⟩ := ih fun o ho => hevents o (List.mem_append_left _ ho)
    obtain ⟨uuid, value, he⟩ := hevents o (by simp)
    have hv := sound_run hrun h
    obtain ⟨session, t, -, rfl, -⟩ := command_change hv hs he
    refine ⟨haccepted, fun j hj => ?_⟩
    obtain ⟨hnone, hback⟩ := hothers j hj
    have hother : ∀ uuid' value', o.event ≠ .command j uuid' value' := by
      intro uuid' value' he'
      cases he.symm.trans he'
      exact hj rfl
    constructor
    · rw [processed_append, hnone, processed, List.filterMap_cons_none]
      · rfl
      · simp [requestOn, he, Ne.symm hj]
    · exact fun hless hlive => hback hless (serving_step hv hs hother (haccepted ▸ hless) hlive)

theorem stands_mono {live live' : Bool} (h : Stands py depth stream live rest) (hlive : live' = true → live = true) :
    Stands py depth stream live' rest := by
  unfold Stands at *
  cases hr : stream.receiver with
  | reading task => simpa only [hr] using h
  | ended =>
    simp only [hr] at h ⊢
    exact fun hl => h (hlive hl)

variable (py cfg depth) in
/-- In what a run of the event loop has come to, the server has gone through a
run of its own, and every connection is faithful to its bytes. -/
structure Faithful (T : Time) (es : List Handled) (loop : EventLoop) : Prop where
  run : Run (Steps py cfg) (.start T) (served es) loop.server
  unused : ∀ k, loop.server.accepted ≤ k →
    received k es = [] ∧ processed k (served es) = [] ∧ loop.streams.get? k = none
  stands : ∀ k, ∃ rest, Spells py depth (received k es) (processed k (served es)) rest ∧
    ∀ stream, loop.streams.get? k = some stream → Stands py depth stream (serving loop.server k) rest

theorem served_snoc (es : List Handled) (e : Handled) : served (es ++ [e]) = served es ++ e.occurrences := by
  simp [served]

theorem received_snoc (k : ConnId) (es : List Handled) (e : Handled) :
    received k (es ++ [e]) = received k es ++ e.callback.data k := by
  simp [received]

theorem event_steps {loop loop' : EventLoop} {event : Event} {reading : Nat → Time} {streams : Dict ConnId Stream}
    {os : List Occurrence} (h : loop.event py cfg event reading streams = some (loop', os)) :
    ∃ writes, os = [⟨event, reading, writes⟩] ∧ loop'.streams = streams ∧
      Steps py cfg loop.server ⟨event, reading, writes⟩ loop'.server := by
  obtain ⟨⟨sv, writes⟩, hstep, he⟩ := Option.map_eq_some_iff.mp h
  obtain ⟨rfl, rfl⟩ := Prod.mk.inj he
  exact ⟨writes, rfl, rfl, hstep⟩

variable {T : Time} {es : List Handled} {e : Handled} {loop loop' : EventLoop}

theorem faithful_sound (h : Faithful py cfg depth T es loop) : Sound loop.server :=
  sound_run h.run (sound_start T)

theorem faithful_known (h : Faithful py cfg depth T es loop) (hk : loop.streams.get? k = some stream) :
    k < loop.server.accepted := by
  by_contra hle
  rw [(h.unused k (not_lt.mp hle)).2.2] at hk
  cases hk

theorem faithful_event (h : Faithful py cfg depth T es loop) {o : Occurrence}
    (hs : Steps py cfg loop.server o loop'.server) (he : e.occurrences = [o])
    (hcommand : ∀ k uuid value, o.event ≠ .command k uuid value) (hdata : ∀ k, e.callback.data k = [])
    (hold : ∀ k stream, k < loop.server.accepted → loop'.streams.get? k = some stream →
      loop.streams.get? k = some stream)
    (hnew : ∀ k stream, loop.server.accepted ≤ k → loop'.streams.get? k = some stream →
      stream = {} ∧ k < loop'.server.accepted) :
    Faithful py cfg depth T (es ++ [e]) loop' := by
  have hsound := faithful_sound h
  have hreceived : ∀ k, received k (es ++ [e]) = received k es := by
    intro k
    rw [received_snoc, hdata, List.append_nil]
  have hprocessed : ∀ k, processed k (served (es ++ [e])) = processed k (served es) := by
    intro k
    have hnone : processed k [o] = [] := by
      rw [processed, List.filterMap_cons_none]
      · rfl
      · unfold requestOn
        split
        · next he' => exact absurd he' (hcommand _ _ _)
        · rfl
    rw [served_snoc, he, processed_append, hnone, List.append_nil]
  refine ⟨?_, fun k hk => ?_, fun k => ?_⟩
  · rw [served_snoc, he]
    exact h.run.append (Run.single hs)
  · obtain ⟨hr, hp, -⟩ := h.unused k ((accepted_mono hsound hs).trans hk)
    refine ⟨(hreceived k).trans hr, (hprocessed k).trans hp, ?_⟩
    cases hstream : loop'.streams.get? k with
    | none => rfl
    | some stream =>
      have hless := (hnew k stream ((accepted_mono hsound hs).trans hk) hstream).2
      exact absurd hk (not_le.mpr hless)
  · rw [hreceived, hprocessed]
    by_cases hk : k < loop.server.accepted
    · obtain ⟨rest, hspells, hstands⟩ := h.stands k
      refine ⟨rest, hspells, fun stream hstream => ?_⟩
      exact stands_mono (hstands stream (hold k stream hk hstream)) (serving_step hsound hs (hcommand k) hk)
    · obtain ⟨hr, hp, -⟩ := h.unused k (not_lt.mp hk)
      rw [hr, hp]
      refine ⟨[], ⟨[], rfl, .nil⟩, fun stream hstream => ?_⟩
      obtain ⟨rfl, -⟩ := hnew k stream (not_lt.mp hk) hstream
      exact ⟨fun t => rfl, nofun⟩

theorem faithful_stream (h : Faithful py cfg depth T es loop) {stream' : Stream} {data : Bytes}
    (hk : loop.streams.get? k = some stream) (hserver : loop'.server = loop.server)
    (hstreams : loop'.streams = loop.streams.set k stream') (he : e.occurrences = [])
    (hdata : e.callback.data k = data) (hothers : ∀ j ≠ k, e.callback.data j = [])
    (hstands : ∀ rest, Stands py depth stream (serving loop.server k) rest →
      Stands py depth stream' (serving loop.server k) (rest ++ data)) :
    Faithful py cfg depth T (es ++ [e]) loop' := by
  have hserved : served (es ++ [e]) = served es := by rw [served_snoc, he, List.append_nil]
  have hless := faithful_known h hk
  refine ⟨?_, fun j hj => ?_, fun j => ?_⟩
  · rw [hserved, hserver]
    exact h.run
  · rw [hserver] at hj
    obtain ⟨hr, hp, hnone⟩ := h.unused j hj
    have hne : j ≠ k := by
      rintro rfl
      exact absurd hj (not_le.mpr hless)
    rw [received_snoc, hothers j hne, List.append_nil, hserved, hstreams, Dict.get?_set, if_neg hne]
    exact ⟨hr, hp, hnone⟩
  · rw [received_snoc, hserved, hserver, hstreams]
    obtain ⟨rest, hspells, hold⟩ := h.stands j
    by_cases hj : j = k
    · subst hj
      rw [hdata]
      refine ⟨rest ++ data, spells_append hspells data, fun stream₁ hstream => ?_⟩
      rw [Dict.get?_set_self] at hstream
      obtain rfl := Option.some_inj.mp hstream
      exact hstands rest (hold stream hk)
    · rw [hothers j hj, List.append_nil]
      refine ⟨rest, hspells, fun stream₁ hstream => hold stream₁ ?_⟩
      rwa [Dict.get?_set, if_neg hj] at hstream

theorem stands_data (h : Stands py depth stream (serving sv k) rest) (heof : stream.eof = false) (data : Bytes) :
    Stands py depth { stream with buffer := stream.buffer ++ data, woken := true } (serving sv k)
      (rest ++ data) := by
  unfold Stands at *
  cases hr : stream.receiver with
  | reading task =>
    simp only [hr] at h ⊢
    refine ⟨fun t => ?_, nofun⟩
    rw [List.append_assoc, List.append_assoc]
    exact h.1 _
  | ended =>
    simp only [hr] at h ⊢
    intro hlive
    obtain hraised | ⟨hend, -⟩ := h hlive
    · exact .inl ((recognises_request depth).raises hraised data)
    · cases heof.symm.trans hend

theorem stands_eof (h : Stands py depth stream (serving sv k) rest) :
    Stands py depth { stream with eof := true, woken := true } (serving sv k) rest := by
  unfold Stands at *
  cases hr : stream.receiver with
  | reading task =>
    simp only [hr] at h ⊢
    exact ⟨h.1, nofun⟩
  | ended =>
    simp only [hr] at h ⊢
    exact fun hlive => (h hlive).imp_right fun hend => ⟨trivial, hend.2⟩

/-- The turn of a task that is in a read. -/
theorem faithful_turn (h : Faithful py cfg depth T es loop) {stamps : List Stamp} {task : Task} {out : Served}
    (hk : loop.streams.get? k = some stream) (hreading : stream.receiver = .reading task)
    (hserve : serve py cfg depth k stream.eof stamps loop.server task stream.buffer = some out)
    (hdata : ∀ j, e.callback.data j = []) (he : e.occurrences = out.occurrences) :
    Faithful py cfg depth T (es ++ [e]) ⟨out.server, loop.streams.set k
      { stream with buffer := out.buffer, receiver := out.receiver, woken := false }⟩ := by
  have hreceived : ∀ j, received j (es ++ [e]) = received j es := by
    intro j
    rw [received_snoc, hdata, List.append_nil]
  have hless := faithful_known h hk
  obtain ⟨rest, hspells, hstands⟩ := h.stands k
  have hmeans := hstands stream hk
  rw [Stands, hreading] at hmeans
  obtain ⟨hrun, hevents, rest', hspells', hstands'⟩ := serve_spells hserve hspells hmeans.1
  obtain ⟨haccepted, hothers⟩ := commands_frame hrun (faithful_sound h) hevents
  refine ⟨?_, fun j hj => ?_, fun j => ?_⟩
  · rw [served_snoc, he]
    exact h.run.append hrun
  · obtain ⟨hr, hp, hnone⟩ := h.unused j (haccepted ▸ hj)
    have hne : j ≠ k := by
      rintro rfl
      exact absurd (haccepted ▸ hj) (not_le.mpr hless)
    rw [hreceived, served_snoc, he, processed_append, hp, (hothers j hne).1, Dict.get?_set, if_neg hne]
    exact ⟨hr, rfl, hnone⟩
  · rw [hreceived, served_snoc, he, processed_append]
    by_cases hj : j = k
    · subst hj
      refine ⟨rest', hspells', fun stream₁ hstream => ?_⟩
      rw [Dict.get?_set_self] at hstream
      obtain rfl := Option.some_inj.mp hstream
      exact hstands'
    · obtain ⟨hnone, hback⟩ := hothers j hj
      obtain ⟨r, hr, hold⟩ := h.stands j
      rw [hnone, List.append_nil]
      refine ⟨r, hr, fun stream₁ hstream => ?_⟩
      rw [Dict.get?_set, if_neg hj] at hstream
      exact stands_mono (hold stream₁ hstream) (hback (faithful_known h hstream))

theorem lost_steps {reading : Nat → Time} {os : List Occurrence}
    (h : loop.step py cfg depth (.connectionLost k reading) = some (loop', os)) :
    ∃ writes, os = [⟨.lost k, reading, writes⟩] ∧ loop'.streams = loop.streams.erase k ∧
      Steps py cfg loop.server ⟨.lost k, reading, writes⟩ loop'.server := by
  cases hk : loop.streams.get? k with
  | none => simp [EventLoop.step, hk] at h
  | some stream =>
    simp only [EventLoop.step, hk] at h
    split at h
    · cases h
    · exact event_steps h

theorem data_steps {data : Bytes} {os : List Occurrence}
    (h : loop.step py cfg depth (.dataReceived k data) = some (loop', os)) :
    ∃ stream, loop.streams.get? k = some stream ∧ stream.eof = false ∧ os = [] ∧
      loop'.server = loop.server ∧ loop'.streams =
        loop.streams.set k { stream with buffer := stream.buffer ++ data, woken := true } := by
  cases hk : loop.streams.get? k with
  | none => simp [EventLoop.step, hk] at h
  | some stream =>
    simp only [EventLoop.step, hk] at h
    split at h
    · cases h
    · next hopen =>
      obtain ⟨rfl, hos⟩ := Prod.mk.inj (Option.some_inj.mp h)
      simp only [Bool.or_eq_true, not_or] at hopen
      exact ⟨stream, rfl, Bool.eq_false_iff.mpr hopen.1.2, hos.symm, rfl, rfl⟩

theorem eof_steps {os : List Occurrence}
    (h : loop.step py cfg depth (.eofReceived k) = some (loop', os)) :
    ∃ stream, loop.streams.get? k = some stream ∧ os = [] ∧ loop'.server = loop.server ∧
      loop'.streams = loop.streams.set k { stream with eof := true, woken := true } := by
  cases hk : loop.streams.get? k with
  | none => simp [EventLoop.step, hk] at h
  | some stream =>
    simp only [EventLoop.step, hk] at h
    split at h
    · cases h
    · obtain ⟨rfl, hos⟩ := Prod.mk.inj (Option.some_inj.mp h)
      exact ⟨stream, rfl, hos.symm, rfl, rfl⟩

theorem turn_steps {stamps : List Stamp} {os : List Occurrence}
    (h : loop.step py cfg depth (.turn k stamps) = some (loop', os)) :
    ∃ stream, loop.streams.get? k = some stream ∧
      ((stream.receiver = .ended ∧ os = [] ∧ loop'.server = loop.server ∧
          loop'.streams = loop.streams.set k { stream with woken := false }) ∨
        ∃ task out, stream.receiver = .reading task ∧
          serve py cfg depth k stream.eof stamps loop.server task stream.buffer = some out ∧
          os = out.occurrences ∧ loop' = ⟨out.server, loop.streams.set k
            { stream with buffer := out.buffer, receiver := out.receiver, woken := false }⟩) := by
  cases hk : loop.streams.get? k with
  | none => simp [EventLoop.step, hk] at h
  | some stream =>
    simp only [EventLoop.step, hk] at h
    split at h
    · cases h
    · refine ⟨stream, rfl, ?_⟩
      cases hr : stream.receiver with
      | ended =>
        simp only [hr] at h
        split at h
        · obtain ⟨rfl, hos⟩ := Prod.mk.inj (Option.some_inj.mp h)
          exact .inl ⟨rfl, hos.symm, rfl, rfl⟩
        · cases h
      | reading task =>
        simp only [hr] at h
        obtain ⟨out, hserve, he⟩ := Option.map_eq_some_iff.mp h
        obtain ⟨rfl, hos⟩ := Prod.mk.inj he
        exact .inr ⟨task, out, rfl, hserve, hos.symm, rfl⟩

theorem faithful_step (h : Faithful py cfg depth T es loop) (hs : Handles py cfg depth loop e loop') :
    Faithful py cfg depth T (es ++ [e]) loop' := by
  obtain ⟨callback, os⟩ := e
  cases callback with
  | connectionMade peername reading =>
    obtain ⟨writes, rfl, hstreams, hstep⟩ := event_steps hs
    have hmade := accepted_connect (faithful_sound h) hstep rfl
    refine faithful_event h hstep rfl (fun _ _ _ => Event.noConfusion) (fun _ => rfl) (fun k stream hk hstream => ?_)
      fun k stream hk hstream => ?_
    · rwa [hstreams, Dict.get?_set, if_neg hk.ne] at hstream
    · rw [hstreams, Dict.get?_set] at hstream
      split at hstream
      · next hkey =>
        rw [hkey, hmade]
        exact ⟨(Option.some_inj.mp hstream).symm, Nat.lt_succ_self _⟩
      · cases (h.unused k hk).2.2.symm.trans hstream
  | connectionLost k reading =>
    obtain ⟨writes, rfl, hstreams, hstep⟩ := lost_steps hs
    have herase : ∀ j stream, loop'.streams.get? j = some stream → loop.streams.get? j = some stream := by
      intro j stream hstream
      rw [hstreams, Dict.get?_erase] at hstream
      split at hstream
      · cases hstream
      · exact hstream
    refine faithful_event h hstep rfl (fun _ _ _ => Event.noConfusion) (fun _ => rfl)
      (fun j stream _ => herase j stream) fun j stream hj hstream => ?_
    cases (h.unused j hj).2.2.symm.trans (herase j stream hstream)
  | maintenance timeoutMs shuffle reading =>
    obtain ⟨writes, rfl, hstreams, hstep⟩ := event_steps hs
    refine faithful_event h hstep rfl (fun _ _ _ => Event.noConfusion) (fun _ => rfl)
      (fun j stream _ hstream => hstreams ▸ hstream) fun j stream hj hstream => ?_
    cases (h.unused j hj).2.2.symm.trans (hstreams ▸ hstream)
  | dataReceived k data =>
    obtain ⟨stream, hk, heof, rfl, hserver, hstreams⟩ := data_steps hs
    exact faithful_stream h hk hserver hstreams rfl (if_pos rfl) (fun j hj => if_neg (Ne.symm hj))
      fun rest hold => stands_data hold heof data
  | eofReceived k =>
    obtain ⟨stream, hk, rfl, hserver, hstreams⟩ := eof_steps hs
    refine faithful_stream h hk hserver hstreams rfl rfl (fun j _ => rfl) fun rest hold => ?_
    exact (List.append_nil rest).symm ▸ stands_eof hold
  | turn k stamps =>
    obtain ⟨stream, hk, ⟨hended, rfl, hserver, hstreams⟩ | ⟨task, out, hreading, hserve, rfl, rfl⟩⟩ :=
      turn_steps hs
    · refine faithful_stream h hk hserver hstreams rfl rfl (fun j _ => rfl) fun rest hold => ?_
      rw [Stands, hended] at hold
      exact (List.append_nil rest).symm ▸ (by rw [Stands, hended]; exact hold)
    · exact faithful_turn h hk hreading hserve (fun j => rfl) rfl

theorem faithful_run (h : Run (Handles py cfg depth) (EventLoop.start T) es loop) :
    Faithful py cfg depth T es loop := by
  induction h with
  | nil =>
    refine ⟨.nil, fun k _ => ⟨rfl, rfl, by simp [EventLoop.start]⟩, fun k => ?_⟩
    exact ⟨[], ⟨[], rfl, .nil⟩, fun stream hk => by simp [EventLoop.start] at hk⟩
  | snoc _ hs ih => exact faithful_step ih hs

theorem processed_front (h : Run (Handles py cfg depth) (EventLoop.start T) es loop) (k : ConnId) :
    processed k (served es) <+: requestsIn py depth (received k es).length (received k es) := by
  obtain ⟨rest, hspells, -⟩ := (faithful_run h).stands k
  rw [spells_requests hspells]
  exact List.prefix_append _ _

theorem processed_all (h : Run (Handles py cfg depth) (EventLoop.start T) es loop)
    (hk : loop.streams.get? k = some stream) (hwoken : stream.woken = false)
    (hlive : serving loop.server k = true) :
    processed k (served es) = requestsIn py depth (received k es).length (received k es) := by
  obtain ⟨rest, hspells, hstands⟩ := (faithful_run h).stands k
  have hstopped : ∀ value rest', readCommand py depth rest ≠ .done value rest' := by
    intro value rest' hread
    have hold := hstands stream hk
    unfold Stands at hold
    split at hold
    · cases (hold.2 hwoken).symm.trans hread
    · obtain hraised | ⟨-, hmore⟩ := hold hlive
      · cases hraised.symm.trans hread
      · cases hmore.symm.trans hread
  rw [spells_requests hspells, requestsIn_stopped hstopped, List.append_nil]

/-- However the bytes of its connections come in, the server goes through a run
of whole commands, and on each connection it processes the requests that its
bytes spell, in their order: those from the front so far, and all of them when
its task has had its turns and its commands are still processed. -/
theorem requests_served (h : Run (Handles py cfg depth) (EventLoop.start T) es loop) :
    Run (Steps py cfg) (.start T) (served es) loop.server ∧
      ∀ k, processed k (served es) <+: requestsIn py depth (received k es).length (received k es) ∧
        ∀ stream, loop.streams.get? k = some stream → stream.woken = false →
          serving loop.server k = true →
          processed k (served es) = requestsIn py depth (received k es).length (received k es) :=
  ⟨(faithful_run h).run, fun k => ⟨processed_front h k, fun _ hk => processed_all h hk⟩⟩

theorem received_callbacks {callbacks : List Callback}
    (h : List.Forall₂ (fun c (e : Handled) => c = e.callback) callbacks es) (k : ConnId) :
    received k es = callbacks.flatMap (Callback.data k) := by
  induction h with
  | nil => rfl
  | cons hc _ ih =>
    rw [received, List.flatMap_cons, List.flatMap_cons, ← hc]
    exact congrArg _ ih

theorem play_callbacks {callbacks : List Callback}
    (h : callbacks.foldlM (EventLoop.next py cfg depth) loop = some loop') :
    ∃ es, Run (Handles py cfg depth) loop es loop' ∧ ∀ k, received k es = callbacks.flatMap (Callback.data k) := by
  have hnext : ∀ c v w, EventLoop.next py cfg depth v c = some w →
      ∃ e : Handled, c = e.callback ∧ Handles py cfg depth v e w := by
    intro c v w hw
    obtain ⟨⟨w', os⟩, hs, rfl⟩ := Option.map_eq_some_iff.mp hw
    exact ⟨⟨c, os⟩, rfl, hs⟩
  obtain ⟨es, hrun, hes⟩ := Run.exists_of_foldlM hnext h
  exact ⟨es, hrun, received_callbacks hes⟩

def cutRequests : List Callback :=
  [.connectionMade ⟨"10.0.0.1", 40001⟩ fun _ => 0, .dataReceived 0 (encode "*1\r\n$4\r"), .turn 0 [],
    .dataReceived 0 (encode "\nPING\r\nCO"), .turn 0 [(bob, fun _ => 0)], .dataReceived 0 (encode "NN\r\n"),
    .turn 0 [(bob, fun _ => 0)]]

def standing (loop : EventLoop) (k : ConnId) : Option Bool × Bool :=
  ((loop.streams.get? k).map Stream.woken, serving loop.server k)

theorem cutRequests_run : ∃ es loop stream,
    Run (Handles ascii plainConfig 2) (EventLoop.start 5) es loop ∧
      received 0 es = encode "*1\r\n$4\r\nPING\r\nCONN\r\n" ∧ loop.streams.get? 0 = some stream ∧
      stream.woken = false ∧ serving loop.server 0 = true := by
  have heval : (cutRequests.foldlM (EventLoop.next ascii plainConfig 2) (.start 5)).map (standing · 0) =
      some (some false, true) := by decide +kernel
  obtain ⟨loop, hloop, hfacts⟩ := Option.map_eq_some_iff.mp heval
  obtain ⟨hwoken, hlive⟩ := Prod.mk.inj hfacts
  obtain ⟨stream, hstream, hwoken⟩ := Option.map_eq_some_iff.mp hwoken
  obtain ⟨es, hrun, hreceived⟩ := play_callbacks hloop
  exact ⟨es, loop, stream, hrun, (hreceived 0).trans (by decide +kernel), hstream, hwoken, hlive⟩

theorem requests_served_cut : ∃ es loop, Run (Handles ascii plainConfig 2) (EventLoop.start 5) es loop ∧
    processed 0 (served es) = [words ["PING"], words ["CONN"]] := by
  obtain ⟨es, loop, stream, hrun, hreceived, hstream, hwoken, hlive⟩ := cutRequests_run
  refine ⟨es, loop, hrun, ?_⟩
  rw [((requests_served hrun).2 0).2 stream hstream hwoken hlive, hreceived]
  rfl

theorem requestsIn_append (n : Nat) (s t : Bytes) :
    requestsIn py depth n s <+: requestsIn py depth n (s ++ t) := by
  induction n generalizing s with
  | zero => exact List.prefix_rfl
  | succ n ih =>
    rw [requestsIn, requestsIn]
    cases hs : readCommand py depth s with
    | done value rest =>
      rw [(recognises_request depth).done hs t]
      exact List.cons_prefix_cons.mpr ⟨rfl, ih rest⟩
    | more | raised => exact List.nil_prefix

variable (depth) in
theorem requestsIn_frames {frames : List Frame} (hframes : ∀ f ∈ frames, f.Sendable) {parts : List Bytes}
    (hparts : frames.mapM (Frame.payload py) = some parts) :
    requestsIn py (depth + 2) parts.flatten.length parts.flatten = frames.map fun f => Server.words f.words := by
  obtain ⟨parts', hparts', hreads⟩ := request_frames py depth hframes
  obtain rfl := Option.some_inj.mp (hparts.symm.trans hparts')
  have hspells : Spells py (depth + 2) parts.flatten (frames.map fun f => Server.words f.words) [] :=
    ⟨parts, (List.append_nil _).symm, List.forall₂_map_right_iff.mpr hreads⟩
  rw [spells_requests hspells]
  exact List.append_nil _

theorem delivered_front (h : Run (Handles py cfg (depth + 2)) (EventLoop.start T) es loop)
    {frames : List Frame} (hframes : ∀ f ∈ frames, f.Sendable) {parts : List Bytes}
    (hparts : frames.mapM (Frame.payload py) = some parts) (hreceived : received k es <+: parts.flatten) :
    processed k (served es) <+: frames.map fun f => Server.words f.words := by
  obtain ⟨t, ht⟩ := hreceived
  refine (processed_front h k).trans ?_
  rw [← requestsIn_frames depth hframes hparts, ← ht,
    requestsIn_enough (Nat.le_refl _) (List.length_append ▸ Nat.le_add_right _ t.length)]
  exact requestsIn_append _ _ t

theorem delivered_all (h : Run (Handles py cfg (depth + 2)) (EventLoop.start T) es loop)
    {frames : List Frame} (hframes : ∀ f ∈ frames, f.Sendable) {parts : List Bytes}
    (hparts : frames.mapM (Frame.payload py) = some parts) (hk : loop.streams.get? k = some stream)
    (hwoken : stream.woken = false) (hlive : serving loop.server k = true)
    (hwhole : received k es = parts.flatten) :
    processed k (served es) = frames.map fun f => Server.words f.words := by
  rw [processed_all h hk hwoken hlive, hwhole, requestsIn_frames depth hframes hparts]

/-- What a client writes is delivered: of the commands that it has written, or
begun to write, the server processes one after the other, none twice and none
that was not written, and all of them once they have come in. -/
theorem commands_delivered (h : Run (Handles py cfg (depth + 2)) (EventLoop.start T) es loop)
    {frames : List Frame} (hframes : ∀ f ∈ frames, f.Sendable) {parts : List Bytes}
    (hparts : frames.mapM (Frame.payload py) = some parts) (hreceived : received k es <+: parts.flatten) :
    processed k (served es) <+: frames.map (fun f => Server.words f.words) ∧
      ∀ stream, loop.streams.get? k = some stream → stream.woken = false →
        serving loop.server k = true → received k es = parts.flatten →
        processed k (served es) = frames.map fun f => Server.words f.words :=
  ⟨delivered_front h hframes hparts hreceived, fun _ => delivered_all h hframes hparts⟩

def pingConn : List Frame := [.resp ["PING"], .raw ["CONN"]]

theorem pingConn_sendable : ∀ f ∈ pingConn, f.Sendable := by
  have hspaces : (["CONN"].all fun w => w.toList.all fun c => !isspace c) = true := by decide
  have hwords : ∀ w ∈ ["CONN"], ∀ c ∈ w.toList, isspace c = false := by
    simpa only [List.all_eq_true, Bool.not_eq_true'] using hspaces
  have hraw : (Frame.raw ["CONN"]).Sendable := ⟨by decide, hwords, 'C', "ONN".toList, rfl, by decide⟩
  exact List.forall_mem_cons.mpr ⟨⟨by decide, by decide⟩, List.forall_mem_singleton.mpr hraw⟩

theorem pingConn_payload : ∃ parts, pingConn.mapM (Frame.payload ascii) = some parts ∧
    parts.flatten = encode "*1\r\n$4\r\nPING\r\nCONN\r\n" := by
  refine ⟨[encode "*1\r\n$4\r\nPING\r\n", encode "CONN\r\n"], ?_, ?_⟩ <;> decide +kernel

theorem commands_delivered_cut : ∃ es loop, Run (Handles ascii plainConfig 2) (EventLoop.start 5) es loop ∧
    processed 0 (served es) = [words ["PING"], words ["CONN"]] := by
  obtain ⟨es, loop, stream, hrun, hreceived, hstream, hwoken, hlive⟩ := cutRequests_run
  obtain ⟨parts, hparts, hflatten⟩ := pingConn_payload
  have hwhole : received 0 es = parts.flatten := hreceived.trans hflatten.symm
  exact ⟨es, loop, hrun, (commands_delivered hrun pingConn_sendable hparts (hwhole ▸ List.prefix_rfl)).2
    stream hstream hwoken hlive hwhole⟩

end Livelock.WireServer
