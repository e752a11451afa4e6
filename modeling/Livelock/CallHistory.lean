import Livelock.LostReplies
import Livelock.ProcessInvariant

namespace Livelock.CallHistory

open Livelock.Lib Livelock.Shared Livelock.MemoryStorage Livelock.Server
open Livelock.ServerRun Livelock.ServerLease Livelock.Framing
open Livelock.Client (Process Call)
open Livelock.Network (Choice Move)

/-- What goes on around a client, with all that the server has done since it
was started. -/
structure World where
  net : Network.World
  history : List Occurrence

variable (py : Builtins) (cfg : Config) (proc : Process) (T : Time)

namespace World

def waits (w : World) : Call → Choice → Bool
  | .read k, .succeed => (w.net.received k).isEmpty
  | _, _ => false

def done : Call → Choice → List Occurrence
  | .connect, .accept peername => [⟨.connect peername, fun _ => 0, []⟩]
  | _, _ => []

def answer (w : World) (e : Call) (choice : Choice) : Option (e.Result × World) :=
  if w.waits e choice then none
  else (w.net.answer py cfg e choice).map fun p => (p.1, ⟨p.2, w.history ++ done e choice⟩)

def foreign (w : World) : Event → Bool
  | .command k _ _ => decide (k ∉ w.net.mine)
  | _ => true

/-- The moves of the surroundings: whatever the others do, the execution of the
client's next request on a connection, with an id in one line for `uuid4`, or
the loss of a connection with what is under way on it. -/
def move (w : World) (reading : Nat → Time) : Move → Option World
  | .other event =>
    if w.foreign event then
      (w.net.server.step py cfg event ⟨reading, 0⟩).map fun p =>
        ⟨{ w.net with server := p.1 }, w.history ++ [⟨event, reading, p.2⟩]⟩
    else none
  | .execute k uuid =>
    match w.net.queue k with
    | [] => none
    | ws :: rest =>
      if '\n' ∈ uuid.name.toList then none
      else
        (w.net.server.step py cfg (.command k uuid (words ws)) ⟨reading, 0⟩).map fun p =>
          ⟨w.net.executed k rest p.1 (sent py p.2) false,
            w.history ++ [⟨.command k uuid (words ws), reading, p.2⟩]⟩
  | .lost k =>
    (w.net.server.step py cfg (.lost k) ⟨reading, 0⟩).map fun p =>
      ⟨{ w.net with server := p.1, queue := Function.update w.net.queue k [] },
        w.history ++ [⟨.lost k, reading, p.2⟩]⟩

end World

def Responds (w : World) (e : Call) (r : e.Result) (w' : World) : Prop :=
  ∃ choice, w.answer py cfg e choice = some (r, w')

def Meanwhile (w w' : World) : Prop := ∃ m reading, w.move py cfg reading m = some w'

/-- The client and what is under way on its connections. -/
structure Inv (w : World) : Prop where
  reached : Run (Steps py cfg) (.start T) w.history w.net.server
  accepted : ∀ k ∈ w.net.mine, k < w.net.server.accepted
  queued : ∀ k, w.net.queue k ≠ [] → k ∈ w.net.mine
  received : ∀ k, w.net.server.accepted ≤ k → w.net.received k = []
  sockMine : ∀ k, w.net.client.sock = some k → k ∈ w.net.mine
  sockPid : w.net.client.sockPid = proc.pid
  clientIdPid : w.net.client.clientIdPid = proc.pid
  oneLine : ∀ id, w.net.client.clientId = some id → '\n' ∉ id.toList

/-- The ways in which things can go on without the client. -/
inductive Change (w : World) (o : Occurrence) : World → Prop
  | other (sv : Server) : Steps py cfg w.net.server o sv →
      (∀ k ∈ w.net.mine, ∀ uuid value, o.event ≠ .command k uuid value) →
      Change w o ⟨{ w.net with server := sv }, w.history ++ [o]⟩
  | execute (k : ConnId) (uuid : ClientId) (ws : List String) (rest : List (List String)) (sv : Server) :
      Steps py cfg w.net.server o sv → w.net.queue k = ws :: rest →
      o.event = .command k uuid (words ws) → '\n' ∉ uuid.name.toList →
      Change w o ⟨w.net.executed k rest sv (sent py o.writes) false, w.history ++ [o]⟩
  | lost (k : ConnId) (sv : Server) : Steps py cfg w.net.server o sv → o.event = .lost k →
      Change w o ⟨{ w.net with server := sv, queue := Function.update w.net.queue k [] },
        w.history ++ [o]⟩

variable {py cfg proc T} {w w' : World} {o : Occurrence} {k : ConnId} {ws : List String}

theorem meanwhile_change (h : Meanwhile py cfg w w') : ∃ o, Change py cfg w o w' := by
  obtain ⟨m, reading, hmove⟩ := h
  cases m with
  | other event =>
    simp only [World.move] at hmove
    split at hmove
    · next hforeign =>
      obtain ⟨⟨sv, writes⟩, hstep, rfl⟩ := Option.map_eq_some_iff.mp hmove
      refine ⟨⟨event, reading, writes⟩, .other sv hstep ?_⟩
      rintro k hk uuid value rfl
      exact of_decide_eq_true hforeign hk
    · cases hmove
  | execute k uuid =>
    simp only [World.move] at hmove
    cases hqueue : w.net.queue k with
    | nil =>
      rw [hqueue] at hmove
      cases hmove
    | cons ws rest =>
      simp only [hqueue] at hmove
      split at hmove
      · cases hmove
      · next hline =>
        obtain ⟨⟨sv, writes⟩, hstep, rfl⟩ := Option.map_eq_some_iff.mp hmove
        exact ⟨⟨_, reading, writes⟩, .execute k uuid ws rest sv hstep hqueue rfl hline⟩
  | lost k =>
    obtain ⟨⟨sv, writes⟩, hstep, rfl⟩ := Option.map_eq_some_iff.mp hmove
    exact ⟨⟨_, reading, writes⟩, .lost k sv hstep rfl⟩

theorem inv_sound (h : Inv py cfg proc T w) : Sound w.net.server := sound_run h.reached (sound_start T)

theorem change_steps (h : Change py cfg w o w') :
    Steps py cfg w.net.server o w'.net.server ∧ w'.history = w.history ++ [o] ∧
      w'.net.client = w.net.client ∧ w'.net.mine = w.net.mine ∧ w'.net.closed = w.net.closed := by
  cases h with
  | other sv hs => exact ⟨hs, rfl, rfl, rfl, rfl⟩
  | execute k uuid ws rest sv hs => exact ⟨hs, rfl, rfl, rfl, rfl⟩
  | lost k sv hs => exact ⟨hs, rfl, rfl, rfl, rfl⟩

/-- What becomes of a connection of the client: nothing, or its next request is
executed, or what is under way on it is lost. -/
inductive Channel (py : Builtins) (k : ConnId) (w : World) (o : Occurrence) (w' : World) : Prop
  | still : w'.net.queue k = w.net.queue k → w'.net.received k = w.net.received k →
      (∀ uuid value, o.event ≠ .command k uuid value) → Channel py k w o w'
  | served (uuid : ClientId) (ws : List String) (rest : List (List String)) :
      w.net.queue k = ws :: rest → w'.net.queue k = rest →
      w'.net.received k = w.net.received k ++ sent py o.writes →
      o.event = .command k uuid (words ws) → '\n' ∉ uuid.name.toList → Channel py k w o w'
  | lost : w'.net.queue k = [] → w'.net.received k = w.net.received k →
      (∀ uuid value, o.event ≠ .command k uuid value) → Channel py k w o w'

theorem change_channel (h : Change py cfg w o w') (hk : k ∈ w.net.mine) : Channel py k w o w' := by
  cases h with
  | other sv _ hother => exact .still rfl rfl (hother k hk)
  | execute j uuid ws rest sv _ hqueue he hline =>
    by_cases hkj : k = j
    · subst hkj
      exact .served uuid ws rest hqueue (Function.update_self _ _ _) (Function.update_self _ _ _) he hline
    · refine .still (Function.update_of_ne hkj _ _) (Function.update_of_ne hkj _ _) ?_
      intro uuid' value he'
      cases he.symm.trans he'
      exact hkj rfl
  | lost j sv _ he =>
    have hother : ∀ uuid value, o.event ≠ .command k uuid value := by
      intro uuid value he'
      cases he.symm.trans he'
    by_cases hkj : k = j
    · subst hkj
      exact .lost (Function.update_self _ _ _) rfl hother
    · exact .still (Function.update_of_ne hkj _ _) rfl hother

theorem change_speaks {P : ClientId → Prop} (h : Inv py cfg proc T w) (hc : Change py cfg w o w')
    (hother : ∀ uuid value, o.event ≠ .command k uuid value) (hid : ∀ c, idOf w.net.server k = some c → P c) :
    ∀ c, idOf w'.net.server k = some c → P c := by
  intro c hnew
  obtain hold | ⟨restore, uuid, value, session, he, -⟩ := moved_id (inv_sound h) (change_steps hc).1 hnew
  · exact hid c hold
  · exact absurd he (hother uuid value)

theorem change_id (h : Inv py cfg proc T w) (hc : Change py cfg w o w')
    (hother : ∀ uuid value, o.event ≠ .command k uuid value) (hid : idOf w.net.server k = none) :
    idOf w'.net.server k = none := by
  apply Option.eq_none_iff_forall_ne_some.mpr
  refine change_speaks h hc hother fun c hc => ?_
  cases hid.symm.trans hc

theorem inv_change (h : Inv py cfg proc T w) (hc : Change py cfg w o w') : Inv py cfg proc T w' := by
  obtain ⟨hs, hhistory, hclient, hmine, -⟩ := change_steps hc
  have hmono : w.net.server.accepted ≤ w'.net.server.accepted := accepted_mono (inv_sound h) hs
  have hqueue : ∀ k, w'.net.queue k ≠ [] → w.net.queue k ≠ [] := by
    intro k hk hnil
    cases hc with
    | other => exact hk hnil
    | execute j uuid ws rest sv _ hnext =>
      by_cases hkj : k = j
      · subst hkj
        cases hnil.symm.trans hnext
      · rw [Network.World.executed] at hk
        simp only [Function.update_of_ne hkj] at hk
        exact hk hnil
    | lost j =>
      by_cases hkj : k = j
      · subst hkj
        simp at hk
      · simp only [Function.update_of_ne hkj] at hk
        exact hk hnil
  refine {
    reached := hhistory ▸ h.reached.snoc hs
    accepted := fun k hk => ?_
    queued := fun k hk => ?_
    received := fun k hk => ?_
    sockMine := by rw [hclient, hmine]; exact h.sockMine
    sockPid := by rw [hclient]; exact h.sockPid
    clientIdPid := by rw [hclient]; exact h.clientIdPid
    oneLine := by rw [hclient]; exact h.oneLine }
  · rw [hmine] at hk
    exact (h.accepted k hk).trans_le hmono
  · rw [hmine]
    exact h.queued k (hqueue k hk)
  · have hold := h.received k (hmono.trans hk)
    cases hc with
    | other | lost => exact hold
    | execute j uuid ws rest sv _ hnext =>
      have hkj : k ≠ j := by
        rintro rfl
        have hj : k ∈ w.net.mine := h.queued k (by rw [hnext]; exact List.cons_ne_nil _ _)
        exact absurd (h.accepted k hj) (not_lt.mpr (hmono.trans hk))
      rw [Network.World.executed]
      simp only [Function.update_of_ne hkj]
      exact hold

/-- What is kept by every change is kept among the surroundings. -/
theorem lasting {P : World → Prop} (h : ∀ w o w', Change py cfg w o w' → P w → P w') :
    Prog.Stable (Meanwhile py cfg) P := by
  intro w w' hm hw
  obtain ⟨o, hc⟩ := meanwhile_change hm
  exact h w o w' hc hw

end Livelock.CallHistory
