import Livelock.CommandSpec
import Livelock.Lib.Run

namespace Livelock.ServerRun

open Livelock.Lib Livelock.Shared Livelock.MemoryStorage Livelock.StorageInvariant
open Livelock.StorageLease Livelock.StorageRun Livelock.Server Livelock.CommandSpec
open Livelock.MemoryStorage.InMemoryLockStorage (Shuffle empty)

/-- Connections are numbered in the order in which they are accepted. -/
abbrev ConnId := Nat

structure Server where
  adaptor : StorageAdaptor
  connections : Dict ConnId Session
  accepted : ConnId
  exited : Bool

/-- What the event loop of the server is woken by. A command comes with the
id that `uuid4` would give it. -/
inductive Event
  | connect (peername : Address)
  | command (k : ConnId) (uuid : ClientId) (value : List Arg)
  | lost (k : ConnId)
  | maintenance (timeoutMs : Time) (shuffle : Shuffle)

abbrev Input := Event × (Nat → Time)

/-- An event with the clock readings it got and what was written for it. -/
structure Occurrence where
  event : Event
  reading : Nat → Time
  writes : List Write := []

def Occurrence.clk (o : Occurrence) : Clock := ⟨o.reading, 0⟩

namespace Server

variable (py : Builtins) (cfg : Config)

def start (releaseAllTimeout : Time) : Server where
  adaptor := .new (empty releaseAllTimeout)
  connections := .empty
  accepted := 0
  exited := false

/-- The id is not in use anywhere, as `uuid4` promises of its results. -/
def fresh (sv : Server) (c : ClientId) : Bool :=
  sv.connections.items.all (fun p => decide (p.2.clientId ≠ some c)) &&
    sv.adaptor.store.locksToClient.items.all (fun p => decide (p.2 ≠ c)) &&
    decide (sv.adaptor.getClientLastAddress c = none)

def freeAddress (sv : Server) (peername : Address) : Bool :=
  sv.connections.items.all fun p => decide (p.2.peername ≠ peername)

/-- The server after a turn: an exception ends the task that serves the
connection, and an exit ends everything. -/
def after (sv : Server) (k : ConnId) (t : Turn) : Server where
  adaptor := t.adaptor
  connections := sv.connections.set k
    { t.session with serving := t.session.serving && decide (t.ending ≠ .raised) }
  accepted := sv.accepted
  exited := decide (t.ending = .exited)

def step (sv : Server) (event : Event) (clk : Clock) : Option (Server × List Write) :=
  if sv.exited then none
  else
    match event with
    | .connect peername =>
      if sv.freeAddress peername then
        some ({ sv with
          connections := sv.connections.set sv.accepted { peername := peername }
          accepted := sv.accepted + 1 }, [])
      else none
    | .command k uuid value =>
      match sv.connections.get? k with
      | none => none
      | some session =>
        if session.serving && sv.fresh uuid then
          let t := onCommandReceived py cfg sv.adaptor clk session uuid value
          some (sv.after k t, t.writes)
        else none
    | .lost k =>
      match sv.connections.get? k with
      | none => none
      | some session =>
        match connectionLost py sv.adaptor clk session with
        | .error _ => some ({ sv with connections := sv.connections.erase k }, [])
        | .ok (adaptor, _) =>
          some ({ sv with adaptor := adaptor, connections := sv.connections.erase k }, [])
    | .maintenance timeoutMs shuffle =>
      match sv.adaptor.maintenance py clk timeoutMs shuffle with
      | .error _ => some (sv, [])
      | .ok (_, adaptor, _) => some ({ sv with adaptor := adaptor }, [])

end Server

variable (py : Builtins) (cfg : Config)

def Server.next (sv : Server) (input : Input) : Option Server :=
  (sv.step py cfg input.1 ⟨input.2, 0⟩).map Prod.fst

def Steps (sv : Server) (o : Occurrence) (sv' : Server) : Prop :=
  sv.step py cfg o.event o.clk = some (sv', o.writes)

def allAt (now : Time) (events : List Event) : List Input := events.map fun e => (e, fun _ => now)

/-- What holds of every server that can be reached. -/
structure Sound (sv : Server) : Prop where
  rep : Rep sv.adaptor.store
  killActive : sv.exited = false → sv.adaptor.killActive = false
  releaseAllTimeout : sv.adaptor.releaseAllTimeout = StorageAdaptor.defaultReleaseAllTimeout
  older : ∀ k session, sv.connections.get? k = some session → k < sv.accepted
  distinct : ∀ k k' session session', sv.connections.get? k = some session →
    sv.connections.get? k' = some session' → session.peername = session'.peername → k = k'

theorem sound_start (T : Time) : Sound (.start T) where
  rep := rep_empty T
  killActive _ := rfl
  releaseAllTimeout := rfl
  older _ _ h := by simp [Server.start] at h
  distinct _ _ _ _ h := by simp [Server.start] at h

/-- The clock as `time.time()` promises it: not before the epoch and never
backwards, and each event reads only so much of it. -/
structure Clocked (es : List Occurrence) : Prop where
  epoch : ∀ o ∈ es, 0 ≤ o.reading 0
  monotone : ∀ o ∈ es, Monotone o.reading
  bounded : ∀ o ∈ es, ∃ b, ∀ n, o.reading n ≤ b
  forward : es.Pairwise fun o o' => ∀ n, o.reading n ≤ o'.reading 0

theorem clocked_still {es : List Occurrence} {now : Time} (hnow : 0 ≤ now)
    (h : ∀ o ∈ es, o.reading = fun _ => now) : Clocked es where
  epoch o ho := by rw [h o ho]; exact hnow
  monotone o ho := by rw [h o ho]; exact monotone_const
  bounded o ho := ⟨now, fun _ => by rw [h o ho]⟩
  forward := List.Pairwise.imp_of_mem (fun ho ho' _ n => by rw [h _ ho, h _ ho'])
    (List.pairwise_of_forall (R := fun _ _ => True) fun _ _ => trivial)

theorem Clocked.init {es : List Occurrence} {o : Occurrence} (h : Clocked (es ++ [o])) : Clocked es where
  epoch o' ho := h.epoch o' (List.mem_append_left _ ho)
  monotone o' ho := h.monotone o' (List.mem_append_left _ ho)
  bounded o' ho := h.bounded o' (List.mem_append_left _ ho)
  forward := (List.pairwise_append.mp h.forward).1

theorem clocked_snoc {es : List Occurrence} {now : Time} (h : Clocked es)
    (hpast : ∀ o ∈ es, ∀ n, o.reading n ≤ now) (hnow : 0 ≤ now) (event : Event) (writes : List Write) :
    Clocked (es ++ [⟨event, fun _ => now, writes⟩]) where
  epoch := List.forall_mem_append.mpr ⟨h.epoch, List.forall_mem_singleton.mpr hnow⟩
  monotone := List.forall_mem_append.mpr ⟨h.monotone, List.forall_mem_singleton.mpr monotone_const⟩
  bounded := List.forall_mem_append.mpr
    ⟨h.bounded, List.forall_mem_singleton.mpr ⟨now, fun _ => le_rfl⟩⟩
  forward := List.pairwise_append.mpr ⟨h.forward, List.pairwise_singleton _ _, fun o ho =>
    List.forall_mem_singleton.mpr (hpast o ho)⟩

theorem clocked_later {es : List Occurrence} (h : Clocked es) (d : Time) (hd : 0 ≤ d) :
    ∃ now, d ≤ now ∧ ∀ event writes, Clocked (es ++ [⟨event, fun _ => now, writes⟩]) := by
  obtain ⟨b, hb⟩ : ∃ b, ∀ o ∈ es, ∀ n, o.reading n ≤ b := by
    have hall := h.bounded
    clear h
    induction es with
    | nil => exact ⟨0, nofun⟩
    | cons o es ih =>
      obtain ⟨b, hb⟩ := ih fun o' ho' => hall o' (by simp [ho'])
      obtain ⟨b', hb'⟩ := hall o (by simp)
      refine ⟨max b b', fun o' ho' n => ?_⟩
      obtain rfl | ho' := List.mem_cons.mp ho'
      · exact (hb' n).trans (le_max_right _ _)
      · exact (hb o' ho' n).trans (le_max_left _ _)
  have hpast : ∀ o ∈ es, ∀ n, o.reading n ≤ max b d := fun o ho n => (hb o ho n).trans (le_max_left _ _)
  exact ⟨max b d, le_max_right _ _, clocked_snoc h hpast (hd.trans (le_max_right _ _))⟩

inductive Change (sv : Server) (o : Occurrence) : Server → Prop
  | connect (peername : Address) : o.event = .connect peername → o.writes = [] →
      (∀ k session, sv.connections.get? k = some session → session.peername ≠ peername) →
      Change sv o { sv with
        connections := sv.connections.set sv.accepted { peername := peername }
        accepted := sv.accepted + 1 }
  | command (k : ConnId) (uuid : ClientId) (value : List Arg) (session : Session) (t : Turn) :
      o.event = .command k uuid value → o.writes = t.writes → sv.connections.get? k = some session →
      session.serving = true → sv.fresh uuid = true →
      t = onCommandReceived py cfg sv.adaptor o.clk session uuid value →
      Does py (opened cfg sv.adaptor o.clk session) (intent py cfg session uuid value) t →
      Change sv o (sv.after k t)
  | lost (k : ConnId) (session : Session) : o.event = .lost k → o.writes = [] →
      sv.connections.get? k = some session →
      (∀ c, session.clientId = some c →
        sv.adaptor.getClientLastAddress c ≠ some session.peername ∧
          sv.adaptor.getClientLastAddress c ≠ none) →
      Change sv o { sv with connections := sv.connections.erase k }
  | lostLast (k : ConnId) (session : Session) (c : ClientId) :
      o.event = .lost k → o.writes = [] → sv.connections.get? k = some session →
      session.clientId = some c →
      (sv.adaptor.getClientLastAddress c = some session.peername ∨
        sv.adaptor.getClientLastAddress c = none) →
      Change sv o { sv with
        adaptor := { sv.adaptor with
          store := (sv.adaptor.store.releaseAll o.clk c (some sv.adaptor.releaseAllTimeout)).1 }
        connections := sv.connections.erase k }
  | maintenance (timeoutMs : Time) (shuffle : Shuffle) (store : InMemoryLockStorage) (clk : Clock) :
      o.event = .maintenance timeoutMs shuffle → o.writes = [] →
      Effect sv.adaptor.store o.clk (.maintenance timeoutMs shuffle) .none store clk →
      Change sv o { sv with adaptor := { sv.adaptor with store := store } }

variable {py cfg} {sv sv' : Server} {o : Occurrence} {k : ConnId} {uuid : ClientId} {value : List Arg}

theorem steps_of_next {input : Input} (h : sv.next py cfg input = some sv') :
    ∃ writes, Steps py cfg sv ⟨input.1, input.2, writes⟩ sv' := by
  obtain ⟨⟨sv₁, writes⟩, hs, rfl⟩ := Option.map_eq_some_iff.mp h
  exact ⟨writes, hs⟩

theorem exists_longer (n : Nat) : ∃ c : ClientId, n < c.name.length := by
  have hlength : (String.ofList (List.replicate (n + 1) 'x')).length = n + 1 := by simp
  have hne : String.ofList (List.replicate (n + 1) 'x') ≠ "" := by
    intro he
    rw [he] at hlength
    cases hlength
  let c : ClientId := { name := String.ofList (List.replicate (n + 1) 'x'), nonempty := hne }
  have hc : c.name.length = n + 1 := hlength
  exact ⟨c, by omega⟩

/-- A fresh id can always be found, one that is longer than all in use. -/
theorem exists_fresh (sv : Server) : ∃ c, sv.fresh c = true := by
  let used : List ClientId := sv.connections.items.filterMap (fun p => p.2.clientId) ++
    sv.adaptor.store.locksToClient.items.map Prod.snd ++
    sv.adaptor.store.clientLastAddress.items.map Prod.fst
  obtain ⟨n, hn⟩ : ∃ n, ∀ c ∈ used, c.name.length ≤ n := by
    induction used with
    | nil => exact ⟨0, nofun⟩
    | cons c used ih =>
      obtain ⟨n, hn⟩ := ih
      refine ⟨max n c.name.length, fun c' hc' => ?_⟩
      obtain rfl | hc' := List.mem_cons.mp hc'
      · omega
      · have hshort := hn c' hc'
        omega
  obtain ⟨c, hlong⟩ := exists_longer n
  have hnew : c ∉ used := by
    intro hc
    have hshort := hn c hc
    omega
  simp only [used, List.mem_append, List.mem_filterMap, List.mem_map, not_or, not_exists, not_and]
    at hnew
  obtain ⟨⟨hids, howners⟩, haddresses⟩ := hnew
  refine ⟨c, ?_⟩
  simp only [Server.fresh, Bool.and_eq_true, List.all_eq_true, decide_eq_true_eq]
  refine ⟨⟨hids, howners⟩, ?_⟩
  cases ha : sv.adaptor.getClientLastAddress c with
  | none => rfl
  | some a => exact absurd rfl (haddresses (c, a) ((Dict.mem_items _ c a).mpr ha))

variable (py cfg) in
theorem steps_command {session : Session} (hlive : sv.exited = false)
    (hk : sv.connections.get? k = some session) (hserving : session.serving = true)
    (hfresh : sv.fresh uuid = true) (value : List Arg) (reading : Nat → Time) :
    ∃ writes sv', Steps py cfg sv ⟨.command k uuid value, reading, writes⟩ sv' := by
  have hstep : sv.step py cfg (.command k uuid value) ⟨reading, 0⟩ =
      some (sv.after k (onCommandReceived py cfg sv.adaptor ⟨reading, 0⟩ session uuid value),
        (onCommandReceived py cfg sv.adaptor ⟨reading, 0⟩ session uuid value).writes) := by
    simp [Server.step, hlive, hk, hserving, hfresh]
  exact ⟨_, _, hstep⟩

def Plays (input : Input) (o : Occurrence) : Prop := o.event = input.1 ∧ o.reading = input.2

theorem plays_next (input : Input) (v w : Server) (h : v.next py cfg input = some w) :
    ∃ o, Plays input o ∧ Steps py cfg v o w := by
  obtain ⟨writes, hs⟩ := steps_of_next h
  exact ⟨_, ⟨rfl, rfl⟩, hs⟩

theorem play_events {inputs : List Input} (h : inputs.foldlM (Server.next py cfg) sv = some sv') :
    ∃ es, Run (Steps py cfg) sv es sv' ∧ List.Forall₂ Plays inputs es :=
  Run.exists_of_foldlM plays_next h

theorem play_run {now : Time} {events : List Event}
    (h : (allAt now events).foldlM (Server.next py cfg) sv = some sv') :
    ∃ es, Run (Steps py cfg) sv es sv' ∧ ∀ o ∈ es, o.reading = fun _ => now := by
  obtain ⟨es, hrun, hplays⟩ := play_events h
  refine ⟨es, hrun, forall₂_right hplays fun input hinput o ho => ?_⟩
  obtain ⟨event, -, rfl⟩ := List.mem_map.mp hinput
  exact ho.2

theorem steps_live (h : Steps py cfg sv o sv') : sv.exited = false := by
  cases he : sv.exited with
  | false => rfl
  | true => simp [Steps, Server.step, he] at h

theorem freeAddress_iff (sv : Server) (peername : Address) : sv.freeAddress peername = true ↔
    ∀ k session, sv.connections.get? k = some session → session.peername ≠ peername := by
  rw [Server.freeAddress, List.all_eq_true]
  constructor
  · intro h k session hk
    simpa using h (k, session) ((Dict.mem_items _ k session).mpr hk)
  · rintro h ⟨k, session⟩ hp
    simpa using h k session ((Dict.mem_items _ k session).mp hp)

theorem step_change (h : Sound sv) (hs : Steps py cfg sv o sv') :
    Change py cfg sv o sv' := by
  have hlive := steps_live hs
  have hk := h.killActive hlive
  have hnot : ¬ sv.exited = true := by simp [hlive]
  unfold Steps Server.step at hs
  rw [if_neg hnot] at hs
  cases he : o.event with
  | connect peername =>
    simp only [he] at hs
    split at hs
    · next hfree =>
      obtain ⟨rfl, hw⟩ := Prod.mk.inj (Option.some_inj.mp hs)
      exact .connect peername he hw.symm ((freeAddress_iff sv peername).mp hfree)
    · cases hs
  | command k uuid value =>
    simp only [he] at hs
    split at hs
    · cases hs
    · next session hsession =>
      split at hs
      · next hok =>
        obtain ⟨rfl, hw⟩ := Prod.mk.inj (Option.some_inj.mp hs)
        rw [Bool.and_eq_true] at hok
        exact .command k uuid value session _ he hw.symm hsession hok.1 hok.2 rfl
          (command_does py cfg h.rep hk _ session uuid value)
      · cases hs
  | lost k =>
    simp only [he] at hs
    split at hs
    · cases hs
    · next session hsession =>
      rw [connectionLost, hk] at hs
      simp only [Bool.false_eq_true, if_false] at hs
      cases hc : session.clientId with
      | none =>
        simp only [hc] at hs
        obtain ⟨rfl, hw⟩ := Prod.mk.inj (Option.some_inj.mp hs)
        exact .lost k session he hw.symm hsession fun c hc' => by simp [hc] at hc'
      | some c =>
        simp only [hc] at hs
        by_cases hlast : sv.adaptor.getClientLastAddress c = some session.peername ∨
            sv.adaptor.getClientLastAddress c = none
        · rw [if_pos hlast, StorageAdaptor.releaseAll, StorageAdaptor.guarded, hk] at hs
          obtain ⟨rfl, hw⟩ := Prod.mk.inj (Option.some_inj.mp hs)
          exact .lostLast k session c he hw.symm hsession hc hlast
        · rw [if_neg hlast] at hs
          obtain ⟨rfl, hw⟩ := Prod.mk.inj (Option.some_inj.mp hs)
          refine .lost k session he hw.symm hsession fun c' hc' => ?_
          cases hc.symm.trans hc'
          exact not_or.mp hlast
  | maintenance timeoutMs shuffle =>
    obtain ⟨store, clk, heq, heff⟩ := maintenance_effect h.rep o.clk timeoutMs shuffle
    have hm : sv.adaptor.maintenance py o.clk timeoutMs shuffle =
        .ok (.none, { sv.adaptor with store := store }, clk) := by
      simp only [StorageAdaptor.maintenance, StorageAdaptor.unguarded, exec, heq]
      rfl
    simp only [he, hm] at hs
    obtain ⟨rfl, hw⟩ := Prod.mk.inj (Option.some_inj.mp hs)
    exact .maintenance timeoutMs shuffle store clk he hw.symm heff

theorem command_change (h : Sound sv) (hs : Steps py cfg sv o sv') (he : o.event = .command k uuid value) :
    ∃ session t, sv.connections.get? k = some session ∧ sv' = sv.after k t ∧ o.writes = t.writes ∧
      session.serving = true ∧ sv.fresh uuid = true ∧
      t = onCommandReceived py cfg sv.adaptor o.clk session uuid value ∧
      Does py (opened cfg sv.adaptor o.clk session) (intent py cfg session uuid value) t := by
  cases step_change h hs with
  | command k' uuid' value' session t he' hw hk hserving hfresh ht hdoes =>
    cases he.symm.trans he'
    exact ⟨session, t, hk, rfl, hw, hserving, hfresh, ht, hdoes⟩
  | connect _ he' | lost _ _ he' | lostLast _ _ _ he' | maintenance _ _ _ _ he' =>
    cases he.symm.trans he'

theorem maintenance_change (h : Sound sv) (hs : Steps py cfg sv o sv') {timeoutMs : Time}
    {shuffle : Shuffle} (he : o.event = .maintenance timeoutMs shuffle) :
    ∃ store clk, sv.adaptor.store.maintenance o.clk timeoutMs shuffle = .ok (store, clk) ∧
      sv' = { sv with adaptor := { sv.adaptor with store := store } } := by
  obtain ⟨store, clk, heq, -⟩ := maintenance_spec h.rep o.clk timeoutMs shuffle
  have hm : sv.adaptor.maintenance py o.clk timeoutMs shuffle =
      .ok (.none, { sv.adaptor with store := store }, clk) := by
    simp only [StorageAdaptor.maintenance, StorageAdaptor.unguarded, exec, heq]
    rfl
  have hnot : ¬ sv.exited = true := by simp [steps_live hs]
  unfold Steps Server.step at hs
  rw [if_neg hnot, he] at hs
  simp only [hm] at hs
  obtain ⟨rfl, -⟩ := Prod.mk.inj (Option.some_inj.mp hs)
  exact ⟨store, clk, heq, rfl⟩

theorem steps_session (h : Sound sv) (hs : Steps py cfg sv o sv') (he : o.event = .command k uuid value) :
    ∃ session, sv.connections.get? k = some session := by
  obtain ⟨session, _, hk, -⟩ := command_change h hs he
  exact ⟨session, hk⟩

theorem connections_set {session session' : Session} {j : ConnId}
    (h : (sv.connections.set k session).get? j = some session') :
    (j = k ∧ session' = session) ∨ (j ≠ k ∧ sv.connections.get? j = some session') := by
  rw [Dict.get?_set] at h
  by_cases hj : j = k
  · rw [if_pos hj] at h
    exact .inl ⟨hj, (Option.some_inj.mp h).symm⟩
  · rw [if_neg hj] at h
    exact .inr ⟨hj, h⟩

theorem connections_erase {session : Session} {j : ConnId}
    (h : (sv.connections.erase k).get? j = some session) :
    j ≠ k ∧ sv.connections.get? j = some session := by
  rw [Dict.get?_erase] at h
  by_cases hj : j = k
  · simp [hj] at h
  · rw [if_neg hj] at h
    exact ⟨hj, h⟩

theorem sound_lost (h : Sound sv) (k : ConnId) {store : InMemoryLockStorage} (hrep : Rep store) :
    Sound { sv with
      adaptor := { sv.adaptor with store := store }, connections := sv.connections.erase k } where
  rep := hrep
  killActive := h.killActive
  releaseAllTimeout := h.releaseAllTimeout
  older j session hj := h.older j session (connections_erase hj).2
  distinct j j' session session' hj hj' :=
    h.distinct j j' session session' (connections_erase hj).2 (connections_erase hj').2

theorem sound_step (h : Sound sv) (hs : Steps py cfg sv o sv') : Sound sv' := by
  have hk := h.killActive (steps_live hs)
  cases step_change h hs with
  | connect peername _ _ hfree =>
    refine ⟨h.rep, h.killActive, h.releaseAllTimeout, fun k session hk => ?_,
      fun k k' session session' hk hk' hp => ?_⟩
    · obtain ⟨rfl, -⟩ | ⟨-, hold⟩ := connections_set hk
      · exact Nat.lt_succ_self _
      · exact (h.older k session hold).trans (Nat.lt_succ_self _)
    · obtain ⟨rfl, rfl⟩ | ⟨-, hold⟩ := connections_set hk
      · obtain ⟨rfl, -⟩ | ⟨-, hold'⟩ := connections_set hk'
        · rfl
        · exact absurd hp.symm (hfree _ _ hold')
      · obtain ⟨rfl, rfl⟩ | ⟨-, hold'⟩ := connections_set hk'
        · exact absurd hp (hfree _ _ hold)
        · exact h.distinct k k' session session' hold hold' hp
  | command k uuid value session t _ _ hsession _ _ _ hdoes =>
    obtain ⟨ha, -⟩ := opened_adaptor cfg sv.adaptor o.clk session
    obtain ⟨-, hp, -⟩ := opened_session cfg sv.adaptor o.clk session
    obtain ⟨hrep, hkill, htimeout, hpeer, -⟩ := hdoes.frame (by rw [ha]; exact h.rep) (by rw [ha]; exact hk)
    rw [ha] at htimeout
    rw [hp] at hpeer
    have hpeers : ∀ j session', (sv.after k t).connections.get? j = some session' →
        ∃ old, sv.connections.get? j = some old ∧ session'.peername = old.peername := by
      intro j session' hj
      obtain ⟨rfl, rfl⟩ | ⟨-, hold⟩ := connections_set hj
      · exact ⟨session, hsession, hpeer⟩
      · exact ⟨session', hold, rfl⟩
    refine ⟨hrep, fun he => hkill (by simpa [Server.after] using he), htimeout.trans h.releaseAllTimeout,
      fun j session' hj => ?_, fun j j' s s' hj hj' hpp => ?_⟩
    · obtain ⟨old, hold, -⟩ := hpeers j session' hj
      exact h.older j old hold
    · obtain ⟨old, hold, ho⟩ := hpeers j s hj
      obtain ⟨old', hold', ho'⟩ := hpeers j' s' hj'
      exact h.distinct j j' old old' hold hold' (by rw [← ho, ← ho', hpp])
  | lost k session => exact sound_lost h k h.rep
  | lostLast k session c => exact sound_lost h k (rep_releaseAll h.rep o.clk c _)
  | maintenance timeoutMs shuffle store clk _ _ heff =>
    exact ⟨heff.rep, h.killActive, h.releaseAllTimeout, h.older, h.distinct⟩

theorem sound_run {es : List Occurrence} (h : Run (Steps py cfg) sv es sv') (h0 : Sound sv) :
    Sound sv' :=
  h.invariant (I := Sound) h0 fun _ _ _ _ hi hs => sound_step hi hs

theorem accepted_mono (h : Sound sv) (hs : Steps py cfg sv o sv') : sv.accepted ≤ sv'.accepted := by
  cases step_change h hs with
  | connect => exact Nat.le_succ _
  | command | lost | lostLast | maintenance => exact le_rfl

/-- The connection was accepted and, while it is open, needs no password or
has given it. -/
structure Admitted (cfg : Config) (k : ConnId) (sv : Server) : Prop where
  accepted : k < sv.accepted
  unlocked : ∀ session, sv.connections.get? k = some session → lockedOut cfg session = false

theorem lockedOut_mono {session session' : Session} (h : lockedOut cfg session = false)
    (hauth : session.authorized = true → session'.authorized = true) : lockedOut cfg session' = false := by
  cases hp : cfg.password with
  | none => simp [lockedOut, hp]
  | some password =>
    simp only [lockedOut, hp] at h ⊢
    cases ha : session.authorized with
    | true => simp [hauth ha]
    | false =>
      simp only [ha, Bool.not_false, Bool.and_true] at h
      simp [h]

theorem admitted_step (h : Sound sv) (hs : Steps py cfg sv o sv') (ha : Admitted cfg k sv) :
    Admitted cfg k sv' := by
  cases step_change h hs with
  | connect peername =>
    refine ⟨ha.accepted.trans (Nat.lt_succ_self _), fun session hk => ?_⟩
    obtain ⟨rfl, -⟩ | ⟨-, hold⟩ := connections_set hk
    · exact absurd ha.accepted (lt_irrefl _)
    · exact ha.unlocked session hold
  | command j uuid value session t _ _ hsession _ _ _ hdoes =>
    refine ⟨ha.accepted, fun session' hk => ?_⟩
    obtain ⟨rfl, rfl⟩ | ⟨-, hold⟩ := connections_set hk
    · obtain ⟨hadaptor, -⟩ := opened_adaptor cfg sv.adaptor o.clk session
      obtain ⟨-, -, hauth⟩ := opened_session cfg sv.adaptor o.clk session
      obtain ⟨-, -, -, -, hmono⟩ := hdoes.frame (by rw [hadaptor]; exact h.rep)
        (by rw [hadaptor]; exact h.killActive (steps_live hs))
      rw [hauth] at hmono
      exact lockedOut_mono (ha.unlocked session hsession) hmono
    · exact ha.unlocked session' hold
  | lost j | lostLast j =>
    exact ⟨ha.accepted, fun session hk => ha.unlocked session (connections_erase hk).2⟩
  | maintenance => exact ⟨ha.accepted, ha.unlocked⟩

end Livelock.ServerRun
