import Livelock.ProcessTree

namespace Livelock.ProcessInvariant

open Livelock.Shared Livelock.MemoryStorage Livelock.Server Livelock.CommandSpec
open Livelock.ServerRun Livelock.ServerLease Livelock.ClientReader Livelock.Framing
open Livelock.ProcessTree hiding Steps
open Livelock.Client (LiveLockConnection Exc Call Comp)

variable (py : Builtins) (cfg : Config)

/-- What an object keeps in its fields is its own where the stamps say so. -/
structure Stamped (w : World) (a : Agent) (c : LiveLockConnection) : Prop where
  born : a.pid ∈ w.born
  sockBorn : c.sockPid ∈ w.born
  idBorn : c.clientIdPid ∈ w.born
  sock : ∀ k, c.ownSock a.pid = some k → w.opener k = some a
  clientId : ∀ id, Client.truthy (c.ownId a.pid) = some id → id ∈ w.ids a.pid

/-- What holds of the world at any moment. -/
structure WellFormed (given : Given) (w : World) : Prop where
  sound : Sound w.server
  unopened : ∀ k, w.server.accepted ≤ k → w.opener k = none ∧ w.queue k = [] ∧ w.received k = []
  stamped : ∀ a c, w.client a = some c → Stamped w a c
  queued : ∀ k a ws id, w.opener k = some a → ws ∈ w.queue k → presented py ws = some id → id ∈ w.ids a.pid
  session : ∀ k a c, w.opener k = some a → idOf w.server k = some c → c.name ∈ w.ids a.pid
  source : ∀ p id, id ∈ w.ids p → (p, id) ∈ given ∨ ∀ x ∈ given, x.2 ≠ id
  apart : ∀ p q id, id ∈ w.ids p → id ∈ w.ids q → p = q
  unborn : ∀ p, p ∉ w.born → w.ids p = []
  opened : ∀ k a, w.opener k = some a → a.pid ∈ w.born

/-- The calls that keep a process to what is its own. -/
def Allowed (w : World) (a : Agent) : Call → Prop
  | .sendall k ws => w.opener k = some a ∧ ∀ id, presented py ws = some id → id ∈ w.ids a.pid
  | .read k | .close k => w.opener k = some a
  | .keepSock k pid => w.opener k = some a ∧ pid = a.pid
  | .keepId clientId pid => pid = a.pid ∧ ∀ id, Client.truthy clientId = some id → id ∈ w.ids a.pid
  | .self | .dropSock | .connect => True

variable {py cfg} {given : Given} {w w' : World} {a b : Agent} {k : ConnId} {ws : List String}

theorem truthy_ownId {c : LiveLockConnection} {p : Nat} {id : String}
    (h : Client.truthy (c.ownId p) = some id) : c.clientIdPid = p := by
  rw [LiveLockConnection.ownId] at h
  split at h
  · assumption
  · cases h

theorem ownSock_some {c : LiveLockConnection} {p : Nat} (h : c.ownSock p = some k) :
    c.sockPid = p ∧ c.sock = some k := by
  rw [LiveLockConnection.ownSock] at h
  split at h
  · next hp => exact ⟨hp, h⟩
  · cases h

theorem Stamped.mono {c : LiveLockConnection} (h : Stamped w a c)
    (hopener : ∀ k b, w.opener k = some b → w'.opener k = some b)
    (hids : ∀ p id, id ∈ w.ids p → id ∈ w'.ids p) (hborn : ∀ p ∈ w.born, p ∈ w'.born) : Stamped w' a c where
  born := hborn _ h.born
  sockBorn := hborn _ h.sockBorn
  idBorn := hborn _ h.idBorn
  sock k hk := hopener k a (h.sock k hk)
  clientId id hid := hids _ id (h.clientId id hid)

theorem wf_setClient {c : LiveLockConnection} (h : WellFormed py given w) (hc : Stamped w a c) :
    WellFormed py given (w.setClient a c) := by
  refine { h with stamped := fun b c' hb => ?_ }
  have hmono : ∀ {d}, Stamped w b d → Stamped (w.setClient a c) b d :=
    fun hd => hd.mono (fun _ _ h => h) (fun _ _ h => h) fun _ h => h
  by_cases hab : b = a
  · subst hab
    simp only [World.setClient, Function.update_self, Option.some_inj] at hb
    exact hmono (hb ▸ hc)
  · simp only [World.setClient, Function.update_of_ne hab] at hb
    exact hmono (h.stamped b c' hb)

theorem wf_enqueue (h : WellFormed py given w) (hk : w.opener k = some a)
    (hid : ∀ id, presented py ws = some id → id ∈ w.ids a.pid) : WellFormed py given (w.enqueue k ws) := by
  refine { h with
    unopened := fun j hj => ?_
    stamped := fun b c hb => (h.stamped b c hb).mono (fun _ _ h => h) (fun _ _ h => h) fun _ h => h
    queued := fun j b ws' id hj hmem hpres => ?_ }
  · obtain ⟨hopener, hqueue, hreceived⟩ := h.unopened j hj
    refine ⟨hopener, ?_, hreceived⟩
    have hjk : j ≠ k := fun he => by
      rw [he, hk] at hopener
      cases hopener
    simp only [World.enqueue, Function.update_of_ne hjk, hqueue]
  · by_cases hjk : j = k
    · subst hjk
      obtain rfl : b = a := Option.some_inj.mp (hj.symm.trans hk)
      simp only [World.enqueue, Function.update_self, List.mem_append, List.mem_singleton] at hmem
      obtain hmem | rfl := hmem
      · exact h.queued j b ws' id hk hmem hpres
      · exact hid id hpres
    · simp only [World.enqueue, Function.update_of_ne hjk] at hmem
      exact h.queued j b ws' id hj hmem hpres

theorem connIntent_name {uuid c : ClientId} {args : List String} {restore : Bool}
    (h : connIntent uuid (Server.words args) = .conn c restore) :
    (args = [] ∧ c = uuid) ∨ args.head? = some c.name := by
  cases args with
  | nil =>
    cases h
    exact .inl ⟨rfl, rfl⟩
  | cons arg args =>
    simp only [Server.words, List.map_cons, connIntent, Arg.clientId, decode_arg] at h
    split at h
    · split at h
      · cases h
      · next c' hc =>
        cases h
        split at hc
        · cases hc
        · cases hc
          exact .inr rfl
    · cases h

variable {sv sv' : Server} {o : Occurrence} {uuid : ClientId} {queue : List (List String)}

theorem joined_words {j : ConnId} {c : ClientId} {restore : Bool} (hj : Joins py cfg sv o j c restore)
    (he : o.event = .command k uuid (Server.words ws)) :
    j = k ∧ isConn py ws = true ∧ (ws.tail = [] ∧ c = uuid ∨ presented py ws = some c.name) := by
  cases ws with
  | nil =>
    obtain ⟨_, _, _, he', -, hi⟩ := hj
    cases he.symm.trans he'
    cases hi
  | cons verb args =>
    obtain ⟨hjk, hverb, hconn⟩ := joins_words hj he
    have hisConn : isConn py (verb :: args) = true := decide_eq_true hverb
    refine ⟨hjk, hisConn, ?_⟩
    rw [presented, if_pos hisConn]
    exact connIntent_name hconn

theorem mem_learn (w : World) (p : Nat) (id : String) {q : Nat} {id' : String} :
    id' ∈ (w.learn p id).ids q ↔ id' ∈ w.ids q ∨ q = p ∧ id' = id := by
  by_cases hq : q = p
  · subst hq
    simp [World.learn, or_comm]
  · simp [World.learn, hq]

theorem wf_learn {p : Nat} {id : String} (h : WellFormed py given w) (hp : p ∈ w.born)
    (hsource : (p, id) ∈ given ∨ ∀ x ∈ given, x.2 ≠ id) (hapart : ∀ q, id ∈ w.ids q → q = p) :
    WellFormed py given (w.learn p id) := by
  have hids : ∀ q id', id' ∈ w.ids q → id' ∈ (w.learn p id).ids q :=
    fun q id' hid => (mem_learn w p id).mpr (.inl hid)
  refine { h with
    stamped := fun a c hc => (h.stamped a c hc).mono (fun _ _ h => h) hids fun _ h => h
    queued := fun k a ws id' hk hws hpres => hids _ _ (h.queued k a ws id' hk hws hpres)
    session := fun k a c hk hc => hids _ _ (h.session k a c hk hc)
    source := fun q id' hid => ?_
    apart := fun q q' id' hid hid' => ?_
    unborn := fun q hq => ?_ }
  · obtain hold | ⟨rfl, rfl⟩ := (mem_learn w p id).mp hid
    · exact h.source q id' hold
    · exact hsource
  · obtain hold | ⟨rfl, rfl⟩ := (mem_learn w p id).mp hid
    · obtain hold' | ⟨rfl, rfl⟩ := (mem_learn w p id).mp hid'
      · exact h.apart q q' id' hold hold'
      · exact hapart q hold
    · obtain hold' | ⟨rfl, -⟩ := (mem_learn w q id').mp hid'
      · exact (hapart q' hold').symm
      · rfl
  · refine List.eq_nil_iff_forall_not_mem.mpr fun id' hid => ?_
    obtain hold | ⟨rfl, -⟩ := (mem_learn w p id).mp hid
    · rw [h.unborn q hq] at hold
      cases hold
    · exact hq hp

theorem wf_socket (h : WellFormed py given w) (hk : w.opener k = some a) (rest : Bytes) (shut : Bool) :
    WellFormed py given { w with
      received := Function.update w.received k rest, closed := Function.update w.closed k shut } := by
  refine { h with
    unopened := fun j hj => ?_
    stamped := fun b c hb => (h.stamped b c hb).mono (fun _ _ h => h) (fun _ _ h => h) fun _ h => h }
  obtain ⟨hopener, hqueue, hreceived⟩ := h.unopened j hj
  refine ⟨hopener, hqueue, ?_⟩
  have hjk : j ≠ k := fun he => by
    rw [he, hk] at hopener
    cases hopener
  simp only [Function.update_of_ne hjk, hreceived]

theorem wf_server (h : WellFormed py given w) (hs : Steps py cfg w.server o sv')
    (hjoins : ∀ k a c restore, w.opener k = some a → Joins py cfg w.server o k c restore →
      c.name ∈ w.ids a.pid) : WellFormed py given { w with server := sv' } := by
  refine { h with
    sound := sound_step h.sound hs
    unopened := fun k hk => h.unopened k ((accepted_mono h.sound hs).trans hk)
    stamped := fun b c hb => (h.stamped b c hb).mono (fun _ _ h => h) (fun _ _ h => h) fun _ h => h
    session := fun k a c hk hc => ?_ }
  obtain hold | ⟨restore, hj⟩ := moved_id h.sound hs hc
  · exact h.session k a c hk hold
  · exact hjoins k a c restore hk hj

theorem wf_accept (h : WellFormed py given w) (ha : a.pid ∈ w.born) {peername : Address}
    (he : o.event = .connect peername) (hs : Steps py cfg w.server o sv') :
    WellFormed py given { w with
      server := sv', opener := Function.update w.opener w.server.accepted (some a) } := by
  have haccepted : w.server.accepted + 1 ≤ sv'.accepted := by
    cases step_change h.sound hs with
    | connect => exact le_rfl
    | command _ _ _ _ _ he' | lost _ _ he' | lostLast _ _ _ he' | maintenance _ _ _ _ he' =>
      cases he.symm.trans he'
  have hopener : ∀ k b, w.opener k = some b →
      Function.update w.opener w.server.accepted (some a) k = some b := by
    intro k b hk
    have hne : k ≠ w.server.accepted := fun he => by
      rw [he, (h.unopened _ le_rfl).1] at hk
      cases hk
    rw [Function.update_of_ne hne, hk]
  have hnew : ∀ k b, Function.update w.opener w.server.accepted (some a) k = some b →
      w.opener k = some b ∨ k = w.server.accepted ∧ b = a := by
    intro k b hk
    by_cases hne : k = w.server.accepted
    · subst hne
      rw [Function.update_self] at hk
      exact .inr ⟨rfl, (Option.some_inj.mp hk).symm⟩
    · rw [Function.update_of_ne hne] at hk
      exact .inl hk
  refine { h with
    sound := sound_step h.sound hs
    unopened := fun k hk => ?_
    stamped := fun b c hb => (h.stamped b c hb).mono hopener (fun _ _ h => h) fun _ h => h
    queued := fun k b ws id hk hws hpres => ?_
    session := fun k b c hk hc => ?_
    opened := fun k b hk => ?_ }
  · have hlater : w.server.accepted < k := Nat.lt_of_lt_of_le haccepted hk
    obtain ⟨hnone, hqueue, hreceived⟩ := h.unopened k hlater.le
    exact ⟨by simp only [Function.update_of_ne hlater.ne', hnone], hqueue, hreceived⟩
  · obtain hold | ⟨rfl, -⟩ := hnew k b hk
    · exact h.queued k b ws id hold hws hpres
    · simp only [(h.unopened _ le_rfl).2.1] at hws
      cases hws
  · obtain hid | ⟨restore, _, _, _, he', -⟩ := moved_id h.sound hs hc
    · obtain hold | ⟨rfl, -⟩ := hnew k b hk
      · exact h.session k b c hold hid
      · obtain ⟨session, hsession, -⟩ := Option.bind_eq_some_iff.mp hid
        exact absurd (h.sound.older _ session hsession) (lt_irrefl _)
    · cases he.symm.trans he'
  · obtain hold | ⟨-, rfl⟩ := hnew k b hk
    · exact h.opened k b hold
    · exact ha

theorem wf_taken (h : WellFormed py given w) (hk : w.queue k = ws :: queue) (data : Bytes) :
    WellFormed py given { w with
      queue := Function.update w.queue k queue, received := Function.update w.received k data } := by
  refine { h with
    unopened := fun j hj => ?_
    stamped := fun b c hb => (h.stamped b c hb).mono (fun _ _ h => h) (fun _ _ h => h) fun _ h => h
    queued := fun j b ws' id hj hmem hpres => ?_ }
  · obtain ⟨hopener, hqueue, hreceived⟩ := h.unopened j hj
    have hjk : j ≠ k := fun he => by
      rw [he, hk] at hqueue
      cases hqueue
    simp only [Function.update_of_ne hjk]
    exact ⟨hopener, hqueue, hreceived⟩
  · by_cases hjk : j = k
    · subst hjk
      simp only [Function.update_self] at hmem
      exact h.queued j b ws' id hj (hk ▸ List.mem_cons_of_mem _ hmem) hpres
    · simp only [Function.update_of_ne hjk] at hmem
      exact h.queued j b ws' id hj hmem hpres

theorem unused_ids (h : WellFormed py given w) (hu : w.unused given uuid = true) :
    '\n' ∉ uuid.name.toList ∧ (∀ x ∈ given, x.2 ≠ uuid.name) ∧ ∀ p, uuid.name ∉ w.ids p := by
  rw [World.unused, Bool.and_eq_true, Bool.and_eq_true, List.all_eq_true, List.all_eq_true] at hu
  obtain ⟨⟨hnewline, hgiven⟩, hborn⟩ := hu
  refine ⟨of_decide_eq_true hnewline, fun x hx => of_decide_eq_true (hgiven x hx), fun p hid => ?_⟩
  by_cases hp : p ∈ w.born
  · exact of_decide_eq_true (hborn p hp) hid
  · rw [h.unborn p hp] at hid
    cases hid

theorem issued_mono {p : Nat} {id : String} (h : id ∈ w.ids p) : id ∈ w.issued py k uuid ws p := by
  cases hk : w.opener k with
  | none =>
    simp only [World.issued, hk]
    exact h
  | some a =>
    simp only [World.issued, hk]
    split
    · exact (mem_learn w _ _).mpr (.inl h)
    · exact h

theorem issued_self (hk : w.opener k = some a) (hissues : w.issues py k ws = true) :
    uuid.name ∈ w.issued py k uuid ws a.pid := by
  simp only [World.issued, hk, hissues, if_true]
  exact (mem_learn w _ _).mpr (.inr ⟨rfl, rfl⟩)

theorem wf_issued (h : WellFormed py given w) (hu : w.unused given uuid = true) :
    WellFormed py given { w with ids := w.issued py k uuid ws } := by
  obtain ⟨-, hgiven, hids⟩ := unused_ids h hu
  cases hk : w.opener k with
  | none =>
    simp only [World.issued, hk]
    exact h
  | some a =>
    simp only [World.issued, hk]
    split
    · exact wf_learn h (h.opened k a hk) (.inr hgiven) fun q hq => absurd hq (hids q)
    · exact h

theorem wf_executed (h : WellFormed py given w) (hu : w.unused given uuid = true)
    (hk : w.queue k = ws :: queue) (hs : Steps py cfg w.server o sv')
    (he : o.event = .command k uuid (Server.words ws)) :
    WellFormed py given (w.executed py k uuid ws queue sv' o.writes) := by
  have htaken : WellFormed py given { w with
      queue := Function.update w.queue k queue
      received := Function.update w.received k (w.received k ++ sent py o.writes)
      ids := w.issued py k uuid ws } := wf_taken (wf_issued h hu) hk _
  refine wf_server htaken hs fun j a c restore hj hjoins => ?_
  obtain ⟨rfl, hconn, ⟨hnil, rfl⟩ | hpres⟩ := joined_words hjoins he
  · obtain ⟨session, hsession⟩ := steps_session h.sound hs he
    have hissues : w.issues py j ws = true := by simp [World.issues, hconn, hnil, hsession]
    exact issued_self hj hissues
  · exact issued_mono (h.queued j a ws _ hj (hk ▸ List.mem_cons_self) hpres)

theorem wf_construct {s : State} (h : WellFormed py given s.world) (ha : a.pid ∈ s.world.born)
    {clientId password : Option String} {maxPayload : Nat}
    (hgiven : ∀ x ∈ given, ∀ y ∈ given, x.2 = y.2 → x.1 = y.1)
    (hid : ∀ id ∈ Client.truthy clientId, (a.pid, id) ∈ given) :
    WellFormed py given (s.construct a clientId password maxPayload).world := by
  have hnone : ∀ k, LiveLockConnection.ownSock ⟨password, maxPayload, none, a.pid, clientId, a.pid⟩ a.pid ≠
      some k := by
    intro k hk
    cases (ownSock_some hk).2
  unfold State.construct
  cases htruthy : Client.truthy clientId with
  | none =>
    refine wf_setClient h ⟨ha, ha, ha, fun k hk => absurd hk (hnone k), fun id hown => ?_⟩
    rw [LiveLockConnection.ownId, if_pos rfl, htruthy] at hown
    cases hown
  | some id =>
    have hsource : (a.pid, id) ∈ given := hid id htruthy
    have hlearn : WellFormed py given (s.world.learn a.pid id) := by
      refine wf_learn h ha (.inl hsource) fun q hq => ?_
      obtain hq | hq := h.source q id hq
      · exact hgiven _ hq _ hsource rfl
      · exact absurd rfl (hq _ hsource)
    refine wf_setClient hlearn ⟨ha, ha, ha, fun k hk => absurd hk (hnone k), fun id' hown => ?_⟩
    rw [LiveLockConnection.ownId, if_pos rfl, htruthy] at hown
    obtain rfl := Option.some_inj.mp hown
    exact (mem_learn s.world _ _).mpr (.inr ⟨rfl, rfl⟩)

theorem copied_stamps (c : LiveLockConnection) (t : Comp Unit) (between : Bool) :
    (if between then halfway c t else c).sockPid = c.sockPid ∧
      (if between then halfway c t else c).clientIdPid = c.clientIdPid := by
  cases between with
  | false => exact ⟨rfl, rfl⟩
  | true =>
    rw [if_pos rfl]
    unfold halfway
    split <;> exact ⟨rfl, rfl⟩

theorem stamped_copy {s : State} {p q : Nat} {c : LiveLockConnection} (h : Stamped s.world ⟨p, b.slot⟩ c)
    (hq : q ∉ s.world.born) (between : Nat → Bool) (hb : b.pid = q) :
    Stamped (s.fork p q between).world b
      (if between b.slot then halfway c (s.task ⟨p, b.slot⟩) else c) := by
  obtain ⟨hsock, hid⟩ := copied_stamps c (s.task ⟨p, b.slot⟩) (between b.slot)
  generalize (if between b.slot then halfway c (s.task ⟨p, b.slot⟩) else c) = d at hsock hid
  refine ⟨hb ▸ List.mem_cons_self, List.mem_cons_of_mem _ (hsock ▸ h.sockBorn),
    List.mem_cons_of_mem _ (hid ▸ h.idBorn), fun k hk => absurd h.sockBorn ?_, fun id hown => absurd h.idBorn ?_⟩
  · rw [← hsock, (ownSock_some hk).1, hb]
    exact hq
  · rw [← hid, truthy_ownId hown, hb]
    exact hq

theorem wf_fork {s : State} (h : WellFormed py given s.world) {p q : Nat} (hq : q ∉ s.world.born)
    (between : Nat → Bool) : WellFormed py given (s.fork p q between).world := by
  refine { h with
    stamped := fun b c hb => ?_
    unborn := fun r hr => h.unborn r fun hold => hr (List.mem_cons_of_mem _ hold)
    opened := fun k b hk => List.mem_cons_of_mem _ (h.opened k b hk) }
  simp only [State.fork] at hb
  split at hb
  · next hbq =>
    obtain ⟨c', hc', rfl⟩ := Option.map_eq_some_iff.mp hb
    exact stamped_copy (h.stamped _ c' hc') hq between hbq
  · exact (h.stamped b c hb).mono (fun _ _ h => h) (fun _ _ h => h) fun _ h => List.mem_cons_of_mem _ h

variable (py cfg) in
def Responds (a : Agent) (w : World) (e : Call) (r : e.Result) (w' : World) : Prop :=
  ∃ choice, w.answer py cfg a e choice = some (r, w')

theorem responds_self {r : LiveLockConnection} (h : Responds py cfg a w .self r w') :
    w.client a = some r ∧ w' = w := by
  obtain ⟨choice, h⟩ := h
  cases choice with
  | succeed =>
    obtain ⟨c, hc, he⟩ := Option.map_eq_some_iff.mp h
    cases he
    exact ⟨hc, rfl⟩
  | _ => cases h

theorem responds_keepSock {pid : Nat} {r : Unit} (h : Responds py cfg a w (.keepSock k pid) r w') :
    ∃ c, w.client a = some c ∧ w' = w.setClient a { c with sock := some k, sockPid := pid } := by
  obtain ⟨choice, h⟩ := h
  cases choice with
  | succeed =>
    obtain ⟨c, hc, he⟩ := Option.map_eq_some_iff.mp h
    cases he
    exact ⟨c, hc, rfl⟩
  | _ => cases h

theorem responds_dropSock {r : Unit} (h : Responds py cfg a w .dropSock r w') :
    ∃ c, w.client a = some c ∧ w' = w.setClient a { c with sock := none } := by
  obtain ⟨choice, h⟩ := h
  cases choice with
  | succeed =>
    obtain ⟨c, hc, he⟩ := Option.map_eq_some_iff.mp h
    cases he
    exact ⟨c, hc, rfl⟩
  | _ => cases h

theorem responds_keepId {clientId : Option String} {pid : Nat} {r : Unit}
    (h : Responds py cfg a w (.keepId clientId pid) r w') :
    ∃ c, w.client a = some c ∧ w' = w.setClient a { c with clientId := clientId, clientIdPid := pid } := by
  obtain ⟨choice, h⟩ := h
  cases choice with
  | succeed =>
    obtain ⟨c, hc, he⟩ := Option.map_eq_some_iff.mp h
    cases he
    exact ⟨c, hc, rfl⟩
  | _ => cases h

theorem responds_connect {r : Except Exc ConnId} (h : Responds py cfg a w .connect r w') :
    (∃ peername writes sv', r = .ok w.server.accepted ∧
      Steps py cfg w.server ⟨.connect peername, fun _ => 0, writes⟩ sv' ∧
      w' = { w with server := sv', opener := Function.update w.opener w.server.accepted (some a) }) ∨
      (∃ x, r = .error x) ∧ w' = w := by
  obtain ⟨choice, h⟩ := h
  cases choice with
  | accept peername =>
    obtain ⟨⟨sv', writes⟩, hs, he⟩ := Option.map_eq_some_iff.mp h
    cases he
    exact .inl ⟨peername, writes, sv', rfl, hs, rfl⟩
  | refuse | fail =>
    cases h
    exact .inr ⟨⟨_, rfl⟩, rfl⟩
  | succeed | failLate => cases h

theorem responds_sendall {r : Except Exc Unit} (h : Responds py cfg a w (.sendall k ws) r w') :
    w' = w.enqueue k ws ∨ (∃ x, r = .error x) ∧ w' = w := by
  obtain ⟨choice, h⟩ := h
  cases choice with
  | succeed | failLate =>
    simp only [World.answer] at h
    split at h
    · cases h
    · cases h
      exact .inl rfl
  | fail =>
    cases h
    exact .inr ⟨⟨_, rfl⟩, rfl⟩
  | accept | refuse => cases h

theorem responds_read {r : Except Exc Response} (h : Responds py cfg a w (.read k) r w') :
    (∃ x, r = .error x) ∧ w' = w ∨ ∃ resp rest, r = .ok resp ∧
      readResponse py (w.received k) = some (resp, rest) ∧
      w' = { w with received := Function.update w.received k rest } := by
  obtain ⟨choice, h⟩ := h
  cases choice with
  | succeed =>
    simp only [World.answer] at h
    split at h
    · cases h
    · cases hread : readResponse py (w.received k) with
      | none =>
        rw [hread] at h
        cases h
        exact .inl ⟨⟨_, rfl⟩, rfl⟩
      | some p =>
        rw [hread] at h
        cases h
        exact .inr ⟨_, _, rfl, rfl, rfl⟩
  | fail =>
    cases h
    exact .inl ⟨⟨_, rfl⟩, rfl⟩
  | accept | refuse | failLate => cases h

theorem responds_close {r : Unit} (h : Responds py cfg a w (.close k) r w') :
    w' = { w with closed := Function.update w.closed k true } := by
  obtain ⟨choice, h⟩ := h
  cases choice with
  | succeed =>
    cases h
    rfl
  | _ => cases h

def Present (py : Builtins) (given : Given) (a : Agent) (w : World) : Prop :=
  WellFormed py given w ∧ (w.client a).isSome = true

theorem wf_responds {e : Call} {r : e.Result} (h : Present py given a w) (hok : Allowed py w a e)
    (hr : Responds py cfg a w e r w') : WellFormed py given w' := by
  obtain ⟨hwf, hclient⟩ := h
  cases e with
  | self =>
    obtain ⟨-, rfl⟩ := responds_self hr
    exact hwf
  | keepSock k pid =>
    obtain ⟨c, hc, rfl⟩ := responds_keepSock hr
    obtain ⟨hopener, rfl⟩ := hok
    have hold := hwf.stamped a c hc
    refine wf_setClient hwf ⟨hold.born, hold.born, hold.idBorn, fun j hj => ?_, hold.clientId⟩
    obtain rfl := Option.some_inj.mp (ownSock_some hj).2
    exact hopener
  | dropSock =>
    obtain ⟨c, hc, rfl⟩ := responds_dropSock hr
    have hold := hwf.stamped a c hc
    refine wf_setClient hwf ⟨hold.born, hold.sockBorn, hold.idBorn, fun j hj => ?_, hold.clientId⟩
    cases (ownSock_some hj).2
  | keepId clientId pid =>
    obtain ⟨c, hc, rfl⟩ := responds_keepId hr
    obtain ⟨rfl, hid⟩ := hok
    have hold := hwf.stamped a c hc
    refine wf_setClient hwf ⟨hold.born, hold.sockBorn, hold.born, hold.sock, fun id hown => ?_⟩
    rw [LiveLockConnection.ownId, if_pos rfl] at hown
    exact hid id hown
  | connect =>
    obtain ⟨peername, writes, sv', -, hs, rfl⟩ | ⟨-, rfl⟩ := responds_connect hr
    · obtain ⟨c, hc⟩ := Option.isSome_iff_exists.mp hclient
      exact wf_accept hwf (hwf.stamped a c hc).born rfl hs
    · exact hwf
  | sendall k ws =>
    obtain rfl | ⟨-, rfl⟩ := responds_sendall hr
    · exact wf_enqueue hwf hok.1 hok.2
    · exact hwf
  | read k =>
    obtain ⟨-, rfl⟩ | ⟨resp, rest, -, -, rfl⟩ := responds_read hr
    · exact hwf
    · have hsocket := wf_socket hwf hok rest (w.closed k)
      rwa [Function.update_eq_self] at hsocket
  | close k =>
    obtain rfl := responds_close hr
    have hsocket := wf_socket hwf hok (w.received k) true
    rwa [Function.update_eq_self] at hsocket

variable (py cfg) in
/-- What can become of a connection that its opener does not touch. -/
inductive Channel (a : Agent) (k : ConnId) (w w' : World) : Prop
  | still : w'.queue k = w.queue k → w'.received k = w.received k →
      (∀ c, idOf w'.server k = some c → idOf w.server k = some c) → Channel a k w w'
  | served (uuid : ClientId) (ws : List String) (rest : List (List String)) (o : Occurrence) :
      w.queue k = ws :: rest → w'.queue k = rest → w'.received k = w.received k ++ sent py o.writes →
      Sound w.server → Steps py cfg w.server o w'.server → o.event = .command k uuid (Server.words ws) →
      '\n' ∉ uuid.name.toList → (isConn py ws = true → ws.tail = [] → uuid.name ∈ w'.ids a.pid) →
      Channel a k w w'

variable (py cfg given) in
/-- A step of all the others, as an object sees it. -/
structure Around (a : Agent) (w w' : World) : Prop where
  wf : WellFormed py given w'
  client : w'.client a = w.client a
  ids : ∀ id, id ∈ w.ids a.pid → id ∈ w'.ids a.pid
  opener : ∀ k, w.opener k = some a → w'.opener k = some a
  channel : ∀ k, w.opener k = some a → Channel py cfg a k w w'

theorem channel_refl (a : Agent) (k : ConnId) (w : World) : Channel py cfg a k w w :=
  .still rfl rfl fun _ h => h

/-- Another object keeps away from what is not its own. -/
theorem around_responds (hne : b ≠ a) {e : Call} {r : e.Result} (h : Present py given a w)
    (hok : Allowed py w a e) (hr : Responds py cfg a w e r w') : Around py cfg given b w w' := by
  have hwf : WellFormed py given w' := wf_responds h hok hr
  have hclient : ∀ c : LiveLockConnection, (w.setClient a c).client b = w.client b := fun c =>
    Function.update_of_ne hne _ _
  have hother : ∀ {i j}, w.opener i = some a → w.opener j = some b → j ≠ i := by
    rintro i j hk hj rfl
    rw [hk] at hj
    exact hne (Option.some_inj.mp hj).symm
  cases e with
  | self =>
    obtain ⟨-, rfl⟩ := responds_self hr
    exact ⟨hwf, rfl, fun _ h => h, fun _ h => h, fun k _ => channel_refl b k _⟩
  | keepSock =>
    obtain ⟨c, -, rfl⟩ := responds_keepSock hr
    exact ⟨hwf, hclient _, fun _ h => h, fun _ h => h, fun k _ => .still rfl rfl fun _ h => h⟩
  | dropSock =>
    obtain ⟨c, -, rfl⟩ := responds_dropSock hr
    exact ⟨hwf, hclient _, fun _ h => h, fun _ h => h, fun k _ => .still rfl rfl fun _ h => h⟩
  | keepId =>
    obtain ⟨c, -, rfl⟩ := responds_keepId hr
    exact ⟨hwf, hclient _, fun _ h => h, fun _ h => h, fun k _ => .still rfl rfl fun _ h => h⟩
  | connect =>
    obtain ⟨peername, writes, sv', -, hs, rfl⟩ | ⟨-, rfl⟩ := responds_connect hr
    · refine ⟨hwf, rfl, fun _ h => h, fun k hk => ?_, fun k hk => .still rfl rfl fun c hc => ?_⟩
      · have hold : k ≠ w.server.accepted := by
          rintro rfl
          rw [(h.1.unopened _ le_rfl).1] at hk
          cases hk
        simp only [Function.update_of_ne hold, hk]
      · obtain hold | ⟨_, _, _, _, he, -⟩ := moved_id h.1.sound hs hc
        · exact hold
        · cases he
    · exact ⟨hwf, rfl, fun _ h => h, fun _ h => h, fun k _ => channel_refl b k _⟩
  | sendall k ws =>
    obtain rfl | ⟨-, rfl⟩ := responds_sendall hr
    · refine ⟨hwf, rfl, fun _ h => h, fun _ h => h, fun j hj => .still ?_ rfl fun _ h => h⟩
      exact Function.update_of_ne (hother hok.1 hj) _ _
    · exact ⟨hwf, rfl, fun _ h => h, fun _ h => h, fun k _ => channel_refl b k _⟩
  | read k =>
    obtain ⟨-, rfl⟩ | ⟨resp, rest, -, -, rfl⟩ := responds_read hr
    · exact ⟨hwf, rfl, fun _ h => h, fun _ h => h, fun k _ => channel_refl b k _⟩
    · refine ⟨hwf, rfl, fun _ h => h, fun _ h => h, fun j hj => .still rfl ?_ fun _ h => h⟩
      exact Function.update_of_ne (hother hok hj) _ _
  | close k =>
    obtain rfl := responds_close hr
    exact ⟨hwf, rfl, fun _ h => h, fun _ h => h, fun k _ => .still rfl rfl fun _ h => h⟩

theorem around_executed (h : WellFormed py given w) (hu : w.unused given uuid = true)
    (hk : w.queue k = ws :: queue) (hs : Steps py cfg w.server o sv')
    (he : o.event = .command k uuid (Server.words ws)) :
    Around py cfg given b w (w.executed py k uuid ws queue sv' o.writes) := by
  refine ⟨wf_executed h hu hk hs he, rfl, fun id hid => issued_mono hid, fun _ h => h, fun j hj => ?_⟩
  by_cases hjk : j = k
  · subst hjk
    refine .served uuid ws queue o hk ?_ ?_ h.sound hs he (unused_ids h hu).1 fun hconn hnil => ?_
    · exact Function.update_self _ _ _
    · exact Function.update_self _ _ _
    · obtain ⟨session, hsession⟩ := steps_session h.sound hs he
      exact issued_self hj (by simp [World.issues, hconn, hnil, hsession])
  · refine .still (Function.update_of_ne hjk _ _) (Function.update_of_ne hjk _ _) fun c hc => ?_
    obtain hold | ⟨restore, hj⟩ := moved_id h.sound hs hc
    · exact hold
    · exact absurd (joined_words hj he).1 hjk

theorem around_foreign (h : WellFormed py given w) (hs : Steps py cfg w.server o sv')
    (hforeign : State.foreign w o.event = true) : Around py cfg given b w { w with server := sv' } := by
  have hnone : ∀ k a c restore, w.opener k = some a → ¬ Joins py cfg w.server o k c restore := by
    rintro k a c restore hk ⟨uuid, value, session, he, -⟩
    rw [he, State.foreign, hk] at hforeign
    cases hforeign
  refine ⟨wf_server h hs fun k a c restore hk hj => absurd hj (hnone k a c restore hk), rfl, fun _ h => h,
    fun _ h => h, fun k hk => .still rfl rfl fun c hc => ?_⟩
  obtain hold | ⟨restore, hj⟩ := moved_id h.sound hs hc
  · exact hold
  · exact absurd hj (hnone k b c restore hk)

theorem around_construct {s : State} (hne : b ≠ a) (h : WellFormed py given s.world)
    (ha : a.pid ∈ s.world.born) {clientId password : Option String} {maxPayload : Nat}
    (hgiven : ∀ x ∈ given, ∀ y ∈ given, x.2 = y.2 → x.1 = y.1)
    (hid : ∀ id ∈ Client.truthy clientId, (a.pid, id) ∈ given) :
    Around py cfg given b s.world (s.construct a clientId password maxPayload).world := by
  have hwf : WellFormed py given (s.construct a clientId password maxPayload).world :=
    wf_construct h ha hgiven hid
  unfold State.construct at hwf ⊢
  cases htruthy : Client.truthy clientId with
  | none =>
    simp only [htruthy] at hwf
    refine ⟨hwf, Function.update_of_ne hne _ _, fun _ h => h, fun _ h => h, fun k _ => ?_⟩
    exact .still rfl rfl fun _ h => h
  | some id =>
    simp only [htruthy] at hwf
    refine ⟨hwf, Function.update_of_ne hne _ _, fun id' h => (mem_learn s.world _ _).mpr (.inl h), fun _ h => h,
      fun k _ => ?_⟩
    exact .still rfl rfl fun _ h => h

theorem around_fork {s : State} (h : WellFormed py given s.world) {p q : Nat} (hq : q ∉ s.world.born)
    (between : Nat → Bool) (hb : b.pid ≠ q) :
    Around py cfg given b s.world (s.fork p q between).world := by
  refine ⟨wf_fork h hq between, ?_, fun _ h => h, fun _ h => h, fun k _ => .still rfl rfl fun _ h => h⟩
  simp only [State.fork, if_neg hb]

end Livelock.ProcessInvariant
