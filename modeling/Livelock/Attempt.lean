import Livelock.Network

namespace Livelock.Attempt

open Livelock.Lib Livelock.Shared Livelock.MemoryStorage Livelock.StorageInvariant
open Livelock.StorageLease Livelock.StorageRun Livelock.Server Livelock.CommandSpec
open Livelock.ServerRun Livelock.ServerLease Livelock.ClientReader Livelock.Framing
open Livelock.Network
open Livelock.Client (LiveLock LiveLockConnection Process Exc Call Comp)

/-- The requests that an attempt to acquire `l` as `c` can come to send. -/
inductive Known (c : ClientId) (l : LockId) : List String → Prop
  | pass (password : String) : Known c l ["PASS", password]
  | conn : Known c l ["CONN", c.name]
  | connInfo (info : String) : Known c l ["CONNINFO", info]
  | aq : Known c l ["AQ", l]

/-- What holds while `c` tries to acquire `l`. -/
structure Inv (proc : Process) (c : ClientId) (l : LockId) (w : World) : Prop where
  sound : Sound w.server
  accepted : ∀ k ∈ w.mine, k < w.server.accepted
  ids : ∀ k, idOf w.server k = some c → k ∈ w.mine
  only : ∀ k ∈ w.mine, ∀ c', idOf w.server k = some c' → c' = c
  queued : ∀ k, ∀ ws ∈ w.queue k, k ∈ w.mine ∧ Known c l ws
  fresh : ∀ k, w.server.accepted ≤ k → w.received k = [] ∧ w.closed k = false
  owned : (∃ m, leaseOf w.server l = some ⟨c, m⟩) ↔ w.granted ≠ []
  once : w.granted.length ≤ 1
  grantedMine : ∀ k ∈ w.granted, k ∈ w.mine
  sockMine : ∀ k, w.client.sock = some k → k ∈ w.mine
  /-- A connection that the client has not given up is its current one. -/
  current : ∀ k, w.closed k = false → w.queue k ≠ [] ∨ k ∈ w.granted → w.client.sock = some k
  sockPid : w.client.sockPid = proc.pid
  clientIdPid : w.client.clientIdPid = proc.pid
  clientId : w.client.clientId = some c.name

variable {py : Builtins} {cfg : Config} {proc : Process} {c : ClientId} {l : LockId}
  {w w' : World} {sv sv' : Server} {o : Occurrence} {k : ConnId} {ws : List String}

theorem ids_step (h : Sound sv) (hs : Steps py cfg sv o sv') {mine : List ConnId}
    (hids : ∀ k, idOf sv k = some c → k ∈ mine)
    (honly : ∀ k ∈ mine, ∀ c', idOf sv k = some c' → c' = c)
    (hjoins : ∀ k c' restore, Joins py cfg sv o k c' restore → (c' = c ↔ k ∈ mine)) :
    (∀ k, idOf sv' k = some c → k ∈ mine) ∧ ∀ k ∈ mine, ∀ c', idOf sv' k = some c' → c' = c := by
  cases event_moves h hs with
  | joined j c' restore hj hmoved =>
    have hsame := hjoins j c' restore hj
    refine ⟨fun k hk => ?_, fun k hk c'' hc => ?_⟩
    · rw [hmoved] at hk
      split at hk
      · next hkj =>
        cases hk
        rw [hkj]
        exact hsame.mp rfl
      · exact hids k hk
    · rw [hmoved] at hc
      split at hc
      · next hkj =>
        cases hc
        rw [hkj] at hk
        exact hsame.mpr hk
      · exact honly k hk c'' hc
  | lost j he hmoved =>
    refine ⟨fun k hk => ?_, fun k hk c'' hc => ?_⟩
    · rw [hmoved] at hk
      split at hk
      · cases hk
      · exact hids k hk
    · rw [hmoved] at hc
      split at hc
      · cases hc
      · exact honly k hk c'' hc
  | stays _ _ hmoved =>
    refine ⟨fun k hk => hids k ?_, fun k hk c'' hc => honly k hk c'' ?_⟩
    · rw [← hmoved, hk]
    · rw [← hmoved, hc]

theorem known_asks {uuid : ClientId} (hw : Known c l ws) (he : o.event = .command k uuid (words ws))
    {j : ConnId} {op : Op} (ha : Asks py cfg sv o j op) :
    j = k ∧ ws = ["AQ", l] ∧ ∃ c', idOf sv j = some c' ∧ op = .acquire c' l false := by
  cases hw with
  | pass password =>
    obtain ⟨-, c', -, hop⟩ := asks_words ha he
    rw [verb_pass] at hop
    cases hop
  | conn =>
    obtain ⟨-, c', -, hop⟩ := asks_words ha he
    rw [verb_conn] at hop
    cases hop
  | connInfo info =>
    obtain ⟨-, c', -, hop⟩ := asks_words ha he
    rw [verb_connInfo] at hop
    cases hop
  | aq =>
    obtain ⟨hj, c', hid, hop⟩ := asks_words ha he
    rw [verb_aq] at hop
    obtain ⟨text, htext, rfl⟩ := Option.map_eq_some_iff.mp hop
    rw [oneText_inj htext]
    exact ⟨hj, rfl, c', hid, rfl⟩

theorem known_joins {uuid : ClientId} (hw : Known c l ws) (he : o.event = .command k uuid (words ws))
    {j : ConnId} {c' : ClientId} {restore : Bool} (hj : Joins py cfg sv o j c' restore) :
    j = k ∧ c' = c := by
  cases hw with
  | pass password =>
    obtain ⟨-, hconn, -⟩ := joins_words hj he
    cases (verb_pass py).symm.trans hconn
  | conn =>
    obtain ⟨hjk, -, hintent⟩ := joins_words hj he
    refine ⟨hjk, ?_⟩
    have hargs : ∀ arg ∈ [c.name], arg ≠ "" := List.forall_mem_singleton.mpr c.nonempty
    obtain ⟨c₁, restore', hintent', ⟨hnil, -⟩ | hhead⟩ := connIntent_words uuid hargs
    · cases hnil
    · cases hintent.symm.trans hintent'
      ext
      rw [Option.some_inj.mp hhead]
  | connInfo info =>
    obtain ⟨-, hconn, -⟩ := joins_words hj he
    cases (verb_connInfo py).symm.trans hconn
  | aq =>
    obtain ⟨-, hconn, -⟩ := joins_words hj he
    cases (verb_aq py).symm.trans hconn

theorem inv_server (h : Inv proc c l w) (hs : Steps py cfg w.server o sv)
    (hjoins : ∀ k c' restore, Joins py cfg w.server o k c' restore → (c' = c ↔ k ∈ w.mine))
    {granted : List ConnId} (howner : (∃ m, leaseOf sv l = some ⟨c, m⟩) ↔ granted ≠ [])
    (honce : granted.length ≤ 1)
    (hgranted : ∀ k ∈ granted, k ∈ w.mine ∧ (w.closed k = false → w.client.sock = some k)) :
    Inv proc c l { w with server := sv, granted := granted } := by
  obtain ⟨hids, honly⟩ := ids_step h.sound hs h.ids h.only hjoins
  have hmono := accepted_mono h.sound hs
  exact { h with
    sound := sound_step h.sound hs
    accepted := fun k hk => (h.accepted k hk).trans_le hmono
    ids := hids
    only := honly
    fresh := fun k hk => h.fresh k (hmono.trans hk)
    owned := howner
    once := honce
    grantedMine := fun k hk => (hgranted k hk).1
    current := fun k hopen hk => hk.elim (fun hq => h.current k hopen (.inl hq))
      fun hk => (hgranted k hk).2 hopen }

theorem inv_kept (h : Inv proc c l w) (hs : Steps py cfg w.server o sv)
    (hjoins : ∀ k c' restore, Joins py cfg w.server o k c' restore → (c' = c ↔ k ∈ w.mine))
    (howner : (∃ m, leaseOf sv l = some ⟨c, m⟩) ↔ ∃ m, leaseOf w.server l = some ⟨c, m⟩) :
    Inv proc c l { w with server := sv } :=
  inv_server h hs hjoins (howner.trans h.owned) h.once fun k hk =>
    ⟨h.grantedMine k hk, fun hopen => h.current k hopen (.inr hk)⟩

theorem inv_queue (h : Inv proc c l w) {rest : List (List String)}
    (hrest : ∀ ws ∈ rest, ws ∈ w.queue k) :
    Inv proc c l { w with queue := Function.update w.queue k rest } := by
  have hsub : ∀ j, ∀ ws ∈ Function.update w.queue k rest j, ws ∈ w.queue j := by
    intro j ws hws
    by_cases hj : j = k
    · subst hj
      rw [Function.update_self] at hws
      exact hrest ws hws
    · rw [Function.update_of_ne hj] at hws
      exact hws
  refine { h with queued := fun j ws hws => h.queued j ws (hsub j ws hws), current := ?_ }
  intro j hopen hj
  refine h.current j hopen (hj.imp_left fun hne hnil => hne ?_)
  refine List.eq_nil_iff_forall_not_mem.mpr fun ws hws => ?_
  have hin := hsub j ws hws
  rw [hnil] at hin
  cases hin

theorem inv_received (h : Inv proc c l w) (hk : k ∈ w.mine) (data : Bytes) :
    Inv proc c l { w with received := Function.update w.received k data } := by
  refine { h with fresh := fun j hj => ?_ }
  have hne : j ≠ k := by
    rintro rfl
    exact absurd (h.accepted j hk) (not_lt.mpr hj)
  simpa only [Function.update_of_ne hne] using h.fresh j hj

theorem free_unowned (htime : InTime c l sv o.reading) (hfree : free l sv (o.reading 0) = true) :
    ¬ ∃ m, leaseOf sv l = some ⟨c, m⟩ := by
  rintro ⟨m, hl⟩
  obtain hnone | ⟨a, d, hd, -, hle⟩ := free_iff.mp hfree
  · cases hl.symm.trans hnone
  · cases hl.symm.trans hd
    exact absurd hle (not_le.mpr (htime d hl 0))

theorem inv_execute {uuid : ClientId} {rest : List (List String)} (h : Inv proc c l w)
    (hs : Steps py cfg w.server o sv) (htime : InTime c l w.server o.reading)
    (hqueue : w.queue k = ws :: rest) (he : o.event = .command k uuid (words ws)) (data : Bytes) :
    Inv proc c l (w.executed k rest sv data
      (acquires py cfg c l w.server k uuid ws && free l w.server (o.reading 0))) := by
  obtain ⟨hmine, hknown⟩ : k ∈ w.mine ∧ Known c l ws := h.queued k ws (by rw [hqueue]; exact .head _)
  have hjoins : ∀ j c' restore, Joins py cfg w.server o j c' restore → (c' = c ↔ j ∈ w.mine) := by
    intro j c' restore hj
    obtain ⟨rfl, rfl⟩ := known_joins hknown he hj
    exact iff_of_true rfl hmine
  have hrest : ∀ ws ∈ rest, ws ∈ w.queue k := by
    intro ws hws
    rw [hqueue]
    exact .tail _ hws
  have hrelease : ∀ j, ¬ Asks py cfg w.server o j (.release c l) := by
    intro j ha
    obtain ⟨-, -, c', -, hop⟩ := known_asks hknown he ha
    cases hop
  cases hg : acquires py cfg c l w.server k uuid ws && free l w.server (o.reading 0) with
  | false =>
    have howner : (∃ m, leaseOf sv l = some ⟨c, m⟩) ↔ ∃ m, leaseOf w.server l = some ⟨c, m⟩ := by
      by_cases hacquire : acquires py cfg c l w.server k uuid ws = true
      · obtain ⟨reentrant, ha⟩ := (acquires_iff he).mp hacquire
        rw [hacquire, Bool.true_and] at hg
        obtain ⟨a, m, -, -, -, hkept⟩ | ⟨hfree, -⟩ := asks_acquire h.sound hs ha
        · rw [hkept]
        · rw [free_iff.mpr hfree] at hg
          cases hg
      · refine owner_step h.sound hs htime hrelease fun j reentrant ha => hacquire ?_
        obtain ⟨rfl, -⟩ := known_asks hknown he ha
        exact (acquires_iff he).mpr ⟨reentrant, ha⟩
    exact inv_received (inv_queue (inv_kept h hs hjoins howner) hrest) hmine _
  | true =>
    rw [Bool.and_eq_true] at hg
    obtain ⟨hacquire, hfree⟩ := hg
    have hnone : w.granted = [] := by
      by_contra hne
      exact free_unowned htime hfree (h.owned.mpr hne)
    have hown : leaseOf sv l = some ⟨c, none⟩ := by
      obtain ⟨reentrant, ha⟩ := (acquires_iff he).mp hacquire
      obtain ⟨a, m, hl, hnot, -⟩ | ⟨-, -, hl⟩ := asks_acquire h.sound hs ha
      · obtain hfree | hover := free_iff.mp hfree
        · cases hl.symm.trans hfree
        · exact absurd hover hnot
      · exact hl
    have hserver : Inv proc c l { w with server := sv, granted := [k] } := by
      refine inv_server h hs hjoins (iff_of_true ⟨none, hown⟩ (by simp)) le_rfl fun j hj => ?_
      obtain rfl := List.mem_singleton.mp hj
      exact ⟨hmine, fun hopen => h.current j hopen (.inl (by rw [hqueue]; simp))⟩
    have hgranted : w.executed k rest sv data true = { w with
        server := sv, granted := [k], queue := Function.update w.queue k rest
        received := Function.update w.received k (w.received k ++ data) } := by
      simp [World.executed, hnone]
    rw [hgranted]
    exact inv_received (inv_queue hserver hrest) hmine _

theorem inv_change (h : Inv proc c l w) (hc : Change py cfg c l w o w')
    (htime : InTime c l w.server o.reading) : Inv proc c l w' := by
  cases hc with
  | other sv hs hforeign hgiven =>
    have hasks : ∀ j op, Asks py cfg w.server o j op → j ∉ w.mine := by
      rintro j op ⟨uuid, value, session, he, -⟩ hj
      exact (hforeign j hj).2 uuid value he
    have hown : ∀ j op, Asks py cfg w.server o j op → (∀ c', AskedBy c' op → c' = c) → False := by
      intro j op ha hop
      obtain ⟨_, _, -, -, -, ⟨c', hid, hasked⟩, -⟩ := asks_effect h.sound hs ha
      obtain rfl := hop c' hasked
      exact hasks j op ha (h.ids j hid)
    refine inv_kept h hs (fun j c' restore hj => ?_) (owner_step h.sound hs htime ?_ ?_)
    · refine iff_of_false ?_ fun hmine => ?_
      · rintro rfl
        exact hgiven j restore hj
      · obtain ⟨uuid, value, session, he, -⟩ := hj
        exact (hforeign j hmine).2 uuid value he
    · exact fun j ha => hown j _ ha fun c' hasked => Eq.symm hasked
    · exact fun j r ha => hown j _ ha fun c' hasked => Eq.symm hasked
  | execute k uuid ws rest sv hs hqueue he => exact inv_execute h hs htime hqueue he _
  | lost k sv hs he =>
    have hno : ∀ j op, ¬ Asks py cfg w.server o j op := by
      rintro j op ⟨uuid, value, session, he', -⟩
      cases he.symm.trans he'
    have hserver : Inv proc c l { w with server := sv } := by
      refine inv_kept h hs ?_ (owner_step h.sound hs htime (fun j => hno j _) fun j r => hno j _)
      rintro j c' restore ⟨uuid, value, session, he', -⟩
      cases he.symm.trans he'
    exact inv_queue hserver nofun

theorem change_client (hc : Change py cfg c l w o w') :
    w'.client = w.client ∧ w'.closed = w.closed := by
  cases hc with
  | other | execute | lost => exact ⟨rfl, rfl⟩

theorem change_quiet (hc : Change py cfg c l w o w') (hq : w.queue k = []) :
    w'.queue k = [] ∧ w'.received k = w.received k ∧ (k ∈ w'.granted ↔ k ∈ w.granted) := by
  cases hc with
  | other => exact ⟨hq, rfl, .rfl⟩
  | execute j uuid ws rest sv hs hqueue he =>
    have hne : k ≠ j := by
      rintro rfl
      cases hq.symm.trans hqueue
    refine ⟨?_, ?_, ?_⟩
    · simp only [World.executed, Function.update_of_ne hne, hq]
    · simp only [World.executed, Function.update_of_ne hne]
    · simp only [World.executed]
      split
      · simp [hne]
      · rfl
  | lost j sv hs he =>
    refine ⟨?_, rfl, .rfl⟩
    by_cases hj : k = j
    · subst hj
      simp only [Function.update_self]
    · simp only [Function.update_of_ne hj, hq]

/-- Nothing is under way on the connection, and the lock was not granted there. -/
structure Quiet (w : World) (k : ConnId) : Prop where
  queue : w.queue k = []
  received : w.received k = []
  granted : k ∉ w.granted

def Ready (proc : Process) (c : ClientId) (l : LockId) (w : World) : Prop :=
  Inv proc c l w ∧ ∀ k, w.client.sock = some k → w.closed k = false → Quiet w k

def Shut (proc : Process) (c : ClientId) (l : LockId) (w : World) : Prop :=
  Inv proc c l w ∧ ∀ k, w.client.sock = some k → w.closed k = true

def Off (proc : Process) (c : ClientId) (l : LockId) (w : World) : Prop :=
  Inv proc c l w ∧ w.client.sock = none

def Opened (proc : Process) (c : ClientId) (l : LockId) (k : ConnId) (w : World) : Prop :=
  Off proc c l w ∧ k ∈ w.mine ∧ Quiet w k

/-- What a response says about the request it is read for, when it is no error:
how much is left unread, and whether the lock was granted. -/
def Told (c : ClientId) (l : LockId) (ws : List String) (r : Response) (rest : Bytes) (granted : Prop) :
    Prop :=
  ((ws = ["CONN", c.name] → r.str? = some c.name) → rest = []) ∧
    (if ws = ["AQ", l] then (r.str? = some "1" ↔ granted) else ¬ granted)

def Pending (py : Builtins) (proc : Process) (c : ClientId) (l : LockId) (ws : List String) (k : ConnId)
    (w : World) : Prop :=
  Inv proc c l w ∧ w.client.sock = some k ∧ w.closed k = false ∧
    ((w.queue k = [ws] ∧ w.received k = [] ∧ k ∉ w.granted) ∨
      (w.queue k = [] ∧ ∀ r rest, readResponse py (w.received k) = some (r, rest) →
        (∃ msg n, r = .error msg n) ∨ Told c l ws r rest (k ∈ w.granted)))

def Done (proc : Process) (c : ClientId) (l : LockId) (ws : List String) (r : Response) (w : World) :
    Prop :=
  Inv proc c l w ∧ ∃ k, w.client.sock = some k ∧ w.closed k = false ∧ w.queue k = [] ∧
    Told c l ws r (w.received k) (k ∈ w.granted)

variable (py cfg c l) in
/-- What holds of the world however it goes on without the client. -/
def Lasting (P : World → Prop) : Prop := Prog.Stable (Meanwhile py cfg c l) P

theorem lasting_of_change {P : World → Prop}
    (h : ∀ w o w', Change py cfg c l w o w' → InTime c l w.server o.reading → P w → P w') :
    Lasting py cfg c l P := by
  intro w w' hm hw
  obtain ⟨o, hc, htime⟩ := meanwhile_change hm
  exact h w o w' hc htime hw

theorem lasting_inv : Lasting py cfg c l (Inv proc c l) :=
  lasting_of_change fun _ _ _ hc htime h => inv_change h hc htime

theorem quiet_change (h : Quiet w k) (hc : Change py cfg c l w o w') : Quiet w' k := by
  obtain ⟨hqueue, hreceived, hgranted⟩ := change_quiet hc h.queue
  exact ⟨hqueue, hreceived.trans h.received, fun hk => h.granted (hgranted.mp hk)⟩

theorem lasting_ready : Lasting py cfg c l (Ready proc c l) := by
  refine lasting_of_change fun w o w' hc htime ⟨hinv, hquiet⟩ => ⟨inv_change hinv hc htime, ?_⟩
  obtain ⟨hclient, hclosed⟩ := change_client hc
  rw [hclient, hclosed]
  exact fun k hk hopen => quiet_change (hquiet k hk hopen) hc

theorem lasting_shut : Lasting py cfg c l (Shut proc c l) := by
  refine lasting_of_change fun w o w' hc htime ⟨hinv, hshut⟩ => ⟨inv_change hinv hc htime, ?_⟩
  obtain ⟨hclient, hclosed⟩ := change_client hc
  rw [hclient, hclosed]
  exact hshut

theorem lasting_off : Lasting py cfg c l (Off proc c l) := by
  refine lasting_of_change fun w o w' hc htime ⟨hinv, hoff⟩ => ⟨inv_change hinv hc htime, ?_⟩
  rw [(change_client hc).1]
  exact hoff

theorem mine_change (hc : Change py cfg c l w o w') : w'.mine = w.mine := by
  cases hc with
  | other | execute | lost => rfl

theorem lasting_opened : Lasting py cfg c l (Opened proc c l k) := by
  refine lasting_of_change fun w o w' hc htime ⟨⟨hinv, hoff⟩, hmine, hquiet⟩ => ?_
  refine ⟨⟨inv_change hinv hc htime, ?_⟩, ?_, quiet_change hquiet hc⟩
  · rw [(change_client hc).1]
    exact hoff
  · rw [mine_change hc]
    exact hmine

theorem lasting_done {r : Response} : Lasting py cfg c l (Done proc c l ws r) := by
  refine lasting_of_change fun w o w' hc htime ⟨hinv, k, hsock, hopen, hqueue, htold⟩ => ?_
  obtain ⟨hclient, hclosed⟩ := change_client hc
  obtain ⟨hqueue', hreceived, hgranted⟩ := change_quiet hc hqueue
  refine ⟨inv_change hinv hc htime, k, by rw [hclient, hsock], by rw [hclosed, hopen], hqueue', ?_⟩
  rw [hreceived, propext hgranted]
  exact htold

theorem told_rest {r : Response} {rest : Bytes} {uuid : ClientId} {granted : Bool}
    (hknown : Known c l ws) (he : o.event = .command k uuid (words ws)) (hws : ws ≠ ["AQ", l])
    (hrest : (ws = ["CONN", c.name] → r.str? = some c.name) → rest = []) :
    Told c l ws r rest ((acquires py cfg c l sv k uuid ws && granted) = true) := by
  refine ⟨hrest, ?_⟩
  rw [if_neg hws]
  intro hg
  rw [Bool.and_eq_true] at hg
  obtain ⟨reentrant, ha⟩ := (acquires_iff he).mp hg.1
  exact hws (known_asks hknown he ha).2.1

theorem told_aq {uuid : ClientId} (h : Inv proc c l w) (hs : Steps py cfg w.server o sv)
    (hk : k ∈ w.mine) (he : o.event = .command k uuid (words ["AQ", l])) {r : Response}
    {rest : Bytes} (hread : readResponse py (sent py o.writes) = some (r, rest)) :
    (∃ msg n, r = .error msg n) ∨ Told c l ["AQ", l] r rest
      ((acquires py cfg c l w.server k uuid ["AQ", l] && free l w.server (o.reading 0)) = true) := by
  have hverb : Verb.named (py.lower "AQ") = if false then .aqr else .aq := verb_aq py
  obtain herror | ⟨hrest, c', b, hid, ha, hans, hr⟩ := acquire_reply h.sound hs hverb he hread
  · exact .inl herror
  obtain rfl := h.only k hk c' hid
  refine .inr ⟨fun _ => hrest, ?_⟩
  have hacquires : acquires py cfg c' l w.server k uuid ["AQ", l] = true :=
    (acquires_iff he).mpr ⟨false, ha⟩
  have hone : r.str? = some "1" ↔ b = true := by
    rw [hr]
    cases b <;> simp [Response.str?]
  rw [if_pos rfl, hacquires, Bool.true_and, hone, free_iff]
  obtain ⟨a, m, hl, hnot, hans', -⟩ | ⟨hfree, hans', -⟩ := asks_acquire h.sound hs ha
  · have hb : b = false := answers_unique hans hans'
    refine iff_of_false (by simp [hb]) ?_
    rintro (hnone | hover)
    · cases hl.symm.trans hnone
    · exact hnot hover
  · exact iff_of_true (answers_unique hans hans') hfree

theorem told_execute {uuid : ClientId} (h : Inv proc c l w) (hs : Steps py cfg w.server o sv)
    (hknown : Known c l ws) (hk : k ∈ w.mine) (he : o.event = .command k uuid (words ws)) {r : Response}
    {rest : Bytes} (hread : readResponse py (sent py o.writes) = some (r, rest)) :
    (∃ msg n, r = .error msg n) ∨ Told c l ws r rest
      ((acquires py cfg c l w.server k uuid ws && free l w.server (o.reading 0)) = true) := by
  have hplain : ∀ verb arg, ws = [verb, arg] → Verb.named (py.lower verb) ≠ .conn →
      (∃ msg n, r = .error msg n) ∨ rest = [] := by
    rintro verb arg rfl hconn
    exact reply_rest h.sound hs he hconn hread
  cases hknown with
  | pass password =>
    obtain herror | hrest := hplain _ _ rfl (by rw [verb_pass]; decide)
    · exact .inl herror
    · exact .inr (told_rest (.pass password) he (by simp) fun _ => hrest)
  | conn =>
    obtain herror | hrest := conn_rest h.sound hs he (verb_conn py) hread
    · exact .inl herror
    · exact .inr (told_rest .conn he (by simp) fun hr => hrest (hr rfl))
  | connInfo info =>
    obtain herror | hrest := hplain _ _ rfl (by rw [verb_connInfo]; decide)
    · exact .inl herror
    · exact .inr (told_rest (.connInfo info) he (by simp) fun _ => hrest)
  | aq => exact told_aq h hs hk he hread

theorem lasting_pending : Lasting py cfg c l (Pending py proc c l ws k) := by
  refine lasting_of_change fun w o w' hc htime ⟨hinv, hsock, hopen, hcase⟩ => ?_
  obtain ⟨hclient, hclosed⟩ := change_client hc
  refine ⟨inv_change hinv hc htime, by rw [hclient, hsock], by rw [hclosed, hopen], ?_⟩
  obtain ⟨hqueue, hreceived, hgranted⟩ | ⟨hqueue, htold⟩ := hcase
  · cases hc with
    | other => exact .inl ⟨hqueue, hreceived, hgranted⟩
    | execute j uuid ws' rest sv hs hqueue' he =>
      by_cases hj : j = k
      · subst hj
        obtain ⟨rfl, rfl⟩ := List.cons.inj (hqueue.symm.trans hqueue')
        obtain ⟨hmine, hknown⟩ := hinv.queued j ws (by rw [hqueue]; exact .head _)
        refine .inr ⟨by simp only [World.executed, Function.update_self], fun r rest hread => ?_⟩
        simp only [World.executed, Function.update_self, hreceived, List.nil_append] at hread
        have htold := told_execute hinv hs hknown hmine he hread
        have hnow : j ∈ (w.executed j [] sv (sent py o.writes) (acquires py cfg c l w.server j uuid ws &&
            free l w.server (o.reading 0))).granted ↔
              (acquires py cfg c l w.server j uuid ws && free l w.server (o.reading 0)) = true := by
          simp only [World.executed]
          split
          · next hg => simp [hg]
          · next hg => simp [hg, hgranted]
        rw [propext hnow]
        exact htold
      · have hne : k ≠ j := Ne.symm hj
        refine .inl ⟨?_, ?_, ?_⟩
        · simp only [World.executed, Function.update_of_ne hne, hqueue]
        · simp only [World.executed, Function.update_of_ne hne, hreceived]
        · simp only [World.executed]
          split
          · simp [hne, hgranted]
          · exact hgranted
    | lost j sv hs he =>
      by_cases hj : k = j
      · subst hj
        refine .inr ⟨by simp only [Function.update_self], fun r rest hread => ?_⟩
        simp only [hreceived] at hread
        cases hread
      · refine .inl ⟨?_, hreceived, hgranted⟩
        simp only [Function.update_of_ne hj, hqueue]
  · obtain ⟨hqueue', hreceived, hgranted⟩ := change_quiet hc hqueue
    refine .inr ⟨hqueue', fun r rest hread => ?_⟩
    rw [hreceived] at hread
    rw [propext hgranted]
    exact htold r rest hread

end Livelock.Attempt
