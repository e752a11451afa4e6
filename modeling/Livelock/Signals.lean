import Livelock.SignalEntries
import Livelock.ServerLease
import Livelock.Ascii

namespace Livelock.Signals

open Livelock.Lib Livelock.Shared Livelock.MemoryStorage Livelock.StorageInvariant
open Livelock.StorageRun Livelock.Server Livelock.CommandSpec Livelock.ServerRun
open Livelock.ServerLease Livelock.SignalEntries Livelock.Ascii

variable (py : Builtins) (cfg : Config)

/-- The event is a command of this verb, in any letter case, for a lock and a
signal, from a connection that has a client id. -/
def Orders (verb : Verb) (l : LockId) (signal : Signal) (sv : Server) (o : Occurrence) : Prop :=
  ∃ k uuid command args name session c, o.event = .command k uuid (command :: args) ∧
    sv.connections.get? k = some session ∧ session.clientId = some c ∧ command.decode = some name ∧
    Verb.named (py.lower name) = verb ∧ twoTexts args = some (l, signal)

/-- The same, for a signal whose name is `signal` in some letter case. -/
def OrdersAnyCase (verb : Verb) (l : LockId) (signal : Signal) (sv : Server) (o : Occurrence) : Prop :=
  ∃ signal', py.lower signal' = py.lower signal ∧ Orders py verb l signal' sv o

def Creates (l : LockId) (sv : Server) (o : Occurrence) (sv' : Server) : Prop :=
  ∃ k c reentrant, Asks py cfg sv o k (.acquire c l reentrant) ∧ Answers o true ∧
    sv'.adaptor.store.allLocks.get? l = some sv.adaptor.store.nextRef

/-- The latest of the `SIGSET` and `SIGDEL` commands for a lock and a signal
in the run of these events is a `SIGSET`. -/
def LatestIsSet (l : LockId) (signal : Signal) : Server → List Occurrence → Prop :=
  LatestUp (Steps py cfg) (OrdersAnyCase py .sigset l signal) (OrdersAnyCase py .sigdel l signal)

variable {py cfg} {sv sv' : Server} {o : Occurrence} {k : ConnId} {l : LockId} {signal : Signal}

theorem steps_unique {sv'' : Server} (h : Steps py cfg sv o sv') (h' : Steps py cfg sv o sv'') :
    sv' = sv'' :=
  (Prod.mk.inj (Option.some_inj.mp (h.symm.trans h'))).1

theorem asks_unique {k' : ConnId} {op op' : Op} (h : Asks py cfg sv o k op)
    (h' : Asks py cfg sv o k' op') : op = op' := by
  obtain ⟨uuid, value, session, he, hk, hi⟩ := h
  obtain ⟨_, _, _, he', hk', hi'⟩ := h'
  cases he.symm.trans he'
  cases hk.symm.trans hk'
  cases hi.symm.trans hi'
  rfl

variable (cfg) in
theorem orders_asks {verb : Verb} (h : Orders py verb l signal sv o) (hconn : verb ≠ .conn)
    (hpass : verb ≠ .pass) : ∃ k c args, twoTexts args = some (l, signal) ∧
      ∀ op, operationOf py c verb args = some op → Asks py cfg sv o k op := by
  obtain ⟨k, uuid, command, args, name, session, c, he, hk, hc, hname, hverb, htexts⟩ := h
  refine ⟨k, c, args, htexts, fun op hop => ⟨uuid, _, session, he, hk, ?_⟩⟩
  rw [intent_named cfg hc hname hverb hconn hpass, hop]
  rfl

variable (cfg) in
theorem sigset_asks (h : Orders py .sigset l signal sv o) :
    ∃ k, Asks py cfg sv o k (.addSignal l (py.lower signal)) := by
  obtain ⟨k, c, args, htexts, hasks⟩ := orders_asks cfg h (by decide) (by decide)
  exact ⟨k, hasks _ (by rw [operationOf, htexts]; rfl)⟩

variable (cfg) in
theorem sigdel_asks (h : Orders py .sigdel l signal sv o) :
    ∃ k, Asks py cfg sv o k (.removeSignal l (py.lower signal)) := by
  obtain ⟨k, c, args, htexts, hasks⟩ := orders_asks cfg h (by decide) (by decide)
  exact ⟨k, hasks _ (by rw [operationOf, htexts]; rfl)⟩

variable (cfg) in
theorem sigexists_asks (h : Orders py .sigexists l signal sv o) :
    ∃ k, Asks py cfg sv o k (.hasSignal l (py.lower signal)) := by
  obtain ⟨k, c, args, htexts, hasks⟩ := orders_asks cfg h (by decide) (by decide)
  exact ⟨k, hasks _ (by rw [operationOf, htexts]; rfl)⟩

theorem asks_sigset (h : Asks py cfg sv o k (.addSignal l signal)) :
    ∃ signal', py.lower signal' = signal ∧ Orders py .sigset l signal' sv o := by
  obtain ⟨uuid, value, session, he, hk, hi⟩ := h
  obtain ⟨command, args, name, c, rfl, hname, hc, hop⟩ := intent_request hi
  generalize hverb : Verb.named (py.lower name) = verb at hop
  cases verb with
  | sigset =>
    obtain ⟨p, hp, hop⟩ := Option.map_eq_some_iff.mp hop
    obtain ⟨rfl, rfl⟩ := Op.addSignal.inj hop
    exact ⟨p.2, rfl, k, uuid, command, args, name, session, c, he, hk, hc, hname, hverb, hp⟩
  | aq | aqr | release | locked | find | sigexists | sigdel =>
    obtain ⟨_, -, hop⟩ := Option.map_eq_some_iff.mp hop
    cases hop
  | _ => cases hop

theorem asks_sigdel (h : Asks py cfg sv o k (.removeSignal l signal)) :
    ∃ signal', py.lower signal' = signal ∧ Orders py .sigdel l signal' sv o := by
  obtain ⟨uuid, value, session, he, hk, hi⟩ := h
  obtain ⟨command, args, name, c, rfl, hname, hc, hop⟩ := intent_request hi
  generalize hverb : Verb.named (py.lower name) = verb at hop
  cases verb with
  | sigdel =>
    obtain ⟨p, hp, hop⟩ := Option.map_eq_some_iff.mp hop
    obtain ⟨rfl, rfl⟩ := Op.removeSignal.inj hop
    exact ⟨p.2, rfl, k, uuid, command, args, name, session, c, he, hk, hc, hname, hverb, hp⟩
  | aq | aqr | release | locked | find | sigexists | sigset =>
    obtain ⟨_, -, hop⟩ := Option.map_eq_some_iff.mp hop
    cases hop
  | _ => cases hop

variable {r : Ref} {signals signals' : Option (Finset Signal)}

/-- What the entry of a lock says after an event that has not created it. -/
def Follows (py : Builtins) (l : LockId) (sv : Server) (o : Occurrence)
    (signals signals' : Option (Finset Signal)) : Prop :=
  ∀ signal, raised signals' (py.lower signal) ↔ OrdersAnyCase py .sigset l signal sv o ∨
    (¬ OrdersAnyCase py .sigdel l signal sv o ∧ raised signals (py.lower signal))

theorem follows_quiet (hadd : ∀ k signal, ¬ Asks py cfg sv o k (.addSignal l signal))
    (hremove : ∀ k signal, ¬ Asks py cfg sv o k (.removeSignal l signal)) :
    Follows py l sv o signals signals := by
  intro signal
  have hset : ¬ OrdersAnyCase py .sigset l signal sv o := by
    rintro ⟨signal', -, horder⟩
    obtain ⟨k, ha⟩ := sigset_asks cfg horder
    exact hadd k _ ha
  have hdel : ¬ OrdersAnyCase py .sigdel l signal sv o := by
    rintro ⟨signal', -, horder⟩
    obtain ⟨k, ha⟩ := sigdel_asks cfg horder
    exact hremove k _ ha
  simp [hset, hdel]

theorem follows_add (ha : Asks py cfg sv o k (.addSignal l signal)) :
    Follows py l sv o signals (add signal signals) := by
  obtain ⟨signal₀, rfl, horder⟩ := asks_sigset ha
  intro signal
  have hset : OrdersAnyCase py .sigset l signal sv o ↔ py.lower signal = py.lower signal₀ := by
    constructor
    · rintro ⟨signal', hcase, horder'⟩
      obtain ⟨k', ha'⟩ := sigset_asks cfg horder'
      exact hcase.symm.trans (Op.addSignal.inj (asks_unique ha' ha)).2
    · exact fun hcase => ⟨signal₀, hcase.symm, horder⟩
  have hdel : ¬ OrdersAnyCase py .sigdel l signal sv o := by
    rintro ⟨signal', -, horder'⟩
    obtain ⟨k', ha'⟩ := sigdel_asks cfg horder'
    cases asks_unique ha' ha
  rw [raised_add, hset]
  simp [hdel]

theorem follows_drop (ha : Asks py cfg sv o k (.removeSignal l signal)) :
    Follows py l sv o signals (drop signal signals) := by
  obtain ⟨signal₀, rfl, horder⟩ := asks_sigdel ha
  intro signal
  have hset : ¬ OrdersAnyCase py .sigset l signal sv o := by
    rintro ⟨signal', -, horder'⟩
    obtain ⟨k', ha'⟩ := sigset_asks cfg horder'
    cases asks_unique ha' ha
  have hdel : OrdersAnyCase py .sigdel l signal sv o ↔ py.lower signal = py.lower signal₀ := by
    constructor
    · rintro ⟨signal', hcase, horder'⟩
      obtain ⟨k', ha'⟩ := sigdel_asks cfg horder'
      exact hcase.symm.trans (Op.removeSignal.inj (asks_unique ha' ha)).2
    · exact fun hcase => ⟨signal₀, hcase.symm, horder⟩
  rw [raised_drop, hdel]
  simp [hset]

theorem entry_joined (s : InMemoryLockStorage) (c : ClientId) (restore : Bool) (peername : Address) :
    entry (joined s c restore peername) l = entry s l := by
  cases restore with
  | false => exact entry_congr rfl fun _ => rfl
  | true => exact (entry_congr rfl fun _ => rfl).trans (entry_markAll c none)

/-- An entry after an event is new and without signals, or it was there before
and has followed the commands of the event. -/
theorem event_entry (h : Sound sv) (hs : Steps py cfg sv o sv')
    (he : entry sv'.adaptor.store l = some (r, signals')) :
    (Creates py cfg l sv o sv' ∧ r = sv.adaptor.store.nextRef ∧ signals' = none) ∨
      ∃ signals, entry sv.adaptor.store l = some (r, signals) ∧ Follows py l sv o signals signals' := by
  have hquiet : Keeps sv.adaptor.store sv'.adaptor.store l → (∀ k op, ¬ Asks py cfg sv o k op) →
      ∃ signals, entry sv.adaptor.store l = some (r, signals) ∧ Follows py l sv o signals signals' := by
    rintro (hk | hk) hasks
    · exact ⟨signals', hk.symm.trans he,
        follows_quiet (fun k signal => hasks k _) fun k signal => hasks k _⟩
    · cases hk.symm.trans he
  have hother : ∀ event, o.event = event → (∀ k uuid value, event ≠ .command k uuid value) →
      ∀ k op, ¬ Asks py cfg sv o k op := by
    rintro event rfl hne k op ⟨uuid, value, -, hev, -⟩
    exact hne k uuid value hev
  have hidle : ∀ {k : ConnId} {uuid : ClientId} {value : List Arg} {session : Session},
      o.event = .command k uuid value → sv.connections.get? k = some session →
      (∀ op, intent py cfg session uuid value ≠ .operation op) → ∀ k op, ¬ Asks py cfg sv o k op := by
    rintro k uuid value session hev hk hi k' op ⟨_, _, _, hev', hk', hi'⟩
    cases hev.symm.trans hev'
    cases hk.symm.trans hk'
    exact hi op hi'
  cases step_change h hs with
  | connect peername hev => exact .inr (hquiet (.refl _ l) (hother _ hev fun _ _ _ => by simp))
  | lost k session hev => exact .inr (hquiet (.refl _ l) (hother _ hev fun _ _ _ => by simp))
  | lostLast k session c hev =>
    exact .inr (hquiet (.inl (entry_markAll c _)) (hother _ hev fun _ _ _ => by simp))
  | maintenance timeoutMs shuffle store clk hev =>
    obtain ⟨store', clk', hpass, hstore⟩ := maintenance_change h hs hev
    refine .inr (hquiet ?_ (hother _ hev fun _ _ _ => by simp))
    rw [hstore]
    exact sweepClients_entry _ _ hpass l
  | command k uuid value session t hev hw hk hserving hfresh ht hdoes =>
    cases hi : intent py cfg session uuid value with
    | nothing =>
      obtain ⟨hstore, -⟩ := quiet_effect h hs hev hk hi
      exact .inr (hquiet (.inl (by rw [hstore])) (hidle hev hk fun op => by simp [hi]))
    | conn c restore =>
      obtain ⟨session', -, hstore, -⟩ := joins_effect h hs ⟨uuid, value, session, hev, hk, hi⟩
      refine .inr (hquiet (.inl ?_) (hidle hev hk fun op => by simp [hi]))
      rw [hstore, entry_joined]
    | operation op =>
      have ha : Asks py cfg sv o k op := ⟨uuid, value, session, hev, hk, hi⟩
      obtain ⟨answer, clk, hexec, -, hans, -⟩ := asks_effect h hs ha
      cases exec_touches py.fnmatch h.rep hexec l with
      | keeps hkeeps hadd hremove =>
        obtain hkept | hgone := hkeeps
        · have hnoadd : ∀ k signal, ¬ Asks py cfg sv o k (.addSignal l signal) :=
            fun k' signal ha' => hadd signal (asks_unique ha ha')
          exact .inr ⟨signals', hkept.symm.trans he, follows_quiet hnoadd fun k' signal ha' =>
            hremove signal (asks_unique ha ha')⟩
        · cases hgone.symm.trans he
      | creates c reentrant hop hanswer hnew =>
        obtain ⟨rfl, rfl⟩ := Prod.mk.inj (Option.some_inj.mp (he.symm.trans hnew))
        subst hop
        obtain ⟨r', hr, hpair⟩ := Option.map_eq_some_iff.mp hnew
        obtain ⟨rfl, -⟩ := Prod.mk.inj hpair
        exact .inl ⟨⟨k, c, reentrant, ha, hans true (.inl hanswer), hr⟩, rfl, rfl⟩
      | adds signal hop hnew =>
        obtain ⟨p, hp, hpair⟩ := Option.map_eq_some_iff.mp (hnew.symm.trans he)
        obtain ⟨rfl, rfl⟩ := Prod.mk.inj hpair
        exact .inr ⟨p.2, hp, follows_add (hop ▸ ha)⟩
      | drops signal hop hnew =>
        obtain ⟨p, hp, hpair⟩ := Option.map_eq_some_iff.mp (hnew.symm.trans he)
        obtain ⟨rfl, rfl⟩ := Prod.mk.inj hpair
        exact .inr ⟨p.2, hp, follows_drop (hop ▸ ha)⟩

theorem creates_empty (h : Sound sv) (hs : Steps py cfg sv o sv') (hc : Creates py cfg l sv o sv')
    (signal : Signal) : sv'.adaptor.store.hasSignal l signal = .bool false := by
  obtain ⟨k, c, reentrant, ha, -, hr⟩ := hc
  have he : entry sv'.adaptor.store l = some (sv.adaptor.store.nextRef,
      (sv'.adaptor.store.objects sv.adaptor.store.nextRef).signals) := by
    rw [entry, hr, Option.map_some]
  obtain ⟨-, -, hnone⟩ | ⟨signals, hold, -⟩ := event_entry h hs he
  · rw [hnone] at he
    obtain ⟨b, hb, hiff⟩ := hasSignal_answer he signal
    rw [hb, Bool.eq_false_iff.mpr fun ht => not_raised_none signal (hiff.mp ht)]
  · obtain ⟨r, hold, hpair⟩ := Option.map_eq_some_iff.mp hold
    obtain ⟨rfl, -⟩ := Prod.mk.inj hpair
    exact absurd (h.rep.older l _ hold) (lt_irrefl _)

theorem signal_answered (h : Sound sv) (hs : Steps py cfg sv o sv')
    (he : entry sv.adaptor.store l = some (r, signals))
    (horder : Orders py .sigexists l signal sv o ∨ Orders py .sigdel l signal sv o) :
    ∃ b, Answers o b ∧ (b = true ↔ raised signals (py.lower signal)) := by
  obtain horder | horder := horder
  · obtain ⟨k, ha⟩ := sigexists_asks cfg horder
    obtain ⟨answer, clk, hexec, -, hans, -⟩ := asks_effect h hs ha
    obtain ⟨b, hb, hiff⟩ := hasSignal_answer he (py.lower signal)
    have hanswer := (Prod.mk.inj (Except.ok.inj hexec)).1
    rw [hb] at hanswer
    exact ⟨b, hans b (.inr hanswer.symm), hiff⟩
  · obtain ⟨k, ha⟩ := sigdel_asks cfg horder
    obtain ⟨answer, clk, hexec, -, hans, -⟩ := asks_effect h hs ha
    obtain ⟨b, hb, hiff⟩ := removeSignal_answer he (py.lower signal)
    have hanswer := (Prod.mk.inj (Except.ok.inj hexec)).1
    rw [hb] at hanswer
    exact ⟨b, hans b (.inr hanswer.symm), hiff⟩

variable (py cfg) in
def During (l : LockId) (r : Ref) (sv : Server) (o : Occurrence) (sv' : Server) : Prop :=
  Steps py cfg sv o sv' ∧ sv.adaptor.store.allLocks.get? l = some r ∧
    sv'.adaptor.store.allLocks.get? l = some r

/-- Signals belong to one holding of a lock: an entry has been created by an
acquire, and since then its signals are those that the commands have left. -/
theorem signals_of_holding {T : Time} {es : List Occurrence}
    (hrun : Run (Steps py cfg) (.start T) es sv) (l : LockId) :
    (∀ r, sv.adaptor.store.allLocks.get? l = some r →
      ∃ pre o post sv₁ sv₂, es = pre ++ o :: post ∧ Run (Steps py cfg) (.start T) pre sv₁ ∧
        Steps py cfg sv₁ o sv₂ ∧ Creates py cfg l sv₁ o sv₂ ∧ Run (During py cfg l r) sv₂ post sv ∧
        ∀ signal o' sv', Steps py cfg sv o' sv' →
          (Orders py .sigexists l signal sv o' ∨ Orders py .sigdel l signal sv o') →
          ∃ b, Answers o' b ∧ (b = true ↔ LatestIsSet py cfg l signal sv₂ post)) ∧
      ∀ o' sv', Steps py cfg sv o' sv' → Creates py cfg l sv o' sv' →
        ∀ signal, sv'.adaptor.store.hasSignal l signal = .bool false := by
  have hkeep := hrun.keeping (sound_start T) fun v e w hv hs => sound_step hv hs
  have hsound : Sound sv := sound_run hrun (sound_start T)
  refine ⟨fun r hr => ?_, fun o' sv' hs hc => creates_empty hsound hs hc⟩
  have hempty : ¬ (Server.start T).adaptor.store.allLocks.get? l = some r := fun he => by cases he
  have hentry : ∀ {v : Server}, v.adaptor.store.allLocks.get? l = some r →
      entry v.adaptor.store l = some (r, (v.adaptor.store.objects r).signals) := by
    intro v hv
    rw [entry, hv, Option.map_some]
  have hback : ∀ {v : Server} {signals}, entry v.adaptor.store l = some (r, signals) →
      v.adaptor.store.allLocks.get? l = some r := by
    intro v signals hv
    obtain ⟨r', hr', hpair⟩ := Option.map_eq_some_iff.mp hv
    rw [hr', (Prod.mk.inj hpair).1]
  have hdet : ∀ v e w w', Steps py cfg v e w → Steps py cfg v e w' → w = w' :=
    fun _ _ _ _ => steps_unique
  -- the entry has come to be there for the last time at `o`
  obtain ⟨pre, o, post, sv₁, sv₂, rfl, hpre, hnot, ⟨hs, h₁, h₂⟩, hnew, hpost⟩ :=
    hkeep.became (P := fun v => v.adaptor.store.allLocks.get? l = some r) hempty hr
  obtain ⟨hcreates, -, hnone⟩ | ⟨signals, hold, -⟩ := event_entry h₁ hs (hentry hnew)
  · refine ⟨pre, o, post, sv₁, sv₂, rfl, hpre.mono fun _ _ _ hv => hv.1, hs, hcreates,
      hpost.mono fun _ _ _ hv => ⟨hv.1.1, hv.2⟩, fun signal o' sv' hs' horder => ?_⟩
    obtain ⟨b, hans, hiff⟩ := signal_answered hsound hs' (hentry hr) horder
    refine ⟨b, hans, hiff.trans ?_⟩
    refine LatestUp.iff (P := fun v => raised (v.adaptor.store.objects r).signals (py.lower signal))
      hdet (fun _ _ _ hv => hv.1.1) hpost ?_ ?_
    · rw [hnone]
      exact not_raised_none _
    · rintro v e w ⟨⟨hstep, hv, -⟩, hrv, hrw⟩
      obtain ⟨-, hfresh, -⟩ | ⟨signals, hold, hfollows⟩ := event_entry hv hstep (hentry hrw)
      · exact absurd (hfresh ▸ hv.rep.older l r hrv) (lt_irrefl _)
      · have hsame := (Prod.mk.inj (Option.some_inj.mp ((hentry hrv).symm.trans hold))).2
        rw [hsame]
        exact hfollows signal
  · exact absurd (hback hold) hnot

theorem signals_of_holding_set : ∃ es sv, es.length = 4 ∧ ∃ pre o post sv₁ sv₂, es = pre ++ o :: post ∧
    Creates ascii plainConfig "l" sv₁ o sv₂ ∧ Run (During ascii plainConfig "l" 0) sv₂ post sv := by
  have heval : ((allAt 0 [.connect ⟨"10.0.0.1", 40001⟩, .command 0 bob (words ["CONN", "alice"]),
      .command 0 bob (words ["AQ", "l"]), .command 0 bob (words ["SIGSET", "l", "Cancel"])]).foldlM
      (Server.next ascii plainConfig) (.start 5)).map (fun sv => sv.adaptor.store.allLocks.get? "l") =
        some (some 0) := by decide +kernel
  obtain ⟨sv, hsv, hentry⟩ := Option.map_eq_some_iff.mp heval
  obtain ⟨es, hrun, hplays⟩ := play_events hsv
  obtain ⟨pre, o, post, sv₁, sv₂, hsplit, -, -, hcreates, hduring, -⟩ :=
    (signals_of_holding hrun "l").1 0 hentry
  exact ⟨es, sv, hplays.length_eq.symm, pre, o, post, sv₁, sv₂, hsplit, hcreates, hduring⟩

end Livelock.Signals
