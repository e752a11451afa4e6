import Livelock.ServerLease
import Livelock.Ascii

namespace Livelock.GracePeriod

open Livelock.Lib Livelock.Shared Livelock.MemoryStorage Livelock.StorageInvariant
open Livelock.StorageLease Livelock.StorageRun Livelock.Server Livelock.CommandSpec
open Livelock.ServerRun Livelock.ServerLease Livelock.Ascii
open Livelock.MemoryStorage.InMemoryLockStorage (empty)

variable (py : Builtins) (cfg : Config)

/-- The event is the loss of the last known connection of `c`. -/
def LosesLast (sv : Server) (o : Occurrence) (c : ClientId) : Prop :=
  ∃ k, o.event = .lost k ∧ idOf sv k = some c ∧ sv.adaptor.getClientLastAddress c = peerOf sv k

/-- The event is not of `c`: no command on a connection of it, no loss of one,
and no `CONN` with its id. -/
def Away (c : ClientId) (sv : Server) (o : Occurrence) : Prop :=
  (∀ k, idOf sv k = some c → o.event ≠ .lost k ∧ ∀ uuid value, o.event ≠ .command k uuid value) ∧
    ∀ k restore, ¬ Joins py cfg sv o k c restore

def Wanted (l : LockId) (sv : Server) (o : Occurrence) : Prop :=
  ∃ k c reentrant, Asks py cfg sv o k (.acquire c l reentrant)

/-- After the loss at `t` nobody else gets the lock before `t + T`. -/
def RefusedBefore (T : Time) (past : List Occurrence) (t : Time) (sv : Server) (c : ClientId)
    (l : LockId) : Prop :=
  ∀ es sv₁ o sv₂ k c' reentrant, Run (Where (Steps py cfg) (Away py cfg c)) sv es sv₁ →
    Steps py cfg sv₁ o sv₂ → Clocked (past ++ (es ++ [o])) →
    Asks py cfg sv₁ o k (.acquire c' l reentrant) → c' ≠ c → o.reading 0 < t + T → Answers o false

/-- After the loss at `t` the first who asks from `t + T` on gets the lock. -/
def GrantedFrom (T : Time) (past : List Occurrence) (t : Time) (sv : Server) (c : ClientId)
    (l : LockId) : Prop :=
  ∀ es sv₁ o sv₂ k c' reentrant,
    Run (Where (Steps py cfg) fun sv e =>
      Away py cfg c sv e ∧ (t + T ≤ e.reading 0 → ¬ Wanted py cfg l sv e)) sv es sv₁ →
    Steps py cfg sv₁ o sv₂ → Clocked (past ++ (es ++ [o])) →
    Asks py cfg sv₁ o k (.acquire c' l reentrant) → c' ≠ c → t + T ≤ o.reading 0 → Answers o true

/-- A server started with the grace period `T` applies it to every lock of
every client that loses its last known connection. -/
def Applies (T : Time) : Prop :=
  ∀ past sv o sv' c l m, Run (Steps py cfg) (.start T) past sv → Steps py cfg sv o sv' →
    Clocked (past ++ [o]) → LosesLast sv o c → leaseOf sv l = some ⟨c, m⟩ →
    RefusedBefore py cfg T (past ++ [o]) (o.reading 0) sv' c l ∧
      GrantedFrom py cfg T (past ++ [o]) (o.reading 0) sv' c l

variable {py cfg} {sv sv' : Server} {o : Occurrence} {k : ConnId} {c : ClientId} {l : LockId}
  {d T : Time}

theorem away_acts (h : Sound sv) (hs : Steps py cfg sv o sv') (haway : Away py cfg c sv o)
    {act : Lease.Act ClientId Time} (hcause : Cause py cfg sv o l act) :
    (∀ d', act ≠ .suspend c d') ∧ act ≠ .resume c ∧ act ≠ .drop c := by
  refine ⟨?_, ?_, ?_⟩
  · rintro d' rfl
    cases hcause with
    | lost hdrop =>
      obtain ⟨he, session, hk, hid, -⟩ := hdrop
      have hc : idOf sv _ = some c := Option.bind_eq_some_iff.mpr ⟨session, hk, hid⟩
      exact (haway.1 _ hc).1 he
  · rintro rfl
    cases hcause with
    | joined hj => exact haway.2 _ _ hj
  · rintro rfl
    cases hcause with
    | released ha =>
      obtain ⟨_, _, -, -, -, ⟨c', hid, rfl⟩, -⟩ := asks_effect h hs ha
      obtain ⟨uuid, value, session, he, -⟩ := ha
      exact (haway.1 _ hid).2 uuid value he

/-- While its client is away, a marked lock stays as it is unless the clock was
read past the deadline. -/
theorem away_step (h : Sound sv) (hs : Steps py cfg sv o sv') (haway : Away py cfg c sv o)
    (hl : leaseOf sv l = some ⟨c, some d⟩) :
    leaseOf sv' l = some ⟨c, some d⟩ ∨ ∃ n, d ≤ o.reading n := by
  obtain ⟨act, hcause, hstep⟩ := event_lease h hs l
  obtain ⟨hsus, hres, hdrop⟩ := away_acts h hs haway hcause
  rw [hl] at hstep
  obtain ⟨hy, -⟩ | ⟨d', hact, -⟩ | ⟨hact, -⟩ | hact | ⟨d', now, hm, hle, hclears⟩ :=
    Lease.step_held hstep
  · exact .inl hy
  · exact absurd hact (hsus d')
  · exact absurd hact hres
  · exact absurd hact hdrop
  · cases hm
    obtain rfl | ⟨b, rfl⟩ := hclears
    · cases hcause with
      | found n | swept n => exact .inr ⟨n, hle⟩
    · cases hcause with
      | takenOver n => exact .inr ⟨n, hle⟩

theorem away_run {es : List Occurrence} (h : Sound sv) (hl : leaseOf sv l = some ⟨c, some d⟩)
    (hrun : Run (Where (Steps py cfg) (Away py cfg c)) sv es sv') :
    leaseOf sv' l = some ⟨c, some d⟩ ∨ ∃ e ∈ es, ∃ n, d ≤ e.reading n := by
  induction hrun with
  | nil => exact .inl hl
  | @snoc es e v w hrun hs ih =>
    obtain hv | ⟨e', he', hread⟩ := ih
    · have hsound := sound_run hrun.of_where h
      exact (away_step hsound hs.1 hs.2 hv).imp_right fun hread => ⟨e, by simp, hread⟩
    · exact .inr ⟨e', by simp [he'], hread⟩

theorem unwanted_step (h : Sound sv) (hs : Steps py cfg sv o sv') (haway : Away py cfg c sv o)
    (hwant : d ≤ o.reading 0 → ¬ Wanted py cfg l sv o) (hl : leaseOf sv l = some ⟨c, some d⟩) :
    leaseOf sv' l = some ⟨c, some d⟩ ∨ leaseOf sv' l = none := by
  by_cases hasked : Wanted py cfg l sv o
  · -- whoever asks does so before the deadline
    obtain ⟨j, b, r, ha⟩ := hasked
    obtain ⟨_, _, -, -, -, hkept⟩ | ⟨hfree, -⟩ := asks_acquire h hs ha
    · exact .inl (hkept.trans hl)
    · obtain hnone | ⟨_, d', hlease, -, hle⟩ := hfree
      · cases hl.symm.trans hnone
      · cases hl.symm.trans hlease
        exact absurd ⟨j, b, r, ha⟩ (hwant hle)
  · obtain ⟨act, hcause, hstep⟩ := event_lease h hs l
    obtain ⟨hsus, hres, -⟩ := away_acts h hs haway hcause
    rw [hl] at hstep
    apply Lease.step_unclaimed hstep hsus hres
    rintro now b rfl
    cases hcause with
    | takenOver _ ha => exact hasked ⟨_, _, _, ha⟩

theorem free_step (h : Sound sv) (hs : Steps py cfg sv o sv') (hwant : ¬ Wanted py cfg l sv o)
    (hl : leaseOf sv l = none) : leaseOf sv' l = none := by
  obtain ⟨act, hcause, hstep⟩ := event_lease h hs l
  rw [hl] at hstep
  obtain hnone | ⟨b, rfl, -⟩ := Lease.step_free hstep
  · exact hnone
  · cases hcause with
    | granted ha => exact absurd ⟨_, _, _, ha⟩ hwant

theorem unwanted_run {es : List Occurrence} (h : Sound sv) (hl : leaseOf sv l = some ⟨c, some d⟩)
    (hrun : Run (Where (Steps py cfg) fun sv e =>
      Away py cfg c sv e ∧ (d ≤ e.reading 0 → ¬ Wanted py cfg l sv e)) sv es sv')
    (hclk : es.Pairwise fun o o' => ∀ n, o.reading n ≤ o'.reading 0) :
    leaseOf sv' l = some ⟨c, some d⟩ ∨ leaseOf sv' l = none := by
  induction hrun with
  | nil => exact .inl hl
  | @snoc es e v w hrun hs ih =>
    have hsound := sound_run hrun.of_where h
    obtain ⟨hpast, -, hlast⟩ := List.pairwise_append.mp hclk
    obtain ⟨hsteps, haway, hwant⟩ := hs
    obtain hv | hv := ih hpast
    · exact unwanted_step hsound hsteps haway hwant hv
    · -- the lock was freed by a reading past the deadline, and the clock does not go back
      have hrun' : Run (Where (Steps py cfg) (Away py cfg c)) sv es v :=
        hrun.mono fun _ _ _ hs => ⟨hs.1, hs.2.1⟩
      obtain hheld | ⟨e', he', n, hread⟩ := away_run h hl hrun'
      · cases hv.symm.trans hheld
      · have hle : d ≤ e.reading 0 := hread.trans (hlast e' he' e (by simp) n)
        exact .inr (free_step hsound hsteps (hwant hle) hv)

/-- The grace period that is really applied, whatever the server was started
with. -/
theorem default_applies (hdefault : T = StorageAdaptor.defaultReleaseAllTimeout) : Applies py cfg T := by
  subst hdefault
  intro past sv o sv' c l m hpast hs hclk hlost hl
  have h := sound_run hpast (sound_start _)
  have h' := sound_step h hs
  obtain ⟨k, he, hid, hlast⟩ := hlost
  have hdrop : Drops sv o k c := (lost_cases he hid).resolve_right fun hother => hother.2 hlast
  have hl' : leaseOf sv' l = some ⟨c, some (o.reading 0 + StorageAdaptor.defaultReleaseAllTimeout)⟩ := by
    rw [drops_effect h hs hdrop, hl, Lease.stamp_self]
  have hpos : 0 < o.reading 0 + StorageAdaptor.defaultReleaseAllTimeout := by
    have hdefault : (0 : Time) < StorageAdaptor.defaultReleaseAllTimeout := by decide +kernel
    exact add_pos_of_nonneg_of_pos (hclk.epoch o (by simp)) hdefault
  constructor
  · intro es sv₁ o₁ sv₂ j c' r hrun hs₁ hclk₁ ha hc hbefore
    have h₁ := sound_run hrun.of_where h'
    obtain ⟨-, hforward, -⟩ := List.pairwise_append.mp hclk₁.forward
    obtain ⟨-, -, hlate⟩ := List.pairwise_append.mp hforward
    obtain hheld | ⟨e, he, n, hread⟩ := away_run h' hl' hrun
    · obtain ⟨a, m', hl₁, -, hans, -⟩ | ⟨hfree, -⟩ := asks_acquire h₁ hs₁ ha
      · cases hheld.symm.trans hl₁
        have hno : (r && decide (c = c')) = false := by simp [Ne.symm hc]
        rw [hno] at hans
        exact hans
      · obtain hnone | ⟨_, d', hlease, -, hle⟩ := hfree
        · cases hheld.symm.trans hnone
        · cases hheld.symm.trans hlease
          exact absurd hbefore (not_lt.mpr hle)
    · exact absurd hbefore (not_lt.mpr (hread.trans (hlate e he o₁ (by simp) n)))
  · intro es sv₁ o₁ sv₂ j c' r hrun hs₁ hclk₁ ha _ hafter
    have h₁ := sound_run hrun.of_where h'
    obtain ⟨-, hforward, -⟩ := List.pairwise_append.mp hclk₁.forward
    obtain ⟨hes, -, -⟩ := List.pairwise_append.mp hforward
    have hfree : leaseOf sv₁ l = none ∨ Overdue (o₁.reading 0) (leaseOf sv₁ l) := by
      obtain hheld | hnone := unwanted_run h' hl' hrun hes
      · exact .inr ⟨c, _, hheld, hpos.ne', hafter⟩
      · exact .inl hnone
    obtain ⟨a, m', hl₁, hnot, -⟩ | ⟨-, hans, -⟩ := asks_acquire h₁ hs₁ ha
    · obtain hnone | hover := hfree
      · cases hl₁.symm.trans hnone
      · exact absurd hover hnot
    · exact hans

theorem acquire_free {s : InMemoryLockStorage} (h : Rep s) (hl : lease s l = none) (clk : Clock)
    (c : ClientId) (reentrant : Bool) :
    s.acquire clk c l reentrant = .ok (true, s.createLock clk c l, clk.tick) := by
  have hr : s.allLocks.get? l = none := (lease_none_entry h).mp hl
  have hc : s.locksToClient.get? l = none := (lease_none h).mp hl
  simp [InMemoryLockStorage.acquire, InMemoryLockStorage.dropExpired, hr, hc, bind, Except.bind]

variable (py cfg) in
theorem loss_run (T : Time) : ∃ past sv o sv', Run (Steps py cfg) (.start T) past sv ∧
    Steps py cfg sv o sv' ∧ LosesLast sv o alice ∧ leaseOf sv "l" = some ⟨alice, none⟩ ∧
    (∀ e ∈ past ++ [o], e.reading = fun _ => 0) ∧ sv'.exited = false ∧ Serving sv' 1 ∧
      idOf sv' 1 = some bob := by
  let now : Nat → Time := fun _ => 0
  obtain ⟨sv₂, hrun₂, hlive₂, hserving₂, hserving₂', hlease₂⟩ : ∃ sv₂,
      Run (Steps py cfg) (.start T) [⟨.connect ⟨"10.0.0.1", 40001⟩, now, []⟩,
        ⟨.connect ⟨"10.0.0.1", 40002⟩, now, []⟩] sv₂ ∧ sv₂.exited = false ∧ Serving sv₂ 0 ∧
        Serving sv₂ 1 ∧ leaseOf sv₂ "l" = none :=
    ⟨_, .cons rfl (.single rfl), rfl, ⟨_, rfl, rfl⟩, ⟨_, rfl, rfl⟩, rfl⟩
  have h₂ := sound_run hrun₂ (sound_start T)
  -- Alice and Bob take one connection each
  obtain ⟨e₃, w₃, sv₃, hs₃, hj₃⟩ := can_join py cfg hlive₂ hserving₂ alice now
  obtain ⟨hlive₃, -, hserving₃⟩ := joins_serving h₂ hs₃ hj₃
  obtain ⟨-, -, -, hids₃⟩ := joins_effect h₂ hs₃ hj₃
  have h₃ := sound_step h₂ hs₃
  obtain ⟨e₄, w₄, sv₄, hs₄, hj₄⟩ := can_join py cfg hlive₃ (hserving₃ 1 hserving₂') bob now
  obtain ⟨hlive₄, hserving₄', hserving₄⟩ := joins_serving h₃ hs₄ hj₄
  obtain ⟨-, -, -, hids₄⟩ := joins_effect h₃ hs₄ hj₄
  have h₄ := sound_step h₃ hs₄
  have halice₄ : idOf sv₄ 0 = some alice := by rw [hids₄, if_neg (by decide), hids₃, if_pos rfl]
  have hbob₄ : idOf sv₄ 1 = some bob := by rw [hids₄, if_pos rfl]
  have haddress₄ : sv₄.adaptor.getClientLastAddress alice = peerOf sv₄ 0 := by
    have hpeer₃ := event_peer h₂ hs₃ (j := 0) (by rw [hids₃, if_pos rfl]; nofun)
    have hpeer₄ := event_peer h₃ hs₄ (j := 0) (by rw [halice₄]; nofun)
    rw [joins_address h₃ hs₄ hj₄, if_neg (by decide), joins_address h₂ hs₃ hj₃, if_pos rfl,
      hpeer₄, hpeer₃]
  have hlease₄ : leaseOf sv₄ "l" = none := by
    rw [joins_lease h₃ hs₄ hj₄, joins_lease h₂ hs₃ hj₃, hlease₂]
    rfl
  -- Alice locks
  obtain ⟨e₅, w₅, sv₅, hs₅, ha₅⟩ := can_acquire hlive₄ (hserving₄ 0 (hserving₃ 0 hserving₂)) halice₄
    (by decide : "l" ≠ "") false now
  obtain ⟨hlive₅, hserving₅, hother₅⟩ := asks_serving h₄ hs₅ ha₅
  obtain ⟨answer, clk, hexec, -, -, -, hids₅⟩ := asks_effect h₄ hs₅ ha₅
  simp only [exec, acquire_free h₄.rep hlease₄] at hexec
  have hstore₅ : sv₄.adaptor.store.createLock _ alice "l" = sv₅.adaptor.store :=
    (Prod.mk.inj (Prod.mk.inj (Except.ok.inj hexec)).2).1
  have h₅ := sound_step h₄ hs₅
  have hlease₅ : leaseOf sv₅ "l" = some ⟨alice, none⟩ := by
    rw [leaseOf, ← hstore₅, lease_createLock h₄.rep, if_pos rfl]
  have haddress₅ : sv₅.adaptor.getClientLastAddress alice = peerOf sv₅ 0 := by
    have hpeer₅ := event_peer h₄ hs₅ (j := 0) (by rw [hids₅, halice₄]; nofun)
    rw [hpeer₅, ← haddress₄, StorageAdaptor.getClientLastAddress, ← hstore₅]
    rfl
  -- and is gone
  obtain ⟨sv₆, hs₆, hlive₆, hother₆⟩ := can_lose py cfg hlive₅ hserving₅ now
  have hbob₆ : idOf sv₆ 1 = some bob := by
    cases event_moves h₅ hs₆ with
    | joined _ _ _ hj =>
      obtain ⟨_, _, _, he, -⟩ := hj
      cases he
    | lost k he hids =>
      cases he
      rw [hids, if_neg (by decide), hids₅, hbob₄]
    | stays _ hno => exact absurd rfl (hno 0)
  refine ⟨_, sv₅, _, sv₆, ((hrun₂.snoc hs₃).snoc hs₄).snoc hs₅, hs₆, ⟨0, rfl, ?_, haddress₅⟩, hlease₅, ?_,
    hlive₆, hother₆ 1 (by decide) (hother₅ 1 hserving₄'), hbob₆⟩
  · rw [hids₅, halice₄]
  · intro e he
    simp only [List.cons_append, List.nil_append, List.mem_cons, List.not_mem_nil, or_false] at he
    obtain rfl | rfl | rfl | rfl | rfl | rfl := he <;> rfl

theorem applies_only {T : Time} (h : Applies py cfg T) : T = StorageAdaptor.defaultReleaseAllTimeout := by
  obtain ⟨past, sv, o, sv', hpast, hs, hlost, hl, hread, hlive, hserving, hid⟩ := loss_run py cfg T
  have hsound := sound_run hpast (sound_start T)
  have hsound' := sound_step hsound hs
  have ho : o.reading = fun _ => 0 := hread o (by simp)
  obtain ⟨hrefused, hgranted⟩ :=
    h past sv o sv' alice "l" none hpast hs (clocked_still le_rfl hread) hlost hl
  have hl' : leaseOf sv' "l" = some ⟨alice, some StorageAdaptor.defaultReleaseAllTimeout⟩ := by
    obtain ⟨k, he, hk, hlast⟩ := hlost
    have hdrop : Drops sv o k alice := (lost_cases he hk).resolve_right fun hother => hother.2 hlast
    rw [drops_effect hsound hs hdrop, hl, Lease.stamp_self, ho, zero_add]
  have hdefault : (0 : Time) < StorageAdaptor.defaultReleaseAllTimeout := by decide +kernel
  -- Bob asks at any time he likes, and the answer tells the deadline
  have hask : ∀ now : Time, 0 ≤ now → ∃ event writes sv₁,
      Steps py cfg sv' ⟨event, fun _ => now, writes⟩ sv₁ ∧
      Asks py cfg sv' ⟨event, fun _ => now, writes⟩ 1 (.acquire bob "l" false) ∧
      Clocked ((past ++ [o]) ++ ([] ++ [⟨event, fun _ => now, writes⟩])) ∧
      Answers ⟨event, fun _ => now, writes⟩ (decide (StorageAdaptor.defaultReleaseAllTimeout ≤ now)) := by
    intro now hnow
    obtain ⟨event, writes, sv₁, hs₁, ha⟩ :=
      can_acquire hlive hserving hid (by decide : "l" ≠ "") false fun _ => now
    refine ⟨event, writes, sv₁, hs₁, ha, clocked_snoc (clocked_still le_rfl hread) ?_ hnow event writes, ?_⟩
    · intro e he n
      rw [hread e he]
      exact hnow
    · obtain ⟨a, m, hl₁, hnot, hans, -⟩ | ⟨hfree, hans, -⟩ := asks_acquire hsound' hs₁ ha
      · have hlate : ¬ StorageAdaptor.defaultReleaseAllTimeout ≤ now := fun hle =>
          hnot ⟨alice, _, hl', hdefault.ne', hle⟩
        rw [decide_eq_false hlate]
        exact hans
      · obtain hnone | ⟨_, d, hlease, -, hle⟩ := hfree
        · cases hl'.symm.trans hnone
        · cases hl'.symm.trans hlease
          have hle' : StorageAdaptor.defaultReleaseAllTimeout ≤ now := hle
          rw [decide_eq_true hle']
          exact hans
  obtain hlt | heq | hgt := lt_trichotomy T StorageAdaptor.defaultReleaseAllTimeout
  · obtain ⟨event, writes, sv₁, hs₁, ha, hclk, hans⟩ := hask (max T 0) (le_max_right _ _)
    have hgrant := hgranted [] sv' _ sv₁ 1 bob false .nil hs₁ hclk ha (by decide) (by
      rw [ho, zero_add]
      exact le_max_left _ _)
    rw [decide_eq_false (not_le.mpr (max_lt hlt hdefault))] at hans
    cases answers_unique hgrant hans
  · exact heq
  · obtain ⟨event, writes, sv₁, hs₁, ha, hclk, hans⟩ := hask _ hdefault.le
    have hrefuse := hrefused [] sv' _ sv₁ 1 bob false .nil hs₁ hclk ha (by decide) (by
      rw [ho, zero_add]
      exact hgt)
    rw [decide_eq_true le_rfl] at hans
    cases answers_unique hrefuse hans

/-- The grace period of the configuration is applied exactly when it is the
default one, which the adaptor hands on in its place. -/
theorem grace_period {T : Time} :
    Applies py cfg T ↔ T = StorageAdaptor.defaultReleaseAllTimeout :=
  ⟨applies_only, default_applies⟩

/-- A server that was asked to wait for a minute. -/
theorem grace_period_ignored : ¬ Applies ascii plainConfig 60 := by
  intro h
  have hsixty : (60 : Time) ≠ StorageAdaptor.defaultReleaseAllTimeout := by decide +kernel
  exact hsixty (applies_only h)

end Livelock.GracePeriod
