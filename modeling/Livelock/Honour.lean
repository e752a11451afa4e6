import Livelock.ServerLease
import Livelock.Ascii

namespace Livelock.Honour

open Livelock.Lib Livelock.Shared Livelock.MemoryStorage Livelock.StorageLease Livelock.StorageRun
open Livelock.Server Livelock.CommandSpec Livelock.ServerRun Livelock.ServerLease Livelock.Ascii

variable (py : Builtins) (cfg : Config)

/-- The event is neither a successful release of `l` by `c` nor the loss of a
connection of `c`. -/
def Keeps (c : ClientId) (l : LockId) (sv : Server) (o : Occurrence) : Prop :=
  (∀ k, Asks py cfg sv o k (.release c l) → ¬ Answers o true) ∧
    ∀ k, o.event = .lost k → idOf sv k ≠ some c

/-- The event tells somebody that `c` does not hold `l`. -/
def Denies (c : ClientId) (l : LockId) (sv : Server) (o : Occurrence) : Prop :=
  (∃ k, Asks py cfg sv o k (.locked l) ∧ Answers o false) ∨
    ∃ k c' reentrant, c' ≠ c ∧ Asks py cfg sv o k (.acquire c' l reentrant) ∧ Answers o true

/-- However the server goes on after `past`, nobody is told that `c` does not
hold `l` before `c` releases it or a connection of `c` is lost. -/
def Honoured (past : List Occurrence) (sv : Server) (c : ClientId) (l : LockId) : Prop :=
  ∀ es sv₁ o sv₂, Run (Where (Steps py cfg) (Keeps py cfg c l)) sv es sv₁ → Steps py cfg sv₁ o sv₂ →
    Clocked (past ++ es ++ [o]) → ¬ Denies py cfg c l sv₁ o

variable {py cfg} {sv sv' : Server} {o : Occurrence} {k : ConnId} {c : ClientId} {l : LockId}

theorem kept_step (h : Sound sv) (hs : Steps py cfg sv o sv') (hk : Keeps py cfg c l sv o)
    (hl : leaseOf sv l = some ⟨c, none⟩) : leaseOf sv' l = some ⟨c, none⟩ := by
  obtain hy | ⟨k, ha, hans⟩ | ⟨k, he, session, hk', hc, -⟩ := unmarked_step h hs hl
  · exact hy
  · exact absurd hans (hk.1 k ha)
  · exact absurd (by rw [idOf, hk']; exact hc) (hk.2 k he)

/-- Nobody is told that a client does not hold its unmarked lock. -/
theorem not_denied (h : Sound sv) (hs : Steps py cfg sv o sv') (hl : leaseOf sv l = some ⟨c, none⟩) :
    ¬ Denies py cfg c l sv o := by
  have hnot : ¬ Overdue (o.reading 0) (leaseOf sv l) := by
    rw [hl]
    rintro ⟨_, _, he, -⟩
    cases he
  rintro (⟨k, ha, hans⟩ | ⟨k, c', reentrant, hc, ha, hans⟩)
  · obtain ⟨hov, -⟩ | ⟨-, hans'⟩ := asks_locked h hs ha
    · exact hnot hov
    · rw [hl] at hans'
      exact absurd (answers_unique hans hans') (by simp)
  · obtain ⟨a, m, hl', -, hans', -⟩ | ⟨hfree, -⟩ := asks_acquire h hs ha
    · cases hl.symm.trans hl'
      have htrue := answers_unique hans hans'
      rw [eq_comm, Bool.and_eq_true, decide_eq_true_eq] at htrue
      exact hc htrue.2.symm
    · obtain hnone | hov := hfree
      · cases hl.symm.trans hnone
      · exact hnot hov

theorem honoured_unmarked {past : List Occurrence} (h : Sound sv)
    (hl : leaseOf sv l = some ⟨c, none⟩) : Honoured py cfg past sv c l := by
  intro es sv₁ o sv₂ hrun hs _
  obtain ⟨hsound, hl₁⟩ : Sound sv₁ ∧ leaseOf sv₁ l = some ⟨c, none⟩ := by
    refine hrun.invariant (I := fun sv => Sound sv ∧ leaseOf sv l = some ⟨c, none⟩) ⟨h, hl⟩ ?_
    rintro v e w - ⟨hv, hlv⟩ ⟨hs, hk⟩
    exact ⟨sound_step hv hs, kept_step hv hs hk hlv⟩
  exact not_denied hsound hs hl₁

theorem not_honoured_marked {past : List Occurrence} {reentrant : Bool} {d : Time} (h : Sound sv)
    (hs : Steps py cfg sv o sv') (hclk : Clocked (past ++ [o]))
    (ha : Asks py cfg sv o k (.acquire c l reentrant)) (hd : 0 < d)
    (hl : leaseOf sv' l = some ⟨c, some d⟩) : ¬ Honoured py cfg (past ++ [o]) sv' c l := by
  intro hon
  have h' := sound_step h hs
  obtain ⟨hlive, hserving, -⟩ := asks_serving h hs ha
  obtain ⟨_, _, -, -, -, ⟨c', hid, -⟩, hids⟩ := asks_effect h hs ha
  have hid' : idOf sv' k = some c' := (hids k).trans hid
  obtain ⟨args, htext⟩ := asks_text ha
  have hverb : Verb.named (py.lower "LOCKED") = .locked :=
    named_lower py rfl (by decide +kernel)
  have hop : operationOf py c' .locked args = some (.locked l) := by
    simp only [operationOf, htext, Option.map_some]
  obtain ⟨now, hnow, hlater⟩ := clocked_later hclk d hd.le
  obtain ⟨event, writes, sv₂, hs₂, ha₂⟩ :=
    can_ask cfg hlive hserving hid' hverb (by decide) (by decide) hop fun _ => now
  have hover : Overdue now (leaseOf sv' l) := ⟨c, d, hl, hd.ne', hnow⟩
  have hans : Answers ⟨event, fun _ => now, writes⟩ false := by
    obtain ⟨-, hans⟩ | ⟨hnot, -⟩ := asks_locked h' hs₂ ha₂
    · exact hans
    · exact absurd hover hnot
  refine hon [] sv' _ sv₂ .nil hs₂ ?_ (.inl ⟨k, ha₂, hans⟩)
  rw [List.append_nil]
  exact hlater event writes

/-- A grant is honoured exactly when it did not find the lock held by the same
client under a deadline that is still running. -/
theorem grant_honoured {T : Time} {past : List Occurrence} {reentrant : Bool}
    (hpast : Run (Steps py cfg) (.start T) past sv) (hs : Steps py cfg sv o sv')
    (hclk : Clocked (past ++ [o])) (ha : Asks py cfg sv o k (.acquire c l reentrant))
    (hans : Answers o true) :
    Honoured py cfg (past ++ [o]) sv' c l ↔
      ¬ ∃ d, leaseOf sv l = some ⟨c, some d⟩ ∧ o.reading 0 < d := by
  have h := sound_run hpast (sound_start T)
  have hpos : Positive sv := positive_run hpast fun e he => hclk.epoch e (by simp [he])
  obtain ⟨a, m, hl, hnot, hans', hkept⟩ | ⟨hfree, -, hl'⟩ := asks_acquire h hs ha
  · have hown : a = c := by
      have htrue := answers_unique hans hans'
      rw [eq_comm, Bool.and_eq_true, decide_eq_true_eq] at htrue
      exact htrue.2
    subst hown
    cases m with
    | none =>
      refine iff_of_true (honoured_unmarked (sound_step h hs) (hkept.trans hl)) ?_
      rintro ⟨d, hd, -⟩
      cases hl.symm.trans hd
    | some d =>
      have hd : 0 < d := hpos l a d hl
      refine iff_of_false (not_honoured_marked h hs hclk ha hd (hkept.trans hl)) ?_
      refine not_not.mpr ⟨d, hl, lt_of_not_ge fun hle => hnot ⟨a, d, hl, hd.ne', hle⟩⟩
  · refine iff_of_true (honoured_unmarked (sound_step h hs) hl') ?_
    rintro ⟨d, hd, hlt⟩
    obtain hnone | ⟨_, d', hl, -, hle⟩ := hfree
    · cases hnone.symm.trans hd
    · cases hl.symm.trans hd
      exact absurd hle (not_le.mpr hlt)

def aliceAt (k : ConnId) (sv : Server) : Bool × Option (Bool × Option ClientId) ×
    Option (Lease ClientId Time) :=
  (sv.exited, (sv.connections.get? k).map fun s => (s.serving, s.clientId), leaseOf sv "l")

theorem alice_asks (reentrant : Bool) {x : Option (Lease ClientId Time)} {past : List Occurrence}
    (h : aliceAt k sv = (false, some (true, some alice), x))
    (hclk : ∀ o ∈ past, o.reading = fun _ => 0) :
    leaseOf sv "l" = x ∧ ∃ o sv', Steps ascii plainConfig sv o sv' ∧
      Asks ascii plainConfig sv o k (.acquire alice "l" reentrant) ∧ Clocked (past ++ [o]) ∧
        o.reading = fun _ => 0 := by
  obtain ⟨hlive, hsession, hlease⟩ : sv.exited = false ∧ (sv.connections.get? k).map
      (fun s => (s.serving, s.clientId)) = some (true, some alice) ∧ leaseOf sv "l" = x := by
    simpa [aliceAt] using h
  obtain ⟨session, hk, hs⟩ := Option.map_eq_some_iff.mp hsession
  obtain ⟨hserved, hc⟩ := Prod.mk.inj hs
  have hserving : Serving sv k := ⟨session, hk, hserved⟩
  have hid : idOf sv k = some alice := by rw [idOf, hk, Option.bind_some, hc]
  obtain ⟨event, writes, sv', hs, ha⟩ :=
    can_acquire hlive hserving hid (by decide : "l" ≠ "") reentrant fun _ => 0
  refine ⟨hlease, _, sv', hs, ha, clocked_still le_rfl fun o ho => ?_, rfl⟩
  obtain ho | ho := List.mem_append.mp ho
  · exact hclk o ho
  · rw [List.mem_singleton.mp ho]

theorem grant_honoured_fresh : ∃ past sv, Honoured ascii plainConfig past sv alice "l" := by
  have heval : ((allAt 0 [.connect ⟨"10.0.0.1", 40001⟩, .command 0 bob (words ["CONN", "alice"])]).foldlM
      (Server.next ascii plainConfig) (.start 5)).map (aliceAt 0) =
        some (false, some (true, some alice), none) := by decide +kernel
  obtain ⟨sv, hsv, hfacts⟩ := Option.map_eq_some_iff.mp heval
  obtain ⟨past, hpast, hclk⟩ := play_run hsv
  obtain ⟨hlease, o, sv', hs, ha, hclocked, -⟩ := alice_asks false hfacts hclk
  have hans : Answers o true := by
    obtain ⟨a, m, hl, -⟩ | ⟨-, hans, -⟩ := asks_acquire (sound_run hpast (sound_start 5)) hs ha
    · cases hlease.symm.trans hl
    · exact hans
  refine ⟨_, sv', (grant_honoured hpast hs hclocked ha hans).mpr ?_⟩
  rintro ⟨d, hl, -⟩
  cases hlease.symm.trans hl

/-- Alice is connected twice, the newer connection locks and is lost, and on
the older one `AQR` gives her the lock again, with its deadline running. -/
theorem grant_forgotten : ¬ ∀ past sv o sv' k reentrant,
    Run (Steps ascii plainConfig) (.start 5) past sv → Steps ascii plainConfig sv o sv' →
    Clocked (past ++ [o]) → Asks ascii plainConfig sv o k (.acquire alice "l" reentrant) →
    Answers o true → Honoured ascii plainConfig (past ++ [o]) sv' alice "l" := by
  intro h
  have heval : ((allAt 0 [.connect ⟨"10.0.0.1", 40001⟩, .command 0 bob (words ["CONN", "alice"]),
      .connect ⟨"10.0.0.1", 40002⟩, .command 1 bob (words ["CONN", "alice"]),
      .command 1 bob (words ["AQ", "l"]), .lost 1]).foldlM
      (Server.next ascii plainConfig) (.start 5)).map (aliceAt 0) =
        some (false, some (true, some alice), some ⟨alice, some 5⟩) := by decide +kernel
  obtain ⟨sv, hsv, hfacts⟩ := Option.map_eq_some_iff.mp heval
  obtain ⟨past, hpast, hclk⟩ := play_run hsv
  obtain ⟨hlease, o, sv', hs, ha, hclocked, hread⟩ := alice_asks true hfacts hclk
  have hsound := sound_run hpast (sound_start 5)
  obtain ⟨a, m, hl, -, hans, hkept⟩ | ⟨hfree, -⟩ := asks_acquire hsound hs ha
  · cases hlease.symm.trans hl
    have hpos : (0 : Time) < 5 := by decide +kernel
    exact not_honoured_marked hsound hs hclocked ha hpos (hkept.trans hlease)
      (h past sv o sv' 0 true hpast hs hclocked ha hans)
  · obtain hnone | ⟨_, d, hl, -, hd⟩ := hfree
    · cases hlease.symm.trans hnone
    · cases hlease.symm.trans hl
      rw [hread] at hd
      exact absurd hd (by decide +kernel)

end Livelock.Honour
