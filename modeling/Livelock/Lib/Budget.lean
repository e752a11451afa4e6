import Livelock.Lib.Prog
import Mathlib.Algebra.Order.Monoid.Canonical.Defs

namespace Livelock.Lib.Prog

variable {E : Type} {R : E → Type} {X α β W M : Type}

section

variable [AddCommMonoid M] [PartialOrder M]

/-- A triple whose program costs at most `n`, whether it ends or raises. -/
def Spends (act : W → (e : E) → R e → W → Prop) (env : W → W → Prop) (cost : W → M) (P : W → Prop)
    (p : Prog E R X α) (Q : α → W → Prop) (F : X → W → Prop) (n : M) : Prop :=
  ∀ w o w', P w → p.Exec act env w o w' → Outcome Q F o w' ∧ cost w' ≤ cost w + n

variable {act : W → (e : E) → R e → W → Prop} {env : W → W → Prop} {cost : W → M} {P P' : W → Prop}
  {p : Prog E R X α} {f : α → Prog E R X β} {h : X → Prog E R X α} {Q S : α → W → Prop}
  {Q' : β → W → Prop} {F F' : X → W → Prop} {m n : M}

theorem spends_ret {a : α} (hQ : ∀ w, P w → Q a w) : Spends act env cost P (.ret a) Q F 0 := by
  rintro w o w' hw ⟨rfl, rfl⟩
  exact ⟨hQ w' hw, (add_zero _).ge⟩

theorem spends_raise {x : X} (hF : ∀ w, P w → F x w) :
    Spends act env cost P (.raise x : Prog E R X α) Q F 0 := by
  rintro w o w' hw ⟨rfl, rfl⟩
  exact ⟨hF w' hw, (add_zero _).ge⟩

theorem spends_perform {e : E} {Q : R e → W → Prop} (henv : ∀ w w', ¬ env w w')
    (hact : ∀ w r w', P w → act w e r w' → Q r w' ∧ cost w' ≤ cost w + n) :
    Spends act env cost P (perform e) Q F n := by
  rintro w o w' hw ⟨w₁, r, w₂, hmove, hcall, rfl, rfl⟩
  obtain rfl | ⟨w₀, -, hstep⟩ := Relation.ReflTransGen.cases_tail hmove
  · exact hact _ r w' hw hcall
  · exact absurd hstep (henv w₀ w₁)

theorem spends_lift {o : Except X α} : Spends act env cost (Outcome Q F o) (lift o) Q F 0 := by
  cases o with
  | ok a => exact spends_ret fun _ hw => hw
  | error x => exact spends_raise fun _ hw => hw

theorem spends_pre (hp : Spends act env cost P p Q F n) (hP : ∀ w, P' w → P w) :
    Spends act env cost P' p Q F n := fun w o w' hw hexec => hp w o w' (hP w hw) hexec

theorem spends_post (hp : Spends act env cost P p S F' n) (hQ : ∀ a w, S a w → Q a w)
    (hF : ∀ x w, F' x w → F x w) : Spends act env cost P p Q F n := by
  intro w o w' hw hexec
  obtain ⟨ho, hn⟩ := hp w o w' hw hexec
  refine ⟨?_, hn⟩
  cases o with
  | ok a => exact hQ a w' ho
  | error x => exact hF x w' ho

theorem Spends.triple (hp : Spends act env cost P p Q F n) : Triple act env P p Q F :=
  fun w o w' hw hexec => (hp w o w' hw hexec).1

variable [IsOrderedAddMonoid M]

theorem spends_le (hp : Spends act env cost P p Q F m) (hle : m ≤ n) : Spends act env cost P p Q F n := by
  intro w o w' hw hexec
  obtain ⟨ho, hm⟩ := hp w o w' hw hexec
  exact ⟨ho, hm.trans (add_le_add_right hle _)⟩

variable [CanonicallyOrderedAdd M]

theorem spends_bind (hp : Spends act env cost P p S F m)
    (hf : ∀ a, Spends act env cost (S a) (f a) Q' F n) :
    Spends act env cost P (p >>= f) Q' F (m + n) := by
  intro w o w' hw hexec
  obtain ⟨a, w₁, hpa, hfa⟩ | ⟨x, hpx, rfl⟩ := exec_bind hexec
  · obtain ⟨hs, hm⟩ := hp w _ w₁ hw hpa
    obtain ⟨ho, hn⟩ := hf a w₁ o w' hs hfa
    refine ⟨ho, hn.trans ?_⟩
    rw [← add_assoc]
    exact add_le_add_left hm n
  · obtain ⟨ho, hm⟩ := hp w _ w' hw hpx
    refine ⟨ho, hm.trans ?_⟩
    rw [← add_assoc]
    exact le_self_add

theorem spends_handle (hp : Spends act env cost P p Q F' m)
    (hh : ∀ x, Spends act env cost (F' x) (h x) Q F n) :
    Spends act env cost P (p.handle h) Q F (m + n) := by
  intro w o w' hw hexec
  obtain ⟨a, hpa, rfl⟩ | ⟨x, w₁, hpx, hhx⟩ := exec_handle hexec
  · obtain ⟨ho, hm⟩ := hp w _ w' hw hpa
    refine ⟨ho, hm.trans ?_⟩
    rw [← add_assoc]
    exact le_self_add
  · obtain ⟨hf, hm⟩ := hp w _ w₁ hw hpx
    obtain ⟨ho, hn⟩ := hh x w₁ o w' hf hhx
    refine ⟨ho, hn.trans ?_⟩
    rw [← add_assoc]
    exact add_le_add_left hm n

end

section

variable {act : W → (e : E) → R e → W → Prop} {env : W → W → Prop} {P P' : W → Prop}
  {p q : Prog E R X α} {f g : α → Prog E R X β} {h h' : X → Prog E R X α} {Q S : α → W → Prop}
  {F F' : X → W → Prop} {w w₁ w' : W}

theorem exec_bind_ok {a : α} {o : Except X β} (hp : p.Exec act env w (.ok a) w₁)
    (hf : (f a).Exec act env w₁ o w') : (p.bind f).Exec act env w o w' := by
  induction p generalizing w with
  | ret b =>
    obtain ⟨hb, rfl⟩ := hp
    cases hb
    exact hf
  | raise x => cases hp.1
  | call e next ih =>
    obtain ⟨v, r, v', hmove, hcall, hrest⟩ := hp
    exact ⟨v, r, v', hmove, hcall, ih r hrest⟩

theorem exec_bind_error {x : X} (hp : p.Exec act env w (.error x) w') :
    (p.bind f).Exec act env w (.error x) w' := by
  induction p generalizing w with
  | ret b => cases hp.1
  | raise x' =>
    obtain ⟨hx, rfl⟩ := hp
    cases hx
    exact ⟨rfl, rfl⟩
  | call e next ih =>
    obtain ⟨v, r, v', hmove, hcall, hrest⟩ := hp
    exact ⟨v, r, v', hmove, hcall, ih r hrest⟩

theorem exec_handle_ok {a : α} (hp : p.Exec act env w (.ok a) w') :
    (p.handle h).Exec act env w (.ok a) w' := by
  induction p generalizing w with
  | ret b => exact hp
  | raise x => cases hp.1
  | call e next ih =>
    obtain ⟨v, r, v', hmove, hcall, hrest⟩ := hp
    exact ⟨v, r, v', hmove, hcall, ih r hrest⟩

theorem exec_handle_error {x : X} {o : Except X α} (hp : p.Exec act env w (.error x) w₁)
    (hh : (h x).Exec act env w₁ o w') : (p.handle h).Exec act env w o w' := by
  induction p generalizing w with
  | ret b => cases hp.1
  | raise x' =>
    obtain ⟨hx, rfl⟩ := hp
    cases hx
    exact hh
  | call e next ih =>
    obtain ⟨v, r, v', hmove, hcall, hrest⟩ := hp
    exact ⟨v, r, v', hmove, hcall, ih r hrest⟩

theorem run_exec {step : W → (e : E) → R e × W} (hstep : ∀ w e, act w e (step w e).1 (step w e).2)
    (p : Prog E R X α) (w : W) : p.Exec act env w (p.run step w).1 (p.run step w).2 := by
  induction p generalizing w with
  | ret a => exact ⟨rfl, rfl⟩
  | raise x => exact ⟨rfl, rfl⟩
  | call e next ih => exact ⟨w, (step w e).1, (step w e).2, .refl, hstep w e, ih _ _⟩

/-- From surroundings that meet `P` the two programs go on in the same ways. -/
def Agrees (act : W → (e : E) → R e → W → Prop) (env : W → W → Prop) (P : W → Prop)
    (p q : Prog E R X α) : Prop :=
  ∀ w o w', P w → (p.Exec act env w o w' ↔ q.Exec act env w o w')

theorem agrees_refl (p : Prog E R X α) : Agrees act env P p p := fun _ _ _ _ => Iff.rfl

theorem agrees_pre (hp : Agrees act env P p q) (hP : ∀ w, P' w → P w) : Agrees act env P' p q :=
  fun w o w' hw => hp w o w' (hP w hw)

theorem agrees_bind (hm : Triple act env P p S F) (hp : Agrees act env P p q)
    (hf : ∀ a, Agrees act env (S a) (f a) (g a)) : Agrees act env P (p >>= f) (q >>= g) := by
  intro w o w' hw
  constructor
  · intro hexec
    obtain ⟨a, w₁, hpa, hfa⟩ | ⟨x, hpx, rfl⟩ := exec_bind hexec
    · exact exec_bind_ok ((hp w _ w₁ hw).mp hpa) ((hf a w₁ o w' (hm w _ w₁ hw hpa)).mp hfa)
    · exact exec_bind_error ((hp w _ w' hw).mp hpx)
  · intro hexec
    obtain ⟨a, w₁, hqa, hga⟩ | ⟨x, hqx, rfl⟩ := exec_bind hexec
    · have hpa := (hp w _ w₁ hw).mpr hqa
      exact exec_bind_ok hpa ((hf a w₁ o w' (hm w _ w₁ hw hpa)).mpr hga)
    · exact exec_bind_error ((hp w _ w' hw).mpr hqx)

theorem agrees_handle (hm : Triple act env P p Q F') (hp : Agrees act env P p q)
    (hh : ∀ x, Agrees act env (F' x) (h x) (h' x)) : Agrees act env P (p.handle h) (q.handle h') := by
  intro w o w' hw
  constructor
  · intro hexec
    obtain ⟨a, hpa, rfl⟩ | ⟨x, w₁, hpx, hhx⟩ := exec_handle hexec
    · exact exec_handle_ok ((hp w _ w' hw).mp hpa)
    · exact exec_handle_error ((hp w _ w₁ hw).mp hpx) ((hh x w₁ o w' (hm w _ w₁ hw hpx)).mp hhx)
  · intro hexec
    obtain ⟨a, hqa, rfl⟩ | ⟨x, w₁, hqx, hhx⟩ := exec_handle hexec
    · exact exec_handle_ok ((hp w _ w' hw).mpr hqa)
    · have hpx := (hp w _ w₁ hw).mpr hqx
      exact exec_handle_error hpx ((hh x w₁ o w' (hm w _ w₁ hw hpx)).mpr hhx)

end

end Livelock.Lib.Prog
