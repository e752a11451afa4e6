import Mathlib.Logic.Relation

namespace Livelock.Lib

/-- A program that calls on its surroundings and can raise an exception. -/
inductive Prog (E : Type) (R : E → Type) (X α : Type)
  | ret (a : α)
  | raise (x : X)
  | call (e : E) (next : R e → Prog E R X α)

namespace Prog

variable {E : Type} {R : E → Type} {X α β W ι κ : Type}

def bind : Prog E R X α → (α → Prog E R X β) → Prog E R X β
  | .ret a, f => f a
  | .raise x, _ => .raise x
  | .call e next, f => .call e fun r => (next r).bind f

instance : Monad (Prog E R X) where
  pure := .ret
  bind := bind

def handle : Prog E R X α → (X → Prog E R X α) → Prog E R X α
  | .ret a, _ => .ret a
  | .raise x, h => h x
  | .call e next, h => .call e fun r => (next r).handle h

def perform (e : E) : Prog E R X (R e) := .call e .ret

def lift : Except X α → Prog E R X α
  | .ok a => .ret a
  | .error x => .raise x

/-- How a program can go on among surroundings that move at any time before
they are called on. -/
def Exec (act : W → (e : E) → R e → W → Prop) (env : W → W → Prop) :
    Prog E R X α → W → Except X α → W → Prop
  | .ret a, w, o, w' => o = .ok a ∧ w' = w
  | .raise x, w, o, w' => o = .error x ∧ w' = w
  | .call e next, w, o, w' => ∃ w₁ r w₂, Relation.ReflTransGen env w w₁ ∧ act w₁ e r w₂ ∧
      (next r).Exec act env w₂ o w'

def Stable (env : W → W → Prop) (P : W → Prop) : Prop := ∀ w w', env w w' → P w → P w'

def Outcome (Q : α → W → Prop) (F : X → W → Prop) : Except X α → W → Prop
  | .ok a, w => Q a w
  | .error x, w => F x w

/-- From surroundings that meet `P` a program that ends does so in `Q`, or with
an exception in `F`. -/
def Triple (act : W → (e : E) → R e → W → Prop) (env : W → W → Prop) (P : W → Prop)
    (p : Prog E R X α) (Q : α → W → Prop) (F : X → W → Prop) : Prop :=
  ∀ w o w', P w → p.Exec act env w o w' → Outcome Q F o w'

variable {act : W → (e : E) → R e → W → Prop} {env : W → W → Prop} {P P' : W → Prop}
  {p : Prog E R X α} {f : α → Prog E R X β} {h : X → Prog E R X α} {Q M : α → W → Prop}
  {Q' : β → W → Prop} {F F' : X → W → Prop} {w w' : W}

theorem Stable.star (hP : Stable env P) (hs : Relation.ReflTransGen env w w') (hw : P w) : P w' := by
  induction hs with
  | refl => exact hw
  | tail _ hstep ih => exact hP _ _ hstep ih

theorem exec_bind {o : Except X β} (hexec : (p.bind f).Exec act env w o w') :
    (∃ a w₁, p.Exec act env w (.ok a) w₁ ∧ (f a).Exec act env w₁ o w') ∨
      ∃ x, p.Exec act env w (.error x) w' ∧ o = .error x := by
  induction p generalizing w with
  | ret a => exact .inl ⟨a, w, ⟨rfl, rfl⟩, hexec⟩
  | raise x =>
    obtain ⟨ho, hw⟩ := hexec
    exact .inr ⟨x, ⟨rfl, hw⟩, ho⟩
  | call e next ih =>
    obtain ⟨w₁, r, w₂, hmove, hact, hrest⟩ := hexec
    obtain ⟨a, w₃, hp, hf⟩ | ⟨x, hp, ho⟩ := ih r hrest
    · exact .inl ⟨a, w₃, ⟨w₁, r, w₂, hmove, hact, hp⟩, hf⟩
    · exact .inr ⟨x, ⟨w₁, r, w₂, hmove, hact, hp⟩, ho⟩

theorem exec_handle {o : Except X α} (hexec : (p.handle h).Exec act env w o w') :
    (∃ a, p.Exec act env w (.ok a) w' ∧ o = .ok a) ∨
      ∃ x w₁, p.Exec act env w (.error x) w₁ ∧ (h x).Exec act env w₁ o w' := by
  induction p generalizing w with
  | ret a =>
    obtain ⟨ho, hw⟩ := hexec
    exact .inl ⟨a, ⟨rfl, hw⟩, ho⟩
  | raise x => exact .inr ⟨x, w, ⟨rfl, rfl⟩, hexec⟩
  | call e next ih =>
    obtain ⟨w₁, r, w₂, hmove, hact, hrest⟩ := hexec
    obtain ⟨a, hp, ho⟩ | ⟨x, w₃, hp, hh⟩ := ih r hrest
    · exact .inl ⟨a, ⟨w₁, r, w₂, hmove, hact, hp⟩, ho⟩
    · exact .inr ⟨x, w₃, ⟨w₁, r, w₂, hmove, hact, hp⟩, hh⟩

theorem triple_ret {a : α} (hQ : ∀ w, P w → Q a w) : Triple act env P (.ret a) Q F := by
  rintro w o w' hw ⟨rfl, rfl⟩
  exact hQ w' hw

theorem triple_raise {x : X} (hF : ∀ w, P w → F x w) :
    Triple act env P (.raise x : Prog E R X α) Q F := by
  rintro w o w' hw ⟨rfl, rfl⟩
  exact hF w' hw

theorem triple_bind (hp : Triple act env P p M F) (hf : ∀ a, Triple act env (M a) (f a) Q' F) :
    Triple act env P (p >>= f) Q' F := by
  intro w o w' hw hexec
  obtain ⟨a, w₁, hpa, hfa⟩ | ⟨x, hpx, rfl⟩ := exec_bind hexec
  · exact hf a w₁ o w' (hp w _ w₁ hw hpa) hfa
  · exact hp w _ w' hw hpx

theorem triple_handle (hp : Triple act env P p Q F') (hh : ∀ x, Triple act env (F' x) (h x) Q F) :
    Triple act env P (p.handle h) Q F := by
  intro w o w' hw hexec
  obtain ⟨a, hpa, rfl⟩ | ⟨x, w₁, hpx, hhx⟩ := exec_handle hexec
  · exact hp w _ w' hw hpa
  · exact hh x w₁ o w' (hp w _ w₁ hw hpx) hhx

/-- Before a call the surroundings may move, so that what is known of them has
to be stable. -/
theorem triple_perform {e : E} {Q : R e → W → Prop} (hP : Stable env P)
    (hact : ∀ w r w', P w → act w e r w' → Q r w') : Triple act env P (perform e) Q F := by
  rintro w o w' hw ⟨w₁, r, w₂, hmove, hcall, rfl, rfl⟩
  exact hact w₁ r w' (hP.star hmove hw) hcall

theorem triple_lift {o : Except X α} : Triple act env (Outcome Q F o) (lift o) Q F := by
  cases o with
  | ok a => exact triple_ret fun _ hw => hw
  | error x => exact triple_raise fun _ hw => hw

theorem triple_pre (hp : Triple act env P p Q F) (hP : ∀ w, P' w → P w) : Triple act env P' p Q F :=
  fun w o w' hw hexec => hp w o w' (hP w hw) hexec

theorem triple_post (hp : Triple act env P p M F') (hQ : ∀ a w, M a w → Q a w)
    (hF : ∀ x w, F' x w → F x w) : Triple act env P p Q F := by
  intro w o w' hw hexec
  have hend : Outcome M F' o w' := hp w o w' hw hexec
  cases o with
  | ok a => exact hQ a w' hend
  | error x => exact hF x w' hend

theorem triple_and (hp : Triple act env P p Q F) (hp' : Triple act env P' p M F') :
    Triple act env (fun w => P w ∧ P' w) p (fun a w => Q a w ∧ M a w) fun x w => F x w ∧ F' x w := by
  rintro w o w' ⟨hw, hw'⟩ hexec
  have hend : Outcome Q F o w' := hp w o w' hw hexec
  have hend' : Outcome M F' o w' := hp' w o w' hw' hexec
  cases o with
  | ok a => exact ⟨hend, hend'⟩
  | error x => exact ⟨hend, hend'⟩

theorem triple_exists {S : ι → W → Prop} (hp : ∀ i, Triple act env (S i) p Q F) :
    Triple act env (fun w => ∃ i, S i w) p Q F := by
  rintro w o w' ⟨i, hw⟩ hexec
  exact hp i w o w' hw hexec

theorem triple_or (hp : Triple act env P p Q F) (hp' : Triple act env P' p Q F) :
    Triple act env (fun w => P w ∨ P' w) p Q F := by
  intro w o w' hw hexec
  obtain hw | hw := hw
  · exact hp w o w' hw hexec
  · exact hp' w o w' hw hexec

theorem triple_absurd (hP : ∀ w, ¬ P w) : Triple act env P p Q F :=
  fun w _ _ hw => absurd hw (hP w)

/-- Each call of the program is allowed whenever it comes to it, however the
surroundings have moved before, and the program ends in `Q` or, with an
exception, in `F`. -/
def Safe (act : W → (e : E) → R e → W → Prop) (env : W → W → Prop) (ok : W → E → Prop)
    (Q : α → W → Prop) (F : X → W → Prop) : Prog E R X α → W → Prop
  | .ret a, w => Q a w
  | .raise x, w => F x w
  | .call e next, w => ∀ w₁, Relation.ReflTransGen env w w₁ →
      ok w₁ e ∧ ∀ r w₂, act w₁ e r w₂ → (next r).Safe act env ok Q F w₂

def Secure (act : W → (e : E) → R e → W → Prop) (env : W → W → Prop) (ok : W → E → Prop)
    (P : W → Prop) (p : Prog E R X α) (Q : α → W → Prop) (F : X → W → Prop) : Prop :=
  ∀ w, P w → p.Safe act env ok Q F w

section

variable {ok : W → E → Prop}

theorem safe_env (hp : p.Safe act env ok Q F w) (henv : env w w') (hQ : ∀ a, Stable env (Q a))
    (hF : ∀ x, Stable env (F x)) : p.Safe act env ok Q F w' := by
  cases p with
  | ret a => exact hQ a w w' henv hp
  | raise x => exact hF x w w' henv hp
  | call e next => exact fun w₁ hmove => hp w₁ (.head henv hmove)

theorem safe_call {e : E} {next : R e → Prog E R X α} (hp : (Prog.call e next).Safe act env ok Q F w) :
    ok w e ∧ ∀ r w', act w e r w' → (next r).Safe act env ok Q F w' := hp w .refl

theorem safe_bind (hp : p.Safe act env ok M F w) (hf : ∀ a, Secure act env ok (M a) (f a) Q' F) :
    (p.bind f).Safe act env ok Q' F w := by
  induction p generalizing w with
  | ret a => exact hf a w hp
  | raise x => exact hp
  | call e next ih =>
    intro w₁ hmove
    obtain ⟨hok, hnext⟩ := hp w₁ hmove
    exact ⟨hok, fun r w₂ hact => ih r (hnext r w₂ hact)⟩

theorem safe_handle (hp : p.Safe act env ok Q F' w) (hh : ∀ x, Secure act env ok (F' x) (h x) Q F) :
    (p.handle h).Safe act env ok Q F w := by
  induction p generalizing w with
  | ret a => exact hp
  | raise x => exact hh x w hp
  | call e next ih =>
    intro w₁ hmove
    obtain ⟨hok, hnext⟩ := hp w₁ hmove
    exact ⟨hok, fun r w₂ hact => ih r (hnext r w₂ hact)⟩

theorem safe_post (hp : p.Safe act env ok M F' w) (hQ : ∀ a w, M a w → Q a w)
    (hF : ∀ x w, F' x w → F x w) : p.Safe act env ok Q F w := by
  induction p generalizing w with
  | ret a => exact hQ a w hp
  | raise x => exact hF x w hp
  | call e next ih =>
    intro w₁ hmove
    obtain ⟨hok, hnext⟩ := hp w₁ hmove
    exact ⟨hok, fun r w₂ hact => ih r (hnext r w₂ hact)⟩

/-- What neither the calls nor the surroundings undo stays on both sides. -/
theorem safe_frame {I : W → Prop} (hp : p.Safe act env ok Q F w) (hw : I w) (henv : Stable env I)
    (hact : ∀ w e r w', act w e r w' → I w → I w') :
    p.Safe act env ok (fun a w => Q a w ∧ I w) (fun x w => F x w ∧ I w) w := by
  induction p generalizing w with
  | ret a => exact ⟨hp, hw⟩
  | raise x => exact ⟨hp, hw⟩
  | call e next ih =>
    intro w₁ hmove
    obtain ⟨hok, hnext⟩ := hp w₁ hmove
    refine ⟨hok, fun r w₂ hcall => ih r (hnext r w₂ hcall) ?_⟩
    exact hact w₁ e r w₂ hcall (henv.star hmove hw)

theorem secure_ret {a : α} (hQ : ∀ w, P w → Q a w) : Secure act env ok P (.ret a) Q F := hQ

theorem secure_raise {x : X} (hF : ∀ w, P w → F x w) :
    Secure act env ok P (.raise x : Prog E R X α) Q F := hF

theorem secure_bind (hp : Secure act env ok P p M F) (hf : ∀ a, Secure act env ok (M a) (f a) Q' F) :
    Secure act env ok P (p >>= f) Q' F := fun w hw => safe_bind (hp w hw) hf

theorem secure_handle (hp : Secure act env ok P p Q F') (hh : ∀ x, Secure act env ok (F' x) (h x) Q F) :
    Secure act env ok P (p.handle h) Q F := fun w hw => safe_handle (hp w hw) hh

theorem secure_perform {e : E} {Q : R e → W → Prop} (hP : Stable env P) (hok : ∀ w, P w → ok w e)
    (hact : ∀ w r w', P w → act w e r w' → Q r w') : Secure act env ok P (perform e) Q F := by
  intro w hw w₁ hmove
  have hw₁ := hP.star hmove hw
  exact ⟨hok w₁ hw₁, fun r w₂ hcall => hact w₁ r w₂ hw₁ hcall⟩

theorem secure_lift {o : Except X α} : Secure act env ok (Outcome Q F o) (lift o) Q F := by
  cases o with
  | ok a => exact secure_ret fun _ hw => hw
  | error x => exact secure_raise fun _ hw => hw

theorem secure_pre (hp : Secure act env ok P p Q F) (hP : ∀ w, P' w → P w) :
    Secure act env ok P' p Q F := fun w hw => hp w (hP w hw)

theorem secure_post (hp : Secure act env ok P p M F') (hQ : ∀ a w, M a w → Q a w)
    (hF : ∀ x w, F' x w → F x w) : Secure act env ok P p Q F := fun w hw => safe_post (hp w hw) hQ hF

theorem secure_frame {I : W → Prop} (hp : Secure act env ok P p Q F) (henv : Stable env I)
    (hact : ∀ w e r w', act w e r w' → I w → I w') :
    Secure act env ok (fun w => P w ∧ I w) p (fun a w => Q a w ∧ I w) (fun x w => F x w ∧ I w) :=
  fun w hw => safe_frame (hp w hw.1) hw.2 henv hact

theorem secure_exists {S : ι → W → Prop} (hp : ∀ i, Secure act env ok (S i) p Q F) :
    Secure act env ok (fun w => ∃ i, S i w) p Q F := by
  rintro w ⟨i, hw⟩
  exact hp i w hw

theorem secure_absurd (hP : ∀ w, ¬ P w) : Secure act env ok P p Q F := fun w hw => absurd hw (hP w)

end

def run (step : W → (e : E) → R e × W) : Prog E R X α → W → Except X α × W
  | .ret a, w => (.ok a, w)
  | .raise x, w => (.error x, w)
  | .call e next, w => (next (step w e).1).run step (step w e).2

variable (answer : W → (e : E) → κ → Option (R e × W)) (move : W → ι → Option W)

def play : List (ι ⊕ κ) → Prog E R X α → W → Option (Except X α × W)
  | [], .ret a, w => some (.ok a, w)
  | [], .raise x, w => some (.error x, w)
  | .inl i :: script, .call e next, w => (move w i).bind (play script (.call e next))
  | .inr k :: script, .call e next, w =>
    (answer w e k).bind fun p => play script (next p.1) p.2
  | _, _, _ => none

variable {answer move}

theorem play_exec {script : List (ι ⊕ κ)} {o : Except X α}
    (hplay : play answer move script p w = some (o, w'))
    (hact : ∀ w e k r w', answer w e k = some (r, w') → act w e r w')
    (henv : ∀ w i w', move w i = some w' → env w w') : p.Exec act env w o w' := by
  induction script generalizing p w with
  | nil =>
    cases p with
    | ret a =>
      cases hplay
      exact ⟨rfl, rfl⟩
    | raise x =>
      cases hplay
      exact ⟨rfl, rfl⟩
    | call e next => cases hplay
  | cons item script ih =>
    cases p with
    | ret a => cases item <;> cases hplay
    | raise x => cases item <;> cases hplay
    | call e next =>
      cases item with
      | inl i =>
        obtain ⟨w₁, hmove, hrest⟩ := Option.bind_eq_some_iff.mp hplay
        obtain ⟨w₂, r, w₃, hstar, hcall, hnext⟩ := ih hrest
        exact ⟨w₂, r, w₃, .head (henv w i w₁ hmove) hstar, hcall, hnext⟩
      | inr k =>
        obtain ⟨⟨r, w₁⟩, hanswer, hrest⟩ := Option.bind_eq_some_iff.mp hplay
        exact ⟨w, r, w₁, .refl, hact w e k r w₁ hanswer, ih hrest⟩

end Prog

end Livelock.Lib
