import Mathlib.Data.List.Forall2
import Mathlib.Data.List.Induction

namespace Livelock.Lib

variable {σ τ ι κ : Type}

/-- A finite run of a labelled step relation, read from its last step. -/
inductive Run (step : σ → ι → σ → Prop) (s : σ) : List ι → σ → Prop
  | nil : Run step s [] s
  | snoc {es : List ι} {e : ι} {t u : σ} :
      Run step s es t → step t e u → Run step s (es ++ [e]) u

/-- The steps of a relation that also meet a condition on the state before. -/
def Where (step : σ → ι → σ → Prop) (cond : σ → ι → Prop) (s : σ) (e : ι) (t : σ) : Prop :=
  step s e t ∧ cond s e

theorem split_concat {t pre post : List ι} {e x : ι} (h : t ++ [e] = pre ++ x :: post) :
    (pre = t ∧ x = e) ∨ ∃ post', t = pre ++ x :: post' := by
  obtain rfl | ⟨post', last, rfl⟩ := List.eq_nil_or_concat post
  · obtain ⟨rfl, he⟩ := List.append_inj' h rfl
    exact .inl ⟨rfl, (List.cons.inj he).1.symm⟩
  · rw [List.concat_eq_append, ← List.cons_append, ← List.append_assoc] at h
    exact .inr ⟨post', List.append_inj_left' h rfl⟩

namespace Run

variable {step : σ → ι → σ → Prop} {s t u : σ} {es fs : List ι}

theorem single {e : ι} (h : step s e t) : Run step s [e] t := snoc nil h

theorem append (h : Run step s es t) (h' : Run step t fs u) : Run step s (es ++ fs) u := by
  induction h' with
  | nil => simpa using h
  | snoc _ hs ih => simpa only [← List.append_assoc] using snoc ih hs

theorem cons {e : ι} (h : step s e t) (h' : Run step t es u) : Run step s (e :: es) u :=
  append (single h) h'

theorem eq_of_nil (h : Run step s [] t) : t = s := by
  generalize he : ([] : List ι) = es at h
  cases h with
  | nil => rfl
  | snoc _ _ => simp at he

theorem snoc_inv {e : ι} (h : Run step s (es ++ [e]) u) : ∃ t, Run step s es t ∧ step t e u := by
  generalize he : es ++ [e] = fs at h
  cases h with
  | nil => simp at he
  | snoc hr hs =>
    obtain ⟨rfl, rfl⟩ := List.append_singleton_inj.mp he
    exact ⟨_, hr, hs⟩

theorem append_inv (h : Run step s (es ++ fs) u) : ∃ t, Run step s es t ∧ Run step t fs u := by
  induction fs using List.reverseRecOn generalizing u with
  | nil => exact ⟨u, by simpa using h, nil⟩
  | append_singleton fs e ih =>
    rw [← List.append_assoc] at h
    obtain ⟨v, hv, hs⟩ := snoc_inv h
    obtain ⟨t, ht, hr⟩ := ih hv
    exact ⟨t, ht, snoc hr hs⟩

theorem cons_inv {e : ι} (h : Run step s (e :: es) u) : ∃ t, step s e t ∧ Run step t es u := by
  have he : Run step s ([e] ++ es) u := h
  obtain ⟨t, ht, hr⟩ := append_inv he
  have he' : Run step s ([] ++ [e]) t := ht
  obtain ⟨v, hv, hs⟩ := snoc_inv he'
  rw [eq_of_nil hv] at hs
  exact ⟨t, hs, hr⟩

/-- The invariant rule. The step sees only the labels of this run. -/
theorem invariant {I : σ → Prop} (h : Run step s es t) (h0 : I s)
    (hstep : ∀ v e w, e ∈ es → I v → step v e w → I w) : I t := by
  induction h with
  | nil => exact h0
  | snoc _ hs ih =>
    exact hstep _ _ _ (by simp) (ih fun v e w he => hstep v e w (by simp [he])) hs

theorem mono {step' : σ → ι → σ → Prop} (h : Run step s es t)
    (hstep : ∀ v e w, step v e w → step' v e w) : Run step' s es t := by
  induction h with
  | nil => exact nil
  | snoc _ hs ih => exact snoc ih (hstep _ _ _ hs)

theorem of_where {cond : σ → ι → Prop} (h : Run (Where step cond) s es t) : Run step s es t :=
  h.mono fun _ _ _ hs => hs.1

theorem keeping {I : σ → Prop} (h : Run step s es t) (h0 : I s)
    (hstep : ∀ v e w, I v → step v e w → I w) : Run (fun v e w => step v e w ∧ I v ∧ I w) s es t := by
  induction h with
  | nil => exact nil
  | snoc hr hs ih =>
    have hv := hr.invariant h0 fun v e w _ => hstep v e w
    exact snoc ih ⟨hs, hv, hstep _ _ _ hv hs⟩

/-- A forward simulation, with matching labels, carries a run over. -/
theorem simulate {step' : τ → κ → τ → Prop} {I : σ → Prop} {f : σ → τ} {M : ι → κ → Prop}
    (h : Run step s es t) (h0 : I s)
    (hstep : ∀ v e w, e ∈ es → I v → step v e w → I w ∧ ∃ k, M e k ∧ step' (f v) k (f w)) :
    I t ∧ ∃ ks, List.Forall₂ M es ks ∧ Run step' (f s) ks (f t) := by
  induction h with
  | nil => exact ⟨h0, [], .nil, nil⟩
  | snoc _ hs ih =>
    obtain ⟨hi, ks, hm, hr⟩ := ih fun v e w he => hstep v e w (by simp [he])
    obtain ⟨hi', k, hk, hs'⟩ := hstep _ _ _ (by simp) hi hs
    exact ⟨hi', ks ++ [k], List.rel_append hm (.cons hk .nil), snoc hr hs'⟩

/-- A relation between two runs that agree on their visible labels, up to a
key: hidden steps of either run keep it, and so do matching visible steps. -/
theorem pair {R : List ι → σ → List ι → σ → Prop} {visible : ι → Bool} {key : ι → κ} {s' u : σ}
    (h : Run step s es t) (h' : Run step s' fs u)
    (hsame : (es.filter visible).map key = (fs.filter visible).map key) (h0 : R [] s [] s')
    (hleft : ∀ es v fs w e v', R es v fs w → visible e = false → step v e v' →
      R (es ++ [e]) v' fs w)
    (hright : ∀ es v fs w f w', R es v fs w → visible f = false → step w f w' →
      R es v (fs ++ [f]) w')
    (hboth : ∀ es v fs w e v' f w', R es v fs w → visible e = true → visible f = true →
      key e = key f → step v e v' → step w f w' → R (es ++ [e]) v' (fs ++ [f]) w') :
    R es t fs u := by
  have hhidden : ∀ (gs : List ι) (e : ι), visible e = false →
      (gs ++ [e]).filter visible = gs.filter visible := by
    intro gs e he
    rw [List.filter_append, List.filter_cons_of_neg (by simp [he]), List.filter_nil,
      List.append_nil]
  have hshown : ∀ (gs : List ι) (e : ι), visible e = true →
      ((gs ++ [e]).filter visible).map key = (gs.filter visible).map key ++ [key e] := by
    intro gs e he
    rw [List.filter_append, List.filter_cons_of_pos he, List.filter_nil, List.map_append]
    rfl
  induction h generalizing fs u with
  | nil =>
    induction h' with
    | nil => exact h0
    | @snoc fs f w w' _ hs ih =>
      cases hf : visible f with
      | true =>
        rw [hshown fs f hf] at hsame
        simp at hsame
      | false =>
        rw [hhidden fs f hf] at hsame
        exact hright _ _ _ _ f _ (ih hsame) hf hs
  | @snoc es e v v' _ hs ih =>
    cases he : visible e with
    | false =>
      rw [hhidden es e he] at hsame
      exact hleft _ _ _ _ e _ (ih h' hsame) he hs
    | true =>
      induction h' with
      | nil =>
        rw [hshown es e he] at hsame
        simp at hsame
      | @snoc fs f w w' hr hs' ih' =>
        cases hf : visible f with
        | false =>
          rw [hhidden fs f hf] at hsame
          exact hright _ _ _ _ f _ (ih' hsame) hf hs'
        | true =>
          rw [hshown es e he, hshown fs f hf] at hsame
          obtain ⟨hrest, hkey⟩ := List.append_singleton_inj.mp hsame
          exact hboth _ _ _ _ e _ f _ (ih hr hrest) he hf hkey hs hs'

theorem unique (hdet : ∀ v e w w', step v e w → step v e w' → w = w') (h : Run step s es t)
    (h' : Run step s es u) : t = u := by
  induction h generalizing u with
  | nil => exact (eq_of_nil h').symm
  | snoc _ hs ih =>
    obtain ⟨v, hr, hs'⟩ := snoc_inv h'
    rw [ih hr] at hs
    exact hdet _ _ _ _ hs hs'

/-- Where a property that holds at the end has come to hold for the last time. -/
theorem became {P : σ → Prop} (h : Run step s es t) (h0 : ¬ P s) (ht : P t) :
    ∃ pre e post v w, es = pre ++ e :: post ∧ Run step s pre v ∧ ¬ P v ∧ step v e w ∧ P w ∧
      Run (fun a f b => step a f b ∧ P a ∧ P b) w post t := by
  induction h with
  | nil => exact absurd ht h0
  | @snoc es e t u hr hs ih =>
    by_cases hp : P t
    · obtain ⟨pre, f, post, v, w, rfl, hpre, hv, hf, hw, hpost⟩ := ih hp
      exact ⟨pre, f, post ++ [e], v, w, by simp, hpre, hv, hf, hw, hpost.snoc ⟨hs, hp, ht⟩⟩
    · exact ⟨es, e, [], t, u, rfl, hr, hp, hs, ht, nil⟩

theorem of_foldlM {f : σ → ι → Option σ} (h : es.foldlM f s = some t) :
    Run (fun v e w => f v e = some w) s es t := by
  induction es generalizing s with
  | nil =>
    cases h
    exact nil
  | cons e es ih =>
    rw [List.foldlM_cons] at h
    obtain ⟨v, hv, hr⟩ := Option.bind_eq_some_iff.mp h
    exact cons hv (ih hr)

theorem exists_of_foldlM {step : σ → κ → σ → Prop} {f : σ → ι → Option σ} {M : ι → κ → Prop}
    (hf : ∀ e v w, f v e = some w → ∃ k, M e k ∧ step v k w) (h : es.foldlM f s = some t) :
    ∃ ks, Run step s ks t ∧ List.Forall₂ M es ks := by
  induction es generalizing s with
  | nil =>
    cases h
    exact ⟨[], nil, .nil⟩
  | cons e es ih =>
    rw [List.foldlM_cons] at h
    obtain ⟨v, hv, hr⟩ := Option.bind_eq_some_iff.mp h
    obtain ⟨k, hk, hs⟩ := hf e s v hv
    obtain ⟨ks, hrun, hks⟩ := ih hr
    exact ⟨k :: ks, cons hs hrun, .cons hk hks⟩

end Run

/-- The latest step of a run that is an `up` or a `down` is an `up`. -/
def LatestUp (step : σ → ι → σ → Prop) (up down : σ → ι → Prop) (s : σ) (es : List ι) : Prop :=
  ∃ pre e post v, es = pre ++ e :: post ∧ Run step s pre v ∧ up v e ∧
    ∀ mid f rest w, post = mid ++ f :: rest → Run step s (pre ++ e :: mid) w → ¬ up w f ∧ ¬ down w f

namespace LatestUp

variable {step : σ → ι → σ → Prop} {up down : σ → ι → Prop} {s t : σ} {es : List ι} {e : ι}

theorem not_nil : ¬ LatestUp step up down s [] := by
  rintro ⟨pre, e, post, v, he, -⟩
  simp at he

theorem concat (hdet : ∀ v e w w', step v e w → step v e w' → w = w') (h : Run step s es t) :
    LatestUp step up down s (es ++ [e]) ↔ up t e ∨ (¬ down t e ∧ LatestUp step up down s es) := by
  constructor
  · rintro ⟨pre, f, post, v, he, hpre, hup, hlast⟩
    obtain ⟨rfl, rfl⟩ | ⟨post', rfl⟩ := split_concat he
    · rw [h.unique hdet hpre]
      exact .inl hup
    · have hpost : post = post' ++ [e] := by simpa using he.symm
      obtain ⟨-, hdown⟩ := hlast post' e [] t hpost (by simpa using h)
      refine .inr ⟨hdown, pre, f, post', v, rfl, hpre, hup, fun mid g rest w hm => ?_⟩
      exact hlast mid g (rest ++ [e]) w (by simp [hpost, hm])
  · intro hcase
    by_cases hup : up t e
    · exact ⟨es, e, [], t, rfl, h, hup, fun mid f rest w hm => by simp at hm⟩
    obtain ⟨hdown, pre, f, post, v, rfl, hpre, hf, hlast⟩ := hcase.resolve_left hup
    refine ⟨pre, f, post ++ [e], v, by simp, hpre, hf, fun mid g rest w hm hw => ?_⟩
    obtain ⟨rfl, rfl⟩ | ⟨rest', rfl⟩ := split_concat hm
    · rw [hw.unique hdet h]
      exact ⟨hup, hdown⟩
    · exact hlast mid g rest' w rfl hw

/-- A property that an `up` establishes, a `down` ends and no other step
touches says of which kind the latest of them was. -/
theorem iff {step' : σ → ι → σ → Prop} {P : σ → Prop}
    (hdet : ∀ v e w w', step v e w → step v e w' → w = w')
    (hsub : ∀ v e w, step' v e w → step v e w) (h : Run step' s es t) (h0 : ¬ P s)
    (hstep : ∀ v e w, step' v e w → (P w ↔ up v e ∨ (¬ down v e ∧ P v))) :
    P t ↔ LatestUp step up down s es := by
  induction h with
  | nil => exact iff_of_false h0 not_nil
  | snoc hr hs ih => rw [concat hdet (hr.mono hsub), hstep _ _ _ hs, ih]

end LatestUp

theorem forall₂_right {M : ι → κ → Prop} {P : κ → Prop} {es : List ι} {ks : List κ}
    (h : List.Forall₂ M es ks) (hP : ∀ e ∈ es, ∀ k, M e k → P k) : ∀ k ∈ ks, P k := by
  induction h with
  | nil => exact nofun
  | cons hm _ ih =>
    exact List.forall_mem_cons.mpr ⟨hP _ (by simp) _ hm, ih fun e he => hP e (by simp [he])⟩

theorem forall₂_split {M : ι → κ → Prop} {es : List ι} {ks ks' : List κ} {k : κ}
    (h : List.Forall₂ M es (ks ++ k :: ks')) :
    ∃ fs e fs', es = fs ++ e :: fs' ∧ List.Forall₂ M fs ks ∧ M e k ∧ List.Forall₂ M fs' ks' := by
  induction ks generalizing es with
  | nil =>
    cases h with
    | cons hm hr => exact ⟨[], _, _, rfl, .nil, hm, hr⟩
  | cons k' ks ih =>
    cases h with
    | cons hm hr =>
      obtain ⟨fs, e, fs', rfl, hfs, he, hfs'⟩ := ih hr
      exact ⟨_ :: fs, e, fs', rfl, .cons hm hfs, he, hfs'⟩

end Livelock.Lib
