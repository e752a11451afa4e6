import Mathlib.Data.List.Forall2

namespace Livelock.Lib

/-- What becomes of scanning the symbols that have come so far. -/
inductive Scanned (σ α : Type)
  | done (a : α) (rest : List σ)
  | more
  | raised

/-- A scan takes its value from the front of a stream of which more may come,
waits, or raises. -/
def Scan (σ α : Type) := List σ → Scanned σ α

namespace Scan

variable {σ α β : Type}

instance : Monad (Scan σ) where
  pure a := fun s => .done a s
  bind p f := fun s =>
    match p s with
    | .done a rest => f a rest
    | .more => .more
    | .raised => .raised

def raise : Scan σ α := fun _ => .raised

def next : Scan σ σ
  | [] => .more
  | x :: s => .done x s

def take (n : Nat) : Scan σ (List σ) := fun s =>
  if n ≤ s.length then .done (s.take n) (s.drop n) else .more

def ofOption : Option α → Scan σ α
  | none => raise
  | some a => pure a

def times (p : Scan σ α) : Nat → Scan σ (List α)
  | 0 => pure []
  | n + 1 => do
    let a ← p
    let as ← times p n
    return a :: as

def rounds (p : Scan σ α) : Nat → Scan σ β
  | 0 => fun _ => .more
  | n + 1 => do
    let _ ← p
    rounds p n

def endless (p : Scan σ α) : Scan σ β := fun s => rounds p s.length s

/-- What a scan takes for which value. -/
abbrev Lang (σ α : Type) := List σ → α → Prop

/-- The scan takes just the words of `L`, whatever comes after them, and what
it has decided does not change when more comes. -/
structure Recognises (p : Scan σ α) (L : Lang σ α) : Prop where
  takes : ∀ {w a}, L w a → ∀ rest, p (w ++ rest) = .done a rest
  taken : ∀ {s a rest}, p s = .done a rest → ∃ w, s = w ++ rest ∧ L w a
  raises : ∀ {s}, p s = .raised → ∀ t, p (s ++ t) = .raised

variable {p : Scan σ α} {f : α → Scan σ β} {L L' : Lang σ α} {M : α → Lang σ β}
variable {s t w : List σ} {a : α} {b : β}

theorem bind_done {rest : List σ} (h : p s = .done a rest) : (p >>= f) s = f a rest := by
  show (match p s with | .done a rest => f a rest | .more => .more | .raised => .raised) = _
  rw [h]

theorem bind_more (h : p s = .more) : (p >>= f) s = .more := by
  show (match p s with | .done a rest => f a rest | .more => .more | .raised => .raised) = _
  rw [h]

theorem bind_raised (h : p s = .raised) : (p >>= f) s = .raised := by
  show (match p s with | .done a rest => f a rest | .more => .more | .raised => .raised) = _
  rw [h]

theorem bind_bind {γ : Type} (p : Scan σ α) (f : α → Scan σ β) (g : β → Scan σ γ) :
    (p >>= f) >>= g = p >>= fun a => f a >>= g := by
  funext s
  cases h : p s with
  | done a rest =>
    rw [bind_done h]
    cases hf : f a rest with
    | done b r => rw [bind_done ((bind_done h).trans hf), bind_done hf]
    | more => rw [bind_more ((bind_done h).trans hf), bind_more hf]
    | raised => rw [bind_raised ((bind_done h).trans hf), bind_raised hf]
  | more => rw [bind_more (bind_more h), bind_more h]
  | raised => rw [bind_raised (bind_raised h), bind_raised h]

instance : LawfulMonad (Scan σ) := by
  refine LawfulMonad.mk' _ (fun p => ?_) (fun _ _ => rfl) bind_bind
  funext s
  show (p >>= fun a => (pure a : Scan σ _)) s = p s
  cases h : p s with
  | done a rest => exact bind_done h
  | more => exact bind_more h
  | raised => exact bind_raised h

theorem bind_eq_done {rest : List σ} :
    (p >>= f) s = .done b rest ↔ ∃ a r, p s = .done a r ∧ f a r = .done b rest := by
  constructor
  · intro h
    cases hp : p s with
    | done a r =>
      rw [bind_done hp] at h
      exact ⟨a, r, rfl, h⟩
    | more => cases (bind_more hp).symm.trans h
    | raised => cases (bind_raised hp).symm.trans h
  · rintro ⟨a, r, hp, hf⟩
    rw [bind_done hp, hf]

theorem ofOption_eq_done {x : Option α} {rest : List σ} :
    ofOption x s = .done a rest ↔ x = some a ∧ rest = s := by
  cases x with
  | none =>
    constructor
    · intro h
      cases h
    · rintro ⟨h, -⟩
      cases h
  | some b =>
    constructor
    · intro h
      cases h
      exact ⟨rfl, rfl⟩
    · rintro ⟨h, rfl⟩
      cases h
      rfl

theorem pure_eq_done {a' : α} {rest : List σ} :
    (pure a : Scan σ α) s = .done a' rest ↔ a' = a ∧ rest = s := by
  constructor
  · intro h
    cases h
    exact ⟨rfl, rfl⟩
  · rintro ⟨rfl, rfl⟩
    rfl

/-- Rounds that each take a symbol: there are never more than there are symbols. -/
theorem rounds_enough (hnil : p [] = .more)
    (htakes : ∀ {s a rest}, p s = .done a rest → rest.length < s.length) {n m : Nat}
    (hn : s.length ≤ n) (hm : s.length ≤ m) : (rounds p n : Scan σ β) s = rounds p m s := by
  induction n generalizing m s with
  | zero =>
    obtain rfl := List.length_eq_zero_iff.mp (Nat.le_zero.mp hn)
    cases m with
    | zero => rfl
    | succ m => exact (bind_more hnil).symm
  | succ n ih =>
    cases m with
    | zero =>
      obtain rfl := List.length_eq_zero_iff.mp (Nat.le_zero.mp hm)
      exact bind_more hnil
    | succ m =>
      rw [rounds, rounds]
      cases hs : p s with
      | done a rest =>
        have hless := htakes hs
        rw [bind_done hs, bind_done hs]
        exact ih (by omega) (by omega)
      | more => rw [bind_more hs, bind_more hs]
      | raised => rw [bind_raised hs, bind_raised hs]

theorem endless_round (hnil : p [] = .more)
    (htakes : ∀ {s a rest}, p s = .done a rest → rest.length < s.length) :
    (endless p : Scan σ β) = p >>= fun _ => endless p := by
  funext s
  have hmore : endless p s = (rounds p (s.length + 1) : Scan σ β) s :=
    rounds_enough hnil htakes (Nat.le_refl _) (Nat.le_succ _)
  rw [hmore, rounds]
  cases hs : p s with
  | done a rest =>
    have hless := htakes hs
    rw [bind_done hs, bind_done hs]
    exact rounds_enough hnil htakes (Nat.le_of_lt hless) (Nat.le_refl _)
  | more => rw [bind_more hs, bind_more hs]
  | raised => rw [bind_raised hs, bind_raised hs]

theorem rounds_bind {γ : Type} (f : β → Scan σ γ) (n : Nat) :
    (rounds p n : Scan σ β) >>= f = rounds p n := by
  induction n with
  | zero => rfl
  | succ n ih =>
    rw [rounds, rounds, bind_bind]
    exact congrArg _ (funext fun _ => ih)

theorem endless_bind {γ : Type} (f : β → Scan σ γ) : (endless p : Scan σ β) >>= f = endless p := by
  funext s
  exact congrFun (rounds_bind f s.length) s

namespace Recognises

theorem takes_some (h : Recognises p L) (hL : ∀ {w a}, L w a → w ≠ []) {rest : List σ}
    (hs : p s = .done a rest) : rest.length < s.length := by
  obtain ⟨w, rfl, hw⟩ := h.taken hs
  have hlength := List.length_pos_of_ne_nil (hL hw)
  rw [List.length_append]
  omega

theorem done (h : Recognises p L) {rest : List σ} (hs : p s = .done a rest) (t : List σ) :
    p (s ++ t) = .done a (rest ++ t) := by
  obtain ⟨w, rfl, hw⟩ := h.taken hs
  rw [List.append_assoc]
  exact h.takes hw _

theorem more (h : Recognises p L) (hw : L (s ++ t) a) (ht : t ≠ []) : p s = .more := by
  have hall := h.takes hw []
  rw [List.append_nil] at hall
  cases hs : p s with
  | done b rest =>
    have hdone := h.done hs t
    rw [hall] at hdone
    obtain ⟨-, hrest⟩ := Scanned.done.inj hdone
    exact absurd (List.append_eq_nil_iff.mp hrest.symm).2 ht
  | more => rfl
  | raised => cases (h.raises hs t).symm.trans hall

theorem congr (h : Recognises p L) (hL : ∀ w a, L w a ↔ L' w a) : Recognises p L' where
  takes hw := h.takes ((hL _ _).mpr hw)
  taken hs := by
    obtain ⟨w, hsplit, hw⟩ := h.taken hs
    exact ⟨w, hsplit, (hL _ _).mp hw⟩
  raises := h.raises

theorem pure (a : α) : Recognises (Pure.pure a : Scan σ α) fun w b => w = [] ∧ b = a where
  takes := by
    rintro w b ⟨rfl, rfl⟩ rest
    rfl
  taken := by
    intro s b rest h
    cases h
    exact ⟨[], rfl, rfl, rfl⟩
  raises h := by cases h

theorem raise : Recognises (Scan.raise : Scan σ α) fun _ _ => False where
  takes h := h.elim
  taken h := by cases h
  raises _ _ := rfl

theorem bind (h : Recognises p L) (hf : ∀ a, Recognises (f a) (M a)) :
    Recognises (p >>= f) fun w b => ∃ a u v, w = u ++ v ∧ L u a ∧ M a v b where
  takes := by
    rintro _ b ⟨a, u, v, rfl, hu, hv⟩ rest
    rw [List.append_assoc, bind_done (h.takes hu _)]
    exact (hf a).takes hv rest
  taken := by
    intro s b rest hs
    cases hp : p s with
    | done a r =>
      rw [bind_done hp] at hs
      obtain ⟨u, rfl, hu⟩ := h.taken hp
      obtain ⟨v, rfl, hv⟩ := (hf a).taken hs
      exact ⟨u ++ v, (List.append_assoc u v rest).symm, a, u, v, rfl, hu, hv⟩
    | more => cases (bind_more hp).symm.trans hs
    | raised => cases (bind_raised hp).symm.trans hs
  raises := by
    intro s hs t
    cases hp : p s with
    | done a r =>
      rw [bind_done hp] at hs
      rw [bind_done (h.done hp t)]
      exact (hf a).raises hs t
    | more => cases (bind_more hp).symm.trans hs
    | raised => exact bind_raised (h.raises hp t)

theorem ofOption (x : Option α) : Recognises (Scan.ofOption x : Scan σ α) fun w a => w = [] ∧ x = some a := by
  cases x with
  | none => exact raise.congr fun w a => by simp
  | some b => exact (pure b).congr fun w a => by simp [eq_comm]

theorem bind_option (h : Recognises p L) (g : α → Option β) :
    Recognises (p >>= fun a => Scan.ofOption (g a)) fun w b => ∃ a, L w a ∧ g a = some b := by
  refine (h.bind fun a => ofOption (g a)).congr fun w b => ?_
  constructor
  · rintro ⟨a, u, v, rfl, hu, rfl, hg⟩
    exact ⟨a, by rwa [List.append_nil], hg⟩
  · rintro ⟨a, hw, hg⟩
    exact ⟨a, w, [], (List.append_nil w).symm, hw, rfl, hg⟩

theorem map (h : Recognises p L) (g : α → β) :
    Recognises (p >>= fun a => (Pure.pure (g a) : Scan σ β)) fun w b => ∃ a, L w a ∧ g a = b :=
  (h.bind_option fun a => some (g a)).congr fun w b => by simp

theorem ite {c : Prop} [Decidable c] {q : Scan σ α} (h : c → Recognises p L)
    (h' : ¬ c → Recognises q L') :
    Recognises (if c then p else q) fun w a => if c then L w a else L' w a := by
  by_cases hc : c
  · simpa only [if_pos hc] using h hc
  · simpa only [if_neg hc] using h' hc

theorem next : Recognises (Scan.next : Scan σ σ) fun w x => w = [x] where
  takes := by
    rintro _ x rfl rest
    rfl
  taken := by
    intro s x rest h
    cases s with
    | nil => cases h
    | cons y s =>
      cases h
      exact ⟨[x], rfl, rfl⟩
  raises := by
    intro s h
    cases s <;> cases h

theorem take (n : Nat) : Recognises (Scan.take n : Scan σ (List σ)) fun w v => w = v ∧ v.length = n where
  takes := by
    rintro w _ ⟨rfl, hn⟩ rest
    have hle : n ≤ (w ++ rest).length := by
      rw [List.length_append]
      omega
    rw [Scan.take, if_pos hle, List.take_left' hn, List.drop_left' hn]
  taken := by
    intro s v rest h
    unfold Scan.take at h
    split at h
    · next hle =>
      cases h
      exact ⟨_, (List.take_append_drop n s).symm, rfl, List.length_take_of_le hle⟩
    · cases h
  raises := by
    intro s h
    unfold Scan.take at h
    split at h <;> cases h

theorem times (h : Recognises p L) (n : Nat) :
    Recognises (Scan.times p n) fun w as => as.length = n ∧ ∃ ws, w = ws.flatten ∧ List.Forall₂ L ws as := by
  induction n with
  | zero =>
    refine (pure []).congr fun w as => ?_
    constructor
    · rintro ⟨rfl, rfl⟩
      exact ⟨rfl, [], rfl, .nil⟩
    · rintro ⟨hn, ws, rfl, hws⟩
      obtain rfl := List.length_eq_zero_iff.mp hn
      cases hws
      exact ⟨rfl, rfl⟩
  | succ n ih =>
    refine (h.bind fun a => ih.map (a :: ·)).congr fun w as => ?_
    constructor
    · rintro ⟨a, u, _, rfl, hu, as, ⟨hn, ws, rfl, hws⟩, rfl⟩
      exact ⟨by rw [List.length_cons, hn], u :: ws, rfl, .cons hu hws⟩
    · rintro ⟨hn, ws, rfl, hws⟩
      cases hws with
      | nil => cases hn
      | cons hu hws =>
        exact ⟨_, _, _, rfl, hu, _, ⟨Nat.succ_inj.mp hn, _, rfl, hws⟩, rfl⟩

theorem rounds_raises (h : Recognises p L) {n m : Nat} (hle : n ≤ m)
    (hs : (Scan.rounds p n : Scan σ β) s = .raised) (t : List σ) :
    (Scan.rounds p m : Scan σ β) (s ++ t) = .raised := by
  induction n generalizing m s with
  | zero => cases hs
  | succ n ih =>
    obtain ⟨m, rfl⟩ : ∃ k, m = k + 1 := Nat.exists_eq_succ_of_ne_zero (by omega)
    rw [Scan.rounds] at hs ⊢
    cases hp : p s with
    | done a r =>
      rw [bind_done hp] at hs
      rw [bind_done (h.done hp t)]
      exact ih (Nat.le_of_succ_le_succ hle) hs
    | more => cases (bind_more hp).symm.trans hs
    | raised => exact bind_raised (h.raises hp t)

theorem rounds_not_done (p : Scan σ α) (n : Nat) (s : List σ) (b : β) (rest : List σ) :
    Scan.rounds p n s ≠ .done b rest := by
  induction n generalizing s with
  | zero =>
    intro h
    cases h
  | succ n ih =>
    rw [Scan.rounds]
    cases hp : p s with
    | done a r =>
      rw [bind_done hp]
      exact ih r
    | more =>
      rw [bind_more hp]
      intro h
      cases h
    | raised =>
      rw [bind_raised hp]
      intro h
      cases h

theorem endless (h : Recognises p L) : Recognises (Scan.endless p : Scan σ β) fun _ _ => False where
  takes hw := hw.elim
  taken hs := absurd hs (rounds_not_done p _ _ _ _)
  raises hs t := rounds_raises h (by rw [List.length_append]; omega) hs t

end Recognises

end Scan

end Livelock.Lib
