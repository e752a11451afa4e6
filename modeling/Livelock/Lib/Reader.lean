import Mathlib.Data.List.Induction
import Mathlib.Data.List.Forall2

namespace Livelock.Lib

/-- A reader takes its value from the front of a stream, or fails. -/
abbrev Reader (σ : Type) := StateT (List σ) Option

namespace Reader

variable {σ α β : Type}

def take (n : Nat) : Reader σ (List σ) := fun s => if n ≤ s.length then some (s.take n, s.drop n) else none

def next : Reader σ σ
  | [] => none
  | x :: s => some (x, s)

def ofOption : Option α → Reader σ α
  | none => failure
  | some a => pure a

def times (p : Reader σ α) : Nat → Reader σ (List α)
  | 0 => pure []
  | n + 1 => do
    let a ← p
    let as ← times p n
    return a :: as

/-- The reader takes exactly `w`, whatever comes after it. -/
def Reads (p : Reader σ α) (w : List σ) (a : α) : Prop := ∀ rest, p (w ++ rest) = some (a, rest)

variable {p : Reader σ α} {f : α → Reader σ β} {a : α} {b : β} {w w' : List σ}

theorem bind_some {s rest : List σ} (h : p s = some (a, rest)) : (p >>= f) s = f a rest := by
  show (p s).bind _ = _
  rw [h]
  rfl

theorem bind_none {s : List σ} (h : p s = none) : (p >>= f) s = none := by
  show (p s).bind _ = _
  rw [h]
  rfl

theorem bind_next (f : σ → Reader σ α) (x : σ) (s : List σ) : (next >>= f) (x :: s) = f x s := rfl

theorem bind_get (f : List σ → Reader σ α) (s : List σ) : (get >>= f) s = f s s := rfl

theorem reads_pure (a : α) : Reads (pure a : Reader σ α) [] a := fun _ => rfl

theorem Reads.bind (h : Reads p w a) (h' : Reads (f a) w' b) : Reads (p >>= f) (w ++ w') b := by
  intro rest
  rw [List.append_assoc, bind_some (h _), h']

theorem Reads.bind_pure (h : Reads p w a) (h' : Reads (f a) [] b) : Reads (p >>= f) w b := by
  have hb := h.bind h'
  rwa [List.append_nil] at hb

theorem reads_ofOption {x : Option α} (h : x = some a) : Reads (ofOption x : Reader σ α) [] a := by
  subst h
  exact reads_pure a

theorem reads_next (x : σ) : Reads next [x] x := fun _ => rfl

theorem reads_take {n : Nat} (h : w.length = n) : Reads (take n) w w := by
  intro rest
  have hle : n ≤ (w ++ rest).length := by
    rw [List.length_append]
    omega
  rw [take, if_pos hle, List.take_left' h, List.drop_left' h]

theorem Reads.front {b : α} (h : Reads p (w ++ w') a) (h' : Reads p w b) : a = b ∧ w' = [] := by
  have hwhole := h []
  rw [List.append_assoc, List.append_nil, h'] at hwhole
  obtain ⟨rfl, rfl⟩ := Prod.mk.inj (Option.some_inj.mp hwhole)
  exact ⟨rfl, rfl⟩

theorem Reads.unique {b : α} (h : Reads p w a) (h' : Reads p w b) : a = b := by
  rw [← List.append_nil w] at h
  exact (h.front h').1

def Fails (p : Reader σ α) (w : List σ) : Prop := ∀ rest, p (w ++ rest) = none

theorem Fails.append (h : Fails p w) (w' : List σ) : Fails p (w ++ w') := by
  intro rest
  rw [List.append_assoc]
  exact h _

theorem Fails.bind (h : Fails p w) : Fails (p >>= f) w := fun rest => bind_none (h rest)

theorem Reads.bind_fails (h : Reads p w a) (h' : Fails (f a) w') : Fails (p >>= f) (w ++ w') := by
  intro rest
  rw [List.append_assoc, bind_some (h _), h']

theorem fails_ofOption {x : Option α} (h : x = none) (w : List σ) : Fails (ofOption x : Reader σ α) w := by
  subst h
  exact fun _ => rfl

/-- What the one reader takes, the other takes too when more comes after it. -/
def Extends (p q : Reader σ α) : Prop :=
  ∀ ⦃s rest a⦄, p s = some (a, rest) → ∀ t, q (s ++ t) = some (a, rest ++ t)

theorem bind_taken {s rest : List σ} (h : (p >>= f) s = some (b, rest)) :
    ∃ a r, p s = some (a, r) ∧ f a r = some (b, rest) := by
  cases hp : p s with
  | none =>
    rw [bind_none hp] at h
    cases h
  | some r =>
    rw [bind_some hp] at h
    exact ⟨r.1, r.2, rfl, h⟩

theorem extends_pure (a : α) : Extends (pure a : Reader σ α) (pure a) := by
  intro s rest b h t
  cases h
  rfl

theorem extends_failure (q : Reader σ α) : Extends failure q := by
  intro s rest b h
  cases h

theorem extends_ofOption (x : Option α) : Extends (ofOption x : Reader σ α) (ofOption x) := by
  cases x with
  | none => exact extends_failure _
  | some a => exact extends_pure a

theorem extends_next : Extends (next : Reader σ σ) next := by
  intro s rest a h t
  cases s with
  | nil => cases h
  | cons x s =>
    cases h
    rfl

theorem extends_take (n : Nat) : Extends (take n : Reader σ (List σ)) (take n) := by
  intro s rest a h t
  simp only [take] at h
  split at h
  · next hle =>
    obtain ⟨rfl, rfl⟩ := Prod.mk.inj (Option.some_inj.mp h)
    have hle' : n ≤ (s ++ t).length := by
      rw [List.length_append]
      omega
    rw [take, if_pos hle', List.take_append_of_le_length hle, List.drop_append_of_le_length hle]
  · cases h

theorem Extends.bind {q : Reader σ α} {g : α → Reader σ β} (h : Extends p q)
    (h' : ∀ a, Extends (f a) (g a)) : Extends (p >>= f) (q >>= g) := by
  intro s rest b hb t
  obtain ⟨a, r, hp, hf⟩ := bind_taken hb
  rw [bind_some (h hp t)]
  exact h' a hf t

theorem Extends.map {q : Reader σ α} (h : Extends p q) (g : α → β) :
    Extends (p >>= fun a => pure (g a)) (q >>= fun a => pure (g a)) :=
  h.bind fun a => extends_pure (g a)

theorem Extends.ite {c : Prop} [Decidable c] {p' q q' : Reader σ α} (h : Extends p q)
    (h' : Extends p' q') : Extends (if c then p else p') (if c then q else q') := by
  by_cases hc : c
  · simpa only [if_pos hc] using h
  · simpa only [if_neg hc] using h'

def Shrinks (p : Reader σ α) : Prop := ∀ ⦃s rest a⦄, p s = some (a, rest) → rest.length ≤ s.length

theorem shrinks_pure (a : α) : Shrinks (pure a : Reader σ α) := by
  intro s rest b h
  cases h
  exact Nat.le_refl _

theorem shrinks_failure : Shrinks (failure : Reader σ α) := by
  intro s rest a h
  cases h

theorem shrinks_ofOption (x : Option α) : Shrinks (ofOption x : Reader σ α) := by
  cases x with
  | none => exact shrinks_failure
  | some a => exact shrinks_pure a

theorem shrinks_next : Shrinks (next : Reader σ σ) := by
  intro s rest a h
  cases s with
  | nil => cases h
  | cons x s =>
    cases h
    exact Nat.le_succ _

theorem shrinks_take (n : Nat) : Shrinks (take n : Reader σ (List σ)) := by
  intro s rest a h
  simp only [take] at h
  split at h
  · cases h
    rw [List.length_drop]
    exact Nat.sub_le _ _
  · cases h

theorem Shrinks.bind (h : Shrinks p) (h' : ∀ a, Shrinks (f a)) : Shrinks (p >>= f) := by
  intro s rest b hb
  obtain ⟨a, r, hp, hf⟩ := bind_taken hb
  exact Nat.le_trans (h' a hf) (h hp)

theorem Shrinks.ite {c : Prop} [Decidable c] {q : Reader σ α} (h : Shrinks p) (h' : Shrinks q) :
    Shrinks (if c then p else q) := by
  by_cases hc : c
  · simpa only [if_pos hc] using h
  · simpa only [if_neg hc] using h'

theorem bind_congr_left {q : Reader σ α} {s : List σ} (h : p s = q s) : (p >>= f) s = (q >>= f) s := by
  show (p s).bind _ = (q s).bind _
  rw [h]

theorem bind_congr {g : α → Reader σ β} {s : List σ} (h : ∀ a r, p s = some (a, r) → f a r = g a r) :
    (p >>= f) s = (p >>= g) s := by
  cases hp : p s with
  | none => rw [bind_none hp, bind_none hp]
  | some r =>
    rw [bind_some hp, bind_some hp]
    exact h r.1 r.2 hp

theorem reads_times {ws : List (List σ)} {as : List α} (h : List.Forall₂ (Reads p) ws as) :
    Reads (times p ws.length) ws.flatten as := by
  induction h with
  | nil => exact reads_pure _
  | cons hw _ ih => exact hw.bind (ih.bind_pure (reads_pure _))

theorem exists_reads {ws : List (List σ)} (h : ∀ w ∈ ws, ∃ a, Reads p w a) :
    ∃ as, List.Forall₂ (Reads p) ws as := by
  induction ws with
  | nil => exact ⟨[], .nil⟩
  | cons w ws ih =>
    obtain ⟨a, ha⟩ := h w (by simp)
    obtain ⟨as, has⟩ := ih fun w' hw' => h w' (by simp [hw'])
    exact ⟨a :: as, .cons ha has⟩

theorem times_succ {n : Nat} {s rest : List σ} {as : List α} (h : times p n s = some (as, rest)) :
    times p (n + 1) s = (p rest).map fun r => (as ++ [r.1], r.2) := by
  induction n generalizing s as with
  | zero =>
    cases h
    cases hp : p rest with
    | none => exact bind_none hp
    | some r => exact bind_some hp
  | succ n ih =>
    cases hp : p s with
    | none =>
      rw [times, bind_none hp] at h
      cases h
    | some r =>
      rw [times, bind_some hp] at h
      cases ht : times p n r.2 with
      | none =>
        rw [bind_none ht] at h
        cases h
      | some r' =>
        rw [bind_some ht] at h
        cases h
        have hn := ih ht
        rw [times, bind_some hp]
        cases hr : p r'.2 with
        | none =>
          rw [hr] at hn
          exact bind_none hn
        | some r'' =>
          rw [hr] at hn
          exact bind_some hn

/-- After each frame as many values can be read as there are frames, and
nothing is left over. -/
def Aligned (p : Reader σ α) (frames : List (List σ)) : Prop :=
  ∀ n ≤ frames.length, ∃ as, times p n (frames.take n).flatten = some (as, [])

theorem aligned_prefix {frames : List (List σ)} {frame : List σ} (h : Aligned p (frames ++ [frame])) :
    Aligned p frames := by
  intro n hn
  obtain ⟨as, has⟩ := h n (by rw [List.length_append]; omega)
  rw [List.take_append_of_le_length hn] at has
  exact ⟨as, has⟩

theorem aligned_of_reads {frames : List (List σ)} (h : ∀ w ∈ frames, ∃ a, Reads p w a) :
    Aligned p frames := by
  intro n hn
  obtain ⟨as, has⟩ := exists_reads fun w hw => h w (List.mem_of_mem_take hw)
  have hread := reads_times has []
  rw [List.append_nil, List.length_take, Nat.min_eq_left hn] at hread
  exact ⟨as, hread⟩

/-- A frame after frames that are read cleanly is read cleanly itself. -/
theorem aligned_last {frames : List (List σ)} {frame : List σ} (h : Aligned p (frames ++ [frame]))
    (hclean : ∀ w ∈ frames, ∃ a, Reads p w a) : ∃ a, p frame = some (a, []) := by
  obtain ⟨as, has⟩ := h (frames.length + 1) (by simp)
  obtain ⟨bs, hbs⟩ := exists_reads hclean
  have hall : ((frames ++ [frame]).take (frames.length + 1)).flatten = frames.flatten ++ frame := by
    rw [List.take_of_length_le (by simp), List.flatten_append, List.flatten_singleton]
  rw [hall, times_succ (reads_times hbs frame)] at has
  obtain ⟨⟨a, rest⟩, hp, hr⟩ := Option.map_eq_some_iff.mp has
  obtain ⟨-, rfl⟩ := Prod.mk.inj hr
  exact ⟨a, hp⟩

end Reader

end Livelock.Lib
