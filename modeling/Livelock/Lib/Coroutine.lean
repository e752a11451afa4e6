import Livelock.Lib.Chunks

namespace Livelock.Lib.Coroutine

open Livelock.Lib.Chunks (Stable)

variable {σ Q α : Type}

/-- What is left of a coroutine that is pushed symbols: its value, or where it
is suspended, with the symbols that it did not take. -/
inductive Pushed (σ Q α : Type)
  | ends (a : α) (rest : List σ)
  | waits (q : Q) (rest : List σ)
  | raised (rest : List σ)

def push (read : Q → Scan σ (Q ⊕ α)) : Nat → Q → List σ → Pushed σ Q α
  | 0, q, s => .waits q s
  | fuel + 1, q, s =>
    match read q s with
    | .more => .waits q s
    | .raised => .raised s
    | .done (.inl q) rest => push read fuel q rest
    | .done (.inr a) rest => .ends a rest

/-- The scan decides for good, and takes something when it is done. -/
structure Steady (p : Scan σ α) : Prop where
  stable : Stable p
  takes : ∀ {s a rest}, p s = .done a rest → rest.length < s.length

theorem steady_of_recognises {p : Scan σ α} {L : Scan.Lang σ α} (h : Scan.Recognises p L)
    (hL : ∀ w a, L w a → w ≠ []) : Steady p :=
  ⟨Chunks.stable_of_recognises h, h.takes_some (hL _ _)⟩

/-- What a coroutine reads from where it is, if it were done at once. -/
def Denotes (read : Q → Scan σ (Q ⊕ α)) (meaning : Q → Scan σ α) : Prop :=
  ∀ q, meaning q = read q >>= Sum.elim meaning pure

def Reaches (meaning : Q → Scan σ α) (q : Q) (s : List σ) : Pushed σ Q α → Prop
  | .ends a rest => meaning q s = .done a rest
  | .raised _ => meaning q s = .raised
  | .waits q' rest => meaning q s = .more ∧ ∀ t, meaning q (s ++ t) = meaning q' (rest ++ t)

variable {read : Q → Scan σ (Q ⊕ α)} {meaning : Q → Scan σ α}

theorem Denotes.goes (h : Denotes read meaning) {q q' : Q} {s rest : List σ}
    (hs : read q s = .done (.inl q') rest) : meaning q s = meaning q' rest := by
  rw [h q, Scan.bind_done hs]
  rfl

theorem Denotes.ends (h : Denotes read meaning) {q : Q} {s rest : List σ} {a : α}
    (hs : read q s = .done (.inr a) rest) : meaning q s = .done a rest := by
  rw [h q, Scan.bind_done hs]
  rfl

theorem Denotes.more (h : Denotes read meaning) {q : Q} {s : List σ} (hs : read q s = .more) :
    meaning q s = .more := by
  rw [h q, Scan.bind_more hs]

theorem Denotes.raised (h : Denotes read meaning) {q : Q} {s : List σ} (hs : read q s = .raised) :
    meaning q s = .raised := by
  rw [h q, Scan.bind_raised hs]

theorem push_reaches (hread : ∀ q, Steady (read q)) (h : Denotes read meaning) {fuel : Nat} {q : Q}
    {s : List σ} (hfuel : s.length < fuel) : Reaches meaning q s (push read fuel q s) := by
  induction fuel generalizing q s with
  | zero => exact absurd hfuel (Nat.not_lt_zero _)
  | succ fuel ih =>
    rw [push]
    cases hs : read q s with
    | more => exact ⟨h.more hs, fun t => rfl⟩
    | raised => exact h.raised hs
    | done x rest =>
      have hless := (hread q).takes hs
      cases x with
      | inr a => exact h.ends hs
      | inl q' =>
        have hgoes : ∀ t, meaning q (s ++ t) = meaning q' (rest ++ t) := fun t =>
          h.goes ((hread q).stable.done hs t)
        have hrest := ih (q := q') (s := rest) (by omega)
        show Reaches meaning q s (push read fuel q' rest)
        cases hp : push read fuel q' rest with
        | ends a r =>
          rw [hp] at hrest
          exact (h.goes hs).trans hrest
        | raised r =>
          rw [hp] at hrest
          exact (h.goes hs).trans hrest
        | waits q'' r =>
          rw [hp] at hrest
          exact ⟨(h.goes hs).trans hrest.1, fun t => (hgoes t).trans (hrest.2 t)⟩

end Livelock.Lib.Coroutine
