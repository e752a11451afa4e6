import Livelock.Lib.Run
import Mathlib.Order.Lattice

namespace Livelock.Lib

/-- One resource held by an owner, until a deadline if one is running. -/
structure Lease (A T : Type) where
  owner : A
  deadline : Option T
deriving DecidableEq

namespace Lease

variable {A T : Type} [DecidableEq A] [LinearOrder T]

/-- What can happen to a single resource. Suspending and resuming concern an
owner as a whole; clearing removes a lease whose deadline has been read past,
and a takeover clears and grants at once. -/
inductive Act (A T : Type)
  | idle
  | grant (a : A)
  | drop (a : A)
  | suspend (a : A) (d : T)
  | resume (a : A)
  | expire (now : T)
  | takeOver (now : T) (a : A)

def stamp (a : A) (m : Option T) : Option (Lease A T) → Option (Lease A T)
  | none => none
  | some x => if x.owner = a then some ⟨a, m⟩ else some x

inductive Step : Option (Lease A T) → Act A T → Option (Lease A T) → Prop
  | idle (x : Option (Lease A T)) : Step x .idle x
  | grant (a : A) : Step none (.grant a) (some ⟨a, none⟩)
  | drop (a : A) (m : Option T) : Step (some ⟨a, m⟩) (.drop a) none
  | suspend (a : A) (d : T) (x : Option (Lease A T)) : Step x (.suspend a d) (stamp a (some d) x)
  | resume (a : A) (x : Option (Lease A T)) : Step x (.resume a) (stamp a none x)
  | expire (a : A) {d now : T} (h : d ≤ now) : Step (some ⟨a, some d⟩) (.expire now) none
  | takeOver (a b : A) {d now : T} (h : d ≤ now) :
      Step (some ⟨a, some d⟩) (.takeOver now b) (some ⟨b, none⟩)

def Act.Clears (act : Act A T) (now : T) : Prop := act = .expire now ∨ ∃ b, act = .takeOver now b

omit [LinearOrder T] in
@[simp] theorem stamp_self (a : A) (m m' : Option T) : stamp a m (some ⟨a, m'⟩) = some ⟨a, m⟩ := by
  simp [stamp]

omit [LinearOrder T] in
theorem stamp_other {a b : A} (h : b ≠ a) (m m' : Option T) :
    stamp a m (some ⟨b, m'⟩) = some ⟨b, m'⟩ := by
  simp [stamp, h]

/-- What one act leaves of a lease of `a`: it is untouched, marked, unmarked,
given up by its owner, or cleared past its deadline. -/
theorem step_held {a : A} {m : Option T} {act : Act A T} {y : Option (Lease A T)}
    (h : Step (some ⟨a, m⟩) act y) :
    (y = some ⟨a, m⟩ ∧ act ≠ .resume a) ∨ (∃ d, act = .suspend a d ∧ y = some ⟨a, some d⟩) ∨
      (act = .resume a ∧ y = some ⟨a, none⟩) ∨ act = .drop a ∨
        ∃ d now, m = some d ∧ d ≤ now ∧ act.Clears now := by
  cases h with
  | idle => exact .inl ⟨rfl, nofun⟩
  | drop => exact .inr (.inr (.inr (.inl rfl)))
  | suspend b d =>
    by_cases hb : a = b
    · subst hb
      exact .inr (.inl ⟨d, rfl, stamp_self a _ _⟩)
    · exact .inl ⟨stamp_other hb _ _, nofun⟩
  | resume b =>
    by_cases hb : a = b
    · subst hb
      exact .inr (.inr (.inl ⟨rfl, stamp_self a _ _⟩))
    · exact .inl ⟨stamp_other hb _ _, fun he => hb (Act.resume.inj he).symm⟩
  | expire _ hd => exact .inr (.inr (.inr (.inr ⟨_, _, rfl, hd, .inl rfl⟩)))
  | takeOver _ b hd => exact .inr (.inr (.inr (.inr ⟨_, _, rfl, hd, .inr ⟨b, rfl⟩⟩)))

omit [LinearOrder T] in
theorem stamp_owned {a b : A} {m m' : Option T} {x : Option (Lease A T)}
    (h : stamp b m' x = some ⟨a, m⟩) : (b = a ∧ m = m' ∧ ∃ m₀, x = some ⟨a, m₀⟩) ∨ x = some ⟨a, m⟩ := by
  cases x with
  | none => cases h
  | some x =>
    obtain ⟨e, m₀⟩ := x
    by_cases he : e = b
    · subst he
      rw [stamp_self, Option.some.injEq, Lease.mk.injEq] at h
      obtain ⟨rfl, rfl⟩ := h
      exact .inl ⟨rfl, rfl, m₀, rfl⟩
    · rw [stamp_other he] at h
      exact .inr h

/-- How a lease that `a` has after one act came about. -/
theorem step_owned {a : A} {m : Option T} {act : Act A T} {x : Option (Lease A T)}
    (h : Step x act (some ⟨a, m⟩)) :
    x = some ⟨a, m⟩ ∨ (m = none ∧ (act = .grant a ∨ ∃ now, act = .takeOver now a)) ∨
      (∃ d m₀, act = .suspend a d ∧ x = some ⟨a, m₀⟩ ∧ m = some d) ∨ (act = .resume a ∧ m = none) := by
  obtain ⟨y, hy⟩ : ∃ y : Option (Lease A T), y = some ⟨a, m⟩ := ⟨_, rfl⟩
  rw [← hy] at h
  cases h with
  | idle => exact .inl hy
  | grant b =>
    cases hy
    exact .inr (.inl ⟨rfl, .inl rfl⟩)
  | drop | expire => cases hy
  | suspend b d =>
    obtain ⟨rfl, rfl, m₀, hx⟩ | hx := stamp_owned hy
    · exact .inr (.inr (.inl ⟨d, m₀, rfl, hx, rfl⟩))
    · exact .inl hx
  | resume b =>
    obtain ⟨rfl, rfl, -⟩ | hx := stamp_owned hy
    · exact .inr (.inr (.inr ⟨rfl, rfl⟩))
    · exact .inl hx
  | takeOver _ b =>
    cases hy
    exact .inr (.inl ⟨rfl, .inr ⟨_, rfl⟩⟩)

theorem step_free {act : Act A T} {y : Option (Lease A T)} (h : Step none act y) :
    y = none ∨ ∃ a, act = .grant a ∧ y = some ⟨a, none⟩ := by
  cases h with
  | grant a => exact .inr ⟨a, rfl, rfl⟩
  | idle | suspend | resume => exact .inl rfl

/-- The mark on a lease that `a` has held all along: none, or the deadline of
a suspension that was not undone. -/
def Stamped (a : A) (acts : List (Act A T)) (m : Option T) : Prop :=
  m = none ∨ ∃ pre d post, acts = pre ++ .suspend a d :: post ∧ .resume a ∉ post ∧ m = some d

/-- The lease that `a` held at the start is over: `a` gave it up, or it was
cleared at or past the deadline of a suspension that was not undone. -/
def Ended (a : A) (acts : List (Act A T)) : Prop :=
  .drop a ∈ acts ∨ ∃ pre d mid act post now, acts = pre ++ .suspend a d :: (mid ++ act :: post) ∧
    .resume a ∉ mid ∧ act.Clears now ∧ d ≤ now

omit [DecidableEq A] in
theorem Ended.snoc {a : A} {acts : List (Act A T)} (h : Ended a acts) (act : Act A T) :
    Ended a (acts ++ [act]) := by
  obtain h | ⟨pre, d, mid, x, post, now, rfl, hr, hx, hd⟩ := h
  · exact .inl (by simp [h])
  · exact .inr ⟨pre, d, mid, x, post ++ [act], now, by simp, hr, hx, hd⟩

omit [DecidableEq A] [LinearOrder T] in
theorem Stamped.snoc {a : A} {acts : List (Act A T)} {m : Option T} (h : Stamped a acts m)
    {act : Act A T} (hact : act ≠ .resume a) : Stamped a (acts ++ [act]) m := by
  obtain h | ⟨pre, d, post, rfl, hr, hm⟩ := h
  · exact .inl h
  · exact .inr ⟨pre, d, post ++ [act], by simp, by simp [hr, Ne.symm hact], hm⟩

theorem held_or_ended {a : A} {acts : List (Act A T)} {x : Option (Lease A T)}
    (h : Run Step (some ⟨a, none⟩) acts x) :
    Ended a acts ∨ ∃ m, x = some ⟨a, m⟩ ∧ Stamped a acts m := by
  induction h with
  | nil => exact .inr ⟨none, rfl, .inl rfl⟩
  | @snoc acts act _ _ _ hs ih =>
    obtain he | ⟨m, rfl, hm⟩ := ih
    · exact .inl (he.snoc act)
    obtain ⟨rfl, hact⟩ | ⟨d, rfl, rfl⟩ | ⟨rfl, rfl⟩ | rfl | ⟨d, now, rfl, hd, hc⟩ := step_held hs
    · exact .inr ⟨m, rfl, hm.snoc hact⟩
    · exact .inr ⟨some d, rfl, .inr ⟨acts, d, [], rfl, by simp, rfl⟩⟩
    · exact .inr ⟨none, rfl, .inl rfl⟩
    · exact .inl (.inl (by simp))
    · obtain ⟨pre, d', post, rfl, hr, he⟩ := hm.resolve_left (by simp)
      cases he
      exact .inl (.inr ⟨pre, d, post, act, [], now, by simp, hr, hc, hd⟩)

theorem step_unclaimed {a : A} {d : T} {act : Act A T} {y : Option (Lease A T)}
    (h : Step (some ⟨a, some d⟩) act y) (hsus : ∀ d', act ≠ .suspend a d') (hres : act ≠ .resume a)
    (htake : ∀ now b, act ≠ .takeOver now b) : y = some ⟨a, some d⟩ ∨ y = none := by
  cases h with
  | idle => exact .inl rfl
  | drop | expire => exact .inr rfl
  | suspend b d' =>
    by_cases hb : a = b
    · subst hb
      exact absurd rfl (hsus d')
    · exact .inl (stamp_other hb _ _)
  | resume b =>
    by_cases hb : a = b
    · subst hb
      exact absurd rfl hres
    · exact .inl (stamp_other hb _ _)
  | takeOver _ b => exact absurd rfl (htake _ b)

end Lease

end Livelock.Lib
