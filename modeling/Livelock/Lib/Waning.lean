import Mathlib.Algebra.BigOperators.Group.Finset.Basic
import Mathlib.Algebra.Order.Field.Basic
import Mathlib.Tactic.Linarith
import Mathlib.Tactic.Ring

namespace Livelock.Lib

open Finset

variable {K : Type} [Field K] [LinearOrder K] [IsStrictOrderedRing K] {x gap delay : Nat → K}

/-- In each round a gap is taken, then half of what is left, then a delay. Once
the gap takes all that is left it stays so. -/
structure Wanes (x gap delay : Nat → K) : Prop where
  gap_nonneg : ∀ m, 0 ≤ gap m
  delay_nonneg : ∀ m, 0 ≤ delay m
  half : ∀ m, gap m < x m → x (m + 1) = (x m - gap m) / 2 - delay m
  gone : ∀ m, x m ≤ gap m → x (m + 1) ≤ 0

namespace Wanes

def spent (gap delay : Nat → K) (m : Nat) : K := ∑ i ∈ range m, 2 ^ i * (gap i + 2 * delay i)

omit [LinearOrder K] [IsStrictOrderedRing K] in
theorem spent_succ (gap delay : Nat → K) (m : Nat) :
    spent gap delay (m + 1) = spent gap delay m + 2 ^ m * (gap m + 2 * delay m) :=
  sum_range_succ _ m

theorem left_or_over (h : Wanes x gap delay) (m : Nat) :
    2 ^ m * x m = x 0 - spent gap delay m ∨ (x m ≤ 0 ∧ x 0 ≤ spent gap delay m) := by
  induction m with
  | zero =>
    left
    rw [spent, range_zero, sum_empty, pow_zero, one_mul, sub_zero]
  | succ m ih =>
    have hpow : (0 : K) < 2 ^ m := pow_pos two_pos m
    have hgap : 0 ≤ 2 ^ m * gap m := mul_nonneg hpow.le (h.gap_nonneg m)
    have hdelay : 0 ≤ 2 ^ m * delay m := mul_nonneg hpow.le (h.delay_nonneg m)
    have hspent : spent gap delay (m + 1) =
        spent gap delay m + 2 ^ m * gap m + 2 * (2 ^ m * delay m) := by
      rw [spent_succ]
      ring
    obtain hleft | ⟨hover, hstart⟩ := ih
    · obtain hlt | hle := lt_or_ge (gap m) (x m)
      · left
        have hnext : 2 ^ (m + 1) * x (m + 1) = 2 ^ m * x m - 2 ^ m * gap m - 2 * (2 ^ m * delay m) := by
          rw [h.half m hlt]
          ring
        rw [hnext, hleft, hspent]
        ring
      · right
        have hmul : 2 ^ m * x m ≤ 2 ^ m * gap m := mul_le_mul_of_nonneg_left hle hpow.le
        exact ⟨h.gone m hle, by linarith⟩
    · exact .inr ⟨h.gone m (hover.trans (h.gap_nonneg m)), by linarith⟩

/-- Nothing is left when the gaps and delays have come up to the start. -/
theorem nonpos_iff (h : Wanes x gap delay) (m : Nat) : x m ≤ 0 ↔ x 0 ≤ spent gap delay m := by
  have hpow : (0 : K) < 2 ^ m := pow_pos two_pos m
  obtain hleft | ⟨hover, hstart⟩ := h.left_or_over m
  · rw [← sub_nonpos (a := x 0), ← hleft]
    exact ⟨mul_nonpos_of_nonneg_of_nonpos hpow.le, fun hle => nonpos_of_mul_nonpos_right hle hpow⟩
  · exact iff_of_true hover hstart

end Wanes

end Livelock.Lib
