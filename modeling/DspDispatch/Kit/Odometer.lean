import Mathlib.Algebra.BigOperators.Intervals
import Mathlib.Algebra.Order.BigOperators.Ring.Finset
import Mathlib.Tactic.Common

/-!
# Odometers

A number below `span r n 0` is a position in a box of `n` axes of the sizes `r`, the last
axis the fastest; `digit` is the position on one axis. `digit_succ_of_lt` and
`digit_succ_of_carry` say what one more does to the positions when they are advanced from
the last axis on, as an odometer does: an axis that does not pass its size moves on and is
the last to change, another one starts again and carries.

`exists_digits` and `digits_injective` make the positions a numbering of the box.
-/

namespace Kit

open Finset

section Odometer

variable {r : Nat → Nat} {n i j k : Nat}

/-- The positions of the axes from `i` to `n`. -/
def span (r : Nat → Nat) (n i : Nat) : Nat := ∏ j ∈ Ico i n, r j

/-- The position on axis `i` in the `k`th position of all. -/
def digit (r : Nat → Nat) (n k i : Nat) : Nat := k / span r n (i + 1) % r i

theorem span_eq (below : i < n) : span r n i = r i * span r n (i + 1) :=
  prod_eq_prod_Ico_succ_bot below r

theorem span_self (r : Nat → Nat) (n : Nat) : span r n n = 1 := by
  rw [span, Ico_self, prod_empty]

theorem span_pos (positive : ∀ j, j < n → 0 < r j) (i : Nat) : 0 < span r n i :=
  prod_pos fun j member => positive j (mem_Ico.mp member).2

theorem span_dvd_span (le : i ≤ j) (inside : j ≤ n) : span r n j ∣ span r n i :=
  ⟨∏ l ∈ Ico i j, r l, by rw [span, span, mul_comm, prod_Ico_consecutive r le inside]⟩

theorem digit_lt (positive : 0 < r i) : digit r n k i < r i := Nat.mod_lt _ positive

theorem digit_zero (r : Nat → Nat) (n i : Nat) : digit r n 0 i = 0 := by
  rw [digit, Nat.zero_div, Nat.zero_mod]

/-- An axis of one position. -/
theorem digit_of_one (one : r i = 1) : digit r n k i = 0 := by
  rw [digit, one, Nat.mod_one]

/-- A multiple of what an axis and the faster ones run through does not change them. -/
theorem digit_add_multiple (positive : ∀ j, j < n → 0 < r j) (below : i < n) {a : Nat}
    (multiple : span r n i ∣ a) : digit r n (k + a) i = digit r n k i := by
  obtain ⟨c, rfl⟩ := multiple
  have apart : span r n i * c = span r n (i + 1) * (c * r i) := by
    rw [span_eq below]
    ring
  rw [digit, digit, apart, Nat.add_mul_div_left _ _ (span_pos positive (i + 1)),
    Nat.add_mul_mod_self_right]

/-! ## One more -/

section Succ

/-- When the faster axes start again, the quotient by their positions grows by one. -/
theorem exists_quotient (positive : ∀ j, j < n → 0 < r j) (multiple : span r n i ∣ k + 1) :
    ∃ q, k / span r n i = q ∧ k + 1 = span r n i * (q + 1) := by
  obtain ⟨c, whole⟩ := multiple
  have unit := span_pos positive i
  obtain ⟨q, rfl⟩ : ∃ q, c = q + 1 := by
    refine ⟨c - 1, ?_⟩
    rcases Nat.eq_zero_or_pos c with rfl | other
    · rw [Nat.mul_zero] at whole
      omega
    · omega
  refine ⟨q, ?_, whole⟩
  rw [Nat.mul_add_one] at whole
  have last : k = span r n i * q + (span r n i - 1) := by omega
  rw [last, Nat.mul_add_div unit, Nat.div_eq_of_lt (by omega), Nat.add_zero]

/-- The axis moves on, and the slower ones stay. -/
theorem digit_succ_of_lt (positive : ∀ j, j < n → 0 < r j) (below : i < n)
    (multiple : span r n (i + 1) ∣ k + 1) (room : digit r n k i + 1 < r i) :
    digit r n (k + 1) i = digit r n k i + 1 ∧ ∀ j, j < i → digit r n (k + 1) j = digit r n k j := by
  obtain ⟨q, before, whole⟩ := exists_quotient positive multiple
  have after : (k + 1) / span r n (i + 1) = q + 1 := by
    rw [whole, Nat.mul_div_cancel_left _ (span_pos positive (i + 1))]
  rw [digit, before] at room
  have next : q + 1 = r i * (q / r i) + (q % r i + 1) := by
    have parts := Nat.div_add_mod q (r i)
    omega
  refine ⟨?_, fun j slower => ?_⟩
  · rw [digit, digit, after, before, next, Nat.mul_add_mod, Nat.mod_eq_of_lt room]
  · obtain ⟨d, outer⟩ := span_dvd_span (r := r) (Nat.succ_le_of_lt slower) (Nat.le_of_lt below)
    have quotient : (q + 1) / r i = q / r i := by
      rw [next, Nat.mul_add_div (positive i below), Nat.div_eq_of_lt room, Nat.add_zero]
    have nested : ∀ m, m / span r n (j + 1) = m / span r n (i + 1) / r i / d := by
      intro m
      rw [outer, span_eq below, Nat.mul_comm (r i), Nat.div_div_eq_div_mul, Nat.div_div_eq_div_mul,
        Nat.mul_assoc]
    rw [digit, digit, nested, nested, after, before, quotient]

/-- The axis starts again, and the next one is to move. -/
theorem digit_succ_of_carry (positive : ∀ j, j < n → 0 < r j) (below : i < n)
    (multiple : span r n (i + 1) ∣ k + 1) (full : ¬ digit r n k i + 1 < r i) :
    digit r n (k + 1) i = 0 ∧ span r n i ∣ k + 1 := by
  obtain ⟨q, before, whole⟩ := exists_quotient positive multiple
  have inside := digit_lt (k := k) (n := n) (positive i below)
  rw [digit, before] at full inside
  have turn : r i ∣ q + 1 := by
    have parts := Nat.div_add_mod q (r i)
    have last : q + 1 = r i * (q / r i) + r i := by omega
    exact ⟨q / r i + 1, by rw [last, Nat.mul_add_one]⟩
  refine ⟨?_, ?_⟩
  · rw [digit, whole, Nat.mul_div_cancel_left _ (span_pos positive (i + 1))]
    exact Nat.mod_eq_zero_of_dvd turn
  · rw [whole, span_eq below, Nat.mul_comm (r i)]
    exact Nat.mul_dvd_mul_left _ turn

end Succ

/-! ## The numbering -/

/-- The positions of the last axes determine the remainder. -/
theorem mod_span_eq {l : Nat} (le : i ≤ n)
    (same : ∀ j, i ≤ j → j < n → digit r n k j = digit r n l j) :
    k % span r n i = l % span r n i := by
  induction le using Nat.decreasingInduction with
  | self => rw [span_self, Nat.mod_one, Nat.mod_one]
  | of_succ i below ih =>
    have inner := ih fun j from_i inside => same j (Nat.le_of_succ_le from_i) inside
    have here := same i (Nat.le_refl i) below
    rw [digit, digit] at here
    rw [span_eq below, Nat.mul_comm (r i), Nat.mod_mul, Nat.mod_mul, inner, here]

/-- Different numbers are different positions. -/
theorem digits_injective {l : Nat} (hk : k < span r n 0) (hl : l < span r n 0)
    (same : ∀ j, j < n → digit r n k j = digit r n l j) : k = l := by
  have whole := mod_span_eq (Nat.zero_le n) fun j _ inside => same j inside
  rwa [Nat.mod_eq_of_lt hk, Nat.mod_eq_of_lt hl] at whole

/-- Every position has a number. -/
theorem exists_digits (positive : ∀ j, j < n → 0 < r j) {pos : Nat → Nat}
    (box : ∀ j, j < n → pos j < r j) :
    ∃ k, k < span r n 0 ∧ ∀ j, j < n → digit r n k j = pos j := by
  have all : ∀ i, i ≤ n → ∃ k, k < span r n i ∧ ∀ j, i ≤ j → j < n → digit r n k j = pos j := by
    intro i le
    induction le using Nat.decreasingInduction with
    | self => exact ⟨0, by rw [span_self]; exact Nat.one_pos, fun j from_n inside => by omega⟩
    | of_succ i below ih =>
      obtain ⟨k, small, digits⟩ := ih
      have unit := span_pos positive (i + 1)
      refine ⟨k + span r n (i + 1) * pos i, ?_, fun j from_i inside => ?_⟩
      · have step := Nat.mul_le_mul_right (span r n (i + 1)) (box i below)
        rw [Nat.succ_mul, Nat.mul_comm (pos i)] at step
        rw [span_eq below]
        omega
      · rcases Nat.eq_or_lt_of_le from_i with rfl | faster
        · rw [digit, Nat.add_mul_div_left _ _ unit, Nat.div_eq_of_lt small, Nat.zero_add,
            Nat.mod_eq_of_lt (box i below)]
        · rw [digit_add_multiple positive inside
            ((span_dvd_span faster (Nat.le_of_lt inside)).mul_right _)]
          exact digits j faster inside
  obtain ⟨k, small, digits⟩ := all 0 (Nat.zero_le n)
  exact ⟨k, small, fun j inside => digits j (Nat.zero_le j) inside⟩

end Odometer

end Kit
