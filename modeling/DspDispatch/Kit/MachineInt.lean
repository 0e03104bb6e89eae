import Mathlib.Tactic.Common
import Mathlib.Algebra.Order.Ring.Int

/-!
# Conversions between machine integers

A conversion to a narrower type keeps the value modulo a power of two. The
value itself survives exactly when it is in the range of the target.
-/

namespace Kit

/-- `static_cast<int>` of an unsigned 64-bit value, `int` having 32 bits. -/
def toInt32 (n : Nat) : Int := Int.bmod n (2 ^ 32)

theorem toInt32_eq_ite (n : Nat) :
    toInt32 n = if n % 2 ^ 32 < 2 ^ 31 then ((n % 2 ^ 32 : Nat) : Int)
      else ((n % 2 ^ 32 : Nat) : Int) - 2 ^ 32 := by
  unfold toInt32
  rw [Int.bmod_def]
  split
  · split
    · rfl
    · omega
  · split
    · omega
    · rfl

theorem toInt32_lt (n : Nat) : toInt32 n < 2 ^ 31 := by
  rw [toInt32_eq_ite]
  split
  · omega
  · omega

theorem toInt32_of_lt {n : Nat} (small : n < 2 ^ 31) : toInt32 n = n := by
  rw [toInt32_eq_ite]
  omega

/-- The conversion keeps the value exactly in the range of the target. -/
theorem toInt32_eq_self_iff {n : Nat} : toInt32 n = n ↔ n < 2 ^ 31 := by
  refine ⟨fun same => ?_, toInt32_of_lt⟩
  have bound := toInt32_lt n
  omega

theorem neg_le_toInt32 (n : Nat) : -2 ^ 31 ≤ toInt32 n := by
  rw [toInt32_eq_ite]
  split
  · omega
  · omega

/-- A value that does not survive becomes smaller. -/
theorem toInt32_le (n : Nat) : toInt32 n ≤ n := by
  rw [toInt32_eq_ite]
  split
  · omega
  · omega

theorem toNat_toInt32_le (n : Nat) : (toInt32 n).toNat ≤ n := by
  have bound := toInt32_le n
  omega

/-- `static_cast` of an unsigned 64-bit value to a signed type of 64 bits. -/
def toInt64 (n : Nat) : Int := Int.bmod n (2 ^ 64)

theorem toInt64_of_lt {n : Nat} (small : n < 2 ^ 63) : toInt64 n = n := by
  unfold toInt64
  rw [Int.bmod_def]
  split
  · omega
  · omega

/-- `static_cast<uint16_t>` of an unsigned value. -/
def toUInt16 (n : Nat) : Nat := n % 2 ^ 16

/-- `static_cast<uint32_t>` of an unsigned value. -/
def toUInt32 (n : Nat) : Nat := n % 2 ^ 32

/-! ## Unsigned 64-bit arithmetic -/

/-- `a + b` of two `size_t` values. -/
@[irreducible] def addSize (a b : Nat) : Nat := (a + b) % 2 ^ 64

/-- `a - b` of two `size_t` values. -/
@[irreducible] def subSize (a b : Nat) : Nat := (a + (2 ^ 64 - b)) % 2 ^ 64

/-- `a * b` of two `size_t` values. -/
@[irreducible] def mulSize (a b : Nat) : Nat := a * b % 2 ^ 64

theorem addSize_of_lt {a b : Nat} (small : a + b < 2 ^ 64) : addSize a b = a + b := by
  rw [addSize, Nat.mod_eq_of_lt small]

theorem subSize_of_le {a b : Nat} (small : a < 2 ^ 64) (le : b ≤ a) : subSize a b = a - b := by
  unfold subSize
  omega

theorem mulSize_of_lt {a b : Nat} (small : a * b < 2 ^ 64) : mulSize a b = a * b := by
  rw [mulSize, Nat.mod_eq_of_lt small]

theorem mulSize_lt (a b : Nat) : mulSize a b < 2 ^ 64 := by
  rw [mulSize]
  exact Nat.mod_lt _ (by decide)

/-- A difference that wraps in a product wraps with it. -/
theorem mulSize_subSize {a b c : Nat} (le : c ≤ b) (small : c < 2 ^ 64) :
    mulSize a (subSize b c) = mulSize a (b - c) := by
  have same : b + (2 ^ 64 - c) = b - c + 2 ^ 64 := by omega
  rw [mulSize, mulSize, subSize, same, Nat.add_mod_right, Nat.mul_mod_mod]

/-- A product keeps its value exactly when it is in range. -/
theorem le_mulSize_iff {a b : Nat} : a * b ≤ mulSize a b ↔ a * b < 2 ^ 64 := by
  unfold mulSize
  omega

/-! ## With and without wraparound -/

/-- Arithmetic of unsigned numbers. -/
structure Arith where
  add : Nat → Nat → Nat
  sub : Nat → Nat → Nat
  mul : Nat → Nat → Nat

namespace Arith

/-- The numbers themselves. -/
abbrev exact : Arith := ⟨(· + ·), (· - ·), (· * ·)⟩

/-- `size_t` values. -/
def size : Arith := ⟨addSize, subSize, mulSize⟩

/-- No result up to `top` has wrapped around. -/
structure Agrees (a : Arith) (top : Nat) : Prop where
  add : ∀ {x y : Nat}, x + y ≤ top → a.add x y = x + y
  sub : ∀ {x y : Nat}, y ≤ x → x ≤ top → a.sub x y = x - y
  mul : ∀ {x y : Nat}, x * y ≤ top → a.mul x y = x * y

theorem Agrees.mono {a : Arith} {top top' : Nat} (agrees : a.Agrees top) (le : top' ≤ top) :
    a.Agrees top' where
  add below := agrees.add (Nat.le_trans below le)
  sub ordered below := agrees.sub ordered (Nat.le_trans below le)
  mul below := agrees.mul (Nat.le_trans below le)

theorem exact_agrees (top : Nat) : exact.Agrees top := ⟨fun _ => rfl, fun _ _ => rfl, fun _ => rfl⟩

theorem size_agrees {top : Nat} (small : top < 2 ^ 64) : size.Agrees top where
  add le := addSize_of_lt (Nat.lt_of_le_of_lt le small)
  sub le below := subSize_of_le (Nat.lt_of_le_of_lt below small) le
  mul le := mulSize_of_lt (Nat.lt_of_le_of_lt le small)

end Arith

/-! ## Narrower types -/

theorem toUInt16_of_lt {n : Nat} (small : n < 2 ^ 16) : toUInt16 n = n := Nat.mod_eq_of_lt small

theorem toUInt32_of_lt {n : Nat} (small : n < 2 ^ 32) : toUInt32 n = n := Nat.mod_eq_of_lt small

end Kit
