import DspDispatch.Kit.Cells
import DspDispatch.Kit.MachineInt
import DspDispatch.Kit.MixedRadix
import DspDispatch.Pocketfft.Cmplx
import Mathlib.Data.Nat.Bitwise

/-!
# Tables of twiddle factors (`sincos_2pibyn`)

The table of length `n` holds two short arrays, one for the low bits of an index and one
for the others, and multiplies an entry of each. Its entries come from `calc`, which
reduces an angle to the first octant; indices beyond the half are mirrored.

The index arithmetic of the source is in `size_t` (`Arith.size`). Nothing in it exceeds
`8 * n`, so that below `2 ^ 64 / 8` the table is the one of exact arithmetic, which the
transforms take.
-/

namespace DspDispatch.Pocketfft

open Kit

/-- `sincos_2pibyn<T>`. -/
structure SinCos (K : Type) where
  n : Nat
  mask : Nat
  shift : Nat
  v1 : List (Cmplx K)
  v2 : List (Cmplx K)

namespace SinCos

section Model

variable {K : Type} [Field K] (a : Arith)

/-- `calc`, the angle `x / n` reduced to eighths of the circle. -/
def calcAngle (t : Trig K) (x n : Nat) : Cmplx K :=
  let cos := fun y : Nat => t.cos (y / (8 * n))
  let sin := fun y : Nat => t.sin (y / (8 * n))
  let x := a.mul 8 x
  if x < a.mul 4 n then
    if x < a.mul 2 n then
      if x < n then ⟨cos x, sin x⟩ else ⟨sin (a.sub (a.mul 2 n) x), cos (a.sub (a.mul 2 n) x)⟩
    else
      let x := a.sub x (a.mul 2 n)
      if x < n then ⟨-sin x, cos x⟩ else ⟨-cos (a.sub (a.mul 2 n) x), sin (a.sub (a.mul 2 n) x)⟩
  else
    let x := a.sub (a.mul 8 n) x
    if x < a.mul 2 n then
      if x < n then ⟨cos x, -sin x⟩ else ⟨sin (a.sub (a.mul 2 n) x), -cos (a.sub (a.mul 2 n) x)⟩
    else
      let x := a.sub x (a.mul 2 n)
      if x < n then ⟨-sin x, -cos x⟩ else ⟨-cos (a.sub (a.mul 2 n) x), -sin (a.sub (a.mul 2 n) x)⟩

/-- The loop that looks for the number of low bits. -/
def findShift (nval : Nat) : Option Nat :=
  whileLoop (fun shift => decide (a.mul (2 ^ shift) (2 ^ shift) < nval)) (· + 1) nval 1

/-- The constructor. -/
def makeWith (t : Trig K) (n : Nat) : Option (SinCos K) := do
  let nval := a.add n 2 / 2
  let shift ← findShift a nval
  let mask := 2 ^ shift - 1
  let entry := fun i => if i = 0 then ⟨1, 0⟩ else calcAngle a t i n
  some {
    n, mask, shift
    v1 := tabulate (mask + 1) entry
    v2 := tabulate (a.add nval mask / (mask + 1)) fun i => entry (a.mul i (mask + 1)) }

/-- The product of the two entries of an index of the first half. -/
def entries (s : SinCos K) (idx : Nat) : Option (Cmplx K) := do
  let x1 ← s.v1[idx &&& s.mask]?
  let x2 ← s.v2[idx >>> s.shift]?
  some ⟨x1.r * x2.r - x1.i * x2.i, x1.r * x2.i + x1.i * x2.r⟩

/-- `operator[]`. -/
def getWith (s : SinCos K) (idx : Nat) : Option (Cmplx K) :=
  if a.mul 2 idx ≤ s.n then s.entries idx
  else (s.entries (a.sub s.n idx)).map fun x => ⟨x.r, -x.i⟩

/-- The constructor without wraparound. -/
def make (t : Trig K) (n : Nat) : Option (SinCos K) := makeWith .exact t n

/-- `operator[]` without wraparound. -/
def get (s : SinCos K) (idx : Nat) : Option (Cmplx K) := s.getWith .exact idx

end Model

end SinCos

/-! ## Exact angles -/

/-- A twiddle factor from cosine and sine. -/
theorem twiddle_inverse_eq (n m : Nat) :
    ofComplex (twiddle false n m) = ⟨Trig.real.cos (m / n), Trig.real.sin (m / n)⟩ := by
  have angle : (if false = true then -1 else 1) * (2 * Real.pi * Complex.I * m / n) =
      ((2 * Real.pi * ((m : ℚ) / n : ℚ) : ℝ) : ℂ) * Complex.I := by
    rw [if_neg Bool.false_ne_true]
    push_cast
    ring
  rw [twiddle, angle]
  ext
  · rw [ofComplex_r, Complex.exp_ofReal_mul_I_re, Trig.real_cos]
  · rw [ofComplex_i, Complex.exp_ofReal_mul_I_im, Trig.real_sin]

section Turns

variable (q : ℚ)

theorem cos_quarter_sub : Trig.real.cos (1 / 4 - q) = Trig.real.sin q := by
  rw [Trig.real_cos, Trig.real_sin]
  rw [← Real.cos_pi_div_two_sub]
  congr 1
  push_cast
  ring

theorem sin_quarter_sub : Trig.real.sin (1 / 4 - q) = Trig.real.cos q := by
  rw [Trig.real_cos, Trig.real_sin]
  rw [← Real.sin_pi_div_two_sub]
  congr 1
  push_cast
  ring

theorem cos_quarter_add : Trig.real.cos (1 / 4 + q) = -Trig.real.sin q := by
  rw [Trig.real_cos, Trig.real_sin]
  rw [← Real.cos_add_pi_div_two]
  congr 1
  push_cast
  ring

theorem sin_quarter_add : Trig.real.sin (1 / 4 + q) = Trig.real.cos q := by
  rw [Trig.real_cos, Trig.real_sin]
  rw [← Real.sin_add_pi_div_two]
  congr 1
  push_cast
  ring

theorem cos_one_sub : Trig.real.cos (1 - q) = Trig.real.cos q := by
  rw [Trig.real_cos, Trig.real_cos]
  rw [← Real.cos_two_pi_sub]
  congr 1
  push_cast
  ring

theorem sin_one_sub : Trig.real.sin (1 - q) = -Trig.real.sin q := by
  rw [Trig.real_sin, Trig.real_sin]
  rw [← Real.sin_two_pi_sub]
  congr 1
  push_cast
  ring

end Turns

namespace SinCos

section Correct

variable {a : Arith} {n : Nat}

/-- The reduction is exact. -/
theorem calcAngle_agrees (agrees : a.Agrees (8 * n)) {x : Nat} (below : x < n) :
    calcAngle a Trig.real x n = calcAngle .exact Trig.real x n := by
  have eighths : a.mul 8 x = 8 * x := agrees.mul (by omega)
  have two : a.mul 2 n = 2 * n := agrees.mul (by omega)
  have four : a.mul 4 n = 4 * n := agrees.mul (by omega)
  have eight : a.mul 8 n = 8 * n := agrees.mul (Nat.le_refl _)
  -- the differences of an angle in the first half of a half turn
  have octants : ∀ y, y ≤ 4 * n → ¬ y < 2 * n → a.sub y (2 * n) = y - 2 * n ∧
      a.sub (2 * n) (y - 2 * n) = 2 * n - (y - 2 * n) := fun y _ _ =>
    ⟨agrees.sub (by omega) (by omega), agrees.sub (by omega) (by omega)⟩
  have quarter : ∀ y, y < 2 * n → a.sub (2 * n) y = 2 * n - y := fun y _ =>
    agrees.sub (by omega) (by omega)
  have whole : a.sub (8 * n) (8 * x) = 8 * n - 8 * x := agrees.sub (by omega) (by omega)
  unfold calcAngle
  simp only [eighths, two, four, eight, whole]
  refine ite_congr rfl (fun half => ite_congr rfl (fun first => ?_) fun second => ?_)
    fun half => ite_congr rfl (fun third => ?_) fun fourth => ?_
  · rw [quarter _ first]
  · obtain ⟨less, rest⟩ := octants (8 * x) (by omega) second
    rw [less, rest]
  · rw [quarter _ third]
  · obtain ⟨less, rest⟩ := octants (8 * n - 8 * x) (by omega) fourth
    rw [less, rest]

/-- The reduction to the first octant gives the twiddle factor. -/
theorem calcAngle_eq (agrees : a.Agrees (8 * n)) {x : Nat} (below : x < n) :
    calcAngle a Trig.real x n = ofComplex (twiddle false n x) := by
  have positive : (n : ℚ) ≠ 0 := Nat.cast_ne_zero.mpr (by omega)
  have turns : ((8 * x : Nat) : ℚ) / (8 * n) = x / n := by
    push_cast
    rw [mul_div_mul_left _ _ (by norm_num)]
  have quarter : ∀ y z : Nat, y + z = 2 * n →
      (y : ℚ) / (8 * n) = 1 / 4 - (z : ℚ) / (8 * n) := by
    intro y z whole
    have cast : (y : ℚ) + z = 2 * n := by exact_mod_cast whole
    field_simp
    linarith
  have mirror : ∀ y z : Nat, y + z = 8 * n → (y : ℚ) / (8 * n) = 1 - (z : ℚ) / (8 * n) := by
    intro y z whole
    have cast : (y : ℚ) + z = 8 * n := by exact_mod_cast whole
    field_simp
    linarith
  have half : ∀ y z : Nat, y = z + 2 * n → (y : ℚ) / (8 * n) = 1 / 4 + (z : ℚ) / (8 * n) := by
    intro y z whole
    have cast : (y : ℚ) = z + 2 * n := by exact_mod_cast whole
    field_simp
    linarith
  rw [calcAngle_agrees agrees below, twiddle_inverse_eq, ← turns]
  unfold calcAngle
  dsimp only
  split
  · split
    · split
      · rfl
      · rw [quarter (2 * n - 8 * x) (8 * x) (by omega), sin_quarter_sub, cos_quarter_sub]
    · have place := half (8 * x) (8 * x - 2 * n) (by omega)
      split
      · rw [place, cos_quarter_add, sin_quarter_add]
      · rw [quarter (2 * n - (8 * x - 2 * n)) (8 * x - 2 * n) (by omega), sin_quarter_sub,
          cos_quarter_sub, place, cos_quarter_add, sin_quarter_add]
  · have place := mirror (8 * x) (8 * n - 8 * x) (by omega)
    rw [place, cos_one_sub, sin_one_sub]
    split
    · split
      · rfl
      · rw [quarter (2 * n - (8 * n - 8 * x)) (8 * n - 8 * x) (by omega), sin_quarter_sub,
          cos_quarter_sub]
    · have place' := half (8 * n - 8 * x) (8 * n - 8 * x - 2 * n) (by omega)
      rw [place', cos_quarter_add, sin_quarter_add]
      split
      · rfl
      · rw [quarter (2 * n - (8 * n - 8 * x - 2 * n)) (8 * n - 8 * x - 2 * n) (by omega),
          sin_quarter_sub, cos_quarter_sub]

/-- The search ends at a power of two whose square is not much larger than the value. -/
theorem exists_findShift {nval : Nat} (positive : 0 < nval) (agrees : a.Agrees (4 * nval)) :
    ∃ shift, findShift a nval = some shift ∧ 2 * 2 ^ shift ≤ 4 * nval := by
  obtain ⟨shift, run, ⟨-, even, small⟩, -⟩ := whileLoop_total
    (fun shift => decide (a.mul (2 ^ shift) (2 ^ shift) < nval)) (· + 1)
    (fun shift => 1 ≤ shift ∧ 2 ≤ 2 ^ shift ∧ 2 ^ shift * 2 ^ shift ≤ 4 * nval)
    (fun shift => nval - shift)
    (by
      rintro shift ⟨above, even, small⟩ more
      have wide : shift < 2 ^ shift := Nat.lt_two_pow_self
      have larger : 2 ^ shift ≤ 2 ^ shift * 2 ^ shift := Nat.le_mul_of_pos_left _ (by positivity)
      have short := of_decide_eq_true more
      rw [agrees.mul small] at short
      have next : 2 ^ (shift + 1) * 2 ^ (shift + 1) = 4 * (2 ^ shift * 2 ^ shift) := by ring
      have double : 2 ^ (shift + 1) = 2 * 2 ^ shift := by ring
      exact ⟨⟨by omega, by omega, by omega⟩, by omega⟩)
    nval 1 ⟨Nat.le_refl 1, by decide, by omega⟩ (Nat.sub_le _ _)
  exact ⟨shift, run, Nat.le_trans (Nat.mul_le_mul_right _ even) small⟩

/-- Every entry but the first is computed. -/
theorem entry_eq (agrees : a.Agrees (8 * n)) {i : Nat} (below : i < n) :
    (if i = 0 then ⟨1, 0⟩ else calcAngle a Trig.real i n) = ofComplex (twiddle false n i) := by
  split
  · rename_i first
    rw [first, twiddle_zero]
    rfl
  · exact calcAngle_eq agrees below

/-- The two arrays hold the twiddle factors that indices of the first half split into. -/
structure Sound (s : SinCos ℝ) : Prop where
  mask_eq : s.mask = 2 ^ s.shift - 1
  low : ∀ i, i < 2 ^ s.shift → 2 * i ≤ s.n → s.v1[i]? = some (ofComplex (twiddle false s.n i))
  high : ∀ i, 2 * (i * 2 ^ s.shift) ≤ s.n →
    s.v2[i]? = some (ofComplex (twiddle false s.n (i * 2 ^ s.shift)))

theorem exists_makeWith (positive : 0 < n) (agrees : a.Agrees (8 * n)) :
    ∃ s, makeWith a Trig.real n = some s ∧ s.n = n ∧ s.Sound := by
  have nval : a.add n 2 = n + 2 := agrees.add (by omega)
  have search : a.Agrees (4 * ((n + 2) / 2)) := agrees.mono (by omega)
  obtain ⟨shift, found, narrow⟩ := exists_findShift (by omega) search
  have size : 2 ^ shift - 1 + 1 = 2 ^ shift := Nat.sub_add_cancel Nat.one_le_two_pow
  have count : a.add ((n + 2) / 2) (2 ^ shift - 1) = (n + 2) / 2 + (2 ^ shift - 1) :=
    agrees.add (by omega)
  refine ⟨_, by rw [makeWith, nval, found]; rfl, rfl, rfl, ?_, ?_⟩
  · intro i small half
    dsimp only at small half ⊢
    rw [size, getElem?_tabulate small, entry_eq agrees (by omega)]
  · intro i half
    dsimp only at half ⊢
    have below : i < ((n + 2) / 2 + (2 ^ shift - 1)) / 2 ^ shift := by
      rw [Nat.lt_iff_add_one_le, Nat.le_div_iff_mul_le (Nat.two_pow_pos shift), Nat.add_one_mul]
      omega
    have place : a.mul i (2 ^ shift) = i * 2 ^ shift := agrees.mul (by omega)
    rw [size, count, getElem?_tabulate below, place, entry_eq agrees (by omega)]

/-- The constructor without wraparound succeeds for every length. -/
theorem exists_make (positive : 0 < n) :
    ∃ s, make Trig.real n = some s ∧ s.n = n ∧ s.Sound :=
  exists_makeWith positive (Arith.exact_agrees _)

theorem Sound.entries_eq {s : SinCos ℝ} (sound : s.Sound) {idx : Nat} (half : 2 * idx ≤ s.n) :
    s.entries idx = some (ofComplex (twiddle false s.n idx)) := by
  -- an index of the first half splits into its low and its high part
  have split := Nat.mod_add_div idx (2 ^ s.shift)
  have low := Nat.mod_lt idx (Nat.two_pow_pos s.shift)
  have small := Nat.mod_le idx (2 ^ s.shift)
  have place : idx / 2 ^ s.shift * 2 ^ s.shift ≤ idx := Nat.div_mul_le_self _ _
  have first := sound.low (idx % 2 ^ s.shift) low (by omega)
  have second := sound.high (idx / 2 ^ s.shift) (by omega)
  have product := ofComplex_mul (twiddle false s.n (idx % 2 ^ s.shift))
    (twiddle false s.n (idx / 2 ^ s.shift * 2 ^ s.shift))
  rw [← twiddle_add, Nat.mul_comm (idx / 2 ^ s.shift), split] at product
  rw [Nat.mul_comm (idx / 2 ^ s.shift)] at second
  rw [entries, sound.mask_eq, Nat.and_two_pow_sub_one_eq_mod, Nat.shiftRight_eq_div_pow, first,
    second]
  exact congrArg some product

/-- A table holds all twiddle factors up to a whole turn. -/
theorem Sound.getWith_eq {s : SinCos ℝ} (sound : s.Sound) (agrees : a.Agrees (2 * s.n)) {idx : Nat}
    (positive : 0 < s.n) (inside : idx ≤ s.n) :
    s.getWith a idx = some (ofComplex (twiddle false s.n idx)) := by
  have twice : a.mul 2 idx = 2 * idx := agrees.mul (by omega)
  have mirrored : a.sub s.n idx = s.n - idx := agrees.sub inside (by omega)
  rw [getWith, twice, mirrored]
  split
  · rename_i half
    exact sound.entries_eq half
  · rename_i half
    rw [sound.entries_eq (by omega), Option.map_some]
    -- the mirrored entry is the conjugate
    have whole : twiddle false s.n (s.n - idx) * twiddle false s.n idx = 1 := by
      rw [← twiddle_add, Nat.sub_add_cancel inside, twiddle_self positive]
    have opposite := twiddle_mul_twiddle false s.n (s.n - idx)
    have nonzero := left_ne_zero_of_mul_eq_one whole
    have conj := conj_twiddle false s.n (s.n - idx)
    rw [mul_left_cancel₀ nonzero (whole.trans opposite.symm), ← conj]
    rfl

theorem Sound.get_eq {s : SinCos ℝ} (sound : s.Sound) {idx : Nat} (positive : 0 < s.n)
    (inside : idx ≤ s.n) : s.get idx = some (ofComplex (twiddle false s.n idx)) :=
  sound.getWith_eq (Arith.exact_agrees _) positive inside

/-- The table of a length below `2 ^ 61` is made, and holds its twiddle factors. -/
theorem make_get {n : Nat} (positive : 0 < n) (small : 8 * n < 2 ^ 64) :
    ∃ s, makeWith .size Trig.real n = some s ∧
      ∀ idx, idx ≤ n → s.getWith .size idx = some (ofComplex (twiddle false n idx)) := by
  obtain ⟨s, made, rfl, sound⟩ := exists_makeWith positive (Arith.size_agrees small)
  exact ⟨s, made, fun idx inside => sound.getWith_eq (Arith.size_agrees (by omega)) positive inside⟩

theorem make_get_five :
    ∃ s, makeWith .size Trig.real 5 = some s ∧
      ∀ idx, idx ≤ 5 → s.getWith .size idx = some (ofComplex (twiddle false 5 idx)) :=
  make_get (by decide) (by decide)

end Correct

end SinCos

end DspDispatch.Pocketfft
