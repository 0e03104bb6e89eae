import DspDispatch.Kit.Dft

/-!
# Complex numbers of pocketfft (`third_party/pocketfft/pocketfft_hdronly.h`)

`cmplx<T>` and the operations on it, over any field of components. Angles are counted
in turns: `Trig K` has the cosine and the sine of a fraction of the full circle, and the
decimal constants of the source are such values. Over the real numbers the operations
are those of `ℂ` (`ofComplex`).
-/

namespace DspDispatch.Pocketfft

open Kit

@[ext] structure Cmplx (K : Type) where
  r : K
  i : K
deriving DecidableEq, Repr

/-- Cosine and sine of a number of turns. -/
structure Trig (K : Type) where
  cos : ℚ → K
  sin : ℚ → K

namespace Cmplx

variable {K : Type} [Field K]

instance : Add (Cmplx K) := ⟨fun a b => ⟨a.r + b.r, a.i + b.i⟩⟩

instance : Sub (Cmplx K) := ⟨fun a b => ⟨a.r - b.r, a.i - b.i⟩⟩

instance : Mul (Cmplx K) := ⟨fun a b => ⟨a.r * b.r - a.i * b.i, a.r * b.i + a.i * b.r⟩⟩

instance : Zero (Cmplx K) := ⟨⟨0, 0⟩⟩

instance : Inhabited (Cmplx K) := ⟨0⟩

/-- `operator*` with a component. -/
def scale (a : Cmplx K) (x : K) : Cmplx K := ⟨a.r * x, a.i * x⟩

/-- `special_mul`: in the forward direction the second factor is conjugated. -/
def specialMul (fwd : Bool) (v w : Cmplx K) : Cmplx K :=
  if fwd then ⟨v.r * w.r + v.i * w.i, v.i * w.r - v.r * w.i⟩
  else ⟨v.r * w.r - v.i * w.i, v.r * w.i + v.i * w.r⟩

/-- `ROTX90`. -/
def rotx90 (fwd : Bool) (a : Cmplx K) : Cmplx K := if fwd then ⟨a.i, -a.r⟩ else ⟨-a.i, a.r⟩

/-- `ROTX45`; the constant is the square root of one half. -/
def rotx45 (t : Trig K) (fwd : Bool) (a : Cmplx K) : Cmplx K :=
  let hsqt2 := t.cos (1 / 8)
  if fwd then ⟨hsqt2 * (a.r + a.i), hsqt2 * (a.i - a.r)⟩
  else ⟨hsqt2 * (a.r - a.i), hsqt2 * (a.i + a.r)⟩

/-- `ROTX135`. -/
def rotx135 (t : Trig K) (fwd : Bool) (a : Cmplx K) : Cmplx K :=
  let hsqt2 := t.cos (1 / 8)
  if fwd then ⟨hsqt2 * (a.i - a.r), hsqt2 * (-a.r - a.i)⟩
  else ⟨hsqt2 * (-a.r - a.i), hsqt2 * (a.r - a.i)⟩

end Cmplx

/-- `PM`: sum and difference. -/
def pm {α : Type} [Add α] [Sub α] (c d : α) : α × α := (c + d, c - d)

/-! ## Over the real numbers -/

/-- The functions of the standard library, over exact arithmetic. -/
noncomputable def Trig.real : Trig ℝ where
  cos q := Real.cos (Real.pi * (2 * q : ℚ))
  sin q := Real.sin (Real.pi * (2 * q : ℚ))

theorem Trig.real_cos (q : ℚ) : Trig.real.cos q = Real.cos (2 * Real.pi * q) := by
  change Real.cos (Real.pi * (2 * q : ℚ)) = _
  rw [Rat.cast_mul, Rat.cast_ofNat, mul_left_comm, mul_assoc]

theorem Trig.real_sin (q : ℚ) : Trig.real.sin q = Real.sin (2 * Real.pi * q) := by
  change Real.sin (Real.pi * (2 * q : ℚ)) = _
  rw [Rat.cast_mul, Rat.cast_ofNat, mul_left_comm, mul_assoc]

/-- A complex number as a pair. -/
def ofComplex (z : ℂ) : Cmplx ℝ := ⟨z.re, z.im⟩

@[simp] theorem ofComplex_r (z : ℂ) : (ofComplex z).r = z.re := rfl

@[simp] theorem ofComplex_i (z : ℂ) : (ofComplex z).i = z.im := rfl

theorem ofComplex_add (z w : ℂ) : ofComplex z + ofComplex w = ofComplex (z + w) := rfl

theorem ofComplex_sub (z w : ℂ) : ofComplex z - ofComplex w = ofComplex (z - w) := rfl

theorem ofComplex_mul (z w : ℂ) : ofComplex z * ofComplex w = ofComplex (z * w) := rfl

theorem ofComplex_zero : ofComplex 0 = 0 := rfl

theorem ofComplex_scale (z : ℂ) (x : ℝ) : (ofComplex z).scale x = ofComplex (z * x) := by
  ext
  · simp [Cmplx.scale]
  · simp [Cmplx.scale]

theorem ofComplex_injective : Function.Injective ofComplex := by
  intro z w same
  exact Complex.ext (congrArg Cmplx.r same) (congrArg Cmplx.i same)

/-- Multiplying by a twiddle factor, in the direction of the transform. -/
theorem specialMul_twiddle (fwd : Bool) (z : ℂ) (n m : Nat) :
    Cmplx.specialMul fwd (ofComplex z) (ofComplex (twiddle false n m)) =
      ofComplex (z * twiddle fwd n m) := by
  cases fwd with
  | false => rfl
  | true =>
    have conj := conj_twiddle false n m
    rw [Bool.not_false] at conj
    rw [← conj]
    ext
    · simp [Cmplx.specialMul]
    · simp [Cmplx.specialMul]
      ring

end DspDispatch.Pocketfft
