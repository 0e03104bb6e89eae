import DspDispatch.Fft.PocketfftCache
import DspDispatch.Kit.Dft
import DspDispatch.Kit.Strided

/-!
# The public transform contract (`docs/requirements.md`, `include/fft/fft.h`)

What `execute` owes its caller, over real arithmetic. Buffers hold scalars, a
complex element being two of them; the lanes of a batch lie back to back. The
forward transforms are unscaled, the inverse ones scaled by `1 / N`.

`BackendPlan.Meets` states the contract for all states a plan can be in. A plan
runs in a `World`: the caller's memory and the static plan caches of the
pocketfft library, which belong to no plan.
-/

namespace DspDispatch.Fft

open Kit

/-- What executes see of the process: the memory and the static plan caches of
pocketfft. The requests the caches have served, the latest first, are a record
that no code reads. -/
structure World (K : Type) where
  mem : Mem K
  caches : Pocketfft.PlanCaches
  requests : List Pocketfft.PlanRequest := []

/-! ## Configurations as transforms -/

/-- The transform a configuration asks for. -/
def FftPlanConfig.kind (cfg : FftPlanConfig) : DftKind :=
  match cfg.type with
  | .complex => .c2c (cfg.direction = .forward)
  | .realToComplex => .r2c
  | .complexToReal => .c2r

/-- Whether the transform is scaled by `1 / N`. -/
def FftPlanConfig.isInverse (cfg : FftPlanConfig) : Bool :=
  match cfg.type with
  | .complex => cfg.direction = .inverse
  | .realToComplex => false
  | .complexToReal => true

/-- The scale of the contract. -/
noncomputable def FftPlanConfig.scale (cfg : FftPlanConfig) : ℝ :=
  if cfg.isInverse then 1 / cfg.length else 1

/-- Scalars of the input buffer. -/
def FftPlanConfig.inSize (cfg : FftPlanConfig) : Nat := cfg.batch * cfg.kind.inLen cfg.length

/-- Scalars of the output buffer. -/
def FftPlanConfig.outSize (cfg : FftPlanConfig) : Nat := cfg.batch * cfg.kind.outLen cfg.length

/-- Lane `b` of an input buffer. -/
def FftPlanConfig.laneOf (cfg : FftPlanConfig) {K : Type} (xs : List K) (b : Nat) : List K :=
  segment xs (b * cfg.kind.inLen cfg.length) (cfg.kind.inLen cfg.length)

/-- The transforms of all lanes of an input buffer, scaled. -/
noncomputable def FftPlanConfig.transformed (cfg : FftPlanConfig) (scale : ℝ) (xs : List ℝ) :
    List ℝ :=
  lanes cfg.batch fun b => cfg.kind.lane cfg.length scale (cfg.laneOf xs b)

/-- The output buffer the contract promises for an input buffer. -/
noncomputable def FftPlanConfig.contract (cfg : FftPlanConfig) (xs : List ℝ) : List ℝ :=
  cfg.transformed cfg.scale xs

/-- Inputs the contract covers: the end bins of complex-to-real lanes are real. -/
def FftPlanConfig.Input (cfg : FftPlanConfig) (xs : List ℝ) : Prop :=
  ∀ b, b < cfg.batch → cfg.kind.Input cfg.length (cfg.laneOf xs b)

/-- Objects of the sizes of the two buffers can exist: no object has `2^63`
bytes. -/
def FftPlanConfig.Addressable (cfg : FftPlanConfig) : Prop :=
  cfg.inSize * cfg.precision.sizeofReal < 2 ^ 63 ∧ cfg.outSize * cfg.precision.sizeofReal < 2 ^ 63

theorem FftPrecision.sizeofReal_pos (precision : FftPrecision) : 0 < precision.sizeofReal := by
  cases precision <;> decide

theorem FftPlanConfig.Addressable.outSize_lt {cfg : FftPlanConfig} (addressable : cfg.Addressable) :
    cfg.outSize < 2 ^ 63 :=
  (Nat.le_mul_of_pos_right _ cfg.precision.sizeofReal_pos).trans_lt addressable.2

/-- One of the buffers has at least one scalar for each element of every lane. -/
theorem FftPlanConfig.Addressable.real_lt {cfg : FftPlanConfig} (addressable : cfg.Addressable) :
    cfg.batch * cfg.length < 2 ^ 63 := by
  obtain ⟨input, output⟩ := addressable
  have scalar := cfg.precision.sizeofReal_pos
  have inSize := (Nat.le_mul_of_pos_right cfg.inSize scalar).trans_lt input
  have outSize := (Nat.le_mul_of_pos_right cfg.outSize scalar).trans_lt output
  unfold FftPlanConfig.inSize FftPlanConfig.kind at inSize
  unfold FftPlanConfig.outSize FftPlanConfig.kind at outSize
  cases type : cfg.type with
  | complex =>
    simp only [type, DftKind.inLen] at inSize
    rw [← Nat.mul_assoc] at inSize
    omega
  | realToComplex =>
    simp only [type, DftKind.inLen] at inSize
    exact inSize
  | complexToReal =>
    simp only [type, DftKind.outLen] at outSize
    exact outSize

/-- Both sizes are below half of the range of `size_t`. -/
theorem FftPlanConfig.Addressable.length_lt {cfg : FftPlanConfig} (addressable : cfg.Addressable)
    (batch_pos : 0 < cfg.batch) : cfg.length < 2 ^ 63 := by
  have total := addressable.real_lt
  have below := Nat.le_mul_of_pos_left cfg.length batch_pos
  omega

theorem FftPlanConfig.Addressable.batch_lt {cfg : FftPlanConfig} (addressable : cfg.Addressable)
    (length_pos : 0 < cfg.length) : cfg.batch < 2 ^ 63 := by
  have total := addressable.real_lt
  have below := Nat.le_mul_of_pos_right cfg.batch length_pos
  omega

/-- Input and output buffers of the configured sizes without a common cell. -/
structure FftPlanConfig.Usable (cfg : FftPlanConfig) {K : Type} (m : Mem K) (p q : Ptr) : Prop where
  input : m.Holds p cfg.inSize
  output : m.Holds q cfg.outSize
  apart : Apart p cfg.inSize q cfg.outSize

@[simp] theorem FftPlanConfig.length_transformed (cfg : FftPlanConfig) (scale : ℝ) (xs : List ℝ) :
    (cfg.transformed scale xs).length = cfg.outSize :=
  length_lanes fun _ _ => DftKind.length_lane _ _ _ _

@[simp] theorem FftPlanConfig.length_contract (cfg : FftPlanConfig) (xs : List ℝ) :
    (cfg.contract xs).length = cfg.outSize :=
  cfg.length_transformed _ _

/-- Scaling the plain transforms gives the scaled ones. -/
theorem FftPlanConfig.transformed_map_mul (cfg : FftPlanConfig) (c : ℝ) (xs : List ℝ) :
    (cfg.transformed 1 xs).map (· * c) = cfg.transformed c xs := by
  simp only [FftPlanConfig.transformed, map_lanes, DftKind.lane_map_mul]

/-- The lanes of a buffer in memory. -/
theorem FftPlanConfig.laneOf_read (cfg : FftPlanConfig) {K : Type} {m : Mem K} {p : Ptr} {b : Nat}
    (below : b < cfg.batch) :
    cfg.laneOf (m.read p cfg.inSize) b =
      m.read (p.add (b * cfg.kind.inLen cfg.length)) (cfg.kind.inLen cfg.length) := by
  rw [FftPlanConfig.laneOf, Mem.read_add m p (lane_end_le _ below)]
  rfl

/-! ## Plans that keep the contract -/

/-- Buffers an execute may be called with: without a common cell, or one buffer
for a complex transform in place. -/
structure FftPlanConfig.Callable (cfg : FftPlanConfig) {K : Type} (m : Mem K) (p q : Ptr) :
    Prop where
  input : m.Holds p cfg.inSize
  output : m.Holds q cfg.outSize
  overlap : p = q ∧ cfg.type = .complex ∨ Apart p cfg.inSize q cfg.outSize

theorem FftPlanConfig.Usable.callable {cfg : FftPlanConfig} {K : Type} {m : Mem K} {p q : Ptr}
    (usable : cfg.Usable m p q) : cfg.Callable m p q :=
  ⟨usable.input, usable.output, .inr usable.apart⟩

section Reached

variable {σ K : Type}

/-- The states a plan can be in after any number of executes. -/
inductive BackendPlan.Reached (plan : BackendPlan σ (World K)) (cfg : FftPlanConfig) : σ → Prop
  | start : Reached plan cfg plan.state
  | execute {s s' : σ} {w w' : World K} {p q : Ptr} {st : Status} (reached : Reached plan cfg s)
    (callable : cfg.Callable w.mem p q) (run : plan.execute s w p q = some (st, w', s')) :
    Reached plan cfg s'

variable {plan : BackendPlan σ (World K)} {cfg : FftPlanConfig}

/-- What holds at the start and is kept by every execute holds of every state. -/
theorem BackendPlan.Reached.invariant {s : σ} (reached : plan.Reached cfg s) (Inv : σ → Prop)
    (start : Inv plan.state)
    (step : ∀ s w p q st w' s', Inv s → cfg.Callable w.mem p q →
      plan.execute s w p q = some (st, w', s') → Inv s') : Inv s := by
  induction reached with
  | start => exact start
  | execute _ callable run ih => exact step _ _ _ _ _ _ _ ih callable run

/-- The state of a plan whose executes return the state they were given. -/
theorem BackendPlan.Reached.eq_state {s : σ} (reached : plan.Reached cfg s)
    (constant : ∀ s w p q st w' s', plan.execute s w p q = some (st, w', s') → s' = s) :
    s = plan.state :=
  reached.invariant (· = plan.state) rfl fun _ _ _ _ _ _ _ same _ run =>
    (constant _ _ _ _ _ _ _ run).trans same

end Reached

/-- In every state the plan can be in, an execute on usable buffers returns `Ok`
and writes the contract's output; it changes no other cell, except in the input
buffer if it need not keep that. -/
def BackendPlan.Meets {σ : Type} (plan : BackendPlan σ (World ℝ)) (cfg : FftPlanConfig)
    (keepsInput : Prop) : Prop :=
  ∀ s, plan.Reached cfg s → ∀ w p q, cfg.Usable w.mem p q → cfg.Input (w.mem.read p cfg.inSize) →
    ∃ left w' s', plan.execute s w p q = some (.ok, w', s') ∧ left.length = cfg.inSize ∧
      (keepsInput → left = w.mem.read p cfg.inSize) ∧
      w'.mem = (w.mem.write p left).write q (cfg.contract (w.mem.read p cfg.inSize))

end DspDispatch.Fft
