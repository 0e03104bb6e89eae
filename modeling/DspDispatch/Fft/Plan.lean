import DspDispatch.Kit.Memory
import DspDispatch.Kit.MachineInt

/-!
# FFT plan configurations (`include/fft/fft.h`)

The public configuration, the status codes, and the checks the factories of all
adapters make. `length` and `batch` are `size_t` values and carry their bound.
-/

namespace DspDispatch.Fft

open Kit

inductive FftDirection
  | forward
  | inverse
deriving DecidableEq, Repr

inductive FftType
  | complex
  | realToComplex
  | complexToReal
deriving DecidableEq, Repr

inductive FftPrecision
  | f32
  | f64
deriving DecidableEq, Repr

inductive Status
  | ok
  | nullPointer
  | invalidArgument
  | unsupportedLength
  | unsupportedConfig
  | backendError
deriving DecidableEq, Repr

/-- `Result<T>`: a value, or the status saying why there is none. -/
abbrev Result (α : Type) := Except Status α

structure FftPlanConfig where
  type : FftType := .complex
  precision : FftPrecision := .f32
  length : Nat := 0
  batch : Nat := 1
  direction : FftDirection := .forward
  length_lt : length < 2 ^ 64 := by decide
  batch_lt : batch < 2 ^ 64 := by decide

/-- `sizeof(float)` or `sizeof(double)`. -/
def FftPrecision.sizeofReal : FftPrecision → Nat
  | .f32 => 4
  | .f64 => 8

/-- `real_complex_bins`, the number of bins of a real transform of this length. -/
def realComplexBins (length : Nat) : Nat := length / 2 + 1

/-- The size check every factory starts with. -/
def checkSizes (cfg : FftPlanConfig) : Result Unit :=
  if cfg.length = 0 ∨ cfg.batch = 0 then .error .invalidArgument else .ok ()

/-- The switch every factory makes over the type: whether the plan is an inverse
transform. A real-to-complex transform has no inverse direction. -/
def resolveInverse (cfg : FftPlanConfig) : Result Bool :=
  match cfg.type with
  | .complex => .ok (cfg.direction = .inverse)
  | .realToComplex =>
    if cfg.direction = .inverse then .error .invalidArgument else .ok false
  | .complexToReal => .ok true

/-! ## Dispatch records -/

/-- `BackendPlan` over the memory `W` it reads and writes; `none` is an access
outside an array. -/
structure BackendPlan (σ W : Type) where
  state : σ
  execute : σ → W → Ptr → Ptr → Option (Status × W × σ)
  workspaceBytes : Nat
  name : String

end DspDispatch.Fft
