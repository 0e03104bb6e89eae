import DspDispatch.Fft.Library

/-!
# AOCL-FFTZ backend (`src/backends/aocl/aocl_backend.cpp`)

AOCL-FFTZ is set up from a problem descriptor with one dimension and one batch
tensor, all of whose sizes are `INT32`, and run by `aoclfftz_execute_io` on the
caller's buffers. The library is a parameter; its handles are of an opaque type
`H`.
-/

namespace DspDispatch.Fft.Aocl

open Kit

variable {K H : Type}

/-! ## The library -/

/-- `aoclfftz_dim_t`: a size and the strides of input and output. -/
structure Dim where
  n : Int
  is : Int
  os : Int

/-- `aoclfftz_prob_desc_f` and `_d` with the fields the adapter sets, for one
dimension and one batch tensor. -/
structure ProbDesc where
  dims : Dim
  vecs : Dim
  fftType : Nat
  fftDirection : Nat
  storageOrder : Nat
  fftPlacement : Nat
  transposeMode : Nat
  bitReproducibility : Nat
  numThreads : Nat
  dynamicLoadModel : Nat
  optLevel : Nat
  optOff : Nat
  measureStats : Nat

/-- The entry points used, for one precision. `executeIo` tells whether it
succeeded. -/
structure AoclLib (K H : Type) where
  setup : ProbDesc → Option H
  executeIo : H → Mem K → Ptr → Ptr → Bool × Mem K

/-- The transform of a descriptor. -/
def ProbDesc.kind (d : ProbDesc) : DftKind :=
  if d.fftType = 0 then .c2c (d.fftDirection = 0)
  else if d.fftDirection = 0 then .r2c else .c2r

/-- The lanes a descriptor names: the strides of the batch tensor are the
distances between lanes. -/
def ProbDesc.strided (d : ProbDesc) : Strided :=
  dftStrided d.kind d.dims.n.toNat d.vecs.n.toNat d.vecs.is d.vecs.os

/-- Out-of-place transforms of adjacent elements in the usual order. -/
def ProbDesc.Plain (d : ProbDesc) : Prop :=
  d.dims.is = 1 ∧ d.dims.os = 1 ∧ d.fftPlacement = 1 ∧ d.storageOrder = 0 ∧ d.transposeMode = 0

/-- What the library documents. Plans are made for positive lengths and counts
that are not negative; executing a plain one computes unscaled transforms, keeps
the input and succeeds on lanes that fit. -/
structure AoclLib.Documented (lib : AoclLib ℝ H) : Prop where
  domain : ∀ d h, lib.setup d = some h → 0 < d.dims.n ∧ 0 ≤ d.vecs.n
  transforms : ∀ d h, lib.setup d = some h → d.Plain →
    Transforms d.kind d.dims.n.toNat 1 d.strided False fun m p q => (lib.executeIo h m p q).2
  succeeds : ∀ d h, lib.setup d = some h → d.Plain → ∀ m p q, d.strided.Fits m p q →
    (lib.executeIo h m p q).1 = true

/-! ## The plan -/

structure AoclState (H : Type) where
  f64 : Bool
  inverse : Bool
  type : FftType
  n : Nat
  batch : Nat
  handle : Option H
  dims : Dim
  vecs : Dim
  inBuf : Nat
  outBuf : Nat

/-- `aocl_execute`; running a null handle is undefined. -/
def aoclExecute [Field K] (lib : AoclLib K H) (s : AoclState H) (w : World K)
    (input output : Ptr) : Option (Status × World K × AoclState H) := do
  let h ← s.handle
  let run := lib.executeIo h w.mem input output
  if run.1 = false then some (.backendError, { w with mem := run.2 }, s)
  else
    let scaled := if s.inverse then scaleOutput s.type s.n s.batch output run.2 else some run.2
    let mem ← scaled
    some (.ok, { w with mem := mem }, s)

/-- `while (n % p == 0) n /= p;` on a positive value. -/
def divideOut (p n : Nat) : Nat :=
  if _divides : 1 < p ∧ 0 < n ∧ n % p = 0 then divideOut p (n / p) else n
termination_by n
decreasing_by exact Nat.div_lt_self (by omega) (by omega)

/-- `aocl_real_length_supported`: the length has no prime factor above 7. -/
def aoclRealLengthSupported (n : Nat) : Bool :=
  [2, 3, 5, 7].foldl (fun n p => divideOut p n) n == 1

/-- The descriptor of a configuration. -/
def problem (cfg : FftPlanConfig) (inverse : Bool) : ProbDesc :=
  let n := cfg.length
  let bins := n / 2 + 1
  let dist :=
    match cfg.type with
    | .complex => (n, n)
    | .realToComplex => (n, bins)
    | .complexToReal => (bins, n)
  { dims := ⟨toInt32 n, 1, 1⟩
    vecs := ⟨toInt32 cfg.batch, toInt32 dist.1, toInt32 dist.2⟩
    fftType := if cfg.type ≠ .complex then 1 else 0
    fftDirection := if inverse then 1 else 0
    storageOrder := 0
    fftPlacement := 1
    transposeMode := 0
    bitReproducibility := 0
    numThreads := 1
    dynamicLoadModel := 0
    optLevel := 3
    optOff := 0
    measureStats := 0 }

/-- Scalars of the two setup buffers, in `size_t` arithmetic. -/
def setupScalars (cfg : FftPlanConfig) : Nat × Nat :=
  let n := cfg.length
  let batch := cfg.batch
  let bins := n / 2 + 1
  match cfg.type with
  | .complex => (n * batch * 2, n * batch * 2)
  | .realToComplex => (n * batch, bins * batch * 2)
  | .complexToReal => (bins * batch * 2, n * batch)

def makeTyped [Field K] (lib : AoclLib K H) (cfg : FftPlanConfig) (inverse : Bool) :
    BackendPlan (AoclState H) (World K) :=
  let sizeofReal := cfg.precision.sizeofReal
  let desc := problem cfg inverse
  let inBuf := (setupScalars cfg).1 * sizeofReal % 2 ^ 64
  let outBuf := (setupScalars cfg).2 * sizeofReal % 2 ^ 64
  { state := {
      f64 := sizeofReal == 8
      inverse := inverse
      type := cfg.type
      n := cfg.length
      batch := cfg.batch
      handle := lib.setup desc
      dims := desc.dims
      vecs := desc.vecs
      inBuf := inBuf
      outBuf := outBuf }
    execute := aoclExecute lib
    workspaceBytes := (inBuf + outBuf) % 2 ^ 64
    name := "aocl" }

def makeBackendPlan [Field K] (lib : FftPrecision → AoclLib K H) (cfg : FftPlanConfig) :
    Result (BackendPlan (AoclState H) (World K)) := do
  checkSizes cfg
  let inverse ← resolveInverse cfg
  if cfg.type ≠ .complex ∧ aoclRealLengthSupported cfg.length = false then
    .error .unsupportedLength
  else
    let bp := makeTyped (lib cfg.precision) cfg inverse
    if bp.state.handle.isNone then .error .backendError else .ok bp

/-- What an accepted configuration gives. -/
theorem makeBackendPlan_ok [Field K] {lib : FftPrecision → AoclLib K H} {cfg : FftPlanConfig}
    {plan : BackendPlan (AoclState H) (World K)} (made : makeBackendPlan lib cfg = .ok plan) :
    cfg.Valid ∧ ¬ (cfg.type ≠ .complex ∧ aoclRealLengthSupported cfg.length = false) ∧
      ∃ h, (lib cfg.precision).setup (problem cfg cfg.isInverse) = some h ∧
        plan = makeTyped (lib cfg.precision) cfg cfg.isInverse := by
  obtain ⟨valid, typed⟩ := checks_eq_ok.mp made
  refine ⟨valid, ?_⟩
  split at typed
  · cases typed
  · rename_i supported
    refine ⟨supported, ?_⟩
    dsimp only at typed
    split at typed
    · cases typed
    · rename_i present
      cases typed
      cases handle : (lib cfg.precision).setup (problem cfg cfg.isInverse) with
      | none => simp [makeTyped, handle] at present
      | some h => exact ⟨h, rfl, rfl⟩

/-- A valid configuration of a supported length is accepted if the library sets it
up. -/
theorem makeBackendPlan_eq [Field K] (lib : FftPrecision → AoclLib K H) {cfg : FftPlanConfig}
    (valid : cfg.Valid)
    (supported : ¬ (cfg.type ≠ .complex ∧ aoclRealLengthSupported cfg.length = false)) {h : H}
    (planned : (lib cfg.precision).setup (problem cfg cfg.isInverse) = some h) :
    makeBackendPlan lib cfg = .ok (makeTyped (lib cfg.precision) cfg cfg.isInverse) := by
  refine checks_eq_ok.mpr ⟨valid, ?_⟩
  rw [if_neg supported]
  simp only [makeTyped, planned, Option.isNone_some, Bool.false_eq_true, if_false]

/-- Executes leave the state of a plan alone. -/
theorem reached_state [Field K] {lib : FftPrecision → AoclLib K H} {cfg : FftPlanConfig}
    {plan : BackendPlan (AoclState H) (World K)} (made : makeBackendPlan lib cfg = .ok plan)
    {s : AoclState H} (reached : plan.Reached cfg s) : s = plan.state := by
  obtain ⟨-, -, h, -, rfl⟩ := makeBackendPlan_ok made
  refine reached.eq_state ?_
  intro s w p q st w' s' run
  change aoclExecute _ s w p q = _ at run
  rw [aoclExecute, Option.bind_eq_bind, Option.bind_eq_some_iff] at run
  obtain ⟨h', -, run⟩ := run
  dsimp only at run
  split at run
  · cases run
    rfl
  · rw [Option.bind_eq_bind, Option.bind_eq_some_iff] at run
    obtain ⟨mem, -, result⟩ := run
    cases result
    rfl

/-! ## The descriptor -/

theorem problem_plain (cfg : FftPlanConfig) (inverse : Bool) : (problem cfg inverse).Plain :=
  ⟨rfl, rfl, rfl, rfl, rfl⟩

@[simp] theorem problem_dims_n (cfg : FftPlanConfig) (inverse : Bool) :
    (problem cfg inverse).dims.n = toInt32 cfg.length := by
  simp only [problem]

@[simp] theorem problem_vecs_n (cfg : FftPlanConfig) (inverse : Bool) :
    (problem cfg inverse).vecs.n = toInt32 cfg.batch := by
  simp only [problem]

/-- The descriptor asks for the configured transform. -/
theorem problem_kind (cfg : FftPlanConfig) : (problem cfg cfg.isInverse).kind = cfg.kind := by
  rw [← planKind_isInverse]
  unfold ProbDesc.kind problem planKind FftPlanConfig.isInverse
  cases cfg.type with
  | complex => cases cfg.direction <;> simp
  | realToComplex => simp
  | complexToReal => simp

/-- The descriptor names the configured lanes with all sizes in `int`. -/
theorem problem_strided (cfg : FftPlanConfig) :
    (problem cfg cfg.isInverse).strided = cfg.narrowed := by
  rw [ProbDesc.strided, FftPlanConfig.narrowed, problem_kind]
  unfold problem FftPlanConfig.distances realComplexBins
  cases cfg.type with
  | complex => simp only
  | realToComplex => simp only
  | complexToReal => simp only

/-- The executed call of an accepted plan, in terms of the configuration. -/
theorem execute_transforms {lib : FftPrecision → AoclLib ℝ H} {h : H} {cfg : FftPlanConfig}
    (documented : ∀ p, (lib p).Documented)
    (planned : (lib cfg.precision).setup (problem cfg cfg.isInverse) = some h) :
    Transforms cfg.kind (toInt32 cfg.length).toNat 1 cfg.narrowed False
      fun m p q => ((lib cfg.precision).executeIo h m p q).2 := by
  have transforms :=
    (documented cfg.precision).transforms _ h planned (problem_plain cfg cfg.isInverse)
  rw [problem_strided, problem_kind, problem_dims_n] at transforms
  exact transforms

/-! ## Plans that fit -/

/-- An accepted plan whose sizes survive keeps the contract. -/
theorem makeBackendPlan_meets {lib : FftPrecision → AoclLib ℝ H}
    (documented : ∀ p, (lib p).Documented) {cfg : FftPlanConfig}
    {plan : BackendPlan (AoclState H) (World ℝ)} (made : makeBackendPlan lib cfg = .ok plan)
    (addressable : cfg.Addressable) (fits : cfg.FitsInt) : plan.Meets cfg True := by
  obtain ⟨-, -, h, planned, rfl⟩ := makeBackendPlan_ok made
  have transforms := execute_transforms documented planned
  have succeeds := (documented cfg.precision).succeeds _ h planned
    (problem_plain cfg cfg.isInverse)
  rw [problem_strided] at succeeds
  rw [cfg.narrowed_eq_contiguous fits] at succeeds transforms
  rw [toInt32_of_lt fits.1, Int.toNat_natCast] at transforms
  intro s reached w p q usable input
  rw [reached_state made reached]
  have success := succeeds w.mem p q
    (Strided.fits_contiguous usable.input usable.output usable.apart)
  obtain ⟨left, leftLength, keeps, result, holds⟩ := transforms.eq_write usable input
  refine ⟨left,
    { w with mem := (w.mem.write p left).write q (cfg.contract (w.mem.read p cfg.inSize)) },
    (makeTyped (lib cfg.precision) cfg cfg.isInverse).state, ?_, leftLength, fun _ => keeps not_false, rfl⟩
  simp only [makeTyped, aoclExecute, planned, Option.bind_eq_bind, Option.bind_some, success,
    result, Bool.true_eq_false, if_false]
  by_cases inverse : cfg.isInverse = true
  · rw [if_pos inverse, scaleOutput_transformed inverse addressable holds]
    rfl
  · rw [if_neg inverse, FftPlanConfig.contract, FftPlanConfig.scale, if_neg inverse]
    rfl

end DspDispatch.Fft.Aocl
