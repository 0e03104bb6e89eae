import DspDispatch.Fft.Library

/-!
# ArmPL FFT backend (`src/backends/armpl/armpl_backend.cpp`)

ArmPL is used through the FFTW interface: one plan for the whole batch, made by
a planner call of rank one and unit strides over planning scratch, and executed
on the caller's buffers. All sizes are converted to `int` for the planner. The
library is a parameter; its plans are of an opaque type `H`.
-/

namespace DspDispatch.Fft.Armpl

open Kit

variable {K H : Type}

/-! ## The library -/

structure PlannerFlags where
  measure : Bool
  unaligned : Bool
  preserveInput : Bool

/-- The arguments of a `fftw_plan_many_dft`, `_r2c` or `_c2r` call: the lanes are
`idist` and `odist` elements apart. -/
structure PlanMany where
  kind : DftKind
  n : Int
  howmany : Int
  idist : Int
  odist : Int
  flags : PlannerFlags

/-- The entry points used. `malloc` tells whether memory was found. `execute` is
the new-array function of the given type. -/
structure FftwLib (K H : Type) where
  malloc : Nat → Bool
  planMany : PlanMany → Option H
  execute : FftType → H → Mem K → Ptr → Ptr → Mem K

/-- The lanes the arguments name. -/
def PlanMany.strided (d : PlanMany) : Strided :=
  dftStrided d.kind d.n.toNat d.howmany.toNat d.idist d.odist

/-- The execute function for a plan of this kind. -/
def entry : DftKind → FftType
  | .c2c _ => .complex
  | .r2c => .realToComplex
  | .c2r => .complexToReal

/-- A complex-to-real plan may overwrite its input unless told otherwise. -/
def PlanMany.Destroys (d : PlanMany) : Prop := d.kind = .c2r ∧ d.flags.preserveInput = false

/-- What the library documents. Plans are made for positive lengths and counts
that are not negative; executing one computes plain, unscaled transforms. -/
structure FftwLib.Documented (lib : FftwLib ℝ H) : Prop where
  domain : ∀ d h, lib.planMany d = some h → 0 < d.n ∧ 0 ≤ d.howmany
  transforms : ∀ d h, lib.planMany d = some h →
    Transforms d.kind d.n.toNat 1 d.strided d.Destroys (lib.execute (entry d.kind) h)

/-! ## The plan -/

structure ArmplState (H : Type) where
  plan : H
  type : FftType
  inverse : Bool
  n : Nat
  batch : Nat

/-- `normalize_inverse`. -/
def normalizeInverse [Field K] (s : ArmplState H) (output : Ptr) (mem : Mem K) :
    Option (Mem K) :=
  scaleOutput s.type s.n s.batch output mem

def armplExecute [Field K] (lib : FftwLib K H) (s : ArmplState H) (w : World K)
    (input output : Ptr) : Option (Status × World K × ArmplState H) := do
  let mem := lib.execute s.type s.plan w.mem input output
  let scaled := if s.inverse then normalizeInverse s output mem else some mem
  let mem ← scaled
  some (.ok, { w with mem := mem }, s)

/-- The planner call for a configuration. -/
def plannerCall (cfg : FftPlanConfig) (inverse : Bool) : PlanMany :=
  let n := cfg.length
  let bins := n / 2 + 1
  let dist :=
    match cfg.type with
    | .complex => (toInt32 n, toInt32 n)
    | .realToComplex => (toInt32 n, toInt32 bins)
    | .complexToReal => (toInt32 bins, toInt32 n)
  { kind := planKind cfg.type inverse
    n := toInt32 n
    howmany := toInt32 cfg.batch
    idist := dist.1
    odist := dist.2
    flags := { measure := true, unaligned := true, preserveInput := false } }

/-- Scalars of the two planning arrays, in `size_t` arithmetic. -/
def scratchCounts (cfg : FftPlanConfig) : Nat × Nat :=
  let n := cfg.length
  let batch := cfg.batch
  let bins := n / 2 + 1
  match cfg.type with
  | .complex => (n * batch * 2 % 2 ^ 64, n * batch * 2 % 2 ^ 64)
  | .realToComplex => (n * batch % 2 ^ 64, bins * batch * 2 % 2 ^ 64)
  | .complexToReal => (bins * batch * 2 % 2 ^ 64, n * batch % 2 ^ 64)

def makeTyped [Field K] (lib : FftwLib K H) (cfg : FftPlanConfig) (inverse : Bool) :
    Result (BackendPlan (ArmplState H) (World K)) :=
  let sizeofReal := cfg.precision.sizeofReal
  let scratch := scratchCounts cfg
  if lib.malloc (sizeofReal * scratch.1 % 2 ^ 64) = false ∨
      lib.malloc (sizeofReal * scratch.2 % 2 ^ 64) = false then .error .backendError
  else match lib.planMany (plannerCall cfg inverse) with
    | none => .error .backendError
    | some plan =>
      .ok {
        state := ⟨plan, cfg.type, inverse, cfg.length, cfg.batch⟩
        execute := armplExecute lib
        workspaceBytes := sizeofReal * (scratch.1 + scratch.2) % 2 ^ 64
        name := "armpl" }

def makeBackendPlan [Field K] (lib : FftPrecision → FftwLib K H) (cfg : FftPlanConfig) :
    Result (BackendPlan (ArmplState H) (World K)) := do
  checkSizes cfg
  let inverse ← resolveInverse cfg
  makeTyped (lib cfg.precision) cfg inverse

/-- What an accepted configuration gives. -/
theorem makeBackendPlan_ok [Field K] {lib : FftPrecision → FftwLib K H} {cfg : FftPlanConfig}
    {plan : BackendPlan (ArmplState H) (World K)} (made : makeBackendPlan lib cfg = .ok plan) :
    cfg.Valid ∧ ∃ h, (lib cfg.precision).planMany (plannerCall cfg cfg.isInverse) = some h ∧
      plan.state = ⟨h, cfg.type, cfg.isInverse, cfg.length, cfg.batch⟩ ∧
      plan.execute = armplExecute (lib cfg.precision) := by
  obtain ⟨valid, typed⟩ := checks_eq_ok.mp made
  refine ⟨valid, ?_⟩
  unfold makeTyped at typed
  simp only at typed
  split at typed
  · cases typed
  · split at typed
    · cases typed
    · rename_i h planned
      cases typed
      exact ⟨h, planned, rfl, rfl⟩

/-- A valid configuration is accepted if memory is found and the library makes a
plan. -/
theorem exists_plan [Field K] (lib : FftPrecision → FftwLib K H) {cfg : FftPlanConfig}
    (valid : cfg.Valid) (memory : ∀ n, (lib cfg.precision).malloc n = true) {h : H}
    (planned : (lib cfg.precision).planMany (plannerCall cfg cfg.isInverse) = some h) :
    ∃ plan, makeBackendPlan lib cfg = .ok plan := by
  obtain ⟨plan, typed⟩ : ∃ plan, makeTyped (lib cfg.precision) cfg cfg.isInverse = .ok plan := by
    simp only [makeTyped, memory, planned, Bool.true_eq_false, or_self, if_false]
    exact ⟨_, rfl⟩
  exact ⟨plan, checks_eq_ok.mpr ⟨valid, typed⟩⟩

/-- Executes leave the state of a plan alone. -/
theorem reached_state [Field K] {lib : FftPrecision → FftwLib K H} {cfg : FftPlanConfig}
    {plan : BackendPlan (ArmplState H) (World K)} (made : makeBackendPlan lib cfg = .ok plan)
    {s : ArmplState H} (reached : plan.Reached cfg s) : s = plan.state := by
  obtain ⟨-, h, -, -, execute⟩ := makeBackendPlan_ok made
  refine reached.eq_state ?_
  intro s w p q st w' s' run
  rw [execute, armplExecute, Option.bind_eq_bind, Option.bind_eq_some_iff] at run
  obtain ⟨mem, -, result⟩ := run
  cases result
  rfl

/-! ## The planner call -/

@[simp] theorem plannerCall_n (cfg : FftPlanConfig) (inverse : Bool) :
    (plannerCall cfg inverse).n = toInt32 cfg.length := by
  simp only [plannerCall]

@[simp] theorem plannerCall_howmany (cfg : FftPlanConfig) (inverse : Bool) :
    (plannerCall cfg inverse).howmany = toInt32 cfg.batch := by
  simp only [plannerCall]

theorem plannerCall_kind (cfg : FftPlanConfig) :
    (plannerCall cfg cfg.isInverse).kind = cfg.kind :=
  planKind_isInverse cfg

/-- The planner call names the configured lanes with all sizes in `int`. -/
theorem plannerCall_strided (cfg : FftPlanConfig) :
    (plannerCall cfg cfg.isInverse).strided = cfg.narrowed := by
  rw [PlanMany.strided, FftPlanConfig.narrowed, plannerCall_kind]
  unfold plannerCall FftPlanConfig.distances realComplexBins
  cases cfg.type with
  | complex => simp only
  | realToComplex => simp only
  | complexToReal => simp only

/-- Without `FFTW_PRESERVE_INPUT` complex-to-real plans may overwrite their
input. -/
theorem plannerCall_destroys (cfg : FftPlanConfig) :
    (plannerCall cfg cfg.isInverse).Destroys = (cfg.type = .complexToReal) := by
  rw [PlanMany.Destroys, plannerCall_kind]
  unfold FftPlanConfig.kind plannerCall
  cases cfg.type with
  | complex => simp
  | realToComplex => simp
  | complexToReal => simp

/-- The executed call of an accepted plan, in terms of the configuration. -/
theorem execute_transforms {lib : FftPrecision → FftwLib ℝ H} {h : H} {cfg : FftPlanConfig}
    (documented : ∀ p, (lib p).Documented)
    (planned : (lib cfg.precision).planMany (plannerCall cfg cfg.isInverse) = some h) :
    Transforms cfg.kind (toInt32 cfg.length).toNat 1 cfg.narrowed (cfg.type = .complexToReal)
      ((lib cfg.precision).execute cfg.type h) := by
  have transforms := (documented cfg.precision).transforms _ h planned
  have function : entry cfg.kind = cfg.type := by
    unfold FftPlanConfig.kind
    cases cfg.type <;> rfl
  rw [plannerCall_strided, plannerCall_destroys, plannerCall_kind, plannerCall_n,
    function] at transforms
  exact transforms

/-! ## Plans that fit -/

/-- An accepted plan whose sizes survive keeps the contract, except that it may
overwrite the input of a complex-to-real transform. -/
theorem makeBackendPlan_meets {lib : FftPrecision → FftwLib ℝ H}
    (documented : ∀ p, (lib p).Documented) {cfg : FftPlanConfig}
    {plan : BackendPlan (ArmplState H) (World ℝ)} (made : makeBackendPlan lib cfg = .ok plan)
    (addressable : cfg.Addressable) (fits : cfg.FitsInt) :
    plan.Meets cfg (cfg.type ≠ .complexToReal) := by
  obtain ⟨-, h, planned, state, execute⟩ := makeBackendPlan_ok made
  have transforms := execute_transforms documented planned
  rw [cfg.narrowed_eq_contiguous fits, toInt32_of_lt fits.1, Int.toNat_natCast] at transforms
  intro s reached w p q usable input
  rw [reached_state made reached, state]
  obtain ⟨left, leftLength, keeps, result, holds⟩ := transforms.eq_write usable input
  refine ⟨left,
    { w with mem := (w.mem.write p left).write q (cfg.contract (w.mem.read p cfg.inSize)) },
    ⟨h, cfg.type, cfg.isInverse, cfg.length, cfg.batch⟩, ?_, leftLength, keeps, rfl⟩
  rw [execute]
  simp only [armplExecute, result]
  by_cases inverse : cfg.isInverse = true
  · rw [if_pos inverse, normalizeInverse, scaleOutput_transformed inverse addressable holds]
    rfl
  · rw [if_neg inverse, FftPlanConfig.contract, FftPlanConfig.scale, if_neg inverse]
    rfl

end DspDispatch.Fft.Armpl
