import DspDispatch.Fft.Library

/-!
# oneMKL DFTI backend (`src/backends/mkl/mkl_backend.cpp`)

A DFTI descriptor starts from the library's defaults, is configured value by
value and committed; execute only computes. Every library call returns a status,
and the first bad one ends plan creation. The library is a parameter: it decides
the statuses, while a descriptor is the values set so far.
-/

namespace DspDispatch.Fft.Mkl

open Kit

variable {K : Type}

/-! ## The library -/

inductive DftiDomain
  | complex
  | real
deriving DecidableEq

/-- The values of a descriptor the adapter depends on. -/
structure Descriptor (K : Type) where
  precision : FftPrecision
  domain : DftiDomain
  length : Int
  notInplace : Bool
  complexComplex : Bool
  numberOfTransforms : Int
  inputDistance : Int
  outputDistance : Int
  backwardScale : K

/-- The values `DftiSetValue` is called with. -/
inductive DftiValue (K : Type)
  | notInplace
  | complexComplex
  | numberOfTransforms (count : Int)
  | inputDistance (distance : Int)
  | outputDistance (distance : Int)
  | backwardScale (scale : K)

/-- A new descriptor: in place, one transform, unscaled. -/
def Descriptor.create [One K] (precision : FftPrecision) (domain : DftiDomain) (length : Int) :
    Descriptor K where
  precision := precision
  domain := domain
  length := length
  notInplace := false
  complexComplex := false
  numberOfTransforms := 1
  inputDistance := 0
  outputDistance := 0
  backwardScale := 1

/-- A descriptor after a successful `DftiSetValue`. -/
def Descriptor.set (d : Descriptor K) : DftiValue K → Descriptor K
  | .notInplace => { d with notInplace := true }
  | .complexComplex => { d with complexComplex := true }
  | .numberOfTransforms count => { d with numberOfTransforms := count }
  | .inputDistance distance => { d with inputDistance := distance }
  | .outputDistance distance => { d with outputDistance := distance }
  | .backwardScale scale => { d with backwardScale := scale }

/-- The statuses of the library calls, and what computing does. `noError` is
`DftiErrorClass` for the class `DFTI_NO_ERROR`. -/
structure DftiLib (K : Type) where
  noError : Int → Bool
  createDescriptor : FftPrecision → DftiDomain → Int → Int
  setValue : Descriptor K → DftiValue K → Int
  commitDescriptor : Descriptor K → Int
  computeForward : Descriptor K → Mem K → Ptr → Ptr → Int × Mem K
  computeBackward : Descriptor K → Mem K → Ptr → Ptr → Int × Mem K

/-- `dfti_ok`. -/
def dftiOk (lib : DftiLib K) (status : Int) : Bool := status == 0 || lib.noError status

/-- `DftiComputeBackward` or `DftiComputeForward`. -/
def DftiLib.compute (lib : DftiLib K) (backward : Bool) :
    Descriptor K → Mem K → Ptr → Ptr → Int × Mem K :=
  if backward then lib.computeBackward else lib.computeForward

/-- The transform a descriptor computes in a direction. -/
def Descriptor.kind (d : Descriptor K) (backward : Bool) : DftKind :=
  match d.domain with
  | .complex => .c2c (!backward)
  | .real => if backward then .c2r else .r2c

/-- The lanes a descriptor names. -/
def Descriptor.strided (d : Descriptor K) (backward : Bool) : Strided :=
  dftStrided (d.kind backward) d.length.toNat d.numberOfTransforms.toNat d.inputDistance
    d.outputDistance

/-- The scale of a direction. -/
def Descriptor.scale [One K] (d : Descriptor K) (backward : Bool) : K :=
  if backward then d.backwardScale else 1

/-- Out-of-place transforms whose real spectra are interleaved bins. -/
def Descriptor.Plain (d : Descriptor K) : Prop :=
  d.notInplace = true ∧ (d.domain = .real → d.complexComplex = true)

/-- What the library documents. Computing with a plain committed descriptor gives
the transforms scaled as it says, keeps the input and succeeds on lanes that
fit. -/
structure DftiLib.Documented (lib : DftiLib ℝ) : Prop where
  transforms : ∀ d backward, dftiOk lib (lib.commitDescriptor d) = true → d.Plain →
    Transforms (d.kind backward) d.length.toNat (d.scale backward) (d.strided backward) False
      fun m p q => (lib.compute backward d m p q).2
  succeeds : ∀ d backward, dftiOk lib (lib.commitDescriptor d) = true → d.Plain → ∀ m p q,
    (d.strided backward).Fits m p q → dftiOk lib (lib.compute backward d m p q).1 = true

/-! ## The plan -/

structure MklState (K : Type) where
  handle : Descriptor K
  inverse : Bool

def mklExecute (lib : DftiLib K) (s : MklState K) (w : World K) (input output : Ptr) :
    Option (Status × World K × MklState K) :=
  let run := lib.compute s.inverse s.handle w.mem input output
  some (if dftiOk lib run.1 then .ok else .backendError, { w with mem := run.2 }, s)

/-- The values set for a configuration, in order. -/
def values [Field K] (cfg : FftPlanConfig) (inverse : Bool) : List (DftiValue K) :=
  let n := toInt64 cfg.length
  let bins := toInt64 (cfg.length / 2 + 1)
  let batch := toInt64 cfg.batch
  let dist :=
    match cfg.type with
    | .complex => (n, n)
    | .realToComplex => (n, bins)
    | .complexToReal => (bins, n)
  [.notInplace] ++ (if cfg.type ≠ .complex then [.complexComplex] else []) ++
    [.numberOfTransforms batch, .inputDistance dist.1, .outputDistance dist.2] ++
    (if inverse then [.backwardScale (1 / (cfg.length : K))] else [])

/-- The chain of `DftiSetValue` calls, each made only if those before succeeded. -/
def setValues (lib : DftiLib K) (h : Descriptor K) : List (DftiValue K) → Option (Descriptor K)
  | [] => some h
  | v :: vs => if dftiOk lib (lib.setValue h v) then setValues lib (h.set v) vs else none

/-- `DFTI_COMPLEX` or `DFTI_REAL`. -/
def domain (type : FftType) : DftiDomain := if type = .complex then .complex else .real

def makeBackendPlan [Field K] (lib : DftiLib K) (cfg : FftPlanConfig) :
    Result (BackendPlan (MklState K) (World K)) := do
  checkSizes cfg
  let inverse ← resolveInverse cfg
  let n := toInt64 cfg.length
  if dftiOk lib (lib.createDescriptor cfg.precision (domain cfg.type) n) = false then
    .error .backendError
  else match setValues lib (.create cfg.precision (domain cfg.type) n) (values cfg inverse) with
    | none => .error .backendError
    | some h =>
      if dftiOk lib (lib.commitDescriptor h) = false then .error .backendError
      else .ok {
        state := ⟨h, inverse⟩
        execute := mklExecute lib
        workspaceBytes := 0
        name := "mkl" }

/-- When all values are accepted the descriptor has all of them. -/
theorem setValues_eq {lib : DftiLib K} {vs : List (DftiValue K)} {h h' : Descriptor K}
    (configured : setValues lib h vs = some h') : h' = vs.foldl Descriptor.set h := by
  induction vs generalizing h with
  | nil =>
    cases configured
    rfl
  | cons v vs ih =>
    simp only [setValues] at configured
    split at configured
    · exact ih configured
    · cases configured

/-- The descriptor of an accepted configuration. -/
def descriptor [Field K] (cfg : FftPlanConfig) : Descriptor K :=
  (values cfg cfg.isInverse).foldl Descriptor.set
    (.create cfg.precision (domain cfg.type) (toInt64 cfg.length))

/-- What an accepted configuration gives. -/
theorem makeBackendPlan_ok [Field K] {lib : DftiLib K} {cfg : FftPlanConfig}
    {plan : BackendPlan (MklState K) (World K)} (made : makeBackendPlan lib cfg = .ok plan) :
    cfg.Valid ∧ dftiOk lib (lib.commitDescriptor (descriptor cfg)) = true ∧
      plan.state = ⟨descriptor cfg, cfg.isInverse⟩ ∧ plan.execute = mklExecute lib := by
  obtain ⟨valid, made⟩ := checks_eq_ok.mp made
  refine ⟨valid, ?_⟩
  dsimp only at made
  split at made
  · cases made
  · split at made
    · cases made
    · rename_i h configured
      have same : h = descriptor cfg := setValues_eq configured
      split at made
      · cases made
      · rename_i committed
        cases made
        rw [same, Bool.not_eq_false] at committed
        exact ⟨committed, by rw [same], rfl⟩

/-- A valid configuration is accepted if all calls of the library succeed. -/
theorem exists_plan [Field K] (lib : DftiLib K) {cfg : FftPlanConfig} (valid : cfg.Valid)
    (create : ∀ precision domain n, dftiOk lib (lib.createDescriptor precision domain n) = true)
    (set : ∀ h v, dftiOk lib (lib.setValue h v) = true)
    (commit : ∀ h, dftiOk lib (lib.commitDescriptor h) = true) :
    ∃ plan, makeBackendPlan lib cfg = .ok plan := by
  have configured : ∀ vs (h : Descriptor K), setValues lib h vs = some (vs.foldl Descriptor.set h) := by
    intro vs
    induction vs with
    | nil => exact fun _ => rfl
    | cons v vs ih =>
      intro h
      rw [setValues, if_pos (set h v), ih, List.foldl_cons]
  let plan : BackendPlan (MklState K) (World K) := {
    state := ⟨descriptor cfg, cfg.isInverse⟩
    execute := mklExecute lib
    workspaceBytes := 0
    name := "mkl" }
  refine ⟨plan, checks_eq_ok.mpr ⟨valid, ?_⟩⟩
  simp only [create, configured, commit, Bool.true_eq_false, if_false]
  rfl

/-- Executes leave the state of a plan alone. -/
theorem reached_state [Field K] {lib : DftiLib K} {cfg : FftPlanConfig}
    {plan : BackendPlan (MklState K) (World K)} (made : makeBackendPlan lib cfg = .ok plan)
    {s : MklState K} (reached : plan.Reached cfg s) : s = plan.state := by
  obtain ⟨-, -, -, execute⟩ := makeBackendPlan_ok made
  refine reached.eq_state ?_
  intro s w p q st w' s' run
  rw [execute, mklExecute] at run
  cases run
  rfl

/-! ## The descriptor -/

section Descriptor

variable [Field K] (cfg : FftPlanConfig)

/-- All values of the descriptor of a configuration. -/
theorem descriptor_eq :
    (descriptor cfg : Descriptor K) =
      { precision := cfg.precision
        domain := domain cfg.type
        length := toInt64 cfg.length
        notInplace := true
        complexComplex := decide (cfg.type ≠ .complex)
        numberOfTransforms := toInt64 cfg.batch
        inputDistance := toInt64 cfg.distances.1
        outputDistance := toInt64 cfg.distances.2
        backwardScale := if cfg.isInverse then 1 / (cfg.length : K) else 1 } := by
  unfold descriptor values FftPlanConfig.distances realComplexBins
  cases cfg.type <;> cases cfg.isInverse <;> simp [Descriptor.set, Descriptor.create]

theorem descriptor_plain : (descriptor cfg : Descriptor K).Plain := by
  rw [descriptor_eq]
  refine ⟨rfl, ?_⟩
  unfold domain
  cases cfg.type <;> simp

theorem descriptor_length : (descriptor cfg : Descriptor K).length = toInt64 cfg.length := by
  rw [descriptor_eq]

/-- The descriptor asks for the configured transform. -/
theorem descriptor_kind : (descriptor cfg : Descriptor K).kind cfg.isInverse = cfg.kind := by
  rw [descriptor_eq, ← planKind_isInverse]
  unfold Descriptor.kind domain planKind FftPlanConfig.isInverse
  cases cfg.type with
  | complex => rfl
  | realToComplex => rfl
  | complexToReal => rfl

/-- The scale of the descriptor is the contract's. -/
theorem descriptor_scale : (descriptor cfg : Descriptor ℝ).scale cfg.isInverse = cfg.scale := by
  rw [descriptor_eq]
  unfold Descriptor.scale FftPlanConfig.scale
  cases cfg.isInverse <;> rfl

/-- For buffers that can exist the descriptor names the configured lanes. -/
theorem descriptor_strided (length_lt : cfg.length < 2 ^ 63) (batch_lt : cfg.batch < 2 ^ 63) :
    (descriptor cfg : Descriptor K).strided cfg.isInverse =
      .contiguous cfg.batch (cfg.kind.inLen cfg.length) (cfg.kind.outLen cfg.length) := by
  have bins_lt : realComplexBins cfg.length < 2 ^ 63 := by
    unfold realComplexBins
    omega
  have distances : toInt64 cfg.distances.1 = cfg.distances.1 ∧
      toInt64 cfg.distances.2 = cfg.distances.2 := by
    unfold FftPlanConfig.distances
    cases cfg.type with
    | complex => exact ⟨toInt64_of_lt length_lt, toInt64_of_lt length_lt⟩
    | realToComplex => exact ⟨toInt64_of_lt length_lt, toInt64_of_lt bins_lt⟩
    | complexToReal => exact ⟨toInt64_of_lt bins_lt, toInt64_of_lt length_lt⟩
  rw [← dftStrided_eq_contiguous, Descriptor.strided, descriptor_kind, descriptor_eq,
    toInt64_of_lt length_lt, toInt64_of_lt batch_lt, distances.1, distances.2, Int.toNat_natCast,
    Int.toNat_natCast]

end Descriptor

/-! ## The contract -/

/-- What a committed descriptor of a configuration computes. -/
theorem compute_transforms {lib : DftiLib ℝ} (documented : lib.Documented) {cfg : FftPlanConfig}
    (valid : cfg.Valid) (addressable : cfg.Addressable)
    (committed : dftiOk lib (lib.commitDescriptor (descriptor cfg)) = true) :
    Transforms cfg.kind cfg.length cfg.scale
      (.contiguous cfg.batch (cfg.kind.inLen cfg.length) (cfg.kind.outLen cfg.length)) False
      fun m p q => (lib.compute cfg.isInverse (descriptor cfg) m p q).2 := by
  have length_lt := addressable.length_lt valid.batch_pos
  have batch_lt := addressable.batch_lt valid.length_pos
  have transforms := documented.transforms _ cfg.isInverse committed (descriptor_plain cfg)
  rw [descriptor_strided cfg length_lt batch_lt, descriptor_kind, descriptor_scale,
    descriptor_length, toInt64_of_lt length_lt, Int.toNat_natCast] at transforms
  exact transforms

/-- An accepted plan keeps the contract. -/
theorem makeBackendPlan_meets {lib : DftiLib ℝ} (documented : lib.Documented)
    {cfg : FftPlanConfig} {plan : BackendPlan (MklState ℝ) (World ℝ)}
    (made : makeBackendPlan lib cfg = .ok plan) (addressable : cfg.Addressable) :
    plan.Meets cfg True := by
  obtain ⟨valid, committed, state, execute⟩ := makeBackendPlan_ok made
  have strided := descriptor_strided (K := ℝ) cfg (addressable.length_lt valid.batch_pos)
    (addressable.batch_lt valid.length_pos)
  have transforms := compute_transforms documented valid addressable committed
  have succeeds := documented.succeeds _ cfg.isInverse committed (descriptor_plain cfg)
  rw [strided] at succeeds
  intro s reached w p q usable input
  rw [reached_state made reached, state]
  have success := succeeds w.mem p q
    (Strided.fits_contiguous usable.input usable.output usable.apart)
  obtain ⟨left, leftLength, keeps, result, -⟩ := transforms.eq_write usable input
  refine ⟨left,
    { w with mem := (w.mem.write p left).write q (cfg.contract (w.mem.read p cfg.inSize)) },
    ⟨descriptor cfg, cfg.isInverse⟩, ?_, leftLength, fun _ => keeps not_false, rfl⟩
  rw [execute]
  simp only [mklExecute, success, if_true, result, FftPlanConfig.contract]

end DspDispatch.Fft.Mkl
