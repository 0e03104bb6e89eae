import DspDispatch.Fft.Library

/-!
# PocketFFT backend (`src/backends/pocketfft/pocketfft_backend.cpp`)

The public functions `c2c`, `r2c` and `c2r` of pocketfft are modelled with their
checks and their use of the plan cache. What they do with a plan, the passes over
the lanes of an array, is a parameter. A plan keeps shape and strides and looks
the pocketfft plan up again in every execute. A length that the constructor of
pocketfft refuses gets no plan (`Accepted`).
-/

namespace DspDispatch.Fft

/-- `get_plan` for a plan class: the length of the plan found or constructed;
`none` is the exception of the constructor. -/
def World.getPlan {K : Type} (w : World K) (kind : Pocketfft.PlanKind) (length : Nat) :
    Option (Nat × World K) :=
  (Pocketfft.getPlan (w.caches kind) length).map fun lookup =>
    (lookup.plan.length,
      { w with
        caches := Function.update w.caches kind lookup.cache
        requests := ⟨kind, length, lookup.constructed⟩ :: w.requests })

theorem World.getPlan_eq_none {K : Type} (w : World K) {kind : Pocketfft.PlanKind} {length : Nat}
    (refused : kind.choice length = none) : w.getPlan kind length = none := by
  rw [World.getPlan, Pocketfft.getPlan_eq_none _ refused, Option.map_none]

/-- A length the constructor does not refuse is looked up in the cache of its class. -/
theorem World.exists_getPlan {K : Type} (w : World K) {kind : Pocketfft.PlanKind} {length : Nat}
    (chosen : (kind.choice length).isSome = true) :
    ∃ lookup, Pocketfft.getPlan (w.caches kind) length = some lookup ∧
      w.getPlan kind length = some (length,
        { w with
          caches := Function.update w.caches kind lookup.cache
          requests := ⟨kind, length, lookup.constructed⟩ :: w.requests }) := by
  obtain ⟨lookup, found⟩ := Pocketfft.exists_getPlan (w.caches kind) chosen
  refine ⟨lookup, found, ?_⟩
  rw [World.getPlan, found, Option.map_some, Pocketfft.getPlan_length found]

namespace Pocketfft

open Kit

variable {K : Type}

/-! ## The library -/

/-- Shape and byte strides of an array and of the transformed array. The shape is
the one of the real side. -/
structure NdArgs where
  shape : List Nat
  strideIn : List Int
  strideOut : List Int

/-- One pass over all lanes along an axis with a plan of the given length, and
the factor applied. -/
structure PocketLib (K : Type) where
  pass : DftKind → Nat → NdArgs → Nat → K → Mem K → Ptr → Ptr → Mem K

/-- The arguments for `count` lanes along the second axis, the distances counted
in elements. -/
def laneArgs (precision : FftPrecision) (kind : DftKind) (n count : Nat) (idist odist : Int) :
    NdArgs :=
  let rb : Int := precision.sizeofReal
  { shape := [count, n]
    strideIn := [idist * (kind.inWidth * rb), kind.inWidth * rb]
    strideOut := [odist * (kind.outWidth * rb), kind.outWidth * rb] }

/-- What the library documents. A pass with a plan of the length of the lanes
computes their transforms times the factor and keeps the input; complex passes
may be made in place if input and output have the same strides. -/
structure PocketLib.Documented (lib : FftPrecision → PocketLib ℝ) : Prop where
  transforms : ∀ precision kind n count idist odist fct,
    Transforms kind n fct (dftStrided kind n count idist odist) False
      ((lib precision).pass kind n (laneArgs precision kind n count idist odist) 1 fct)
  inPlace : ∀ precision forward n count dist fct m p,
    (dftStrided (.c2c forward) n count dist dist).InPlace m p → ∀ b, b < count →
      let S := dftStrided (.c2c forward) n count dist dist
      S.laneOut ((lib precision).pass (.c2c forward) n
          (laneArgs precision (.c2c forward) n count dist dist) 1 fct m p p) p b =
        DftKind.lane n fct (S.laneIn m p b) (.c2c forward)

/-- `util::prod`. -/
def prod (shape : List Nat) : Nat := shape.foldl (fun res sz => res * sz % 2 ^ 64) 1

/-- `util::sanity_check`; `false` is a thrown exception. -/
def sanityCheck (a : NdArgs) (inplace : Bool) (axes : List Nat) : Bool :=
  let ndim := a.shape.length
  decide (1 ≤ ndim) && a.strideIn.length == ndim && a.strideOut.length == ndim &&
    !(inplace && a.strideIn != a.strideOut) && axes.all (· < ndim) && decide axes.Nodup

/-- `general_nd`: one pass an axis, the later ones in place on the output and
without a factor. A plan is looked up unless the last one has the right length. -/
def generalNd [One K] (lib : PocketLib K) (kind : PlanKind) (forward : Bool) (a : NdArgs)
    (output : Ptr) : List Nat → Option Nat → K → Ptr → World K → Option (World K)
  | [], _, _, _, w => some w
  | axis :: axes, plan, fct, input, w => do
    let len := a.shape.getD axis 0
    let (plan, w) ← if plan = some len then some (len, w) else w.getPlan kind len
    generalNd lib kind forward a output axes (some plan) 1 output
      { w with mem := lib.pass (.c2c forward) plan a axis fct w.mem input output }

/-- `c2c`; `none` is a thrown exception. -/
def c2c [One K] (lib : PocketLib K) (precision : FftPrecision) (a : NdArgs) (axes : List Nat)
    (forward : Bool) (fct : K) (input output : Ptr) (w : World K) : Option (World K) :=
  if prod a.shape = 0 then some w
  else if sanityCheck a (input == output) axes then
    generalNd lib ⟨false, precision⟩ forward a output axes none fct input w
  else none

/-- `general_r2c` and `general_c2r`. -/
def generalReal (lib : PocketLib K) (precision : FftPrecision) (kind : DftKind) (a : NdArgs)
    (axis : Nat) (fct : K) (input output : Ptr) (w : World K) : Option (World K) := do
  let (plan, w) ← w.getPlan ⟨true, precision⟩ (a.shape.getD axis 0)
  some { w with mem := lib.pass kind plan a axis fct w.mem input output }

/-- `r2c` for the forward and `c2r` for the backward transform along one axis. -/
def realTransform (lib : PocketLib K) (precision : FftPrecision) (kind : DftKind) (a : NdArgs)
    (axis : Nat) (fct : K) (input output : Ptr) (w : World K) : Option (World K) :=
  if prod a.shape = 0 then some w
  else if sanityCheck a false [axis] then
    generalReal lib precision kind a axis fct input output w
  else none

/-! ## The adapter -/

/-- `PocketState<Real>`, the template argument being `precision`. -/
structure PocketState where
  precision : FftPrecision
  type : FftType
  inverse : Bool
  n : Nat
  batch : Nat
  shape : List Nat
  axes : List Nat
  strideIn : List Int
  strideOut : List Int

/-- The arguments stored in a state. -/
def PocketState.args (s : PocketState) : NdArgs := ⟨s.shape, s.strideIn, s.strideOut⟩

/-- The library call of `pocket_run`. -/
def pocketCall [Field K] (lib : FftPrecision → PocketLib K) (s : PocketState) (w : World K)
    (input output : Ptr) : Option (World K) :=
  let fct : K := if s.inverse then 1 / (s.n : K) else 1
  match s.type with
  | .complex => c2c (lib s.precision) s.precision s.args s.axes (!s.inverse) fct input output w
  | .realToComplex => realTransform (lib s.precision) s.precision .r2c s.args 1 fct input output w
  | .complexToReal => realTransform (lib s.precision) s.precision .c2r s.args 1 fct input output w

/-- `pocket_run`: exceptions of the library become a status. -/
def pocketRun [Field K] (lib : FftPrecision → PocketLib K) (s : PocketState) (w : World K)
    (input output : Ptr) : Status × World K :=
  match pocketCall lib s w input output with
  | none => (.backendError, w)
  | some w => (.ok, w)

def pocketExecute [Field K] (lib : FftPrecision → PocketLib K) (s : PocketState) (w : World K)
    (input output : Ptr) : Option (Status × World K × PocketState) :=
  let run := pocketRun lib s w input output
  some (run.1, run.2, s)

/-- The state of a configuration. -/
def state (cfg : FftPlanConfig) (inverse : Bool) : PocketState :=
  let n := cfg.length
  let bins := n / 2 + 1
  let rb : Int := cfg.precision.sizeofReal
  let cb : Int := 2 * cfg.precision.sizeofReal
  let complexStride : List Int := [toInt64 n * cb, cb]
  let realStride : List Int := [toInt64 n * rb, rb]
  let spectrumStride : List Int := [toInt64 bins * cb, cb]
  let strides :=
    match cfg.type with
    | .complex => (complexStride, complexStride)
    | .realToComplex => (realStride, spectrumStride)
    | .complexToReal => (spectrumStride, realStride)
  { precision := cfg.precision
    type := cfg.type
    inverse := inverse
    n := n
    batch := cfg.batch
    shape := [cfg.batch, n]
    axes := [1]
    strideIn := strides.1
    strideOut := strides.2 }

/-- The byte lengths of the two buffers of the warm-up, in `size_t` arithmetic. -/
def warmBytes (cfg : FftPlanConfig) : Nat × Nat :=
  let n := cfg.length
  let batch := cfg.batch
  let bins := n / 2 + 1
  let rb := cfg.precision.sizeofReal
  let cb := 2 * cfg.precision.sizeofReal
  match cfg.type with
  | .complex => (n * batch * cb % 2 ^ 64, n * batch * cb % 2 ^ 64)
  | .realToComplex => (n * batch * rb % 2 ^ 64, bins * batch * cb % 2 ^ 64)
  | .complexToReal => (bins * batch * cb % 2 ^ 64, n * batch * rb % 2 ^ 64)

/-- The buffers of the warm-up as a memory of two blocks of zeros. -/
def warmMem [Zero K] (cfg : FftPlanConfig) : Mem K where
  cells
    | 0 => List.replicate ((warmBytes cfg).1 / cfg.precision.sizeofReal) 0
    | 1 => List.replicate ((warmBytes cfg).2 / cfg.precision.sizeofReal) 0
    | _ => []

/-- `make_typed`: one transform of throwaway buffers, which leaves its plan in
the cache. -/
def makeTyped [Field K] (lib : FftPrecision → PocketLib K) (cfg : FftPlanConfig) (inverse : Bool)
    (w : World K) : Result (BackendPlan PocketState (World K)) × World K :=
  let run := pocketRun lib (state cfg inverse) { w with mem := warmMem cfg } ⟨0, 0⟩ ⟨1, 0⟩
  let w := { run.2 with mem := w.mem }
  if run.1 ≠ .ok then (.error .backendError, w)
  else
    (.ok {
      state := state cfg inverse
      execute := pocketExecute lib
      workspaceBytes := 0
      name := "pocketfft" }, w)

def makeBackendPlan [Field K] (lib : FftPrecision → PocketLib K) (cfg : FftPlanConfig)
    (w : World K) : Result (BackendPlan PocketState (World K)) × World K :=
  match checkSizes cfg with
  | .error st => (.error st, w)
  | .ok _ =>
    match resolveInverse cfg with
    | .error st => (.error st, w)
    | .ok inverse => makeTyped lib cfg inverse w

/-- What an accepted configuration gives. -/
theorem makeBackendPlan_ok [Field K] {lib : FftPrecision → PocketLib K} {cfg : FftPlanConfig}
    {w : World K} {plan : BackendPlan PocketState (World K)}
    (made : (makeBackendPlan lib cfg w).1 = .ok plan) :
    cfg.Valid ∧ plan.state = state cfg cfg.isInverse ∧ plan.execute = pocketExecute lib ∧
      (makeBackendPlan lib cfg w).2 =
        { (pocketRun lib (state cfg cfg.isInverse) { w with mem := warmMem cfg } ⟨0, 0⟩ ⟨1, 0⟩).2 with
          mem := w.mem } := by
  cases sizes : checkSizes cfg with
  | error st =>
    simp only [makeBackendPlan, sizes] at made
    cases made
  | ok _ =>
    cases resolved : resolveInverse cfg with
    | error st =>
      simp only [makeBackendPlan, sizes, resolved] at made
      cases made
    | ok inverse =>
      obtain ⟨rfl, direction⟩ := resolveInverse_eq_ok.mp resolved
      obtain ⟨length_pos, batch_pos⟩ := checkSizes_eq_ok.mp sizes
      refine ⟨⟨length_pos, batch_pos, direction⟩, ?_⟩
      simp only [makeBackendPlan, sizes, resolved, makeTyped] at made ⊢
      split at made
      · cases made
      · rename_i warm
        cases made
        exact ⟨rfl, rfl, by rw [if_neg warm]⟩

/-- Executes leave the state of a plan alone. -/
theorem reached_state [Field K] {lib : FftPrecision → PocketLib K} {cfg : FftPlanConfig}
    {w : World K} {plan : BackendPlan PocketState (World K)}
    (made : (makeBackendPlan lib cfg w).1 = .ok plan) {s : PocketState}
    (reached : plan.Reached cfg s) : s = plan.state := by
  obtain ⟨-, -, execute, -⟩ := makeBackendPlan_ok made
  refine reached.eq_state ?_
  intro s w p q st w' s' run
  rw [execute, pocketExecute] at run
  cases run
  rfl

/-! ## One run -/

/-- For buffers that can exist the stored strides name the configured lanes. -/
theorem state_args {cfg : FftPlanConfig} (length_lt : cfg.length < 2 ^ 63) :
    (state cfg cfg.isInverse).args =
      laneArgs cfg.precision cfg.kind cfg.length cfg.batch cfg.distances.1 cfg.distances.2 := by
  have bins_lt : cfg.length / 2 + 1 < 2 ^ 63 := by omega
  rw [← planKind_isInverse]
  unfold PocketState.args state laneArgs planKind FftPlanConfig.distances realComplexBins
  dsimp only
  rw [toInt64_of_lt length_lt, toInt64_of_lt bins_lt]
  cases cfg.type with
  | complex => simp [DftKind.inWidth, DftKind.outWidth]
  | realToComplex => simp [DftKind.inWidth, DftKind.outWidth]
  | complexToReal => simp [DftKind.inWidth, DftKind.outWidth]

/-- The checks of the library never reject the arguments of the adapter. -/
theorem state_sanityCheck (cfg : FftPlanConfig) (inverse inplace : Bool)
    (complex : inplace = true → cfg.type = .complex) :
    sanityCheck (state cfg inverse).args inplace [1] = true := by
  unfold sanityCheck PocketState.args state
  cases type : cfg.type with
  | complex => simp
  | realToComplex =>
    have apart : inplace = false := by
      rw [type] at complex
      simpa using complex
    simp [apart]
  | complexToReal =>
    have apart : inplace = false := by
      rw [type] at complex
      simpa using complex
    simp [apart]

/-- The plan class a configuration looks up. -/
def planKindOf (cfg : FftPlanConfig) : PlanKind := ⟨cfg.type ≠ .complex, cfg.precision⟩

/-- What both public functions do with one axis once the checks have passed:
nothing if the product of the shape vanishes, else a lookup of the plan and a
pass with it. -/
def onePass (lib : PocketLib K) (planKind : PlanKind) (kind : DftKind) (a : NdArgs) (axis : Nat)
    (fct : K) (input output : Ptr) (w : World K) : Option (World K) :=
  if prod a.shape = 0 then some w
  else (w.getPlan planKind (a.shape.getD axis 0)).map fun (plan, w) =>
    { w with mem := lib.pass kind plan a axis fct w.mem input output }

section OnePass

variable {lib : PocketLib K} {precision : FftPrecision} {a : NdArgs} {axis : Nat} {fct : K}
  {input output : Ptr} {w : World K}

theorem c2c_eq [One K] {forward : Bool} (checked : sanityCheck a (input == output) [axis] = true) :
    c2c lib precision a [axis] forward fct input output w =
      onePass lib ⟨false, precision⟩ (.c2c forward) a axis fct input output w := by
  rw [c2c, onePass]
  by_cases vanishes : prod a.shape = 0
  · rw [if_pos vanishes, if_pos vanishes]
  · rw [if_neg vanishes, if_neg vanishes, if_pos checked, generalNd, if_neg (by simp)]
    cases w.getPlan ⟨false, precision⟩ (a.shape.getD axis 0) with
    | none => rfl
    | some found => rfl

theorem realTransform_eq {kind : DftKind} (checked : sanityCheck a false [axis] = true) :
    realTransform lib precision kind a axis fct input output w =
      onePass lib ⟨true, precision⟩ kind a axis fct input output w := by
  rw [realTransform, onePass]
  by_cases vanishes : prod a.shape = 0
  · rw [if_pos vanishes, if_pos vanishes]
  · rw [if_neg vanishes, if_neg vanishes, if_pos checked, generalReal]
    cases w.getPlan ⟨true, precision⟩ (a.shape.getD axis 0) with
    | none => rfl
    | some found => rfl

end OnePass

/-- A run of a stored state passes the checks and makes one pass. -/
theorem pocketCall_state [Field K] (lib : FftPrecision → PocketLib K) (cfg : FftPlanConfig)
    (w : World K) (input output : Ptr) :
    pocketCall lib (state cfg cfg.isInverse) w input output =
      onePass (lib cfg.precision) (planKindOf cfg) cfg.kind (state cfg cfg.isInverse).args 1
        (if cfg.isInverse then 1 / (cfg.length : K) else 1) input output w := by
  have checked := state_sanityCheck cfg cfg.isInverse
  rw [← planKind_isInverse, planKindOf]
  have stored : (state cfg cfg.isInverse).type = cfg.type := rfl
  unfold pocketCall
  cases type : cfg.type with
  | complex =>
    rw [type] at stored
    simp only [stored]
    exact c2c_eq (checked (input == output) fun _ => type)
  | realToComplex =>
    rw [type] at stored
    simp only [stored]
    exact realTransform_eq (checked false (by simp))
  | complexToReal =>
    rw [type] at stored
    simp only [stored]
    exact realTransform_eq (checked false (by simp))

/-- The library has nothing to do, or a plan for the length. -/
def Accepted (cfg : FftPlanConfig) : Prop :=
  prod (state cfg cfg.isInverse).shape = 0 ∨ ((planKindOf cfg).choice cfg.length).isSome = true

instance (cfg : FftPlanConfig) : Decidable (Accepted cfg) := inferInstanceAs (Decidable (_ ∨ _))

/-- A length that is not refused is accepted, whatever the batch. -/
theorem accepted_of_not_refused {cfg : FftPlanConfig}
    (accepted : ¬ DspDispatch.Pocketfft.PocketfftC.Refused cfg.length) : Accepted cfg := by
  obtain ⟨_, complex, -⟩ := DspDispatch.Pocketfft.PocketfftC.choice_of_accepted accepted
  obtain ⟨_, real, -⟩ := DspDispatch.Pocketfft.PocketfftR.choice_of_accepted accepted
  refine .inr ?_
  rw [PlanKind.choice]
  split
  · rw [real]
    rfl
  · rw [complex]
    rfl

/-- A refused length is not accepted unless the product of the shape vanishes. -/
theorem not_accepted_of_refused {cfg : FftPlanConfig} (fits : cfg.length < 2 ^ 63)
    (refused : DspDispatch.Pocketfft.PocketfftC.Refused cfg.length)
    (samples : prod (state cfg cfg.isInverse).shape ≠ 0) : ¬ Accepted cfg := by
  rintro (vanishes | chosen)
  · exact samples vanishes
  · rw [PlanKind.choice, DspDispatch.Pocketfft.PocketfftC.choice_of_refused fits refused,
      DspDispatch.Pocketfft.PocketfftR.choice_of_refused fits refused, ite_self] at chosen
    exact Bool.false_ne_true chosen

section Run

variable [Field K] (lib : FftPrecision → PocketLib K) {cfg : FftPlanConfig} (w : World K)
  (input output : Ptr)

/-- The library throws for a configuration it does not accept, and nothing has
changed. -/
theorem pocketRun_of_refused (refused : ¬ Accepted cfg) :
    pocketRun lib (state cfg cfg.isInverse) w input output = (.backendError, w) := by
  obtain ⟨samples, thrown⟩ := not_or.mp refused
  have product : ¬ prod (state cfg cfg.isInverse).args.shape = 0 := samples
  have refuses := w.getPlan_eq_none (Option.not_isSome_iff_eq_none.mp thrown)
  have call : pocketCall lib (state cfg cfg.isInverse) w input output = none := by
    rw [pocketCall_state, onePass, if_neg product]
    exact congrArg (Option.map _) refuses
  rw [pocketRun, call]

/-- It returns for any other. -/
theorem pocketRun_of_accepted (accepted : Accepted cfg) :
    ∃ w', onePass (lib cfg.precision) (planKindOf cfg) cfg.kind (state cfg cfg.isInverse).args 1
        (if cfg.isInverse then 1 / (cfg.length : K) else 1) input output w = some w' ∧
      pocketRun lib (state cfg cfg.isInverse) w input output = (.ok, w') := by
  obtain ⟨w', pass⟩ : ∃ w', onePass (lib cfg.precision) (planKindOf cfg) cfg.kind
      (state cfg cfg.isInverse).args 1 (if cfg.isInverse then 1 / (cfg.length : K) else 1) input
        output w = some w' := by
    unfold onePass
    by_cases vanishes : prod (state cfg cfg.isInverse).args.shape = 0
    · exact ⟨w, if_pos vanishes⟩
    · obtain ⟨lookup, -, found⟩ := w.exists_getPlan (accepted.resolve_left vanishes)
      rw [if_neg vanishes]
      exact ⟨_, congrArg (Option.map _) found⟩
  refine ⟨w', pass, ?_⟩
  rw [pocketRun, pocketCall_state, pass]

/-- Every valid configuration the library accepts gets a plan. -/
theorem exists_plan (valid : cfg.Valid) (accepted : Accepted cfg) :
    ∃ plan, (makeBackendPlan lib cfg w).1 = .ok plan := by
  have sizes := checkSizes_eq_ok.mpr ⟨valid.length_pos, valid.batch_pos⟩
  have resolved := resolveInverse_eq_ok.mpr ⟨rfl, valid.direction⟩
  obtain ⟨w', -, warm⟩ := pocketRun_of_accepted lib { w with mem := warmMem cfg } ⟨0, 0⟩ ⟨1, 0⟩
    accepted
  simp only [makeBackendPlan, sizes, resolved, makeTyped, warm, ne_eq, not_true_eq_false, if_false]
  exact ⟨_, rfl⟩

/-- Any other valid configuration is a `BackendError`, and the caches are as
before. -/
theorem makeBackendPlan_of_refused (valid : cfg.Valid) (refused : ¬ Accepted cfg) :
    makeBackendPlan lib cfg w = (.error .backendError, w) := by
  have sizes := checkSizes_eq_ok.mpr ⟨valid.length_pos, valid.batch_pos⟩
  have resolved := resolveInverse_eq_ok.mpr ⟨rfl, valid.direction⟩
  have warm := pocketRun_of_refused lib { w with mem := warmMem cfg } ⟨0, 0⟩ ⟨1, 0⟩ refused
  simp only [makeBackendPlan, sizes, resolved, makeTyped, warm]
  rw [if_pos (by decide)]

/-- So are the lengths that the constructors refuse. -/
theorem makeBackendPlan_of_refused_length (valid : cfg.Valid) (fits : cfg.length < 2 ^ 63)
    (refused : DspDispatch.Pocketfft.PocketfftC.Refused cfg.length)
    (samples : prod (state cfg cfg.isInverse).shape ≠ 0) :
    makeBackendPlan lib cfg w = (.error .backendError, w) :=
  makeBackendPlan_of_refused lib w valid (not_accepted_of_refused fits refused samples)

end Run

/-- A plan is only given for what the library accepts. -/
theorem accepted_of_made [Field K] {lib : FftPrecision → PocketLib K} {cfg : FftPlanConfig}
    {w : World K} {plan : BackendPlan PocketState (World K)}
    (made : (makeBackendPlan lib cfg w).1 = .ok plan) : Accepted cfg := by
  by_contra refused
  rw [makeBackendPlan_of_refused lib w (makeBackendPlan_ok made).1 refused] at made
  cases made

/-! ## The contract -/

/-- The lanes of the configuration, for buffers that can exist. -/
theorem onePass_state {cfg : FftPlanConfig} {lib : PocketLib ℝ} (valid : cfg.Valid)
    (addressable : cfg.Addressable) {fct : ℝ} {input output : Ptr} {w w' : World ℝ}
    (pass : onePass lib (planKindOf cfg) cfg.kind (state cfg cfg.isInverse).args 1 fct input output
      w = some w') :
    w'.mem = lib.pass cfg.kind cfg.length
      (laneArgs cfg.precision cfg.kind cfg.length cfg.batch cfg.distances.1 cfg.distances.2) 1 fct
      w.mem input output := by
  have total := addressable.real_lt
  have product : prod (state cfg cfg.isInverse).args.shape ≠ 0 := by
    have positive := Nat.mul_pos valid.batch_pos valid.length_pos
    have small : cfg.batch * cfg.length % 2 ^ 64 = cfg.batch * cfg.length :=
      Nat.mod_eq_of_lt (by omega)
    have shape : prod (state cfg cfg.isInverse).args.shape = cfg.batch * cfg.length % 2 ^ 64 := by
      simp [prod, state, PocketState.args]
    omega
  rw [onePass, if_neg product, state_args (addressable.length_lt valid.batch_pos)] at pass
  obtain ⟨⟨plan, w₁⟩, found, rfl⟩ := Option.map_eq_some_iff.mp pass
  obtain ⟨lookup, looked, result⟩ := Option.map_eq_some_iff.mp found
  cases result
  have same : lookup.plan.length = cfg.length := getPlan_length looked
  rw [same]

/-- Every execute of an accepted plan is one pass over the configured lanes. -/
theorem execute_eq {lib : FftPrecision → PocketLib ℝ} {cfg : FftPlanConfig} {w₀ : World ℝ}
    {plan : BackendPlan PocketState (World ℝ)} (made : (makeBackendPlan lib cfg w₀).1 = .ok plan)
    (addressable : cfg.Addressable) {s : PocketState} (reached : plan.Reached cfg s)
    (w : World ℝ) (p q : Ptr) :
    ∃ w', plan.execute s w p q = some (.ok, w', s) ∧
      w'.mem = (lib cfg.precision).pass cfg.kind cfg.length
        (laneArgs cfg.precision cfg.kind cfg.length cfg.batch cfg.distances.1 cfg.distances.2) 1
        cfg.scale w.mem p q := by
  obtain ⟨valid, stored, execute, -⟩ := makeBackendPlan_ok made
  obtain ⟨w', pass, run⟩ := pocketRun_of_accepted lib w p q (accepted_of_made made)
  refine ⟨w', ?_, onePass_state valid addressable pass⟩
  rw [reached_state made reached, stored, execute, pocketExecute, run]

/-- What the pass computes. -/
theorem pass_transforms {lib : FftPrecision → PocketLib ℝ} (documented : PocketLib.Documented lib)
    (cfg : FftPlanConfig) :
    Transforms cfg.kind cfg.length cfg.scale
      (.contiguous cfg.batch (cfg.kind.inLen cfg.length) (cfg.kind.outLen cfg.length)) False
      ((lib cfg.precision).pass cfg.kind cfg.length
        (laneArgs cfg.precision cfg.kind cfg.length cfg.batch cfg.distances.1 cfg.distances.2) 1
        cfg.scale) := by
  rw [← dftStrided_eq_contiguous]
  exact documented.transforms _ _ _ _ _ _ _

/-- In place a complex pass writes the same. -/
theorem pass_inPlace {lib : FftPrecision → PocketLib ℝ} (documented : PocketLib.Documented lib)
    {cfg : FftPlanConfig} (complex : cfg.type = .complex) {m : Mem ℝ} {p : Ptr}
    (holds : m.Holds p cfg.inSize) :
    ((lib cfg.precision).pass cfg.kind cfg.length
      (laneArgs cfg.precision cfg.kind cfg.length cfg.batch cfg.distances.1 cfg.distances.2) 1
      cfg.scale m p p).read p cfg.outSize = cfg.contract (m.read p cfg.inSize) := by
  have transforms := pass_transforms documented cfg
  have kind : cfg.kind = .c2c (cfg.direction = .forward) := by
    rw [FftPlanConfig.kind, complex]
  have first : cfg.distances.1 = cfg.length := by rw [FftPlanConfig.distances, complex]
  have second : cfg.distances.2 = cfg.length := by rw [FftPlanConfig.distances, complex]
  have strided := dftStrided_eq_contiguous cfg
  have same := documented.inPlace cfg.precision (cfg.direction = .forward) cfg.length cfg.batch
    cfg.length cfg.scale m p
  have sizes : cfg.kind.outLen cfg.length = cfg.kind.inLen cfg.length := by rw [kind]; rfl
  rw [first, second] at transforms strided ⊢
  rw [← kind, strided, sizes] at same
  rw [sizes] at transforms
  have lanesEq := same (Strided.inPlace_contiguous holds)
  have maps : Strided.Maps _ (fun xs => cfg.kind.lane cfg.length cfg.scale xs) False m p p _ :=
    ⟨transforms.frame m p p, lanesEq⟩
  have holdsOut : m.Holds p (cfg.batch * cfg.kind.inLen cfg.length) := holds
  have result := maps.lanes_contiguous holdsOut
  rw [FftPlanConfig.outSize, sizes, result]
  apply lanes_congr
  intro b below
  rw [cfg.laneOf_read below]

/-- An accepted plan keeps the contract. -/
theorem makeBackendPlan_meets {lib : FftPrecision → PocketLib ℝ}
    (documented : PocketLib.Documented lib) {cfg : FftPlanConfig} {w₀ : World ℝ}
    {plan : BackendPlan PocketState (World ℝ)} (made : (makeBackendPlan lib cfg w₀).1 = .ok plan)
    (addressable : cfg.Addressable) : plan.Meets cfg True := by
  intro s reached w p q usable input
  obtain ⟨w', run, result⟩ := execute_eq made addressable reached w p q
  obtain ⟨left, leftLength, keeps, written, -⟩ :=
    (pass_transforms documented cfg).eq_write usable input
  exact ⟨left, w', s, run, leftLength, fun _ => keeps not_false, result.trans written⟩

end Pocketfft

end DspDispatch.Fft
