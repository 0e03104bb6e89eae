import DspDispatch.Fft.Backends
import DspDispatch.Fft.Reference
import DspDispatch.Fir.CmsisRefinement
import DspDispatch.Fir.IppStreaming
import DspDispatch.Fir.Liquid
import DspDispatch.Fir.StateSizes

/-!
# Which configurations are invalid arguments

Every factory repeats the checks of the configuration before it asks its library.
A configuration is consistent when the adapters agree on whether it is an invalid
argument, and when none of them says so of one that another accepts.

The FFT adapters agree but for CMSIS, which refuses double precision before it
looks at the direction. The FIR adapters agree but for Liquid, which answers sizes
that do not fit its library's `unsigned int` as invalid.
-/

namespace DspDispatch

open Kit

/-- The backends agree on a request: it is an invalid argument for all of them or
for none, and what one accepts another at most refuses. `answer` is `none` where a
backend gives no status. -/
structure Agree {ι S : Type} (ok invalid : S) (Refusal : S → Prop) (answer : ι → Option S) :
    Prop where
  invalid : ∀ a b, answer a = some invalid → answer b = some invalid
  accepted : ∀ a b st, answer a = some ok → answer b = some st → st = ok ∨ Refusal st

/-- Backends agree that all judge a request by the same condition. -/
theorem agree_of {ι S : Type} {ok invalid : S} {Refusal : S → Prop} {answer : ι → Option S}
    (different : ok ≠ invalid) (admissible : ¬ Refusal invalid) (valid : Prop)
    (rejects : ¬ valid → ∀ a, answer a = some invalid)
    (refuses : valid → ∀ a st, answer a = some st → st = ok ∨ Refusal st) :
    Agree ok invalid Refusal answer := by
  constructor
  · intro a b said
    apply rejects
    intro holds
    rcases refuses holds a invalid said with same | refusal
    · exact different same.symm
    · exact admissible refusal
  · intro a b st accepted said
    by_cases holds : valid
    · exact refuses holds b st said
    · have said' := rejects holds a
      rw [accepted] at said'
      cases said'
      exact absurd rfl different

/-! ## FFT -/

namespace Fft

/-- `status()` of a result. -/
def Result.status {α : Type} : Result α → Status
  | .ok _ => .ok
  | .error st => st

/-- The statuses for what a backend cannot do. -/
def Status.Refusal (st : Status) : Prop :=
  st = .unsupportedLength ∨ st = .unsupportedConfig ∨ st = .backendError

/-- A direction that contradicts the type, with sizes that are in order. -/
structure FftPlanConfig.Contradictory (cfg : FftPlanConfig) : Prop where
  length_pos : 0 < cfg.length
  batch_pos : 0 < cfg.batch
  type : cfg.type = .realToComplex
  direction : cfg.direction = .inverse

/-- The two checks, and which configurations fail them. -/
theorem checks_cases (cfg : FftPlanConfig) :
    (¬ cfg.Valid ∧ ¬ cfg.Contradictory ∧ checkSizes cfg = .error .invalidArgument) ∨
    (¬ cfg.Valid ∧ cfg.Contradictory ∧ checkSizes cfg = .ok () ∧
      resolveInverse cfg = .error .invalidArgument) ∨
    (cfg.Valid ∧ ¬ cfg.Contradictory ∧ checkSizes cfg = .ok () ∧
      resolveInverse cfg = .ok cfg.isInverse) := by
  by_cases zero : cfg.length = 0 ∨ cfg.batch = 0
  · left
    refine ⟨fun valid => ?_, fun bad => ?_, if_pos zero⟩
    · have := valid.length_pos
      have := valid.batch_pos
      omega
    · have := bad.length_pos
      have := bad.batch_pos
      omega
  · have length_pos : 0 < cfg.length := by omega
    have batch_pos : 0 < cfg.batch := by omega
    have sizes : checkSizes cfg = .ok () := if_neg zero
    right
    by_cases backwards : cfg.type = .realToComplex ∧ cfg.direction = .inverse
    · obtain ⟨type, direction⟩ := backwards
      left
      refine ⟨fun valid => valid.direction type direction, ⟨length_pos, batch_pos, type, direction⟩,
        sizes, ?_⟩
      rw [resolveInverse, type]
      exact if_pos direction
    · right
      have forwards : cfg.type = .realToComplex → cfg.direction ≠ .inverse :=
        fun type direction => backwards ⟨type, direction⟩
      exact ⟨⟨length_pos, batch_pos, forwards⟩, fun bad => backwards ⟨bad.type, bad.direction⟩,
        sizes, resolveInverse_eq_ok.mpr ⟨rfl, forwards⟩⟩

/-- What a factory makes of the checks: an invalid configuration is an invalid
argument, a valid one is at most refused. -/
structure ChecksFirst {α : Type} (cfg : FftPlanConfig) (made : Result α) : Prop where
  invalid : ¬ cfg.Valid → made = .error .invalidArgument
  valid : cfg.Valid → ∀ st, made = .error st → st.Refusal

/-- A factory that makes the two checks first. -/
theorem checksFirst {α : Type} {cfg : FftPlanConfig} {rest : Bool → Result α}
    (refuses : ∀ st, rest cfg.isInverse = .error st → st.Refusal) :
    ChecksFirst cfg (do
      checkSizes cfg
      let inverse ← resolveInverse cfg
      rest inverse) := by
  rcases checks_cases cfg with ⟨invalid, -, sizes⟩ | ⟨invalid, -, sizes, resolved⟩ |
    ⟨valid, -, sizes, resolved⟩
  · rw [sizes]
    exact ⟨fun _ => rfl, fun valid => absurd valid invalid⟩
  · rw [sizes, resolved]
    exact ⟨fun _ => rfl, fun valid => absurd valid invalid⟩
  · rw [sizes, resolved]
    exact ⟨fun invalid => absurd valid invalid, fun _ => refuses⟩

/-- A refusal before what comes next. -/
theorem refusal_of_ite {α : Type} {c : Prop} [Decidable c] {st : Status} {rest : Result α}
    (refusal : st.Refusal) (later : ∀ st', rest = .error st' → st'.Refusal) :
    ∀ st', (if c then .error st else rest) = .error st' → st'.Refusal := by
  intro st' refused
  split at refused
  · cases refused
    exact refusal
  · exact later st' refused

theorem refusal_of_ok {α : Type} {a : α} : ∀ st, (.ok a : Result α) = .error st → st.Refusal :=
  nofun

section Factories

variable {K H : Type} [Field K] (cfg : FftPlanConfig)

theorem Mkl.checksFirst (lib : Mkl.DftiLib K) : ChecksFirst cfg (Mkl.makeBackendPlan lib cfg) := by
  refine Fft.checksFirst (refusal_of_ite (.inr (.inr rfl)) ?_)
  intro st refused
  split at refused
  · cases refused
    exact .inr (.inr rfl)
  · exact refusal_of_ite (.inr (.inr rfl)) refusal_of_ok st refused

theorem Aocl.checksFirst (lib : FftPrecision → Aocl.AoclLib K H) :
    ChecksFirst cfg (Aocl.makeBackendPlan lib cfg) :=
  Fft.checksFirst (refusal_of_ite (.inl rfl)
    (refusal_of_ite (.inr (.inr rfl)) refusal_of_ok))

theorem Armpl.checksFirst (lib : FftPrecision → Armpl.FftwLib K H) :
    ChecksFirst cfg (Armpl.makeBackendPlan lib cfg) := by
  refine Fft.checksFirst (refusal_of_ite (.inr (.inr rfl)) ?_)
  intro st refused
  split at refused
  · cases refused
    exact .inr (.inr rfl)
  · exact refusal_of_ok st refused

theorem Pocketfft.checksFirst (lib : FftPrecision → Pocketfft.PocketLib K) (w : World K) :
    ChecksFirst cfg (Pocketfft.makeBackendPlan lib cfg w).1 := by
  rcases checks_cases cfg with ⟨invalid, -, sizes⟩ | ⟨invalid, -, sizes, resolved⟩ | ⟨valid, -, -, -⟩
  · rw [Pocketfft.makeBackendPlan, sizes]
    exact ⟨fun _ => rfl, fun valid => absurd valid invalid⟩
  · rw [Pocketfft.makeBackendPlan, sizes]
    simp only [resolved]
    exact ⟨fun _ => rfl, fun valid => absurd valid invalid⟩
  · by_cases accepted : Pocketfft.Accepted cfg
    · obtain ⟨plan, made⟩ := Pocketfft.exists_plan lib w valid accepted
      rw [made]
      exact ⟨fun invalid => absurd valid invalid, fun _ => refusal_of_ok⟩
    · rw [Pocketfft.makeBackendPlan_of_refused lib w valid accepted]
      refine ⟨fun invalid => absurd valid invalid, fun _ st refused => ?_⟩
      cases refused
      exact .inr (.inr rfl)

/-- CMSIS checks the precision between the two checks. -/
theorem Cmsis.checksFirst (lib : Cmsis.CmsisLib K)
    (agrees : ¬ (cfg.Contradictory ∧ cfg.precision ≠ .f32)) :
    ChecksFirst cfg (Cmsis.makeBackendPlan lib cfg) := by
  rcases checks_cases cfg with ⟨invalid, -, sizes⟩ | ⟨invalid, bad, sizes, resolved⟩ |
    ⟨valid, -, sizes, resolved⟩
  · rw [Cmsis.makeBackendPlan, sizes]
    exact ⟨fun _ => rfl, fun valid => absurd valid invalid⟩
  · have single : ¬ cfg.precision ≠ .f32 := fun double => agrees ⟨bad, double⟩
    rw [Cmsis.makeBackendPlan, sizes, resolved]
    change ChecksFirst cfg (if cfg.precision ≠ .f32 then _ else _)
    rw [if_neg single]
    exact ⟨fun _ => rfl, fun valid => absurd valid invalid⟩
  · rw [Cmsis.makeBackendPlan, sizes, resolved]
    refine ⟨fun invalid => absurd valid invalid, fun _ => ?_⟩
    exact refusal_of_ite (.inr (.inl rfl)) (refusal_of_ite (.inl rfl)
      (refusal_of_ite (.inl rfl) refusal_of_ok))

/-- In double precision CMSIS refuses a contradictory configuration before it
looks at the direction. -/
theorem Cmsis.makeBackendPlan_of_contradictory (lib : Cmsis.CmsisLib K)
    (bad : cfg.Contradictory) (double : cfg.precision ≠ .f32) :
    Cmsis.makeBackendPlan lib cfg = .error .unsupportedConfig := by
  have sizes : checkSizes cfg = .ok () := checkSizes_eq_ok.mpr ⟨bad.length_pos, bad.batch_pos⟩
  rw [Cmsis.makeBackendPlan, sizes]
  exact if_pos double

end Factories

/-- The FFT backends agree on the configuration, in whatever process they are
asked. -/
def Consistent {K : Type} [Field K] (libs : Libraries K) (cfg : FftPlanConfig) : Prop :=
  Agree .ok .invalidArgument Status.Refusal fun request : Backend × World K =>
    some (Result.status (request.1.makeBackendPlan libs cfg request.2).1)

theorem consistent_iff {K : Type} [Field K] (libs : Libraries K) (cfg : FftPlanConfig) :
    Consistent libs cfg ↔ ¬ (cfg.Contradictory ∧ cfg.precision ≠ .f32) := by
  constructor
  · intro agree invalid
    rcases invalid with ⟨bad, double⟩
    have invalid : ¬ cfg.Valid := fun valid => valid.direction bad.type bad.direction
    let w : World K := { mem := ⟨fun _ => []⟩, caches := fun _ => {} }
    have mkl : Backend.makeBackendPlan libs .mkl cfg w = (.error .invalidArgument, w) :=
      congrArg (·, w) ((Mkl.checksFirst cfg libs.mkl).invalid invalid)
    have cmsis : Backend.makeBackendPlan libs .cmsis cfg w = (.error .unsupportedConfig, w) :=
      congrArg (·, w) (Cmsis.makeBackendPlan_of_contradictory cfg libs.cmsis bad double)
    have said := agree.invalid (.mkl, w) (.cmsis, w) (by rw [mkl]; rfl)
    rw [cmsis] at said
    cases said
  · intro agrees
    have checks : ∀ b w, ChecksFirst cfg (Backend.makeBackendPlan libs b cfg w).1 := by
      intro b w
      cases b with
      | mkl => exact Mkl.checksFirst cfg libs.mkl
      | aocl => exact Aocl.checksFirst cfg libs.aocl
      | armpl => exact Armpl.checksFirst cfg libs.armpl
      | pocketfft => exact Pocketfft.checksFirst cfg libs.pocketfft w
      | cmsis => exact Cmsis.checksFirst cfg libs.cmsis agrees
    refine agree_of nofun (by simp [Status.Refusal]) cfg.Valid ?_ ?_
    · intro invalid backend
      rcases backend with ⟨b, w⟩
      rw [(checks b w).invalid invalid]
      rfl
    · intro valid backend st said
      rcases backend with ⟨b, w⟩
      cases made : (Backend.makeBackendPlan libs b cfg w).1 with
      | ok plan =>
        rw [made] at said
        cases said
        exact .inl rfl
      | error st' =>
        rw [made] at said
        cases said
        exact .inr ((checks b w).valid valid st' made)

end Fft

/-! ## FIR -/

namespace Fir

/-- `status()` of a result. -/
def Result.status {α : Type} : Result α → Status
  | .ok _ => .ok
  | .error st => st

/-- The statuses for what a backend cannot do. -/
def Status.Refusal (st : Status) : Prop := st = .unsupportedConfig ∨ st = .backendError

inductive Backend
  | portable
  | liquid
  | ipp
  | cmsis
deriving DecidableEq, Repr

variable {R : Type} [CommRing R]

/-- The libraries behind the FIR backends. -/
structure Libraries (R : Type) [CommRing R] where
  liquid : (t : FirType) → Liquid.FirFilt (SampleOf R t) (TapOf R t)
  ipp : FirPrecision → (t : FirType) → Ipp.IppLib (TapOf R t)
  firSR : (t : FirType) → Nat → Nat → Ipp.FirSR (SampleOf R t)
  cmsis : FirPrecision → Cmsis.CmsisLib R
  sizeofInstance : FirPrecision → Nat

/-- The status with which `make_backend_plan` of a backend answers; `none` is an
access outside an array. -/
def Backend.status (libs : Libraries R) (cfg : FirPlanConfig R) : Backend → Option Status
  | .portable => some (Result.status (Portable.makeBackendPlan cfg))
  | .liquid => some (Result.status (Liquid.makeBackendPlan libs.liquid cfg))
  | .ipp => some (Result.status (Ipp.makeBackendPlan libs.ipp cfg (libs.firSR cfg.type)))
  | .cmsis => (Cmsis.makeBackendPlan libs.cmsis libs.sizeofInstance cfg).map Result.status

/-- The FIR backends agree on the configuration. -/
def Consistent (libs : Libraries R) (cfg : FirPlanConfig R) : Prop :=
  Agree .ok .invalidArgument Status.Refusal (Backend.status libs cfg)

/-- The IPP size and init calls for the configuration succeed. -/
structure Libraries.IppSucceeds (libs : Libraries R) (cfg : FirPlanConfig R) : Prop where
  getSize : ((libs.ipp cfg.precision cfg.type).getSize (toInt32 cfg.tapCount)).1 = .noErr
  init : ∀ buffer, ((libs.ipp cfg.precision cfg.type).init cfg.tapList (toInt32 cfg.tapCount)
    buffer).1 = .noErr

/-- Sizes that do not fit Liquid's `unsigned int`. -/
structure FirPlanConfig.ExceedsLiquid (cfg : FirPlanConfig R) : Prop where
  valid : invalidCommon cfg = false
  precision : cfg.precision = .f32
  sizes : 2 ^ 32 ≤ cfg.tapCount ∨ 2 ^ 32 ≤ cfg.blockSize

theorem Portable.status_of_valid {cfg : FirPlanConfig R} (valid : invalidCommon cfg = false) :
    Result.status (Portable.makeBackendPlan cfg) = .ok := by
  rw [Portable.makeBackendPlan, valid]
  rfl

theorem Liquid.status_of_exceeds (liquid : (t : FirType) → FirFilt (SampleOf R t) (TapOf R t))
    {cfg : FirPlanConfig R} (exceeds : cfg.ExceedsLiquid) :
    Result.status (Liquid.makeBackendPlan liquid cfg) = .invalidArgument := by
  have single : ¬ cfg.precision ≠ .f32 := not_not.mpr exceeds.precision
  rw [Liquid.makeBackendPlan, exceeds.valid, if_neg Bool.false_ne_true, if_neg single]
  rcases exceeds.sizes with taps | block
  · rw [if_pos (by omega)]
    rfl
  · split
    · rfl
    · rw [if_pos (by omega)]
      rfl

/-- A valid configuration within the range of `unsigned int` is at most refused. -/
theorem Liquid.status_of_valid (liquid : (t : FirType) → FirFilt (SampleOf R t) (TapOf R t))
    {cfg : FirPlanConfig R} (valid : invalidCommon cfg = false) (fits : ¬ cfg.ExceedsLiquid) :
    Result.status (Liquid.makeBackendPlan liquid cfg) = .ok ∨
      (Result.status (Liquid.makeBackendPlan liquid cfg)).Refusal := by
  rw [Liquid.makeBackendPlan, valid, if_neg Bool.false_ne_true]
  by_cases double : cfg.precision ≠ .f32
  · rw [if_pos double]
    exact .inr (.inl rfl)
  · have sizes : ¬ (2 ^ 32 ≤ cfg.tapCount ∨ 2 ^ 32 ≤ cfg.blockSize) :=
      fun sizes => fits ⟨valid, not_not.mp double, sizes⟩
    rw [if_neg double, if_neg (by omega), if_neg (by omega)]
    exact .inl rfl

theorem Ipp.makeTyped_status {S T : Type} [Zero S] {sizeofSample : Nat} {lib : IppLib T}
    {firSR : Nat → Nat → FirSR S} {taps : List T} {tapCount blockSize batch : Nat}
    (sized : (lib.getSize (toInt32 tapCount)).1 = .noErr)
    (ready : ∀ buffer, (lib.init taps (toInt32 tapCount) buffer).1 = .noErr) :
    Result.status (makeTyped sizeofSample lib firSR taps tapCount blockSize batch) = .ok ∨
      (Result.status (makeTyped sizeofSample lib firSR taps tapCount blockSize batch)).Refusal := by
  rcases size : lib.getSize (toInt32 tapCount) with ⟨st, specSize, workSize⟩
  rcases init : lib.init taps (toInt32 tapCount) (List.replicate specSize.toNat 0) with ⟨st', spec⟩
  have sized' : mapStatus st = .ok := by
    rw [size] at sized
    exact (mapStatus_eq_ok_iff st).mpr sized
  have ready' : mapStatus st' = .ok := by
    have said := ready (List.replicate specSize.toNat 0)
    rw [init] at said
    exact (mapStatus_eq_ok_iff st').mpr said
  cases ranges : exceedsInt tapCount || exceedsInt blockSize with
  | true =>
    simp only [makeTyped, ranges]
    exact .inr (.inl rfl)
  | false =>
    by_cases unusable : specSize ≤ 0 ∨ workSize < 0
    · simp only [makeTyped, ranges, size, sized', unusable]
      exact .inr (.inr rfl)
    · simp only [makeTyped, ranges, size, init, sized', unusable, ready']
      exact .inl rfl

theorem Ipp.status_of_valid {libs : Libraries R} {cfg : FirPlanConfig R}
    (valid : invalidCommon cfg = false) (succeeds : libs.IppSucceeds cfg) :
    Result.status (Ipp.makeBackendPlan libs.ipp cfg (libs.firSR cfg.type)) = .ok ∨
      (Result.status (Ipp.makeBackendPlan libs.ipp cfg (libs.firSR cfg.type))).Refusal := by
  rw [Ipp.makeBackendPlan, valid, if_neg Bool.false_ne_true]
  split
  · exact .inr (.inl rfl)
  · exact Ipp.makeTyped_status succeeds.getSize succeeds.init

theorem Cmsis.makeTyped_status {sizeofReal sizeofInstance : Nat} {lib : CmsisLib R}
    {taps : List R} {tapCount blockSize batch : Nat} {made : Result (BackendPlan (CmsisFirState R) R)}
    (run : makeTyped sizeofReal sizeofInstance lib taps tapCount blockSize batch = some made) :
    Result.status made = .ok ∨ (Result.status made).Refusal := by
  rw [makeTyped] at run
  split at run
  · cases run
    exact .inr (.inl rfl)
  · split at run
    · cases run
      exact .inr (.inl rfl)
    · obtain ⟨coeffs, -, run⟩ := Option.bind_eq_some_iff.mp run
      obtain ⟨s, -, run⟩ := Option.bind_eq_some_iff.mp run
      cases run
      exact .inl rfl

theorem Cmsis.status_of_valid (lib : FirPrecision → CmsisLib R) (sizeofInstance : FirPrecision → Nat)
    {cfg : FirPlanConfig R} (valid : invalidCommon cfg = false)
    {made : Result (BackendPlan (CmsisFirState R) R)}
    (run : Cmsis.makeBackendPlan lib sizeofInstance cfg = some made) :
    Result.status made = .ok ∨ (Result.status made).Refusal := by
  obtain ⟨type, precision, taps, tapCount, blockSize, batch, readable⟩ := cfg
  unfold Cmsis.makeBackendPlan at run
  rw [valid, if_neg Bool.false_ne_true] at run
  cases type with
  | real => exact Cmsis.makeTyped_status run
  | complexRealTaps =>
    cases run
    exact .inr (.inl rfl)
  | complex =>
    cases run
    exact .inr (.inl rfl)

theorem consistent_iff {libs : Libraries R} {cfg : FirPlanConfig R}
    (succeeds : libs.IppSucceeds cfg) : Consistent libs cfg ↔ ¬ cfg.ExceedsLiquid := by
  constructor
  · intro agree exceeds
    have liquid : Backend.status libs cfg .liquid = some .invalidArgument :=
      congrArg some (Liquid.status_of_exceeds libs.liquid exceeds)
    have portable : Backend.status libs cfg .portable = some .ok :=
      congrArg some (Portable.status_of_valid exceeds.valid)
    have said := agree.invalid .liquid .portable liquid
    rw [portable] at said
    cases said
  · intro fits
    refine agree_of nofun (by simp [Status.Refusal]) (invalidCommon cfg = false) ?_ ?_
    · intro invalid b
      rw [Bool.not_eq_false] at invalid
      cases b with
      | portable => rw [Backend.status, Portable.makeBackendPlan, if_pos invalid]; rfl
      | liquid => rw [Backend.status, Liquid.makeBackendPlan, if_pos invalid]; rfl
      | ipp => rw [Backend.status, Ipp.makeBackendPlan, if_pos invalid]; rfl
      | cmsis => unfold Backend.status Cmsis.makeBackendPlan; rw [if_pos invalid]; rfl
    · intro valid b st said
      cases b with
      | portable =>
        cases said
        exact .inl (Portable.status_of_valid valid)
      | liquid =>
        cases said
        exact Liquid.status_of_valid libs.liquid valid fits
      | ipp =>
        cases said
        exact Ipp.status_of_valid valid succeeds
      | cmsis =>
        obtain ⟨made, run, rfl⟩ := Option.map_eq_some_iff.mp said
        exact Cmsis.status_of_valid libs.cmsis libs.sizeofInstance valid run

end Fir

/-! ## Both -/

/-- The FFT backends agree on all configurations but contradictory ones in double
precision, the FIR backends on all but those with sizes out of Liquid's range. -/
theorem invalid_argument_consistent {K R : Type} [Field K] [CommRing R] (fft : Fft.Libraries K)
    (fir : Fir.Libraries R) :
    (∀ cfg : Fft.FftPlanConfig,
      Fft.Consistent fft cfg ↔ ¬ (cfg.Contradictory ∧ cfg.precision ≠ .f32)) ∧
    (∀ cfg : Fir.FirPlanConfig R, fir.IppSucceeds cfg →
      (Fir.Consistent fir cfg ↔ ¬ cfg.ExceedsLiquid)) :=
  ⟨Fft.consistent_iff fft, fun _ succeeds => Fir.consistent_iff succeeds⟩

/-- FIR libraries that filter directly, IPP with the taps 3 and 5. -/
def Fir.plainLibraries : Fir.Libraries Int where
  liquid t :=
    { Filter := List (Fir.TapOf Int t) × List (Fir.SampleOf Int t)
      create := fun taps n => (taps.take n, delayLine (n - 1) [])
      executeBlock := fun f block => (filterBlock f.1 f.2 block, f.1, shiftIn f.2 block)
      reset := fun f => (f.1, List.replicate f.2.length 0) }
  ipp _ := Fir.Ipp.twoTapLib
  firSR
    | .real => fun _ _ => Fir.Ipp.twoTapFirSR false
    | .complexRealTaps => fun _ _ src _ _ work => ⟨.algTypeErr, src, [], work⟩
    | .complex => fun _ _ src _ _ work => ⟨.algTypeErr, src, [], work⟩
  cmsis _ := Fir.Cmsis.plainLib Int
  sizeofInstance _ := 16

theorem Fir.plainLibraries_ippSucceeds :
    Fir.plainLibraries.IppSucceeds Fir.Ipp.twoTapConfig where
  getSize := rfl
  init _ := rfl

/-- The backends agree on sixteen complex values, and on two taps. -/
theorem invalid_argument_consistent_small :
    Fft.Consistent Fft.Operation.exact.libraries Fft.sixteen ∧
    Fir.Consistent Fir.plainLibraries Fir.Ipp.twoTapConfig := by
  have agree := invalid_argument_consistent Fft.Operation.exact.libraries Fir.plainLibraries
  refine ⟨(agree.1 _).mpr ?_, (agree.2 _ Fir.plainLibraries_ippSucceeds).mpr ?_⟩
  · intro invalid
    rcases invalid with ⟨-, double⟩
    exact double rfl
  · intro valid
    rcases valid with ⟨-, -, sizes⟩
    exact absurd sizes (by decide)

/-- Sixteen real values, transformed backwards in double precision. -/
def Fft.backwards : Fft.FftPlanConfig :=
  { Fft.sixteen with type := .realToComplex, precision := .f64, direction := .inverse }

/-- A block one sample longer than an `unsigned int` can say. -/
def Fir.longBlock : Fir.FirPlanConfig Int := Fir.realConfig [3, 5] rfl (2 ^ 32) 1

theorem invalid_argument_inconsistent :
    ¬ Fft.Consistent Fft.Operation.exact.libraries Fft.backwards ∧
    ¬ Fir.Consistent Fir.plainLibraries Fir.longBlock := by
  have succeeds : Fir.plainLibraries.IppSucceeds Fir.longBlock := ⟨rfl, fun _ => rfl⟩
  constructor
  · intro agree
    have bad : Fft.backwards.Contradictory := ⟨by decide, by decide, rfl, rfl⟩
    exact (Fft.consistent_iff _ _).mp agree ⟨bad, by decide⟩
  · intro agree
    exact (Fir.consistent_iff succeeds).mp agree ⟨rfl, rfl, .inr (Nat.le_refl _)⟩

end DspDispatch
