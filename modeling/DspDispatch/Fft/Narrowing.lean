import DspDispatch.Fft.Reference

/-!
# What ArmPL and AOCL are told

The two factories convert length, batch and distances to `int` without a check.
What the library is told is the configured transform exactly when length and
batch fit into `int`; the distances then fit as well. Otherwise a smaller
transform is planned, and nothing says so.
-/

namespace DspDispatch.Fft

open Kit

/-- Length, number of transforms and distances given to a library. -/
structure Description where
  length : Int
  count : Int
  idist : Int
  odist : Int

/-- The configured transform. -/
def FftPlanConfig.description (cfg : FftPlanConfig) : Description :=
  ⟨cfg.length, cfg.batch, cfg.distances.1, cfg.distances.2⟩

/-- What a planner call of ArmPL says. -/
def Armpl.PlanMany.description (d : PlanMany) : Description := ⟨d.n, d.howmany, d.idist, d.odist⟩

/-- What a descriptor of AOCL says. -/
def Aocl.ProbDesc.description (d : ProbDesc) : Description :=
  ⟨d.dims.n, d.vecs.n, d.vecs.is, d.vecs.os⟩

/-- The library is told the configured transform, and its lanes are all lanes of
the two buffers. -/
def FftPlanConfig.DescribedBy (cfg : FftPlanConfig) (told : Description) (S : Strided) : Prop :=
  told = cfg.description ∧
    S = .contiguous cfg.batch (cfg.kind.inLen cfg.length) (cfg.kind.outLen cfg.length)

/-- The configured values converted to `int`. -/
def FftPlanConfig.narrowedDescription (cfg : FftPlanConfig) : Description :=
  ⟨toInt32 cfg.length, toInt32 cfg.batch, toInt32 cfg.distances.1, toInt32 cfg.distances.2⟩

theorem Armpl.plannerCall_description (cfg : FftPlanConfig) (inverse : Bool) :
    (plannerCall cfg inverse).description = cfg.narrowedDescription := by
  unfold PlanMany.description FftPlanConfig.narrowedDescription plannerCall FftPlanConfig.distances
    realComplexBins
  cases cfg.type with
  | complex => simp only
  | realToComplex => simp only
  | complexToReal => simp only

theorem Aocl.problem_description (cfg : FftPlanConfig) (inverse : Bool) :
    (problem cfg inverse).description = cfg.narrowedDescription := by
  unfold ProbDesc.description FftPlanConfig.narrowedDescription problem FftPlanConfig.distances
    realComplexBins
  cases cfg.type with
  | complex => simp only
  | realToComplex => simp only
  | complexToReal => simp only

/-- The conversion keeps the configured transform exactly when length and batch
survive. -/
theorem FftPlanConfig.describedBy_narrowed_iff (cfg : FftPlanConfig) :
    cfg.DescribedBy cfg.narrowedDescription cfg.narrowed ↔ cfg.FitsInt := by
  constructor
  · intro described
    rcases described with ⟨told, -⟩
    rw [FftPlanConfig.narrowedDescription, FftPlanConfig.description, Description.mk.injEq] at told
    obtain ⟨length, count, -, -⟩ := told
    exact ⟨toInt32_eq_self_iff.mp length, toInt32_eq_self_iff.mp count⟩
  · intro fits
    refine ⟨?_, cfg.narrowed_eq_contiguous fits⟩
    have distances := FftPlanConfig.toInt32_distances fits
    rw [FftPlanConfig.narrowedDescription, FftPlanConfig.description, toInt32_of_lt fits.1,
      toInt32_of_lt fits.2, distances.1, distances.2]

/-- For every configuration the ArmPL or the AOCL factory accepts: the call that
made its plan tells the library the configured length, count and distances, and so
names every configured lane, exactly when length and batch are below `2^31`. -/
theorem narrow_plans_describe_iff {K H H' : Type} [Field K]
    (fftw : FftPrecision → Armpl.FftwLib K H) (aoclfftz : FftPrecision → Aocl.AoclLib K H')
    (cfg : FftPlanConfig) :
    (∀ plan, Armpl.makeBackendPlan fftw cfg = .ok plan →
      ∃ call, (fftw cfg.precision).planMany call = some plan.state.plan ∧
        call = Armpl.plannerCall cfg cfg.isInverse ∧
        (cfg.DescribedBy call.description call.strided ↔ cfg.FitsInt)) ∧
    (∀ plan, Aocl.makeBackendPlan aoclfftz cfg = .ok plan →
      ∃ desc, (aoclfftz cfg.precision).setup desc = plan.state.handle ∧
        desc = Aocl.problem cfg cfg.isInverse ∧
        (cfg.DescribedBy desc.description desc.strided ↔ cfg.FitsInt)) := by
  constructor
  · intro plan made
    obtain ⟨-, h, planned, state, -⟩ := Armpl.makeBackendPlan_ok made
    refine ⟨_, by rw [planned, state], rfl, ?_⟩
    rw [Armpl.plannerCall_description, Armpl.plannerCall_strided]
    exact cfg.describedBy_narrowed_iff
  · intro plan made
    obtain ⟨-, -, h, -, rfl⟩ := Aocl.makeBackendPlan_ok made
    refine ⟨_, rfl, rfl, ?_⟩
    rw [Aocl.problem_description, Aocl.problem_strided]
    exact cfg.describedBy_narrowed_iff

/-- ArmPL is told of sixteen values. -/
theorem narrow_plans_describe_iff_sixteen :
    ∃ plan call, Armpl.makeBackendPlan (fun _ => Operation.exact.armpl) sixteen = .ok plan ∧
      Operation.exact.armpl.planMany call = some plan.state.plan ∧
      sixteen.DescribedBy call.description call.strided := by
  obtain ⟨plan, made⟩ := Armpl.exists_plan (fun _ => Operation.exact.armpl) sixteen_valid
    (fun _ => rfl) (Operation.exact.armpl_planMany ⟨by decide, by decide⟩)
  obtain ⟨call, planned, -, described⟩ := (narrow_plans_describe_iff
    (fun _ => Operation.exact.armpl) (fun _ => Operation.exact.aocl) sixteen).1 plan made
  exact ⟨plan, call, made, planned, described.mpr ⟨by decide, by decide⟩⟩

/-- A length of `2^32 + 1` is planned as one of length `1`. -/
def wrappedLength : FftPlanConfig :=
  { sixteen with length := 2 ^ 32 + 1, length_lt := by decide }

theorem wrappedLength_not_described :
    ¬ ∀ (cfg : FftPlanConfig) plan, Armpl.makeBackendPlan (fun _ => Operation.exact.armpl) cfg = .ok plan →
      cfg.DescribedBy (Armpl.plannerCall cfg cfg.isInverse).description
        (Armpl.plannerCall cfg cfg.isInverse).strided := by
  intro described
  have valid : wrappedLength.Valid := ⟨by decide, by decide, by decide⟩
  obtain ⟨plan, made⟩ := Armpl.exists_plan (fun _ => Operation.exact.armpl) valid
    (fun _ => rfl) (Operation.exact.armpl_planMany ⟨by decide, by decide⟩)
  have fits := described wrappedLength plan made
  rw [Armpl.plannerCall_description, Armpl.plannerCall_strided,
    FftPlanConfig.describedBy_narrowed_iff] at fits
  exact absurd fits (by decide)

end DspDispatch.Fft
