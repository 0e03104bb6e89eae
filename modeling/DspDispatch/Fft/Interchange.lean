import DspDispatch.Fft.Vendor

/-!
# Interchangeable backends

Two plans of one configuration, of whatever backends, write the same output: the
contract's. The placement of the `1 / N`, the lane distances and the layout of the
library's spectra leave no trace.
-/

namespace DspDispatch.Fft

open Kit

/-- Plans of any two backends for one configuration compute the same: whatever
calls either has served before, both executes return `Ok` on buffers with the same
input and leave the contract's output, which is for each lane the plain forward
sums or the inverse sums times `1 / N`. -/
theorem backends_interchangeable {libs : Libraries ℝ} (documented : libs.Documented)
    {b b' : Backend} {cfg : FftPlanConfig} (plan : b.Plan libs cfg) (plan' : b'.Plan libs cfg)
    (addressable : cfg.Addressable) (fits : b.Narrows ∨ b'.Narrows → cfg.FitsInt)
    {w w' : World ℝ} {input output input' output' : Ptr}
    (usable : cfg.Usable w.mem input output) (usable' : cfg.Usable w'.mem input' output')
    (same : w'.mem.read input' cfg.inSize = w.mem.read input cfg.inSize)
    (covered : cfg.Input (w.mem.read input cfg.inSize)) :
    ∃ v v', plan.execute w input output = some (.ok, v) ∧
      plan'.execute w' input' output' = some (.ok, v') ∧
      v.mem.read output cfg.outSize = cfg.contract (w.mem.read input cfg.inSize) ∧
      v'.mem.read output' cfg.outSize = v.mem.read output cfg.outSize := by
  obtain ⟨v, run, result, -⟩ := plan.execute_output documented addressable
    (fun narrows => fits (.inl narrows)) usable covered
  obtain ⟨v', run', result', -⟩ := plan'.execute_output documented addressable
    (fun narrows => fits (.inr narrows)) usable' (by rwa [same])
  exact ⟨v, v', run, run', result, by rw [result', result, same]⟩

/-- Two lanes of six real samples. -/
def twoRealLanes : FftPlanConfig where
  type := .realToComplex
  length := 6
  batch := 2

/-- Two lanes of six complex samples, back from their spectra. -/
def twoInverseLanes : FftPlanConfig :=
  { twoRealLanes with type := .complex, direction := .inverse }

/-- A buffer of the numbers 1 to 24, and one to write to. -/
noncomputable def someNumbers : World ℝ :=
  .ofBuffers fun i => if i = 0 then (List.range 24).map fun k => (k : ℝ) + 1 else List.replicate 24 0

/-- oneMKL, which scales by itself, and ArmPL, where the adapter does: the spectra of two real
lanes, and two inverse transforms with their `1 / 6`. -/
theorem backends_interchangeable_two_real_lanes : twoInverseLanes.scale = 1 / 6 ∧
    ∀ cfg ∈ [twoRealLanes, twoInverseLanes],
      ∃ (plan : Backend.mkl.Plan Operation.exact.libraries cfg)
        (plan' : Backend.armpl.Plan Operation.exact.libraries cfg) (v v' : World ℝ),
        plan.execute someNumbers ⟨0, 0⟩ ⟨1, 0⟩ = some (.ok, v) ∧
        plan'.execute someNumbers ⟨0, 0⟩ ⟨1, 0⟩ = some (.ok, v') ∧
        v.mem.read ⟨1, 0⟩ cfg.outSize = cfg.contract (someNumbers.mem.read ⟨0, 0⟩ cfg.inSize) ∧
        v'.mem.read ⟨1, 0⟩ cfg.outSize = v.mem.read ⟨1, 0⟩ cfg.outSize := by
  have supported : ∀ cfg ∈ [twoRealLanes, twoInverseLanes], Backend.mkl.Admits cfg ∧
      Backend.armpl.Admits cfg ∧ cfg.Addressable ∧ cfg.FitsInt ∧ cfg.inSize ≤ 24 ∧
        cfg.outSize ≤ 24 := by
    refine List.forall_mem_cons.mpr ⟨?_, List.forall_mem_singleton.mpr ?_⟩
    · have valid : twoRealLanes.Valid := ⟨by decide, by decide, by decide⟩
      exact ⟨⟨valid, by decide, by decide⟩, ⟨valid, by decide, by decide⟩, ⟨by decide, by decide⟩,
        ⟨by decide, by decide⟩, by decide, by decide⟩
    · have valid : twoInverseLanes.Valid := ⟨by decide, by decide, by decide⟩
      exact ⟨⟨valid, by decide, by decide⟩, ⟨valid, by decide, by decide⟩, ⟨by decide, by decide⟩,
        ⟨by decide, by decide⟩, by decide, by decide⟩
  refine ⟨?_, fun cfg member => ?_⟩
  · rw [FftPlanConfig.scale, if_pos (by decide)]
    norm_num [twoInverseLanes, twoRealLanes]
  · obtain ⟨mkl, armpl, addressable, fits, input, output⟩ := supported cfg member
    obtain ⟨plan⟩ := Backend.exists_plan .exact (.inl rfl) mkl
    obtain ⟨plan'⟩ := Backend.exists_plan .exact (.inr (.inr rfl)) armpl
    have usable : cfg.Usable someNumbers.mem ⟨0, 0⟩ ⟨1, 0⟩ :=
      usable_ofBuffers (by simpa using input) (by simpa using output) (by decide)
    have covered : cfg.Input (someNumbers.mem.read ⟨0, 0⟩ cfg.inSize) := by
      simp only [List.mem_cons, List.not_mem_nil, or_false] at member
      rcases member with rfl | rfl
      · exact fun _ _ => trivial
      · exact fun _ _ => trivial
    obtain ⟨v, v', run, run', result, same⟩ := backends_interchangeable Operation.exact.documented
      plan plan' addressable (fun _ => fits) usable usable rfl covered
    exact ⟨plan, plan', v, v', run, run', result, same⟩

end DspDispatch.Fft
