import DspDispatch.Pocketfft.ComplexPlans
import DspDispatch.Pocketfft.GeneralReal

/-!
# All plans of the PocketFFT backend, down to the passes

`realPasses` are the real passes modelled here; with the complex ones (`withPasses`) nothing of
the library is left open. For every configuration with a length the library accepts, complex or
real, the backend makes a plan, and every execute of it writes the transforms of the public
contract and nothing else (`modelledPlans_meet`).
-/

namespace DspDispatch.Pocketfft

open Kit Fft

/-- `general_r2c` and `general_c2r` as the backend calls them: `r2c` forward and `c2r` backward.
The array of the spectrum has `shape[axis]/2 + 1` elements on the axis. -/
noncomputable def realPasses (vlen : FftPrecision → Nat) (precision : FftPrecision) :
    Pocketfft.PocketLib ℝ where
  pass kind length a axis fct m input output :=
    let half := a.shape.set axis (a.shape.getD axis 0 / 2 + 1)
    let arrays : NdArrays := ⟨precision.sizeofReal, input, output⟩
    match kind with
    | .c2c _ => m
    | .r2c =>
      ((PocketfftR.make Trig.real length).bind fun plan =>
        passR2C Trig.real (vlen precision) plan true arrays ⟨a.shape, a.strideIn⟩
          ⟨half, a.strideOut⟩ axis fct m).getD m
    | .c2r =>
      ((PocketfftR.make Trig.real length).bind fun plan =>
        passC2R Trig.real (vlen precision) plan false arrays ⟨half, a.strideIn⟩
          ⟨a.shape, a.strideOut⟩ axis fct m).getD m

section Batch

variable {rb vlen batch n : Nat} {p q : Ptr} {m : Mem ℝ} {plan : PocketfftR ℝ}

/-- The value of a real element. -/
theorem reals_element {r : Ptr} {j : Nat} (inside : j < n) :
    reals (fun i => m.read (r.add (i * 1)) 1) j = (m.read r n).getD j 0 := by
  have cell := getElem?_element (m := m) (r := r) inside Nat.one_pos
  rw [Nat.add_zero, Nat.mul_one, Nat.mul_one] at cell
  rw [reals, List.getD_eq_getElem?_getD, List.getD_eq_getElem?_getD, ← cell, Nat.mul_one]

/-- A pass of real lanes. -/
theorem passR2C_batch (sound : plan.Sound n) (wide : 0 < vlen) (size : 0 < rb)
    (positive : 0 < batch * n) (small : batch * n < 2 ^ 64) (holdsIn : m.Holds p (batch * n))
    (holdsOut : m.Holds q (batch * ((n / 2 + 1) * 2)))
    (apart : Apart p (batch * n) q (batch * ((n / 2 + 1) * 2))) (fct : ℝ) :
    passR2C Trig.real vlen plan true ⟨rb, p, q⟩ (rowArr rb batch n n 1)
      (rowArr rb batch (n / 2 + 1) (n / 2 + 1) 2) 1 fct m =
    some (m.write q (Kit.lanes batch fun b =>
      DftKind.lane n fct (m.read (p.add (b * n)) n) .r2c)) := by
  have fits : (rowLayout batch n 1 (n / 2 + 1) 2 p q).Fits m :=
    fits_rows (by rwa [Nat.mul_one]) holdsOut (.inr (by rwa [Nat.mul_one]))
  obtain ⟨m', run, within, written⟩ := passR2C_eq sound
    (lanes_rowArr rb n 1 (n / 2 + 1) (n / 2 + 1) 2 positive small) rfl wide total_rowArr
    (addressed_rows size) fits true fct
  rw [run, eq_write_of_elements holdsOut within written]
  refine congrArg (fun ys => some (m.write q ys)) (lanes_congr fun b lane => ?_)
  refine lanes_congr fun i _ => ?_
  have values : ∀ j, j < n →
      ((reals (fun i => m.read (elementAt n 1 p b i) 1) j : ℝ) : ℂ) =
        ((m.read (p.add (b * n)) n).getD j 0 : ℝ) := by
    intro j inside
    simp only [elementAt, Nat.mul_one n, reals_element inside]
  rw [dft_congr values, mul_comm]
  rfl

/-- Whole spectra are determined by the bins that are there. -/
theorem hermitian_congr {X Y : Nat → ℂ} (same : ∀ q, q < n / 2 + 1 → X q = Y q) {k : Nat}
    (below : k < n) : hermitian n X k = hermitian n Y k := by
  rw [hermitian, hermitian]
  split
  · exact same k (by omega)
  · rw [same (n - k) (by omega)]

/-- A pass of halves of spectra. -/
theorem passC2R_batch (sound : plan.Sound n) (wide : 0 < vlen) (size : 0 < rb)
    (positive : 0 < batch * n) (small : batch * n < 2 ^ 64)
    (holdsIn : m.Holds p (batch * ((n / 2 + 1) * 2))) (holdsOut : m.Holds q (batch * n))
    (apart : Apart p (batch * ((n / 2 + 1) * 2)) q (batch * n)) (fct : ℝ) :
    passC2R Trig.real vlen plan false ⟨rb, p, q⟩ (rowArr rb batch (n / 2 + 1) (n / 2 + 1) 2)
      (rowArr rb batch n n 1) 1 fct m =
    some (m.write q (Kit.lanes batch fun b =>
      DftKind.lane n fct (m.read (p.add (b * ((n / 2 + 1) * 2))) ((n / 2 + 1) * 2)) .c2r)) := by
  have batch_pos := Nat.pos_of_mul_pos_right positive
  have length_pos := Nat.pos_of_mul_pos_left positive
  have room : m.Holds q (batch * (n * 1)) := by rwa [Nat.mul_one]
  have fits : (rowLayout batch (n / 2 + 1) 2 n 1 p q).Fits m :=
    fits_rows holdsIn room (.inr (by rwa [Nat.mul_one]))
  have bins : batch * (n / 2 + 1) ≤ batch * n := Nat.mul_le_mul_left batch (by omega)
  have halves : MultiIter.Lanes (rowArr rb batch (n / 2 + 1) (n / 2 + 1) 2) (rowArr rb batch n n 1)
      1 :=
    lanes_rowArr rb _ 2 n n 1 (Nat.mul_pos batch_pos (Nat.succ_pos _)) (bins.trans_lt small)
  have others : Fft.Pocketfft.prod (rowArr rb batch n n 1).shape / n = batch :=
    (lanes_rowArr rb n 1 n n 1 positive small).size_div.trans total_rowArr
  have values : ∀ b q, q < n / 2 + 1 →
      signal (fun i => m.read (elementAt (n / 2 + 1) 2 p b i) 2) q =
        complexAt (m.read (p.add (b * ((n / 2 + 1) * 2))) ((n / 2 + 1) * 2)) q :=
    fun b q inside => complexAt_read inside
  obtain ⟨m', run, within, written⟩ := passC2R_eq sound length_pos halves rfl wide total_rowArr
    others (addressed_rows size) fits false fct
  rw [run, eq_write_of_elements room within written]
  refine congrArg (fun ys => some (m.write q ys)) (lanes_congr fun b lane => ?_)
  rw [DftKind.lane, List.map_eq_flatMap]
  refine lanes_congr fun i _ => ?_
  rw [dft_congr fun k below => hermitian_congr (values b) below]

end Batch

/-! ## Plans -/

section Plans

variable {vlen : FftPrecision → Nat} {cfg : FftPlanConfig}

/-- A pass of any configuration writes what the contract says. -/
theorem modelledPass_contract (wide : ∀ precision, 0 < vlen precision) (valid : cfg.Valid)
    (addressable : cfg.Addressable) (accepted : ¬ PocketfftC.Refused cfg.length) {m : Mem ℝ}
    {p q : Ptr} (callable : cfg.Callable m p q) :
    (withPasses vlen (realPasses vlen) cfg.precision).pass cfg.kind cfg.length
      (Fft.Pocketfft.laneArgs cfg.precision cfg.kind cfg.length cfg.batch cfg.distances.1
        cfg.distances.2) 1 cfg.scale m p q =
      m.write q (cfg.contract (m.read p cfg.inSize)) := by
  have total := addressable.real_lt
  have small : cfg.batch * cfg.length < 2 ^ 64 := by omega
  have positive := Nat.mul_pos valid.batch_pos valid.length_pos
  have size := cfg.precision.sizeofReal_pos
  obtain ⟨plan, made, sound⟩ := PocketfftR.make_of_accepted accepted
  have holdsIn := callable.input
  have holdsOut := callable.output
  have overlap := callable.overlap
  cases type : cfg.type with
  | complex => exact pass_contract wide type valid addressable accepted callable
  | realToComplex =>
    have kind : cfg.kind = .r2c := by rw [FftPlanConfig.kind, type]
    have distances : cfg.distances = (cfg.length, cfg.length / 2 + 1) := by
      rw [FftPlanConfig.distances, type, realComplexBins]
    have apart := overlap.resolve_left fun same =>
      absurd (type.symm.trans same.2) (by decide)
    simp only [FftPlanConfig.inSize, FftPlanConfig.outSize, kind] at holdsIn holdsOut apart
    rw [contract_read, kind, distances]
    have pass := passR2C_batch sound (wide cfg.precision) size positive small holdsIn
      holdsOut apart cfg.scale
    change ((PocketfftR.make Trig.real cfg.length).bind _).getD m = _
    rw [made, Option.bind_some]
    exact congrArg (Option.getD · m) pass
  | complexToReal =>
    have kind : cfg.kind = .c2r := by rw [FftPlanConfig.kind, type]
    have distances : cfg.distances = (cfg.length / 2 + 1, cfg.length) := by
      rw [FftPlanConfig.distances, type, realComplexBins]
    have apart := overlap.resolve_left fun same =>
      absurd (type.symm.trans same.2) (by decide)
    simp only [FftPlanConfig.inSize, FftPlanConfig.outSize, kind] at holdsIn holdsOut apart
    rw [contract_read, kind, distances]
    have pass := passC2R_batch sound (wide cfg.precision) size positive small holdsIn
      holdsOut apart cfg.scale
    change ((PocketfftR.make Trig.real cfg.length).bind _).getD m = _
    rw [made, Option.bind_some]
    exact congrArg (Option.getD · m) pass

/-- The backend makes a plan for every configuration with a length the library accepts, and
all executes of the plan, whatever came before, write the transforms of the header's contract
and nothing else. No behaviour of the library is assumed. -/
theorem modelledPlans_meet (wide : ∀ precision, 0 < vlen precision) (valid : cfg.Valid)
    (addressable : cfg.Addressable) (accepted : ¬ PocketfftC.Refused cfg.length) (w₀ : World ℝ) :
    ∃ plan, (Fft.Pocketfft.makeBackendPlan (withPasses vlen (realPasses vlen)) cfg w₀).1 =
        .ok plan ∧
      ∀ s, plan.Reached cfg s → ∀ w p q, cfg.Callable w.mem p q →
        ∃ w', plan.execute s w p q = some (.ok, w', s) ∧
          w'.mem = w.mem.write q (cfg.contract (w.mem.read p cfg.inSize)) := by
  obtain ⟨plan, made⟩ := Fft.Pocketfft.exists_plan (withPasses vlen (realPasses vlen)) w₀ valid
    (Fft.Pocketfft.accepted_of_not_refused accepted)
  refine ⟨plan, made, fun s reached w p q callable => ?_⟩
  obtain ⟨w', run, result⟩ := Fft.Pocketfft.execute_eq made addressable reached w p q
  exact ⟨w', run, result.trans
    (modelledPass_contract wide valid addressable accepted callable)⟩

/-- Transforms of seventeen spectra of a prime length. -/
def primeSpectra : FftPlanConfig :=
  { type := .complexToReal, precision := .f32, length := 1511, batch := 17, direction := .inverse }

theorem modelledPlans_meet_primeSpectra :
    let w₀ : World ℝ := { mem := ⟨fun _ => []⟩, caches := fun _ => {} }
    ∃ plan, (Fft.Pocketfft.makeBackendPlan (withPasses (fun _ => 8) (realPasses fun _ => 8))
        primeSpectra w₀).1 = .ok plan ∧
      ∀ s, plan.Reached primeSpectra s → ∀ w p q, primeSpectra.Callable w.mem p q →
        ∃ w', plan.execute s w p q = some (.ok, w', s) ∧
          w'.mem = w.mem.write q (primeSpectra.contract (w.mem.read p primeSpectra.inSize)) :=
  modelledPlans_meet (fun _ => by decide) ⟨by decide, by decide, by decide⟩
    ⟨by decide, by decide⟩ (by decide) _

end Plans

end DspDispatch.Pocketfft
