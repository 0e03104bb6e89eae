import DspDispatch.Pocketfft.Batches

/-!
# Complex plans of the PocketFFT backend, down to the passes

The backend calls the library with the shape `{batch, n}` and the axis `1`, so the library
goes over the lanes of two buffers with the elements of a lane adjacent and the lanes back to
back. `withPasses` is the library with the complex passes modelled here in place of any
others. The plans made over it keep the contract of the public header, in place and out of
place, for every length the constructor of the plan accepts.
-/

namespace DspDispatch.Pocketfft

open Kit Fft

/-- The library, its complex passes being the modelled ones; `vlen` is `VLEN<T>::val`. The passes
do not fail for plans that can be constructed and buffers that exist. -/
noncomputable def withPasses (vlen : FftPrecision → Nat) (lib : FftPrecision → Pocketfft.PocketLib ℝ)
    (precision : FftPrecision) : Pocketfft.PocketLib ℝ where
  pass kind length a axis fct m input output :=
    match kind with
    | .c2c forward =>
      ((PocketfftC.make Trig.real length).bind fun plan =>
        passC2C Trig.real (vlen precision) plan forward ⟨precision.sizeofReal, input, output⟩
          ⟨a.shape, a.strideIn⟩ ⟨a.shape, a.strideOut⟩ axis fct m).getD m
    | kind => (lib precision).pass kind length a axis fct m input output

section Batch

variable {rb vlen batch n : Nat} {p q : Ptr} {m : Mem ℝ}

/-- A buffer of `batch` lanes of `n` complex numbers. -/
def batchArr (rb batch n : Nat) : ArrInfo := ⟨[batch, n], [n * (2 * rb), 2 * rb]⟩

/-- Element `i` of lane `k`. -/
def batchAt (n : Nat) (p : Ptr) (k i : Nat) : Ptr := (p.add (k * (n * 2))).add (i * 2)

/-- The elements of both buffers. -/
def batchLayout (batch n : Nat) (p q : Ptr) : Layout :=
  complexLayout batch n (batchAt n p) (batchAt n q)

theorem batch_lanes (rb : Nat) (positive : 0 < batch * n) (small : batch * n < 2 ^ 64) :
    MultiIter.Lanes (batchArr rb batch n) (batchArr rb batch n) 1 :=
  lanes_rowArr rb n 2 n n 2 positive small

theorem total_batch : MultiIter.total (batchArr rb batch n) 1 = batch :=
  total_rowArr (n := n) (d := n) (w := 2)

theorem addressed_batch (positive : 0 < rb) :
    Addressed (batchLayout batch n p q) ⟨rb, p, q⟩ (batchArr rb batch n) (batchArr rb batch n) 1 :=
  addressed_rows positive

/-- Buffers that are the same or have no cell in common. -/
theorem fits_batch (holdsIn : m.Holds p (batch * (n * 2))) (holdsOut : m.Holds q (batch * (n * 2)))
    (overlap : p = q ∨ Apart p (batch * (n * 2)) q (batch * (n * 2))) :
    (batchLayout batch n p q).Fits m :=
  fits_rows holdsIn holdsOut (overlap.imp_left fun same => ⟨same, rfl, rfl⟩)

/-- A complex element is one of the lane. -/
theorem complexAt_read {r : Ptr} {i : Nat} (inside : i < n) :
    complexAt (m.read (r.add (i * 2)) 2) 0 = complexAt (m.read r (n * 2)) i := by
  have cell : ∀ c, c < 2 → (m.read (r.add (i * 2)) 2).getD c 0 =
      (m.read r (n * 2)).getD (2 * i + c) 0 := by
    intro c small
    rw [List.getD_eq_getElem?_getD, List.getD_eq_getElem?_getD, getElem?_element inside small,
      Nat.mul_comm 2 i]
  rw [complexAt, complexAt, cell _ (by omega), cell _ (by omega)]
  rfl

/-- The arguments of the backend. -/
theorem laneArgs_complex (precision : FftPrecision) (fwd : Bool) (n batch : Nat) :
    Fft.Pocketfft.laneArgs precision (.c2c fwd) n batch n n =
      ⟨[batch, n], (batchArr precision.sizeofReal batch n).stride,
        (batchArr precision.sizeofReal batch n).stride⟩ := by
  simp only [Fft.Pocketfft.laneArgs, DftKind.inWidth, DftKind.outWidth, batchArr]
  push_cast
  rfl

/-- A pass transforms all lanes of a buffer, also in place. -/
theorem passC2C_batch {plan : PocketfftC ℝ} (sound : plan.Sound n) (wide : 0 < vlen) (size : 0 < rb)
    (positive : 0 < batch * n) (small : batch * n < 2 ^ 64)
    (holdsIn : m.Holds p (batch * (n * 2))) (holdsOut : m.Holds q (batch * (n * 2)))
    (overlap : p = q ∨ Apart p (batch * (n * 2)) q (batch * (n * 2))) (fwd : Bool) (fct : ℝ) :
    passC2C Trig.real vlen plan fwd ⟨rb, p, q⟩ (batchArr rb batch n) (batchArr rb batch n) 1 fct m =
      some (m.write q (Kit.lanes batch fun b =>
        DftKind.lane n fct (m.read (p.add (b * (n * 2))) (n * 2)) (.c2c fwd))) := by
  obtain ⟨m', run, within, written⟩ := passC2C_eq sound (batch_lanes rb positive small) rfl wide
    size total_batch (addressed_batch size) (fits_batch holdsIn holdsOut overlap) fwd fct
  rw [run, eq_write_of_elements holdsOut within written]
  refine congrArg (fun ys => some (m.write q ys)) (lanes_congr fun b lane => ?_)
  refine lanes_congr fun i _ => ?_
  have values : ∀ j, j < n → signal (fun i => m.read (batchAt n p b i) 2) j =
      complexAt (m.read (p.add (b * (n * 2))) (n * 2)) j := fun j inside => complexAt_read inside
  rw [dft_congr values, mul_comm]
  rfl

end Batch

/-! ## Plans -/

section Plans

variable {vlen : FftPrecision → Nat} {lib : FftPrecision → Fft.Pocketfft.PocketLib ℝ}
  {cfg : FftPlanConfig}

/-- The contract, lane by lane. -/
theorem contract_read (m : Mem ℝ) (p : Ptr) :
    cfg.contract (m.read p cfg.inSize) = Kit.lanes cfg.batch fun b =>
      cfg.kind.lane cfg.length cfg.scale
        (m.read (p.add (b * cfg.kind.inLen cfg.length)) (cfg.kind.inLen cfg.length)) :=
  lanes_congr fun b below => by rw [cfg.laneOf_read below]

/-- A pass of a complex configuration writes what the contract says. -/
theorem pass_contract (wide : ∀ precision, 0 < vlen precision) (complex : cfg.type = .complex)
    (valid : cfg.Valid) (addressable : cfg.Addressable) (accepted : ¬ PocketfftC.Refused cfg.length)
    {m : Mem ℝ} {p q : Ptr} (callable : cfg.Callable m p q) :
    (withPasses vlen lib cfg.precision).pass cfg.kind cfg.length
      (Fft.Pocketfft.laneArgs cfg.precision cfg.kind cfg.length cfg.batch cfg.distances.1
        cfg.distances.2) 1 cfg.scale m p q =
      m.write q (cfg.contract (m.read p cfg.inSize)) := by
  have kind : cfg.kind = .c2c (cfg.direction = .forward) := by rw [FftPlanConfig.kind, complex]
  have distances : cfg.distances = (cfg.length, cfg.length) := by
    rw [FftPlanConfig.distances, complex]
  have total := addressable.real_lt
  have holdsIn : m.Holds p (cfg.batch * (cfg.length * 2)) := by
    have input := callable.input
    rwa [FftPlanConfig.inSize, kind] at input
  have holdsOut : m.Holds q (cfg.batch * (cfg.length * 2)) := by
    have output := callable.output
    rwa [FftPlanConfig.outSize, kind] at output
  have overlap : p = q ∨
      Apart p (cfg.batch * (cfg.length * 2)) q (cfg.batch * (cfg.length * 2)) := by
    have either := callable.overlap
    rw [FftPlanConfig.inSize, FftPlanConfig.outSize, kind] at either
    exact either.imp_left And.left
  obtain ⟨plan, made, sound⟩ := PocketfftC.make_of_accepted accepted
  have pass := passC2C_batch sound (wide cfg.precision) cfg.precision.sizeofReal_pos
    (Nat.mul_pos valid.batch_pos valid.length_pos) (by omega) holdsIn holdsOut overlap
    (cfg.direction = .forward) cfg.scale
  rw [contract_read, kind, distances, laneArgs_complex]
  change ((PocketfftC.make Trig.real cfg.length).bind _).getD m = _
  rw [made, Option.bind_some]
  exact congrArg (Option.getD · m) pass

/-- The backend makes a plan for every complex configuration with a length the library accepts,
and all executes of the plan, whatever came before, write the transforms of the header's
contract and nothing else: to another buffer or in place. No behaviour of the complex passes
is assumed. -/
theorem complexPlans_meet (wide : ∀ precision, 0 < vlen precision)
    (complex : cfg.type = .complex) (valid : cfg.Valid) (addressable : cfg.Addressable)
    (accepted : ¬ PocketfftC.Refused cfg.length) (w₀ : World ℝ) :
    ∃ plan, (Fft.Pocketfft.makeBackendPlan (withPasses vlen lib) cfg w₀).1 = .ok plan ∧
      ∀ s, plan.Reached cfg s → ∀ w p q, cfg.Callable w.mem p q →
        ∃ w', plan.execute s w p q = some (.ok, w', s) ∧
          w'.mem = w.mem.write q (cfg.contract (w.mem.read p cfg.inSize)) := by
  obtain ⟨plan, made⟩ := Fft.Pocketfft.exists_plan (withPasses vlen lib) w₀ valid
    (Fft.Pocketfft.accepted_of_not_refused accepted)
  refine ⟨plan, made, fun s reached w p q callable => ?_⟩
  obtain ⟨w', run, result⟩ := Fft.Pocketfft.execute_eq made addressable reached w p q
  exact ⟨w', run, result.trans
    (pass_contract wide complex valid addressable accepted callable)⟩

/-- Three backward transforms of a prime length. -/
def primeBatch : FftPlanConfig :=
  { type := .complex, precision := .f64, length := 1013, batch := 3, direction := .inverse }

/-- Four numbers to a vector, over a library whose real passes do nothing. -/
theorem complexPlans_meet_primeBatch :
    let lib : FftPrecision → Fft.Pocketfft.PocketLib ℝ := fun _ => ⟨fun _ _ _ _ _ m _ _ => m⟩
    let w₀ : World ℝ := { mem := ⟨fun _ => []⟩, caches := fun _ => {} }
    ∃ plan, (Fft.Pocketfft.makeBackendPlan (withPasses (fun _ => 4) lib) primeBatch w₀).1 =
        .ok plan ∧
      ∀ s, plan.Reached primeBatch s → ∀ w p q, primeBatch.Callable w.mem p q →
        ∃ w', plan.execute s w p q = some (.ok, w', s) ∧
          w'.mem = w.mem.write q (primeBatch.contract (w.mem.read p primeBatch.inSize)) :=
  complexPlans_meet (fun _ => by decide) rfl ⟨by decide, by decide, by decide⟩
    ⟨by decide, by decide⟩ (by decide) _

end Plans

end DspDispatch.Pocketfft
