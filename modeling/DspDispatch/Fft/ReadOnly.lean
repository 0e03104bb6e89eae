import DspDispatch.Fft.InPlace

/-!
# The input buffer

An execute takes its input as `const void*`, but three adapters cast this away. The
input survives unless an ArmPL complex-to-real plan, made without
`FFTW_PRESERVE_INPUT`, uses it as scratch, or a distance between spectra that turned
negative as an `int` makes AOCL or ArmPL write in front of the output buffer.
-/

namespace DspDispatch.Fft

open Kit

section ReadOnly

variable {libs : Libraries ℝ} {b : Backend} {cfg : FftPlanConfig}

/-- Every execute on two buffers returns and leaves the first as it was. -/
def Backend.Plan.ReadOnly (p : b.Plan libs cfg) : Prop :=
  ∀ w x y, cfg.Usable w.mem x y → ∃ st v, p.execute w x y = some (st, v) ∧
    v.mem.read x cfg.inSize = w.mem.read x cfg.inSize

/-- Spectra are planned in front of the output buffer: the number of bins is
negative as an `int`, and there is a second lane. -/
def Backend.WritesBefore (b : Backend) (cfg : FftPlanConfig) : Prop :=
  b.Narrows ∧ cfg.type = .realToComplex ∧ toInt32 (realComplexBins cfg.length) < 0 ∧
    2 ≤ toInt32 cfg.batch

/-- The plan may overwrite an input that has lanes. -/
def Backend.UsesInput (b : Backend) (cfg : FftPlanConfig) : Prop :=
  b.Destroys cfg ∧ 0 < toInt32 cfg.batch

/-! ## What is written -/

/-- Only the distance between spectra can turn negative. -/
theorem narrowed_forward (admits : b.Admits cfg) (narrows : b.Narrows)
    (behind : ¬ b.WritesBefore cfg) : 0 ≤ cfg.narrowed.odist ∨ cfg.narrowed.count ≤ 1 := by
  have positive := (admits.positive narrows).1
  have scalars : 0 ≤ (cfg.kind.outWidth : Int) := Int.natCast_nonneg _
  rw [cfg.narrowed_odist, cfg.narrowed_count]
  by_cases nonneg : 0 ≤ toInt32 cfg.distances.2
  · exact .inl (Int.mul_nonneg scalars nonneg)
  · refine .inr ?_
    unfold FftPlanConfig.distances at nonneg
    cases type : cfg.type with
    | complex =>
      rw [type] at nonneg
      exact absurd positive.le nonneg
    | realToComplex =>
      rw [type] at nonneg
      have single : ¬ 2 ≤ toInt32 cfg.batch := fun several =>
        behind ⟨narrows, type, not_le.mp nonneg, several⟩
      omega
    | complexToReal =>
      rw [type] at nonneg
      exact absurd positive.le nonneg

/-- Otherwise all planned lanes lie in the output buffer. -/
theorem writes_output (admits : b.Admits cfg) (behind : ¬ b.WritesBefore cfg) {y : Ptr}
    {block off : Nat} (writes : (b.plannedLanes cfg).Writes y block off) :
    block = y.block ∧ y.offset ≤ off ∧ off < y.offset + cfg.outSize := by
  by_cases narrows : b.Narrows
  · rw [Backend.plannedLanes, if_pos narrows] at writes
    have width : (cfg.kind.outWidth : Int) * cfg.distances.2 = cfg.kind.outLen cfg.length :=
      congrArg Strided.odist (dftStrided_eq_contiguous cfg)
    refine Strided.writes_inside ?_ ?_ ?_ (narrowed_forward admits narrows behind) writes
    · rw [cfg.narrowed_count]
      exact toNat_toInt32_le _
    · rw [cfg.narrowed_outLen]
      exact cfg.kind.outLen_mono (toNat_toInt32_le _)
    · rw [cfg.narrowed_odist, ← width]
      exact Int.mul_le_mul_of_nonneg_left (toInt32_le _) (Int.natCast_nonneg _)
  · rw [Backend.plannedLanes, if_neg narrows] at writes
    exact Strided.contiguous_writes.mp writes

/-- Plans without lanes read nothing. -/
theorem not_reads (uses : ¬ b.UsesInput cfg) (destroys : b.Destroys cfg) {x : Ptr}
    {block off : Nat} : ¬ (b.plannedLanes cfg).Reads x block off := by
  have empty : ¬ 0 < toInt32 cfg.batch := fun counted => uses ⟨destroys, counted⟩
  rw [Backend.plannedLanes, if_pos (.inr destroys.1)]
  intro written
  rcases written with ⟨lane, below, -⟩
  rw [cfg.narrowed_count] at below
  omega

/-! ## Inputs that survive -/

theorem readOnly_of_vendor (documented : libs.Documented) (vendor : b.Vendor)
    (addressable : cfg.Addressable) (behind : ¬ b.WritesBefore cfg) (uses : ¬ b.UsesInput cfg)
    (p : b.Plan libs cfg) : p.ReadOnly := by
  intro w x y usable
  have admits := p.admits documented vendor
  obtain ⟨st, v, run, -, frame⟩ := p.execute_frame documented vendor addressable x usable.output
  refine ⟨st, v, run, segment_eq_segment fun i small => ?_⟩
  have elsewhere : ¬ (x.block = y.block ∧ y.offset ≤ x.offset + i ∧
      x.offset + i < y.offset + cfg.outSize) := by
    intro inside
    rcases inside with ⟨same, start, stop⟩
    rcases usable.apart with blocks | before | after
    · exact blocks same
    · omega
    · omega
  exact (frame x.block (x.offset + i) (fun writes => elsewhere (writes_output admits behind writes))
    fun destroyed => not_reads uses destroyed.1 destroyed.2).1 elsewhere

theorem readOnly_of_not_vendor (documented : libs.Documented) (other : ¬ b.Vendor)
    (addressable : cfg.Addressable) (p : b.Plan libs cfg) : p.ReadOnly := by
  intro w x y usable
  have valid := p.valid
  obtain ⟨-, plan, made, s, reached⟩ := p
  cases b with
  | mkl => exact absurd (.inl rfl) other
  | aocl => exact absurd (.inr (.inl rfl)) other
  | armpl => exact absurd (.inr (.inr rfl)) other
  | pocketfft =>
    obtain ⟨v, run, result⟩ := Pocketfft.execute_eq made addressable reached w x y
    have frame := (Pocketfft.pass_transforms documented.pocketfft cfg).frame w.mem x y
    refine ⟨.ok, v, ?_, ?_⟩
    · change (plan.execute s w x y).map _ = _
      rw [run]
      rfl
    · rw [result]
      refine segment_eq_segment fun i small => frame.kept _ _ ?_ (by tauto)
      rw [Strided.contiguous_writes]
      intro inside
      rcases inside with ⟨same, start, stop⟩
      have apart : Apart x cfg.inSize y (cfg.batch * cfg.kind.outLen cfg.length) := usable.apart
      rcases apart with blocks | before | after
      · exact blocks same
      · omega
      · omega
  | cmsis =>
    obtain ⟨s', run, -⟩ := Cmsis.execute_eq documented.cmsis made
      (Cmsis.reached_ready documented.cmsis made reached) usable.callable
    have length : (lanes cfg.batch fun b => cfg.kind.lane cfg.length cfg.scale
        (Cmsis.effective cfg (cfg.laneOf (w.mem.read x cfg.inSize) b))).length = cfg.outSize :=
      length_lanes fun _ _ => DftKind.length_lane _ _ _ _
    let v : World ℝ := { w with mem := w.mem.write y (lanes cfg.batch fun b =>
      cfg.kind.lane cfg.length cfg.scale
        (Cmsis.effective cfg (cfg.laneOf (w.mem.read x cfg.inSize) b))) }
    refine ⟨.ok, v, ?_, ?_⟩
    · change (plan.execute s w x y).map _ = _
      rw [run]
      rfl
    · exact Mem.read_write_of_apart (by rw [length]; exact usable.output)
        (by rw [length]; exact usable.apart)

/-! ## Inputs that are overwritten -/

/-- Input cells are not changed by the call either. -/
theorem Backend.Plan.ReadOnly.call_kept {op : Operation} {p : b.Plan op.libraries cfg}
    (readOnly : p.ReadOnly) (vendor : b.Vendor) (addressable : cfg.Addressable) {w : World ℝ}
    {x y : Ptr} (usable : cfg.Usable w.mem x y) {i : Nat} (small : i < cfg.inSize) :
    ((op.call cfg.kind (b.plannedLength cfg) (b.plannedScale cfg) (b.plannedLanes cfg)
      (b.Destroys cfg) w.mem x y).cells x.block)[x.offset + i]? =
        (w.mem.cells x.block)[x.offset + i]? := by
  obtain ⟨st, v, run, kept⟩ := readOnly w x y usable
  obtain ⟨m, call, holds, ran⟩ := p.execute_operation vendor addressable x usable.output
  cases run.symm.trans ran
  have elsewhere : ¬ (x.block = y.block ∧ y.offset ≤ x.offset + i ∧
      x.offset + i < y.offset + cfg.outSize) := by
    intro inside
    rcases inside with ⟨same, start, stop⟩
    rcases usable.apart with blocks | before | after
    · exact blocks same
    · omega
    · omega
  have cell := congrArg (·[i]?) kept
  simp only [Mem.getElem?_read, small, if_true, Mem.load] at cell
  rw [Backend.cells_finished y holds, if_neg elsewhere] at cell
  rw [← call]
  exact cell

/-- Blocks of ones that hold both buffers. -/
def ones (cfg : FftPlanConfig) : World ℝ :=
  .ofBuffers fun _ => List.replicate (cfg.inSize + cfg.outSize) 1

theorem cells_ones {block off : Nat} (below : off < cfg.inSize) :
    ((ones cfg).mem.cells block)[off]? = some 1 := by
  simp only [ones, World.ofBuffers, List.getElem?_replicate]
  rw [if_pos (by omega)]

/-- A careless complex-to-real plan clears its input. -/
theorem not_readOnly_of_uses (uses : b.UsesInput cfg) (addressable : cfg.Addressable)
    (p : b.Plan Operation.careless.libraries cfg) : ¬ p.ReadOnly := by
  intro readOnly
  obtain ⟨destroys, counted⟩ := uses
  have narrows : b.Narrows := .inr destroys.1
  have admits := p.admits Operation.careless.documented (.inr narrows)
  have positive := admits.valid.inSize_pos
  have usable : cfg.Usable (ones cfg).mem ⟨0, 0⟩ ⟨1, 0⟩ := by
    refine usable_ofBuffers ?_ ?_ (by decide)
    · rw [List.length_replicate]
      exact Nat.le_add_right _ _
    · rw [List.length_replicate]
      exact Nat.le_add_left _ _
  have kept := readOnly.call_kept (.inr narrows) addressable usable positive
  have reads : (b.plannedLanes cfg).Reads ⟨0, 0⟩ 0 0 := by
    have width := cfg.kind.inLen_pos (show 0 < (toInt32 cfg.length).toNat by
      have length_pos := (admits.positive narrows).1
      omega)
    rw [Backend.plannedLanes, if_pos narrows]
    refine ⟨0, by rw [cfg.narrowed_count]; omega, rfl, ?_, ?_⟩
    · rw [Nat.cast_zero, zero_mul]
      exact Int.le_refl 0
    · rw [Nat.cast_zero, zero_mul, cfg.narrowed_inLen]
      omega
  have cleared := Strided.careless_reads (b.plannedLanes cfg) (f := fun xs =>
    cfg.kind.lane (b.plannedLength cfg) (b.plannedScale cfg) xs) (v := (0 : ℝ)) (q := ⟨1, 0⟩)
    destroys reads (m := (ones cfg).mem) (List.getElem?_eq_some_iff.mp (cells_ones positive)).1
  rw [cells_ones positive] at kept
  exact absurd (cleared.symm.trans kept) (by simp)

/-- The second spectrum starts in an input buffer right before the output buffer. -/
theorem second_spectrum (before : b.WritesBefore cfg) :
    1 < (b.plannedLanes cfg).count ∧ 2 ≤ (b.plannedLanes cfg).outLen ∧
      (b.plannedLanes cfg).odist + 2 ≤ 0 ∧ 0 ≤ (cfg.inSize : Int) + (b.plannedLanes cfg).odist := by
  obtain ⟨narrows, type, negative, several⟩ := before
  have kind : cfg.kind = .r2c := by rw [FftPlanConfig.kind, type]
  have distance : cfg.distances.2 = realComplexBins cfg.length := by
    rw [FftPlanConfig.distances, type]
  have batch : 2 ≤ cfg.batch := by
    have bound := toInt32_le cfg.batch
    omega
  have bins : 2 ^ 31 ≤ realComplexBins cfg.length := by
    by_contra small
    rw [toInt32_of_lt (not_le.mp small)] at negative
    exact absurd negative (not_lt.mpr (Int.natCast_nonneg _))
  have bound := neg_le_toInt32 (realComplexBins cfg.length)
  have size : 2 * cfg.length ≤ cfg.inSize := by
    rw [FftPlanConfig.inSize, kind]
    exact Nat.mul_le_mul_right _ batch
  rw [realComplexBins] at bins
  rw [Backend.plannedLanes, if_pos narrows, cfg.narrowed_count, cfg.narrowed_outLen,
    cfg.narrowed_odist, distance, kind]
  simp only [DftKind.outLen, DftKind.outWidth]
  generalize toInt32 (realComplexBins cfg.length) = distance at negative bound ⊢
  generalize toInt32 cfg.batch = count at several ⊢
  generalize (toInt32 cfg.length).toNat = n
  push_cast
  exact ⟨by omega, by omega, by omega, by omega⟩

/-- A careless plan whose second spectrum lies in the input writes a zero there: the
imaginary part of a real bin, or what it leaves of operands that meet. -/
theorem not_readOnly_of_before (before : b.WritesBefore cfg) (addressable : cfg.Addressable)
    (p : b.Plan Operation.careless.libraries cfg) : ¬ p.ReadOnly := by
  intro readOnly
  obtain ⟨several, width, inFront, inside⟩ := second_spectrum before
  have kind : cfg.kind = .r2c := by rw [FftPlanConfig.kind, before.2.1]
  have size : ((ones cfg).mem.cells 0).length = cfg.inSize + cfg.outSize := List.length_replicate
  have usable : cfg.Usable (ones cfg).mem ⟨0, 0⟩ ⟨0, cfg.inSize⟩ := {
    input := by simp [Mem.Holds, size]
    output := by simp [Mem.Holds, size]
    apart := .inr (.inl (by simp)) }
  let off : Nat := ((cfg.inSize : Int) + (b.plannedLanes cfg).odist).toNat + 1
  have small : off < cfg.inSize := by
    simp only [off]
    omega
  have kept := readOnly.call_kept (.inr before.1) addressable usable small
  rw [Nat.zero_add, cells_ones small] at kept
  have zero : (((b.plannedLanes cfg).careless (fun xs => cfg.kind.lane (b.plannedLength cfg)
      (b.plannedScale cfg) xs) 0 (b.Destroys cfg) (ones cfg).mem ⟨0, 0⟩ ⟨0, cfg.inSize⟩).cells
        0)[off]? = some 0 := by
    by_cases fits : (b.plannedLanes cfg).Fits (ones cfg).mem ⟨0, 0⟩ ⟨0, cfg.inSize⟩
    · have length : ∀ xs : List ℝ, xs.length = (b.plannedLanes cfg).inLen →
          (cfg.kind.lane (b.plannedLength cfg) (b.plannedScale cfg) xs).length =
            (b.plannedLanes cfg).outLen := by
        intro xs _
        rw [DftKind.length_lane, b.plannedLanes_outLen]
      have maps : (b.plannedLanes cfg).Maps (fun xs => cfg.kind.lane (b.plannedLength cfg)
          (b.plannedScale cfg) xs) (b.Destroys cfg) (ones cfg).mem ⟨0, 0⟩ ⟨0, cfg.inSize⟩
          ((b.plannedLanes cfg).careless _ 0 (b.Destroys cfg) _ _ _) :=
        Strided.careless_maps _ length fits
      have second := congrArg (·[1]?) (maps.lanes_eq 1 several)
      simp only [Strided.laneOut, Mem.getElem?_read, Nat.lt_of_lt_of_le Nat.one_lt_two width,
        if_true, Mem.load] at second
      rw [kind, DftKind.lane_r2c_im, Nat.cast_one, one_mul, ← kind] at second
      exact second
    · refine Strided.careless_writes _ fits ⟨1, several, rfl, ?_, ?_⟩ (by rw [size]; omega)
      · rw [Nat.cast_one, one_mul]
        simp only [off]
        omega
      · rw [Nat.cast_one, one_mul]
        simp only [off]
        omega
  exact absurd (zero.symm.trans kept) (by simp)

/-! ## The contract -/

/-- For a configuration some library accepts, executes of every plan over every
documented library keep their input exactly if the plan neither uses it nor writes
in front of the output. -/
theorem readOnly_iff (addressable : cfg.Addressable)
    (accepted : ∃ libs : Libraries ℝ, libs.Documented ∧ Nonempty (b.Plan libs cfg)) :
    (∀ libs : Libraries ℝ, libs.Documented → ∀ p : b.Plan libs cfg, p.ReadOnly) ↔
      ¬ b.UsesInput cfg ∧ ¬ b.WritesBefore cfg := by
  constructor
  · intro readOnly
    obtain ⟨libs, documented, ⟨p⟩⟩ := accepted
    have careless : b.Vendor → ∃ q : b.Plan Operation.careless.libraries cfg, q.ReadOnly := by
      intro vendor
      obtain ⟨q⟩ := Backend.exists_plan .careless vendor (p.admits documented vendor)
      exact ⟨q, readOnly _ Operation.careless.documented q⟩
    constructor
    · intro uses
      obtain ⟨q, kept⟩ := careless (.inr (.inr uses.1.1))
      exact not_readOnly_of_uses uses addressable q kept
    · intro before
      obtain ⟨q, kept⟩ := careless (.inr before.1)
      exact not_readOnly_of_before before addressable q kept
  · intro condition libs documented p
    rcases condition with ⟨uses, behind⟩
    by_cases vendor : b.Vendor
    · exact readOnly_of_vendor documented vendor addressable behind uses p
    · exact readOnly_of_not_vendor documented vendor addressable p

end ReadOnly

/-- The three bins of four real samples. -/
def threeBins : FftPlanConfig :=
  { sixteen with type := .complexToReal, length := 4, length_lt := by decide }

theorem readOnly_iff_three_bins :
    ∃ p : Backend.mkl.Plan Operation.exact.libraries threeBins, p.ReadOnly := by
  have admits : Backend.mkl.Admits threeBins :=
    ⟨⟨by decide, by decide, by decide⟩, by decide, by decide⟩
  obtain ⟨p⟩ := Backend.exists_plan .exact (.inl rfl) admits
  exact ⟨p, (readOnly_iff ⟨by decide, by decide⟩ ⟨_, Operation.exact.documented, ⟨p⟩⟩).mpr
    ⟨fun uses => absurd uses.1.1 (by decide), fun before => absurd before.1 (by decide)⟩
    _ Operation.exact.documented p⟩

/-- ArmPL may use the bins as scratch. -/
theorem armpl_not_readOnly :
    ¬ ∀ (b : Backend) (cfg : FftPlanConfig) (libs : Libraries ℝ) (p : b.Plan libs cfg),
      libs.Documented → cfg.Addressable → p.ReadOnly := by
  intro readOnly
  obtain ⟨p⟩ := Backend.exists_plan .careless (.inr (.inr rfl))
    (⟨⟨by decide, by decide, by decide⟩, by decide, by decide⟩ : Backend.armpl.Admits threeBins)
  have addressable : threeBins.Addressable := ⟨by decide, by decide⟩
  exact not_readOnly_of_uses ⟨⟨rfl, rfl⟩, by decide⟩ addressable p
    (readOnly _ _ _ p Operation.careless.documented addressable)

end DspDispatch.Fft
