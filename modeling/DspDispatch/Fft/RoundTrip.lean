import DspDispatch.Fft.Interchange
import DspDispatch.Fft.Narrowing

/-!
# Round trips

A plan back undoes a plan: the complex transform of the opposite direction, or the
complex-to-real transform of the bins a real-to-complex transform stored. On exact
arithmetic the contract's outputs compose to the input, for every length. So plans
that keep the contract return every input, and the others, planned from sizes that
were cut off, leave the last sample behind.
-/

namespace DspDispatch.Fft

open Kit

/-! ## Configurations that undo each other -/

/-- `back` transforms the outputs of `cfg` back. -/
structure FftPlanConfig.UndoneBy (cfg back : FftPlanConfig) : Prop where
  length : back.length = cfg.length
  batch : back.batch = cfg.batch
  precision : back.precision = cfg.precision
  types : cfg.type = .complex ∧ back.type = .complex ∧ back.direction ≠ cfg.direction ∨
    cfg.type = .realToComplex ∧ back.type = .complexToReal

namespace FftPlanConfig.UndoneBy

variable {cfg back : FftPlanConfig}

theorem sizes (undone : cfg.UndoneBy back) :
    back.inSize = cfg.outSize ∧ back.outSize = cfg.inSize := by
  unfold FftPlanConfig.inSize FftPlanConfig.outSize FftPlanConfig.kind
  rw [undone.length, undone.batch]
  rcases undone.types with ⟨type, type', -⟩ | ⟨type, type'⟩
  · rw [type, type']
    exact ⟨rfl, rfl⟩
  · rw [type, type']
    exact ⟨rfl, rfl⟩

theorem addressable (undone : cfg.UndoneBy back) (addressable : cfg.Addressable) :
    back.Addressable := by
  rw [FftPlanConfig.Addressable, undone.sizes.1, undone.sizes.2, undone.precision]
  exact addressable.symm

theorem fitsInt (undone : cfg.UndoneBy back) : back.FitsInt ↔ cfg.FitsInt := by
  rw [FftPlanConfig.FitsInt, undone.length, undone.batch]
  rfl

/-- One lane there and back. -/
theorem lane_lane (undone : cfg.UndoneBy back) (positive : 0 < cfg.length) {xs : List ℝ}
    (size : xs.length = cfg.kind.inLen cfg.length) :
    back.kind.Input back.length (cfg.kind.lane cfg.length cfg.scale xs) ∧
      back.kind.lane back.length back.scale (cfg.kind.lane cfg.length cfg.scale xs) = xs := by
  have nonzero : (cfg.length : ℝ) ≠ 0 := Nat.cast_ne_zero.mpr positive.ne'
  rw [undone.length]
  unfold FftPlanConfig.kind at size ⊢
  rcases undone.types with ⟨type, type', opposite⟩ | ⟨type, type'⟩
  · rw [type] at size
    rw [type, type']
    refine ⟨trivial, ?_⟩
    have direction : decide (back.direction = .forward) = !decide (cfg.direction = .forward) := by
      revert opposite
      cases cfg.direction <;> cases back.direction <;> simp
    rw [direction]
    refine DftKind.lane_c2c_c2c _ ?_ size
    unfold FftPlanConfig.scale FftPlanConfig.isInverse
    rw [type, type', undone.length]
    revert opposite
    cases cfg.direction <;> cases back.direction <;> simp [nonzero]
  · rw [type] at size
    rw [type, type']
    have scale : cfg.scale = 1 := by simp [FftPlanConfig.scale, FftPlanConfig.isInverse, type]
    have scale' : back.scale = 1 / cfg.length := by
      simp [FftPlanConfig.scale, FftPlanConfig.isInverse, type', undone.length]
    rw [scale, scale']
    exact ⟨DftKind.input_c2r xs, DftKind.lane_c2r_r2c positive size⟩

/-- The lanes of the stored outputs, read by the plan back. -/
theorem laneOf_contract (undone : cfg.UndoneBy back) (xs : List ℝ) {b : Nat}
    (below : b < cfg.batch) :
    back.laneOf (cfg.contract xs) b = cfg.kind.lane cfg.length cfg.scale (cfg.laneOf xs b) := by
  have stored : back.kind.inLen back.length = cfg.kind.outLen cfg.length := by
    rw [undone.length]
    unfold FftPlanConfig.kind
    rcases undone.types with ⟨type, type', -⟩ | ⟨type, type'⟩
    · rw [type, type']
      rfl
    · rw [type, type']
      rfl
  rw [FftPlanConfig.laneOf, stored]
  exact segment_lanes (fun _ _ => DftKind.length_lane _ _ _ _) below

variable (undone : cfg.UndoneBy back) (positive : 0 < cfg.length) {xs : List ℝ}
  (size : xs.length = cfg.inSize)

include undone positive size

/-- What the contract promises of the first plan is an input of the second. -/
theorem input_contract : back.Input (cfg.contract xs) := by
  intro b below
  rw [undone.batch] at below
  rw [undone.laneOf_contract xs below]
  refine (undone.lane_lane positive ?_).1
  exact length_segment (by rw [size]; exact lane_end_le _ below)

/-- The two contracts compose to the identity. -/
theorem contract_contract : back.contract (cfg.contract xs) = xs := by
  rw [FftPlanConfig.contract, FftPlanConfig.transformed, undone.batch]
  rw [FftPlanConfig.inSize] at size
  conv_rhs => rw [← lanes_segment size]
  apply lanes_congr
  intro b below
  rw [undone.laneOf_contract xs below]
  refine (undone.lane_lane positive ?_).2
  exact length_segment (by rw [size]; exact lane_end_le _ below)

end FftPlanConfig.UndoneBy

/-! ## Plans that undo each other -/

section Plans

variable {libs : Libraries ℝ} {b : Backend} {cfg back : FftPlanConfig}

/-- Executing `p` and then `q` returns `Ok` twice and the input of every lane. The
buffer of the result may be the one the input came from. -/
def RoundTrips (p : b.Plan libs cfg) (q : b.Plan libs back) : Prop :=
  ∀ w x y z, cfg.Usable w.mem x y → w.mem.Holds z cfg.inSize → Apart y cfg.outSize z cfg.inSize →
    ∃ v v', p.execute w x y = some (.ok, v) ∧ q.execute v y z = some (.ok, v') ∧
      v'.mem.read z cfg.inSize = w.mem.read x cfg.inSize

/-- Plans that keep the contract return every input. -/
theorem roundTrips (documented : libs.Documented) (undone : cfg.UndoneBy back)
    (addressable : cfg.Addressable) (positive : 0 < cfg.length) (p : b.Plan libs cfg)
    (q : b.Plan libs back) (fits : b.Narrows → cfg.FitsInt) : RoundTrips p q := by
  obtain ⟨inSize, outSize⟩ := undone.sizes
  intro w x y z usable holds apart
  have size := Mem.length_read usable.input
  have covered : cfg.Input (w.mem.read x cfg.inSize) := by
    intro b below
    unfold FftPlanConfig.kind
    rcases undone.types with ⟨type, -, -⟩ | ⟨type, -⟩
    · rw [type]
      trivial
    · rw [type]
      trivial
  obtain ⟨v, run, stored, sizes⟩ := p.execute_output documented addressable fits usable covered
  have usable' : back.Usable v.mem y z := {
    input := by
      rw [inSize, Mem.Holds, sizes]
      exact usable.output
    output := by
      rw [outSize, Mem.Holds, sizes]
      exact holds
    apart := by rwa [inSize, outSize] }
  obtain ⟨v', run', result, -⟩ := q.execute_output documented (undone.addressable addressable)
    (fun narrows => undone.fitsInt.mpr (fits narrows)) usable'
    (by rw [inSize, stored]; exact undone.input_contract positive size)
  refine ⟨v, v', run, run', ?_⟩
  rw [outSize, inSize, stored, undone.contract_contract positive size] at result
  exact result

/-- The output lanes of complex and complex-to-real transforms are planned
adjacent. -/
theorem narrowed_adjacent {cfg : FftPlanConfig} (types : cfg.type ≠ .realToComplex)
    (positive : 0 < toInt32 cfg.length) :
    (∀ n, cfg.kind.outLen n = cfg.kind.outWidth * n) ∧
      cfg.narrowed.odist = cfg.narrowed.outLen := by
  have scalars : ∀ n, cfg.kind.outLen n = cfg.kind.outWidth * n := by
    intro n
    unfold FftPlanConfig.kind
    cases type : cfg.type with
    | complex => exact Nat.mul_comm _ _
    | realToComplex => exact absurd type types
    | complexToReal => exact (Nat.one_mul _).symm
  have distance : cfg.distances.2 = cfg.length := by
    unfold FftPlanConfig.distances
    cases type : cfg.type with
    | complex => rfl
    | realToComplex => exact absurd type types
    | complexToReal => rfl
  refine ⟨scalars, ?_⟩
  rw [cfg.narrowed_odist, cfg.narrowed_outLen, scalars, distance, Nat.cast_mul,
    Int.toNat_of_nonneg positive.le]

/-- If a size was cut off, the planned lanes have fewer elements together. -/
theorem narrowed_lt {cfg : FftPlanConfig} (valid : cfg.Valid) (cut : ¬ cfg.FitsInt) :
    (toInt32 cfg.batch).toNat * (toInt32 cfg.length).toNat < cfg.batch * cfg.length := by
  have length_le := toNat_toInt32_le cfg.length
  have batch_le := toNat_toInt32_le cfg.batch
  by_cases length_lt : cfg.length < 2 ^ 31
  · have bound := toInt32_lt cfg.batch
    have cut_batch : ¬ cfg.batch < 2 ^ 31 := fun batch_lt => cut ⟨length_lt, batch_lt⟩
    calc (toInt32 cfg.batch).toNat * (toInt32 cfg.length).toNat
        ≤ (toInt32 cfg.batch).toNat * cfg.length := Nat.mul_le_mul_left _ length_le
      _ < cfg.batch * cfg.length := Nat.mul_lt_mul_of_pos_right (by omega) valid.length_pos
  · have bound := toInt32_lt cfg.length
    calc (toInt32 cfg.batch).toNat * (toInt32 cfg.length).toNat
        ≤ cfg.batch * (toInt32 cfg.length).toNat := Nat.mul_le_mul_right _ batch_le
      _ < cfg.batch * cfg.length := Nat.mul_lt_mul_of_pos_left (by omega) valid.batch_pos

/-- Then the last cell of an output buffer lies behind all of them. -/
theorem last_not_written (admits : b.Admits cfg) (narrows : b.Narrows)
    (types : cfg.type ≠ .realToComplex) (cut : ¬ cfg.FitsInt) (z : Ptr) {off : Nat}
    (last : off + 1 = z.offset + cfg.outSize) : ¬ (b.plannedLanes cfg).Writes z z.block off := by
  obtain ⟨scalars, adjacent⟩ := narrowed_adjacent types (admits.positive narrows).1
  have fewer := Nat.mul_lt_mul_of_pos_left (narrowed_lt admits.valid cut) cfg.kind.outWidth_pos
  have planned : cfg.narrowed.count * cfg.narrowed.outLen =
      cfg.kind.outWidth * ((toInt32 cfg.batch).toNat * (toInt32 cfg.length).toNat) := by
    rw [cfg.narrowed_count, cfg.narrowed_outLen, scalars, Nat.mul_left_comm]
  have size : cfg.outSize = cfg.kind.outWidth * (cfg.batch * cfg.length) := by
    rw [FftPlanConfig.outSize, scalars, Nat.mul_left_comm]
  rw [Backend.plannedLanes, if_pos narrows, Strided.writes_of_adjacent adjacent, planned]
  intro condition
  rcases condition with ⟨-, -, below⟩
  omega

/-- Zeros, but for a one at the end of the input. -/
def lastOne (inSize outSize : Nat) : Nat → List ℝ
  | 0 => List.replicate (inSize - 1) 0 ++ [1]
  | 1 => List.replicate outSize 0
  | _ => List.replicate inSize 0

theorem length_lastOne {inSize outSize : Nat} (positive : 0 < inSize) :
    (lastOne inSize outSize 0).length = inSize := by
  simp only [lastOne, List.length_append, List.length_replicate, List.length_singleton]
  omega

theorem lastOne_input (inSize outSize : Nat) :
    (lastOne inSize outSize 0)[inSize - 1]? = some 1 := by
  rw [lastOne, List.getElem?_append_right (by simp), List.length_replicate, Nat.sub_self]
  rfl

theorem lastOne_result {inSize : Nat} (outSize : Nat) (positive : 0 < inSize) :
    (lastOne inSize outSize 2)[inSize - 1]? = some 0 := by
  simp only [lastOne, List.getElem?_replicate]
  rw [if_pos (by omega)]

/-- Otherwise the last sample of the result keeps its old value. -/
theorem RoundTrips.fits (documented : libs.Documented) (undone : cfg.UndoneBy back)
    (addressable : cfg.Addressable) {p : b.Plan libs cfg} {q : b.Plan libs back}
    (trips : RoundTrips p q) (narrows : b.Narrows) : cfg.FitsInt := by
  by_contra cut
  obtain ⟨inSize, outSize⟩ := undone.sizes
  have vendor : b.Vendor := .inr narrows
  have admits := q.admits documented vendor
  have positive : 0 < cfg.inSize := by
    rw [← outSize]
    exact admits.valid.outSize_pos
  have types : back.type ≠ .realToComplex := by
    rcases undone.types with ⟨-, type', -⟩ | ⟨-, type'⟩
    · rw [type']
      decide
    · rw [type']
      decide
  let w : World ℝ := .ofBuffers (lastOne cfg.inSize cfg.outSize)
  have input : (lastOne cfg.inSize cfg.outSize 0).length = cfg.inSize := length_lastOne positive
  have usable : cfg.Usable w.mem ⟨0, 0⟩ ⟨1, 0⟩ :=
    usable_ofBuffers input.ge List.length_replicate.ge (by decide)
  have holds : w.mem.Holds ⟨2, 0⟩ cfg.inSize := by
    simp [Mem.Holds, w, World.ofBuffers, lastOne]
  obtain ⟨v, v', run, run', same⟩ := trips w ⟨0, 0⟩ ⟨1, 0⟩ ⟨2, 0⟩ usable holds (.inl (by decide))
  obtain ⟨st, u, first, sizes, frame⟩ :=
    p.execute_frame documented vendor addressable ⟨0, 0⟩ usable.output
  rw [run] at first
  cases first
  have zero : (w.mem.cells 2)[cfg.inSize - 1]? = some (0 : ℝ) :=
    lastOne_result cfg.outSize positive
  have between := (frame 2 (cfg.inSize - 1) (fun writes => absurd writes.block_eq (by decide))
    fun destroyed => absurd destroyed.2.block_eq (by decide)).2 zero
  have holds' : v.mem.Holds ⟨2, 0⟩ back.outSize := by
    rw [outSize, Mem.Holds, sizes]
    exact holds
  obtain ⟨st', u', second, -, frame'⟩ :=
    q.execute_frame documented vendor (undone.addressable addressable) ⟨1, 0⟩ holds'
  rw [run'] at second
  cases second
  have after := (frame' 2 (cfg.inSize - 1)
    (last_not_written admits narrows types (mt undone.fitsInt.mp cut) ⟨2, 0⟩
      (by rw [outSize]; dsimp only; omega))
    fun destroyed => absurd destroyed.2.block_eq (by decide)).2 between
  have one := congrArg (·[cfg.inSize - 1]?) same
  simp only [w, read_ofBuffers input, lastOne_input] at one
  rw [Mem.getElem?_read, if_pos (by omega), Mem.load, Nat.zero_add, after] at one
  exact absurd one (by simp)

/-- Plans of the two directions return every input exactly when the sizes reach the
library unchanged: always with MKL, pocketfft and CMSIS, below `2^31` with AOCL and
ArmPL. -/
theorem roundTrips_iff (documented : libs.Documented) (undone : cfg.UndoneBy back)
    (addressable : cfg.Addressable) (p : b.Plan libs cfg) (q : b.Plan libs back) :
    RoundTrips p q ↔ (b.Narrows → cfg.FitsInt) :=
  ⟨fun trips narrows => trips.fits documented undone addressable narrows,
    roundTrips documented undone addressable p.valid.length_pos p q⟩

end Plans

/-- The transform back of two lanes of six real samples. -/
def twoSpectra : FftPlanConfig :=
  { twoRealLanes with type := .complexToReal }

theorem roundTrips_iff_two_real_lanes :
    ∃ (p : Backend.mkl.Plan Operation.exact.libraries twoRealLanes)
      (q : Backend.mkl.Plan Operation.exact.libraries twoSpectra), RoundTrips p q := by
  obtain ⟨p⟩ := Backend.exists_plan .exact (.inl rfl)
    (⟨⟨by decide, by decide, by decide⟩, by decide, by decide⟩ : Backend.mkl.Admits twoRealLanes)
  obtain ⟨q⟩ := Backend.exists_plan .exact (.inl rfl)
    (⟨⟨by decide, by decide, by decide⟩, by decide, by decide⟩ : Backend.mkl.Admits twoSpectra)
  have undone : twoRealLanes.UndoneBy twoSpectra := ⟨rfl, rfl, rfl, .inr ⟨rfl, rfl⟩⟩
  exact ⟨p, q, (roundTrips_iff Operation.exact.documented undone ⟨by decide, by decide⟩ p q).mpr
    (by decide)⟩

/-- The transform back of one lane of `2^32 + 1` values. -/
def wrappedLengthBack : FftPlanConfig :=
  { wrappedLength with direction := .inverse }

/-- ArmPL plans both directions with the length `1`. -/
theorem wrappedLength_not_roundTrips :
    ¬ ∀ (libs : Libraries ℝ) (b : Backend) (cfg back : FftPlanConfig) (p : b.Plan libs cfg)
      (q : b.Plan libs back), libs.Documented → cfg.UndoneBy back → cfg.Addressable →
      RoundTrips p q := by
  intro returns
  obtain ⟨p⟩ := Backend.exists_plan .exact (.inr (.inr rfl))
    (⟨⟨by decide, by decide, by decide⟩, by decide, by decide⟩ : Backend.armpl.Admits wrappedLength)
  obtain ⟨q⟩ := Backend.exists_plan .exact (.inr (.inr rfl))
    (⟨⟨by decide, by decide, by decide⟩, by decide, by decide⟩ :
      Backend.armpl.Admits wrappedLengthBack)
  have undone : wrappedLength.UndoneBy wrappedLengthBack :=
    ⟨rfl, rfl, rfl, .inl ⟨rfl, rfl, by decide⟩⟩
  have addressable : wrappedLength.Addressable := ⟨by decide, by decide⟩
  have trips := returns _ _ _ _ p q Operation.exact.documented undone addressable
  exact absurd (trips.fits Operation.exact.documented undone addressable (.inr rfl)) (by decide)

end DspDispatch.Fft
