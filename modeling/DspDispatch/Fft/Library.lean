import DspDispatch.Fft.Contract

/-!
# What the adapters share

All libraries take a description of batched lanes, and some leave the scaling of
inverse transforms to the adapter. This module holds the loops that scale an
output buffer, what a library documents of a call (`Transforms`), and the checks
and conversions the adapters have in common. `FftPlanConfig.narrowed` is the
description left when all sizes are converted to `int`.
-/

namespace DspDispatch.Fft

open Kit

/-! ## Scaling an output buffer in place -/

section Scale

variable {K : Type} [Mul K]

/-- `for (i = 0; i < count; ++i) o[i] *= inv` on elements of `width` scalars. -/
def scaleElements (width count : Nat) (inv : K) (out : Ptr) (m : Mem K) : Option (Mem K) :=
  forLoop count (fun i => forLoop width fun c m => do
    let v ← m.load out (width * i + c)
    m.store out (width * i + c) (v * inv)) m

/-- Rewriting one more cell of a buffer in place. -/
theorem map_cell {m : Mem K} {out : Ptr} {k n : Nat} (inv : K) (holds : m.Holds out n)
    (below : k < n) :
    (do
      let v ← (m.write out ((m.read out k).map (· * inv))).load out k
      (m.write out ((m.read out k).map (· * inv))).store out k (v * inv)) =
      some (m.write out ((m.read out (k + 1)).map (· * inv))) := by
  have holdsK : m.Holds out k := Nat.le_trans (by omega) holds
  have length : ((m.read out k).map (· * inv)).length = k := by
    rw [List.length_map, Mem.length_read holdsK]
  have inside : out.offset + k < (m.cells out.block).length := by
    simp only [Mem.Holds] at holds
    omega
  obtain ⟨v, cell⟩ : ∃ v, m.load out k = some v := ⟨_, List.getElem?_eq_getElem inside⟩
  have apart : Apart (out.add k) 1 out k := .inr (.inr (by simp))
  have kept : (m.write out ((m.read out k).map (· * inv))).load out k = m.load out k := by
    have same := Mem.load_write_of_apart (m := m) (p := out) (q := out.add k)
      ((m.read out k).map (· * inv)) (n := 1) (i := 0)
      (by rw [length]; exact holdsK) (by rw [length]; exact apart) (by omega)
    rwa [Mem.load_add, Mem.load_add, Nat.add_zero] at same
  have longer : m.read out (k + 1) = m.read out k ++ [v] := segment_succ cell
  have stored := Mem.store_write (m := m) (p := out) ((m.read out k).map (· * inv)) (v * inv)
    (by rw [length]; exact Nat.le_trans (by omega) holds)
  rw [length] at stored
  rw [kept, cell, Option.bind_eq_bind, Option.bind_some, stored, longer, List.map_append,
    List.map_singleton]

/-- The loop scales every scalar of the buffer once and changes nothing else. -/
theorem scaleElements_eq {width count : Nat} (inv : K) {out : Ptr} {m : Mem K}
    (holds : m.Holds out (width * count)) :
    scaleElements width count inv out m =
      some (m.write out ((m.read out (width * count)).map (· * inv))) := by
  let scaled : Nat → Mem K := fun k => m.write out ((m.read out k).map (· * inv))
  have start : scaled (width * 0) = m := by
    simp only [scaled, Nat.mul_zero, Mem.read, Kit.segment, List.take_zero, List.map_nil, Mem.write_nil]
  have trace := forLoop_trace count
    (fun i => forLoop width fun c m => do
      let v ← m.load out (width * i + c)
      m.store out (width * i + c) (v * inv))
    (fun i => scaled (width * i))
    (by
      intro i below
      have inside := lane_end_le width below
      rw [Nat.mul_comm i, Nat.mul_comm count] at inside
      exact forLoop_trace width _ (fun c => scaled (width * i + c)) fun c small =>
        map_cell inv holds (by omega))
  rw [start] at trace
  exact trace

end Scale

/-- Elements of the output, in scalars. -/
def FftType.outWidth : FftType → Nat
  | .complex => 2
  | .realToComplex => 1
  | .complexToReal => 1

/-- The scaling by `1 / N` of the adapters over unscaled libraries: `n * batch`
elements, complex ones for a complex transform. -/
def scaleOutput {K : Type} [Field K] (type : FftType) (n batch : Nat) (output : Ptr) (m : Mem K) :
    Option (Mem K) :=
  scaleElements type.outWidth (n * batch % 2 ^ 64) (1 / (n : K)) output m

/-- The elements scaled are those of the output buffer. -/
theorem scaleOutput_eq {cfg : FftPlanConfig} {m : Mem ℝ} {q : Ptr} (inverse : cfg.isInverse = true)
    (addressable : cfg.Addressable) (holds : m.Holds q cfg.outSize) :
    scaleOutput cfg.type cfg.length cfg.batch q m =
      some (m.write q ((m.read q cfg.outSize).map (· * cfg.scale))) := by
  have small := addressable.outSize_lt
  have elements : cfg.type.outWidth * (cfg.length * cfg.batch) = cfg.outSize := by
    unfold FftPlanConfig.isInverse at inverse
    unfold FftPlanConfig.outSize FftPlanConfig.kind FftType.outWidth
    cases type : cfg.type with
    | complex =>
      simp only [DftKind.outLen]
      ring
    | realToComplex => simp [type] at inverse
    | complexToReal =>
      simp only [DftKind.outLen]
      ring
  have width : 1 ≤ cfg.type.outWidth := by
    cases cfg.type <;> decide
  have count : cfg.length * cfg.batch % 2 ^ 64 = cfg.length * cfg.batch := by
    have below := Nat.le_mul_of_pos_left (cfg.length * cfg.batch) width
    exact Nat.mod_eq_of_lt (by omega)
  have scale : cfg.scale = 1 / (cfg.length : ℝ) := by
    rw [FftPlanConfig.scale, if_pos inverse]
  rw [scaleOutput, count, scale, scaleElements_eq _ (by rw [elements]; exact holds), elements]

/-- The loops turn plain inverse transforms into the contract's. -/
theorem scaleOutput_transformed {cfg : FftPlanConfig} {m : Mem ℝ} {q : Ptr} {xs : List ℝ}
    (inverse : cfg.isInverse = true) (addressable : cfg.Addressable)
    (holds : m.Holds q cfg.outSize) :
    scaleOutput cfg.type cfg.length cfg.batch q (m.write q (cfg.transformed 1 xs)) =
      some (m.write q (cfg.contract xs)) := by
  have length := cfg.length_transformed 1 xs
  have holdsPlain : m.Holds q (cfg.transformed 1 xs).length := by
    rw [length]
    exact holds
  have written := Mem.read_write holdsPlain
  rw [length] at written
  rw [scaleOutput_eq inverse addressable (by rw [Mem.holds_write holdsPlain]; exact holds), written,
    Mem.write_again holdsPlain (by rw [List.length_map]), cfg.transformed_map_mul,
    FftPlanConfig.contract]

/-! ## What a library documents of a call -/

/-- The lanes of a batch of `count` transforms of length `n`, the distances
counted in elements as the libraries do. -/
def dftStrided (kind : DftKind) (n count : Nat) (idist odist : Int) : Strided where
  count := count
  inLen := kind.inLen n
  outLen := kind.outLen n
  idist := kind.inWidth * idist
  odist := kind.outWidth * odist

/-- A call changes its output lanes only, or also its input lanes if it destroys
its input. On lanes that fit it computes the scaled transform of every lane. -/
structure Transforms (kind : DftKind) (n : Nat) (scale : ℝ) (S : Strided) (destroys : Prop)
    (call : Mem ℝ → Ptr → Ptr → Mem ℝ) : Prop where
  frame : ∀ m p q, S.Frame destroys m p q (call m p q)
  computes : ∀ m p q, S.Fits m p q → (∀ b, b < S.count → kind.Input n (S.laneIn m p b)) →
    ∀ b, b < S.count → S.laneOut (call m p q) q b = kind.lane n scale (S.laneIn m p b)

/-- There is such a call. -/
theorem transforms_apply (kind : DftKind) (n count : Nat) (idist odist : Int) (scale : ℝ)
    (destroys : Prop) :
    Transforms kind n scale (dftStrided kind n count idist odist) destroys
      ((dftStrided kind n count idist odist).apply fun xs => kind.lane n scale xs) where
  frame := Strided.apply_frame _ _ destroys
  computes _ _ _ fits _ :=
    (Strided.apply_maps _ destroys (fun _ _ => DftKind.length_lane _ _ _ _) fits).lanes_eq

/-- On buffers of the configured lanes a call writes the transforms, whatever it
leaves in an input it destroys. -/
theorem Transforms.eq_write {cfg : FftPlanConfig} {scale : ℝ} {destroys : Prop}
    {call : Mem ℝ → Ptr → Ptr → Mem ℝ}
    (transforms : Transforms cfg.kind cfg.length scale
      (.contiguous cfg.batch (cfg.kind.inLen cfg.length) (cfg.kind.outLen cfg.length)) destroys call)
    {m : Mem ℝ} {p q : Ptr} (usable : cfg.Usable m p q) (input : cfg.Input (m.read p cfg.inSize)) :
    ∃ left, left.length = cfg.inSize ∧ (¬ destroys → left = m.read p cfg.inSize) ∧
      call m p q = (m.write p left).write q (cfg.transformed scale (m.read p cfg.inSize)) ∧
      (m.write p left).Holds q cfg.outSize := by
  have fits := Strided.fits_contiguous usable.input usable.output usable.apart
  have computes := transforms.computes m p q fits (by
    intro b below
    rw [Strided.contiguous_laneIn, ← cfg.laneOf_read below]
    exact input b below)
  have maps : Strided.Maps _ (fun xs => cfg.kind.lane cfg.length scale xs) destroys m p q
      (call m p q) := ⟨transforms.frame m p q, computes⟩
  obtain ⟨left, leftLength, keeps, result⟩ :=
    maps.eq_write usable.input usable.output usable.apart
  have lanesOf : (lanes cfg.batch fun b => cfg.kind.lane cfg.length scale
      (m.read (p.add (b * cfg.kind.inLen cfg.length)) (cfg.kind.inLen cfg.length))) =
      cfg.transformed scale (m.read p cfg.inSize) := by
    apply lanes_congr
    intro b below
    rw [cfg.laneOf_read below]
  have holdsLeft : m.Holds p left.length := by
    rw [leftLength]
    exact usable.input
  rw [lanesOf] at result
  exact ⟨left, leftLength, keeps, result, (Mem.holds_write holdsLeft).mpr usable.output⟩

/-! ## Checks and descriptors -/

/-- The library transform of a type and a resolved direction. -/
def planKind (type : FftType) (inverse : Bool) : DftKind :=
  match type with
  | .complex => .c2c (!inverse)
  | .realToComplex => .r2c
  | .complexToReal => .c2r

/-- The resolved direction gives the configured transform. -/
theorem planKind_isInverse (cfg : FftPlanConfig) : planKind cfg.type cfg.isInverse = cfg.kind := by
  unfold planKind FftPlanConfig.isInverse FftPlanConfig.kind
  cases cfg.type with
  | complex => cases cfg.direction <;> rfl
  | realToComplex => rfl
  | complexToReal => rfl

/-- The configurations that pass the checks all factories make. -/
structure FftPlanConfig.Valid (cfg : FftPlanConfig) : Prop where
  length_pos : 0 < cfg.length
  batch_pos : 0 < cfg.batch
  direction : cfg.type = .realToComplex → cfg.direction ≠ .inverse

theorem FftPlanConfig.Valid.inSize_pos {cfg : FftPlanConfig} (valid : cfg.Valid) :
    0 < cfg.inSize := Nat.mul_pos valid.batch_pos (cfg.kind.inLen_pos valid.length_pos)

theorem FftPlanConfig.Valid.outSize_pos {cfg : FftPlanConfig} (valid : cfg.Valid) :
    0 < cfg.outSize := Nat.mul_pos valid.batch_pos (cfg.kind.outLen_pos valid.length_pos)

theorem checkSizes_eq_ok {cfg : FftPlanConfig} :
    checkSizes cfg = .ok () ↔ 0 < cfg.length ∧ 0 < cfg.batch := by
  unfold checkSizes
  split
  · rename_i zero
    exact iff_of_false (by simp) (by omega)
  · rename_i nonzero
    exact iff_of_true rfl (by omega)

theorem resolveInverse_eq_ok {cfg : FftPlanConfig} {inverse : Bool} :
    resolveInverse cfg = .ok inverse ↔
      inverse = cfg.isInverse ∧ (cfg.type = .realToComplex → cfg.direction ≠ .inverse) := by
  unfold resolveInverse FftPlanConfig.isInverse
  cases type : cfg.type with
  | complex => simp [eq_comm]
  | realToComplex =>
    by_cases backwards : cfg.direction = .inverse
    · simp [backwards]
    · simp [backwards, eq_comm]
  | complexToReal => simp [eq_comm]

/-- The two checks, before the rest of a factory. -/
theorem checks_eq_ok {α : Type} {cfg : FftPlanConfig} {rest : Bool → Result α} {a : α} :
    (do
      checkSizes cfg
      let inverse ← resolveInverse cfg
      rest inverse) = .ok a ↔ cfg.Valid ∧ rest cfg.isInverse = .ok a := by
  constructor
  · intro made
    cases sizes : checkSizes cfg with
    | error st =>
      rw [sizes] at made
      cases made
    | ok _ =>
      cases resolved : resolveInverse cfg with
      | error st =>
        rw [sizes, resolved] at made
        cases made
      | ok inverse =>
        rw [sizes, resolved] at made
        obtain ⟨length_pos, batch_pos⟩ := checkSizes_eq_ok.mp sizes
        obtain ⟨rfl, direction⟩ := resolveInverse_eq_ok.mp resolved
        exact ⟨⟨length_pos, batch_pos, direction⟩, made⟩
  · intro both
    rcases both with ⟨valid, made⟩
    rw [checkSizes_eq_ok.mpr ⟨valid.length_pos, valid.batch_pos⟩,
      resolveInverse_eq_ok.mpr ⟨rfl, valid.direction⟩]
    exact made

/-- The distances of the configured layout, in elements. -/
def FftPlanConfig.distances (cfg : FftPlanConfig) : Nat × Nat :=
  match cfg.type with
  | .complex => (cfg.length, cfg.length)
  | .realToComplex => (cfg.length, realComplexBins cfg.length)
  | .complexToReal => (realComplexBins cfg.length, cfg.length)

/-- A descriptor with the configured length, batch and distances names lanes that
fill the two buffers. -/
theorem dftStrided_eq_contiguous (cfg : FftPlanConfig) :
    dftStrided cfg.kind cfg.length cfg.batch cfg.distances.1 cfg.distances.2 =
      .contiguous cfg.batch (cfg.kind.inLen cfg.length) (cfg.kind.outLen cfg.length) := by
  unfold dftStrided Strided.contiguous FftPlanConfig.distances FftPlanConfig.kind
  cases cfg.type <;>
    simp [DftKind.inLen, DftKind.outLen, DftKind.inWidth, DftKind.outWidth, realComplexBins,
      mul_comm]

/-! ## Descriptors in `int` -/

/-- The lanes named when all sizes are converted to `int`. -/
def FftPlanConfig.narrowed (cfg : FftPlanConfig) : Strided :=
  dftStrided cfg.kind (toInt32 cfg.length).toNat (toInt32 cfg.batch).toNat
    (toInt32 cfg.distances.1) (toInt32 cfg.distances.2)

section Narrowed

variable (cfg : FftPlanConfig)

@[simp] theorem FftPlanConfig.narrowed_count :
    cfg.narrowed.count = (toInt32 cfg.batch).toNat := by
  simp only [FftPlanConfig.narrowed, dftStrided]

@[simp] theorem FftPlanConfig.narrowed_inLen :
    cfg.narrowed.inLen = cfg.kind.inLen (toInt32 cfg.length).toNat := by
  simp only [FftPlanConfig.narrowed, dftStrided]

@[simp] theorem FftPlanConfig.narrowed_outLen :
    cfg.narrowed.outLen = cfg.kind.outLen (toInt32 cfg.length).toNat := by
  simp only [FftPlanConfig.narrowed, dftStrided]

@[simp] theorem FftPlanConfig.narrowed_idist :
    cfg.narrowed.idist = cfg.kind.inWidth * toInt32 cfg.distances.1 := by
  simp only [FftPlanConfig.narrowed, dftStrided]

@[simp] theorem FftPlanConfig.narrowed_odist :
    cfg.narrowed.odist = cfg.kind.outWidth * toInt32 cfg.distances.2 := by
  simp only [FftPlanConfig.narrowed, dftStrided]

end Narrowed

/-- Length and batch survive the conversion. -/
def FftPlanConfig.FitsInt (cfg : FftPlanConfig) : Prop := cfg.length < 2 ^ 31 ∧ cfg.batch < 2 ^ 31

instance (cfg : FftPlanConfig) : Decidable cfg.FitsInt :=
  inferInstanceAs (Decidable (_ ∧ _))

/-- Then the distances survive, too. -/
theorem FftPlanConfig.toInt32_distances {cfg : FftPlanConfig} (fits : cfg.FitsInt) :
    toInt32 cfg.distances.1 = cfg.distances.1 ∧ toInt32 cfg.distances.2 = cfg.distances.2 := by
  obtain ⟨length_lt, -⟩ := fits
  have bins_lt : realComplexBins cfg.length < 2 ^ 31 := by
    unfold realComplexBins
    omega
  unfold FftPlanConfig.distances
  cases cfg.type with
  | complex => exact ⟨toInt32_of_lt length_lt, toInt32_of_lt length_lt⟩
  | realToComplex => exact ⟨toInt32_of_lt length_lt, toInt32_of_lt bins_lt⟩
  | complexToReal => exact ⟨toInt32_of_lt bins_lt, toInt32_of_lt length_lt⟩

/-- When they survive, the description names the configured lanes. -/
theorem FftPlanConfig.narrowed_eq_contiguous {cfg : FftPlanConfig} (fits : cfg.FitsInt) :
    cfg.narrowed =
      .contiguous cfg.batch (cfg.kind.inLen cfg.length) (cfg.kind.outLen cfg.length) := by
  have distances := FftPlanConfig.toInt32_distances fits
  rw [← dftStrided_eq_contiguous, FftPlanConfig.narrowed, distances.1, distances.2,
    toInt32_of_lt fits.1, toInt32_of_lt fits.2, Int.toNat_natCast, Int.toNat_natCast]

end DspDispatch.Fft
