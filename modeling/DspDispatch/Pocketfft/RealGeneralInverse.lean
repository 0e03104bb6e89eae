import DspDispatch.Pocketfft.RealGeneralPass

/-!
# The backward real pass of pocketfft for other prime factors (`radbg`)

`radbg` reads the half-complex order (`unhalveRows_eq`), combines the rows from `ch` to `cc`,
takes sums and differences back to `ch` (`spreadRows_eq`), where the twiddle factors come last
(`twistRows_eq`).
-/

namespace DspDispatch.Pocketfft

open Kit

section Model

variable {K : Type} [Field K] (ido ip l1 : Nat)

/-- The loops 101 to 111: the rows of `ch` from the half-complex order. -/
def unhalveRows (cc ch : List K) : Option (List K) := do
  let ch ← forLoop l1 (fun k => forLoop ido fun i ch => do
    let c ← cc[i + ido * (0 + ip * k)]?
    storeCell ch (i + ido * (k + l1 * 0)) c) ch
  let ch ← forLoop ((ip + 1) / 2 - 1) (fun j0 => forLoop l1 fun k ch => do
    let j := j0 + 1
    let jc := ip - j
    let j2 := 2 * j - 1
    let a ← cc[ido - 1 + ido * (j2 + ip * k)]?
    let b ← cc[0 + ido * (j2 + 1 + ip * k)]?
    let ch ← storeCell ch (0 + ido * (k + l1 * j)) (double a)
    storeCell ch (0 + ido * (k + l1 * jc)) (double b)) ch
  forLoop ((ip + 1) / 2 - 1) (fun j0 => forLoop l1 fun k => forLoop ((ido - 1) / 2) fun t ch => do
    let j := j0 + 1
    let jc := ip - j
    let j2 := 2 * j - 1
    let i := 2 * t + 1
    let ic := ido - i - 2
    let x ← readPair cc (i + ido * (j2 + 1 + ip * k))
    let y ← readPair cc (ic + ido * (j2 + ip * k))
    let ch ← storePair ch (i + ido * (k + l1 * j)) ⟨x.r + y.r, x.i - y.i⟩
    storePair ch (i + ido * (k + l1 * jc)) ⟨x.r - y.r, x.i + y.i⟩) ch

/-- `CH2(ik,0) += CH2(ik,j)`. -/
def addOwnRow (idl1 j : Nat) (ch : List K) : Option (List K) :=
  forLoop idl1 (fun ik ch => do
    let a ← ch[ik + idl1 * 0]?
    let c ← ch[ik + idl1 * j]?
    storeCell ch (ik + idl1 * 0) (a + c)) ch

/-- The loops 124 and 127: sums and differences of the rows of `cc`. Where the source returns
first, for `ido == 1`, this loop and the next have no iteration. -/
def spreadRows (cc ch : List K) : Option (List K) := do
  let ch ← forLoop ((ip + 1) / 2 - 1) (fun j0 => forLoop l1 fun k ch => do
    let j := j0 + 1
    let jc := ip - j
    let c ← cc[0 + ido * (k + l1 * j)]?
    let d ← cc[0 + ido * (k + l1 * jc)]?
    let ch ← storeCell ch (0 + ido * (k + l1 * jc)) (c + d)
    storeCell ch (0 + ido * (k + l1 * j)) (c - d)) ch
  forLoop ((ip + 1) / 2 - 1) (fun j0 => forLoop l1 fun k => forLoop ((ido - 1) / 2) fun t ch => do
    let j := j0 + 1
    let jc := ip - j
    let i := 2 * t + 1
    let x ← readPair cc (i + ido * (k + l1 * j))
    let y ← readPair cc (i + ido * (k + l1 * jc))
    let ch ← storePair ch (i + ido * (k + l1 * j)) ⟨x.r - y.i, x.i + y.r⟩
    storePair ch (i + ido * (k + l1 * jc)) ⟨x.r + y.i, x.i - y.r⟩) ch

/-- The last loop: the twiddle factors, in place. -/
def twistRows (wa : List K) : List K → Option (List K) :=
  forLoop (ip - 1) fun j0 => forLoop l1 fun k => forLoop ((ido - 1) / 2) fun t ch => do
    let j := j0 + 1
    let i := 2 * t + 1
    let w ← readPair wa (2 * t + (j - 1) * (ido - 1))
    let x ← readPair ch (i + ido * (k + l1 * j))
    storePair ch (i + ido * (k + l1 * j)) ⟨w.r * x.r - w.i * x.i, w.r * x.i + w.i * x.r⟩

/-- `radbg`: the arrays `cc` and `ch` afterwards. -/
def radbg (cc ch wa csarr : List K) : Option (List K × List K) := do
  let ch ← unhalveRows ido ip l1 cc ch
  let cc ← forLoop ((ip + 1) / 2 - 1) (fun l =>
    combine (advance ip) (ido * l1) ip csarr ch (l + 1)) cc
  let ch ← forLoop ((ip + 1) / 2 - 1) (fun j => addOwnRow (ido * l1) (j + 1)) ch
  let ch ← spreadRows ido ip l1 cc ch
  let ch ← twistRows ido ip l1 wa ch
  some (cc, ch)

end Model

section Backward

variable {n l1 h ido : Nat} {X : Nat → ℂ} {wa csarr : List ℝ}

/-- The bins of one butterfly. -/
noncomputable def stageBins (n l1 ido : Nat) (X : Nat → ℂ) (f k s : Nat) : ℂ :=
  stage false n l1 X (f + ido * s) k

/-- The rows of sums and differences. -/
noncomputable def unhalved (n l1 h ido : Nat) (X : Nat → ℂ) (r f k : Nat) : ℂ :=
  pairValue h (stageBins n l1 ido X f k) r

theorem unhalved_low {j0 : Nat} (below : j0 < h) (f k : Nat) :
    unhalved n l1 h ido X (j0 + 1) f k =
      stageBins n l1 ido X f k (j0 + 1) + stageBins n l1 ido X f k (2 * h - j0) :=
  pairValue_low below

theorem unhalved_high {j0 : Nat} (below : j0 < h) (f k : Nat) :
    unhalved n l1 h ido X (2 * h - j0) f k =
      stageBins n l1 ido X f k (j0 + 1) - stageBins n l1 ido X f k (2 * h - j0) :=
  pairValue_high below

/-- The bins without a twiddle factor, in pairs. -/
theorem stageBins_zero (conjugate : Conjugate n X) (factored : n = l1 * (2 * h + 1) * ido)
    (positive : 0 < n) {j0 : Nat} (below : j0 < h) (k : Nat) :
    stageBins n l1 ido X 0 k (2 * h - j0) =
      (starRingEnd ℂ) (stageBins n l1 ido X 0 k (j0 + 1)) := by
  have symmetric := conjugate_row conjugate factored positive k
  have flipped := symmetric.flip (ido * (j0 + 1)) (Nat.mul_le_mul_left ido (by omega))
  have across : 2 * h + 1 - (j0 + 1) = 2 * h - j0 := by omega
  rw [← Nat.mul_sub, across] at flipped
  rw [stageBins, stageBins, Nat.zero_add, Nat.zero_add]
  exact flipped

/-- The ends of the rows of a pair. -/
theorem stageCells_ends (X : Nat → ℂ) (factored : n = l1 * (2 * h + 1) * ido)
    (positive : 0 < n) {j0 k : Nat} (low : j0 < h) (block : k < l1) :
    (stageCells n l1 X)[ido - 1 + ido * (2 * (j0 + 1) - 1 + (2 * h + 1) * k)]? =
        some (stageBins n l1 ido X 0 k (j0 + 1)).re ∧
      (stageCells n l1 X)[0 + ido * (2 * (j0 + 1) - 1 + 1 + (2 * h + 1) * k)]? =
        some (stageBins n l1 ido X 0 k (j0 + 1)).im := by
  have inner := inner_pos factored positive
  constructor
  · have left : endCell ido (2 * (j0 + 1) - 1) = ido - 1 := if_neg (by omega)
    have cell := halfCell_endCell (H := fun q => stage false n l1 X q k) inner (2 * (j0 + 1) - 1)
    rw [left, halfCell_re (Nat.succ_pos j0)] at cell
    rw [stageCells_row X factored positive (by omega) (by omega) block, cell, stageBins,
      Nat.zero_add]
  · have even : 2 * (j0 + 1) - 1 + 1 = 2 * (j0 + 1) := by omega
    have left : endCell ido (2 * (j0 + 1)) = 0 := if_pos (by omega)
    have cell := halfCell_endCell (H := fun q => stage false n l1 X q k) inner (2 * (j0 + 1))
    rw [left, halfCell_im (Nat.succ_pos j0)] at cell
    rw [even, stageCells_row X factored positive inner (by omega) block, cell, stageBins,
      Nat.zero_add]

/-- Two adjacent columns of the rows of a pair. -/
theorem stageCells_rest (conjugate : Conjugate n X) (factored : n = l1 * (2 * h + 1) * ido)
    (positive : 0 < n) {j0 k t : Nat} (low : j0 < h) (block : k < l1) (below : 2 * t + 2 < ido) :
    readPair (stageCells n l1 X) (2 * t + 1 + ido * (2 * (j0 + 1) - 1 + 1 + (2 * h + 1) * k)) =
        some (ofComplex (stageBins n l1 ido X (t + 1) k (j0 + 1))) ∧
      readPair (stageCells n l1 X)
          (ido - (2 * t + 1) - 2 + ido * (2 * (j0 + 1) - 1 + (2 * h + 1) * k)) =
        some (ofComplex ((starRingEnd ℂ) (stageBins n l1 ido X (t + 1) k (2 * h - j0)))) := by
  have symmetric := conjugate_row conjugate factored positive k
  have even : 2 * (j0 + 1) - 1 + 1 = 2 * (j0 + 1) := by omega
  obtain ⟨real, imag⟩ := halfCell_foldCell symmetric (Nat.succ_pos t)
    (by omega : 2 * (t + 1) < ido) (by omega : 2 * (j0 + 1) < 2 * h + 1)
  obtain ⟨real', imag'⟩ := halfCell_foldCell symmetric (Nat.succ_pos t)
    (by omega : 2 * (t + 1) < ido) (by omega : 2 * (j0 + 1) - 1 < 2 * h + 1)
  have row : 2 * (j0 + 1) / 2 = j0 + 1 := by omega
  have row' : 2 * h + 1 - (2 * (j0 + 1) - 1) / 2 - 1 = 2 * h - j0 := by omega
  have place : foldCell ido (2 * (t + 1)) (2 * (j0 + 1)) = 2 * t + 1 + 1 := if_pos (by omega)
  have place' : foldCell ido (2 * (t + 1)) (2 * (j0 + 1) - 1) = ido - (2 * t + 1) - 2 + 1 :=
    (if_neg (by omega)).trans (by omega)
  rw [place, Nat.add_sub_cancel, folded, if_pos (by omega), row] at real
  rw [place, folded, if_pos (by omega), row] at imag
  rw [place', Nat.add_sub_cancel, folded, if_neg (by omega), row'] at real'
  rw [place', folded, if_neg (by omega), row'] at imag'
  rw [even]
  constructor
  · refine readPair_eq ?_ ?_
    · rw [stageCells_row X factored positive (by omega) (by omega) block, real]
      rfl
    · rw [Nat.add_right_comm, stageCells_row X factored positive (by omega) (by omega) block, imag]
      rfl
  · refine readPair_eq ?_ ?_
    · rw [stageCells_row X factored positive (by omega) (by omega) block, real']
      rfl
    · rw [Nat.add_right_comm, stageCells_row X factored positive (by omega) (by omega) block, imag']
      rfl

/-- The cells of the first columns and of the pairs of columns of all pairs of rows. -/
def pairCells (ido l1 h p : Nat) : Prop :=
  (∃ j0, j0 < h ∧ ∃ k, k < l1 ∧
      (p = 0 + ido * (k + l1 * (j0 + 1)) ∨ p = 0 + ido * (k + l1 * (2 * h - j0)))) ∨
    ∃ j0, j0 < h ∧ ∃ k, k < l1 ∧ ∃ t, t < (ido - 1) / 2 ∧
      ((p = 2 * t + 1 + ido * (k + l1 * (j0 + 1)) ∨
          p = 2 * t + 1 + ido * (k + l1 * (j0 + 1)) + 1) ∨
        (p = 2 * t + 1 + ido * (k + l1 * (2 * h - j0)) ∨
          p = 2 * t + 1 + ido * (k + l1 * (2 * h - j0)) + 1))

/-- These are all cells but those of the first row. -/
theorem pairCells_of_row (odd : ido % 2 = 1) {i k j : Nat} (inside : i < ido) (block : k < l1)
    (other : 0 < j) (row : j < 2 * h + 1) : pairCells ido l1 h (i + ido * (k + l1 * j)) := by
  obtain ⟨j0, low, side⟩ : ∃ j0, j0 < h ∧ (j = j0 + 1 ∨ j = 2 * h - j0) := by
    rcases Nat.lt_or_ge h j with high | low
    · exact ⟨2 * h - j, by omega, .inr (by omega)⟩
    · exact ⟨j - 1, by omega, .inl (by omega)⟩
  rcases Nat.eq_zero_or_pos i with rfl | later
  · rcases side with rfl | rfl
    · exact .inl ⟨j0, low, k, block, .inl rfl⟩
    · exact .inl ⟨j0, low, k, block, .inr rfl⟩
  · obtain ⟨t, below, rfl | rfl⟩ : ∃ t, t < (ido - 1) / 2 ∧ (i = 2 * t + 1 ∨ i = 2 * t + 1 + 1) :=
      ⟨(i - 1) / 2, by omega, by omega⟩
    · rcases side with rfl | rfl
      · exact .inr ⟨j0, low, k, block, t, below, .inl (.inl rfl)⟩
      · exact .inr ⟨j0, low, k, block, t, below, .inr (.inl rfl)⟩
    · rw [Nat.add_right_comm (2 * t + 1)]
      rcases side with rfl | rfl
      · exact .inr ⟨j0, low, k, block, t, below, .inl (.inr rfl)⟩
      · exact .inr ⟨j0, low, k, block, t, below, .inr (.inr rfl)⟩

/-- The cells of the rows of pairs are inside of the array. -/
theorem fills_pair {final : Nat → ℝ} {i k j : Nat} {v : Cmplx ℝ} (column : i + 1 < ido)
    (block : k < l1) (row : j < 2 * h + 1) (real : v.r = final (i + ido * (k + l1 * j)))
    (imag : v.i = final (i + 1 + ido * (k + l1 * j))) :
    Fills ((2 * h + 1) * (ido * l1)) final
      (fun q => q = i + ido * (k + l1 * j) ∨ q = i + ido * (k + l1 * j) + 1)
      fun xs => storePair xs (i + ido * (k + l1 * j)) v := by
  refine fills_storePair ?_ real ?_
  · rw [Nat.add_right_comm]
    exact row_lt_total column block row
  · rw [Nat.add_right_comm]
    exact imag

/-- The rows of sums and differences from the half-complex order. -/
theorem unhalveRows_eq (conjugate : Conjugate n X) (factored : n = l1 * (2 * h + 1) * ido)
    (positive : 0 < n) (odd : ido % 2 = 1) {ch : List ℝ} (size : ch.length = n) :
    unhalveRows ido (2 * h + 1) l1 (stageCells n l1 X) ch =
      some (grid (2 * h + 1) (ido * l1) (rowCells ido h (unhalved n l1 h ido X))) := by
  have inner := inner_pos factored positive
  have half : (2 * h + 1 + 1) / 2 - 1 = h := by omega
  have total : n = (2 * h + 1) * (ido * l1) := by
    rw [factored]
    ring
  have fills : Fills ((2 * h + 1) * (ido * l1))
      (rowsAt (ido * l1) (rowCells ido h (unhalved n l1 h ido X)))
      (fun p => (∃ k, k < l1 ∧ ∃ i, i < ido ∧ p = i + ido * (k + l1 * 0)) ∨
        pairCells ido l1 h p)
      (unhalveRows ido (2 * h + 1) l1 (stageCells n l1 X)) := by
    refine (fills_forLoop fun k block => fills_forLoop fun i inside => ?_).bind (Fills.bind ?_ ?_)
    · have cell := stageCells_row X factored positive inside (Nat.succ_pos (2 * h)) block
      simp only [cell, Option.bind_eq_bind, Option.bind_some]
      refine fills_storeCell (row_lt_total inside block (Nat.succ_pos (2 * h))) ?_
      rw [rowsAt_eq _ inside block, rowCells_half (Nat.zero_le h), halfCells, cell_mod inside,
        cell_div inside, Nat.mul_zero, Nat.add_zero]
      rfl
    · rw [half]
      refine fills_forLoop fun j0 low => fills_forLoop fun k block => ?_
      have flip : 2 * h + 1 - (j0 + 1) = 2 * h - j0 := by omega
      obtain ⟨real, imag⟩ := stageCells_ends X factored positive low block
      have mirrored := stageBins_zero conjugate factored positive low k
      simp only [real, imag, flip, Option.bind_eq_bind, Option.bind_some]
      refine (fills_storeCell (row_lt_total inner block (by omega)) ?_).bind
        (fills_storeCell (row_lt_total inner block (by omega)) ?_)
      · rw [rowsAt_eq _ inner block, rowCells_low inner low, unhalved_low low, mirrored, double_eq,
          Complex.add_re, Complex.conj_re]
      · rw [rowsAt_eq _ inner block, rowCells_high inner (by omega), unhalved_high low, mirrored,
          double_eq, Complex.sub_im, Complex.conj_im, sub_neg_eq_add]
    · rw [half]
      refine fills_forLoop fun j0 low => fills_forLoop fun k block => fills_forLoop fun t below => ?_
      have flip : 2 * h + 1 - (j0 + 1) = 2 * h - j0 := by omega
      have column : 2 * t + 1 < ido := by omega
      have column' : 2 * t + 1 + 1 < ido := by omega
      obtain ⟨even, odd⟩ :=
        stageCells_rest conjugate factored positive low block (by omega : 2 * t + 2 < ido)
      simp only [even, odd, flip, Option.bind_eq_bind, Option.bind_some]
      refine (fills_pair column' block (by omega) ?_ ?_).bind
        (fills_pair column' block (by omega) ?_ ?_)
      · rw [rowsAt_eq _ column block, rowCells_re column, unhalved_low low, Complex.add_re]
        rfl
      · rw [rowsAt_eq _ column' block, rowCells_im column', unhalved_low low, Complex.add_im]
        simp
      · rw [rowsAt_eq _ column block, rowCells_re column, unhalved_high low, Complex.sub_re]
        rfl
      · rw [rowsAt_eq _ column' block, rowCells_im column', unhalved_high low, Complex.sub_im]
        simp [sub_eq_add_neg]
  rw [grid_rowsAt _ rfl]
  refine fills.eq (fun p below => ?_) ch (size.trans total)
  obtain ⟨j, ik, row, column, rfl⟩ := exists_cell below
  rw [Nat.mul_comm ido l1] at column
  obtain ⟨k, i, block, inside, rfl⟩ := exists_cell column
  rw [← rowCell]
  rcases Nat.eq_zero_or_pos j with rfl | other
  · exact .inl ⟨k, block, i, inside, rfl⟩
  · exact .inr (pairCells_of_row odd inside block other row)

/-- The first row takes up the others of the same array. -/
theorem addOwnRows_eq {w : Nat} (F : Nat → Nat → ℝ) :
    forLoop h (fun j => addOwnRow w (j + 1)) (grid (2 * h + 1) w F) =
      some (grid (2 * h + 1) w (Function.update F 0 (rowSum h F 0 h))) := by
  have step : ∀ J, J < h → addOwnRow w (J + 1)
      (grid (2 * h + 1) w (Function.update F 0 (rowSum h F 0 J))) =
      some (grid (2 * h + 1) w (Function.update F 0 (rowSum h F 0 (J + 1)))) := by
    intro J few
    have row : addOwnRow w (J + 1) (grid (2 * h + 1) w (Function.update F 0 (rowSum h F 0 J))) =
        some (grid (2 * h + 1) w (Function.update (Function.update F 0 (rowSum h F 0 J)) 0
          (rowSum h F 0 (J + 1)))) := by
      refine forLoop_updateRow (Nat.succ_pos (2 * h)) fun ik H column here others => ?_
      rw [getElem?_grid (Nat.succ_pos (2 * h)) column,
        getElem?_grid (by omega : J + 1 < 2 * h + 1) column, here, others (J + 1) (by omega),
        Function.update_self, Function.update_of_ne (by omega), rowSum_succ, Nat.zero_mul,
        twiddle_zero, Complex.one_re, mul_one]
      rfl
    rw [row, Function.update_idem]
  have trace := forLoop_trace h (fun j => addOwnRow w (j + 1))
    (fun J => grid (2 * h + 1) w (Function.update F 0 (rowSum h F 0 J))) step
  have none : rowSum h F 0 0 = F 0 := by
    funext ik
    rw [rowSum, Finset.sum_range_zero, add_zero]
  rwa [none, Function.update_eq_self] at trace

/-- The rows of `cc` after the phase of combining. -/
noncomputable def backwardRows (n l1 h ido : Nat) (X : Nat → ℂ) : Nat → Nat → Nat → ℂ :=
  combinedParts false h (-Complex.I) (stageBins n l1 ido X)

theorem backwardRows_combined (n l1 : Nat) (X : Nat → ℂ) (ido r ik : Nat) :
    (if r ≤ h then rowSum h (rowCells ido h (unhalved n l1 h ido X)) r h ik
      else rowDiff h (rowCells ido h (unhalved n l1 h ido X)) (2 * h + 1 - r) h ik) =
      rowCells ido h (backwardRows n l1 h ido X) r ik := by
  refine combined_eq false (stageBins n l1 ido X) 1 (-Complex.I) ido r ik
    (fun j _ f k => rfl) (fun j _ _ f k => (one_mul _).symm) fun m => ?_
  rw [← mul_assoc, neg_mul, Complex.I_mul_I, neg_neg]

/-- The results of the butterflies. -/
noncomputable def spread (n l1 h ido : Nat) (X : Nat → ℂ) (r f k : Nat) : ℂ :=
  dft false (2 * h + 1) (stageBins n l1 ido X f k) r

/-- The two results of a pair of rows. -/
theorem spread_eq (n l1 ido : Nat) (X : Nat → ℂ) {j0 : Nat} (low : j0 < h) (f k : Nat) :
    spread n l1 h ido X (j0 + 1) f k = backwardRows n l1 h ido X (j0 + 1) f k +
        Complex.I * backwardRows n l1 h ido X (2 * h - j0) f k ∧
      spread n l1 h ido X (2 * h - j0) f k = backwardRows n l1 h ido X (j0 + 1) f k -
        Complex.I * backwardRows n l1 h ido X (2 * h - j0) f k := by
  obtain ⟨sum, difference⟩ := sumTo_add_diffTo false (stageBins n l1 ido X f k)
    (by omega : j0 + 1 ≤ 2 * h + 1)
  have flip : 2 * h + 1 - (j0 + 1) = 2 * h - j0 := by omega
  have back : 2 * h + 1 - (2 * h - j0) = j0 + 1 := by omega
  have unit : Complex.I * (-Complex.I * diffTo false h (stageBins n l1 ido X f k) (j0 + 1) h) =
      diffTo false h (stageBins n l1 ido X f k) (j0 + 1) h := by
    rw [← mul_assoc, mul_neg, Complex.I_mul_I, neg_neg, one_mul]
  rw [flip] at difference
  rw [backwardRows, combinedParts, if_pos (by omega : j0 + 1 ≤ h), combinedParts,
    if_neg (by omega), back, unit, sum, difference]
  exact ⟨rfl, rfl⟩

/-- Sums and differences of two rows; the first row is left alone. -/
theorem spreadRows_eq (n l1 : Nat) (X : Nat → ℂ) (odd : ido % 2 = 1) (G H : Nat → Nat → ℝ)
    (rows : ∀ r ik, 0 < r → G r ik = rowCells ido h (backwardRows n l1 h ido X) r ik)
    (first : H 0 = halfCells ido (spread n l1 h ido X) 0) :
    spreadRows ido (2 * h + 1) l1 (grid (2 * h + 1) (ido * l1) G)
        (grid (2 * h + 1) (ido * l1) H) =
      some (grid (2 * h + 1) (ido * l1) (halfCells ido (spread n l1 h ido X))) := by
  have half : (2 * h + 1 + 1) / 2 - 1 = h := by omega
  have inner : 0 < ido := by omega
  have fills : Fills ((2 * h + 1) * (ido * l1))
      (rowsAt (ido * l1) (halfCells ido (spread n l1 h ido X))) (pairCells ido l1 h)
      (spreadRows ido (2 * h + 1) l1 (grid (2 * h + 1) (ido * l1) G)) := by
    refine Fills.bind ?_ ?_
    · rw [half]
      refine fills_forLoop fun j0 low => fills_forLoop fun k block => ?_
      have flip : 2 * h + 1 - (j0 + 1) = 2 * h - j0 := by omega
      obtain ⟨sum, difference⟩ := spread_eq n l1 ido X low 0 k
      simp only [flip, getElem?_row inner block (by omega : j0 + 1 < 2 * h + 1),
        getElem?_row inner block (by omega : 2 * h - j0 < 2 * h + 1), rows (j0 + 1) _ (by omega),
        rows (2 * h - j0) _ (by omega), Option.bind_eq_bind, Option.bind_some]
      refine Fills.mono (Fills.bind (fills_storeCell (row_lt_total inner block (by omega)) ?_)
        (fills_storeCell (row_lt_total inner block (by omega)) ?_)) fun p own => own.symm
      · rw [rowsAt_eq _ inner block, halfCells_zero inner, rowCells_low inner low,
          rowCells_high inner (by omega), difference]
        simp
      · rw [rowsAt_eq _ inner block, halfCells_zero inner, rowCells_low inner low,
          rowCells_high inner (by omega), sum]
        simp [sub_eq_add_neg]
    · rw [half]
      refine fills_forLoop fun j0 low => fills_forLoop fun k block => fills_forLoop fun t below => ?_
      have flip : 2 * h + 1 - (j0 + 1) = 2 * h - j0 := by omega
      have column : 2 * t + 1 < ido := by omega
      have column' : 2 * t + 1 + 1 < ido := by omega
      have pair : ∀ j, 0 < j → j < 2 * h + 1 → readPair (grid (2 * h + 1) (ido * l1) G)
          (2 * t + 1 + ido * (k + l1 * j)) =
          some (ofComplex (backwardRows n l1 h ido X j (t + 1) k)) := by
        intro j other row
        refine readPair_eq ?_ ?_
        · rw [getElem?_row column block row, rows j _ other, rowCells_re column]
        · rw [Nat.add_right_comm, getElem?_row column' block row, rows j _ other,
            rowCells_im column']
      obtain ⟨sum, difference⟩ := spread_eq n l1 ido X low (t + 1) k
      simp only [flip, pair (j0 + 1) (by omega) (by omega), pair (2 * h - j0) (by omega) (by omega),
        Option.bind_eq_bind, Option.bind_some]
      refine (fills_pair column' block (by omega) ?_ ?_).bind
        (fills_pair column' block (by omega) ?_ ?_)
      · rw [rowsAt_eq _ column block, halfCells_re column, sum]
        simp [sub_eq_add_neg]
      · rw [rowsAt_eq _ column' block, halfCells_im column', sum]
        simp
      · rw [rowsAt_eq _ column block, halfCells_re column, difference]
        simp
      · rw [rowsAt_eq _ column' block, halfCells_im column', difference]
        simp
  rw [grid_rowsAt (halfCells ido (spread n l1 h ido X)) rfl]
  refine fills.eq_of_kept length_grid fun p below others => ?_
  obtain ⟨j, ik, row, column, rfl⟩ := exists_cell below
  rw [Nat.mul_comm ido l1] at column
  obtain ⟨k, i, block, inside, rfl⟩ := exists_cell column
  rw [← rowCell] at others ⊢
  rcases Nat.eq_zero_or_pos j with rfl | other
  · rw [getElem?_row inside block row, rowsAt_eq _ inside block, first]
  · exact absurd (pairCells_of_row odd inside block other row) others

/-- The rows of the next stage. -/
noncomputable def nextRows (n l1 h : Nat) (X : Nat → ℂ) (r f k : Nat) : ℂ :=
  stage false n (l1 * (2 * h + 1)) X f (k + l1 * r)

theorem nextRows_eq (X : Nat → ℂ) (factored : n = l1 * (2 * h + 1) * ido) (positive : 0 < n)
    (r f k : Nat) :
    nextRows n l1 h X r f k = spread n l1 h ido X r f k * twiddle false n (r * l1 * f) :=
  stage_butterfly X factored positive f k r

/-- The twiddle factors of the rows, in place. -/
theorem twistRows_eq (X : Nat → ℂ) (factored : n = l1 * (2 * h + 1) * ido) (positive : 0 < n)
    (odd : ido % 2 = 1) (twiddles : RealTwiddles n l1 (2 * h + 1) ido wa) :
    twistRows ido (2 * h + 1) l1 wa
        (grid (2 * h + 1) (ido * l1) (halfCells ido (spread n l1 h ido X))) =
      some (grid (2 * h + 1) (ido * l1) (halfCells ido (nextRows n l1 h X))) := by
  have inner : 0 < ido := by omega
  have next : ∀ t k j, 2 * t + 1 + ido * (k + l1 * j) + 1 = 2 * t + 1 + 1 + ido * (k + l1 * j) :=
    fun t k j => by omega
  have rewrites : Rewrites ((2 * h + 1) * (ido * l1))
      (rowsAt (ido * l1) (halfCells ido (spread n l1 h ido X)))
      (rowsAt (ido * l1) (halfCells ido (nextRows n l1 h X)))
      (fun p => ∃ j0, j0 < 2 * h + 1 - 1 ∧ ∃ k, k < l1 ∧ ∃ t, t < (ido - 1) / 2 ∧
        (p = 2 * t + 1 + ido * (k + l1 * (j0 + 1)) ∨
          p = 2 * t + 1 + ido * (k + l1 * (j0 + 1)) + 1))
      (twistRows ido (2 * h + 1) l1 wa) := by
    refine rewrites_forLoop (fun p => p / (ido * l1) - 1) ?_ fun j0 low => ?_
    · rintro j0 p low ⟨k, block, t, below, rfl | rfl⟩
      · rw [row_of (by omega) block, Nat.add_sub_cancel]
      · rw [next, row_of (by omega) block, Nat.add_sub_cancel]
    refine rewrites_forLoop (fun p => p % (ido * l1) / ido) ?_ fun k block => ?_
    · rintro k p block ⟨t, below, rfl | rfl⟩
      · rw [column_of (by omega) block, cell_div (by omega)]
      · rw [next, column_of (by omega) block, cell_div (by omega)]
    refine rewrites_forLoop (fun p => (p % ido - 1) / 2) ?_ fun t below => ?_
    · rintro t p below (rfl | rfl)
      · rw [cell_mod (by omega)]
        omega
      · rw [next, cell_mod (by omega)]
        omega
    have column : 2 * t + 1 < ido := by omega
    have column' : 2 * t + 1 + 1 < ido := by omega
    simp only [readPair_twiddle twiddles (Nat.succ_pos j0) (by omega) below, Option.bind_eq_bind,
      Option.bind_some]
    refine rewrites_readPair (z := spread n l1 h ido X (j0 + 1) (t + 1) k) (.inl rfl) (.inr rfl)
      ?_ ?_ (rewrites_storePair ?_ ?_ ?_)
    · rw [rowsAt_eq _ column block, halfCells_re column]
    · rw [next, rowsAt_eq _ column' block, halfCells_im column']
    · rw [next]
      exact row_lt_total column' block (by omega)
    · rw [rowsAt_eq _ column block, halfCells_re column, nextRows_eq X factored positive,
        Complex.mul_re]
      dsimp only [ofComplex]
      ring
    · rw [next, rowsAt_eq _ column' block, halfCells_im column', nextRows_eq X factored positive,
        Complex.mul_im]
      dsimp only [ofComplex]
      ring
  rw [grid_rowsAt _ rfl, grid_rowsAt _ rfl]
  refine rewrites.eq ?_ fun p below others => ?_
  · rintro p ⟨j0, low, k, block, t, below, rfl | rfl⟩
    · exact row_lt_total (by omega) block (by omega)
    · rw [next]
      exact row_lt_total (by omega) block (by omega)
  · obtain ⟨j, ik, row, column, rfl⟩ := exists_cell below
    rw [Nat.mul_comm ido l1] at column
    obtain ⟨k, i, block, inside, rfl⟩ := exists_cell column
    rw [← rowCell] at others ⊢
    rw [rowsAt_eq _ inside block, rowsAt_eq _ inside block]
    rcases Nat.eq_zero_or_pos i with rfl | later
    · rw [halfCells_zero inner, halfCells_zero inner, nextRows_eq X factored positive,
        Nat.mul_zero, twiddle_zero, mul_one]
    rcases Nat.eq_zero_or_pos j with rfl | other
    · rw [halfCells, halfCells]
      congr 1
      funext f
      rw [nextRows_eq X factored positive, Nat.zero_mul, Nat.zero_mul, twiddle_zero, mul_one]
    · obtain ⟨j0, rfl⟩ := Nat.exists_eq_succ_of_ne_zero other.ne'
      obtain ⟨t, below', rfl | rfl⟩ : ∃ t, t < (ido - 1) / 2 ∧ (i = 2 * t + 1 ∨ i = 2 * t + 1 + 1) :=
        ⟨(i - 1) / 2, by omega, by omega⟩
      · exact absurd ⟨j0, by omega, k, block, t, below', .inl rfl⟩ others
      · exact absurd ⟨j0, by omega, k, block, t, below', .inr (next t k (j0 + 1)).symm⟩ others

/-- The pass of a prime factor takes the spectra of a stage apart. -/
theorem radbg_eq (conjugate : Conjugate n X) (factored : n = l1 * (2 * h + 1) * ido)
    (positive : 0 < n) (odd : ido % 2 = 1) (prime : (2 * h + 1).Prime) (wide : 2 ≤ h)
    (twiddles : RealTwiddles n l1 (2 * h + 1) ido wa) (table : AngleTable (2 * h + 1) csarr)
    {ch : List ℝ} (size : ch.length = n) :
    ∃ cc', radbg ido (2 * h + 1) l1 (stageCells n l1 X) ch wa csarr =
        some (cc', stageCells n (l1 * (2 * h + 1)) X) ∧ cc'.length = n := by
  have total : n = (2 * h + 1) * (ido * l1) := by
    rw [factored]
    ring
  have half : (2 * h + 1 + 1) / 2 - 1 = h := by omega
  have unhalve := unhalveRows_eq conjugate factored positive odd size
  obtain ⟨G, rows⟩ := exists_grid ((length_stageCells (X := X) factored positive).trans total)
  have combined := combineAll_eq (w := ido * l1) (advance (2 * h + 1)) table
    (fun l other low => walks_advance prime other (by omega)) wide
    (rowCells ido h (unhalved n l1 h ido X)) G
  rw [← rows] at combined
  have last : stageCells n (l1 * (2 * h + 1)) X =
      grid (2 * h + 1) (ido * l1) (halfCells ido (nextRows n l1 h X)) := by
    obtain ⟨-, -, -, narrow⟩ := widths factored positive
    rw [stageCells, narrow, grid_rows]
    rfl
  have spread := spreadRows_eq n l1 X odd
    (fun r ik => if r = 0 then G 0 ik
      else if r ≤ h then rowSum h (rowCells ido h (unhalved n l1 h ido X)) r h ik
      else rowDiff h (rowCells ido h (unhalved n l1 h ido X)) (2 * h + 1 - r) h ik)
    (Function.update (rowCells ido h (unhalved n l1 h ido X)) 0
      (rowSum h (rowCells ido h (unhalved n l1 h ido X)) 0 h))
    (fun r ik other => by rw [if_neg other.ne', backwardRows_combined])
    (by
      rw [Function.update_self]
      funext ik
      have first := backwardRows_combined (h := h) n l1 X ido 0 ik
      rw [if_pos (Nat.zero_le h)] at first
      rw [first, rowCells_half (Nat.zero_le h), halfCells, halfCells]
      congr 1
      funext f
      rw [backwardRows, combinedParts, if_pos (Nat.zero_le h), sumTo_zero]
      rfl)
  have twist := twistRows_eq X factored positive odd twiddles
  refine ⟨grid (2 * h + 1) (ido * l1) fun r ik =>
      if r = 0 then G 0 ik
      else if r ≤ h then rowSum h (rowCells ido h (unhalved n l1 h ido X)) r h ik
      else rowDiff h (rowCells ido h (unhalved n l1 h ido X)) (2 * h + 1 - r) h ik, ?_,
    by rw [length_grid, total]⟩
  simp only [radbg, unhalve, half, combined, addOwnRows_eq, spread, twist, last,
    Option.bind_eq_bind, Option.bind_some]

end Backward

end DspDispatch.Pocketfft
