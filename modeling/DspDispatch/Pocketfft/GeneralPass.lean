import DspDispatch.Pocketfft.Passes

/-!
# The pass of pocketfft for other prime factors (`cfftp::passg`)

The butterfly of a larger prime `ip` is made in phases over whole rows of `ido * l1` values.
Sums and differences of the pairs of rows go from `cc` to `ch`; back in `cc` each pair of
rows `l` and `ip - l` collects the sums times cosines and the differences times sines, two
terms at a time; last, sum and difference of the two rows are multiplied with the twiddle
factors. The result ends in `cc`.

`iwal` runs through the multiples of `l` modulo `ip`. The reduction only subtracts what
exceeds `ip`, which is enough because no multiple reaches `ip` itself: `ip` is prime
(`advance_eq`).
-/

namespace DspDispatch.Pocketfft

open Kit

section Model

variable {K : Type} [Field K] (fwd : Bool) (ido ip l1 : Nat)

/-- The array `wal`. -/
def makeWal (csarr : List (Cmplx K)) : Option (List (Cmplx K)) := do
  let wal ← storeCell (List.replicate ip 0) 0 ⟨1, 0⟩
  forLoop (ip - 1) (fun i wal => do
    let c ← csarr[i + 1]?
    storeCell wal (i + 1) ⟨c.r, if fwd then -c.i else c.i⟩) wal

/-- The rows `CH(., ., j)`: the first one copied, the others in pairs. -/
def pairRows (cc ch : List (Cmplx K)) : Option (List (Cmplx K)) := do
  let ch ← forLoop l1 (fun k => forLoop ido fun i ch => do
    let a ← cc[i + ido * (ip * k)]?
    storeCell ch (i + ido * k) a) ch
  forLoop ((ip + 1) / 2 - 1) (fun j0 => forLoop l1 fun k => forLoop ido fun i ch => do
    let j := j0 + 1
    let jc := ip - j
    let a ← cc[i + ido * (j + ip * k)]?
    let b ← cc[i + ido * (jc + ip * k)]?
    let ch ← storeCell ch (i + ido * (k + l1 * j)) (a + b)
    storeCell ch (i + ido * (k + l1 * jc)) (a - b)) ch

/-- The row `CX(., ., 0)`: the sum of the rows of sums. -/
def sumRow (ch cc : List (Cmplx K)) : Option (List (Cmplx K)) :=
  forLoop l1 (fun k => forLoop ido fun i cc => do
    let tmp ← ch[i + ido * k]?
    let tmp ← forLoop ((ip + 1) / 2 - 1) (fun j tmp =>
      (ch[i + ido * (k + l1 * (j + 1))]?).map (tmp + ·)) tmp
    storeCell cc (i + ido * k) tmp) cc

/-- `iwal += l; if (iwal > ip) iwal -= ip;`. -/
def advance (l iwal : Nat) : Nat := if ip < iwal + l then iwal + l - ip else iwal + l

/-- The terms of the rows `0`, `1` and `2`. -/
def firstTerms (wal ch : List (Cmplx K)) (l ik : Nat) : Option (Cmplx K × Cmplx K) := do
  let idl1 := ido * l1
  let h0 ← ch[ik + idl1 * 0]?
  let h1 ← ch[ik + idl1 * 1]?
  let h2 ← ch[ik + idl1 * 2]?
  let g1 ← ch[ik + idl1 * (ip - 1)]?
  let g2 ← ch[ik + idl1 * (ip - 2)]?
  let w1 ← wal[l]?
  let w2 ← wal[2 * l]?
  some (⟨h0.r + w1.r * h1.r + w2.r * h2.r, h0.i + w1.r * h1.i + w2.r * h2.i⟩,
    ⟨-w1.i * g1.i - w2.i * g2.i, w1.i * g1.r + w2.i * g2.r⟩)

/-- Two more terms, of the rows `j` and `j + 1` and those across from them. -/
def twoTerms (ch : List (Cmplx K)) (j jc : Nat) (xwal xwal2 : Cmplx K) (ik : Nat)
    (a b : Cmplx K) : Option (Cmplx K × Cmplx K) := do
  let idl1 := ido * l1
  let h ← ch[ik + idl1 * j]?
  let h' ← ch[ik + idl1 * (j + 1)]?
  let g ← ch[ik + idl1 * jc]?
  let g' ← ch[ik + idl1 * (jc - 1)]?
  some (⟨a.r + (h.r * xwal.r + h'.r * xwal2.r), a.i + (h.i * xwal.r + h'.i * xwal2.r)⟩,
    ⟨b.r - (g.i * xwal.i + g'.i * xwal2.i), b.i + (g.r * xwal.i + g'.r * xwal2.i)⟩)

/-- One more term. -/
def oneTerm (ch : List (Cmplx K)) (j jc : Nat) (xwal : Cmplx K) (ik : Nat) (a b : Cmplx K) :
    Option (Cmplx K × Cmplx K) := do
  let idl1 := ido * l1
  let h ← ch[ik + idl1 * j]?
  let g ← ch[ik + idl1 * jc]?
  some (⟨a.r + h.r * xwal.r, a.i + h.i * xwal.r⟩, ⟨b.r - g.i * xwal.i, b.i + g.r * xwal.i⟩)

/-- The body of the loop over `j` that takes two terms at a time; the state is `cc` and
`iwal`. -/
def twoTermsBody (wal ch : List (Cmplx K)) (l j : Nat) (s : List (Cmplx K) × Nat) :
    Option (List (Cmplx K) × Nat) := do
  let idl1 := ido * l1
  let iwal := advance ip l s.2
  let xwal ← wal[iwal]?
  let iwal := advance ip l iwal
  let xwal2 ← wal[iwal]?
  let cc ← forLoop idl1
    (updatePair idl1 l (ip - l) (twoTerms ido l1 ch j (ip - j) xwal xwal2)) s.1
  some (cc, iwal)

/-- The body of the loop over the terms that are left. -/
def oneTermBody (wal ch : List (Cmplx K)) (l j : Nat) (s : List (Cmplx K) × Nat) :
    Option (List (Cmplx K) × Nat) := do
  let idl1 := ido * l1
  let iwal := advance ip l s.2
  let xwal ← wal[iwal]?
  let cc ← forLoop idl1 (updatePair idl1 l (ip - l) (oneTerm ido l1 ch j (ip - j) xwal)) s.1
  some (cc, iwal)

/-- The rows `l` and `ip - l` before the last phase: `j` goes up from three in steps of two
while `j < ipph - 1`, and then in steps of one. -/
def combineRows (wal ch : List (Cmplx K)) (l : Nat) (cc : List (Cmplx K)) :
    Option (List (Cmplx K)) := do
  let ipph := (ip + 1) / 2
  let idl1 := ido * l1
  let cc ← forLoop idl1
    (updatePair idl1 l (ip - l) fun ik _ _ => firstTerms ido ip l1 wal ch l ik) cc
  let s ← forLoop ((ipph - 3) / 2) (fun t => twoTermsBody ido ip l1 wal ch l (3 + 2 * t))
    (cc, 2 * l)
  let j := 3 + 2 * ((ipph - 3) / 2)
  let s ← forLoop (ipph - j) (fun t => oneTermBody ido ip l1 wal ch l (j + t)) s
  some s.1

/-- What the last phase makes of two values of the rows `j` and `jc`. -/
def shuffled (wa : List (Cmplx K)) (j jc i : Nat) (t1 t2 : Cmplx K) :
    Option (Cmplx K × Cmplx K) :=
  let x := pm t1 t2
  if i = 0 then some x
  else do
    let x1 ← twiddled fwd wa ido i j x.1
    let x2 ← twiddled fwd wa ido i jc x.2
    some (x1, x2)

/-- The last phase for the rows `j` and `jc`. -/
def shuffleRows (wa : List (Cmplx K)) (j jc : Nat) (cc : List (Cmplx K)) :
    Option (List (Cmplx K)) :=
  forLoop l1 (fun k => forLoop ido fun i =>
    updatePair (ido * l1) j jc (fun _ => shuffled fwd ido wa j jc i) (i + ido * k)) cc

/-- `passg`: the arrays `cc` and `ch` afterwards. -/
def passg (cc ch wa csarr : List (Cmplx K)) : Option (List (Cmplx K) × List (Cmplx K)) := do
  let wal ← makeWal fwd ip csarr
  let ch ← pairRows ido ip l1 cc ch
  let cc ← sumRow ido ip l1 ch cc
  let cc ← forLoop ((ip + 1) / 2 - 1) (fun l => combineRows ido ip l1 wal ch (l + 1)) cc
  let cc ← forLoop ((ip + 1) / 2 - 1) (fun j =>
    shuffleRows fwd ido l1 wa (j + 1) (ip - (j + 1))) cc
  some (cc, ch)

end Model

/-! ## The walk through the table -/

section Walk

variable {ip l J : Nat}

/-- The index after `J` terms is that of `l * J`; it never reaches `ip`. -/
theorem advance_eq (prime : ip.Prime) (positive : 0 < l) (below : l < ip) (few : J + 1 < ip) :
    advance ip l (l * J % ip) = l * (J + 1) % ip := by
  have part := Nat.mod_lt (l * J) prime.pos
  have step : l * (J + 1) % ip = (l * J % ip + l) % ip := by
    rw [Nat.mul_succ, Nat.mod_add_mod]
  have apart : l * J % ip + l ≠ ip := by
    intro equal
    have whole : l * (J + 1) % ip = 0 := by rw [step, equal, Nat.mod_self]
    rcases (prime.dvd_mul).mp (Nat.dvd_of_mod_eq_zero whole) with left | right
    · exact absurd (Nat.le_of_dvd positive left) (by omega)
    · exact absurd (Nat.le_of_dvd (Nat.succ_pos J) right) (by omega)
  rw [advance, step]
  generalize l * J % ip = x at part apart ⊢
  split
  · rw [Nat.mod_eq_sub_mod (by omega), Nat.mod_eq_of_lt (by omega)]
  · rw [Nat.mod_eq_of_lt (by omega)]

end Walk

/-! ## The table of the butterfly -/

section Table

variable {fwd : Bool} {ip : Nat} {csarr : List (Cmplx ℝ)}

/-- `wal` has the twiddle factors of length `ip` in the direction of the transform. -/
theorem makeWal_eq (positive : 0 < ip)
    (table : ∀ j, j < ip → csarr[j]? = some (ofComplex (twiddle false ip j))) :
    makeWal fwd ip csarr = some (tabulate ip fun j => ofComplex (twiddle fwd ip j)) := by
  have turned : ∀ j, (⟨(ofComplex (twiddle false ip j)).r,
      if fwd then -(ofComplex (twiddle false ip j)).i else (ofComplex (twiddle false ip j)).i⟩ :
      Cmplx ℝ) = ofComplex (twiddle fwd ip j) := by
    intro j
    cases fwd with
    | false => rfl
    | true =>
      have conj := conj_twiddle false ip j
      rw [Bool.not_false] at conj
      rw [← conj]
      ext
      · simp
      · simp
  have fills : Fills ip (fun j => ofComplex (twiddle fwd ip j))
      (fun p => p = 0 ∨ ∃ i, i < ip - 1 ∧ p = i + 1)
      fun wal => (storeCell wal 0 ⟨1, 0⟩).bind (forLoop (ip - 1) fun i wal => do
        let c ← csarr[i + 1]?
        storeCell wal (i + 1) ⟨c.r, if fwd then -c.i else c.i⟩) := by
    refine Fills.bind (fills_storeCell positive ?_) (fills_forLoop fun i below => ?_)
    · rw [twiddle_zero]
      rfl
    · simp only [table (i + 1) (by omega), Option.bind_eq_bind, Option.bind_some, turned]
      exact fills_storeCell (by omega) rfl
  refine fills.eq ?_ _ List.length_replicate
  intro p below
  rcases p with _ | p
  · exact .inl rfl
  · exact .inr ⟨p, by omega, rfl⟩

end Table

/-! ## Rows -/

/-- The rows of sums and differences of the values `x`. -/
noncomputable def pairValue (h : Nat) (x : Nat → ℂ) (j : Nat) : ℂ :=
  if j = 0 then x 0
  else if j ≤ h then x j + x (2 * h + 1 - j)
  else x (2 * h + 1 - j) - x j

/-- What the first `J` terms make of the row `l`. -/
noncomputable def sumTo (fwd : Bool) (h : Nat) (x : Nat → ℂ) (l J : Nat) : ℂ :=
  pairValue h x 0 + ∑ j ∈ Finset.range J,
    pairValue h x (j + 1) * ((twiddle fwd (2 * h + 1) (l * (j + 1))).re : ℂ)

/-- What they make of the row `ip - l`. -/
noncomputable def diffTo (fwd : Bool) (h : Nat) (x : Nat → ℂ) (l J : Nat) : ℂ :=
  Complex.I * ∑ j ∈ Finset.range J,
    pairValue h x (2 * h - j) * ((twiddle fwd (2 * h + 1) (l * (j + 1))).im : ℂ)

section Values

variable {fwd : Bool} {h l : Nat} {x : Nat → ℂ}

theorem sumTo_succ (J : Nat) :
    sumTo fwd h x l (J + 1) = sumTo fwd h x l J +
      pairValue h x (J + 1) * ((twiddle fwd (2 * h + 1) (l * (J + 1))).re : ℂ) := by
  rw [sumTo, Finset.sum_range_succ, ← add_assoc]
  rfl

theorem diffTo_succ (J : Nat) :
    diffTo fwd h x l (J + 1) = diffTo fwd h x l J + Complex.I *
      (pairValue h x (2 * h - J) * ((twiddle fwd (2 * h + 1) (l * (J + 1))).im : ℂ)) := by
  rw [diffTo, Finset.sum_range_succ, mul_add]
  rfl

theorem pairValue_low {j : Nat} (below : j < h) :
    pairValue h x (j + 1) = x (j + 1) + x (2 * h - j) := by
  rw [pairValue, if_neg (Nat.succ_ne_zero j), if_pos (by omega)]
  congr 2
  omega

theorem pairValue_high {j : Nat} (below : j < h) :
    pairValue h x (2 * h - j) = x (j + 1) - x (2 * h - j) := by
  rw [pairValue, if_neg (by omega), if_neg (by omega)]
  congr 2
  omega

/-- All terms together: the two bins. -/
theorem sumTo_add_diffTo (fwd : Bool) (x : Nat → ℂ) (le : l ≤ 2 * h + 1) :
    sumTo fwd h x l h + diffTo fwd h x l h = dft fwd (2 * h + 1) x l ∧
      sumTo fwd h x l h - diffTo fwd h x l h = dft fwd (2 * h + 1) x (2 * h + 1 - l) := by
  have low : sumTo fwd h x l h = x 0 + ∑ j ∈ Finset.range h, (x (j + 1) + x (2 * h - j)) *
      ((twiddle fwd (2 * h + 1) ((j + 1) * l)).re : ℂ) := by
    refine congrArg _ (Finset.sum_congr rfl fun j member => ?_)
    rw [pairValue_low (Finset.mem_range.mp member), Nat.mul_comm l]
  have high : diffTo fwd h x l h = Complex.I * ∑ j ∈ Finset.range h, (x (j + 1) - x (2 * h - j)) *
      ((twiddle fwd (2 * h + 1) ((j + 1) * l)).im : ℂ) := by
    refine congrArg _ (Finset.sum_congr rfl fun j member => ?_)
    rw [pairValue_high (Finset.mem_range.mp member), Nat.mul_comm l]
  rw [low, high]
  exact ⟨(dft_pairs x).symm, (dft_pairs_sub x le).symm⟩

end Values

/-- The values that one butterfly takes, by the column of its results. -/
noncomputable def columnValues (fwd : Bool) (n l1 ido : Nat) (z : Nat → ℂ) (ik j : Nat) : ℂ :=
  stage fwd n l1 z (ik % ido + ido * j) (ik / ido)

section Phases

variable {fwd : Bool} {n l1 h ido : Nat} {z : Nat → ℂ}

variable (fwd z) in
theorem stageArray_cell (factored : n = l1 * (2 * h + 1) * ido) (positive : 0 < n) {i j k : Nat}
    (column : i < ido) (below : j < 2 * h + 1) (row : k < l1) :
    (stageArray fwd n l1 z)[i + ido * (j + (2 * h + 1) * k)]? =
      some (ofComplex (columnValues fwd n l1 ido z (i + ido * k) j)) := by
  obtain ⟨-, -, wide, -⟩ := widths factored positive
  have place : i + ido * (j + (2 * h + 1) * k) = i + ido * j + n / l1 * k := by
    rw [wide]
    ring
  have inside : i + ido * j < n / l1 := by
    rw [wide, Nat.mul_comm ido (2 * h + 1)]
    exact cell_lt below column
  rw [place, stageArray, getElem?_grid row inside, columnValues, cell_mod column, cell_div column]

theorem column_lt {i k : Nat} (inside : i < ido) (row : k < l1) : i + ido * k < ido * l1 := by
  rw [Nat.mul_comm ido l1]
  exact cell_lt row inside

/-- The cell of row `j` and column `i + ido * k`. -/
theorem rowCell (i k j : Nat) : i + ido * (k + l1 * j) = i + ido * k + ido * l1 * j := by ring

/-- The phase of sums and differences. -/
theorem pairRows_eq (factored : n = l1 * (2 * h + 1) * ido) (positive : 0 < n)
    {ch : List (Cmplx ℝ)} (size : ch.length = n) :
    pairRows ido (2 * h + 1) l1 (stageArray fwd n l1 z) ch =
      some (grid (2 * h + 1) (ido * l1) fun j ik =>
        ofComplex (pairValue h (columnValues fwd n l1 ido z ik) j)) := by
  have total : n = (2 * h + 1) * (ido * l1) := by
    rw [factored]
    ring
  have half : (2 * h + 1 + 1) / 2 - 1 = h := by omega
  have fills : Fills n
      (fun p => ofComplex (pairValue h (columnValues fwd n l1 ido z (p % (ido * l1)))
        (p / (ido * l1))))
      (fun p => (∃ k, k < l1 ∧ ∃ i, i < ido ∧ p = i + ido * k) ∨
        ∃ j0, j0 < (2 * h + 1 + 1) / 2 - 1 ∧ ∃ k, k < l1 ∧ ∃ i, i < ido ∧
          (p = i + ido * (k + l1 * (j0 + 1)) ∨ p = i + ido * (k + l1 * (2 * h + 1 - (j0 + 1)))))
      (pairRows ido (2 * h + 1) l1 (stageArray fwd n l1 z)) := by
    refine Fills.bind (fills_forLoop fun k row => fills_forLoop fun i inside => ?_)
      (fills_forLoop fun j0 below => fills_forLoop fun k row => fills_forLoop fun i inside => ?_)
    · have first := stageArray_cell fwd z factored positive inside
        (Nat.succ_pos (2 * h)) row
      rw [Nat.zero_add] at first
      have column := column_lt inside row
      simp only [first, Option.bind_eq_bind, Option.bind_some]
      refine fills_storeCell ?_ ?_
      · rw [total]
        exact column.trans_le (Nat.le_mul_of_pos_left _ (Nat.succ_pos (2 * h)))
      · rw [Nat.mod_eq_of_lt column, Nat.div_eq_of_lt column, pairValue, if_pos rfl]
    · have column := column_lt inside row
      have low := stageArray_cell fwd z factored positive inside
        (by omega : j0 + 1 < 2 * h + 1) row
      have high := stageArray_cell fwd z factored positive inside
        (by omega : 2 * h + 1 - (j0 + 1) < 2 * h + 1) row
      have flip : 2 * h + 1 - (j0 + 1) = 2 * h - j0 := by omega
      simp only [low, high, Option.bind_eq_bind, Option.bind_some, ofComplex_add, ofComplex_sub]
      refine Fills.bind (fills_storeCell ?_ ?_) (fills_storeCell ?_ ?_)
      · rw [rowCell, total]
        exact cell_lt (by omega) column
      · rw [rowCell, cell_mod column, cell_div column, pairValue_low (by omega), flip]
      · rw [rowCell, total]
        exact cell_lt (by omega) column
      · rw [rowCell, cell_mod column, cell_div column, flip, pairValue_high (by omega)]
  rw [fills.eq ?_ ch size, grid, ← total]
  intro p below
  rw [total] at below
  obtain ⟨j, ik, bin, column, rfl⟩ := exists_cell below
  rw [Nat.mul_comm ido l1] at column
  obtain ⟨k, i, row, inside, rfl⟩ := exists_cell column
  rcases Nat.eq_zero_or_pos j with rfl | other
  · exact .inl ⟨k, row, i, inside, by rw [Nat.mul_zero, Nat.add_zero]⟩
  · rcases Nat.lt_or_ge h j with high | low
    · refine .inr ⟨2 * h - j, by omega, k, row, i, inside, .inr ?_⟩
      have flip : 2 * h + 1 - (2 * h - j + 1) = j := by omega
      rw [flip, rowCell]
    · refine .inr ⟨j - 1, by omega, k, row, i, inside, .inl ?_⟩
      rw [Nat.sub_add_cancel other, rowCell]

/-- The array `ch` after the phase of sums and differences. -/
noncomputable def pairGrid (fwd : Bool) (n l1 h ido : Nat) (z : Nat → ℂ) : List (Cmplx ℝ) :=
  grid (2 * h + 1) (ido * l1) fun j ik =>
    ofComplex (pairValue h (columnValues fwd n l1 ido z ik) j)

variable (fwd n h z) in
theorem pairGrid_cell {ik j : Nat} (column : ik < ido * l1) (below : j < 2 * h + 1) :
    (pairGrid fwd n l1 h ido z)[ik + ido * l1 * j]? =
      some (ofComplex (pairValue h (columnValues fwd n l1 ido z ik) j)) :=
  getElem?_grid below column

/-- The sums of all values. -/
theorem sumRow_eq {cc : List (Cmplx ℝ)} (size : cc.length = (2 * h + 1) * (ido * l1)) :
    ∃ F, sumRow ido (2 * h + 1) l1 (pairGrid fwd n l1 h ido z) cc =
        some (grid (2 * h + 1) (ido * l1) F) ∧
      ∀ ik, ik < ido * l1 →
        F 0 ik = ofComplex (dft fwd (2 * h + 1) (columnValues fwd n l1 ido z ik) 0) := by
  have half : (2 * h + 1 + 1) / 2 - 1 = h := by omega
  have total : ∀ ik, ik < ido * l1 →
      forLoop h (fun j tmp => ((pairGrid fwd n l1 h ido z)[ik + ido * l1 * (j + 1)]?).map (tmp + ·))
        (ofComplex (pairValue h (columnValues fwd n l1 ido z ik) 0)) =
      some (ofComplex (dft fwd (2 * h + 1) (columnValues fwd n l1 ido z ik) 0)) := by
    intro ik column
    have trace := forLoop_trace h
      (fun j tmp => ((pairGrid fwd n l1 h ido z)[ik + ido * l1 * (j + 1)]?).map (tmp + ·))
      (fun J => ofComplex (pairValue h (columnValues fwd n l1 ido z ik) 0 +
        ∑ j ∈ Finset.range J, pairValue h (columnValues fwd n l1 ido z ik) (j + 1)))
      (by
        intro J below
        rw [pairGrid_cell fwd n h z column (by omega), Option.map_some, ofComplex_add, add_assoc,
          ← Finset.sum_range_succ])
    rw [Finset.sum_range_zero, add_zero] at trace
    rw [trace, dft_zero, sum_range_pairs, pairValue, if_pos rfl]
    refine congrArg some (congrArg ofComplex (congrArg _ (Finset.sum_congr rfl fun j member => ?_)))
    rw [pairValue_low (Finset.mem_range.mp member)]
  have fills : Fills ((2 * h + 1) * (ido * l1))
      (fun p => ofComplex (dft fwd (2 * h + 1) (columnValues fwd n l1 ido z p) 0))
      (fun p => ∃ k, k < l1 ∧ ∃ i, i < ido ∧ p = i + ido * k)
      (sumRow ido (2 * h + 1) l1 (pairGrid fwd n l1 h ido z)) := by
    refine fills_forLoop fun k row => fills_forLoop fun i inside => ?_
    have column := column_lt inside row
    have first := pairGrid_cell fwd n h z column (Nat.succ_pos (2 * h))
    rw [Nat.mul_zero, Nat.add_zero] at first
    simp only [first, rowCell, half, total _ column, Option.bind_eq_bind, Option.bind_some]
    exact fills_storeCell (column.trans_le (Nat.le_mul_of_pos_left _ (Nat.succ_pos (2 * h)))) rfl
  obtain ⟨cc', run, settled⟩ := fills (fun _ => False) cc (settled_none size)
  obtain ⟨F, rfl⟩ := exists_grid settled.length_eq
  refine ⟨F, run, fun ik column => ?_⟩
  have cell := settled.cell ik (.inr (by
    rw [Nat.mul_comm ido l1] at column
    obtain ⟨k, i, row, inside, same⟩ := exists_cell column
    exact ⟨k, row, i, inside, same⟩))
  have place := getElem?_grid (F := F) (Nat.succ_pos (2 * h)) column
  rw [Nat.mul_zero, Nat.add_zero, cell] at place
  exact (Option.some.inj place).symm

/-! ## The pairs of rows -/

section Terms

variable {l J ik : Nat}

/-- `wal` at the index the walk has reached. -/
theorem wal_cell (e : Nat) :
    (tabulate (2 * h + 1) fun j => ofComplex (twiddle fwd (2 * h + 1) j))[e % (2 * h + 1)]? =
      some (ofComplex (twiddle fwd (2 * h + 1) e)) := by
  rw [getElem?_tabulate (Nat.mod_lt e (Nat.succ_pos (2 * h))), twiddle_mod (Nat.succ_pos (2 * h))]

/-- A term of a row of sums. -/
theorem add_cosine (a v w : ℂ) :
    (⟨(ofComplex a).r + (ofComplex v).r * (ofComplex w).r,
      (ofComplex a).i + (ofComplex v).i * (ofComplex w).r⟩ : Cmplx ℝ) =
      ofComplex (a + v * (w.re : ℂ)) := by
  ext
  · simp
  · simp

/-- A term of a row of differences. -/
theorem add_sine (b v w : ℂ) :
    (⟨(ofComplex b).r - (ofComplex v).i * (ofComplex w).i,
      (ofComplex b).i + (ofComplex v).r * (ofComplex w).i⟩ : Cmplx ℝ) =
      ofComplex (b + Complex.I * (v * (w.im : ℂ))) := by
  ext
  · simp
    ring
  · simp

theorem oneTerm_eq (column : ik < ido * l1) (few : J < h) :
    oneTerm ido l1 (pairGrid fwd n l1 h ido z) (J + 1) (2 * h + 1 - (J + 1))
        (ofComplex (twiddle fwd (2 * h + 1) (l * (J + 1)))) ik
        (ofComplex (sumTo fwd h (columnValues fwd n l1 ido z ik) l J))
        (ofComplex (diffTo fwd h (columnValues fwd n l1 ido z ik) l J)) =
      some (ofComplex (sumTo fwd h (columnValues fwd n l1 ido z ik) l (J + 1)),
        ofComplex (diffTo fwd h (columnValues fwd n l1 ido z ik) l (J + 1))) := by
  have low := pairGrid_cell fwd n h z column (by omega : J + 1 < 2 * h + 1)
  have high := pairGrid_cell fwd n h z column (by omega : 2 * h + 1 - (J + 1) < 2 * h + 1)
  have flip : 2 * h + 1 - (J + 1) = 2 * h - J := by omega
  simp only [oneTerm, low, high, Option.bind_eq_bind, Option.bind_some]
  rw [add_cosine, add_sine, sumTo_succ, diffTo_succ, flip]

theorem twoTerms_eq (column : ik < ido * l1) (few : J + 1 < h) :
    twoTerms ido l1 (pairGrid fwd n l1 h ido z) (J + 1) (2 * h + 1 - (J + 1))
        (ofComplex (twiddle fwd (2 * h + 1) (l * (J + 1))))
        (ofComplex (twiddle fwd (2 * h + 1) (l * (J + 2)))) ik
        (ofComplex (sumTo fwd h (columnValues fwd n l1 ido z ik) l J))
        (ofComplex (diffTo fwd h (columnValues fwd n l1 ido z ik) l J)) =
      some (ofComplex (sumTo fwd h (columnValues fwd n l1 ido z ik) l (J + 2)),
        ofComplex (diffTo fwd h (columnValues fwd n l1 ido z ik) l (J + 2))) := by
  have cell := fun j below => pairGrid_cell fwd n h z (j := j) column below
  have flip : 2 * h + 1 - (J + 1) = 2 * h - J := by omega
  have next : 2 * h - J - 1 = 2 * h - (J + 1) := by omega
  simp only [twoTerms, flip, next, cell (J + 1) (by omega), cell (J + 1 + 1) (by omega),
    cell (2 * h - J) (by omega), cell (2 * h - (J + 1)) (by omega), Option.bind_eq_bind,
    Option.bind_some]
  rw [sumTo_succ, sumTo_succ, ← add_cosine, ← add_cosine, diffTo_succ, diffTo_succ, ← add_sine,
    ← add_sine]
  refine congrArg some (Prod.ext (Cmplx.ext ?_ ?_) (Cmplx.ext ?_ ?_))
  · exact (add_assoc _ _ _).symm
  · exact (add_assoc _ _ _).symm
  · exact (sub_sub _ _ _).symm
  · exact (add_assoc _ _ _).symm

theorem firstTerms_eq (wide : 2 ≤ h) (column : ik < ido * l1) (low : l ≤ h) :
    firstTerms ido (2 * h + 1) l1
        (tabulate (2 * h + 1) fun j => ofComplex (twiddle fwd (2 * h + 1) j))
        (pairGrid fwd n l1 h ido z) l ik =
      some (ofComplex (sumTo fwd h (columnValues fwd n l1 ido z ik) l 2),
        ofComplex (diffTo fwd h (columnValues fwd n l1 ido z ik) l 2)) := by
  have w1 := getElem?_tabulate (f := fun j => ofComplex (twiddle fwd (2 * h + 1) j))
    (by omega : l < 2 * h + 1)
  have w2 := getElem?_tabulate (f := fun j => ofComplex (twiddle fwd (2 * h + 1) j))
    (by omega : 2 * l < 2 * h + 1)
  have cell := fun j below => pairGrid_cell fwd n h z (j := j) column below
  simp only [firstTerms, w1, w2, cell 0 (by omega), cell 1 (by omega), cell 2 (by omega),
    cell (2 * h + 1 - 1) (by omega), cell (2 * h + 1 - 2) (by omega), Option.bind_eq_bind,
    Option.bind_some]
  have start : ofComplex (diffTo fwd h (columnValues fwd n l1 ido z ik) l 0) = ⟨0, 0⟩ := by
    rw [diffTo, Finset.sum_range_zero, mul_zero]
    rfl
  have none : sumTo fwd h (columnValues fwd n l1 ido z ik) l 0 =
      pairValue h (columnValues fwd n l1 ido z ik) 0 := by
    rw [sumTo, Finset.sum_range_zero, add_zero]
  rw [sumTo_succ, sumTo_succ, ← add_cosine, ← add_cosine, none, diffTo_succ, diffTo_succ,
    ← add_sine, ← add_sine, start]
  have once : l * (0 + 1) = l := Nat.mul_one l
  have twice : l * (1 + 1) = 2 * l := Nat.mul_comm l 2
  have last : 2 * h + 1 - 1 = 2 * h - 0 := rfl
  have before : 2 * h + 1 - 2 = 2 * h - 1 := by omega
  rw [once, twice, last, before]
  refine congrArg some (Prod.ext (Cmplx.ext ?_ ?_) (Cmplx.ext ?_ ?_))
  all_goals
    dsimp only
    ring

end Terms

/-- The array `cc` with the first `J` terms in the rows `l` and `ip - l`. -/
noncomputable def termGrid (fwd : Bool) (n l1 h ido : Nat) (z : Nat → ℂ)
    (F : Nat → Nat → Cmplx ℝ) (l J : Nat) : List (Cmplx ℝ) :=
  grid (2 * h + 1) (ido * l1) (Function.update
    (Function.update F l fun ik => ofComplex (sumTo fwd h (columnValues fwd n l1 ido z ik) l J))
    (2 * h + 1 - l) fun ik => ofComplex (diffTo fwd h (columnValues fwd n l1 ido z ik) l J))

section Combine

variable {F : Nat → Nat → Cmplx ℝ} {l J J' : Nat}

/-- A loop along the two rows that adds terms. -/
theorem termGrid_next {u : Nat → Cmplx ℝ → Cmplx ℝ → Option (Cmplx ℝ × Cmplx ℝ)}
    (positive : 0 < l) (low : l ≤ h)
    (values : ∀ ik, ik < ido * l1 →
      u ik (ofComplex (sumTo fwd h (columnValues fwd n l1 ido z ik) l J))
          (ofComplex (diffTo fwd h (columnValues fwd n l1 ido z ik) l J)) =
        some (ofComplex (sumTo fwd h (columnValues fwd n l1 ido z ik) l J'),
          ofComplex (diffTo fwd h (columnValues fwd n l1 ido z ik) l J'))) :
    forLoop (ido * l1) (updatePair (ido * l1) l (2 * h + 1 - l) u) (termGrid fwd n l1 h ido z F l J) =
      some (termGrid fwd n l1 h ido z F l J') := by
  have apart : l ≠ 2 * h + 1 - l := by omega
  rw [termGrid, forLoop_updatePair (by omega) (by omega) apart]
  · rw [Function.update_comm apart, Function.update_idem, Function.update_comm (Ne.symm apart),
      Function.update_idem]
    rfl
  · intro ik column
    rw [Function.update_self, Function.update_of_ne apart, Function.update_self]
    exact values ik column

theorem twoTermsBody_eq (prime : (2 * h + 1).Prime) (positive : 0 < l) (low : l ≤ h)
    (few : J + 1 < h) :
    twoTermsBody ido (2 * h + 1) l1
        (tabulate (2 * h + 1) fun j => ofComplex (twiddle fwd (2 * h + 1) j))
        (pairGrid fwd n l1 h ido z) l (J + 1)
        (termGrid fwd n l1 h ido z F l J, l * J % (2 * h + 1)) =
      some (termGrid fwd n l1 h ido z F l (J + 2), l * (J + 2) % (2 * h + 1)) := by
  have once := advance_eq (J := J) prime positive (by omega) (by omega)
  have twice := advance_eq (J := J + 1) prime positive (by omega) (by omega)
  simp only [twoTermsBody, once, twice, wal_cell, Option.bind_eq_bind, Option.bind_some]
  rw [termGrid_next positive low fun ik column => twoTerms_eq column few, Option.bind_some]

theorem oneTermBody_eq (prime : (2 * h + 1).Prime) (positive : 0 < l) (low : l ≤ h)
    (few : J < h) :
    oneTermBody ido (2 * h + 1) l1
        (tabulate (2 * h + 1) fun j => ofComplex (twiddle fwd (2 * h + 1) j))
        (pairGrid fwd n l1 h ido z) l (J + 1)
        (termGrid fwd n l1 h ido z F l J, l * J % (2 * h + 1)) =
      some (termGrid fwd n l1 h ido z F l (J + 1), l * (J + 1) % (2 * h + 1)) := by
  have once := advance_eq (J := J) prime positive (by omega) (by omega)
  simp only [oneTermBody, once, wal_cell, Option.bind_eq_bind, Option.bind_some]
  rw [termGrid_next positive low fun ik column => oneTerm_eq column few, Option.bind_some]

/-- Both loops together add all terms. -/
theorem combineRows_eq (prime : (2 * h + 1).Prime) (wide : 2 ≤ h) (positive : 0 < l)
    (low : l ≤ h) :
    combineRows ido (2 * h + 1) l1
        (tabulate (2 * h + 1) fun j => ofComplex (twiddle fwd (2 * h + 1) j))
        (pairGrid fwd n l1 h ido z) l (grid (2 * h + 1) (ido * l1) F) =
      some (termGrid fwd n l1 h ido z F l h) := by
  have half : (2 * h + 1 + 1) / 2 = h + 1 := by omega
  have first : forLoop (ido * l1) (updatePair (ido * l1) l (2 * h + 1 - l) fun ik _ _ =>
      firstTerms ido (2 * h + 1) l1
        (tabulate (2 * h + 1) fun j => ofComplex (twiddle fwd (2 * h + 1) j))
        (pairGrid fwd n l1 h ido z) l ik) (grid (2 * h + 1) (ido * l1) F) =
      some (termGrid fwd n l1 h ido z F l 2) :=
    forLoop_updatePair (by omega) (by omega) (by omega)
      fun ik column => firstTerms_eq wide column low
  have start : 2 * l = l * 2 % (2 * h + 1) := by
    rw [Nat.mul_comm, Nat.mod_eq_of_lt (by omega)]
  have pairs := forLoop_trace ((h + 1 - 3) / 2)
    (fun t => twoTermsBody ido (2 * h + 1) l1
      (tabulate (2 * h + 1) fun j => ofComplex (twiddle fwd (2 * h + 1) j))
      (pairGrid fwd n l1 h ido z) l (3 + 2 * t))
    (fun t => (termGrid fwd n l1 h ido z F l (2 + 2 * t), l * (2 + 2 * t) % (2 * h + 1)))
    (by
      intro t below
      have index : 3 + 2 * t = 2 + 2 * t + 1 := by omega
      rw [index]
      exact twoTermsBody_eq prime positive low (by omega))
  -- the number of terms after the loop of pairs
  generalize count : 2 + 2 * ((h + 1 - 3) / 2) = J at pairs
  have singles := forLoop_trace (h - J)
    (fun t => oneTermBody ido (2 * h + 1) l1
      (tabulate (2 * h + 1) fun j => ofComplex (twiddle fwd (2 * h + 1) j))
      (pairGrid fwd n l1 h ido z) l (3 + 2 * ((h + 1 - 3) / 2) + t))
    (fun t => (termGrid fwd n l1 h ido z F l (J + t), l * (J + t) % (2 * h + 1)))
    (by
      intro t below
      have index : 3 + 2 * ((h + 1 - 3) / 2) + t = J + t + 1 := by omega
      rw [index]
      exact oneTermBody_eq prime positive low (by omega))
  have all : J + (h - J) = h := by omega
  have left : h + 1 - (3 + 2 * ((h + 1 - 3) / 2)) = h - J := by omega
  rw [Nat.mul_zero, Nat.add_zero 2, ← start] at pairs
  rw [all, Nat.add_zero J] at singles
  simp only [combineRows, half, first, pairs, left, singles, Option.bind_eq_bind,
    Option.bind_some]

end Combine

/-! ## The last phase -/

/-- The array of a stage in rows of the pass. -/
theorem stageArray_rows (factored : n = l1 * (2 * h + 1) * ido) (positive : 0 < n) :
    stageArray fwd n (l1 * (2 * h + 1)) z = grid (2 * h + 1) (ido * l1) fun j ik =>
      ofComplex (stage fwd n (l1 * (2 * h + 1)) z (ik % ido) (ik / ido + l1 * j)) := by
  obtain ⟨-, -, -, narrow⟩ := widths factored positive
  refine eq_grid ?_ ?_
  · rw [stageArray, length_grid, narrow]
    ring
  · intro j ik row column
    rw [Nat.mul_comm ido l1] at column
    obtain ⟨k, i, block, inside, rfl⟩ := exists_cell column
    have place : i + ido * k + ido * l1 * j = i + n / (l1 * (2 * h + 1)) * (k + l1 * j) := by
      rw [narrow]
      ring
    have range : k + l1 * j < l1 * (2 * h + 1) := by
      rw [Nat.mul_comm l1 (2 * h + 1)]
      exact cell_lt row block
    rw [place, stageArray, getElem?_grid range (narrow.symm ▸ inside), cell_mod inside,
      cell_div inside]

section Shuffle

variable {wa : List (Cmplx ℝ)} {F : Nat → Nat → Cmplx ℝ} {j : Nat}

/-- The value in row `j` of the next stage. -/
noncomputable def nextValue (fwd : Bool) (n l1 h ido : Nat) (z : Nat → ℂ) (j ik : Nat) : Cmplx ℝ :=
  ofComplex (stage fwd n (l1 * (2 * h + 1)) z (ik % ido) (ik / ido + l1 * j))

theorem nextValue_eq (factored : n = l1 * (2 * h + 1) * ido) (positive : 0 < n) (m ik : Nat) :
    nextValue fwd n l1 h ido z m ik =
      ofComplex (dft fwd (2 * h + 1) (columnValues fwd n l1 ido z ik) m *
        twiddle fwd n (m * l1 * (ik % ido))) := by
  rw [nextValue, stage_next factored positive]
  rfl

theorem shuffleRows_eq (factored : n = l1 * (2 * h + 1) * ido) (positive : 0 < n)
    (twiddles : TwiddlesOf n l1 (2 * h + 1) ido wa) (other : 0 < j) (low : j ≤ h)
    (sums : ∀ ik, ik < ido * l1 →
      F j ik = ofComplex (sumTo fwd h (columnValues fwd n l1 ido z ik) j h))
    (differences : ∀ ik, ik < ido * l1 →
      F (2 * h + 1 - j) ik = ofComplex (diffTo fwd h (columnValues fwd n l1 ido z ik) j h)) :
    shuffleRows fwd ido l1 wa j (2 * h + 1 - j) (grid (2 * h + 1) (ido * l1) F) =
      some (grid (2 * h + 1) (ido * l1) (Function.update
        (Function.update F j (nextValue fwd n l1 h ido z j))
        (2 * h + 1 - j) (nextValue fwd n l1 h ido z (2 * h + 1 - j)))) := by
  -- the column of a cell tells the index `i` of the loop nest
  have columns : shuffleRows fwd ido l1 wa j (2 * h + 1 - j) (grid (2 * h + 1) (ido * l1) F) =
      forLoop (ido * l1) (updatePair (ido * l1) j (2 * h + 1 - j) fun ik =>
        shuffled fwd ido wa j (2 * h + 1 - j) (ik % ido)) (grid (2 * h + 1) (ido * l1) F) := by
    rw [Nat.mul_comm ido l1, ← forLoop_nest, shuffleRows, Nat.mul_comm ido l1]
    refine forLoop_congr (fun k _ => funext fun cc => forLoop_congr (fun i inside => ?_) cc) _
    funext xs
    simp only [updatePair, cell_mod inside]
  rw [columns, forLoop_updatePair (by omega) (by omega) (by omega)]
  intro ik column
  have ido_pos : 0 < ido := Nat.pos_of_ne_zero (by rintro rfl; simp at column)
  obtain ⟨first, second⟩ := sumTo_add_diffTo fwd (columnValues fwd n l1 ido z ik)
    (by omega : j ≤ 2 * h + 1)
  have inside := Nat.mod_lt ik ido_pos
  rw [sums ik column, differences ik column, shuffled, pm, ofComplex_add, ofComplex_sub, first,
    second, nextValue_eq factored positive, nextValue_eq factored positive]
  dsimp only
  split
  · rename_i plain
    rw [plain, Nat.mul_zero, Nat.mul_zero, twiddle_zero, mul_one, mul_one]
  · rw [twiddled_eq twiddles inside (by omega) (by omega) other,
      twiddled_eq twiddles inside (by omega) (by omega) (by omega)]
    rfl

/-- The rows after all pairs have their terms. -/
noncomputable def combinedRows (fwd : Bool) (n l1 h ido : Nat) (z : Nat → ℂ) (total : Nat → Cmplx ℝ)
    (r ik : Nat) : Cmplx ℝ :=
  if r = 0 then total ik
  else if r ≤ h then ofComplex (sumTo fwd h (columnValues fwd n l1 ido z ik) r h)
  else ofComplex (diffTo fwd h (columnValues fwd n l1 ido z ik) (2 * h + 1 - r) h)

theorem combineAll (prime : (2 * h + 1).Prime) (wide : 2 ≤ h) (F : Nat → Nat → Cmplx ℝ) :
    forLoop h (fun l => combineRows ido (2 * h + 1) l1
        (tabulate (2 * h + 1) fun j => ofComplex (twiddle fwd (2 * h + 1) j))
        (pairGrid fwd n l1 h ido z) (l + 1)) (grid (2 * h + 1) (ido * l1) F) =
      some (grid (2 * h + 1) (ido * l1) (combinedRows fwd n l1 h ido z (F 0))) := by
  rw [forLoop_pairs (combineRows ido (2 * h + 1) l1
    (tabulate (2 * h + 1) fun j => ofComplex (twiddle fwd (2 * h + 1) j))
    (pairGrid fwd n l1 h ido z)) (fun _ _ _ => True)
    (fun l F other low _ => combineRows_eq prime wide other low) fun _ _ _ => trivial]
  refine congrArg some (grid_congr fun r ik _ _ => ?_)
  rw [combinedRows]
  split
  · rfl
  · split
    · rfl
    · rfl

theorem shuffleAll (factored : n = l1 * (2 * h + 1) * ido) (positive : 0 < n)
    (twiddles : TwiddlesOf n l1 (2 * h + 1) ido wa) (total : Nat → Cmplx ℝ) :
    forLoop h (fun j => shuffleRows fwd ido l1 wa (j + 1) (2 * h + 1 - (j + 1)))
        (grid (2 * h + 1) (ido * l1) (combinedRows fwd n l1 h ido z total)) =
      some (grid (2 * h + 1) (ido * l1) fun r ik =>
        if r = 0 then total ik else nextValue fwd n l1 h ido z r ik) := by
  rw [forLoop_pairs (fun j => shuffleRows fwd ido l1 wa j (2 * h + 1 - j))
    (fun j a b => (∀ ik, ik < ido * l1 →
        a ik = ofComplex (sumTo fwd h (columnValues fwd n l1 ido z ik) j h)) ∧
      ∀ ik, ik < ido * l1 →
        b ik = ofComplex (diffTo fwd h (columnValues fwd n l1 ido z ik) j h))
    fun j F other low rows => shuffleRows_eq factored positive twiddles other low rows.1 rows.2]
  · refine congrArg some (grid_congr fun r ik row _ => ?_)
    split
    · rw [combinedRows, if_pos rfl]
    · split
      · rfl
      · have flip : 2 * h + 1 - (2 * h + 1 - r) = r := by omega
        rw [flip]
  · intro j other low
    have flip : 2 * h + 1 - (2 * h + 1 - j) = j := by omega
    refine ⟨fun ik _ => ?_, fun ik _ => ?_⟩
    · rw [combinedRows, if_neg other.ne', if_pos low]
    · rw [combinedRows, if_neg (by omega), if_neg (by omega), flip]

/-- The pass of a prime factor takes the values of a stage to those of the next. -/
theorem passg_eq (factored : n = l1 * (2 * h + 1) * ido) (positive : 0 < n)
    (prime : (2 * h + 1).Prime) (wide : 2 ≤ h) (twiddles : TwiddlesOf n l1 (2 * h + 1) ido wa)
    {csarr : List (Cmplx ℝ)} (table : ∀ j, j < 2 * h + 1 →
      csarr[j]? = some (ofComplex (twiddle false (2 * h + 1) j)))
    {ch : List (Cmplx ℝ)} (size : ch.length = n) :
    ∃ ch', passg fwd ido (2 * h + 1) l1 (stageArray fwd n l1 z) ch wa csarr =
        some (stageArray fwd n (l1 * (2 * h + 1)) z, ch') ∧ ch'.length = n := by
  have total : n = (2 * h + 1) * (ido * l1) := by
    rw [factored]
    ring
  have half : (2 * h + 1 + 1) / 2 - 1 = h := by omega
  have wal : makeWal fwd (2 * h + 1) csarr =
      some (tabulate (2 * h + 1) fun j => ofComplex (twiddle fwd (2 * h + 1) j)) :=
    makeWal_eq (Nat.succ_pos (2 * h)) table
  have pairs : pairRows ido (2 * h + 1) l1 (stageArray fwd n l1 z) ch =
      some (pairGrid fwd n l1 h ido z) := pairRows_eq factored positive size
  have whole : (stageArray fwd n l1 z).length = (2 * h + 1) * (ido * l1) :=
    (length_stageArray factored positive).trans total
  obtain ⟨F, summed, bin⟩ : ∃ F, sumRow ido (2 * h + 1) l1 (pairGrid fwd n l1 h ido z)
        (stageArray fwd n l1 z) = some (grid (2 * h + 1) (ido * l1) F) ∧
      ∀ ik, ik < ido * l1 →
        F 0 ik = ofComplex (dft fwd (2 * h + 1) (columnValues fwd n l1 ido z ik) 0) :=
    sumRow_eq whole
  refine ⟨pairGrid fwd n l1 h ido z, ?_, by rw [pairGrid, length_grid, total]⟩
  simp only [passg, wal, pairs, summed, half, combineAll prime wide,
    shuffleAll factored positive twiddles, Option.bind_eq_bind, Option.bind_some]
  rw [stageArray_rows factored positive]
  refine congrArg (fun cc => some (cc, _)) (grid_congr fun r ik _ column => ?_)
  split
  · rename_i first
    have none : 0 * l1 * (ik % ido) = 0 := by rw [Nat.zero_mul, Nat.zero_mul]
    rw [first, bin ik column, ← nextValue, nextValue_eq factored positive, none, twiddle_zero,
      mul_one]
  · rfl

end Shuffle

end Phases

end DspDispatch.Pocketfft
