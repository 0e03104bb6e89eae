import DspDispatch.Pocketfft.Butterflies

/-!
# Passes of pocketfft with hard-coded factors (`cfftp`, `pass2` to `pass11`)

A pass goes from the array `cc` to the array `ch`. Along both arrays the values of a stage
are kept in rows: before the pass of the factor `ip` there are `l1` rows of `ip * ido`
values, after it `l1 * ip` rows of `ido` values. One butterfly takes the values `CC(i, j, k)`,
`j < ip`, and gives the values `CH(i, k, m)`, `m < ip`; but for `i = 0` they are multiplied
with the twiddle factors `WA(m - 1, i)`.

`pass_eq` says that a pass with a correct butterfly and correct twiddle factors takes the
values of one stage to those of the next.
-/

namespace DspDispatch.Pocketfft

open Kit

section Model

variable {K : Type} [Field K]

/-- The values `CC(i, j, k)` of one butterfly; `none` outside the array. -/
def readRow (cc : List (Cmplx K)) (ido ip i k : Nat) : Option (Nat → Cmplx K) :=
  if ∀ j < ip, i + ido * (j + ip * k) < cc.length then
    some fun j => cc.getD (i + ido * (j + ip * k)) 0
  else none

/-- `special_mul<fwd>(v, WA(m - 1, i), ...)`. -/
def twiddled (fwd : Bool) (wa : List (Cmplx K)) (ido i m : Nat) (v : Cmplx K) :
    Option (Cmplx K) :=
  (wa[i - 1 + (m - 1) * (ido - 1)]?).map (Cmplx.specialMul fwd v)

/-- The value for `CH(i, k, m)` from the results of a body. -/
def output (fwd : Bool) (wa : List (Cmplx K)) (ido i m : Nat) (results : List (Cmplx K)) :
    Option (Cmplx K) :=
  results[m]?.bind fun v => if i = 0 ∨ m = 0 then some v else twiddled fwd wa ido i m v

/-- The loops of a pass with the factor `ip`, around a body `first` for `i = 0` and a body
`rest` for the others. -/
def pass (fwd : Bool) (ip : Nat) (first rest : (Nat → Cmplx K) → List (Cmplx K))
    (ido l1 : Nat) (cc ch wa : List (Cmplx K)) : Option (List (Cmplx K)) :=
  forLoop l1 (fun k =>
    forLoop ido fun i ch => do
      let c ← readRow cc ido ip i k
      forLoop ip (fun m ch => do
        let v ← output fwd wa ido i m (if i = 0 then first c else rest c)
        storeCell ch (i + ido * (k + l1 * m)) v) ch) ch

variable (t : Trig K) (fwd : Bool)

/-- `pass2`. -/
def pass2 := pass fwd 2 (butterfly2 (K := K)) butterfly2

/-- `pass3`. -/
def pass3 := pass fwd 3 (butterfly3 t fwd) (butterfly3 t fwd)

/-- `pass4`. -/
def pass4 := pass fwd 4 (butterfly4 (K := K) fwd) (butterfly4 fwd)

/-- `pass5`. -/
def pass5 := pass fwd 5 (butterfly5 t fwd) (butterfly5 t fwd)

/-- `pass7`. -/
def pass7 := pass fwd 7 (butterfly7 t fwd) (butterfly7 t fwd)

/-- `pass8`. -/
def pass8 := pass fwd 8 (butterfly8 t fwd) (twiddled8 t fwd)

/-- `pass11`. -/
def pass11 := pass fwd 11 (butterfly11 t fwd) (butterfly11 t fwd)

end Model

/-! ## Stages -/

/-- The array of a stage of a transform of length `n`. -/
noncomputable def stageArray (fwd : Bool) (n l : Nat) (z : Nat → ℂ) : List (Cmplx ℝ) :=
  grid l (n / l) fun k i => ofComplex (stage fwd n l z i k)

/-- The twiddle factors `WA(x, i)` of the pass of the factor `ip`. -/
def TwiddlesOf (n l1 ip ido : Nat) (wa : List (Cmplx ℝ)) : Prop :=
  ∀ x i, x + 1 < ip → i + 1 < ido →
    wa[i + x * (ido - 1)]? = some (ofComplex (twiddle false n ((x + 1) * l1 * (i + 1))))

section Pass

variable {fwd : Bool} {n l1 ip ido : Nat} {z : Nat → ℂ} {wa : List (Cmplx ℝ)}

theorem widths (factored : n = l1 * ip * ido) (positive : 0 < n) :
    0 < l1 ∧ 0 < ip ∧ n / l1 = ido * ip ∧ n / (l1 * ip) = ido := by
  subst factored
  have left := Nat.pos_of_mul_pos_right positive
  have hl := Nat.pos_of_mul_pos_right left
  have hp := Nat.pos_of_mul_pos_left left
  refine ⟨hl, hp, ?_, Nat.mul_div_cancel_left ido left⟩
  rw [Nat.mul_assoc, Nat.mul_div_cancel_left _ hl, Nat.mul_comm]

theorem length_stageArray (factored : n = l1 * ip * ido) (positive : 0 < n) :
    (stageArray fwd n l1 z).length = n := by
  obtain ⟨-, -, wide, -⟩ := widths factored positive
  rw [stageArray, length_grid, wide, factored]
  ring

variable (fwd z) in
theorem readRow_stage (factored : n = l1 * ip * ido) (positive : 0 < n) {i k : Nat}
    (column : i < ido) (row : k < l1) :
    ∃ c, readRow (stageArray fwd n l1 z) ido ip i k = some c ∧
      ∀ j, j < ip → c j = ofComplex (stage fwd n l1 z (i + ido * j) k) := by
  obtain ⟨-, -, wide, -⟩ := widths factored positive
  have cell : ∀ j, j < ip → (stageArray fwd n l1 z)[i + ido * (j + ip * k)]? =
      some (ofComplex (stage fwd n l1 z (i + ido * j) k)) := by
    intro j below
    have place : i + ido * (j + ip * k) = i + ido * j + n / l1 * k := by
      rw [wide]
      ring
    have inside : i + ido * j < n / l1 := by
      rw [wide, Nat.mul_comm ido ip]
      exact cell_lt below column
    rw [place, stageArray, getElem?_grid row inside]
  refine ⟨_, if_pos fun j below => ?_, fun j below => ?_⟩
  · obtain ⟨inside, -⟩ := List.getElem?_eq_some_iff.mp (cell j below)
    exact inside
  · rw [List.getD_eq_getElem?_getD, cell j below, Option.getD_some]

theorem twiddled_eq (twiddles : TwiddlesOf n l1 ip ido wa) {i m : Nat} (column : i < ido)
    (inner : 0 < i) (bin : m < ip) (other : 0 < m) (v : ℂ) :
    twiddled fwd wa ido i m (ofComplex v) =
      some (ofComplex (v * twiddle fwd n (m * l1 * i))) := by
  obtain ⟨x, rfl⟩ := Nat.exists_eq_succ_of_ne_zero other.ne'
  obtain ⟨y, rfl⟩ := Nat.exists_eq_succ_of_ne_zero inner.ne'
  have entry := twiddles x y bin column
  rw [twiddled, Nat.succ_sub_one, Nat.succ_sub_one, entry, Option.map_some, specialMul_twiddle]

/-- What a pass leaves in a cell, from a butterfly and a multiplication. -/
theorem stage_next (factored : n = l1 * ip * ido) (positive : 0 < n) (i k m : Nat) :
    stage fwd n (l1 * ip) z i (k + l1 * m) =
      dft fwd ip (fun j => stage fwd n l1 z (i + ido * j) k) m * twiddle fwd n (m * l1 * i) := by
  rw [← stage_mul factored positive i k m]
  rfl

/-- The value of one bin of one butterfly, multiplied. -/
theorem output_eq {first rest : (Nat → Cmplx ℝ) → List (Cmplx ℝ)} {c : Nat → Cmplx ℝ} {w : Nat → ℂ}
    (firstRadix : Radix fwd ip first) (restRadix : Radix fwd ip rest)
    (values : ∀ j, j < ip → c j = ofComplex (w j)) (twiddles : TwiddlesOf n l1 ip ido wa)
    {i m : Nat} (column : i < ido) (bin : m < ip) :
    output fwd wa ido i m (if i = 0 then first c else rest c) =
      some (ofComplex (dft fwd ip w m * twiddle fwd n (m * l1 * i))) := by
  have same : (if i = 0 then first c else rest c) =
      tabulate ip fun m => ofComplex (dft fwd ip w m) := by
    split
    · exact firstRadix c w values
    · exact restRadix c w values
  rw [output, same, getElem?_tabulate bin, Option.bind_some]
  split
  · rename_i plain
    have none : m * l1 * i = 0 := by
      rcases plain with rfl | rfl
      · exact Nat.mul_zero _
      · rw [Nat.zero_mul, Nat.zero_mul]
    rw [none, twiddle_zero, mul_one]
  · exact twiddled_eq twiddles column (by omega) bin (by omega) _

/-- A pass of a factor takes the values of a stage to those of the next. -/
theorem pass_eq {first rest : (Nat → Cmplx ℝ) → List (Cmplx ℝ)} (factored : n = l1 * ip * ido)
    (positive : 0 < n) (firstRadix : Radix fwd ip first) (restRadix : Radix fwd ip rest)
    (twiddles : TwiddlesOf n l1 ip ido wa) {ch : List (Cmplx ℝ)} (size : ch.length = n) :
    pass fwd ip first rest ido l1 (stageArray fwd n l1 z) ch wa =
      some (stageArray fwd n (l1 * ip) z) := by
  obtain ⟨hl, hp, -, narrow⟩ := widths factored positive
  have fills : Fills n
      (fun p => ofComplex (stage fwd n (l1 * ip) z (p % ido) (p / ido)))
      (fun p => ∃ k, k < l1 ∧ ∃ i, i < ido ∧ ∃ m, m < ip ∧ p = i + ido * (k + l1 * m))
      (pass fwd ip first rest ido l1 (stageArray fwd n l1 z) · wa) := by
    refine fills_forLoop fun k row => fills_forLoop fun i column => ?_
    obtain ⟨c, read, values⟩ := readRow_stage fwd z factored positive column row
    simp only [read, Option.bind_eq_bind, Option.bind_some]
    refine fills_forLoop fun m bin => ?_
    simp only [output_eq firstRadix restRadix values twiddles column bin, Option.bind_some]
    refine fills_storeCell ?_ ?_
    · rw [factored, Nat.mul_comm l1 ip]
      exact cell_lt (cell_lt bin row) column
    · rw [cell_div column, cell_mod column, stage_next factored positive]
  rw [fills.eq ?_ ch size, stageArray, narrow, grid, ← factored]
  intro p below
  rw [factored, Nat.mul_comm l1 ip] at below
  obtain ⟨r, i, row, column, rfl⟩ := exists_cell below
  obtain ⟨m, k, bin, block, rfl⟩ := exists_cell row
  exact ⟨k, block, i, column, m, bin, rfl⟩

end Pass

end DspDispatch.Pocketfft
