import DspDispatch.Kit.HalfComplex
import DspDispatch.Kit.OwnCells
import DspDispatch.Pocketfft.GeneralPass

/-!
# Combining rows in the real passes of pocketfft (`radfg`, `radbg`, loop 127)

Both passes make the rows `l` and `ip - l` of one array from the rows of the other: the row
`l` from cosines times the rows up to the middle, the row `ip - l` from sines times the
others (`combineAll_eq`). Three loops take four terms, two terms and one term at a time.

The rows hold complex values of which each column has one part (`part`). Taking the part is
linear, so the combined rows hold the parts of the sums (`rowCells_sumTo`,
`rowCells_diffTo`).
-/

namespace DspDispatch.Pocketfft

open Kit

section Model

variable {K : Type} [Field K]

/-- The next `count` cosines and sines; `next` takes `iang` to the following index. -/
def angles (next : Nat → Nat) (csarr : List K) : Nat → Nat → Option (List (K × K) × Nat)
  | 0, iang => some ([], iang)
  | count + 1, iang => do
    let iang := next iang
    let ar ← csarr[2 * iang]?
    let ai ← csarr[2 * iang + 1]?
    let (rest, iang) ← angles next csarr count iang
    some ((ar, ai) :: rest, iang)

/-- `ar1*C2(ik,j)+ar2*C2(ik,j+1)+...` and `ai1*C2(ik,jc)+ai2*C2(ik,jc-1)+...`. -/
def rowTerms (idl1 : Nat) (xs : List K) (ik : Nat) : List (K × K) → Nat → Nat → Option (K × K)
  | [], _, _ => some (0, 0)
  | (ar, ai) :: ws, j, jc => do
    let a ← xs[ik + idl1 * j]?
    let b ← xs[ik + idl1 * jc]?
    let (low, high) ← rowTerms idl1 xs ik ws (j + 1) (jc - 1)
    some (ar * a + low, ai * b + high)

variable (next : Nat → Nat → Nat) (idl1 ip : Nat) (csarr xs : List K) (l : Nat)

/-- `C2(ik,0)+csarr[2*l]*C2(ik,1)+csarr[4*l]*C2(ik,2)` and
`csarr[2*l+1]*C2(ik,ip-1)+csarr[4*l+1]*C2(ik,ip-2)`. -/
def firstRows (ik : Nat) : Option (K × K) := do
  let c0 ← xs[ik + idl1 * 0]?
  let c1 ← xs[ik + idl1 * 1]?
  let c2 ← xs[ik + idl1 * 2]?
  let d1 ← xs[ik + idl1 * (ip - 1)]?
  let d2 ← xs[ik + idl1 * (ip - 2)]?
  let ar1 ← csarr[2 * l]?
  let ar2 ← csarr[4 * l]?
  let ai1 ← csarr[2 * l + 1]?
  let ai2 ← csarr[4 * l + 1]?
  some (c0 + ar1 * c1 + ar2 * c2, ai1 * d1 + ai2 * d2)

/-- The body of the loops 126: `count` terms from row `j` on. The state is the array and
`iang`. -/
def combineTerms (count j : Nat) (s : List K × Nat) : Option (List K × Nat) := do
  let (ws, iang) ← angles (next l) csarr count s.2
  let ys ← forLoop idl1 (updatePair idl1 l (ip - l) fun ik a b => do
    let (low, high) ← rowTerms idl1 xs ik ws j (ip - j)
    some (a + low, b + high)) s.1
  some (ys, iang)

/-- The rows `l` and `ip - l`: four terms at a time while `j < ipph - 3`, two while
`j < ipph - 1`, and then one. -/
def combine (ys : List K) : Option (List K) := do
  let ipph := (ip + 1) / 2
  let ys ← forLoop idl1
    (updatePair idl1 l (ip - l) fun ik _ _ => firstRows idl1 ip csarr xs l ik) ys
  let s ← forLoop ((ipph - 3) / 4)
    (fun t => combineTerms next idl1 ip csarr xs l 4 (3 + 4 * t)) (ys, 2 * l)
  let j := 3 + 4 * ((ipph - 3) / 4)
  let s ← forLoop ((ipph - j) / 2)
    (fun t => combineTerms next idl1 ip csarr xs l 2 (j + 2 * t)) s
  let j := j + 2 * ((ipph - j) / 2)
  let s ← forLoop (ipph - j) (fun t => combineTerms next idl1 ip csarr xs l 1 (j + t)) s
  some s.1

end Model

/-! ## Sums along the rows -/

/-- The table of cosines and sines. -/
def AngleTable (ip : Nat) (csarr : List ℝ) : Prop :=
  ∀ m, m < ip → csarr[2 * m]? = some (twiddle false ip m).re ∧
    csarr[2 * m + 1]? = some (twiddle false ip m).im

/-- `next` takes the index of each multiple of `l` to that of the following one. -/
def WalksMultiples (ip l : Nat) (next : Nat → Nat) : Prop :=
  ∀ J, J + 1 < ip → next (l * J % ip) = l * (J + 1) % ip

section Sums

variable {h l J count w ik : Nat} {F G : Nat → Nat → ℝ} {csarr : List ℝ} {next : Nat → Nat}

/-- The first `J` terms of the row `l`. -/
noncomputable def rowSum (h : Nat) (F : Nat → Nat → ℝ) (l J ik : Nat) : ℝ :=
  F 0 ik + ∑ j ∈ Finset.range J, F (j + 1) ik * (twiddle false (2 * h + 1) (l * (j + 1))).re

/-- The first `J` terms of the row `ip - l`. -/
noncomputable def rowDiff (h : Nat) (F : Nat → Nat → ℝ) (l J ik : Nat) : ℝ :=
  ∑ j ∈ Finset.range J, F (2 * h - j) ik * (twiddle false (2 * h + 1) (l * (j + 1))).im

theorem rowSum_succ : rowSum h F l (J + 1) ik =
    rowSum h F l J ik + F (J + 1) ik * (twiddle false (2 * h + 1) (l * (J + 1))).re := by
  rw [rowSum, Finset.sum_range_succ, ← add_assoc]
  rfl

theorem rowDiff_succ : rowDiff h F l (J + 1) ik =
    rowDiff h F l J ik + F (2 * h - J) ik * (twiddle false (2 * h + 1) (l * (J + 1))).im := by
  rw [rowDiff, Finset.sum_range_succ]
  rfl

/-- The cosines and sines of the terms after the first `J`. -/
noncomputable def angleList (h l : Nat) : Nat → Nat → List (ℝ × ℝ)
  | _, 0 => []
  | J, count + 1 =>
    ((twiddle false (2 * h + 1) (l * (J + 1))).re, (twiddle false (2 * h + 1) (l * (J + 1))).im) ::
      angleList h l (J + 1) count

theorem AngleTable.cell (table : AngleTable (2 * h + 1) csarr) (e : Nat) :
    csarr[2 * (e % (2 * h + 1))]? = some (twiddle false (2 * h + 1) e).re ∧
      csarr[2 * (e % (2 * h + 1)) + 1]? = some (twiddle false (2 * h + 1) e).im := by
  have entry := table (e % (2 * h + 1)) (Nat.mod_lt e (Nat.succ_pos (2 * h)))
  rwa [twiddle_mod (Nat.succ_pos (2 * h))] at entry

theorem angles_eq (table : AngleTable (2 * h + 1) csarr)
    (walks : WalksMultiples (2 * h + 1) l next) (few : J + count ≤ h) :
    angles next csarr count (l * J % (2 * h + 1)) =
      some (angleList h l J count, l * (J + count) % (2 * h + 1)) := by
  induction count generalizing J with
  | zero => rfl
  | succ count ih =>
    obtain ⟨cosine, sine⟩ := table.cell (l * (J + 1))
    have rest := ih (J := J + 1) (by omega)
    have all : J + 1 + count = J + (count + 1) := by omega
    rw [angles]
    simp only [walks J (by omega), cosine, sine, rest, all, Option.bind_eq_bind, Option.bind_some]
    rfl

theorem rowTerms_eq (column : ik < w) (few : J + count ≤ h) :
    rowTerms w (grid (2 * h + 1) w F) ik (angleList h l J count) (J + 1) (2 * h + 1 - (J + 1)) =
      some (rowSum h F l (J + count) ik - rowSum h F l J ik,
        rowDiff h F l (J + count) ik - rowDiff h F l J ik) := by
  induction count generalizing J with
  | zero => simp only [angleList, rowTerms, Nat.add_zero, sub_self]
  | succ count ih =>
    have low := getElem?_grid (F := F) (by omega : J + 1 < 2 * h + 1) column
    have high := getElem?_grid (F := F) (by omega : 2 * h + 1 - (J + 1) < 2 * h + 1) column
    have flip : 2 * h + 1 - (J + 1) = 2 * h - J := by omega
    have across : 2 * h + 1 - (J + 1) - 1 = 2 * h + 1 - (J + 1 + 1) := by omega
    have all : J + 1 + count = J + (count + 1) := by omega
    have rest := ih (J := J + 1) (by omega)
    rw [angleList, rowTerms]
    simp only [low, high, across, rest, all, Option.bind_eq_bind, Option.bind_some]
    rw [rowSum_succ, rowDiff_succ, flip]
    refine congrArg some (Prod.ext ?_ ?_)
    · dsimp only
      ring
    · dsimp only
      ring

theorem firstRows_eq (table : AngleTable (2 * h + 1) csarr) (wide : 2 ≤ h) (column : ik < w)
    (low : l ≤ h) :
    firstRows w (2 * h + 1) csarr (grid (2 * h + 1) w F) l ik =
      some (rowSum h F l 2 ik, rowDiff h F l 2 ik) := by
  obtain ⟨cosine, sine⟩ := table l (by omega)
  obtain ⟨cosine', sine'⟩ := table (2 * l) (by omega)
  have twice : 2 * (2 * l) = 4 * l := by ring
  rw [twice] at cosine' sine'
  have cell := fun r (row : r < 2 * h + 1) => getElem?_grid (F := F) row column
  simp only [firstRows, cell 0 (by omega), cell 1 (by omega), cell 2 (by omega),
    cell (2 * h + 1 - 1) (by omega), cell (2 * h + 1 - 2) (by omega), cosine, sine, cosine', sine',
    Option.bind_eq_bind, Option.bind_some]
  have none : rowSum h F l 0 ik = F 0 ik := by rw [rowSum, Finset.sum_range_zero, add_zero]
  have none' : rowDiff h F l 0 ik = 0 := by rw [rowDiff, Finset.sum_range_zero]
  have once : l * (0 + 1) = l := Nat.mul_one l
  have double : l * (1 + 1) = 2 * l := Nat.mul_comm l 2
  have last : 2 * h - 0 = 2 * h + 1 - 1 := rfl
  have before : 2 * h - 1 = 2 * h + 1 - 2 := by omega
  rw [rowSum_succ, rowSum_succ, rowDiff_succ, rowDiff_succ, none, none', once, double, last, before]
  refine congrArg some (Prod.ext ?_ ?_)
  · dsimp only
    ring
  · dsimp only
    ring

end Sums

/-! ## The three loops -/

/-- The array with the first `J` terms in the rows `l` and `ip - l`. -/
noncomputable def sumGrid (h w : Nat) (F G : Nat → Nat → ℝ) (l J : Nat) : List ℝ :=
  grid (2 * h + 1) w (Function.update (Function.update G l (rowSum h F l J)) (2 * h + 1 - l)
    (rowDiff h F l J))

section Loops

variable {h l J count w : Nat} {F G : Nat → Nat → ℝ} {csarr : List ℝ} {next : Nat → Nat → Nat}

theorem combineTerms_eq (table : AngleTable (2 * h + 1) csarr)
    (walks : WalksMultiples (2 * h + 1) l (next l)) (positive : 0 < l) (low : l ≤ h)
    (few : J + count ≤ h) :
    combineTerms next w (2 * h + 1) csarr (grid (2 * h + 1) w F) l count (J + 1)
        (sumGrid h w F G l J, l * J % (2 * h + 1)) =
      some (sumGrid h w F G l (J + count), l * (J + count) % (2 * h + 1)) := by
  have apart : l ≠ 2 * h + 1 - l := by omega
  simp only [combineTerms, angles_eq table walks few, Option.bind_eq_bind, Option.bind_some]
  rw [sumGrid, forLoop_updatePair (by omega) (by omega) apart, Option.bind_some,
    Function.update_comm apart, Function.update_idem, Function.update_comm (Ne.symm apart),
    Function.update_idem]
  · rfl
  · intro ik column
    rw [Function.update_self, Function.update_of_ne apart, Function.update_self]
    simp only [rowTerms_eq column few, Option.bind_some, add_sub_cancel]

/-- A loop that takes `count` terms at a time. -/
theorem combineLoop_eq (table : AngleTable (2 * h + 1) csarr)
    (walks : WalksMultiples (2 * h + 1) l (next l)) (positive : 0 < l) (low : l ≤ h) (rounds : Nat)
    (few : J + count * rounds ≤ h) :
    forLoop rounds (fun t =>
        combineTerms next w (2 * h + 1) csarr (grid (2 * h + 1) w F) l count (J + 1 + count * t))
        (sumGrid h w F G l J, l * J % (2 * h + 1)) =
      some (sumGrid h w F G l (J + count * rounds), l * (J + count * rounds) % (2 * h + 1)) := by
  have trace := forLoop_trace rounds
    (fun t => combineTerms next w (2 * h + 1) csarr (grid (2 * h + 1) w F) l count
      (J + 1 + count * t))
    (fun t => (sumGrid h w F G l (J + count * t), l * (J + count * t) % (2 * h + 1)))
    (by
      intro t below
      have within := Nat.mul_le_mul_left count (Nat.succ_le_of_lt below)
      rw [Nat.mul_succ] at within
      have index : J + 1 + count * t = J + count * t + 1 := by omega
      rw [index, Nat.mul_succ, ← Nat.add_assoc]
      exact combineTerms_eq table walks positive low (by omega))
  rw [Nat.mul_zero, Nat.add_zero] at trace
  exact trace

/-- All loops together add all terms. -/
theorem combine_eq (table : AngleTable (2 * h + 1) csarr)
    (walks : WalksMultiples (2 * h + 1) l (next l)) (wide : 2 ≤ h) (positive : 0 < l)
    (low : l ≤ h) :
    combine next w (2 * h + 1) csarr (grid (2 * h + 1) w F) l (grid (2 * h + 1) w G) =
      some (sumGrid h w F G l h) := by
  have half : (2 * h + 1 + 1) / 2 = h + 1 := by omega
  have first : forLoop w (updatePair w l (2 * h + 1 - l) fun ik _ _ =>
      firstRows w (2 * h + 1) csarr (grid (2 * h + 1) w F) l ik) (grid (2 * h + 1) w G) =
      some (sumGrid h w F G l 2) :=
    forLoop_updatePair (by omega) (by omega) (by omega)
      fun ik column => firstRows_eq table wide column low
  have start : 2 * l = l * 2 % (2 * h + 1) := by
    rw [Nat.mul_comm, Nat.mod_eq_of_lt (by omega)]
  have fours := combineLoop_eq (F := F) (G := G) (w := w) (J := 2) table walks positive low
    ((h + 1 - 3) / 4) (by omega : 2 + 4 * ((h + 1 - 3) / 4) ≤ h)
  have twos := combineLoop_eq (F := F) (G := G) (w := w) (J := 2 + 4 * ((h + 1 - 3) / 4))
    table walks positive low ((h + 1 - (3 + 4 * ((h + 1 - 3) / 4))) / 2)
    (by omega : _ + 2 * _ ≤ h)
  generalize rest : (h + 1 - (3 + 4 * ((h + 1 - 3) / 4))) / 2 = pairs at twos
  have ones := combineLoop_eq (F := F) (G := G) (w := w)
    (J := 2 + 4 * ((h + 1 - 3) / 4) + 2 * pairs) table walks positive low
    (h + 1 - (3 + 4 * ((h + 1 - 3) / 4) + 2 * pairs)) (by omega : _ + 1 * _ ≤ h)
  have index : 2 + 4 * ((h + 1 - 3) / 4) + 1 = 3 + 4 * ((h + 1 - 3) / 4) := by omega
  have index' : 2 + 4 * ((h + 1 - 3) / 4) + 2 * pairs + 1 =
      3 + 4 * ((h + 1 - 3) / 4) + 2 * pairs := by omega
  have all : 2 + 4 * ((h + 1 - 3) / 4) + 2 * pairs +
      1 * (h + 1 - (3 + 4 * ((h + 1 - 3) / 4) + 2 * pairs)) = h := by omega
  rw [← start] at fours
  rw [index] at twos
  rw [index', all] at ones
  simp only [Nat.one_mul] at ones
  simp only [combine, half, first, fours, rest, twos, ones, Option.bind_eq_bind, Option.bind_some]

theorem combineAll_eq (next : Nat → Nat → Nat) (table : AngleTable (2 * h + 1) csarr)
    (walks : ∀ l, 0 < l → l ≤ h → WalksMultiples (2 * h + 1) l (next l)) (wide : 2 ≤ h)
    (F G : Nat → Nat → ℝ) :
    forLoop h (fun l => combine next w (2 * h + 1) csarr (grid (2 * h + 1) w F) (l + 1))
        (grid (2 * h + 1) w G) =
      some (grid (2 * h + 1) w fun r ik =>
        if r = 0 then G 0 ik
        else if r ≤ h then rowSum h F r h ik else rowDiff h F (2 * h + 1 - r) h ik) := by
  rw [forLoop_pairs (combine next w (2 * h + 1) csarr (grid (2 * h + 1) w F)) (fun _ _ _ => True)
    (fun l G other low _ => combine_eq table (walks l other low) wide other low)
    fun _ _ _ => trivial]
  refine congrArg some (grid_congr fun r ik _ _ => ?_)
  split
  · rfl
  · split
    · rfl
    · rfl

/-- `>=` in the reduction of `iang`. -/
theorem walks_reduce (below : l < 2 * h + 1) :
    WalksMultiples (2 * h + 1) l
      fun iang => if 2 * h + 1 ≤ iang + l then iang + l - (2 * h + 1) else iang + l := by
  intro J _
  have part := Nat.mod_lt (l * J) (Nat.succ_pos (2 * h))
  have step : l * (J + 1) % (2 * h + 1) = (l * J % (2 * h + 1) + l) % (2 * h + 1) := by
    rw [Nat.mul_succ, Nat.mod_add_mod]
  rw [step]
  generalize l * J % (2 * h + 1) = x at part ⊢
  dsimp only
  split
  · rw [Nat.mod_eq_sub_mod (by omega), Nat.mod_eq_of_lt (by omega)]
  · rw [Nat.mod_eq_of_lt (by omega)]

/-- `>` is enough for a prime. -/
theorem walks_advance (prime : (2 * h + 1).Prime) (positive : 0 < l) (below : l < 2 * h + 1) :
    WalksMultiples (2 * h + 1) l (advance (2 * h + 1) l) :=
  fun _ few => advance_eq prime positive below few

end Loops

/-! ## Complex rows -/

/-- The part of a complex value that column `a` of row `r` holds: in the first column the real
part up to the middle row and then the imaginary part. -/
def part (h r a : Nat) (z : ℂ) : ℝ := if a % 2 = 1 ∨ (a = 0 ∧ r ≤ h) then z.re else z.im

/-- The rows of an array; `W r f k` is the complex value of row `r` for the bin `f` in block
`k`. -/
noncomputable def rowCells (ido h : Nat) (W : Nat → Nat → Nat → ℂ) (r ik : Nat) : ℝ :=
  part h r (ik % ido) (W r ((ik % ido + 1) / 2) (ik / ido))

/-- The same with every row in half-complex order. -/
noncomputable def halfCells (ido : Nat) (W : Nat → Nat → Nat → ℂ) (r ik : Nat) : ℝ :=
  halfCell (fun f => W r f (ik / ido)) (ik % ido)

section Parts

variable {ido h r a k t ik l : Nat} {W : Nat → Nat → Nat → ℂ}

theorem rowCells_at (column : a < ido) :
    rowCells ido h W r (a + ido * k) = part h r a (W r ((a + 1) / 2) k) := by
  rw [rowCells, cell_mod column, cell_div column]

theorem rowCells_low (column : 0 < ido) (low : r ≤ h) :
    rowCells ido h W r (0 + ido * k) = (W r 0 k).re := by
  rw [rowCells_at column, part, if_pos (.inr ⟨rfl, low⟩)]

theorem rowCells_high (column : 0 < ido) (high : h < r) :
    rowCells ido h W r (0 + ido * k) = (W r 0 k).im := by
  rw [rowCells_at column, part, if_neg (by omega)]

theorem rowCells_re (column : 2 * t + 1 < ido) :
    rowCells ido h W r (2 * t + 1 + ido * k) = (W r (t + 1) k).re := by
  have half : (2 * t + 1 + 1) / 2 = t + 1 := by omega
  rw [rowCells_at column, part, if_pos (.inl (by omega)), half]

theorem rowCells_im (column : 2 * t + 1 + 1 < ido) :
    rowCells ido h W r (2 * t + 1 + 1 + ido * k) = (W r (t + 1) k).im := by
  have half : (2 * t + 1 + 1 + 1) / 2 = t + 1 := by omega
  rw [rowCells_at column, part, if_neg (by omega), half]

theorem halfCells_zero (column : 0 < ido) : halfCells ido W r (0 + ido * k) = (W r 0 k).re := by
  rw [halfCells, cell_mod column, cell_div column, halfCell_zero]

theorem halfCells_re (column : 2 * t + 1 < ido) :
    halfCells ido W r (2 * t + 1 + ido * k) = (W r (t + 1) k).re := by
  rw [halfCells, cell_mod column, cell_div column]
  exact halfCell_re (Nat.succ_pos t)

theorem halfCells_im (column : 2 * t + 1 + 1 < ido) :
    halfCells ido W r (2 * t + 1 + 1 + ido * k) = (W r (t + 1) k).im := by
  rw [halfCells, cell_mod column, cell_div column]
  exact halfCell_im (Nat.succ_pos t)

/-- Up to the middle row all rows are in half-complex order. -/
theorem rowCells_half (low : r ≤ h) : rowCells ido h W r ik = halfCells ido W r ik := by
  rw [rowCells, halfCells, part, halfCell]
  by_cases odd : ik % ido % 2 = 1
  · have half : (ik % ido + 1) / 2 = ik % ido / 2 + 1 := by omega
    rw [if_pos (.inl odd), if_pos odd, half]
  · have half : (ik % ido + 1) / 2 = ik % ido / 2 := by omega
    rw [if_neg odd, half]
    split
    · rename_i real
      obtain ⟨zero, -⟩ := real.resolve_left odd
      rw [if_pos zero, zero]
    · rename_i other
      rw [if_neg fun zero => other (.inr ⟨zero, low⟩)]

/-- Two rows on the same side of the middle hold the same parts. -/
theorem part_congr {s : Nat} (side : r ≤ h ↔ s ≤ h) : part h r a = part h s a := by
  funext z
  simp only [part, side]

theorem part_add (x y : ℂ) : part h r a (x + y) = part h r a x + part h r a y := by
  simp only [part]
  split
  · exact Complex.add_re x y
  · exact Complex.add_im x y

theorem part_sum (s : Finset Nat) (f : Nat → ℂ) :
    part h r a (∑ j ∈ s, f j) = ∑ j ∈ s, part h r a (f j) := by
  simp only [part]
  split
  · exact Complex.re_sum s f
  · exact Complex.im_sum s f

theorem part_mul (x : ℂ) (c : ℝ) : part h r a x * c = part h r a (x * c) := by
  simp only [part]
  split
  · exact (Complex.re_mul_ofReal x c).symm
  · exact (Complex.im_mul_ofReal x c).symm

/-- The row `l` of cosines. -/
theorem rowCells_sumTo (fwd : Bool) (x : Nat → Nat → Nat → ℂ)
    (rows : ∀ j, j ≤ h → ∀ f k, W j f k = pairValue h (x f k) j) (low : r ≤ h) :
    rowSum h (rowCells ido h W) l h ik =
      rowCells ido h (fun _ f k => sumTo fwd h (x f k) l h) r ik := by
  have real : ∀ m, (twiddle fwd (2 * h + 1) m).re = (twiddle false (2 * h + 1) m).re := by
    intro m
    cases fwd with
    | false => rfl
    | true =>
      have conj := conj_twiddle false (2 * h + 1) m
      rw [Bool.not_false] at conj
      rw [← conj, Complex.conj_re]
  have side : ∀ j, j ≤ h → (j ≤ h ↔ r ≤ h) := fun j inside => ⟨fun _ => low, fun _ => inside⟩
  rw [rowCells, sumTo, part_add, part_sum, rowSum, rowCells, rows 0 (Nat.zero_le h),
    part_congr (side 0 (Nat.zero_le h))]
  refine congrArg _ (Finset.sum_congr rfl fun j member => ?_)
  have inside := Finset.mem_range.mp member
  rw [rowCells, rows (j + 1) inside, part_mul, part_congr (side (j + 1) inside), real]

/-- The row `ip - l` of sines; `unit` is the factor that the rows past the middle have. -/
theorem rowCells_diffTo (fwd : Bool) (x : Nat → Nat → Nat → ℂ) (unit turn : ℂ)
    (rows : ∀ j, h < j → j ≤ 2 * h → ∀ f k, W j f k = unit * pairValue h (x f k) j)
    (turns : ∀ m, unit * ((twiddle false (2 * h + 1) m).im : ℂ) =
      turn * (Complex.I * ((twiddle fwd (2 * h + 1) m).im : ℂ))) (high : h < r) :
    rowDiff h (rowCells ido h W) l h ik =
      rowCells ido h (fun _ f k => turn * diffTo fwd h (x f k) l h) r ik := by
  rw [rowCells, diffTo, Finset.mul_sum, Finset.mul_sum, part_sum, rowDiff]
  refine Finset.sum_congr rfl fun j member => ?_
  have inside := Finset.mem_range.mp member
  have past : ¬ 2 * h - j ≤ h := by omega
  have side : 2 * h - j ≤ h ↔ r ≤ h := ⟨fun le => absurd le past, fun le => absurd le (by omega)⟩
  rw [rowCells, rows (2 * h - j) (by omega) (by omega), part_mul, part_congr side]
  refine congrArg _ ?_
  have turned := turns (l * (j + 1))
  linear_combination (pairValue h (x ((ik % ido + 1) / 2) (ik / ido)) (2 * h - j)) * turned

end Parts

end DspDispatch.Pocketfft
