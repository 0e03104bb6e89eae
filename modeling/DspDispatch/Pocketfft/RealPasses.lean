import DspDispatch.Pocketfft.Passes
import DspDispatch.Pocketfft.RealButterflies

/-!
# Real passes of pocketfft with hard-coded factors (`rfftp`, `radf2` to `radb5`)

A forward pass of the factor `ip` makes `l1` spectra of `ido * ip` bins from `l1 * ip` spectra
of `ido` bins, each in half-complex order: the spectra of the signals of every `l1`-th sample
from those of every `l1 * ip`-th one (`radf_eq`). A backward pass takes spectra apart
(`radb_eq`).

The loop over `k` with the end cells comes first, then the one with the cells in the middle,
which the passes of even factors have for even `ido`, and then the loops over the other bins.
Where the source returns first, for `ido <= 2`, the last loops have no iteration.
-/

namespace DspDispatch.Pocketfft

open Kit

section Model

variable {K : Type} [Field K]

/-- The values of some cells of an array; `none` outside of it. -/
def readCells (xs : List K) (count : Nat) (cell : Nat → Nat) : Option (Nat → K) :=
  if ∀ j < count, cell j < xs.length then some fun j => xs.getD (cell j) 0 else none

/-- Two adjacent cells for each complex number, the imaginary parts in the given ones. -/
def readPairs (xs : List K) (count : Nat) (cell : Nat → Nat) : Option (Nat → Cmplx K) := do
  let r ← readCells xs count fun j => cell j - 1
  let i ← readCells xs count cell
  some fun j => ⟨r j, i j⟩

/-- The results of a body, written to some cells. -/
def storeCells (results : List K) (count : Nat) (cell : Nat → Nat) (xs : List K) :
    Option (List K) :=
  forLoop count (fun b xs => do
    let v ← results[b]?
    storeCell xs (cell b) v) xs

/-- The same for complex numbers in two adjacent cells. -/
def storePairs (results : List (Cmplx K)) (count : Nat) (cell : Nat → Nat) (xs : List K) :
    Option (List K) :=
  forLoop count (fun b xs => do
    let v ← results[b]?
    let xs ← storeCell xs (cell b - 1) v.r
    storeCell xs (cell b) v.i) xs

/-- The factors `WA(x, i - 2)` and `WA(x, i - 1)`. -/
def readTwiddles (wa : List K) (ido ip i : Nat) : Option (Nat → Cmplx K) :=
  readPairs wa (ip - 1) fun x => i - 1 + x * (ido - 1)

/-- `MULPM` with the twiddle factors of a forward pass. -/
def untwist (w : Nat → Cmplx K) (j : Nat) (v : Cmplx K) : Cmplx K :=
  if j = 0 then v
  else
    let p := mulpm (w (j - 1)).r (w (j - 1)).i v.r v.i
    ⟨p.1, p.2⟩

/-- `MULPM` with those of a backward pass. -/
def twist (w : Nat → Cmplx K) (j : Nat) (v : Cmplx K) : Cmplx K :=
  if j = 0 then v
  else
    let p := mulpm (w (j - 1)).r (w (j - 1)).i v.i v.r
    ⟨p.2, p.1⟩

/-- The loops of a forward pass of the factor `ip`: `CC(a, b, c) = cc[a+ido*(b+l1*c)]` and
`CH(a, b, c) = ch[a+ido*(b+ip*c)]`. -/
def radf (ip : Nat) (first : (Nat → K) → List K) (middle : Option ((Nat → K) → List K))
    (rest : (Nat → Cmplx K) → List (Cmplx K)) (ido l1 : Nat) (cc ch wa : List K) :
    Option (List K) := do
  let ch ← forLoop l1 (fun k ch => do
    let c ← readCells cc ip fun j => ido * (k + l1 * j)
    storeCells (first c) ip (fun b => endCell ido b + ido * (b + ip * k)) ch) ch
  let ch ← forLoop (if ido % 2 = 0 then l1 else 0) (fun k ch =>
    middle.elim (some ch) fun middle => do
    let c ← readCells cc ip fun j => ido - 1 + ido * (k + l1 * j)
    storeCells (middle c) ip (fun b => midCell ido b + ido * (b + ip * k)) ch) ch
  forLoop l1 (fun k => forLoop ((ido - 1) / 2) fun t ch => do
    let i := 2 * t + 2
    let w ← readTwiddles wa ido ip i
    let d ← readPairs cc ip fun j => i + ido * (k + l1 * j)
    storePairs (rest fun j => untwist w j (d j)) ip
      (fun b => foldCell ido i b + ido * (b + ip * k)) ch) ch

/-- The loops of a backward pass: `CC(a, b, c) = cc[a+ido*(b+ip*c)]` and
`CH(a, b, c) = ch[a+ido*(b+l1*c)]`. -/
def radb (ip : Nat) (first : (Nat → K) → List K) (middle : Option ((Nat → K) → List K))
    (rest : (Nat → Cmplx K) → List (Cmplx K)) (ido l1 : Nat) (cc ch wa : List K) :
    Option (List K) := do
  let ch ← forLoop l1 (fun k ch => do
    let c ← readCells cc ip fun b => endCell ido b + ido * (b + ip * k)
    storeCells (first c) ip (fun j => ido * (k + l1 * j)) ch) ch
  let ch ← forLoop (if ido % 2 = 0 then l1 else 0) (fun k ch =>
    middle.elim (some ch) fun middle => do
    let c ← readCells cc ip fun b => midCell ido b + ido * (b + ip * k)
    storeCells (middle c) ip (fun j => ido - 1 + ido * (k + l1 * j)) ch) ch
  forLoop l1 (fun k => forLoop ((ido - 1) / 2) fun t ch => do
    let i := 2 * t + 2
    let w ← readTwiddles wa ido ip i
    let d ← readPairs cc ip fun b => foldCell ido i b + ido * (b + ip * k)
    storePairs ((rest d).mapIdx (twist w)) ip (fun j => i + ido * (k + l1 * j)) ch) ch

variable (t : Trig K)

def radf2 := radf 2 (radf2First (K := K)) (some radf2Middle) radf2Rest

def radf3 := radf 3 (radf3First t) none (radf3Rest t)

def radf4 := radf 4 radf4First (some (radf4Middle t)) radf4Rest

def radf5 := radf 5 (radf5First t) none (radf5Rest t)

def radb2 := radb 2 (radb2First (K := K)) (some radb2Middle) radb2Rest

def radb3 := radb 3 (radb3First t) none (radb3Rest t)

def radb4 := radb 4 radb4First (some (radb4Middle t)) radb4Rest

def radb5 := radb 5 (radb5First t) none (radb5Rest t)

end Model

/-! ## Reading and writing -/

section Access

variable {n count : Nat} {xs : List ℝ} {final : Nat → ℝ} {cell : Nat → Nat}

theorem readCells_eq (xs : List ℝ) (count : Nat) (cell : Nat → Nat) {f : Nat → ℝ}
    (cells : ∀ j, j < count → xs[cell j]? = some (f j)) :
    ∃ c, readCells xs count cell = some c ∧ ∀ j, j < count → c j = f j := by
  refine ⟨_, if_pos fun j below => ?_, fun j below => ?_⟩
  · obtain ⟨inside, -⟩ := List.getElem?_eq_some_iff.mp (cells j below)
    exact inside
  · rw [List.getD_eq_getElem?_getD, cells j below, Option.getD_some]

theorem readPairs_eq (xs : List ℝ) (count : Nat) (cell : Nat → Nat) {z : Nat → ℂ}
    (cells : ∀ j, j < count → xs[cell j - 1]? = some (z j).re ∧ xs[cell j]? = some (z j).im) :
    ∃ d, readPairs xs count cell = some d ∧ ∀ j, j < count → d j = ofComplex (z j) := by
  obtain ⟨r, read, reals⟩ := readCells_eq xs count _ fun j below => (cells j below).1
  obtain ⟨i, read', imags⟩ := readCells_eq xs count _ fun j below => (cells j below).2
  refine ⟨fun j => ⟨r j, i j⟩, ?_, fun j below => ?_⟩
  · simp only [readPairs, read, read', Option.bind_eq_bind, Option.bind_some]
  · dsimp only
    rw [reals j below, imags j below]
    rfl

theorem fills_storeCells {g : Nat → ℝ} (inside : ∀ b, b < count → cell b < n)
    (values : ∀ b, b < count → g b = final (cell b)) :
    Fills n final (fun p => ∃ b, b < count ∧ p = cell b)
      (storeCells (tabulate count g) count cell) := by
  refine fills_forLoop fun b below => ?_
  simp only [getElem?_tabulate below, Option.bind_eq_bind, Option.bind_some]
  exact fills_storeCell (inside b below) (values b below)

theorem fills_storePairs {g : Nat → ℂ} (inside : ∀ b, b < count → cell b < n)
    (reals : ∀ b, b < count → (g b).re = final (cell b - 1))
    (imags : ∀ b, b < count → (g b).im = final (cell b)) :
    Fills n final (fun p => ∃ b, b < count ∧ (p = cell b - 1 ∨ p = cell b))
      (storePairs (tabulate count fun b => ofComplex (g b)) count cell) := by
  refine fills_forLoop fun b below => ?_
  have last := inside b below
  simp only [getElem?_tabulate below, Option.bind_eq_bind, Option.bind_some]
  exact (fills_storeCell (by omega) (reals b below)).bind (fills_storeCell last (imags b below))

end Access

/-- The twiddle factors of the pass of the factor `ip`, real and imaginary parts in turn. -/
def RealTwiddles (n l1 ip ido : Nat) (wa : List ℝ) : Prop :=
  ∀ x t, x + 1 < ip → t < (ido - 1) / 2 →
    wa[2 * t + x * (ido - 1)]? = some (twiddle false n ((x + 1) * l1 * (t + 1))).re ∧
      wa[2 * t + 1 + x * (ido - 1)]? = some (twiddle false n ((x + 1) * l1 * (t + 1))).im

section Twiddles

variable {n l1 ip ido t : Nat} {wa : List ℝ}

theorem readTwiddles_eq (twiddles : RealTwiddles n l1 ip ido wa) (below : t < (ido - 1) / 2) :
    ∃ w, readTwiddles wa ido ip (2 * t + 2) = some w ∧
      ∀ x, x < ip - 1 → w x = ofComplex (twiddle false n ((x + 1) * l1 * (t + 1))) := by
  refine readPairs_eq wa _ _ fun x row => ?_
  obtain ⟨real, imag⟩ := twiddles x t (by omega) below
  have left : 2 * t + 2 - 1 + x * (ido - 1) - 1 = 2 * t + x * (ido - 1) := by omega
  have right : 2 * t + 2 - 1 + x * (ido - 1) = 2 * t + 1 + x * (ido - 1) := by omega
  rw [left, right]
  exact ⟨real, imag⟩

variable {w : Nat → Cmplx ℝ} {j : Nat}

/-- `MULPM` is a multiplication with the factor, conjugated in the forward direction. -/
theorem untwist_eq (factors : ∀ x, x < ip - 1 →
      w x = ofComplex (twiddle false n ((x + 1) * l1 * (t + 1)))) (below : j < ip) (z : ℂ) :
    untwist w j (ofComplex z) = ofComplex (z * twiddle true n (j * l1 * (t + 1))) := by
  rw [untwist]
  split
  · rename_i first
    rw [first, Nat.zero_mul, Nat.zero_mul, twiddle_zero, mul_one]
  · obtain ⟨x, rfl⟩ := Nat.exists_eq_succ_of_ne_zero ‹¬ j = 0›
    rw [Nat.succ_sub_one, factors x (by omega), ← specialMul_twiddle]
    ext
    · simp [mulpm, Cmplx.specialMul]
      ring
    · simp [mulpm, Cmplx.specialMul]
      ring

theorem twist_eq (factors : ∀ x, x < ip - 1 →
      w x = ofComplex (twiddle false n ((x + 1) * l1 * (t + 1)))) (below : j < ip) (z : ℂ) :
    twist w j (ofComplex z) = ofComplex (z * twiddle false n (j * l1 * (t + 1))) := by
  rw [twist]
  split
  · rename_i first
    rw [first, Nat.zero_mul, Nat.zero_mul, twiddle_zero, mul_one]
  · obtain ⟨x, rfl⟩ := Nat.exists_eq_succ_of_ne_zero ‹¬ j = 0›
    rw [Nat.succ_sub_one, factors x (by omega), ← specialMul_twiddle]
    ext
    · simp [mulpm, Cmplx.specialMul]
      ring
    · simp [mulpm, Cmplx.specialMul]
      ring

end Twiddles

/-! ## Rows -/

section Rows

variable {n l1 ip ido a b k : Nat}

theorem inner_pos (factored : n = l1 * ip * ido) (positive : 0 < n) : 0 < ido := by
  subst factored
  exact Nat.pos_of_mul_pos_left positive

/-- Column `a` of row `b` in block `k`. -/
theorem row_place (a b k : Nat) : a + ido * (b + ip * k) = a + ido * b + ido * ip * k := by ring

theorem row_column (small : a < ido) (row : b < ip) : a + ido * b < ido * ip := by
  rw [Nat.mul_comm ido ip]
  exact cell_lt row small

theorem row_div (small : a < ido) (row : b < ip) : (a + ido * (b + ip * k)) / (ido * ip) = k := by
  rw [row_place, cell_div (row_column small row)]

theorem row_mod (small : a < ido) (row : b < ip) :
    (a + ido * (b + ip * k)) % (ido * ip) = a + ido * b := by
  rw [row_place, cell_mod (row_column small row)]

theorem row_lt (factored : n = l1 * ip * ido) (small : a < ido) (row : b < ip) (block : k < l1) :
    a + ido * (b + ip * k) < n := by
  have total : n = l1 * (ido * ip) := by
    rw [factored]
    ring
  rw [row_place, total]
  exact cell_lt block (row_column small row)

end Rows

/-! ## Forward -/

/-- The spectrum of every `l`-th sample from `k` on. -/
noncomputable def partSpectrum (n l : Nat) (x : Nat → ℝ) (k : Nat) : Nat → ℂ :=
  dft true (n / l) fun m => (x (k + l * m) : ℂ)

/-- The array before a pass. -/
noncomputable def spectra (n l : Nat) (x : Nat → ℝ) : List ℝ :=
  grid l (n / l) fun k => halfCell (partSpectrum n l x k)

section Forward

variable {n l1 ip ido : Nat} {x : Nat → ℝ} {wa : List ℝ}

theorem spectra_cell (x : Nat → ℝ) (factored : n = l1 * ip * ido) (positive : 0 < n) {a j k : Nat}
    (column : a < ido) (below : j < ip) (row : k < l1) :
    (spectra n (l1 * ip) x)[a + ido * (k + l1 * j)]? =
      some (halfCell (partSpectrum n (l1 * ip) x (k + l1 * j)) a) := by
  obtain ⟨-, -, -, narrow⟩ := widths factored positive
  have range : k + l1 * j < l1 * ip := by
    rw [Nat.mul_comm l1 ip]
    exact cell_lt below row
  have cell := getElem?_grid (F := fun k => halfCell (partSpectrum n (l1 * ip) x k)) range
    (narrow.symm ▸ column : a < n / (l1 * ip))
  rw [narrow] at cell
  rw [spectra, narrow]
  exact cell

/-- The bins of one butterfly. -/
theorem partSpectrum_butterfly (x : Nat → ℝ) (factored : n = l1 * ip * ido) (positive : 0 < n)
    (k f m : Nat) :
    partSpectrum n l1 x k (f + ido * m) =
      dft true ip (fun j => partSpectrum n (l1 * ip) x (k + l1 * j) f *
        twiddle true n (j * l1 * f)) m := by
  obtain ⟨hl, hp, wide, narrow⟩ := widths factored positive
  have inner : 0 < ido := Nat.pos_of_ne_zero (by rintro rfl; simp at factored; omega)
  rw [partSpectrum, wide, dft_butterfly inner hp]
  refine dft_congr (fun j _ => ?_) m
  have samples : ∀ b, k + l1 * (j + ip * b) = k + l1 * j + l1 * ip * b := fun b => by ring
  have turn : twiddle true n (j * l1 * f) = twiddle true (ido * ip) (j * f) := by
    have expand : j * l1 * f = l1 * (j * f) := by ring
    rw [expand, factored, Nat.mul_assoc, Nat.mul_comm ip ido, twiddle_cancel hl]
  rw [partSpectrum, narrow, turn]
  simp only [samples]

theorem conjugate_partSpectrum (x : Nat → ℝ) (l k : Nat) :
    Conjugate (n / l) (partSpectrum n l x k) := conjugate_dft true (n / l) fun m => x (k + l * m)

theorem partSpectrum_real (x : Nat → ℝ) (l k : Nat) :
    ((partSpectrum n l x k 0).re : ℂ) = partSpectrum n l x k 0 :=
  Complex.ext rfl (conjugate_partSpectrum x l k).real.symm

/-- The bin in the middle of a spectrum of even length is real. -/
theorem partSpectrum_middle {l e : Nat} (x : Nat → ℝ) (even : n / l = 2 * e) (k : Nat) :
    ((partSpectrum n l x k e).re : ℂ) = partSpectrum n l x k e := by
  have flipped := (conjugate_partSpectrum x l k).flip e (by omega : e ≤ n / l)
  have itself : n / l - e = e := by omega
  rw [itself] at flipped
  exact Complex.ext rfl (Complex.conj_eq_iff_im.mp flipped.symm).symm

variable {first : (Nat → ℝ) → List ℝ} {rest : (Nat → Cmplx ℝ) → List (Cmplx ℝ)}

/-- What the cells hold after a pass. -/
noncomputable def spectraAt (n l : Nat) (x : Nat → ℝ) (p : Nat) : ℝ :=
  halfCell (partSpectrum n l x (p / (n / l))) (p % (n / l))

theorem spectraAt_row (x : Nat → ℝ) (factored : n = l1 * ip * ido) (positive : 0 < n) {a b : Nat}
    (small : a < ido) (row : b < ip) (k : Nat) :
    spectraAt n l1 x (a + ido * (b + ip * k)) = halfCell (partSpectrum n l1 x k) (a + ido * b) := by
  obtain ⟨-, -, wide, -⟩ := widths factored positive
  rw [spectraAt, wide, row_div small row, row_mod small row]

/-- The cells at the ends of the rows. -/
theorem radf_first (x : Nat → ℝ) (factored : n = l1 * ip * ido) (positive : 0 < n)
    (firstRadix : FirstRadix ip first) {k : Nat} (block : k < l1) :
    Fills n (spectraAt n l1 x) (fun p => ∃ b, b < ip ∧ p = endCell ido b + ido * (b + ip * k))
      fun ch => (readCells (spectra n (l1 * ip) x) ip fun j => ido * (k + l1 * j)).bind fun c =>
        storeCells (first c) ip (fun b => endCell ido b + ido * (b + ip * k)) ch := by
  have inner := inner_pos factored positive
  obtain ⟨c, read, cells⟩ := readCells_eq (spectra n (l1 * ip) x) ip
    (fun j => ido * (k + l1 * j))
    (f := fun j => (partSpectrum n (l1 * ip) x (k + l1 * j) 0).re) fun j below => by
      have cell := spectra_cell x factored positive inner below block
      rw [Nat.zero_add, halfCell_zero] at cell
      exact cell
  have bins : ∀ m, dft true ip (fun j => (c j : ℂ)) m = partSpectrum n l1 x k (ido * m) := by
    intro m
    have bin := partSpectrum_butterfly x factored positive k 0 m
    rw [Nat.zero_add] at bin
    rw [bin]
    refine dft_congr (fun j below => ?_) m
    rw [cells j below, partSpectrum_real, Nat.mul_zero, twiddle_zero, mul_one]
  simp only [read, Option.bind_some, firstRadix c]
  refine fills_storeCells (fun b row => ?_) fun b row => ?_
  · exact row_lt factored (endCell_lt inner) row block
  · rw [spectraAt_row x factored positive (endCell_lt inner) row, halfCell_endCell inner]
    congr 1
    exact funext bins

/-- The cells in the middle of the rows, for rows of even length. -/
theorem radf_middle (x : Nat → ℝ) (factored : n = l1 * ip * ido) (positive : 0 < n)
    (even : ido % 2 = 0) {body : (Nat → ℝ) → List ℝ} (middleRadix : MiddleRadix ip body)
    {k : Nat} (block : k < l1) :
    Fills n (spectraAt n l1 x) (fun p => ∃ b, b < ip ∧ p = midCell ido b + ido * (b + ip * k))
      fun ch => (readCells (spectra n (l1 * ip) x) ip fun j => ido - 1 + ido * (k + l1 * j)).bind
        fun c => storeCells (body c) ip (fun b => midCell ido b + ido * (b + ip * k)) ch := by
  have inner := inner_pos factored positive
  obtain ⟨-, -, -, narrow⟩ := widths factored positive
  obtain ⟨e, rfl⟩ : ∃ e, ido = 2 * e := ⟨ido / 2, by omega⟩
  obtain ⟨c, read, cells⟩ := readCells_eq (spectra n (l1 * ip) x) ip
    (fun j => 2 * e - 1 + 2 * e * (k + l1 * j))
    (f := fun j => (partSpectrum n (l1 * ip) x (k + l1 * j) e).re) fun j below => by
      rw [spectra_cell x factored positive (by omega) below block, halfCell_re (by omega)]
  have bins : ∀ m, dft true ip (fun j => c j * twiddle true (2 * ip) j) m =
      partSpectrum n l1 x k (e + 2 * e * m) := by
    intro m
    rw [partSpectrum_butterfly x factored positive k e m]
    refine dft_congr (fun j below => ?_) m
    have turn : twiddle true n (j * l1 * e) = twiddle true (2 * ip) j := by
      have expand : j * l1 * e = l1 * e * j := by ring
      have whole : n = l1 * e * (2 * ip) := by
        rw [factored]
        ring
      have unit : 0 < l1 * e := by
        refine Nat.pos_of_ne_zero fun zero => ?_
        rw [whole, zero, Nat.zero_mul] at positive
        exact absurd positive (Nat.lt_irrefl 0)
      rw [expand, whole, twiddle_cancel unit]
    rw [cells j below, partSpectrum_middle x narrow, turn]
  simp only [read, Option.bind_some, middleRadix c]
  refine fills_storeCells (fun b row => ?_) fun b row => ?_
  · exact row_lt factored (midCell_lt inner) row block
  · rw [spectraAt_row x factored positive (midCell_lt inner) row, halfCell_midCell (by omega)]
    congr 1
    exact funext bins

/-- All other cells, in pairs. -/
theorem radf_rest (x : Nat → ℝ) (factored : n = l1 * ip * ido) (positive : 0 < n)
    (restRadix : RestRadix ip rest) (twiddles : RealTwiddles n l1 ip ido wa) {k t : Nat}
    (block : k < l1) (below : t < (ido - 1) / 2) :
    Fills n (spectraAt n l1 x)
      (fun p => ∃ b, b < ip ∧ (p = foldCell ido (2 * t + 2) b + ido * (b + ip * k) - 1 ∨
        p = foldCell ido (2 * t + 2) b + ido * (b + ip * k)))
      fun ch => (readTwiddles wa ido ip (2 * t + 2)).bind fun w =>
        (readPairs (spectra n (l1 * ip) x) ip fun j => 2 * t + 2 + ido * (k + l1 * j)).bind fun d =>
          storePairs (rest fun j => untwist w j (d j)) ip
            (fun b => foldCell ido (2 * t + 2) b + ido * (b + ip * k)) ch := by
  obtain ⟨-, -, wide, -⟩ := widths factored positive
  obtain ⟨w, read, factors⟩ := readTwiddles_eq twiddles below
  have double : 2 * t + 2 = 2 * (t + 1) := by ring
  have small : 2 * (t + 1) < ido := by omega
  obtain ⟨d, read', values⟩ := readPairs_eq (spectra n (l1 * ip) x) ip
    (fun j => 2 * t + 2 + ido * (k + l1 * j))
    (z := fun j => partSpectrum n (l1 * ip) x (k + l1 * j) (t + 1)) fun j row => by
      have left : 2 * t + 2 + ido * (k + l1 * j) - 1 = 2 * (t + 1) - 1 + ido * (k + l1 * j) := by
        omega
      rw [left, double, spectra_cell x factored positive (by omega) row block,
        spectra_cell x factored positive small row block, halfCell_re (Nat.succ_pos t),
        halfCell_im (Nat.succ_pos t)]
      exact ⟨rfl, rfl⟩
  have bins : ∀ m, dft true ip (fun j => partSpectrum n (l1 * ip) x (k + l1 * j) (t + 1) *
      twiddle true n (j * l1 * (t + 1))) m = partSpectrum n l1 x k (t + 1 + ido * m) :=
    fun m => (partSpectrum_butterfly x factored positive k (t + 1) m).symm
  have results := restRadix (fun j => untwist w j (d j)) _ fun j row => by
    rw [values j row, untwist_eq factors row]
  simp only [read, read', Option.bind_some, results]
  have conjugate : Conjugate (ido * ip) (partSpectrum n l1 x k) := by
    have symmetric := conjugate_partSpectrum (n := n) x l1 k
    rwa [wide] at symmetric
  rw [double]
  have range : ∀ b, 0 < foldCell ido (2 * (t + 1)) b ∧ foldCell ido (2 * (t + 1)) b < ido :=
    fun b => ⟨foldCell_pos (by omega) small, foldCell_lt (by omega) small⟩
  refine fills_storePairs (fun b row => row_lt factored (range b).2 row block) (fun b row => ?_)
    fun b row => ?_
  · have left : foldCell ido (2 * (t + 1)) b + ido * (b + ip * k) - 1 =
        foldCell ido (2 * (t + 1)) b - 1 + ido * (b + ip * k) := by
      have first := (range b).1
      omega
    rw [left, spectraAt_row x factored positive ((Nat.sub_le _ 1).trans_lt (range b).2) row,
      (halfCell_foldCell conjugate (Nat.succ_pos t) small row).1]
    congr 2
    exact funext bins
  · rw [spectraAt_row x factored positive (range b).2 row,
      (halfCell_foldCell conjugate (Nat.succ_pos t) small row).2]
    congr 2
    exact funext bins

/-- A pass of a factor makes the spectra of one stage from those of the one before. -/
theorem radf_eq (x : Nat → ℝ) {middle : Option ((Nat → ℝ) → List ℝ)} (factored : n = l1 * ip * ido)
    (positive : 0 < n) (firstRadix : FirstRadix ip first)
    (middleRadix : ido % 2 = 0 → ∃ body, middle = some body ∧ MiddleRadix ip body)
    (restRadix : RestRadix ip rest) (twiddles : RealTwiddles n l1 ip ido wa) {ch : List ℝ}
    (size : ch.length = n) :
    radf ip first middle rest ido l1 (spectra n (l1 * ip) x) ch wa = some (spectra n l1 x) := by
  obtain ⟨-, -, wide, -⟩ := widths factored positive
  have total : l1 * (n / l1) = n := by
    rw [wide, factored]
    ring
  have spectrum : spectra n l1 x = tabulate n (spectraAt n l1 x) := by
    rw [spectra, grid, total]
    rfl
  have ends := fills_forLoop fun k block => radf_first x factored positive firstRadix block
  have middles : Fills n (spectraAt n l1 x)
      (fun p => ∃ k, k < (if ido % 2 = 0 then l1 else 0) ∧ ∃ b, b < ip ∧
        p = midCell ido b + ido * (b + ip * k))
      (forLoop (if ido % 2 = 0 then l1 else 0) fun k ch => middle.elim (some ch) fun middle => do
        let c ← readCells (spectra n (l1 * ip) x) ip fun j => ido - 1 + ido * (k + l1 * j)
        storeCells (middle c) ip (fun b => midCell ido b + ido * (b + ip * k)) ch) := by
    refine fills_forLoop fun k block => ?_
    by_cases even : ido % 2 = 0
    · rw [if_pos even] at block
      obtain ⟨body, rfl, radix⟩ := middleRadix even
      exact radf_middle x factored positive even radix block
    · rw [if_neg even] at block
      exact absurd block (Nat.not_lt_zero k)
  have others := fills_forLoop fun k (block : k < l1) => fills_forLoop fun t below =>
    radf_rest x factored positive restRadix twiddles block below
  have result := ((ends.bind middles).bind others).eq (fun p below => ?_) ch size
  · rw [Option.bind_assoc] at result
    rw [spectrum]
    exact result
  · rw [factored, Nat.mul_assoc, Nat.mul_comm ip ido] at below
    obtain ⟨k, c, block, column, rfl⟩ := exists_cell below
    rw [Nat.mul_comm ido ip] at column
    obtain ⟨b, a, row, small, rfl⟩ := exists_cell column
    rw [← row_place]
    rcases exists_column small b with rfl | ⟨even, rfl⟩ | ⟨t, inside, rfl | rfl⟩
    · exact .inl (.inl ⟨k, block, b, row, rfl⟩)
    · exact .inl (.inr ⟨k, by rwa [if_pos even], b, row, rfl⟩)
    · have least : 0 < foldCell ido (2 * t + 2) b := foldCell_pos (by omega) (by omega)
      exact .inr ⟨k, block, t, inside, b, row, .inl (by omega)⟩
    · exact .inr ⟨k, block, t, inside, b, row, .inr rfl⟩

end Forward

/-! ## Backward -/

/-- The array before a pass. -/
noncomputable def stageCells (n l : Nat) (X : Nat → ℂ) : List ℝ :=
  grid l (n / l) fun k => halfCell fun q => stage false n l X q k

section Backward

variable {n l1 ip ido : Nat} {X : Nat → ℂ} {wa : List ℝ} {first : (Nat → ℝ) → List ℝ}
  {rest : (Nat → Cmplx ℝ) → List (Cmplx ℝ)}

theorem length_stageCells (factored : n = l1 * ip * ido) (positive : 0 < n) :
    (stageCells n l1 X).length = n := by
  obtain ⟨-, -, wide, -⟩ := widths factored positive
  rw [stageCells, length_grid, wide, factored]
  ring

theorem stageCells_row (X : Nat → ℂ) (factored : n = l1 * ip * ido) (positive : 0 < n) {a b k : Nat}
    (small : a < ido) (row : b < ip) (block : k < l1) :
    (stageCells n l1 X)[a + ido * (b + ip * k)]? =
      some (halfCell (fun q => stage false n l1 X q k) (a + ido * b)) := by
  obtain ⟨-, -, wide, -⟩ := widths factored positive
  have cell := getElem?_grid (F := fun k => halfCell fun q => stage false n l1 X q k) block
    (row_column small row)
  rw [stageCells, wide, row_place]
  exact cell

theorem conjugate_row (conjugate : Conjugate n X) (factored : n = l1 * ip * ido) (positive : 0 < n)
    (k : Nat) : Conjugate (ido * ip) fun q => stage false n l1 X q k :=
  conjugate_stage conjugate (by rw [factored]; ring) positive k

/-- What the cells hold after a pass. -/
noncomputable def stageAt (n l ido : Nat) (X : Nat → ℂ) (p : Nat) : ℝ :=
  halfCell (fun q => stage false n l X q (p / ido)) (p % ido)

theorem stageAt_cell (X : Nat → ℂ) (l : Nat) {a : Nat} (small : a < ido) (r : Nat) :
    stageAt n l ido X (a + ido * r) = halfCell (fun q => stage false n l X q r) a := by
  rw [stageAt, cell_div small, cell_mod small]

theorem next_lt (factored : n = l1 * ip * ido) {a j k : Nat} (small : a < ido) (row : j < ip)
    (block : k < l1) : a + ido * (k + l1 * j) < n := by
  rw [factored, Nat.mul_comm l1 ip]
  exact cell_lt (cell_lt row block) small

/-- A value of the next stage, from a butterfly and a multiplication. -/
theorem stage_butterfly (X : Nat → ℂ) (factored : n = l1 * ip * ido) (positive : 0 < n)
    (f k j : Nat) :
    stage false n (l1 * ip) X f (k + l1 * j) =
      dft false ip (fun s => stage false n l1 X (f + ido * s) k) j *
        twiddle false n (j * l1 * f) := stage_next factored positive f k j

/-- The first cells of the rows. -/
theorem radb_first (conjugate : Conjugate n X) (factored : n = l1 * ip * ido) (positive : 0 < n)
    (firstInverse : FirstInverse ip first) {k : Nat} (block : k < l1) :
    Fills n (stageAt n (l1 * ip) ido X) (fun p => ∃ j, j < ip ∧ p = ido * (k + l1 * j))
      fun ch => (readCells (stageCells n l1 X) ip fun b =>
          endCell ido b + ido * (b + ip * k)).bind fun c =>
        storeCells (first c) ip (fun j => ido * (k + l1 * j)) ch := by
  have inner := inner_pos factored positive
  have symmetric := conjugate_row conjugate factored positive k
  obtain ⟨c, read, cells⟩ := readCells_eq (stageCells n l1 X) ip
    (fun b => endCell ido b + ido * (b + ip * k))
    (f := halfCell fun m => stage false n l1 X (ido * m) k) fun b row => by
      rw [stageCells_row X factored positive (endCell_lt inner) row block, halfCell_endCell inner]
  -- the bins at the ends are a spectrum of their own
  have ends : Conjugate ip fun m => stage false n l1 X (ido * m) k := by
    refine ⟨?_, fun m le => ?_⟩
    · exact symmetric.last
    · have flipped := symmetric.flip (ido * m) (Nat.mul_le_mul_left ido le)
      rw [← Nat.mul_sub] at flipped
      exact flipped
  simp only [read, Option.bind_some, firstInverse c _ ends cells]
  refine fills_storeCells (fun j row => ?_) fun j row => ?_
  · have below := next_lt factored inner row block
    omega
  · have cell := stageAt_cell (n := n) X (l1 * ip) inner (k + l1 * j)
    rw [Nat.zero_add, halfCell_zero, stage_butterfly X factored positive, Nat.mul_zero,
      twiddle_zero, mul_one] at cell
    rw [cell]
    simp only [Nat.zero_add]

/-- The last cells of the rows, for rows of even length. -/
theorem radb_middle (conjugate : Conjugate n X) (factored : n = l1 * ip * ido) (positive : 0 < n)
    (even : ido % 2 = 0) {body : (Nat → ℝ) → List ℝ} (middleInverse : MiddleInverse ip body)
    {k : Nat} (block : k < l1) :
    Fills n (stageAt n (l1 * ip) ido X) (fun p => ∃ j, j < ip ∧ p = ido - 1 + ido * (k + l1 * j))
      fun ch => (readCells (stageCells n l1 X) ip fun b =>
          midCell ido b + ido * (b + ip * k)).bind fun c =>
        storeCells (body c) ip (fun j => ido - 1 + ido * (k + l1 * j)) ch := by
  have inner := inner_pos factored positive
  have symmetric := conjugate_row conjugate factored positive k
  obtain ⟨e, rfl⟩ : ∃ e, ido = 2 * e := ⟨ido / 2, by omega⟩
  obtain ⟨c, read, cells⟩ := readCells_eq (stageCells n l1 X) ip
    (fun b => midCell (2 * e) b + 2 * e * (b + ip * k))
    (f := midPart fun m => stage false n l1 X (e + 2 * e * m) k) fun b row => by
      rw [stageCells_row X factored positive (midCell_lt inner) row block,
        halfCell_midCell (by omega)]
  have bins : ∀ s, s < ip → stage false n l1 X (e + 2 * e * (ip - s - 1)) k =
      (starRingEnd ℂ) (stage false n l1 X (e + 2 * e * s) k) := by
    intro s row
    have whole : 2 * e * ip = 2 * e * (ip - s - 1) + 2 * e * s + 2 * e := by
      rw [← Nat.mul_add, ← Nat.mul_succ]
      congr 1
      omega
    have flipped := symmetric.flip (e + 2 * e * s) (by omega)
    have place : 2 * e * ip - (e + 2 * e * s) = e + 2 * e * (ip - s - 1) := by omega
    rw [place] at flipped
    exact flipped
  simp only [read, Option.bind_some, middleInverse c _ bins cells]
  refine fills_storeCells (fun j row => ?_) fun j row => ?_
  · exact next_lt factored (by omega) row block
  · have turn : twiddle false n (j * l1 * e) = twiddle false (2 * ip) j := by
      have expand : j * l1 * e = l1 * e * j := by ring
      have whole : n = l1 * e * (2 * ip) := by
        rw [factored]
        ring
      have unit : 0 < l1 * e := by
        refine Nat.pos_of_ne_zero fun zero => ?_
        rw [whole, zero, Nat.zero_mul] at positive
        exact absurd positive (Nat.lt_irrefl 0)
      rw [expand, whole, twiddle_cancel unit]
    rw [stageAt_cell X _ (by omega), halfCell_re (by omega), stage_butterfly X factored positive,
      turn]

/-- All other cells, in pairs. -/
theorem radb_rest (conjugate : Conjugate n X) (factored : n = l1 * ip * ido) (positive : 0 < n)
    (restInverse : RestInverse ip rest) (twiddles : RealTwiddles n l1 ip ido wa) {k t : Nat}
    (block : k < l1) (below : t < (ido - 1) / 2) :
    Fills n (stageAt n (l1 * ip) ido X)
      (fun p => ∃ j, j < ip ∧ (p = 2 * t + 2 + ido * (k + l1 * j) - 1 ∨
        p = 2 * t + 2 + ido * (k + l1 * j)))
      fun ch => (readTwiddles wa ido ip (2 * t + 2)).bind fun w =>
        (readPairs (stageCells n l1 X) ip fun b =>
          foldCell ido (2 * t + 2) b + ido * (b + ip * k)).bind fun d =>
        storePairs ((rest d).mapIdx (twist w)) ip (fun j => 2 * t + 2 + ido * (k + l1 * j)) ch := by
  have symmetric := conjugate_row conjugate factored positive k
  obtain ⟨w, read, factors⟩ := readTwiddles_eq twiddles below
  have double : 2 * t + 2 = 2 * (t + 1) := by ring
  have small : 2 * (t + 1) < ido := by omega
  have range : ∀ b, 0 < foldCell ido (2 * (t + 1)) b ∧ foldCell ido (2 * (t + 1)) b < ido :=
    fun b => ⟨foldCell_pos (by omega) small, foldCell_lt (by omega) small⟩
  obtain ⟨d, read', values⟩ := readPairs_eq (stageCells n l1 X) ip
    (fun b => foldCell ido (2 * t + 2) b + ido * (b + ip * k))
    (z := folded ip fun m => stage false n l1 X (t + 1 + ido * m) k) fun b row => by
      have left : foldCell ido (2 * (t + 1)) b + ido * (b + ip * k) - 1 =
          foldCell ido (2 * (t + 1)) b - 1 + ido * (b + ip * k) := by
        have first := (range b).1
        omega
      obtain ⟨real, imag⟩ := halfCell_foldCell symmetric (Nat.succ_pos t) small row
      rw [double, left, stageCells_row X factored positive
        ((Nat.sub_le _ 1).trans_lt (range b).2) row block,
        stageCells_row X factored positive (range b).2 row block, real, imag]
      exact ⟨rfl, rfl⟩
  have results : (rest d).mapIdx (twist w) =
      tabulate ip fun j => ofComplex (stage false n (l1 * ip) X (t + 1) (k + l1 * j)) := by
    rw [restInverse d _ values]
    refine eq_tabulate (by rw [List.length_mapIdx, length_tabulate]) fun j row => ?_
    rw [List.getElem?_mapIdx, getElem?_tabulate row, Option.map_some, twist_eq factors row,
      stage_butterfly X factored positive]
  simp only [read, read', Option.bind_some, results]
  rw [double]
  refine fills_storePairs (fun j row => next_lt factored small row block) (fun j row => ?_)
    fun j row => ?_
  · have left : 2 * (t + 1) + ido * (k + l1 * j) - 1 = 2 * (t + 1) - 1 + ido * (k + l1 * j) := by
      omega
    rw [left, stageAt_cell X _ (by omega), halfCell_re (Nat.succ_pos t)]
  · rw [stageAt_cell X _ small, halfCell_im (Nat.succ_pos t)]

/-- A pass of a factor takes the spectra of a stage apart. -/
theorem radb_eq (conjugate : Conjugate n X) {middle : Option ((Nat → ℝ) → List ℝ)}
    (factored : n = l1 * ip * ido) (positive : 0 < n) (firstInverse : FirstInverse ip first)
    (middleInverse : ido % 2 = 0 → ∃ body, middle = some body ∧ MiddleInverse ip body)
    (restInverse : RestInverse ip rest) (twiddles : RealTwiddles n l1 ip ido wa) {ch : List ℝ}
    (size : ch.length = n) :
    radb ip first middle rest ido l1 (stageCells n l1 X) ch wa =
      some (stageCells n (l1 * ip) X) := by
  obtain ⟨-, -, -, narrow⟩ := widths factored positive
  have cells : stageCells n (l1 * ip) X = tabulate n (stageAt n (l1 * ip) ido X) := by
    rw [stageCells, grid, narrow, ← factored]
    rfl
  have ends := fills_forLoop fun k block =>
    radb_first conjugate factored positive firstInverse block
  have middles : Fills n (stageAt n (l1 * ip) ido X)
      (fun p => ∃ k, k < (if ido % 2 = 0 then l1 else 0) ∧ ∃ j, j < ip ∧
        p = ido - 1 + ido * (k + l1 * j))
      (forLoop (if ido % 2 = 0 then l1 else 0) fun k ch => middle.elim (some ch) fun middle => do
        let c ← readCells (stageCells n l1 X) ip fun b => midCell ido b + ido * (b + ip * k)
        storeCells (middle c) ip (fun j => ido - 1 + ido * (k + l1 * j)) ch) := by
    refine fills_forLoop fun k block => ?_
    by_cases even : ido % 2 = 0
    · rw [if_pos even] at block
      obtain ⟨body, rfl, radix⟩ := middleInverse even
      exact radb_middle conjugate factored positive even radix block
    · rw [if_neg even] at block
      exact absurd block (Nat.not_lt_zero k)
  have others := fills_forLoop fun k (block : k < l1) => fills_forLoop fun t below =>
    radb_rest conjugate factored positive restInverse twiddles block below
  have result := ((ends.bind middles).bind others).eq (fun p below => ?_) ch size
  · rw [Option.bind_assoc] at result
    rw [cells]
    exact result
  · rw [factored, Nat.mul_comm l1 ip] at below
    obtain ⟨r, a, row, small, rfl⟩ := exists_cell below
    obtain ⟨j, k, row', block, rfl⟩ := exists_cell row
    rcases exists_column small 0 with first | ⟨even, last⟩ | ⟨t, inside, left | right⟩
    · exact .inl (.inl ⟨k, block, j, row', by rw [first]; exact Nat.zero_add _⟩)
    · exact .inl (.inr ⟨k, by rwa [if_pos even], j, row', by rw [last]; rfl⟩)
    · refine .inr ⟨k, block, t, inside, j, row', .inl ?_⟩
      rw [left]
      change 2 * t + 2 - 1 + _ = 2 * t + 2 + _ - 1
      omega
    · exact .inr ⟨k, block, t, inside, j, row', .inr (by rw [right]; rfl)⟩

end Backward

end DspDispatch.Pocketfft
