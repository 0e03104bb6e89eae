import DspDispatch.Pocketfft.GeneralNd
import DspDispatch.Pocketfft.PocketfftR

/-!
# Real transforms along one axis of an array (`general_r2c`, `general_c2r`)

A real lane is transformed in a temporary array in half-complex order, and between that and the
half of a spectrum in memory the bins are converted one by one. As for complex transforms, a
vector of lanes is kept as one array for each of its lanes.

`passR2C_eq` and `passC2R_eq` say that every lane is transformed and nothing else is touched,
for any shape, axis and strides. With the other orientation the bins are conjugated.
-/

namespace DspDispatch.Pocketfft

open Kit

section Model

variable {K : Type}

/-- `copy_input` of real elements for one lane of a vector. -/
def copyReals (a : NdArrays) (it : MultiIter) (len : Nat) (m : Mem K) (j : Nat) :
    Option (List K) :=
  tabulateM len fun i => (a.src it j i).bind (m.load · 0)

/-- `copy_output` of real elements. -/
def storeReals (a : NdArrays) (it : MultiIter) (vlen len : Nat) (buf : List (List K)) (m : Mem K) :
    Option (Mem K) :=
  forLoop len (fun i => forLoop vlen fun j m => do
    let lane ← buf[j]?
    let v ← lane[i]?
    let p ← a.dst it j i
    m.store p 0 v) m

/-- `Set(tdata[i])`. -/
def realBin [Zero K] (i : Nat) (tdata : List K) : Option (Cmplx K) := do
  let r ← tdata[i]?
  some ⟨r, 0⟩

/-- `Set(tdata[i], tdata[i+1])`, or the conjugate. -/
def pairBin [Neg K] (forward : Bool) (i : Nat) (tdata : List K) : Option (Cmplx K) := do
  let r ← tdata[i]?
  let v ← tdata[i + 1]?
  some ⟨r, if forward then v else -v⟩

/-- `out[it.oofs(j,ii)]` for the lanes of a round. -/
def setBins (a : NdArrays) (it : MultiIter) (vlen ii : Nat) (bin : List K → Option (Cmplx K))
    (buf : List (List K)) (m : Mem K) : Option (Mem K) :=
  forLoop vlen (fun j m => do
    let lane ← buf[j]?
    let v ← bin lane
    let p ← a.dst it j ii
    storeCmplx m p v) m

/-- The bins of `general_r2c`: the first, the pairs, and the one in the middle. -/
def storeBins [Zero K] [Neg K] (a : NdArrays) (it : MultiIter) (vlen len : Nat) (forward : Bool)
    (buf : List (List K)) (m : Mem K) : Option (Mem K) := do
  let pairs := (len - 1) / 2
  let m ← setBins a it vlen 0 (realBin 0) buf m
  let m ← forLoop pairs
    (fun t => setBins a it vlen (t + 1) (pairBin forward (1 + 2 * t)) buf) m
  let i := 1 + 2 * pairs
  if i < len then setBins a it vlen (pairs + 1) (realBin i) buf m else some m

/-- A round of `general_r2c` on `vlen` lanes, with a temporary array of `tmp` elements. -/
def roundR2C [Zero K] [Neg K] (a : NdArrays) (exec : List K → Option (List K)) (len vlen tmp : Nat)
    (forward : Bool) (it : MultiIter) (m : Mem K) : Option (Mem K) :=
  if tmp < len * vlen then none
  else do
    let buf ← tabulateM vlen (copyReals a it len m)
    let buf ← buf.mapM exec
    storeBins a it vlen len forward buf m

/-- `tdata[i] = in[it.iofs(ii)].r`. -/
def loadReal (a : NdArrays) (it : MultiIter) (m : Mem K) (j ii i : Nat) (tdata : List K) :
    Option (List K) := do
  let p ← a.src it j ii
  let r ← m.load p 0
  storeCell tdata i r

/-- `tdata[i+1] = in[it.iofs(ii)].i`, or with a minus. -/
def loadImag [Neg K] (a : NdArrays) (it : MultiIter) (m : Mem K) (forward : Bool) (j ii i : Nat)
    (tdata : List K) : Option (List K) := do
  let p ← a.src it j ii
  let v ← m.load p 1
  storeCell tdata i (if forward then -v else v)

/-- The bins of `general_c2r` for one lane of a vector. -/
def loadBins [Zero K] [Neg K] (a : NdArrays) (it : MultiIter) (len : Nat) (forward : Bool)
    (m : Mem K) (j : Nat) : Option (List K) := do
  let pairs := (len - 1) / 2
  let tdata ← loadReal a it m j 0 0 (List.replicate len 0)
  let tdata ← forLoop pairs (fun t tdata => do
    let i := 1 + 2 * t
    let tdata ← loadReal a it m j (t + 1) i tdata
    loadImag a it m forward j (t + 1) (i + 1) tdata) tdata
  let i := 1 + 2 * pairs
  if i < len then loadReal a it m j (pairs + 1) i tdata else some tdata

/-- A round of `general_c2r`. -/
def roundC2R [Zero K] [Neg K] (a : NdArrays) (exec : List K → Option (List K)) (len vlen tmp : Nat)
    (forward : Bool) (it : MultiIter) (m : Mem K) : Option (Mem K) :=
  if tmp < len * vlen then none
  else do
    let buf ← tabulateM vlen (loadBins a it len forward m)
    let buf ← buf.mapM exec
    storeReals a it vlen len buf m

variable [Field K] [DecidableEq K]

/-- `general_r2c`, once the plan is there. -/
def passR2C (t : Trig K) (vlen : Nat) (plan : PocketfftR K) (forward : Bool) (a : NdArrays)
    (iarr oarr : ArrInfo) (axis : Nat) (fct : K) (m : Mem K) : Option (Mem K) :=
  let len := iarr.dim axis
  let exec := fun tdata => plan.exec t tdata fct true
  let tmp := allocTmp iarr.shape len vlen
  (MultiIter.make vlen iarr oarr axis 1 0).bind fun it =>
    runLanes vlen (roundR2C a exec len vlen tmp forward) (roundR2C a exec len 1 tmp forward) it m

/-- `general_c2r`. -/
def passC2R (t : Trig K) (vlen : Nat) (plan : PocketfftR K) (forward : Bool) (a : NdArrays)
    (iarr oarr : ArrInfo) (axis : Nat) (fct : K) (m : Mem K) : Option (Mem K) :=
  let len := oarr.dim axis
  let exec := fun tdata => plan.exec t tdata fct false
  let tmp := allocTmp oarr.shape len vlen
  (MultiIter.make vlen iarr oarr axis 1 0).bind fun it =>
    runLanes vlen (roundC2R a exec len vlen tmp forward) (roundC2R a exec len 1 tmp forward) it m

end Model

/-! ## Spectra -/

section Spectra

variable {n : Nat} {X : Nat → ℂ}

/-- A spectrum or its conjugate. -/
noncomputable def oriented (keep : Bool) (X : Nat → ℂ) (q : Nat) : ℂ :=
  if keep then X q else (starRingEnd ℂ) (X q)

theorem oriented_re (keep : Bool) (q : Nat) : (oriented keep X q).re = (X q).re := by
  rw [oriented]
  split
  · rfl
  · exact Complex.conj_re _

theorem oriented_im (keep : Bool) (q : Nat) :
    (oriented keep X q).im = if keep then (X q).im else -(X q).im := by
  rw [oriented]
  split
  · rfl
  · exact Complex.conj_im _

theorem conj_dft (forward : Bool) (n : Nat) (X : Nat → ℂ) (k : Nat) :
    (starRingEnd ℂ) (dft forward n X k) = dft (!forward) n (fun q => (starRingEnd ℂ) (X q)) k := by
  rw [dft, dft, map_sum]
  refine Finset.sum_congr rfl fun q _ => ?_
  rw [map_mul, conj_twiddle]

/-- The spectrum of a real signal in either orientation. -/
theorem oriented_dft (forward : Bool) (x : Nat → ℝ) (fct : ℝ) (i : Nat) :
    oriented forward (fun q => dft true n (fun j => x j) q * fct) i =
      dft forward n (fun j => x j) i * fct := by
  cases forward with
  | true => rfl
  | false =>
    change (starRingEnd ℂ) (dft true n (fun j => x j) i * fct) = _
    rw [map_mul, Complex.conj_ofReal, conj_dft]
    simp only [Complex.conj_ofReal, Bool.not_true]

/-- The real part of a transform of the conjugate spectrum. -/
theorem dft_oriented_re (forward : Bool) (X : Nat → ℂ) (k : Nat) :
    (dft false n (oriented (!forward) X) k).re = (dft forward n X k).re := by
  cases forward with
  | false => rfl
  | true =>
    have turned := conj_dft true n X k
    rw [← Complex.conj_re (dft true n X k), turned]
    rfl

/-- The whole spectrum of bins with real ends. -/
theorem conjugate_hermitian (ends : RealEnds n X) : Conjugate n (hermitian n X) where
  last := by
    rcases Nat.eq_zero_or_pos n with rfl | positive
    · rfl
    · rw [hermitian, if_neg (by omega), Nat.sub_self, hermitian, if_pos (Nat.zero_le _)]
      exact Complex.conj_eq_iff_im.mpr ends.1
  flip q le := by
    rw [hermitian, hermitian]
    by_cases low : q ≤ n / 2
    · rw [if_pos low]
      by_cases both : n - q ≤ n / 2
      · have middle : n - q = n / 2 := by omega
        have same : q = n / 2 := by omega
        rw [if_pos both, middle, same]
        exact (Complex.conj_eq_iff_im.mpr (ends.2 (by omega))).symm
      · rw [if_neg both, Nat.sub_sub_self le]
    · rw [if_pos (by omega), if_neg low, Complex.conj_conj]

theorem conjugate_oriented (conjugate : Conjugate n X) (keep : Bool) :
    Conjugate n (oriented keep X) := by
  cases keep with
  | true => exact conjugate
  | false =>
    exact ⟨congrArg (starRingEnd ℂ) conjugate.last,
      fun q le => congrArg (starRingEnd ℂ) (conjugate.flip q le)⟩

/-- Half-complex order leaves the imaginary parts of the end bins out. -/
theorem halfCell_realBins (keep : Bool) (X : Nat → ℂ) {p : Nat} (inside : p < n) :
    halfCell (oriented keep (hermitian n (realBins n X))) p =
      halfCell (oriented keep (hermitian n X)) p := by
  simp only [halfCell, oriented_re, oriented_im, hermitian_realBins_re]
  split
  · rfl
  · split
    · rfl
    · rw [hermitian_realBins X (by omega) (by omega) (by omega)]

end Spectra

/-! ## One round -/

section Round

variable {a : NdArrays} {iarr oarr : ArrInfo} {axis k c len vlen tmp lanes : Nat}
  {it : MultiIter} {m : Mem ℝ} {I O : Nat → Nat → Ptr}

/-- Real lanes to halves of spectra, and back. -/
def realToBins (lanes len : Nat) (I O : Nat → Nat → Ptr) : Layout :=
  ⟨lanes, len, 1, len / 2 + 1, 2, I, O⟩

def binsToReal (lanes len : Nat) (I O : Nat → Nat → Ptr) : Layout :=
  ⟨lanes, len / 2 + 1, 2, len, 1, I, O⟩

/-- A lane as real numbers. -/
def reals (x : Nat → List ℝ) (i : Nat) : ℝ := (x i).getD 0 0

theorem load_eq {p : Ptr} {w i : Nat} (holds : m.Holds p w) (inside : i < w) :
    m.load p i = some ((m.read p w).getD i 0) := by
  obtain ⟨v, found⟩ : ∃ v, (m.read p w)[i]? = some v :=
    ⟨_, List.getElem?_eq_getElem (by rw [Mem.length_read holds]; exact inside)⟩
  have cell : (m.read p w)[i]? = m.load p i := by rw [Mem.getElem?_read, if_pos inside]
  rw [← cell, List.getD_eq_getElem?_getD, found]
  rfl

theorem copyReals_eq (given : Given iarr oarr axis k c it)
    (addressed : Addressed (realToBins lanes len I O) a iarr oarr axis)
    (fits : (realToBins lanes len I O).Fits m) {j : Nat} (below : j < c) (lane : k + j < lanes)
    {x : Nat → List ℝ} (reads : (realToBins lanes len I O).Reads m (k + j) x) :
    copyReals a it len m j = some (tabulate len (reals x)) := by
  refine tabulateM_eq fun i inside => ?_
  have src := given.src_eq addressed below lane inside
  have cell : m.read (I (k + j) i) 1 = x i := reads i inside
  have loaded := load_eq (fits.input (k + j) i lane inside) Nat.one_pos
  change m.load (I (k + j) i) 0 = some ((m.read (I (k + j) i) 1).getD 0 0) at loaded
  rw [cell] at loaded
  rw [src, Option.bind_some]
  exact loaded

theorem setBins_eq {buf : Nat → List ℝ} {bin : List ℝ → Option (Cmplx ℝ)} {ii : Nat}
    {value : Nat → ℂ} (bins : ∀ j, bin (buf j) = some (ofComplex (value j))) :
    setBins a it c ii bin (tabulate c buf) = forLoop c fun j m =>
      (a.dst it j ii).bind fun p => storeCmplx m p (ofComplex (value j)) := by
  funext m
  refine forLoop_congr (fun j below => funext fun m => ?_) m
  simp only [getElem?_tabulate below, bins j, Option.bind_eq_bind, Option.bind_some]

/-- The bins that are read from a lane in half-complex order. -/
theorem realBin_zero (positive : 0 < len) (forward : Bool) {X : Nat → ℂ} (ends : RealEnds len X) :
    realBin 0 (tabulate len (halfCell X)) = some (ofComplex (oriented forward X 0)) := by
  rw [realBin, getElem?_tabulate positive, halfCell_zero]
  refine congrArg some (Cmplx.ext (oriented_re forward 0).symm ?_)
  rw [ofComplex_i, oriented_im, ends.1, neg_zero, ite_self]

theorem realBin_middle (forward : Bool) {X : Nat → ℂ} (ends : RealEnds len X)
    (even : 1 + 2 * ((len - 1) / 2) < len) :
    realBin (1 + 2 * ((len - 1) / 2)) (tabulate len (halfCell X)) =
      some (ofComplex (oriented forward X ((len - 1) / 2 + 1))) := by
  have place : 1 + 2 * ((len - 1) / 2) = 2 * ((len - 1) / 2 + 1) - 1 := by omega
  have middle : (len - 1) / 2 + 1 = len / 2 := by omega
  rw [realBin, getElem?_tabulate even, place, halfCell_re (Nat.succ_pos _)]
  refine congrArg some (Cmplx.ext (oriented_re forward _).symm ?_)
  rw [ofComplex_i, oriented_im, middle, ends.2 (by omega), neg_zero, ite_self]

theorem pairBin_eq (forward : Bool) (X : Nat → ℂ) {t : Nat} (below : t < (len - 1) / 2) :
    pairBin forward (1 + 2 * t) (tabulate len (halfCell X)) =
      some (ofComplex (oriented forward X (t + 1))) := by
  have low : 1 + 2 * t = 2 * (t + 1) - 1 := by omega
  have high : 2 * (t + 1) - 1 + 1 = 2 * (t + 1) := by omega
  rw [pairBin, low, high, getElem?_tabulate (by omega), getElem?_tabulate (by omega),
    halfCell_re (Nat.succ_pos t), halfCell_im (Nat.succ_pos t)]
  exact congrArg some (Cmplx.ext (oriented_re forward _).symm (oriented_im forward _).symm)

theorem storeBins_eq (given : Given iarr oarr axis k c it)
    (addressed : Addressed (realToBins lanes len I O) a iarr oarr axis)
    (fits : (realToBins lanes len I O).Fits m) (last : k + c ≤ lanes) (positive : 0 < len)
    (forward : Bool) {X : Nat → Nat → ℂ} (ends : ∀ j, RealEnds len (X j)) :
    ∃ m', storeBins a it c len forward (tabulate c fun j => tabulate len (halfCell (X j))) m =
        some m' ∧
      m.Within ((realToBins lanes len I O).Outputs k c) m' ∧
      ∀ j, j < c → (realToBins lanes len I O).Writes m' (k + j)
        fun i => scalars (oriented forward (X j) i) := by
  let body : Nat → Nat → Mem ℝ → Option (Mem ℝ) := fun i j m =>
    (a.dst it j i).bind fun p => storeCmplx m p (ofComplex (oriented forward (X j) i))
  obtain ⟨m', run, result⟩ := fits.storeLanes_eq last body
    (fun j i => scalars (oriented forward (X j) i)) (fun j i => rfl)
    (fun i j m' row column room => by
      have dst := given.dst_eq addressed column (by change _ < lanes; omega) row
      simp only [body, dst, Option.bind_some]
      exact storeCmplx_eq room _)
  refine ⟨m', Eq.trans ?_ run, result⟩
  have first : setBins a it c 0 (realBin 0) (tabulate c fun j => tabulate len (halfCell (X j))) =
      forLoop c (body 0) := setBins_eq fun j => realBin_zero positive forward (ends j)
  have pairs : ∀ m, forLoop ((len - 1) / 2) (fun t => setBins a it c (t + 1)
      (pairBin forward (1 + 2 * t)) (tabulate c fun j => tabulate len (halfCell (X j)))) m =
      forLoop ((len - 1) / 2) (fun t => forLoop c (body (t + 1))) m := fun m =>
    forLoop_congr (fun t below => setBins_eq fun j => pairBin_eq forward (X j) below) m
  have all : ∀ m, forLoop (1 + (len - 1) / 2) (fun i => forLoop c (body i)) m =
      (forLoop c (body 0) m).bind
        (forLoop ((len - 1) / 2) fun t => forLoop c (body (t + 1))) := fun m =>
    forLoop_add 1 _ _ m
  change _ = forLoop (len / 2 + 1) (fun i => forLoop c (body i)) m
  simp only [storeBins, first, pairs, Option.bind_eq_bind]
  by_cases even : 1 + 2 * ((len - 1) / 2) < len
  · have middle : setBins a it c ((len - 1) / 2 + 1) (realBin (1 + 2 * ((len - 1) / 2)))
        (tabulate c fun j => tabulate len (halfCell (X j))) =
        forLoop c (body (1 + (len - 1) / 2)) := by
      rw [Nat.add_comm 1 ((len - 1) / 2)]
      exact setBins_eq fun j => realBin_middle forward (ends j) even
    have count : len / 2 + 1 = 1 + (len - 1) / 2 + 1 := by omega
    rw [count, forLoop_succ, all, Option.bind_assoc]
    simp only [if_pos even, middle]
  · have count : len / 2 + 1 = 1 + (len - 1) / 2 := by omega
    rw [count, all]
    simp only [if_neg even, Option.bind_fun_some]

/-- What a plan does to a real signal. -/
def Analyses (exec : List ℝ → Option (List ℝ)) (len : Nat) (fct : ℝ) : Prop :=
  ∀ x : Nat → ℝ, exec (tabulate len x) =
    some (tabulate len fun p => fct * halfCell (dft true len fun j => x j) p)

/-- What it does to a symmetric spectrum. -/
def Synthesises (exec : List ℝ → Option (List ℝ)) (len : Nat) (fct : ℝ) : Prop :=
  ∀ X, Conjugate len X → exec (tabulate len (halfCell X)) =
    some (tabulate len fun i => fct * (dft false len X i).re)

/-- A round of real lanes. -/
theorem roundR2C_maps {exec : List ℝ → Option (List ℝ)} {fct : ℝ} (analyses : Analyses exec len fct)
    (addressed : Addressed (realToBins lanes len I O) a iarr oarr axis) (positive : 0 < len)
    (room : vlen ≤ lanes → len * vlen ≤ tmp) (forward : Bool) :
    MapsLanes (realToBins lanes len I O) iarr oarr axis vlen
      (fun x i => scalars (dft forward len (fun j => reals x j) i * fct))
      (roundR2C a exec len vlen tmp forward) := by
  intro k it m x last given fits reads
  have loaded : tabulateM vlen (copyReals a it len m) =
      some (tabulate vlen fun j => tabulate len (reals (x (k + j)))) :=
    tabulateM_eq fun j below => copyReals_eq given addressed fits below
      (by change k + vlen ≤ lanes at last; omega) (reads j below)
  let X : Nat → Nat → ℂ := fun j q => dft true len (fun i => reals (x (k + j)) i) q * fct
  have transformed : (tabulate vlen fun j => tabulate len (reals (x (k + j)))).mapM exec =
      some (tabulate vlen fun j => tabulate len (halfCell (X j))) := by
    refine mapM_tabulate fun j _ => (analyses _).trans (congrArg some ?_)
    exact tabulate_congr fun p _ => (halfCell_mul _ fct p).symm
  have ends : ∀ j, RealEnds len (X j) := by
    intro j
    obtain ⟨first, middle⟩ := realEnds_dft (n := len) true (reals (x (k + j)))
    refine ⟨?_, fun even => ?_⟩
    · simp only [X, Complex.im_mul_ofReal, first, zero_mul]
    · simp only [X, Complex.im_mul_ofReal, middle even, zero_mul]
  obtain ⟨m', run, within, writes⟩ := storeBins_eq given addressed fits last positive forward ends
  refine ⟨m', ?_, within, fun j below i inside => ?_⟩
  · have enough := room ((Nat.le_add_left vlen k).trans last)
    rw [roundR2C, if_neg (by omega), loaded]
    refine (congrArg (Option.bind · _) transformed).trans ?_
    exact run
  · exact (writes j below i inside).trans (congrArg scalars (oriented_dft forward _ fct i))

theorem loadReal_eq (given : Given iarr oarr axis k c it)
    (addressed : Addressed (binsToReal lanes len I O) a iarr oarr axis)
    (fits : (binsToReal lanes len I O).Fits m) {j : Nat} (below : j < c) (lane : k + j < lanes)
    {x : Nat → List ℝ} (reads : (binsToReal lanes len I O).Reads m (k + j) x) {ii : Nat}
    (inside : ii < len / 2 + 1) (i : Nat) :
    loadReal a it m j ii i = fun tdata => storeCell tdata i (signal x ii).re := by
  funext tdata
  have src := given.src_eq addressed below lane inside
  have cell : m.read (I (k + j) ii) 2 = x ii := reads ii inside
  have loaded := load_eq (fits.input (k + j) ii lane inside) Nat.two_pos
  change m.load (I (k + j) ii) 0 = some ((m.read (I (k + j) ii) 2).getD 0 0) at loaded
  rw [cell] at loaded
  change a.src it j ii = some (I (k + j) ii) at src
  simp only [loadReal, src, loaded, Option.bind_eq_bind, Option.bind_some]
  rfl

theorem loadImag_eq (given : Given iarr oarr axis k c it)
    (addressed : Addressed (binsToReal lanes len I O) a iarr oarr axis)
    (fits : (binsToReal lanes len I O).Fits m) {j : Nat} (below : j < c) (lane : k + j < lanes)
    {x : Nat → List ℝ} (reads : (binsToReal lanes len I O).Reads m (k + j) x) {ii : Nat}
    (inside : ii < len / 2 + 1) (forward : Bool) (i : Nat) :
    loadImag a it m forward j ii i =
      fun tdata => storeCell tdata i (if forward then -(signal x ii).im else (signal x ii).im) := by
  funext tdata
  have src := given.src_eq addressed below lane inside
  have cell : m.read (I (k + j) ii) 2 = x ii := reads ii inside
  have loaded := load_eq (fits.input (k + j) ii lane inside) Nat.one_lt_two
  change m.load (I (k + j) ii) 1 = some ((m.read (I (k + j) ii) 2).getD 1 0) at loaded
  rw [cell] at loaded
  change a.src it j ii = some (I (k + j) ii) at src
  simp only [loadImag, src, loaded, Option.bind_eq_bind, Option.bind_some]
  rfl

theorem loadBins_eq (given : Given iarr oarr axis k c it)
    (addressed : Addressed (binsToReal lanes len I O) a iarr oarr axis)
    (fits : (binsToReal lanes len I O).Fits m) (positive : 0 < len) (forward : Bool) {j : Nat}
    (below : j < c) (lane : k + j < lanes) {x : Nat → List ℝ}
    (reads : (binsToReal lanes len I O).Reads m (k + j) x) :
    loadBins a it len forward m j =
      some (tabulate len (halfCell (oriented (!forward) (hermitian len (signal x))))) := by
  have real := fun {ii : Nat} (inside : ii < len / 2 + 1) (i : Nat) =>
    loadReal_eq given addressed fits below lane reads inside i
  have imag := fun {ii : Nat} (inside : ii < len / 2 + 1) (i : Nat) =>
    loadImag_eq given addressed fits below lane reads inside forward i
  have re : ∀ q, q ≤ len / 2 →
      (signal x q).re = (oriented (!forward) (hermitian len (signal x)) q).re := by
    intro q low
    rw [oriented_re, hermitian, if_pos low]
  have im : ∀ q, q ≤ len / 2 → (if forward then -(signal x q).im else (signal x q).im) =
      (oriented (!forward) (hermitian len (signal x)) q).im := by
    intro q low
    rw [oriented_im, hermitian, if_pos low]
    cases forward <;> rfl
  have first : Fills len (halfCell (oriented (!forward) (hermitian len (signal x)))) (· = 0)
      (loadReal a it m j 0 0) := by
    rw [real (Nat.succ_pos _)]
    exact fills_storeCell positive (re 0 (Nat.zero_le _))
  have pairs : Fills len (halfCell (oriented (!forward) (hermitian len (signal x))))
      (fun p => ∃ t, t < (len - 1) / 2 ∧ (p = 1 + 2 * t ∨ p = 1 + 2 * t + 1))
      (forLoop ((len - 1) / 2) fun t tdata =>
        (loadReal a it m j (t + 1) (1 + 2 * t) tdata).bind
          (loadImag a it m forward j (t + 1) (1 + 2 * t + 1))) := by
    refine fills_forLoop fun t before => ?_
    have low : 1 + 2 * t = 2 * (t + 1) - 1 := by omega
    have high : 1 + 2 * t + 1 = 2 * (t + 1) := by omega
    rw [real (by omega), imag (by omega)]
    refine Fills.bind (fills_storeCell (by omega) ?_) (fills_storeCell (by omega) ?_)
    · rw [low, halfCell_re (Nat.succ_pos t), re _ (by omega)]
    · rw [high, halfCell_im (Nat.succ_pos t), im _ (by omega)]
  have middle : Fills len (halfCell (oriented (!forward) (hermitian len (signal x))))
      (fun p => 1 + 2 * ((len - 1) / 2) < len ∧ p = 1 + 2 * ((len - 1) / 2))
      (fun tdata => if 1 + 2 * ((len - 1) / 2) < len then
        loadReal a it m j ((len - 1) / 2 + 1) (1 + 2 * ((len - 1) / 2)) tdata
        else some tdata) := by
    by_cases even : 1 + 2 * ((len - 1) / 2) < len
    · have place : 1 + 2 * ((len - 1) / 2) = 2 * ((len - 1) / 2 + 1) - 1 := by omega
      simp only [if_pos even, real (by omega : (len - 1) / 2 + 1 < len / 2 + 1)]
      refine Fills.mono (fills_storeCell even ?_) fun p inside => inside.2
      rw [place, halfCell_re (Nat.succ_pos _), re _ (by omega)]
    · simp only [if_neg even]
      exact fills_some.mono fun p inside => even inside.1
  refine (first.bind (pairs.bind middle)).eq (fun p inside => ?_) _ List.length_replicate
  rcases Nat.eq_zero_or_pos p with rfl | later
  · exact .inl rfl
  · refine .inr ?_
    by_cases paired : (p - 1) / 2 < (len - 1) / 2
    · exact .inl ⟨(p - 1) / 2, paired, by omega⟩
    · exact .inr ⟨by omega, by omega⟩

theorem storeReals_eq (given : Given iarr oarr axis k c it)
    (addressed : Addressed (binsToReal lanes len I O) a iarr oarr axis)
    (fits : (binsToReal lanes len I O).Fits m) (last : k + c ≤ lanes) (y : Nat → Nat → ℝ) :
    ∃ m', storeReals a it c len (tabulate c fun j => tabulate len (y j)) m = some m' ∧
      m.Within ((binsToReal lanes len I O).Outputs k c) m' ∧
      ∀ j, j < c → (binsToReal lanes len I O).Writes m' (k + j) fun i => [y j i] := by
  refine fits.storeLanes_eq last _ (fun j i => [y j i]) (fun j i => rfl)
    fun i j m' row column room => ?_
  have dst := given.dst_eq addressed column (by change _ < lanes; omega) row
  have lane : (tabulate c fun j => tabulate len (y j))[j]? = some (tabulate len (y j)) :=
    getElem?_tabulate column
  have cell : (tabulate len (y j))[i]? = some (y j i) := getElem?_tabulate row
  simp only [lane, cell, dst, Option.bind_eq_bind, Option.bind_some]
  exact Mem.store_first (k := 0) (y j i) room

/-- A round of bins. -/
theorem roundC2R_maps {exec : List ℝ → Option (List ℝ)} {fct : ℝ}
    (synthesises : Synthesises exec len fct)
    (addressed : Addressed (binsToReal lanes len I O) a iarr oarr axis) (positive : 0 < len)
    (room : vlen ≤ lanes → len * vlen ≤ tmp) (forward : Bool) :
    MapsLanes (binsToReal lanes len I O) iarr oarr axis vlen
      (fun x i => [fct * (dft forward len (hermitian len (signal x)) i).re])
      (roundC2R a exec len vlen tmp forward) := by
  intro k it m x last given fits reads
  have loaded : tabulateM vlen (loadBins a it len forward m) = some (tabulate vlen fun j =>
      tabulate len (halfCell (oriented (!forward) (hermitian len (signal (x (k + j))))))) :=
    tabulateM_eq fun j below => loadBins_eq given addressed fits positive forward below
      (by change k + vlen ≤ lanes at last; omega) (reads j below)
  have transformed : (tabulate vlen fun j =>
      tabulate len (halfCell (oriented (!forward) (hermitian len (signal (x (k + j))))))).mapM
        exec = some (tabulate vlen fun j => tabulate len fun i =>
          fct * (dft forward len (hermitian len (signal (x (k + j)))) i).re) := by
    refine mapM_tabulate fun j below => ?_
    -- the cells do not hold the imaginary parts of the end bins, and the sum ignores them
    have symmetric := conjugate_oriented
      (conjugate_hermitian (realEnds_realBins len (signal (x (k + j))))) (!forward)
    have cells : tabulate len (halfCell (oriented (!forward) (hermitian len (signal (x (k + j)))))) =
        tabulate len (halfCell
          (oriented (!forward) (hermitian len (realBins len (signal (x (k + j))))))) :=
      tabulate_congr fun p inside => (halfCell_realBins (!forward) _ inside).symm
    rw [cells]
    refine (synthesises _ symmetric).trans (congrArg some (tabulate_congr fun i _ => ?_))
    rw [dft_oriented_re, dft_hermitian_realBins_re]
  obtain ⟨m', run, within, writes⟩ := storeReals_eq given addressed fits last
    fun j i => fct * (dft forward len (hermitian len (signal (x (k + j)))) i).re
  refine ⟨m', ?_, within, writes⟩
  have enough := room ((Nat.le_add_left vlen k).trans last)
  rw [roundC2R, if_neg (by omega), loaded]
  refine (congrArg (Option.bind · _) transformed).trans ?_
  exact run

/-! ## All lanes -/

/-- Memory for vectors of lanes if there are enough lanes. -/
theorem allocTmp_room {shape : List Nat} (wide : 0 < vlen)
    (others : Fft.Pocketfft.prod shape / len = lanes) :
    (vlen ≤ lanes → len * vlen ≤ allocTmp shape len vlen) ∧ len * 1 ≤ allocTmp shape len vlen := by
  rw [allocTmp, others]
  refine ⟨fun enough => ?_, Nat.mul_le_mul_left len ?_⟩
  · rw [if_pos enough]
  · split
    · exact wide
    · exact Nat.le_refl 1

/-- Every real lane is transformed, and nothing else is touched. -/
theorem passR2C_eq {plan : PocketfftR ℝ} (sound : plan.Sound len)
    (axes : MultiIter.Lanes iarr oarr axis) (length : iarr.dim axis = len) (wide : 0 < vlen)
    (all : MultiIter.total iarr axis = lanes)
    (addressed : Addressed (realToBins lanes len I O) a iarr oarr axis)
    (fits : (realToBins lanes len I O).Fits m) (forward : Bool) (fct : ℝ) :
    ∃ m', passR2C Trig.real vlen plan forward a iarr oarr axis fct m = some m' ∧
      m.Within ((realToBins lanes len I O).Outputs 0 lanes) m' ∧
      ∀ k, k < lanes → ∀ i, i < len / 2 + 1 → m'.read (O k i) 2 =
        scalars (dft forward len (fun j => reals (fun i => m.read (I k i) 1) j) i * fct) := by
  subst all
  have positive : 0 < len := length ▸ axes.dim_pos axes.inside
  have analyses : Analyses (fun c => plan.exec Trig.real c fct true) len fct :=
    fun x => sound.forward x fct
  have others : Fft.Pocketfft.prod iarr.shape / len = MultiIter.total iarr axis := by
    rw [← length]
    exact axes.size_div
  obtain ⟨vectors, single⟩ := allocTmp_room wide others
  rw [passR2C, length]
  exact runLanes_eq (x := fun k i => m.read (I k i) 1) axes rfl wide fits (fun k _ i _ => rfl)
    (fun _ => roundR2C_maps analyses addressed positive vectors forward)
    (roundR2C_maps analyses addressed positive (fun _ => single) forward)

/-- Every half of a spectrum is transformed. -/
theorem passC2R_eq {plan : PocketfftR ℝ} (sound : plan.Sound len) (positive : 0 < len)
    (axes : MultiIter.Lanes iarr oarr axis) (length : oarr.dim axis = len) (wide : 0 < vlen)
    (all : MultiIter.total iarr axis = lanes)
    (others : Fft.Pocketfft.prod oarr.shape / len = lanes)
    (addressed : Addressed (binsToReal lanes len I O) a iarr oarr axis)
    (fits : (binsToReal lanes len I O).Fits m)
    (forward : Bool) (fct : ℝ) :
    ∃ m', passC2R Trig.real vlen plan forward a iarr oarr axis fct m = some m' ∧
      m.Within ((binsToReal lanes len I O).Outputs 0 lanes) m' ∧
      ∀ k, k < lanes → ∀ i, i < len → m'.read (O k i) 1 =
        [fct * (dft forward len (hermitian len (signal fun i => m.read (I k i) 2)) i).re] := by
  subst all
  have synthesises : Synthesises (fun c => plan.exec Trig.real c fct false) len fct :=
    fun X conjugate => sound.backward X fct conjugate
  obtain ⟨vectors, single⟩ := allocTmp_room wide others
  rw [passC2R, length]
  exact runLanes_eq (x := fun k i => m.read (I k i) 2) axes rfl wide fits (fun k _ i _ => rfl)
    (fun _ => roundC2R_maps synthesises addressed positive vectors forward)
    (roundC2R_maps synthesises addressed positive (fun _ => single) forward)

end Round

end DspDispatch.Pocketfft
