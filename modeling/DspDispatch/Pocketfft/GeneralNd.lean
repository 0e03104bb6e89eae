import DspDispatch.Pocketfft.Lanes
import DspDispatch.Pocketfft.PocketfftC

/-!
# Complex transforms along one axis of an array (`general_nd` with `ExecC2C`)

The lanes are copied to a temporary array, transformed there and copied to the output, or
transformed where they are to be written if the elements of an output lane are adjacent.
Vectors of lanes are kept as one array for each of their lanes: what is done to a vector is
done to every lane.

`passC2C_eq` says that every lane is transformed and nothing else is touched, for any shape,
axis and strides, in place and out of place.
-/

namespace DspDispatch.Pocketfft

open Kit

section Model

variable {K : Type}

/-- A `cmplx<T>` in memory. -/
def loadCmplx (m : Mem K) (p : Ptr) : Option (Cmplx K) := do
  let r ← m.load p 0
  let i ← m.load p 1
  some ⟨r, i⟩

def storeCmplx (m : Mem K) (p : Ptr) (v : Cmplx K) : Option (Mem K) :=
  (m.store p 0 v.r).bind fun m => m.store p 1 v.i

/-- The arrays `in` and `out`: the size of a real number and where they begin. -/
structure NdArrays where
  rb : Nat
  input : Ptr
  output : Ptr

/-- `&in[it.iofs(j,i)]` and `&out[it.oofs(j,i)]`. -/
def NdArrays.src (a : NdArrays) (it : MultiIter) (j i : Nat) : Option Ptr :=
  (it.iofs j i).bind (address a.rb a.input)

def NdArrays.dst (a : NdArrays) (it : MultiIter) (j i : Nat) : Option Ptr :=
  (it.oofs j i).bind (address a.rb a.output)

/-- `copy_input` for one lane of a vector. -/
def copyInput (a : NdArrays) (it : MultiIter) (len : Nat) (m : Mem K) (j : Nat) :
    Option (List (Cmplx K)) :=
  tabulateM len fun i => (a.src it j i).bind (loadCmplx m)

/-- `copy_output`. -/
def copyOutput (a : NdArrays) (it : MultiIter) (vlen len : Nat) (buf : List (List (Cmplx K)))
    (m : Mem K) : Option (Mem K) :=
  forLoop len (fun i => forLoop vlen fun j m => do
    let lane ← buf[j]?
    let v ← lane[i]?
    let p ← a.dst it j i
    storeCmplx m p v) m

/-- `ExecC2C` with the temporary array of `tmp` elements; `exec` is the plan with the factor
and the direction. -/
def execStorage (a : NdArrays) (exec : List (Cmplx K) → Option (List (Cmplx K)))
    (len vlen tmp : Nat) (it : MultiIter) (m : Mem K) : Option (Mem K) :=
  if tmp < len * vlen then none
  else do
    let buf ← tabulateM vlen (copyInput a it len m)
    let buf ← buf.mapM exec
    copyOutput a it vlen len buf m

/-- The lane is copied to the output unless it is there. -/
def copyLane (a : NdArrays) (it : MultiIter) (len : Nat) (buf : Ptr) (m : Mem K) :
    Option (Mem K) := do
  let src ← a.src it 0 0
  if buf = src then some m
  else forLoop len (fun i m => do
    let v ← (a.src it 0 i).bind (loadCmplx m)
    storeCmplx m (buf.add (i * 2)) v) m

/-- `ExecC2C` on an output lane of adjacent elements. -/
def execInPlace (a : NdArrays) (exec : List (Cmplx K) → Option (List (Cmplx K))) (len : Nat)
    (it : MultiIter) (m : Mem K) : Option (Mem K) := do
  let buf ← a.dst it 0 0
  let m ← copyLane a it len buf m
  let cc ← tabulateM len fun i => loadCmplx m (buf.add (i * 2))
  let cc ← exec cc
  forLoop len (fun i m => do
    let v ← cc[i]?
    storeCmplx m (buf.add (i * 2)) v) m

/-- One lane: `it.stride_out() == sizeof(T)`. -/
def execSingle (a : NdArrays) (exec : List (Cmplx K) → Option (List (Cmplx K))) (len tmp : Nat)
    (it : MultiIter) (m : Mem K) : Option (Mem K) :=
  if it.strO = (2 * a.rb : Nat) then execInPlace a exec len it m
  else execStorage a exec len 1 tmp it m

/-- `general_nd` with `ExecC2C` for one axis, once the plan is there; `vlen` is
`VLEN<T0>::val`. -/
def passC2C [Field K] [DecidableEq K] (t : Trig K) (vlen : Nat) (plan : PocketfftC K) (fwd : Bool)
    (a : NdArrays) (iarr oarr : ArrInfo) (axis : Nat) (fct : K) (m : Mem K) : Option (Mem K) :=
  let len := iarr.dim axis
  let exec := fun c => plan.exec t c fct fwd
  let tmp := allocTmp iarr.shape len vlen
  (MultiIter.make vlen iarr oarr axis 1 0).bind fun it =>
    runLanes vlen (execStorage a exec len vlen tmp) (execSingle a exec len tmp) it m

end Model

/-! ## Elements -/

section Elements

variable {m : Mem ℝ} {p : Ptr}

/-- The scalars of a complex number. -/
def scalars (z : ℂ) : List ℝ := [z.re, z.im]

theorem loadCmplx_eq (holds : m.Holds p 2) :
    loadCmplx m p = some (ofComplex (complexAt (m.read p 2) 0)) := by
  obtain ⟨x, first⟩ : ∃ x, m.load p 0 = some x :=
    ⟨_, List.getElem?_eq_getElem (by simp only [Mem.Holds] at holds; omega)⟩
  obtain ⟨y, second⟩ : ∃ y, m.load p 1 = some y :=
    ⟨_, List.getElem?_eq_getElem (by simp only [Mem.Holds] at holds; omega)⟩
  have read : m.read p 2 = [x, y] := segment_two first second
  rw [loadCmplx, first, second, read]
  rfl

theorem storeCmplx_eq (holds : m.Holds p 2) (z : ℂ) :
    storeCmplx m p (ofComplex z) = some (m.write p (scalars z)) := by
  have first := Mem.store_first (m := m) (p := p) (k := 0) z.re (by
    simp only [Mem.Holds] at holds ⊢
    omega)
  have second := Mem.store_second (m := m) (p := p) (k := 0) z.re z.im holds
  have origin : p.add 0 = p := rfl
  rw [origin] at first second
  have stored : storeCmplx m p (ofComplex z) = (m.store p 0 z.re).bind fun m => m.store p 1 z.im :=
    rfl
  rw [stored, first]
  exact second

theorem complexAt_scalars (z : ℂ) : complexAt (scalars z) 0 = z := rfl

end Elements

/-! ## One round -/

section Round

variable {l : Layout} {a : NdArrays} {iarr oarr : ArrInfo} {axis k c len vlen tmp : Nat}
  {it : MultiIter} {m : Mem ℝ}

/-- The layout has the addresses the iterator computes. -/
structure Addressed (l : Layout) (a : NdArrays) (iarr oarr : ArrInfo) (axis : Nat) : Prop where
  input : ∀ k i, k < l.lanes → i < l.ni →
    address a.rb a.input (MultiIter.laneOfs iarr axis iarr k + i * iarr.step axis) = some (l.I k i)
  output : ∀ k i, k < l.lanes → i < l.no →
    address a.rb a.output (MultiIter.laneOfs iarr axis oarr k + i * oarr.step axis) =
      some (l.O k i)

theorem Given.src_eq (given : Given iarr oarr axis k c it) (addressed : Addressed l a iarr oarr axis)
    {j i : Nat} (below : j < c) (lane : k + j < l.lanes) (inside : i < l.ni) :
    a.src it j i = some (l.I (k + j) i) := by
  rw [NdArrays.src, MultiIter.iofs, (given.offsets j below).1, MultiIter.strI, given.input,
    given.lanes, Option.map_some, Option.bind_some, addressed.input (k + j) i lane inside]

theorem Given.dst_eq (given : Given iarr oarr axis k c it) (addressed : Addressed l a iarr oarr axis)
    {j i : Nat} (below : j < c) (lane : k + j < l.lanes) (inside : i < l.no) :
    a.dst it j i = some (l.O (k + j) i) := by
  rw [NdArrays.dst, MultiIter.oofs, (given.offsets j below).2, MultiIter.strO, given.output,
    given.lanes, Option.map_some, Option.bind_some, addressed.output (k + j) i lane inside]

/-- A layout of complex elements. -/
def complexLayout (lanes len : Nat) (I O : Nat → Nat → Ptr) : Layout := ⟨lanes, len, 2, len, 2, I, O⟩

variable {lanes : Nat} {I O : Nat → Nat → Ptr}

/-- A lane as complex numbers. -/
noncomputable def signal (x : Nat → List ℝ) (i : Nat) : ℂ := complexAt (x i) 0

theorem copyInput_eq (given : Given iarr oarr axis k c it)
    (addressed : Addressed (complexLayout lanes len I O) a iarr oarr axis)
    (fits : (complexLayout lanes len I O).Fits m) {j : Nat} (below : j < c) (lane : k + j < lanes)
    {x : Nat → List ℝ} (reads : (complexLayout lanes len I O).Reads m (k + j) x) :
    copyInput a it len m j = some (Cfftp.samples len (signal x)) := by
  refine tabulateM_eq fun i inside => ?_
  have src := given.src_eq addressed below lane inside
  have cell : m.read (I (k + j) i) 2 = x i := reads i inside
  rw [src, Option.bind_some, loadCmplx_eq (fits.input (k + j) i lane inside)]
  change some (ofComplex (complexAt (m.read (I (k + j) i) 2) 0)) = _
  rw [cell, signal]

theorem copyOutput_eq (given : Given iarr oarr axis k c it)
    (addressed : Addressed (complexLayout lanes len I O) a iarr oarr axis)
    (fits : (complexLayout lanes len I O).Fits m) (last : k + c ≤ lanes) (G : Nat → Nat → ℂ) :
    ∃ m', copyOutput a it c len (tabulate c fun j => Cfftp.samples len (G j)) m = some m' ∧
      m.Within ((complexLayout lanes len I O).Outputs k c) m' ∧
      ∀ j, j < c → (complexLayout lanes len I O).Writes m' (k + j) fun i => scalars (G j i) := by
  refine fits.storeLanes_eq last _ (fun j i => scalars (G j i)) (fun j i => rfl)
    fun i j m' row column room => ?_
  have dst := given.dst_eq addressed column (by change _ < lanes; omega) row
  have lane : (tabulate c fun j => Cfftp.samples len (G j))[j]? = some (Cfftp.samples len (G j)) :=
    getElem?_tabulate column
  have cell : (Cfftp.samples len (G j))[i]? = some (ofComplex (G j i)) := getElem?_tabulate row
  simp only [lane, cell, dst, Option.bind_eq_bind, Option.bind_some]
  exact storeCmplx_eq room _

/-- What a plan does to a signal. -/
def Computes (exec : List (Cmplx ℝ) → Option (List (Cmplx ℝ))) (len : Nat)
    (G : (Nat → ℂ) → Nat → ℂ) : Prop :=
  ∀ z, exec (Cfftp.samples len z) = some (Cfftp.samples len (G z))

/-- A round through the temporary array. -/
theorem execStorage_maps {exec : List (Cmplx ℝ) → Option (List (Cmplx ℝ))}
    {G : (Nat → ℂ) → Nat → ℂ} (computes : Computes exec len G)
    (addressed : Addressed (complexLayout lanes len I O) a iarr oarr axis)
    (room : len * vlen ≤ tmp) :
    MapsLanes (complexLayout lanes len I O) iarr oarr axis vlen
      (fun x i => scalars (G (signal x) i)) (execStorage a exec len vlen tmp) := by
  intro k it m x last given fits reads
  have loaded : tabulateM vlen (copyInput a it len m) =
      some (tabulate vlen fun j => Cfftp.samples len (signal (x (k + j)))) :=
    tabulateM_eq fun j below => copyInput_eq given addressed fits below
      (by change k + vlen ≤ lanes at last; omega) (reads j below)
  have transformed : (tabulate vlen fun j => Cfftp.samples len (signal (x (k + j)))).mapM exec =
      some (tabulate vlen fun j => Cfftp.samples len (G (signal (x (k + j))))) :=
    mapM_tabulate fun j _ => computes _
  obtain ⟨m', run, within, writes⟩ := copyOutput_eq given addressed fits last
    fun j => G (signal (x (k + j)))
  refine ⟨m', ?_, within, writes⟩
  rw [execStorage, if_neg (by omega), loaded]
  refine (congrArg (Option.bind · _) transformed).trans ?_
  exact run

/-! ## One lane in the output array -/

/-- A loop that writes the elements of one lane. -/
theorem writeLane_eq (fits : (complexLayout lanes len I O).Fits m) (lane : k < lanes)
    (body : Nat → Mem ℝ → Option (Mem ℝ)) (g : Nat → ℂ)
    (step : ∀ i, i < len → ∀ m', m.Within (Elements (O k) 2 i) m' →
      body i m' = some (m'.write (O k i) (scalars (g i)))) :
    ∃ m', forLoop len body m = some m' ∧ m.Within ((complexLayout lanes len I O).Outputs k 1) m' ∧
      (complexLayout lanes len I O).Writes m' k fun i => scalars (g i) := by
  obtain ⟨m', run, within, written⟩ := forLoop_writes len 2 body (O k)
    (fun i => scalars (g i)) m (fun i inside => fits.output k i lane inside)
    (fun i j inside before => fits.separate k i k j lane inside lane (before.trans inside)
      (.inr before.ne')) (fun i _ => rfl) step
  refine ⟨m', run, within.mono ?_, written⟩
  rintro block off ⟨i, inside, covers⟩
  exact ⟨0, Nat.one_pos, i, inside, covers⟩

/-- A range has cells in common with itself. -/
theorem not_apart_self {p : Ptr} : ¬ Apart p 2 p 2 := by
  rintro (blocks | before | after)
  · exact blocks rfl
  · omega
  · omega

/-- The output lane holds the signal, whether it was copied or there. -/
theorem copyLane_eq (given : Given iarr oarr axis k 1 it)
    (addressed : Addressed (complexLayout lanes len I O) a iarr oarr axis)
    (adjacent : ∀ i, i < len → (O k 0).add (i * 2) = O k i)
    (fits : (complexLayout lanes len I O).Fits m) (lane : k < lanes) (positive : 0 < len)
    {x : Nat → List ℝ} (reads : (complexLayout lanes len I O).Reads m k x) :
    ∃ m', copyLane a it len (O k 0) m = some m' ∧
      m.Within ((complexLayout lanes len I O).Outputs k 1) m' ∧
      ∀ i, i < len → complexAt (m'.read (O k i) 2) 0 = signal x i := by
  have src : ∀ i, i < len → a.src it 0 i = some (I k i) := fun i inside =>
    given.src_eq addressed Nat.one_pos lane inside
  have cell : ∀ i, i < len → m.read (I k i) 2 = x i := reads
  simp only [copyLane, src 0 positive, Option.bind_eq_bind, Option.bind_some]
  rcases fits.own with ⟨-, -, same⟩ | apart
  · refine ⟨m, if_pos (same k 0 lane positive).symm, Mem.Within.refl _ m, fun i inside => ?_⟩
    have here : I k i = O k i := same k i lane inside
    rw [← here, cell i inside, signal]
  · have disjoint : Apart (O k 0) 2 (I k 0) 2 := apart k 0 0 lane positive positive
    have other : O k 0 ≠ I k 0 := by
      intro same
      rw [same] at disjoint
      exact not_apart_self disjoint
    rw [if_neg other]
    obtain ⟨m', run, within, writes⟩ := writeLane_eq fits lane
      (fun i m => do
        let v ← (a.src it 0 i).bind (loadCmplx m)
        storeCmplx m ((O k 0).add (i * 2)) v) (signal x) (by
      intro i inside m' within
      have load : m'.read (I k i) 2 = x i := by
        rw [within.read fun block off covers => ?_, cell i inside]
        rintro ⟨j, before, touched⟩
        exact (apart k j i lane (before.trans inside) inside).not_covers touched covers
      have holdsI := within.holds.mpr (fits.input k i lane inside)
      have holdsO := within.holds.mpr (fits.output k i lane inside)
      change m'.Holds (I k i) 2 at holdsI
      simp only [src i inside, Option.bind_some, loadCmplx_eq holdsI, load, adjacent i inside,
        Option.bind_eq_bind]
      exact storeCmplx_eq holdsO (signal x i))
    have written : ∀ i, i < len → m'.read (O k i) 2 = scalars (signal x i) := writes
    exact ⟨m', run, within, fun i inside => by rw [written i inside, complexAt_scalars]⟩

/-- A round in the output array. -/
theorem execInPlace_maps {exec : List (Cmplx ℝ) → Option (List (Cmplx ℝ))}
    {G : (Nat → ℂ) → Nat → ℂ} (computes : Computes exec len G)
    (addressed : Addressed (complexLayout lanes len I O) a iarr oarr axis)
    (adjacent : ∀ k i, k < lanes → i < len → (O k 0).add (i * 2) = O k i) (positive : 0 < len) :
    MapsLanes (complexLayout lanes len I O) iarr oarr axis 1
      (fun x i => scalars (G (signal x) i)) (execInPlace a exec len) := by
  intro k it m x last given fits reads
  have lane : k < lanes := last
  have dst : a.dst it 0 0 = some (O k 0) := given.dst_eq addressed Nat.one_pos lane positive
  obtain ⟨m₁, copied, within₁, holds⟩ := copyLane_eq given addressed (adjacent k · lane) fits lane
    positive (reads 0 Nat.one_pos)
  have fits₁ := fits.of_within within₁
  have loaded : (tabulateM len fun i => loadCmplx m₁ ((O k 0).add (i * 2))) =
      some (Cfftp.samples len (signal (x k))) := by
    refine tabulateM_eq fun i inside => ?_
    have room : m₁.Holds (O k i) 2 := fits₁.output k i lane inside
    rw [adjacent k i lane inside, loadCmplx_eq room]
    exact congrArg (fun z => some (ofComplex z)) (holds i inside)
  obtain ⟨m₂, stored, within₂, writes⟩ := writeLane_eq fits₁ lane
    (fun i m => do
      let v ← (Cfftp.samples len (G (signal (x k))))[i]?
      storeCmplx m ((O k 0).add (i * 2)) v) (G (signal (x k))) (by
    intro i inside m' within
    have cell : (Cfftp.samples len (G (signal (x k))))[i]? =
        some (ofComplex (G (signal (x k)) i)) := getElem?_tabulate inside
    have holdsO := within.holds.mpr (fits₁.output k i lane inside)
    simp only [cell, adjacent k i lane inside, Option.bind_eq_bind, Option.bind_some]
    exact storeCmplx_eq holdsO _)
  refine ⟨m₂, ?_, within₁.trans within₂, fun j below => ?_⟩
  · simp only [execInPlace, dst, copied, loaded, computes (signal (x k)), Option.bind_eq_bind,
      Option.bind_some]
    exact stored
  · obtain rfl : j = 0 := by omega
    exact writes

/-- Adjacent elements of an array. -/
theorem address_add {rb : Nat} {d p : Ptr} {ofs : Int} (found : address rb d ofs = some p)
    (positive : 0 < rb) (i : Nat) :
    address rb d (ofs + i * (2 * rb : Nat)) = some (p.add (i * 2)) := by
  have unit : (rb : Int) ≠ 0 := by omega
  rw [address] at found
  split at found
  · rename_i valid
    obtain ⟨⟨c, rfl⟩, start⟩ := valid
    rw [Int.mul_ediv_cancel_left _ unit] at found start
    cases found
    have further : (rb : Int) * c + i * (2 * rb : Nat) = rb * (c + (i * 2 : Nat)) := by
      push_cast
      ring
    rw [address, further, Int.mul_ediv_cancel_left _ unit,
      if_pos ⟨Int.dvd_mul_right _ _, by omega⟩]
    simp only [Ptr.shift, Ptr.add, Option.some.injEq, Ptr.mk.injEq, true_and]
    omega
  · cases found

/-- A round on one lane. -/
theorem execSingle_maps {exec : List (Cmplx ℝ) → Option (List (Cmplx ℝ))}
    {G : (Nat → ℂ) → Nat → ℂ} (computes : Computes exec len G)
    (addressed : Addressed (complexLayout lanes len I O) a iarr oarr axis)
    (positive : 0 < len) (size : 0 < a.rb) (room : len ≤ tmp) :
    MapsLanes (complexLayout lanes len I O) iarr oarr axis 1
      (fun x i => scalars (G (signal x) i)) (execSingle a exec len tmp) := by
  intro k it m x last given fits reads
  have stride : it.strO = oarr.step axis := by rw [MultiIter.strO, given.output, given.lanes]
  rw [execSingle, stride]
  split
  · rename_i contiguous
    refine execInPlace_maps computes addressed (fun k i lane inside => ?_) positive k it m x last
      given fits reads
    have first := addressed.output k 0 lane positive
    have here := addressed.output k i lane inside
    rw [Nat.cast_zero, Int.zero_mul, Int.add_zero] at first
    rw [contiguous, address_add first size i] at here
    exact Option.some.inj here
  · exact execStorage_maps computes addressed (by omega) k it m x last given fits reads

/-- Every lane is transformed, and nothing else is touched. -/
theorem passC2C_eq {plan : PocketfftC ℝ} (sound : plan.Sound len)
    (axes : MultiIter.Lanes iarr oarr axis) (length : iarr.dim axis = len) (wide : 0 < vlen)
    (size : 0 < a.rb) (all : MultiIter.total iarr axis = lanes)
    (addressed : Addressed (complexLayout lanes len I O) a iarr oarr axis)
    (fits : (complexLayout lanes len I O).Fits m) (fwd : Bool) (fct : ℝ) :
    ∃ m', passC2C Trig.real vlen plan fwd a iarr oarr axis fct m = some m' ∧
      m.Within ((complexLayout lanes len I O).Outputs 0 lanes) m' ∧
      ∀ k, k < lanes → ∀ i, i < len → m'.read (O k i) 2 =
        scalars (dft fwd len (signal fun i => m.read (I k i) 2) i * fct) := by
  subst all
  have positive : 0 < len := length ▸ axes.dim_pos axes.inside
  have computes : Computes (fun c => plan.exec Trig.real c fct fwd) len
      fun z k => dft fwd len z k * fct := fun z => sound.exec_eq z fct fwd
  have others : Fft.Pocketfft.prod iarr.shape / len = MultiIter.total iarr axis := by
    rw [← length]
    exact axes.size_div
  have tmp : allocTmp iarr.shape len vlen =
      len * if vlen ≤ MultiIter.total iarr axis then vlen else 1 := by
    rw [allocTmp, others]
  have least : len ≤ allocTmp iarr.shape len vlen := by
    rw [tmp]
    refine Nat.le_mul_of_pos_right _ ?_
    split
    · exact wide
    · exact Nat.one_pos
  rw [passC2C, length]
  refine runLanes_eq (x := fun k i => m.read (I k i) 2) axes rfl wide fits
    (fun k _ i _ => rfl) (fun _ => ?_) (execSingle_maps computes addressed positive size least)
  intro k it m x last given fits reads
  -- there is a round on a vector only if there are as many lanes
  have enough : vlen ≤ MultiIter.total iarr axis :=
    (Nat.le_add_left vlen k).trans last
  refine execStorage_maps computes addressed ?_ k it m x last given fits reads
  rw [tmp, if_pos enough]

end Round

end DspDispatch.Pocketfft
