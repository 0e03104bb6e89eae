import DspDispatch.Fft.Pocketfft
import DspDispatch.Kit.Cells
import DspDispatch.Kit.Odometer
import Mathlib.Algebra.Order.BigOperators.Group.Finset

/-!
# The iterator of pocketfft over the lanes of an array (`multi_iter`)

The lanes along one axis of an array of any shape are as many as positions on the other
axes. The iterator holds such a position and the byte offsets of its lane in two arrays,
which it keeps up to date while it counts the position on. Every thread makes one for its
share of the lanes.

`At` says which position an iterator is at. `advance_spec` and `make_spec` are about one
call, and `shares_partition` about the shares of all threads together.
-/

namespace DspDispatch.Pocketfft

open Kit

/-- `arr_info`. -/
structure ArrInfo where
  shape : List Nat
  stride : List Int
deriving DecidableEq, Repr

/-- `shape(i)`. -/
def ArrInfo.dim (a : ArrInfo) (i : Nat) : Nat := a.shape.getD i 0

/-- `stride(i)`. -/
def ArrInfo.step (a : ArrInfo) (i : Nat) : Int := a.stride.getD i 0

/-- `size()`. -/
def ArrInfo.size (a : ArrInfo) : Nat := Fft.Pocketfft.prod a.shape

/-- `multi_iter<N>`; the lists `p_i` and `p_o` have length `N`. -/
structure MultiIter where
  iarr : ArrInfo
  oarr : ArrInfo
  idim : Nat
  pos : List Nat
  pIi : Int
  pI : List Int
  pOi : Int
  pO : List Int
  rem : Nat
deriving DecidableEq, Repr

namespace MultiIter

/-- `str_i` and `str_o`. -/
def strI (it : MultiIter) : Int := it.iarr.step it.idim

def strO (it : MultiIter) : Int := it.oarr.step it.idim

/-- `p_ii += ...; p_oi += ...; ++pos[i];`. -/
def moveOn (i : Nat) (it : MultiIter) : MultiIter :=
  { it with
    pIi := it.pIi + it.iarr.step i
    pOi := it.pOi + it.oarr.step i
    pos := it.pos.set i (it.pos.getD i 0 + 1) }

/-- `pos[i] = 0; p_ii -= ...; p_oi -= ...;`. -/
def startAgain (i : Nat) (it : MultiIter) : MultiIter :=
  { it with
    pos := it.pos.set i 0
    pIi := it.pIi - it.iarr.dim i * it.iarr.step i
    pOi := it.pOi - it.oarr.dim i * it.oarr.step i }

/-- The loop of `advance_i` over the axes below a number. -/
def advanceI : Nat → MultiIter → MultiIter
  | 0, it => it
  | i + 1, it =>
    if i = it.idim then advanceI i it
    else
      let it := moveOn i it
      if it.pos.getD i 0 < it.iarr.dim i then it else advanceI i (startAgain i it)

/-- One iteration of the loop in `advance`. -/
def takeLane (i : Nat) (it : MultiIter) : Option MultiIter := do
  let pI ← storeCell it.pI i it.pIi
  let pO ← storeCell it.pO i it.pOi
  some (advanceI it.pos.length { it with pI := pI, pO := pO })

/-- `advance`; `none` is the exception. -/
def advance (n : Nat) (it : MultiIter) : Option MultiIter :=
  if it.rem < n then none
  else (forLoop n takeLane it).map fun it => { it with rem := it.rem - n }

/-- `iofs(j, i)` and `oofs(j, i)`. -/
def iofs (it : MultiIter) (j i : Nat) : Option Int := it.pI[j]?.map (· + i * it.strI)

def oofs (it : MultiIter) (j i : Nat) : Option Int := it.pO[j]?.map (· + i * it.strO)

/-- The variables of the loop in the constructor that goes to the first lane of a share. -/
structure Seek where
  chunk : Nat
  lo : Nat
  it : MultiIter

/-- One iteration of that loop. -/
def seekStep (i : Nat) (s : Seek) : Seek :=
  if i = s.it.idim then s
  else
    let chunk := s.chunk / s.it.iarr.dim i
    let nAdvance := s.lo / chunk
    { chunk := chunk
      lo := s.lo - nAdvance * chunk
      it := { s.it with
        pos := s.it.pos.set i (s.it.pos.getD i 0 + nAdvance)
        pIi := s.it.pIi + nAdvance * s.it.iarr.step i
        pOi := s.it.pOi + nAdvance * s.it.oarr.step i } }

/-- That loop, up to an axis. -/
def seek (s : Seek) : Nat → Seek
  | 0 => s
  | i + 1 => seekStep i (seek s i)

/-- The first lane of a share of `rem` lanes. -/
def shareLo (rem nshares myshare : Nat) : Nat :=
  myshare * (rem / nshares) + if myshare < rem % nshares then myshare else rem % nshares

/-- The first lane after it. -/
def shareHi (rem nshares myshare : Nat) : Nat :=
  shareLo rem nshares myshare + rem / nshares + if myshare < rem % nshares then 1 else 0

/-- The members before the share is looked at. -/
def fresh (N : Nat) (iarr oarr : ArrInfo) (idim rem : Nat) : MultiIter :=
  { iarr := iarr, oarr := oarr, idim := idim, pos := List.replicate iarr.shape.length 0,
    pIi := 0, pI := List.replicate N 0, pOi := 0, pO := List.replicate N 0, rem := rem }

/-- `rem = todo`. -/
def withRem (todo : Nat) (it : MultiIter) : MultiIter := { it with rem := todo }

/-- The constructor, with the results of `num_threads()` and `thread_id()`; `none` is an
exception. -/
def make (N : Nat) (iarr oarr : ArrInfo) (idim nshares myshare : Nat) : Option MultiIter :=
  let rem := iarr.size / iarr.dim idim
  let it := fresh N iarr oarr idim rem
  if nshares = 1 then some it
  else if nshares = 0 then none
  else if nshares ≤ myshare then none
  else
    let lo := shareLo rem nshares myshare
    let s := seek ⟨rem, lo, it⟩ it.pos.length
    some (withRem (shareHi rem nshares myshare - lo) s.it)

/-! ## Positions -/

/-- The sizes of the axes but the one of the lanes. -/
def radix (a : ArrInfo) (idim i : Nat) : Nat := if i = idim then 1 else a.dim i

/-- The byte offset of a position. -/
def weigh (n : Nat) (a : ArrInfo) (f : Nat → Nat) : Int := ∑ j ∈ Finset.range n, f j * a.step j

/-- The iterator at a position. -/
def placed (it : MultiIter) (f : Nat → Nat) : MultiIter :=
  { it with
    pos := tabulate it.iarr.shape.length f
    pIi := weigh it.iarr.shape.length it.iarr f
    pOi := weigh it.iarr.shape.length it.oarr f }

@[simp] theorem placed_iarr (it : MultiIter) (f : Nat → Nat) : (it.placed f).iarr = it.iarr := rfl

@[simp] theorem placed_idim (it : MultiIter) (f : Nat → Nat) : (it.placed f).idim = it.idim := rfl

/-- The iterator at the `k`th lane of all. -/
def atLane (it : MultiIter) (k : Nat) : MultiIter :=
  it.placed (digit (radix it.iarr it.idim) it.iarr.shape.length k)

/-- The byte offset of the `k`th lane in an array. -/
def laneOfs (iarr : ArrInfo) (idim : Nat) (a : ArrInfo) (k : Nat) : Int :=
  weigh iarr.shape.length a (digit (radix iarr idim) iarr.shape.length k)

/-- The number of lanes. -/
def total (iarr : ArrInfo) (idim : Nat) : Nat := span (radix iarr idim) iarr.shape.length 0

section Steps

variable {it : MultiIter} {f : Nat → Nat} {i k n v : Nat}

theorem weigh_congr {a : ArrInfo} {g : Nat → Nat} (same : ∀ j, j < n → f j = g j) :
    weigh n a f = weigh n a g :=
  Finset.sum_congr rfl fun j member => by rw [same j (Finset.mem_range.mp member)]

theorem weigh_update (a : ArrInfo) (below : i < n) :
    weigh n a (Function.update f i v) = weigh n a f + ((v : Int) - f i) * a.step i := by
  have member := Finset.mem_range.mpr below
  rw [weigh, weigh, ← Finset.add_sum_erase _ _ member, ← Finset.add_sum_erase _ _ member,
    Function.update_self]
  have others : ∀ j ∈ (Finset.range n).erase i,
      (Function.update f i v j : Int) * a.step j = f j * a.step j := fun j other => by
    rw [Function.update_of_ne (Finset.ne_of_mem_erase other)]
  rw [Finset.sum_congr rfl others]
  ring

theorem placed_congr {g : Nat → Nat} (same : ∀ j, j < it.iarr.shape.length → f j = g j) :
    it.placed f = it.placed g := by
  rw [placed, placed, tabulate_congr same, weigh_congr same, weigh_congr same]

theorem set_tabulate {α : Type} {f : Nat → α} (v : α) (below : i < n) :
    (tabulate n f).set i v = tabulate n (Function.update f i v) := by
  have stored := storeCell_tabulate (f := f) v below
  rw [storeCell, if_pos (by rw [length_tabulate]; exact below)] at stored
  exact Option.some.inj stored

theorem getD_tabulate (below : i < n) : (tabulate n f).getD i 0 = f i := by
  rw [List.getD_eq_getElem?_getD, getElem?_tabulate below, Option.getD_some]

/-- Another position on one axis. -/
theorem placed_set (below : i < it.iarr.shape.length) {a b : Int}
    (first : a = weigh it.iarr.shape.length it.iarr f + ((v : Int) - f i) * it.iarr.step i)
    (second : b = weigh it.iarr.shape.length it.oarr f + ((v : Int) - f i) * it.oarr.step i) :
    { it with pos := (tabulate it.iarr.shape.length f).set i v, pIi := a, pOi := b } =
      it.placed (Function.update f i v) := by
  rw [placed, set_tabulate v below, weigh_update it.iarr below, weigh_update it.oarr below, first,
    second]

theorem moveOn_placed (below : i < it.iarr.shape.length) :
    moveOn i (it.placed f) = it.placed (Function.update f i (f i + 1)) := by
  have old : (it.placed f).pos.getD i 0 = f i := getD_tabulate below
  rw [moveOn, old]
  refine placed_set below ?_ ?_
  · push_cast
    change weigh _ _ f + it.iarr.step i = _
    ring
  · push_cast
    change weigh _ _ f + it.oarr.step i = _
    ring

theorem startAgain_placed (below : i < it.iarr.shape.length) (full : f i = it.iarr.dim i)
    (same : it.oarr.dim i = it.iarr.dim i) :
    startAgain i (it.placed f) = it.placed (Function.update f i 0) := by
  refine placed_set below ?_ ?_
  · rw [full]
    push_cast
    change weigh _ _ f - it.iarr.dim i * it.iarr.step i = _
    ring
  · rw [full, ← same]
    push_cast
    change weigh _ _ f - it.oarr.dim i * it.oarr.step i = _
    ring

/-- The odometer: if the faster axes have started again, the others are advanced to the next
position. -/
theorem advanceI_eq
    (positive : ∀ j, j < it.iarr.shape.length → 0 < radix it.iarr it.idim j)
    (same : ∀ j, j < it.iarr.shape.length → j ≠ it.idim → it.oarr.dim j = it.iarr.dim j) :
    ∀ (i : Nat) (f : Nat → Nat), i ≤ it.iarr.shape.length →
      span (radix it.iarr it.idim) it.iarr.shape.length i ∣ k + 1 →
      (∀ j, j < i → f j = digit (radix it.iarr it.idim) it.iarr.shape.length k j) →
      (∀ j, i ≤ j → j < it.iarr.shape.length →
        f j = digit (radix it.iarr it.idim) it.iarr.shape.length (k + 1) j) →
      advanceI i (it.placed f) = it.atLane (k + 1) := by
  intro i
  induction i with
  | zero =>
    intro f _ _ _ after
    exact placed_congr fun j inside => after j (Nat.zero_le j) inside
  | succ i ih =>
    intro f below multiple before after
    have here := before i (Nat.lt_succ_self i)
    rw [advanceI, placed_idim]
    by_cases lanes : i = it.idim
    · -- the axis of the lanes has one position
      have one : radix it.iarr it.idim i = 1 := if_pos lanes
      rw [if_pos lanes]
      refine ih f (Nat.le_of_succ_le below) ?_ (fun j slower => before j (by omega)) ?_
      · rw [span_eq below, one, Nat.one_mul]
        exact multiple
      · intro j from_i inside
        rcases Nat.eq_or_lt_of_le from_i with rfl | faster
        · rw [here, digit_of_one one, digit_of_one one]
        · exact after j faster inside
    · have size : radix it.iarr it.idim i = it.iarr.dim i := if_neg lanes
      have moved : (it.placed (Function.update f i (f i + 1))).pos.getD i 0 = f i + 1 :=
        (getD_tabulate below).trans (Function.update_self ..)
      rw [if_neg lanes]
      simp only [moveOn_placed below, moved, placed_iarr]
      rw [here, ← size]
      split
      · -- the axis moves on
        rename_i room
        obtain ⟨next, slower⟩ := digit_succ_of_lt positive below multiple room
        refine placed_congr fun j inside => ?_
        rcases Nat.lt_trichotomy j i with less | rfl | faster
        · rw [Function.update_of_ne less.ne, before j (by omega), slower j less]
        · rw [Function.update_self, next]
        · rw [Function.update_of_ne faster.ne', after j faster inside]
      · -- the axis starts again
        rename_i full
        obtain ⟨next, multiple'⟩ := digit_succ_of_carry positive below multiple full
        have last := digit_lt (n := it.iarr.shape.length) (k := k) (positive i below)
        rw [startAgain_placed below (by rw [Function.update_self]; omega) (same i below lanes),
          Function.update_idem]
        refine ih _ (Nat.le_of_succ_le below) multiple' (fun j slower => ?_) fun j from_i inside => ?_
        · rw [Function.update_of_ne slower.ne, before j (by omega)]
        · rcases Nat.eq_or_lt_of_le from_i with rfl | faster
          · rw [Function.update_self, next]
          · rw [Function.update_of_ne faster.ne', after j faster inside]

/-- One step of the iterator. -/
theorem advanceI_atLane (it : MultiIter)
    (positive : ∀ j, j < it.iarr.shape.length → 0 < radix it.iarr it.idim j)
    (same : ∀ j, j < it.iarr.shape.length → j ≠ it.idim → it.oarr.dim j = it.iarr.dim j) (k : Nat) :
    advanceI it.iarr.shape.length (it.atLane k) = it.atLane (k + 1) := by
  refine advanceI_eq positive same _ _ (Nat.le_refl _) ?_ (fun j _ => rfl) fun j from_n inside => ?_
  · rw [span_self]
    exact Nat.one_dvd _
  · omega

end Steps

/-! ## Runs -/

/-- Two arrays with the same lanes along an axis: their shapes agree on all others. -/
structure Lanes (iarr oarr : ArrInfo) (idim : Nat) : Prop where
  inside : idim < iarr.shape.length
  positive : ∀ d ∈ iarr.shape, 0 < d
  small : iarr.shape.prod < 2 ^ 64
  same : ∀ i, i < iarr.shape.length → i ≠ idim → oarr.dim i = iarr.dim i

section Lanes

variable {iarr oarr : ArrInfo} {idim k n N : Nat} {it : MultiIter}

theorem Lanes.dim_pos (lanes : Lanes iarr oarr idim) {i : Nat} (below : i < iarr.shape.length) :
    0 < iarr.dim i := by
  rw [ArrInfo.dim, List.getD_eq_getElem?_getD, List.getElem?_eq_getElem below, Option.getD_some]
  exact lanes.positive _ (List.getElem_mem below)

theorem Lanes.radix_pos (lanes : Lanes iarr oarr idim) (i : Nat) (below : i < iarr.shape.length) :
    0 < radix iarr idim i := by
  rw [radix]
  split
  · exact Nat.one_pos
  · exact lanes.dim_pos below

theorem prod_getD (xs : List Nat) : ∏ j ∈ Finset.range xs.length, xs.getD j 0 = xs.prod := by
  induction xs with
  | nil => rfl
  | cons x xs ih =>
    rw [List.length_cons, Finset.prod_range_succ', List.prod_cons, Nat.mul_comm]
    exact congrArg (x * ·) ih

/-- `util::prod` without wraparound. -/
theorem prod_eq {shape : List Nat} (positive : ∀ d ∈ shape, 0 < d)
    (small : shape.prod < 2 ^ 64) : Fft.Pocketfft.prod shape = shape.prod := by
  have all : ∀ (shape : List Nat) (res : Nat), (∀ d ∈ shape, 0 < d) → res * shape.prod < 2 ^ 64 →
      shape.foldl (fun res sz => res * sz % 2 ^ 64) res = res * shape.prod := by
    intro shape
    induction shape with
    | nil => intro res _ _; exact (Nat.mul_one res).symm
    | cons d shape ih =>
      intro res positive small
      rw [List.prod_cons, ← Nat.mul_assoc] at small ⊢
      have rest : 0 < shape.prod :=
        List.prod_pos fun d member => positive d (List.mem_cons_of_mem _ member)
      have first := Nat.le_mul_of_pos_right (res * d) rest
      rw [List.foldl_cons, Nat.mod_eq_of_lt (by omega)]
      exact ih _ (fun d member => positive d (List.mem_cons_of_mem _ member)) small
  have whole := all shape 1 positive (by rw [Nat.one_mul]; exact small)
  rw [Nat.one_mul] at whole
  exact whole

/-- The quotient the iterator starts with is the number of lanes. -/
theorem Lanes.size_div (lanes : Lanes iarr oarr idim) :
    iarr.size / iarr.dim idim = total iarr idim := by
  have member := Finset.mem_range.mpr lanes.inside
  have whole : iarr.shape.prod = iarr.dim idim * total iarr idim := by
    rw [← prod_getD, total, span, Nat.Ico_zero_eq_range, ← Finset.mul_prod_erase _ _ member,
      ← Finset.mul_prod_erase _ _ member, radix, if_pos rfl, Nat.one_mul]
    congr 1
    exact Finset.prod_congr rfl fun j other => (if_neg (Finset.ne_of_mem_erase other)).symm
  rw [ArrInfo.size, prod_eq lanes.positive lanes.small, whole,
    Nat.mul_div_cancel_left _ (lanes.dim_pos lanes.inside)]

/-- One lane is given out. -/
theorem takeLane_atLane (it : MultiIter) (lanes : Lanes it.iarr it.oarr it.idim) (k : Nat) {t : Nat}
    (roomI : t < it.pI.length) (roomO : t < it.pO.length) :
    takeLane t (it.atLane k) =
      some ({ it with
        pI := it.pI.set t (laneOfs it.iarr it.idim it.iarr k)
        pO := it.pO.set t (laneOfs it.iarr it.idim it.oarr k) }.atLane (k + 1)) := by
  have axes : (it.atLane k).pos.length = it.iarr.shape.length := length_tabulate
  have storeI : storeCell (it.atLane k).pI t (it.atLane k).pIi =
      some (it.pI.set t (laneOfs it.iarr it.idim it.iarr k)) := if_pos roomI
  have storeO : storeCell (it.atLane k).pO t (it.atLane k).pOi =
      some (it.pO.set t (laneOfs it.iarr it.idim it.oarr k)) := if_pos roomO
  have step := advanceI_atLane { it with
    pI := it.pI.set t (laneOfs it.iarr it.idim it.iarr k)
    pO := it.pO.set t (laneOfs it.iarr it.idim it.oarr k) } lanes.radix_pos lanes.same k
  rw [takeLane, axes, storeI, storeO]
  exact congrArg some step

/-- A call gives out the offsets of the next lanes and goes on behind them. -/
theorem advance_atLane (it : MultiIter) (lanes : Lanes it.iarr it.oarr it.idim) (k : Nat)
    (enough : n ≤ it.rem) (roomI : n ≤ it.pI.length) (roomO : n ≤ it.pO.length) :
    ∃ pI pO, advance n (it.atLane k) =
        some ({ it with pI := pI, pO := pO, rem := it.rem - n }.atLane (k + n)) ∧
      pI.length = it.pI.length ∧ pO.length = it.pO.length ∧
      ∀ j, j < n → pI[j]? = some (laneOfs it.iarr it.idim it.iarr (k + j)) ∧
        pO[j]? = some (laneOfs it.iarr it.idim it.oarr (k + j)) := by
  obtain ⟨s, run, pI, pO, rfl, sizeI, sizeO, cells⟩ := forLoop_total n takeLane (s := it.atLane k)
    (fun t s => ∃ pI pO, s = { it with pI := pI, pO := pO }.atLane (k + t) ∧
      pI.length = it.pI.length ∧ pO.length = it.pO.length ∧
      ∀ j, j < t → pI[j]? = some (laneOfs it.iarr it.idim it.iarr (k + j)) ∧
        pO[j]? = some (laneOfs it.iarr it.idim it.oarr (k + j)))
    ⟨it.pI, it.pO, rfl, rfl, rfl, fun j none => (Nat.not_lt_zero j none).elim⟩
    (by
      rintro t below s ⟨pI, pO, rfl, sizeI, sizeO, cells⟩
      refine ⟨_, takeLane_atLane { it with pI := pI, pO := pO } lanes (k + t)
        (sizeI ▸ below.trans_le roomI) (sizeO ▸ below.trans_le roomO),
        pI.set t (laneOfs it.iarr it.idim it.iarr (k + t)),
        pO.set t (laneOfs it.iarr it.idim it.oarr (k + t)), rfl, ?_, ?_, ?_⟩
      · rw [List.length_set, sizeI]
      · rw [List.length_set, sizeO]
      · intro j early
        rcases Nat.lt_succ_iff_lt_or_eq.mp early with before | rfl
        · rw [List.getElem?_set_ne (by omega), List.getElem?_set_ne (by omega)]
          exact cells j before
        · rw [List.getElem?_set_self (by omega), List.getElem?_set_self (by omega)]
          exact ⟨rfl, rfl⟩)
  have rest : ¬ (it.atLane k).rem < n := Nat.not_lt.mpr enough
  refine ⟨pI, pO, ?_, sizeI, sizeO, cells⟩
  rw [advance, if_neg rest, run]
  rfl

/-! ## Shares -/

/-- The loop of the constructor finds the position of a lane. -/
theorem seek_eq (it : MultiIter) (lanes : Lanes it.iarr it.oarr it.idim) {lo : Nat}
    (below : lo < total it.iarr it.idim) :
    ∀ i, i ≤ it.iarr.shape.length →
      seek ⟨total it.iarr it.idim, lo, it.placed fun _ => 0⟩ i =
        ⟨span (radix it.iarr it.idim) it.iarr.shape.length i,
          lo % span (radix it.iarr it.idim) it.iarr.shape.length i,
          it.placed fun j =>
            if j < i then digit (radix it.iarr it.idim) it.iarr.shape.length lo j else 0⟩ := by
  intro i
  induction i with
  | zero =>
    intro _
    rw [seek, ← total, Nat.mod_eq_of_lt below]
    rfl
  | succ i ih =>
    intro inside
    have outer := span_eq (r := radix it.iarr it.idim) inside
    have unit := span_pos lanes.radix_pos (i + 1)
    rw [seek, ih (Nat.le_of_succ_le inside), seekStep, placed_idim]
    by_cases axis : i = it.idim
    · have one : radix it.iarr it.idim i = 1 := if_pos axis
      rw [one, Nat.one_mul] at outer
      rw [if_pos axis, outer]
      congr 1
      refine placed_congr fun j _ => ?_
      rcases Nat.lt_trichotomy j i with slower | rfl | faster
      · rw [if_pos slower, if_pos (by omega)]
      · rw [if_neg (Nat.lt_irrefl j), if_pos (Nat.lt_succ_self j), digit_of_one one]
      · rw [if_neg (by omega), if_neg (by omega)]
    · have size : radix it.iarr it.idim i = it.iarr.dim i := if_neg axis
      have chunk : span (radix it.iarr it.idim) it.iarr.shape.length i / it.iarr.dim i =
          span (radix it.iarr it.idim) it.iarr.shape.length (i + 1) := by
        rw [outer, size, Nat.mul_div_cancel_left _ (lanes.dim_pos inside)]
      have place : lo % span (radix it.iarr it.idim) it.iarr.shape.length i /
          span (radix it.iarr it.idim) it.iarr.shape.length (i + 1) =
          digit (radix it.iarr it.idim) it.iarr.shape.length lo i := by
        rw [outer, Nat.mul_comm, Nat.mod_mul_right_div_self, digit]
      have rest : lo % span (radix it.iarr it.idim) it.iarr.shape.length i -
          digit (radix it.iarr it.idim) it.iarr.shape.length lo i *
            span (radix it.iarr it.idim) it.iarr.shape.length (i + 1) =
          lo % span (radix it.iarr it.idim) it.iarr.shape.length (i + 1) := by
        rw [← place, ← Nat.mod_eq_sub_div_mul,
          Nat.mod_mod_of_dvd _ (span_dvd_span (Nat.le_succ i) inside)]
      have old : (it.placed fun j =>
          if j < i then digit (radix it.iarr it.idim) it.iarr.shape.length lo j else 0).pos.getD i 0 =
          0 := (getD_tabulate inside).trans (if_neg (Nat.lt_irrefl i))
      simp only [if_neg axis, placed_iarr, chunk, place, rest, old, Nat.zero_add]
      congr 1
      refine (placed_set inside ?_ ?_).trans (placed_congr fun j _ => ?_)
      · rw [if_neg (Nat.lt_irrefl i), Nat.cast_zero, Int.sub_zero]
        rfl
      · rw [if_neg (Nat.lt_irrefl i), Nat.cast_zero, Int.sub_zero]
        rfl
      · rcases Nat.lt_trichotomy j i with slower | rfl | faster
        · rw [Function.update_of_ne slower.ne, if_pos slower, if_pos (by omega)]
        · rw [Function.update_self, if_pos (Nat.lt_succ_self j)]
        · rw [Function.update_of_ne faster.ne', if_neg (by omega), if_neg (by omega)]

theorem fresh_eq (N : Nat) (iarr oarr : ArrInfo) (idim rem : Nat) :
    fresh N iarr oarr idim rem = (fresh N iarr oarr idim rem).placed fun _ => 0 := by
  have pos : List.replicate iarr.shape.length 0 = tabulate iarr.shape.length fun _ => 0 :=
    eq_tabulate List.length_replicate fun j below => List.getElem?_replicate_of_lt below
  have origin : ∀ a, weigh iarr.shape.length a (fun _ => 0) = 0 := fun a =>
    Finset.sum_eq_zero fun j _ => by rw [Nat.cast_zero, Int.zero_mul]
  rw [placed, fresh, pos, origin, origin]

/-- Shares follow each other. -/
theorem shareLo_succ (rem nshares myshare : Nat) :
    shareLo rem nshares (myshare + 1) = shareHi rem nshares myshare := by
  rw [shareHi, shareLo, shareLo, Nat.add_one_mul]
  split
  · rw [if_pos (by omega), if_pos (by omega)]
    omega
  · split
    · omega
    · omega

theorem shareLo_zero (rem nshares : Nat) : shareLo rem nshares 0 = 0 := by
  rw [shareLo, Nat.zero_mul, Nat.zero_add]
  split
  · rfl
  · omega

theorem shareLo_self {nshares : Nat} (positive : 0 < nshares) (rem : Nat) :
    shareLo rem nshares nshares = rem := by
  have below := Nat.mod_lt rem positive
  rw [shareLo, if_neg (by omega)]
  exact Nat.div_add_mod rem nshares

theorem shareLo_mono (rem nshares : Nat) {a b : Nat} (le : a ≤ b) :
    shareLo rem nshares a ≤ shareLo rem nshares b := by
  induction b, le using Nat.le_induction with
  | base => exact Nat.le_refl _
  | succ b _ ih =>
    rw [shareLo_succ, shareHi, Nat.add_assoc]
    exact ih.trans (Nat.le_add_right _ _)

/-- Without threads it starts at the first lane. -/
theorem make_one (lanes : Lanes iarr oarr idim) (N : Nat) :
    make N iarr oarr idim 1 0 = some ((fresh N iarr oarr idim (total iarr idim)).atLane 0) := by
  rw [make, if_pos rfl, lanes.size_div]
  refine congrArg some ((fresh_eq N iarr oarr idim _).trans (placed_congr fun j _ => ?_))
  exact (digit_zero _ _ j).symm

/-- The constructor gives every share its lanes. -/
theorem make_spec (lanes : Lanes iarr oarr idim) (N : Nat) {nshares myshare : Nat}
    (mine : myshare < nshares) :
    ∃ it, make N iarr oarr idim nshares myshare = some it ∧
      it.rem = shareHi (total iarr idim) nshares myshare - shareLo (total iarr idim) nshares myshare ∧
      (shareLo (total iarr idim) nshares myshare < total iarr idim →
        it = (fresh N iarr oarr idim it.rem).atLane (shareLo (total iarr idim) nshares myshare)) := by
  by_cases one : nshares = 1
  · obtain rfl : myshare = 0 := by omega
    have first := shareLo_zero (total iarr idim) nshares
    have last := shareLo_self (by omega : 0 < nshares) (total iarr idim)
    have next := shareLo_succ (total iarr idim) nshares 0
    rw [one, Nat.zero_add] at next
    rw [one] at first last ⊢
    refine ⟨_, make_one lanes N, ?_, fun _ => ?_⟩
    · rw [first, ← next, last, Nat.sub_zero]
      rfl
    · rw [first]
      rfl
  · rw [make, lanes.size_div, if_neg one, if_neg (by omega), if_neg (by omega)]
    refine ⟨_, rfl, rfl, fun below => ?_⟩
    have sought := seek_eq (fresh N iarr oarr idim (total iarr idim)) lanes below
      iarr.shape.length (Nat.le_refl _)
    rw [← fresh_eq] at sought
    have reached := congrArg Seek.it sought
    have axes : (fresh N iarr oarr idim (total iarr idim)).pos.length = iarr.shape.length :=
      List.length_replicate
    have found : (fresh N iarr oarr idim (total iarr idim)).placed (fun j =>
        if j < iarr.shape.length then digit (radix iarr idim) iarr.shape.length
          (shareLo (total iarr idim) nshares myshare) j else 0) =
        (fresh N iarr oarr idim (total iarr idim)).atLane
          (shareLo (total iarr idim) nshares myshare) :=
      placed_congr fun j inside => if_pos inside
    rw [axes]
    exact congrArg (withRem _) (reached.trans found)

/-- The offsets of the lanes that a sequence of calls gives out. -/
def visit : List Nat → MultiIter → Option (List (Int × Int))
  | [], _ => some []
  | n :: counts, it => do
    let it ← advance n it
    let rest ← visit counts it
    some ((List.range n).map (fun j => (it.pI.getD j 0, it.pO.getD j 0)) ++ rest)

/-- Whatever the sizes of the calls, they give out the lanes in order. -/
theorem visit_atLane (counts : List Nat) :
    ∀ (it : MultiIter) (k : Nat), Lanes it.iarr it.oarr it.idim → counts.sum ≤ it.rem →
      (∀ n ∈ counts, n ≤ it.pI.length) → it.pO.length = it.pI.length →
      visit counts (it.atLane k) = some ((List.range counts.sum).map fun j =>
        (laneOfs it.iarr it.idim it.iarr (k + j), laneOfs it.iarr it.idim it.oarr (k + j))) := by
  induction counts with
  | nil => intro it k _ _ _ _; rfl
  | cons n counts ih =>
    intro it k lanes enough fit same
    rw [List.sum_cons] at enough
    have room := fit n (List.mem_cons_self ..)
    obtain ⟨pI, pO, run, sizeI, sizeO, cells⟩ :=
      advance_atLane (n := n) it lanes k (by omega) room (same ▸ room)
    have rest := ih { it with pI := pI, pO := pO, rem := it.rem - n } (k + n) lanes
      (by dsimp only; omega)
      (fun n' member => sizeI.symm ▸ fit n' (List.mem_cons_of_mem _ member))
      (sizeO.trans (same.trans sizeI.symm))
    rw [visit, run]
    refine (congrArg (Option.bind · _) rest).trans (congrArg some ?_)
    rw [List.sum_cons, List.range_add, List.map_append, List.map_map]
    congr 1
    · refine List.map_congr_left fun j member => ?_
      obtain ⟨first, second⟩ := cells j (List.mem_range.mp member)
      change (pI.getD j 0, pO.getD j 0) = _
      rw [List.getD_eq_getElem?_getD, List.getD_eq_getElem?_getD, first, second]
      rfl
    · refine List.map_congr_left fun j _ => ?_
      dsimp only [Function.comp_apply]
      rw [Nat.add_assoc]

theorem visit_zero (counts : List Nat) :
    ∀ it : MultiIter, counts.sum = 0 → visit counts it = some [] := by
  induction counts with
  | nil => intro it _; rfl
  | cons n counts ih =>
    intro it none
    rw [List.sum_cons] at none
    obtain rfl : n = 0 := by omega
    rw [visit, advance, if_neg (Nat.not_lt_zero _), forLoop_zero]
    exact congrArg (Option.bind · _) (ih _ (by omega))

/-- All threads one after another, each with calls of its own. -/
def visitShares (N : Nat) (iarr oarr : ArrInfo) (idim nshares : Nat) (counts : Nat → List Nat) :
    Option (List (Int × Int)) :=
  forLoop nshares (fun myshare seen => do
    let it ← make N iarr oarr idim nshares myshare
    let mine ← visit (counts myshare) it
    some (seen ++ mine)) []

theorem visitShares_eq (lanes : Lanes iarr oarr idim) (N : Nat) {nshares : Nat}
    (positive : 0 < nshares) {counts : Nat → List Nat}
    (fit : ∀ s, s < nshares → ∀ n ∈ counts s, n ≤ N)
    (whole : ∀ s, s < nshares → (counts s).sum =
      shareHi (total iarr idim) nshares s - shareLo (total iarr idim) nshares s) :
    visitShares N iarr oarr idim nshares counts =
      some ((List.range (total iarr idim)).map fun k =>
        (laneOfs iarr idim iarr k, laneOfs iarr idim oarr k)) := by
  have trace := forLoop_trace nshares (fun myshare seen => do
      let it ← make N iarr oarr idim nshares myshare
      let mine ← visit (counts myshare) it
      some (seen ++ mine))
    (fun s => (List.range (shareLo (total iarr idim) nshares s)).map fun k =>
      (laneOfs iarr idim iarr k, laneOfs iarr idim oarr k)) (by
    intro s below
    obtain ⟨it, made, rem, place⟩ := make_spec lanes N below
    have sum := whole s below
    have next := shareLo_succ (total iarr idim) nshares s
    have mono := shareLo_mono (total iarr idim) nshares (Nat.le_add_right s 1)
    have last : shareLo (total iarr idim) nshares (s + 1) ≤ total iarr idim :=
      (shareLo_mono _ _ below).trans_eq (shareLo_self positive _)
    simp only [made, Option.bind_eq_bind, Option.bind_some]
    rcases Nat.eq_zero_or_pos (counts s).sum with none | some
    · have same : shareLo (total iarr idim) nshares (s + 1) =
          shareLo (total iarr idim) nshares s := by
        omega
      rw [visit_zero _ it none, Option.bind_some, List.append_nil, same]
    · have visited := visit_atLane (counts s) (fresh N iarr oarr idim it.rem)
        (shareLo (total iarr idim) nshares s) lanes (by change _ ≤ it.rem; omega)
        (fun n member => by
          change n ≤ (List.replicate N (0 : Int)).length
          rw [List.length_replicate]
          exact fit s below n member) rfl
      have split : shareLo (total iarr idim) nshares (s + 1) =
          shareLo (total iarr idim) nshares s + (counts s).sum := by
        omega
      rw [place (by omega), visited, Option.bind_some, split, List.range_add, List.map_append,
        List.map_map]
      rfl)
  rw [shareLo_zero, shareLo_self positive] at trace
  exact trace

/-- However many threads share the lanes and in whatever steps they take theirs, the lanes
of two arrays come once each and in order; and they are the positions on the other axes, each
with the sum of its strides. -/
theorem shares_visit_lanes {iarr oarr : ArrInfo} {idim : Nat} (lanes : Lanes iarr oarr idim)
    (N : Nat) {nshares : Nat} (positive : 0 < nshares) (counts : Nat → List Nat)
    (fit : ∀ s, s < nshares → ∀ n ∈ counts s, n ≤ N)
    (whole : ∀ s, s < nshares → (counts s).sum =
      shareHi (total iarr idim) nshares s - shareLo (total iarr idim) nshares s) :
    visitShares N iarr oarr idim nshares counts =
        some ((List.range (total iarr idim)).map fun k =>
          (laneOfs iarr idim iarr k, laneOfs iarr idim oarr k)) ∧
      ∀ pos : Nat → Nat, (∀ j, j < iarr.shape.length → pos j < radix iarr idim j) →
        ∃ k, k < total iarr idim ∧
          (∀ a, laneOfs iarr idim a k = weigh iarr.shape.length a pos) ∧
          ∀ l, l < total iarr idim →
            (∀ j, j < iarr.shape.length →
              digit (radix iarr idim) iarr.shape.length l j = pos j) → l = k := by
  refine ⟨visitShares_eq lanes N positive fit whole, fun pos box => ?_⟩
  obtain ⟨k, below, digits⟩ := exists_digits lanes.radix_pos box
  refine ⟨k, below, fun a => weigh_congr digits, fun l below' digits' => ?_⟩
  exact digits_injective below' below fun j inside => (digits' j inside).trans (digits j inside).symm

/-- Four lanes, of three elements in one array and two in the other, handed to three threads. -/
theorem shares_visit_lanes_three :
    visitShares 2 ⟨[2, 3, 2], [96, 32, 16]⟩ ⟨[2, 2, 2], [4, 2, 1]⟩ 1 3
      (fun s => if s = 0 then [2] else [1]) =
      some ((List.range (total ⟨[2, 3, 2], [96, 32, 16]⟩ 1)).map fun k =>
        (laneOfs ⟨[2, 3, 2], [96, 32, 16]⟩ 1 ⟨[2, 3, 2], [96, 32, 16]⟩ k,
          laneOfs ⟨[2, 3, 2], [96, 32, 16]⟩ 1 ⟨[2, 2, 2], [4, 2, 1]⟩ k)) :=
  (shares_visit_lanes ⟨by decide, by decide, by decide, by decide⟩ 2 (by decide)
    (fun s => if s = 0 then [2] else [1]) (by decide) (by decide)).1

end Lanes

end MultiIter

end DspDispatch.Pocketfft
