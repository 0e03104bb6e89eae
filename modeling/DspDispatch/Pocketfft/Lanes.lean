import DspDispatch.Kit.Scatter
import DspDispatch.Pocketfft.Iteration

/-!
# The loops of pocketfft over the lanes of an array

`general_nd`, `general_r2c` and `general_c2r` go over the lanes of two arrays with one
iterator: as long as there are enough of them, `vlen` lanes at once, and the others one by
one. `Layout` names the elements of all lanes. `runLanes_eq` is about any such loop: if one
round transforms the lanes it takes and touches no other, the loop transforms all lanes.
-/

namespace DspDispatch.Pocketfft

open Kit

variable {α : Type}

/-! ## The loops -/

/-- `&d[ofs]` for an array of elements of `rb` bytes a cell, `ofs` in bytes; `none` if there is
no such address. -/
def address (rb : Nat) (d : Ptr) (ofs : Int) : Option Ptr :=
  if (rb : Int) ∣ ofs ∧ 0 ≤ (d.offset : Int) + ofs / rb then some (d.shift (ofs / rb)) else none

/-- `alloc_tmp`, in elements. -/
def allocTmp (shape : List Nat) (axsize vlen : Nat) : Nat :=
  let othersize := Fft.Pocketfft.prod shape / axsize
  axsize * if vlen ≤ othersize then vlen else 1

/-- `it.advance(n); exec(...);`. -/
def round (n : Nat) (exec : MultiIter → Mem α → Option (Mem α)) (s : MultiIter × Mem α) :
    Option (MultiIter × Mem α) := do
  let it ← MultiIter.advance n s.1
  let m ← exec it s.2
  some (it, m)

/-- `while (it.remaining()>=n)`. -/
def rounds (n : Nat) (exec : MultiIter → Mem α → Option (Mem α)) (s : MultiIter × Mem α) :
    Option (MultiIter × Mem α) :=
  whileSome (fun s => decide (n ≤ s.1.rem)) (round n exec) s.1.rem s

/-- The loop over `vlen` lanes at once, if there are vectors. -/
def vectorRounds (vlen : Nat) (vector : MultiIter → Mem α → Option (Mem α))
    (s : MultiIter × Mem α) : Option (MultiIter × Mem α) :=
  if 1 < vlen then rounds vlen vector s else some s

/-- The loops over the lanes: `vector` works on `vlen` lanes, `single` on one. -/
def runLanes (vlen : Nat) (vector single : MultiIter → Mem α → Option (Mem α)) (it : MultiIter)
    (m : Mem α) : Option (Mem α) := do
  let s ← vectorRounds vlen vector (it, m)
  let s ← rounds 1 single s
  some s.2

/-! ## The elements of the lanes -/

/-- The elements of all lanes of two arrays: `ni` of `wi` cells each in an input lane, and `no`
of `wo` cells each in an output lane. -/
structure Layout where
  lanes : Nat
  ni : Nat
  wi : Nat
  no : Nat
  wo : Nat
  I : Nat → Nat → Ptr
  O : Nat → Nat → Ptr

namespace Layout

variable (l : Layout)

/-- The cells of `c` output lanes from lane `k` on. -/
def Outputs (k c : Nat) : CellSet := fun block off =>
  ∃ j, j < c ∧ ∃ i, i < l.no ∧ (l.O (k + j) i).Covers l.wo block off

/-- All elements exist. Output elements have no cell in common, nor has one of a lane with an
input element of another lane; and in one lane, input and output elements are the same or
have no cell in common. -/
structure Fits (m : Mem α) : Prop where
  input : ∀ k i, k < l.lanes → i < l.ni → m.Holds (l.I k i) l.wi
  output : ∀ k i, k < l.lanes → i < l.no → m.Holds (l.O k i) l.wo
  separate : ∀ k i k' i', k < l.lanes → i < l.no → k' < l.lanes → i' < l.no →
    (k ≠ k' ∨ i ≠ i') → Apart (l.O k i) l.wo (l.O k' i') l.wo
  others : ∀ k i k' i', k < l.lanes → i < l.no → k' < l.lanes → i' < l.ni → k ≠ k' →
    Apart (l.O k i) l.wo (l.I k' i') l.wi
  own : (l.ni = l.no ∧ l.wi = l.wo ∧ ∀ k i, k < l.lanes → i < l.no → l.I k i = l.O k i) ∨
    ∀ k i i', k < l.lanes → i < l.no → i' < l.ni → Apart (l.O k i) l.wo (l.I k i') l.wi

variable {l}

theorem Fits.of_within {cells : CellSet} {m m' : Mem α} (fits : l.Fits m)
    (within : m.Within cells m') : l.Fits m' where
  input k i lane inside := within.holds.mpr (fits.input k i lane inside)
  output k i lane inside := within.holds.mpr (fits.output k i lane inside)
  separate := fits.separate
  others := fits.others
  own := fits.own

/-- The elements of an input lane. -/
def Reads (l : Layout) (m : Mem α) (k : Nat) (x : Nat → List α) : Prop :=
  ∀ i, i < l.ni → m.read (l.I k i) l.wi = x i

/-- The elements of an output lane. -/
def Writes (l : Layout) (m : Mem α) (k : Nat) (y : Nat → List α) : Prop :=
  ∀ i, i < l.no → m.read (l.O k i) l.wo = y i

/-- Input lanes that are not among those written stay. -/
theorem Fits.reads_of_within {m m' : Mem α} (fits : l.Fits m) {k c k' : Nat} {x : Nat → List α}
    (within : m.Within (l.Outputs k c) m') (last : k + c ≤ l.lanes) (lane : k' < l.lanes)
    (other : k' < k ∨ k + c ≤ k') (reads : l.Reads m k' x) : l.Reads m' k' x := by
  intro i inside
  rw [within.read fun block off covers => ?_, reads i inside]
  rintro ⟨j, below, i', inside', touched⟩
  exact (fits.others (k + j) i' k' i (by omega) inside' lane inside (by omega)).not_covers touched
    covers

/-- So do output lanes. -/
theorem Fits.writes_of_within {m m' : Mem α} (fits : l.Fits m) {k c k' : Nat} {y : Nat → List α}
    (within : m.Within (l.Outputs k c) m') (last : k + c ≤ l.lanes) (lane : k' < l.lanes)
    (other : k' < k ∨ k + c ≤ k') (writes : l.Writes m k' y) : l.Writes m' k' y := by
  intro i inside
  rw [within.read fun block off covers => ?_, writes i inside]
  rintro ⟨j, below, i', inside', touched⟩
  exact (fits.separate (k + j) i' k' i (by omega) inside' lane inside (.inl (by omega))).not_covers
    touched covers

/-- Two loops, over the elements of `c` output lanes and over the lanes, that store `y` there. -/
theorem Fits.storeLanes_eq {m : Mem α} (fits : l.Fits m) {k c : Nat} (last : k + c ≤ l.lanes)
    (body : Nat → Nat → Mem α → Option (Mem α)) (y : Nat → Nat → List α)
    (width : ∀ j i, (y j i).length = l.wo)
    (step : ∀ i j m', i < l.no → j < c → m'.Holds (l.O (k + j) i) l.wo →
      body i j m' = some (m'.write (l.O (k + j) i) (y j i))) :
    ∃ m', forLoop l.no (fun i => forLoop c (body i)) m = some m' ∧
      m.Within (l.Outputs k c) m' ∧ ∀ j, j < c → l.Writes m' (k + j) (y j) := by
  have flat : forLoop l.no (fun i => forLoop c (body i)) m =
      forLoop (l.no * c) (fun s => body (s / c) (s % c)) m := by
    rw [← forLoop_nest]
    refine forLoop_congr (fun i _ => funext fun m => ?_) m
    refine forLoop_congr (fun j column => funext fun m => ?_) m
    rw [cell_div column, cell_mod column]
  have inside : ∀ s, s < l.no * c → s % c < c ∧ s / c < l.no := by
    intro s below
    obtain ⟨i, j, row, column, rfl⟩ := exists_cell below
    rw [cell_mod column, cell_div column]
    exact ⟨column, row⟩
  obtain ⟨m', run, within, written⟩ := forLoop_writes (l.no * c) l.wo
    (fun s => body (s / c) (s % c)) (fun s => l.O (k + s % c) (s / c))
    (fun s => y (s % c) (s / c)) m
    (fun s below => fits.output _ _ (by have := inside s below; omega) (inside s below).2)
    (fun s t below before => by
      have inS := inside s below
      have inT := inside t (before.trans below)
      refine fits.separate _ _ _ _ (by omega) inS.2 (by omega) inT.2 ?_
      by_contra same
      push Not at same
      obtain ⟨column, row⟩ := same
      have whole := Nat.mod_add_div s c
      have whole' := Nat.mod_add_div t c
      have columns : s % c = t % c := by omega
      rw [row, columns] at whole
      omega)
    (fun s _ => width _ _)
    (fun s below m' within => by
      have inS := inside s below
      exact step _ _ m' inS.2 inS.1
        (within.holds.mpr (fits.output (k + s % c) (s / c) (by omega) inS.2)))
  refine ⟨m', flat.trans run, within.mono ?_, fun j below i row => ?_⟩
  · rintro block off ⟨s, below, covers⟩
    exact ⟨s % c, (inside s below).1, s / c, (inside s below).2, covers⟩
  · have cell := written (j + c * i) (cell_lt row below)
    rw [cell_div below, cell_mod below] at cell
    exact cell

end Layout

/-! ## All lanes -/

section Run

variable {l : Layout} {iarr oarr : ArrInfo} {axis vlen : Nat}

/-- An iterator that has given out the `c` lanes from lane `k` on. -/
structure Given (iarr oarr : ArrInfo) (axis k c : Nat) (it : MultiIter) : Prop where
  input : it.iarr = iarr
  output : it.oarr = oarr
  lanes : it.idim = axis
  offsets : ∀ j, j < c → it.pI[j]? = some (MultiIter.laneOfs iarr axis iarr (k + j)) ∧
    it.pO[j]? = some (MultiIter.laneOfs iarr axis oarr (k + j))

/-- A round on `c` lanes: whatever the memory, it writes `f` of the input lanes it was given
to the output lanes and touches nothing else. -/
def MapsLanes (l : Layout) (iarr oarr : ArrInfo) (axis c : Nat)
    (f : (Nat → List α) → Nat → List α)
    (exec : MultiIter → Mem α → Option (Mem α)) : Prop :=
  ∀ (k : Nat) (it : MultiIter) (m : Mem α) (x : Nat → Nat → List α), k + c ≤ l.lanes →
    Given iarr oarr axis k c it → l.Fits m →
    (∀ j, j < c → l.Reads m (k + j) (x (k + j))) →
    ∃ m', exec it m = some m' ∧ m.Within (l.Outputs k c) m' ∧
      ∀ j, j < c → l.Writes m' (k + j) (f (x (k + j)))

/-- After `k` lanes: they are transformed, the others still to be read, and the iterator
is at lane `k`. -/
structure Done (l : Layout) (iarr oarr : ArrInfo) (axis vlen : Nat)
    (f : (Nat → List α) → Nat → List α) (m₀ : Mem α) (x : Nat → Nat → List α) (k : Nat)
    (s : MultiIter × Mem α) : Prop where
  place : ∃ it : MultiIter, s.1 = it.atLane k ∧ it.iarr = iarr ∧ it.oarr = oarr ∧ it.idim = axis ∧
    it.pI.length = vlen ∧ it.pO.length = vlen
  rem : s.1.rem = l.lanes - k
  le : k ≤ l.lanes
  within : m₀.Within (l.Outputs 0 k) s.2
  writes : ∀ k', k' < k → l.Writes s.2 k' (f (x k'))
  reads : ∀ k', k ≤ k' → k' < l.lanes → l.Reads s.2 k' (x k')

theorem Done.step {f : (Nat → List α) → Nat → List α} {m₀ : Mem α}
    {x : Nat → Nat → List α} {k n : Nat} {s : MultiIter × Mem α}
    {exec : MultiIter → Mem α → Option (Mem α)} (lanes : MultiIter.Lanes iarr oarr axis)
    (fits : l.Fits m₀) (maps : MapsLanes l iarr oarr axis n f exec)
    (done : Done l iarr oarr axis vlen f m₀ x k s)
    (enough : n ≤ s.1.rem) (room : n ≤ vlen) :
    ∃ s', round n exec s = some s' ∧ Done l iarr oarr axis vlen f m₀ x (k + n) s' := by
  obtain ⟨it, place, rfl, rfl, rfl, sizeI, sizeO⟩ := done.place
  have le := done.le
  have rem := done.rem
  have last : k + n ≤ l.lanes := by omega
  rw [place] at enough rem
  obtain ⟨pI, pO, advanced, sizeI', sizeO', offsets⟩ := MultiIter.advance_atLane it lanes
    k (n := n) enough (sizeI ▸ room) (sizeO ▸ room)
  obtain ⟨m', run, within, writes⟩ := maps k
    ({ it with pI := pI, pO := pO, rem := it.rem - n }.atLane (k + n)) s.2 x last
    ⟨rfl, rfl, rfl, offsets⟩ (fits.of_within done.within)
    fun j below => done.reads (k + j) (by omega) (by omega)
  have fits' := fits.of_within done.within
  refine ⟨({ it with pI := pI, pO := pO, rem := it.rem - n }.atLane (k + n), m'), ?_,
    ⟨⟨{ it with pI := pI, pO := pO, rem := it.rem - n }, rfl, rfl, rfl, rfl,
    sizeI'.trans sizeI, sizeO'.trans sizeO⟩, ?_, last, ?_, fun k' before => ?_,
    fun k' behind lane => ?_⟩⟩
  · rw [round, place, advanced, Option.bind_eq_bind, Option.bind_some, run]
    rfl
  · change it.rem - n = _
    have same : it.rem = l.lanes - k := rem
    omega
  · refine (done.within.mono ?_).trans (within.mono ?_)
    · rintro block off ⟨j, below, inside⟩
      exact ⟨j, by omega, inside⟩
    · rintro block off ⟨j, below, inside⟩
      exact ⟨k + j, by omega, by rwa [Nat.zero_add]⟩
  · rcases Nat.lt_or_ge k' k with early | late
    · exact fits'.writes_of_within within last (by omega) (.inl early) (done.writes k' early)
    · have here := writes (k' - k) (by omega)
      rwa [Nat.add_sub_cancel' late] at here
  · exact fits'.reads_of_within within last lane (.inr behind)
      (done.reads k' (by omega) lane)

/-- A loop goes on until too few lanes are left. -/
theorem Done.rounds_eq {f : (Nat → List α) → Nat → List α} {m₀ : Mem α}
    {x : Nat → Nat → List α} {k n : Nat} {s : MultiIter × Mem α}
    {exec : MultiIter → Mem α → Option (Mem α)} (lanes : MultiIter.Lanes iarr oarr axis)
    (fits : l.Fits m₀) (maps : MapsLanes l iarr oarr axis n f exec)
    (done : Done l iarr oarr axis vlen f m₀ x k s)
    (positive : 0 < n) (room : n ≤ vlen) :
    ∃ k' s', rounds n exec s = some s' ∧ Done l iarr oarr axis vlen f m₀ x k' s' ∧
      s'.1.rem < n := by
  obtain ⟨s', run, ⟨k', done'⟩, ended⟩ := whileSome_total
    (fun s => decide (n ≤ s.1.rem)) (round n exec)
    (fun s => ∃ k, Done l iarr oarr axis vlen f m₀ x k s) (fun s => s.1.rem) (by
      rintro s ⟨k, done⟩ more
      have enough := of_decide_eq_true more
      obtain ⟨s', run, done'⟩ := done.step lanes fits maps enough room
      have before := done.rem
      have after := done'.rem
      exact ⟨s', run, ⟨k + n, done'⟩, by omega⟩) s.1.rem s ⟨k, done⟩ (Nat.le_refl _)
  exact ⟨k', s', run, done', Nat.lt_of_not_le (of_decide_eq_false ended)⟩

/-- The loops transform all lanes, if one round on `vlen` lanes and one on a single lane do. -/
theorem runLanes_eq {f : (Nat → List α) → Nat → List α}
    {m : Mem α} {x : Nat → Nat → List α} {vector single : MultiIter → Mem α → Option (Mem α)}
    (lanes : MultiIter.Lanes iarr oarr axis) (all : l.lanes = MultiIter.total iarr axis)
    (positive : 0 < vlen) (fits : l.Fits m)
    (reads : ∀ k, k < l.lanes → l.Reads m k (x k))
    (vectors : 1 < vlen → MapsLanes l iarr oarr axis vlen f vector)
    (singles : MapsLanes l iarr oarr axis 1 f single) :
    ∃ m', (MultiIter.make vlen iarr oarr axis 1 0).bind
        (fun it => runLanes vlen vector single it m) = some m' ∧
      m.Within (l.Outputs 0 l.lanes) m' ∧ ∀ k, k < l.lanes → l.Writes m' k (f (x k)) := by
  rw [MultiIter.make_one lanes vlen, Option.bind_some]
  generalize start : (MultiIter.fresh vlen iarr oarr axis (MultiIter.total iarr axis)).atLane 0 = it
  have done : Done l iarr oarr axis vlen f m x 0 (it, m) :=
    ⟨⟨_, start.symm, rfl, rfl, rfl, List.length_replicate, List.length_replicate⟩,
      by rw [all, ← start]; rfl, Nat.zero_le _, Mem.Within.refl _ m, fun k' none => by omega,
      fun k' _ lane => reads k' lane⟩
  obtain ⟨k₁, s₁, run₁, done₁⟩ : ∃ k₁ s₁, vectorRounds vlen vector (it, m) = some s₁ ∧
      Done l iarr oarr axis vlen f m x k₁ s₁ := by
    by_cases wide : 1 < vlen
    · obtain ⟨k₁, s₁, run₁, done₁, -⟩ :=
        done.rounds_eq lanes fits (vectors wide) positive (Nat.le_refl _)
      exact ⟨k₁, s₁, (if_pos wide).trans run₁, done₁⟩
    · exact ⟨0, (it, m), if_neg wide, done⟩
  obtain ⟨k₂, s₂, run₂, done₂, none⟩ :=
    done₁.rounds_eq lanes fits singles Nat.one_pos positive
  have rem := done₂.rem
  have le := done₂.le
  obtain rfl : k₂ = l.lanes := by omega
  refine ⟨s₂.2, ?_, done₂.within, done₂.writes⟩
  rw [runLanes, run₁, Option.bind_eq_bind, Option.bind_some, run₂]
  rfl

end Run

end DspDispatch.Pocketfft
