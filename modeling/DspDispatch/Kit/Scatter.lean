import DspDispatch.Kit.Memory

/-!
# Scattered writes

What an operation leaves alone is stated by the cells it may touch (`Mem.Within`); two
operations one after the other touch what either does. `forLoop_writes` is about loops that
write one element of some cells in every iteration: if the elements have no cell in common,
every one of them is there in the end, whatever the order.
-/

namespace Kit

universe u

variable {α : Type u}

/-- A set of cells, by block and offset. -/
abbrev CellSet := Nat → Nat → Prop

/-- The `n` cells from `p`. -/
def Ptr.Covers (p : Ptr) (n : Nat) : CellSet := fun block off =>
  block = p.block ∧ p.offset ≤ off ∧ off < p.offset + n

/-- Blocks keep their sizes, and cells outside the set keep their contents. -/
structure Mem.Within (cells : CellSet) (m m' : Mem α) : Prop where
  sizes : ∀ block, (m'.cells block).length = (m.cells block).length
  kept : ∀ block off, ¬ cells block off → (m'.cells block)[off]? = (m.cells block)[off]?

namespace Mem.Within

variable {cells cells' : CellSet} {m m' m'' : Mem α} {p : Ptr} {n : Nat}

theorem refl (cells : CellSet) (m : Mem α) : Within cells m m where
  sizes _ := rfl
  kept _ _ _ := rfl

theorem trans (first : Within cells m m') (second : Within cells m' m'') : Within cells m m'' where
  sizes block := (second.sizes block).trans (first.sizes block)
  kept block off outside := (second.kept block off outside).trans (first.kept block off outside)

theorem mono (within : Within cells m m') (more : ∀ block off, cells block off → cells' block off) :
    Within cells' m m' where
  sizes := within.sizes
  kept block off outside := within.kept block off (mt (more block off) outside)

theorem holds (within : Within cells m m') : m'.Holds p n ↔ m.Holds p n := by
  rw [Mem.Holds, Mem.Holds, within.sizes]

/-- A range outside the set reads the same. -/
theorem read (within : Within cells m m') (outside : ∀ block off, p.Covers n block off →
    ¬ cells block off) : m'.read p n = m.read p n :=
  segment_eq_segment fun _ small =>
    within.kept _ _ (outside _ _ ⟨rfl, Nat.le_add_right _ _, Nat.add_lt_add_left small _⟩)

theorem write {ys : List α} (holds : m.Holds p ys.length) (size : ys.length = n) :
    Within (p.Covers n) m (m.write p ys) where
  sizes := Mem.length_cells_write holds
  kept block off outside := by
    rw [Mem.getElem?_cells_write holds, size]
    exact if_neg outside

end Mem.Within

/-- Ranges apart have no cell in common. -/
theorem Apart.not_covers {p q : Ptr} {n k block off : Nat} (apart : Apart p n q k)
    (inside : p.Covers n block off) : ¬ q.Covers k block off := by
  obtain ⟨same, start, stop⟩ := inside
  rintro ⟨same', start', stop'⟩
  rcases apart with blocks | before | after
  · exact blocks (same.symm.trans same')
  · omega
  · omega

/-- The cells of the first elements. -/
def Elements (addr : Nat → Ptr) (w count : Nat) : CellSet := fun block off =>
  ∃ s, s < count ∧ (addr s).Covers w block off

/-- Every iteration writes its element, and finds the others as they were or written. -/
theorem forLoop_writes (count w : Nat) (body : Nat → Mem α → Option (Mem α)) (addr : Nat → Ptr)
    (val : Nat → List α) (m : Mem α)
    (holds : ∀ s, s < count → m.Holds (addr s) w)
    (apart : ∀ s t, s < count → t < s → Apart (addr s) w (addr t) w)
    (width : ∀ s, s < count → (val s).length = w)
    (step : ∀ s, s < count → ∀ m', m.Within (Elements addr w s) m' →
      body s m' = some (m'.write (addr s) (val s))) :
    ∃ m', forLoop count body m = some m' ∧ m.Within (Elements addr w count) m' ∧
      ∀ s, s < count → m'.read (addr s) w = val s := by
  refine forLoop_total count body (fun t m' => m.Within (Elements addr w t) m' ∧
    ∀ s, s < t → m'.read (addr s) w = val s) ⟨Mem.Within.refl _ m, fun s none => by omega⟩ ?_
  rintro t below m' ⟨within, written⟩
  have size := width t below
  have room : m'.Holds (addr t) (val t).length := by
    rw [size, within.holds]
    exact holds t below
  refine ⟨_, step t below m' within, ?_, fun s early => ?_⟩
  · refine (within.mono fun block off inside => ?_).trans
      ((Mem.Within.write room size).mono fun block off inside => ⟨t, Nat.lt_succ_self t, inside⟩)
    obtain ⟨s, before, covers⟩ := inside
    exact ⟨s, Nat.lt_succ_of_lt before, covers⟩
  · rcases Nat.lt_succ_iff_lt_or_eq.mp early with before | rfl
    · have other := apart t s below before
      rw [Mem.read_write_of_apart room (by rw [size]; exact other.symm), written s before]
    · have here := Mem.read_write room
      rwa [size] at here

end Kit
