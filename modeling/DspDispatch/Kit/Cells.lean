import DspDispatch.Kit.Loop
import Mathlib.Data.List.Range
import Mathlib.Logic.Function.Basic

/-!
# Loops that write arrays cell by cell

`storeCell xs i v` is the assignment `xs[i] = v`. An array is described by what its
cells hold: `tabulate n f` has `f p` in cell `p`, and `grid rows n F` has `F r i` in
cell `i` of row `r`.

`Fills n final cells f` says that the computation `f` writes to the cells of a set and
puts nothing but `final p` into cell `p`. Such computations compose: the order in which
a loop nest visits its cells does not matter, only that it visits all (`Fills.eq`).

`updatePair` updates the cells of two rows in one column, and `forLoop_updatePair` is the
rule of a loop of these along the rows.
-/

namespace Kit

universe u

variable {α : Type u}

/-- `xs[i] = v`; `none` outside the array. -/
def storeCell (xs : List α) (i : Nat) (v : α) : Option (List α) :=
  if i < xs.length then some (xs.set i v) else none

/-- The array of `n` cells with `f p` in cell `p`. -/
def tabulate (n : Nat) (f : Nat → α) : List α := (List.range n).map f

section Tabulate

variable {n p : Nat} {f g : Nat → α}

@[simp] theorem length_tabulate : (tabulate n f).length = n := by
  rw [tabulate, List.length_map, List.length_range]

theorem getElem?_tabulate (below : p < n) : (tabulate n f)[p]? = some (f p) := by
  rw [tabulate, List.getElem?_map, List.getElem?_range below, Option.map_some]

theorem tabulate_congr (same : ∀ p, p < n → f p = g p) : tabulate n f = tabulate n g :=
  List.map_congr_left fun p member => same p (List.mem_range.mp member)

/-- An array is the table of its cells. -/
theorem eq_tabulate {xs : List α} (size : xs.length = n)
    (cells : ∀ p, p < n → xs[p]? = some (f p)) : xs = tabulate n f := by
  apply List.ext_getElem?
  intro p
  by_cases below : p < n
  · rw [cells p below, getElem?_tabulate below]
  · rw [List.getElem?_eq_none (by omega), List.getElem?_eq_none (by rw [length_tabulate]; omega)]

theorem map_tabulate {β : Type u} (h : α → β) : (tabulate n f).map h = tabulate n fun p => h (f p) := by
  rw [tabulate, List.map_map]
  rfl

/-- The same with cells that may fail. -/
def tabulateM (n : Nat) (f : Nat → Option α) : Option (List α) := (List.range n).mapM f

theorem tabulateM_eq {f : Nat → Option α} (cells : ∀ p, p < n → f p = some (g p)) :
    tabulateM n f = some (tabulate n g) := by
  have all : ∀ ps : List Nat, (∀ p ∈ ps, p < n) → ps.mapM f = some (ps.map g) := by
    intro ps
    induction ps with
    | nil => intro _; rfl
    | cons p ps ih =>
      intro below
      rw [List.mapM_cons, cells p (below p (List.mem_cons_self ..)),
        ih fun q member => below q (List.mem_cons_of_mem p member)]
      rfl
  exact all _ fun p member => List.mem_range.mp member

theorem mapM_tabulate {β : Type u} {h : α → Option β} {k : Nat → β}
    (cells : ∀ p, p < n → h (f p) = some (k p)) : (tabulate n f).mapM h = some (tabulate n k) := by
  rw [tabulate, List.mapM_map]
  exact tabulateM_eq cells

theorem storeCell_tabulate (v : α) (below : p < n) :
    storeCell (tabulate n f) p v = some (tabulate n (Function.update f p v)) := by
  rw [storeCell, if_pos (by rw [length_tabulate]; exact below)]
  refine congrArg some (eq_tabulate (by rw [List.length_set, length_tabulate]) ?_)
  intro q small
  by_cases same : q = p
  · subst same
    rw [Function.update_self, List.getElem?_set_self (by rw [length_tabulate]; exact below)]
  · rw [Function.update_of_ne same, List.getElem?_set_ne (Ne.symm same), getElem?_tabulate small]

end Tabulate

/-! ## Filling an array -/

/-- The array has `n` cells, and those in `done` hold what `final` says. -/
structure Settled (n : Nat) (final : Nat → α) (done : Nat → Prop) (xs : List α) : Prop where
  length_eq : xs.length = n
  cell : ∀ p, done p → xs[p]? = some (final p)

/-- The computation writes to the given cells, and only what `final` says. -/
def Fills (n : Nat) (final : Nat → α) (cells : Nat → Prop) (f : List α → Option (List α)) : Prop :=
  ∀ done xs, Settled n final done xs →
    ∃ xs', f xs = some xs' ∧ Settled n final (fun p => done p ∨ cells p) xs'

section Fills

variable {n : Nat} {final : Nat → α} {cells cells' : Nat → Prop}
  {f g : List α → Option (List α)}

theorem fills_storeCell {p : Nat} {v : α} (below : p < n) (value : v = final p) :
    Fills n final (· = p) fun xs => storeCell xs p v := by
  intro done xs settled
  have inside : p < xs.length := by
    rw [settled.length_eq]
    exact below
  refine ⟨xs.set p v, if_pos inside, ⟨by rw [List.length_set, settled.length_eq], ?_⟩⟩
  intro q written
  by_cases same : q = p
  · subst same
    rw [List.getElem?_set_self inside, value]
  · rw [List.getElem?_set_ne (Ne.symm same)]
    rcases written with before | now
    · exact settled.cell q before
    · exact absurd now same

/-- One more cell. -/
theorem Settled.store {done : Nat → Prop} {xs : List α} (settled : Settled n final done xs) {p : Nat}
    (below : p < n) :
    ∃ ys, storeCell xs p (final p) = some ys ∧ Settled n final (fun q => done q ∨ q = p) ys :=
  fills_storeCell below rfl done xs settled

/-- At first no cell is settled, in the end all are. -/
theorem settled_none {xs : List α} (size : xs.length = n) :
    Settled n final (fun _ => False) xs := ⟨size, fun _ none => none.elim⟩

theorem Settled.eq_tabulate {done : Nat → Prop} {xs : List α} (settled : Settled n final done xs)
    (all : ∀ p, p < n → done p) : xs = tabulate n final :=
  Kit.eq_tabulate settled.length_eq fun p below => settled.cell p (all p below)

theorem Settled.mono {done done' : Nat → Prop} {xs : List α} (settled : Settled n final done xs)
    (fewer : ∀ p, done' p → done p) : Settled n final done' xs :=
  ⟨settled.length_eq, fun p inside => settled.cell p (fewer p inside)⟩

theorem Fills.bind (first : Fills n final cells f) (second : Fills n final cells' g) :
    Fills n final (fun p => cells p ∨ cells' p) fun xs => (f xs).bind g := by
  intro done xs settled
  obtain ⟨ys, run, settled'⟩ := first done xs settled
  obtain ⟨zs, run', settled''⟩ := second _ ys settled'
  refine ⟨zs, by dsimp only; rw [run, Option.bind_some, run'], ⟨settled''.length_eq, ?_⟩⟩
  intro p written
  exact settled''.cell p (or_assoc.mpr written)

theorem Fills.mono (fills : Fills n final cells f) (fewer : ∀ p, cells' p → cells p) :
    Fills n final cells' f := by
  intro done xs settled
  obtain ⟨ys, run, settled'⟩ := fills done xs settled
  refine ⟨ys, run, ⟨settled'.length_eq, ?_⟩⟩
  intro p written
  exact settled'.cell p (written.imp id (fewer p))

/-- A computation that writes nothing. -/
theorem fills_some : Fills n final (fun _ => False) fun xs => some xs := by
  intro done xs settled
  refine ⟨xs, rfl, settled.length_eq, ?_⟩
  intro p written
  exact settled.cell p (written.resolve_right id)

/-- A loop writes what its iterations write. -/
theorem fills_forLoop {count : Nat} {body : Nat → List α → Option (List α)}
    {each : Nat → Nat → Prop} (step : ∀ i, i < count → Fills n final (each i) (body i)) :
    Fills n final (fun p => ∃ i, i < count ∧ each i p) (forLoop count body) := by
  intro done xs settled
  have init : Settled n final (fun p => done p ∨ ∃ i, i < 0 ∧ each i p) xs := by
    refine ⟨settled.length_eq, ?_⟩
    intro p written
    rcases written with before | ⟨i, small, -⟩
    · exact settled.cell p before
    · exact absurd small (Nat.not_lt_zero i)
  refine forLoop_total count body (fun t ys => Settled n final
    (fun p => done p ∨ ∃ i, i < t ∧ each i p) ys) init ?_
  intro t below ys settled'
  obtain ⟨zs, run, settled''⟩ := step t below _ ys settled'
  refine ⟨zs, run, settled''.length_eq, ?_⟩
  intro p written
  refine settled''.cell p ?_
  rcases written with before | ⟨i, small, inside⟩
  · exact .inl (.inl before)
  · rcases Nat.lt_succ_iff_lt_or_eq.mp small with earlier | rfl
    · exact .inl (.inr ⟨i, earlier, inside⟩)
    · exact .inr inside

/-- A computation that fills the whole array determines it. -/
theorem Fills.eq (fills : Fills n final cells f) (all : ∀ p, p < n → cells p) (xs : List α)
    (size : xs.length = n) : f xs = some (tabulate n final) := by
  obtain ⟨ys, run, settled⟩ := fills (fun _ => False) xs (settled_none size)
  rw [run, settled.eq_tabulate fun p below => .inr (all p below)]

/-- A computation that writes a window of an array and does not depend on the other cells
leaves these alone. -/
theorem fills_window [Inhabited α] (start len : Nat) (val : Nat → α)
    (fills : ∀ final, (∀ q, q < len → final (start + q) = val q) →
      Fills n final (fun p => ∃ q, q < len ∧ p = start + q) f)
    {xs : List α} (size : xs.length = n) :
    ∃ ys, f xs = some ys ∧ ys.length = n ∧ (∀ q, q < len → ys[start + q]? = some (val q)) ∧
      ∀ p, p < n → p < start ∨ start + len ≤ p → ys[p]? = xs[p]? := by
  obtain ⟨ys, run, settled⟩ := fills
    (fun p => if start ≤ p ∧ p < start + len then val (p - start) else xs.getD p default)
    (by
      intro q below
      rw [if_pos ⟨Nat.le_add_right _ _, Nat.add_lt_add_left below _⟩, Nat.add_sub_cancel_left])
    (fun p => p < n ∧ (p < start ∨ start + len ≤ p)) xs
    (by
      refine ⟨size, fun p outside => ?_⟩
      rw [if_neg (by omega), List.getD_eq_getElem?_getD,
        List.getElem?_eq_getElem (size.symm ▸ outside.1), Option.getD_some])
  refine ⟨ys, run, settled.length_eq, fun q below => ?_, fun p inside outside => ?_⟩
  · rw [settled.cell (start + q) (.inr ⟨q, below, rfl⟩),
      if_pos ⟨Nat.le_add_right _ _, Nat.add_lt_add_left below _⟩, Nat.add_sub_cancel_left]
  · rw [settled.cell p (.inl ⟨inside, outside⟩), if_neg (by omega), List.getD_eq_getElem?_getD,
      List.getElem?_eq_getElem (size.symm ▸ inside), Option.getD_some]

end Fills

/-! ## Rows -/

/-- The array of `rows` rows of `n` cells with `F r i` in cell `i` of row `r`. -/
def grid (rows n : Nat) (F : Nat → Nat → α) : List α :=
  tabulate (rows * n) fun p => F (p / n) (p % n)

section Grid

variable {rows n r i : Nat} {F G : Nat → Nat → α}

theorem cell_lt (row : r < rows) (column : i < n) : i + n * r < rows * n := by
  have next := Nat.mul_le_mul_right n (Nat.succ_le_of_lt row)
  rw [Nat.succ_mul, Nat.mul_comm r] at next
  omega

theorem cell_div (column : i < n) : (i + n * r) / n = r := by
  rw [Nat.add_mul_div_left _ _ (by omega), Nat.div_eq_of_lt column, Nat.zero_add]

theorem cell_mod (column : i < n) : (i + n * r) % n = i := by
  rw [Nat.add_mul_mod_self_left, Nat.mod_eq_of_lt column]

/-- Every cell lies in one row. -/
theorem exists_cell {p : Nat} (below : p < rows * n) :
    ∃ r i, r < rows ∧ i < n ∧ p = i + n * r := by
  have positive : 0 < n := Nat.pos_of_ne_zero (by rintro rfl; simp at below)
  refine ⟨p / n, p % n, ?_, Nat.mod_lt p positive, (Nat.mod_add_div p n).symm⟩
  rw [Nat.mul_comm] at below
  exact Nat.div_lt_of_lt_mul below

@[simp] theorem length_grid : (grid rows n F).length = rows * n := length_tabulate

theorem getElem?_grid (row : r < rows) (column : i < n) :
    (grid rows n F)[i + n * r]? = some (F r i) := by
  rw [grid, getElem?_tabulate (cell_lt row column), cell_div column, cell_mod column]

theorem eq_grid {xs : List α} (size : xs.length = rows * n)
    (cells : ∀ r i, r < rows → i < n → xs[i + n * r]? = some (F r i)) : xs = grid rows n F := by
  refine eq_tabulate size ?_
  intro p below
  obtain ⟨r, i, row, column, rfl⟩ := exists_cell below
  rw [cells r i row column, cell_div column, cell_mod column]

theorem grid_congr (same : ∀ r i, r < rows → i < n → F r i = G r i) :
    grid rows n F = grid rows n G := by
  refine eq_grid length_grid ?_
  intro r i row column
  rw [getElem?_grid row column, same r i row column]

/-- Every array of the right size is a grid. -/
theorem exists_grid [Inhabited α] {xs : List α} (size : xs.length = rows * n) :
    ∃ F, xs = grid rows n F := by
  refine ⟨fun r i => xs.getD (i + n * r) default, eq_grid size ?_⟩
  intro r i row column
  have inside : i + n * r < xs.length := by
    rw [size]
    exact cell_lt row column
  rw [List.getD_eq_getElem?_getD, List.getElem?_eq_getElem inside, Option.getD_some]

theorem storeCell_grid (v : α) (row : r < rows) (column : i < n) :
    storeCell (grid rows n F) (i + n * r) v =
      some (grid rows n (Function.update F r (Function.update (F r) i v))) := by
  rw [grid, storeCell_tabulate v (cell_lt row column)]
  refine congrArg some (eq_grid length_tabulate ?_)
  intro s j row' column'
  rw [getElem?_tabulate (cell_lt row' column')]
  by_cases same : j + n * s = i + n * r
  · have sameRow : s = r := by rw [← cell_div (r := s) column', same, cell_div column]
    have sameColumn : j = i := by rw [← cell_mod (r := s) column', same, cell_mod column]
    subst sameRow sameColumn
    rw [Function.update_self, Function.update_self, Function.update_self]
  · rw [Function.update_of_ne same, cell_div column', cell_mod column']
    by_cases sameRow : s = r
    · subst sameRow
      have other : j ≠ i := by
        rintro rfl
        exact same rfl
      rw [Function.update_self, Function.update_of_ne other]
    · rw [Function.update_of_ne sameRow]

/-! ## Two rows at once -/

/-- Column `i` of the rows `r` and `s` is updated in place. -/
def updatePair (n r s : Nat) (u : Nat → α → α → Option (α × α)) (i : Nat) (xs : List α) :
    Option (List α) := do
  let a ← xs[i + n * r]?
  let b ← xs[i + n * s]?
  let v ← u i a b
  let xs ← storeCell xs (i + n * r) v.1
  storeCell xs (i + n * s) v.2

theorem updatePair_grid {s : Nat} {u : Nat → α → α → Option (α × α)} {a b : α}
    (row : r < rows) (row' : s < rows) (column : i < n) (apart : r ≠ s)
    (values : u i (F r i) (F s i) = some (a, b)) :
    updatePair n r s u i (grid rows n F) =
      some (grid rows n (Function.update (Function.update F r (Function.update (F r) i a)) s
        (Function.update (F s) i b))) := by
  simp only [updatePair, getElem?_grid row column, getElem?_grid row' column, values,
    storeCell_grid a row column, Option.bind_eq_bind, Option.bind_some]
  rw [storeCell_grid b row' column, Function.update_of_ne (Ne.symm apart)]

/-- A loop along two rows updates these and no others. -/
theorem forLoop_updatePair {s : Nat} {u : Nat → α → α → Option (α × α)} {v w : Nat → α}
    (row : r < rows) (row' : s < rows) (apart : r ≠ s)
    (values : ∀ i, i < n → u i (F r i) (F s i) = some (v i, w i)) :
    forLoop n (updatePair n r s u) (grid rows n F) =
      some (grid rows n (Function.update (Function.update F r v) s w)) := by
  -- the columns before `t` have been updated
  have trace := forLoop_trace n (updatePair n r s u)
    (fun t => grid rows n (Function.update
      (Function.update F r fun i => if i < t then v i else F r i)
      s fun i => if i < t then w i else F s i)) (by
    intro t below
    have next : ∀ f g : Nat → α, Function.update (fun i => if i < t then f i else g i) t (f t) =
        fun i => if i < t + 1 then f i else g i := by
      intro f g
      funext i
      rcases Nat.lt_trichotomy i t with before | rfl | after
      · rw [Function.update_of_ne (by omega), if_pos before, if_pos (by omega)]
      · rw [Function.update_self, if_pos (by omega)]
      · rw [Function.update_of_ne (by omega), if_neg (by omega), if_neg (by omega)]
    rw [updatePair_grid (a := v t) (b := w t) row row' below apart]
    · rw [Function.update_self, Function.update_of_ne apart, Function.update_self, next, next,
        Function.update_comm apart, Function.update_idem, Function.update_comm (Ne.symm apart),
        Function.update_idem]
    · rw [Function.update_self, Function.update_of_ne apart, Function.update_self,
        if_neg (Nat.lt_irrefl t), if_neg (Nat.lt_irrefl t), values t below])
  have start : (fun t => grid rows n (Function.update
      (Function.update F r fun i => if i < t then v i else F r i)
      s fun i => if i < t then w i else F s i)) 0 = grid rows n F := by
    simp
  rw [← start, trace]
  refine congrArg some (grid_congr fun q i _ column => ?_)
  by_cases last : q = s
  · subst last
    rw [Function.update_self, Function.update_self, if_pos column]
  · rw [Function.update_of_ne last, Function.update_of_ne last]
    by_cases first : q = r
    · subst first
      rw [Function.update_self, Function.update_self, if_pos column]
    · rw [Function.update_of_ne first, Function.update_of_ne first]

/-- A loop over the pairs of rows from both ends, up to the middle. -/
theorem forLoop_pairs {h : Nat} (body : Nat → List α → Option (List α)) {v w : Nat → Nat → α}
    (Pre : Nat → (Nat → α) → (Nat → α) → Prop)
    (step : ∀ l (F : Nat → Nat → α), 0 < l → l ≤ h → Pre l (F l) (F (2 * h + 1 - l)) →
      body l (grid (2 * h + 1) n F) = some (grid (2 * h + 1) n
        (Function.update (Function.update F l (v l)) (2 * h + 1 - l) (w l))))
    (pre : ∀ l, 0 < l → l ≤ h → Pre l (F l) (F (2 * h + 1 - l))) :
    forLoop h (fun t => body (t + 1)) (grid (2 * h + 1) n F) =
      some (grid (2 * h + 1) n fun r =>
        if r = 0 then F 0 else if r ≤ h then v r else w (2 * h + 1 - r)) := by
  -- after `t` iterations the outermost `t` pairs are done
  have trace := forLoop_trace h (fun t => body (t + 1))
    (fun t => grid (2 * h + 1) n fun r =>
      if 0 < r ∧ r ≤ t then v r else if 2 * h + 1 - t ≤ r then w (2 * h + 1 - r) else F r) (by
    intro t below
    have low : ¬ (0 < t + 1 ∧ t + 1 ≤ t) := by omega
    have low' : ¬ 2 * h + 1 - t ≤ t + 1 := by omega
    have high : ¬ (0 < 2 * h + 1 - (t + 1) ∧ 2 * h + 1 - (t + 1) ≤ t) := by omega
    have high' : ¬ 2 * h + 1 - t ≤ 2 * h + 1 - (t + 1) := by omega
    rw [step (t + 1) _ (Nat.succ_pos t) below]
    · refine congrArg some (grid_congr fun r i row _ => ?_)
      by_cases last : r = 2 * h + 1 - (t + 1)
      · have flip : 2 * h + 1 - (2 * h + 1 - (t + 1)) = t + 1 := by omega
        rw [last, Function.update_self, if_neg (by omega), if_pos (Nat.le_refl _), flip]
      · rw [Function.update_of_ne last]
        by_cases first : r = t + 1
        · rw [first, Function.update_self, if_pos ⟨Nat.succ_pos t, Nat.le_refl _⟩]
        · rw [Function.update_of_ne first]
          by_cases front : 0 < r ∧ r ≤ t
          · rw [if_pos front, if_pos (by omega)]
          · rw [if_neg front, if_neg (by omega : ¬ (0 < r ∧ r ≤ t + 1))]
            by_cases back : 2 * h + 1 - t ≤ r
            · rw [if_pos back, if_pos (by omega)]
            · rw [if_neg back, if_neg (by omega)]
    · rw [if_neg low, if_neg low', if_neg high, if_neg high']
      exact pre (t + 1) (Nat.succ_pos t) below)
  have start : (fun t => grid (2 * h + 1) n fun r =>
      if 0 < r ∧ r ≤ t then v r else if 2 * h + 1 - t ≤ r then w (2 * h + 1 - r) else F r) 0 =
      grid (2 * h + 1) n F := by
    refine grid_congr fun r i row _ => ?_
    rw [if_neg (by omega), if_neg (by omega)]
  rw [← start, trace]
  refine congrArg some (grid_congr fun r i row _ => ?_)
  rcases Nat.eq_zero_or_pos r with rfl | other
  · rw [if_neg (by omega), if_neg (by omega), if_pos rfl]
  · rw [if_neg other.ne']
    rcases Nat.lt_or_ge h r with high | low
    · rw [if_neg (by omega), if_pos (by omega), if_neg (by omega)]
    · rw [if_pos ⟨other, low⟩, if_pos low]

end Grid

/-! ## Loop nests -/

theorem forLoop_add {σ : Type u} (a b : Nat) (body : Nat → σ → Option σ) (s : σ) :
    forLoop (a + b) body s = (forLoop a body s).bind (forLoop b fun i => body (i + a)) := by
  induction b with
  | zero => exact (Option.bind_fun_some _).symm
  | succ b ih =>
    rw [← Nat.add_assoc, forLoop_succ, ih, Option.bind_assoc]
    refine congrArg (Option.bind _) (funext fun t => ?_)
    rw [forLoop_succ, Nat.add_comm a b]

theorem forLoop_congr {σ : Type u} {n : Nat} {body body' : Nat → σ → Option σ}
    (same : ∀ i, i < n → body i = body' i) (s : σ) : forLoop n body s = forLoop n body' s := by
  induction n with
  | zero => rfl
  | succ n ih =>
    rw [forLoop_succ, forLoop_succ, ih fun i below => same i (Nat.lt_succ_of_lt below),
      same n (Nat.lt_succ_self n)]

/-- A nest of two loops over all columns is one loop. -/
theorem forLoop_nest {σ : Type u} (count n : Nat) (body : Nat → σ → Option σ) (s : σ) :
    forLoop count (fun k => forLoop n fun i => body (i + n * k)) s = forLoop (count * n) body s := by
  induction count with
  | zero => rw [Nat.zero_mul, forLoop_zero, forLoop_zero]
  | succ count ih => rw [forLoop_succ, ih, Nat.succ_mul, forLoop_add, Nat.mul_comm n]

end Kit
