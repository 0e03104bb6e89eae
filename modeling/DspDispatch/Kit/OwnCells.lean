import DspDispatch.Kit.Cells

/-!
# Loops that update an array in place

`Rewrites n start final cells f` says that the computation `f` takes the values `start` of some
cells of an array to `final`, reads no other cells and leaves them alone. This is a frame
rule: computations on disjoint cells can be joined (`Rewrites.bind`, `rewrites_forLoop`), and
so can computations on the same cells, one after the other (`Rewrites.trans`,
`rewrites_stages`).
-/

namespace Kit

universe u

variable {α : Type u} {n : Nat} {start middle final : Nat → α} {cells cells' : Nat → Prop}
  {f g : List α → Option (List α)}

/-- The computation takes the values `start` of the cells to `final`, whatever is in the
other cells, which it keeps. -/
def Rewrites (n : Nat) (start final : Nat → α) (cells : Nat → Prop)
    (f : List α → Option (List α)) : Prop :=
  ∀ xs, xs.length = n → (∀ p, cells p → xs[p]? = some (start p)) →
    ∃ ys, f xs = some ys ∧ ys.length = n ∧ (∀ p, cells p → ys[p]? = some (final p)) ∧
      ∀ p, ¬ cells p → ys[p]? = xs[p]?

theorem rewrites_storeCell {p : Nat} {v : α} (below : p < n) (value : v = final p) :
    Rewrites n start final (· = p) fun xs => storeCell xs p v := by
  intro xs size _
  refine ⟨xs.set p v, if_pos (size.symm ▸ below), by rw [List.length_set, size], ?_, ?_⟩
  · rintro q rfl
    rw [List.getElem?_set_self (size.symm ▸ below), value]
  · intro q other
    rw [List.getElem?_set_ne (Ne.symm other)]

/-- Reading one of the cells. -/
theorem Rewrites.read {p : Nat} {g : α → List α → Option (List α)} (inside : cells p)
    (rest : Rewrites n start final cells (g (start p))) :
    Rewrites n start final cells fun xs => xs[p]?.bind fun v => g v xs := by
  intro xs size values
  obtain ⟨ys, run, result⟩ := rest xs size values
  refine ⟨ys, ?_, result⟩
  dsimp only
  rw [values p inside, Option.bind_some, run]

theorem Rewrites.congr_cells (rewrites : Rewrites n start final cells f)
    (same : ∀ p, cells' p ↔ cells p) : Rewrites n start final cells' f := by
  obtain rfl : cells' = cells := funext fun p => propext (same p)
  exact rewrites

/-- Two computations on disjoint cells. -/
theorem Rewrites.bind (first : Rewrites n start final cells f)
    (second : Rewrites n start final cells' g) (apart : ∀ p, cells p → ¬ cells' p) :
    Rewrites n start final (fun p => cells p ∨ cells' p) fun xs => (f xs).bind g := by
  intro xs size values
  obtain ⟨ys, run, size', written, kept⟩ := first xs size fun p inside => values p (.inl inside)
  obtain ⟨zs, run', size'', written', kept'⟩ := second ys size' fun p inside => by
    rw [kept p fun both => apart p both inside, values p (.inr inside)]
  refine ⟨zs, by dsimp only; rw [run, Option.bind_some, run'], size'', ?_, ?_⟩
  · rintro p (inside | inside)
    · rw [kept' p (apart p inside), written p inside]
    · exact written' p inside
  · intro p outside
    rw [kept' p fun inside => outside (.inr inside), kept p fun inside => outside (.inl inside)]

/-- Two computations on the same cells. -/
theorem Rewrites.trans (first : Rewrites n start middle cells f)
    (second : Rewrites n middle final cells g) :
    Rewrites n start final cells fun xs => (f xs).bind g := by
  intro xs size values
  obtain ⟨ys, run, size', written, kept⟩ := first xs size values
  obtain ⟨zs, run', size'', written', kept'⟩ := second ys size' written
  refine ⟨zs, by dsimp only; rw [run, Option.bind_some, run'], size'', written', ?_⟩
  intro p outside
  rw [kept' p outside, kept p outside]

/-- A loop whose iterations have cells of their own: `key` tells the iteration of a cell. -/
theorem rewrites_forLoop {count : Nat} {body : Nat → List α → Option (List α)}
    {each : Nat → Nat → Prop} (key : Nat → Nat) (own : ∀ i p, i < count → each i p → key p = i)
    (step : ∀ i, i < count → Rewrites n start final (each i) (body i)) :
    Rewrites n start final (fun p => ∃ i, i < count ∧ each i p) (forLoop count body) := by
  induction count with
  | zero =>
    intro xs size _
    refine ⟨xs, rfl, size, ?_, fun _ _ => rfl⟩
    rintro p ⟨i, small, -⟩
    exact absurd small (Nat.not_lt_zero i)
  | succ count ih =>
    have before := ih (fun i p small => own i p (by omega)) fun i small => step i (by omega)
    have both := before.bind (step count (Nat.lt_succ_self count)) (by
      rintro p ⟨i, small, inside⟩ last
      have same := own i p (by omega) inside
      rw [own count p (Nat.lt_succ_self count) last] at same
      omega)
    refine both.congr_cells fun p => ⟨?_, ?_⟩
    · rintro ⟨i, small, inside⟩
      rcases Nat.lt_succ_iff_lt_or_eq.mp small with earlier | rfl
      · exact .inl ⟨i, earlier, inside⟩
      · exact .inr inside
    · rintro (⟨i, small, inside⟩ | last)
      · exact ⟨i, by omega, inside⟩
      · exact ⟨count, Nat.lt_succ_self count, last⟩

/-- A loop whose iterations go over the same cells. -/
theorem rewrites_stages {count : Nat} {body : Nat → List α → Option (List α)}
    {stages : Nat → Nat → α}
    (step : ∀ t, t < count → Rewrites n (stages t) (stages (t + 1)) cells (body t)) :
    Rewrites n (stages 0) (stages count) cells (forLoop count body) := by
  induction count with
  | zero => exact fun xs size values => ⟨xs, rfl, size, values, fun _ _ => rfl⟩
  | succ count ih =>
    exact (ih fun t small => step t (by omega)).trans (step count (Nat.lt_succ_self count))

/-- What becomes of an array if the cells that are not written have their final values. -/
theorem Fills.eq_of_kept (fills : Fills n final cells f) {xs : List α} (size : xs.length = n)
    (kept : ∀ p, p < n → ¬ cells p → xs[p]? = some (final p)) :
    f xs = some (tabulate n final) := by
  have settled : Settled n final (fun p => p < n ∧ ¬ cells p) xs :=
    ⟨size, fun p inside => kept p inside.1 inside.2⟩
  obtain ⟨ys, run, settled'⟩ := fills _ xs settled
  rw [run, settled'.eq_tabulate fun p below => ?_]
  by_cases own : cells p
  · exact .inr own
  · exact .inl ⟨below, own⟩

variable (cells) in
/-- A computation that writes some cells and does not depend on the others leaves these alone. -/
theorem fills_own [Inhabited α] (val : Nat → α)
    (fills : ∀ final, (∀ p, cells p → final p = val p) → Fills n final cells f) {xs : List α}
    (size : xs.length = n) :
    ∃ ys, f xs = some ys ∧ ys.length = n ∧ (∀ p, cells p → ys[p]? = some (val p)) ∧
      ∀ p, p < n → ¬ cells p → ys[p]? = xs[p]? := by
  classical
  have cell : ∀ p, p < n → ¬ cells p →
      xs[p]? = some (if cells p then val p else xs.getD p default) := by
    intro p below other
    have inside : p < xs.length := size.symm ▸ below
    rw [if_neg other, List.getD_eq_getElem?_getD, List.getElem?_eq_getElem inside, Option.getD_some]
  obtain ⟨ys, run, settled⟩ := fills (fun p => if cells p then val p else xs.getD p default)
    (fun p own => if_pos own) (fun p => p < n ∧ ¬ cells p) xs
    ⟨size, fun p inside => cell p inside.1 inside.2⟩
  refine ⟨ys, run, settled.length_eq, fun p own => ?_, fun p below other => ?_⟩
  · rw [settled.cell p (.inr own), if_pos own]
  · rw [settled.cell p (.inl ⟨below, other⟩), cell p below other]

/-- A loop along one row of a grid. -/
theorem forLoop_updateRow {rows r : Nat} {F : Nat → Nat → α} {v : Nat → α}
    {body : Nat → List α → Option (List α)} (row : r < rows)
    (step : ∀ i G, i < n → G r i = F r i → (∀ s, s ≠ r → G s = F s) →
      body i (grid rows n G) = storeCell (grid rows n G) (i + n * r) (v i)) :
    forLoop n body (grid rows n F) = some (grid rows n (Function.update F r v)) := by
  -- the columns before `t` have been updated
  have trace := forLoop_trace n body
    (fun t => grid rows n (Function.update F r fun i => if i < t then v i else F r i)) (by
    intro t below
    rw [step t _ below, storeCell_grid (v t) row below, Function.update_self, Function.update_idem]
    · refine congrArg some (grid_congr fun s i _ _ => ?_)
      by_cases here : s = r
      · subst here
        rw [Function.update_self, Function.update_self]
        rcases Nat.lt_trichotomy i t with before | rfl | after
        · rw [Function.update_of_ne (by omega), if_pos before, if_pos (by omega)]
        · rw [Function.update_self, if_pos (by omega)]
        · rw [Function.update_of_ne (by omega), if_neg (by omega), if_neg (by omega)]
      · rw [Function.update_of_ne here, Function.update_of_ne here]
    · rw [Function.update_self, if_neg (Nat.lt_irrefl t)]
    · exact fun s other => Function.update_of_ne other _ _)
  have start : (fun t => grid rows n (Function.update F r fun i => if i < t then v i else F r i)) 0 =
      grid rows n F := by
    simp
  rw [← start, trace]
  refine congrArg some (grid_congr fun s i _ column => ?_)
  by_cases here : s = r
  · subst here
    rw [Function.update_self, Function.update_self, if_pos column]
  · rw [Function.update_of_ne here, Function.update_of_ne here]

/-- What becomes of a whole array if the cells that are left alone have their final values. -/
theorem Rewrites.eq (rewrites : Rewrites n start final cells f) (inside : ∀ p, cells p → p < n)
    (others : ∀ p, p < n → ¬ cells p → start p = final p) :
    f (tabulate n start) = some (tabulate n final) := by
  obtain ⟨ys, run, size, written, kept⟩ := rewrites (tabulate n start) length_tabulate
    fun p own => getElem?_tabulate (inside p own)
  rw [run]
  refine congrArg some (eq_tabulate size fun p below => ?_)
  by_cases own : cells p
  · exact written p own
  · rw [kept p own, getElem?_tabulate below, others p below own]

end Kit
