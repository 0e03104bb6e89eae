import Mathlib.Data.List.Basic

/-!
# Collecting results that may be missing

`List.mapM` over `Option` has a result exactly if every element has one, and then
the results are those of the elements.
-/

namespace Kit

universe u v w

variable {α : Type u} {β : Type v} {γ : Type w} {f : α → Option β} {xs : List α} {ys : List β}

theorem mapM_eq_some_iff : xs.mapM f = some ys ↔ xs.map f = ys.map some := by
  induction xs generalizing ys with
  | nil =>
    cases ys with
    | nil => exact ⟨fun _ => rfl, fun _ => rfl⟩
    | cons y ys =>
      constructor
      · intro same
        cases same
      · intro same
        cases same
  | cons x xs ih =>
    rw [List.mapM_cons, List.map_cons]
    constructor
    · intro collected
      obtain ⟨y, first, collected⟩ := Option.bind_eq_some_iff.mp collected
      obtain ⟨rest, later, collected⟩ := Option.bind_eq_some_iff.mp collected
      cases collected
      rw [first, ih.mp later, List.map_cons]
    · intro same
      cases ys with
      | nil => cases same
      | cons y ys =>
        obtain ⟨first, later⟩ := List.cons.inj same
        rw [first, ih.mpr later]
        rfl

theorem exists_mapM (each : ∀ x ∈ xs, ∃ y, f x = some y) : ∃ ys, xs.mapM f = some ys := by
  induction xs with
  | nil => exact ⟨[], rfl⟩
  | cons x xs ih =>
    obtain ⟨y, first⟩ := each x List.mem_cons_self
    obtain ⟨ys, later⟩ := ih fun x member => each x (List.mem_cons_of_mem _ member)
    refine ⟨y :: ys, ?_⟩
    rw [List.mapM_cons, first, later]
    rfl

/-- What is collected comes from an element. -/
theorem mem_of_mapM (collected : xs.mapM f = some ys) {y : β} :
    y ∈ ys ↔ ∃ x ∈ xs, f x = some y := by
  have each := mapM_eq_some_iff.mp collected
  rw [← List.mem_map, each]
  simp

/-- Results that tell where they come from are collected in order. -/
theorem map_of_mapM {g : β → γ} {h : α → γ} (origin : ∀ x y, f x = some y → g y = h x)
    (collected : xs.mapM f = some ys) : ys.map g = xs.map h := by
  induction xs generalizing ys with
  | nil =>
    cases collected
    rfl
  | cons x xs ih =>
    rw [List.mapM_cons] at collected
    obtain ⟨y, first, collected⟩ := Option.bind_eq_some_iff.mp collected
    obtain ⟨rest, later, collected⟩ := Option.bind_eq_some_iff.mp collected
    cases collected
    rw [List.map_cons, List.map_cons, ih later, origin x y first]

/-- What every step of a fold keeps, the fold keeps. -/
theorem foldlM_keeps {f : β → α → Option β} (Inv : β → Prop)
    (step : ∀ acc x acc', x ∈ xs → Inv acc → f acc x = some acc' → Inv acc') :
    ∀ {acc acc' : β}, Inv acc → xs.foldlM f acc = some acc' → Inv acc' := by
  induction xs with
  | nil =>
    intro acc acc' start run
    cases run
    exact start
  | cons x xs ih =>
    intro acc acc' start run
    obtain ⟨next, first, rest⟩ := Option.bind_eq_some_iff.mp run
    exact ih (fun acc y acc' member => step acc y acc' (List.mem_cons_of_mem _ member))
      (step acc x next (List.mem_cons_self ..) start first) rest

/-- What is there on one side of related results is there on the other. -/
theorem exists_of_rel {R : α → β → Prop} {x : Option α} {y : Option β}
    (related : Option.Rel R x y) :
    (∀ a, x = some a → ∃ b, y = some b ∧ R a b) ∧ ∀ b, y = some b → ∃ a, x = some a ∧ R a b := by
  cases related with
  | some both =>
    constructor
    · rintro a ⟨⟩
      exact ⟨_, rfl, both⟩
    · rintro b ⟨⟩
      exact ⟨_, rfl, both⟩
  | none =>
    constructor
    · rintro a ⟨⟩
    · rintro b ⟨⟩

end Kit
