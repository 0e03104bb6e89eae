import Mathlib.Data.List.Nodup

/-!
# Dictionaries in order of insertion

A `Dict` lists its entries in the order in which their keys first came. Writing to
a key that is there keeps its place. No key occurs twice, so an entry is what its
key is looked up as.
-/

namespace Kit

universe u v w

structure Dict (κ : Type u) (α : Type v) where
  entries : List (κ × α)
  nodup : (entries.map Prod.fst).Nodup

namespace Dict

variable {κ : Type u} {α : Type v} {β : Type w}

def empty : Dict κ α := ⟨[], List.nodup_nil⟩

def keys (d : Dict κ α) : List κ := d.entries.map Prod.fst

section

variable [DecidableEq κ]

/-- The value of a key; `none` when the key is missing. -/
def get? (d : Dict κ α) (k : κ) : Option α := d.entries.lookup k

/-- The entries after a write to a key. -/
def setEntries (k : κ) (v : α) : List (κ × α) → List (κ × α)
  | [] => [(k, v)]
  | e :: es => if e.1 = k then (k, v) :: es else e :: setEntries k v es

theorem mem_setEntries {k : κ} {v : α} {e : κ × α} {es : List (κ × α)}
    (member : e ∈ setEntries k v es) : e = (k, v) ∨ e ∈ es := by
  induction es with
  | nil => exact Or.inl (List.mem_singleton.mp member)
  | cons f es ih =>
    rw [setEntries] at member
    split at member
    · rcases List.mem_cons.mp member with rfl | later
      · exact Or.inl rfl
      · exact Or.inr (List.mem_cons_of_mem f later)
    · rcases List.mem_cons.mp member with rfl | later
      · exact Or.inr List.mem_cons_self
      · exact (ih later).imp_right (List.mem_cons_of_mem f)

theorem nodup_setEntries (k : κ) (v : α) {es : List (κ × α)} (nodup : (es.map Prod.fst).Nodup) :
    ((setEntries k v es).map Prod.fst).Nodup := by
  induction es with
  | nil => exact List.nodup_singleton k
  | cons f es ih =>
    rw [List.map_cons, List.nodup_cons] at nodup
    obtain ⟨fresh, nodup⟩ := nodup
    rw [setEntries]
    split
    · rename_i same
      rw [List.map_cons, List.nodup_cons]
      exact ⟨same ▸ fresh, nodup⟩
    · rename_i other
      rw [List.map_cons, List.nodup_cons]
      refine ⟨?_, ih nodup⟩
      intro member
      obtain ⟨e, inside, key⟩ := List.mem_map.mp member
      rcases mem_setEntries inside with rfl | before
      · exact other key.symm
      · exact fresh (List.mem_map.mpr ⟨e, before, key⟩)

def set (d : Dict κ α) (k : κ) (v : α) : Dict κ α :=
  ⟨setEntries k v d.entries, nodup_setEntries k v d.nodup⟩

@[simp] theorem get?_empty (k : κ) : (empty : Dict κ α).get? k = none := rfl

theorem lookup_setEntries_self (k : κ) (v : α) (es : List (κ × α)) :
    (setEntries k v es).lookup k = some v := by
  induction es with
  | nil => exact List.lookup_cons_self
  | cons e es ih =>
    rw [setEntries]
    split
    · exact List.lookup_cons_self
    · rename_i other
      have differs : (k == e.1) = false := beq_eq_false_iff_ne.mpr (Ne.symm other)
      rw [List.lookup_cons, differs]
      exact ih

theorem lookup_setEntries_of_ne {k k' : κ} (other : k' ≠ k) (v : α) (es : List (κ × α)) :
    (setEntries k v es).lookup k' = es.lookup k' := by
  have differs : (k' == k) = false := beq_eq_false_iff_ne.mpr other
  induction es with
  | nil => rw [setEntries, List.lookup_cons, differs]
  | cons e es ih =>
    rw [setEntries]
    split
    · rename_i same
      rw [List.lookup_cons, List.lookup_cons, same, differs]
    · rw [List.lookup_cons, List.lookup_cons, ih]

@[simp] theorem get?_set_self (d : Dict κ α) (k : κ) (v : α) : (d.set k v).get? k = some v :=
  lookup_setEntries_self k v d.entries

theorem get?_set_of_ne {k k' : κ} (other : k' ≠ k) (d : Dict κ α) (v : α) :
    (d.set k v).get? k' = d.get? k' :=
  lookup_setEntries_of_ne other v d.entries

/-! ## Entries -/

/-- The entry of a key is its only one. -/
theorem mem_entries_iff {d : Dict κ α} {k : κ} {v : α} :
    (k, v) ∈ d.entries ↔ d.get? k = some v := by
  obtain ⟨entries, nodup⟩ := d
  simp only [get?]
  induction entries with
  | nil => simp
  | cons e es ih =>
    obtain ⟨k', v'⟩ := e
    rw [List.map_cons, List.nodup_cons] at nodup
    obtain ⟨fresh, nodup⟩ := nodup
    rw [List.mem_cons, List.lookup_cons, ih nodup, Prod.mk.injEq]
    by_cases same : k = k'
    · subst same
      have missing : es.lookup k = none := by
        rw [List.lookup_eq_none_iff]
        intro p member
        refine bne_iff_ne.mpr ?_
        intro key
        exact fresh (List.mem_map.mpr ⟨p, member, key.symm⟩)
      simp only [missing, beq_self_eq_true, Option.some.injEq, true_and, reduceCtorEq, or_false]
      exact eq_comm
    · have differs : (k == k') = false := beq_eq_false_iff_ne.mpr same
      simp only [differs, same, false_and, false_or]

theorem mem_keys_iff {d : Dict κ α} {k : κ} : k ∈ d.keys ↔ ∃ v, d.get? k = some v := by
  constructor
  · intro member
    obtain ⟨⟨k, v⟩, inside, rfl⟩ := List.mem_map.mp member
    exact ⟨v, mem_entries_iff.mp inside⟩
  · intro held
    rcases held with ⟨v, found⟩
    exact List.mem_map.mpr ⟨(k, v), mem_entries_iff.mpr found, rfl⟩

theorem exists_get? {d : Dict κ α} (nonempty : d.entries ≠ []) :
    ∃ key value, d.get? key = some value := by
  obtain ⟨⟨key, value⟩, es, entries⟩ := List.exists_cons_of_ne_nil nonempty
  refine ⟨key, value, mem_entries_iff.mp ?_⟩
  rw [entries]
  exact List.mem_cons_self

theorem entries_ne_nil {d : Dict κ α} {key : κ} {value : α} (held : d.get? key = some value) :
    d.entries ≠ [] :=
  List.ne_nil_of_mem (mem_entries_iff.mpr held)

/-! ## Values changed -/

/-- The entries with their values changed. -/
def mapValues (f : α → β) (d : Dict κ α) : Dict κ β :=
  ⟨d.entries.map fun e => (e.1, f e.2), by
    rw [List.map_map]
    exact d.nodup⟩

theorem get?_mapValues (f : α → β) (d : Dict κ α) (k : κ) :
    (d.mapValues f).get? k = (d.get? k).map f := by
  obtain ⟨entries, nodup⟩ := d
  simp only [get?, mapValues]
  clear nodup
  induction entries with
  | nil => rfl
  | cons e es ih =>
    rw [List.map_cons, List.lookup_cons, List.lookup_cons, ih]
    cases k == e.1 with
    | true => rfl
    | false => rfl

/-! ## Dictionaries from lists -/

/-- Writes all entries in turn. -/
def ofList (es : List (κ × α)) : Dict κ α := es.foldl (fun d e => d.set e.1 e.2) empty

theorem get?_foldl_set {es : List (κ × α)} (distinct : (es.map Prod.fst).Nodup) (d : Dict κ α)
    {k : κ} {v : α} :
    (es.foldl (fun d e => d.set e.1 e.2) d).get? k = some v ↔
      (k, v) ∈ es ∨ (k ∉ es.map Prod.fst ∧ d.get? k = some v) := by
  induction es generalizing d with
  | nil => simp
  | cons e es ih =>
    obtain ⟨k', v'⟩ := e
    rw [List.map_cons, List.nodup_cons] at distinct
    obtain ⟨fresh, distinct⟩ := distinct
    rw [List.foldl_cons, ih distinct, List.mem_cons, List.map_cons, List.mem_cons, Prod.mk.injEq]
    by_cases same : k = k'
    · subst same
      have absent : ∀ v, (k, v) ∉ es := fun v member => fresh (List.mem_map.mpr ⟨_, member, rfl⟩)
      simp only [get?_set_self, Option.some.injEq, absent, fresh, not_false_eq_true, true_and,
        not_true_eq_false, false_and, or_false, false_or]
      exact eq_comm
    · rw [get?_set_of_ne same]
      simp only [same, false_and, false_or]

/-- Entries with distinct keys are all there. -/
theorem get?_ofList {es : List (κ × α)} (distinct : (es.map Prod.fst).Nodup) {k : κ} {v : α} :
    (ofList es).get? k = some v ↔ (k, v) ∈ es := by
  rw [ofList, get?_foldl_set distinct]
  simp

end

end Dict

end Kit
