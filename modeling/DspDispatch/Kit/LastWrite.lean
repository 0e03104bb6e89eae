import Mathlib.Data.List.Perm.Basic

/-!
# The last write

A loop over rows that overwrites a slot leaves what the last row that writes has
written. Every order of the rows leaves the same exactly if all writes agree.
-/

namespace Kit

universe u v

variable {ρ : Type u} {α : Type v} {w : ρ → Option α} {rows rows' : List ρ} {r : ρ} {x : α}

/-- What the last row that writes has written; `w` says what a row writes. -/
def lastWrite (w : ρ → Option α) : List ρ → Option α
  | [] => none
  | r :: rows => (lastWrite w rows).or (w r)

/-- Any two rows that write have written the same. -/
def Agree (w : ρ → Option α) (rows : List ρ) : Prop :=
  ∀ r ∈ rows, ∀ r' ∈ rows, ∀ x x', w r = some x → w r' = some x' → x = x'

theorem lastWrite_append (w : ρ → Option α) (rows rows' : List ρ) :
    lastWrite w (rows ++ rows') = (lastWrite w rows').or (lastWrite w rows) := by
  induction rows with
  | nil => rw [List.nil_append, lastWrite, Option.or_none]
  | cons r rows ih => rw [List.cons_append, lastWrite, ih, lastWrite, Option.or_assoc]

theorem exists_of_lastWrite (last : lastWrite w rows = some x) : ∃ r ∈ rows, w r = some x := by
  induction rows with
  | nil => cases last
  | cons r rows ih =>
    rw [lastWrite, Option.or_eq_some_iff] at last
    rcases last with later | ⟨-, here⟩
    · obtain ⟨r', member, writes⟩ := ih later
      exact ⟨r', List.mem_cons_of_mem r member, writes⟩
    · exact ⟨r, List.mem_cons_self, here⟩

theorem exists_lastWrite (member : r ∈ rows) (writes : w r = some x) :
    ∃ y, lastWrite w rows = some y := by
  obtain ⟨before, after, rfl⟩ := List.append_of_mem member
  rw [lastWrite_append, lastWrite, writes]
  cases lastWrite w after with
  | some y => exact ⟨y, rfl⟩
  | none => exact ⟨x, rfl⟩

/-- Where the writes agree, the slot holds what any of them wrote. -/
theorem Agree.lastWrite_eq (agree : Agree w rows) (member : r ∈ rows) (writes : w r = some x) :
    lastWrite w rows = some x := by
  obtain ⟨y, last⟩ := exists_lastWrite member writes
  obtain ⟨r', member', writes'⟩ := exists_of_lastWrite last
  rw [last, agree r' member' r member y x writes' writes]

theorem Agree.perm (agree : Agree w rows) (same : rows.Perm rows') : Agree w rows' := by
  intro r member r' member'
  exact agree r (same.mem_iff.mpr member) r' (same.mem_iff.mpr member')

/-- Agreeing writes may come in any order. -/
theorem Agree.lastWrite_perm (agree : Agree w rows) (same : rows.Perm rows') :
    lastWrite w rows' = lastWrite w rows := by
  cases last : lastWrite w rows with
  | some x =>
    obtain ⟨r, member, writes⟩ := exists_of_lastWrite last
    exact (agree.perm same).lastWrite_eq (same.mem_iff.mp member) writes
  | none =>
    cases last' : lastWrite w rows' with
    | none => rfl
    | some x =>
      obtain ⟨r, member, writes⟩ := exists_of_lastWrite last'
      obtain ⟨y, found⟩ := exists_lastWrite (same.mem_iff.mpr member) writes
      rw [last] at found
      cases found

/-- A row that writes can be made the last one. -/
theorem exists_perm_lastWrite (member : r ∈ rows) (writes : w r = some x) :
    ∃ rows', rows.Perm rows' ∧ lastWrite w rows' = some x := by
  obtain ⟨before, after, rfl⟩ := List.append_of_mem member
  refine ⟨before ++ after ++ [r], ?_, ?_⟩
  · exact List.perm_middle.trans (List.perm_append_singleton r (before ++ after)).symm
  · rw [lastWrite_append, lastWrite, lastWrite, writes]
    rfl

theorem agree_of_lastWrite_perm
    (invariant : ∀ rows', rows.Perm rows' → lastWrite w rows' = lastWrite w rows) :
    Agree w rows := by
  intro r member r' member' x x' writes writes'
  obtain ⟨order, same, last⟩ := exists_perm_lastWrite member writes
  obtain ⟨order', same', last'⟩ := exists_perm_lastWrite member' writes'
  rw [invariant order same] at last
  rw [invariant order' same', last] at last'
  exact Option.some.inj last'

end Kit
