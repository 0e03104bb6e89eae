import Mathlib.Data.Finset.Card
import Mathlib.Data.Fintype.Card
import Mathlib.Logic.Function.Basic
import Mathlib.Tactic.Common

/-!
# Timestamped least-recently-used caches

A cache of `n` slots. Each slot has a stamp, the clock value of its last access,
and a missing key replaces a slot of the smallest stamp. Empty slots have the
stamp zero, so they are filled first.

The history is the list of keys accessed so far, the latest first. `since k past`
is the set of other keys accessed since the last access of `k`. `Tracks` says
what the slots and stamps mean in terms of the history, and `Access.tracks` that
every access keeps this. So a key is found exactly when it has been accessed and
fewer than `n` other keys have been accessed since (`Access.hit_iff`).
-/

namespace Kit

universe u

variable {κ : Type u} {n : Nat}

/-- Slots with their keys, the stamp of each slot, and the clock. -/
@[ext] structure LruCache (κ : Type u) (n : Nat) where
  slot : Fin n → Option κ
  stamp : Fin n → Nat
  clock : Nat

namespace LruCache

/-- The cache before the first access. -/
def empty (κ : Type u) (n : Nat) : LruCache κ n := ⟨fun _ => none, fun _ => 0, 0⟩

/-- Slot `i` holds key `k`, accessed now. -/
def touch (c : LruCache κ n) (i : Fin n) (k : κ) : LruCache κ n :=
  ⟨Function.update c.slot i (some k), Function.update c.stamp i (c.clock + 1), c.clock + 1⟩

@[simp] theorem touch_slot_self (c : LruCache κ n) (i : Fin n) (k : κ) :
    (c.touch i k).slot i = some k := Function.update_self _ _ _

theorem touch_slot_of_ne (c : LruCache κ n) {i j : Fin n} (other : j ≠ i) (k : κ) :
    (c.touch i k).slot j = c.slot j := Function.update_of_ne other _ _

@[simp] theorem touch_stamp_self (c : LruCache κ n) (i : Fin n) (k : κ) :
    (c.touch i k).stamp i = c.clock + 1 := Function.update_self _ _ _

theorem touch_stamp_of_ne (c : LruCache κ n) {i j : Fin n} (other : j ≠ i) (k : κ) :
    (c.touch i k).stamp j = c.stamp j := Function.update_of_ne other _ _

/-- One access of the key `k`; the Boolean says whether it was found. A key found
in the most recent slot need not be stamped again. -/
inductive Access (k : κ) (c : LruCache κ n) : Bool → LruCache κ n → Prop
  | again (i : Fin n) (found : c.slot i = some k) (latest : c.stamp i = c.clock) :
    Access k c true c
  | hit (i : Fin n) (found : c.slot i = some k) : Access k c true (c.touch i k)
  | miss (i : Fin n) (absent : ∀ j, c.slot j ≠ some k) (oldest : ∀ j, c.stamp i ≤ c.stamp j) :
    Access k c false (c.touch i k)

/-! ## Histories -/

section History

variable [DecidableEq κ]

/-- The other keys accessed since the last access of `k`. -/
def since (k : κ) (past : List κ) : Finset κ := (past.takeWhile (· ≠ k)).toFinset

@[simp] theorem since_self (k : κ) (past : List κ) : since k (k :: past) = ∅ := by
  simp [since]

theorem since_cons_of_ne {k k' : κ} (other : k' ≠ k) (past : List κ) :
    since k (k' :: past) = insert k' (since k past) := by
  simp [since, other]

/-- What the slots and stamps of a cache say about the history. -/
structure Tracks (past : List κ) (c : LruCache κ n) : Prop where
  stamp_le : ∀ i, c.stamp i ≤ c.clock
  stamp_empty : ∀ i, c.slot i = none → c.stamp i = 0
  stamp_pos : ∀ i k, c.slot i = some k → 0 < c.stamp i
  stamp_inj : ∀ i j, 0 < c.stamp i → c.stamp i = c.stamp j → i = j
  key_inj : ∀ i j k, c.slot i = some k → c.slot j = some k → i = j
  key_mem : ∀ i k, c.slot i = some k → k ∈ past
  since_iff : ∀ i k, c.slot i = some k →
    ∀ k', k' ∈ since k past ↔ ∃ j, c.slot j = some k' ∧ c.stamp i < c.stamp j
  evicted : ∀ k, k ∈ past → (∀ i, c.slot i ≠ some k) → n ≤ (since k past).card

theorem empty_tracks : Tracks [] (empty κ n) := by
  constructor <;> simp [empty]

variable {past : List κ} {c : LruCache κ n} {k : κ}

/-- The slot accessed last has the largest stamp. -/
theorem Tracks.stamp_touch_lt (tracks : Tracks past c) {i j : Fin n} (other : j ≠ i) (k : κ) :
    (c.touch i k).stamp j < (c.touch i k).stamp i := by
  rw [touch_stamp_of_ne c other, touch_stamp_self]
  exact Nat.lt_succ_of_le (tracks.stamp_le j)

theorem Tracks.stamp_inj_touch (tracks : Tracks past c) {i j l : Fin n}
    (positive : 0 < (c.touch i k).stamp j)
    (same : (c.touch i k).stamp j = (c.touch i k).stamp l) : j = l := by
  by_cases hereJ : j = i
  · by_cases hereL : l = i
    · rw [hereJ, hereL]
    · have less := tracks.stamp_touch_lt hereL k
      rw [hereJ] at same
      omega
  · by_cases hereL : l = i
    · have less := tracks.stamp_touch_lt hereJ k
      rw [hereL] at same
      omega
    · rw [touch_stamp_of_ne c hereJ] at positive same
      rw [touch_stamp_of_ne c hereL] at same
      exact tracks.stamp_inj j l positive same

theorem Tracks.key_inj_touch (tracks : Tracks past c) {i j l : Fin n} {k' : κ}
    (alone : ∀ j, c.slot j = some k → j = i)
    (foundJ : (c.touch i k).slot j = some k') (foundL : (c.touch i k).slot l = some k') :
    j = l := by
  by_cases hereJ : j = i
  · rw [hereJ, touch_slot_self] at foundJ
    cases foundJ
    by_cases hereL : l = i
    · rw [hereJ, hereL]
    · rw [touch_slot_of_ne c hereL] at foundL
      exact absurd (alone l foundL) hereL
  · rw [touch_slot_of_ne c hereJ] at foundJ
    by_cases hereL : l = i
    · rw [hereL, touch_slot_self] at foundL
      cases foundL
      exact absurd (alone j foundJ) hereJ
    · rw [touch_slot_of_ne c hereL] at foundL
      exact tracks.key_inj j l k' foundJ foundL

/-- What is newer than another slot after the access: `k`, and what was newer
before, since slot `i` held nothing newer but `k`. -/
theorem Tracks.newer_touch (tracks : Tracks past c) {i j : Fin n} (other : j ≠ i)
    (behind : ∀ k', c.slot i = some k' → c.stamp j < c.stamp i → k' = k) (k'' : κ) :
    (∃ l, (c.touch i k).slot l = some k'' ∧ (c.touch i k).stamp j < (c.touch i k).stamp l) ↔
      k'' = k ∨ ∃ l, c.slot l = some k'' ∧ c.stamp j < c.stamp l := by
  constructor
  · intro ⟨l, foundL, later⟩
    by_cases hereL : l = i
    · rw [hereL, touch_slot_self] at foundL
      cases foundL
      exact .inl rfl
    · rw [touch_slot_of_ne c hereL] at foundL
      rw [touch_stamp_of_ne c other, touch_stamp_of_ne c hereL] at later
      exact .inr ⟨l, foundL, later⟩
  · intro newer
    have latest : k'' = k → ∃ l, (c.touch i k).slot l = some k'' ∧
        (c.touch i k).stamp j < (c.touch i k).stamp l := by
      intro same
      exact ⟨i, by rw [touch_slot_self, same], tracks.stamp_touch_lt other k⟩
    rcases newer with same | ⟨l, foundL, later⟩
    · exact latest same
    · by_cases hereL : l = i
      · rw [hereL] at foundL later
        exact latest (behind k'' foundL later)
      · refine ⟨l, by rw [touch_slot_of_ne c hereL, foundL], ?_⟩
        rwa [touch_stamp_of_ne c other, touch_stamp_of_ne c hereL]

/-- Accessing a key in slot `i` keeps the meaning of slots and stamps if the key
is in no other slot, and the key that leaves slot `i` is not missed: fewer than
`n` accesses later it was not the one to find. -/
theorem Tracks.touch (tracks : Tracks past c) {i : Fin n}
    (alone : ∀ j, c.slot j = some k → j = i)
    (behind : ∀ j k', c.slot i = some k' → c.stamp j < c.stamp i → k' = k)
    (lost : ∀ k', k' ≠ k → c.slot i = some k' → n ≤ (insert k (since k' past)).card) :
    Tracks (k :: past) (c.touch i k) := by
  constructor
  case stamp_le =>
    intro j
    by_cases here : j = i
    · rw [here, touch_stamp_self]
      exact Nat.le_refl _
    · rw [touch_stamp_of_ne c here]
      exact Nat.le_succ_of_le (tracks.stamp_le j)
  case stamp_empty =>
    intro j vacant
    by_cases here : j = i
    · rw [here, touch_slot_self] at vacant
      cases vacant
    · rw [touch_slot_of_ne c here] at vacant
      rw [touch_stamp_of_ne c here, tracks.stamp_empty j vacant]
  case stamp_pos =>
    intro j k' found
    by_cases here : j = i
    · rw [here, touch_stamp_self]
      exact Nat.succ_pos _
    · rw [touch_slot_of_ne c here] at found
      rw [touch_stamp_of_ne c here]
      exact tracks.stamp_pos j k' found
  case stamp_inj => exact fun j l positive same => tracks.stamp_inj_touch positive same
  case key_inj => exact fun j l k' foundJ foundL => tracks.key_inj_touch alone foundJ foundL
  case key_mem =>
    intro j k' found
    by_cases here : j = i
    · rw [here, touch_slot_self] at found
      cases found
      exact List.mem_cons_self
    · rw [touch_slot_of_ne c here] at found
      exact List.mem_cons_of_mem _ (tracks.key_mem j k' found)
  case since_iff =>
    intro j k' found k''
    by_cases here : j = i
    · rw [here, touch_slot_self] at found
      cases found
      rw [here, since_self]
      refine iff_of_false (Finset.notMem_empty _) ?_
      intro ⟨l, _, later⟩
      by_cases hereL : l = i
      · rw [hereL] at later
        exact Nat.lt_irrefl _ later
      · exact Nat.lt_asymm later (tracks.stamp_touch_lt hereL k)
    · rw [touch_slot_of_ne c here] at found
      have other : k ≠ k' := by
        intro same
        exact here (alone j (same ▸ found))
      rw [since_cons_of_ne other, Finset.mem_insert, tracks.since_iff j k' found,
        tracks.newer_touch here (behind j)]
  case evicted =>
    intro k' member gone
    have other : k' ≠ k := by
      intro same
      exact gone i (same ▸ touch_slot_self c i k)
    rw [since_cons_of_ne other.symm]
    by_cases left : c.slot i = some k'
    · exact lost k' other left
    · have before := tracks.evicted k' ((List.mem_cons.mp member).resolve_left other) (by
        intro j found
        by_cases here : j = i
        · exact left (here ▸ found)
        · exact gone j (by rw [touch_slot_of_ne c here, found]))
      exact before.trans (Finset.card_le_card (Finset.subset_insert _ _))

/-- When the oldest slot holds a key, all others hold newer ones. -/
theorem Tracks.card_since_oldest (tracks : Tracks past c) {i : Fin n} {k' : κ}
    (found : c.slot i = some k') (oldest : ∀ j, c.stamp i ≤ c.stamp j) :
    n - 1 ≤ (since k' past).card := by
  have positive := tracks.stamp_pos i k' found
  have newer : ∀ j, j ≠ i → ∃ k'', c.slot j = some k'' ∧ c.stamp i < c.stamp j := by
    intro j other
    have occupied : c.slot j ≠ none := by
      intro vacant
      have zero := tracks.stamp_empty j vacant
      have bound := oldest j
      omega
    obtain ⟨k'', foundJ⟩ := Option.ne_none_iff_exists'.mp occupied
    refine ⟨k'', foundJ, lt_of_le_of_ne (oldest j) ?_⟩
    intro same
    exact other (tracks.stamp_inj i j positive same).symm
  have count : (Finset.univ.erase i).card = n - 1 := by
    rw [Finset.card_erase_of_mem (Finset.mem_univ i), Finset.card_univ, Fintype.card_fin]
  rw [← count]
  refine Finset.card_le_card_of_injOn (fun j => (c.slot j).getD k') ?_ ?_
  · intro j member
    obtain ⟨k'', foundJ, later⟩ := newer j (Finset.ne_of_mem_erase member)
    simp only [foundJ, Option.getD_some]
    exact (tracks.since_iff i k' found k'').mpr ⟨j, foundJ, later⟩
  · intro j memberJ l memberL same
    obtain ⟨kJ, foundJ, -⟩ := newer j (Finset.ne_of_mem_erase memberJ)
    obtain ⟨kL, foundL, -⟩ := newer l (Finset.ne_of_mem_erase memberL)
    simp only [foundJ, foundL, Option.getD_some] at same
    exact tracks.key_inj j l kJ foundJ (same ▸ foundL)

/-- Every access keeps the meaning of slots and stamps. -/
theorem Access.tracks {b : Bool} {c' : LruCache κ n} (tracks : Tracks past c)
    (access : Access k c b c') : Tracks (k :: past) c' := by
  cases access with
  | again i found latest =>
    constructor
    case key_mem => exact fun j k' here => List.mem_cons_of_mem _ (tracks.key_mem j k' here)
    case since_iff =>
      intro j k' foundJ k''
      by_cases same : k' = k
      · subst same
        rw [tracks.key_inj j i k' foundJ found, since_self, latest]
        refine iff_of_false (Finset.notMem_empty _) ?_
        intro newer
        rcases newer with ⟨l, -, later⟩
        exact absurd (tracks.stamp_le l) (Nat.not_le.mpr later)
      · rw [since_cons_of_ne (Ne.symm same), Finset.insert_eq_of_mem,
          tracks.since_iff j k' foundJ]
        refine (tracks.since_iff j k' foundJ k).mpr ⟨i, found, ?_⟩
        rw [latest]
        refine lt_of_le_of_ne (tracks.stamp_le j) fun level => same ?_
        rw [← latest] at level
        have place := tracks.stamp_inj j i (tracks.stamp_pos j k' foundJ) level
        rw [place, found] at foundJ
        exact (Option.some.inj foundJ).symm
    case evicted =>
      intro k' member gone
      have other : k' ≠ k := by
        rintro rfl
        exact gone i found
      rw [since_cons_of_ne other.symm]
      exact (tracks.evicted k' ((List.mem_cons.mp member).resolve_left other) gone).trans
        (Finset.card_le_card (Finset.subset_insert _ _))
    case stamp_le => exact tracks.stamp_le
    case stamp_empty => exact tracks.stamp_empty
    case stamp_pos => exact tracks.stamp_pos
    case stamp_inj => exact tracks.stamp_inj
    case key_inj => exact tracks.key_inj
  | hit i found =>
    refine tracks.touch (fun j foundJ => tracks.key_inj j i k foundJ found) ?_ ?_
    · intro j k' here _
      exact Option.some.inj (here.symm.trans found)
    · intro k' other here
      exact absurd (Option.some.inj (here.symm.trans found)) other
  | miss i absent oldest =>
    refine tracks.touch (fun j foundJ => absurd foundJ (absent j)) ?_ ?_
    · intro j k' _ later
      exact absurd (oldest j) (Nat.not_le.mpr later)
    · intro k' other found
      have fresh : k ∉ since k' past := by
        intro member
        obtain ⟨j, foundJ, -⟩ := (tracks.since_iff i k' found k).mp member
        exact absent j foundJ
      have full := tracks.card_since_oldest found oldest
      rw [Finset.card_insert_of_notMem fresh]
      omega

/-- A key is found exactly when it has been accessed and fewer than `n` other
keys have been accessed since. -/
theorem Access.hit_iff {b : Bool} {c' : LruCache κ n} (tracks : Tracks past c)
    (access : Access k c b c') : b = true ↔ k ∈ past ∧ (since k past).card < n := by
  have present : ∀ i, c.slot i = some k → k ∈ past ∧ (since k past).card < n := by
    intro i found
    refine ⟨tracks.key_mem i k found, ?_⟩
    have inSlots : (since k past).image some ⊆ (Finset.univ.erase i).image c.slot := by
      intro o member
      obtain ⟨k', memberK, rfl⟩ := Finset.mem_image.mp member
      obtain ⟨j, foundJ, later⟩ := (tracks.since_iff i k found k').mp memberK
      refine Finset.mem_image.mpr ⟨j, Finset.mem_erase.mpr ⟨?_, Finset.mem_univ j⟩, foundJ⟩
      rintro rfl
      exact absurd later (Nat.lt_irrefl _)
    have bound := (Finset.card_le_card inSlots).trans Finset.card_image_le
    rw [Finset.card_image_of_injective _ (Option.some_injective κ),
      Finset.card_erase_of_mem (Finset.mem_univ i), Finset.card_univ, Fintype.card_fin] at bound
    have slots := i.pos
    omega
  cases access with
  | again i found latest => exact iff_of_true rfl (present i found)
  | hit i found => exact iff_of_true rfl (present i found)
  | miss i absent oldest =>
    refine iff_of_false Bool.false_ne_true ?_
    intro used
    rcases used with ⟨member, recent⟩
    exact absurd (tracks.evicted k member absent) (Nat.not_le.mpr recent)

end History

end LruCache

end Kit
