import DspDispatch.Fft.Plan
import DspDispatch.Kit.LruCache
import DspDispatch.Pocketfft.Choice

/-!
# The plan cache of pocketfft (`get_plan` in `third_party/pocketfft`)

Every instantiation of `get_plan` owns a static array of `POCKETFFT_CACHE_SIZE`
plans with an access time each. A plan object is modelled by its length, which its
constructor has not refused; a refused length leaves the cache as it was. Below
`2^64` accesses this is a timestamped least-recently-used cache
(`getPlan_access`).
-/

namespace DspDispatch.Fft.Pocketfft

open Kit

/-- `POCKETFFT_CACHE_SIZE`. -/
def cacheSize : Nat := 16

/-- The plan classes `get_plan` is instantiated with: `pocketfft_c` and
`pocketfft_r`, in either precision. -/
structure PlanKind where
  real : Bool
  precision : FftPrecision
deriving DecidableEq

/-- What the constructor of the class makes for a length; `none` is an exception. -/
def PlanKind.choice (kind : PlanKind) (length : Nat) : Option Bool :=
  if kind.real then DspDispatch.Pocketfft.PocketfftR.choice length
  else DspDispatch.Pocketfft.PocketfftC.choice length

/-- A plan object; its constructor has not thrown. -/
structure PlanObject (kind : PlanKind) where
  length : Nat
  chosen : (kind.choice length).isSome = true

/-- `std::make_shared<T>(length)`. -/
def makePlan (kind : PlanKind) (length : Nat) : Option (PlanObject kind) :=
  if chosen : (kind.choice length).isSome = true then some ⟨length, chosen⟩ else none

/-- The static variables of one instantiation of `get_plan`. -/
structure PlanCache (kind : PlanKind) where
  cache : Fin cacheSize → Option (PlanObject kind) := fun _ => none
  lastAccess : Fin cacheSize → Nat := fun _ => 0
  accessCounter : Nat := 0

/-- The static variables of all instantiations. -/
abbrev PlanCaches := (kind : PlanKind) → PlanCache kind

/-- A call of `get_plan`, and whether it constructed a plan. -/
structure PlanRequest where
  kind : PlanKind
  length : Nat
  constructed : Bool

variable {kind : PlanKind}

/-- `++access_counter` on a `size_t`. -/
def PlanCache.tick (c : PlanCache kind) : Nat := (c.accessCounter + 1) % 2 ^ 64

/-- The length of the plan in a slot. -/
def PlanCache.lengthAt (c : PlanCache kind) (i : Fin cacheSize) : Option Nat :=
  (c.cache i).map (·.length)

/-- `find_in_cache`, with the cache it leaves. -/
def PlanCache.find (c : PlanCache kind) (length : Nat) :
    Option (PlanObject kind) × PlanCache kind :=
  match (List.finRange cacheSize).find? fun i => c.lengthAt i == some length with
  | none => (none, c)
  | some i =>
    if c.lastAccess i ≠ c.accessCounter then
      let lastAccess := Function.update c.lastAccess i c.tick
      (c.cache i,
        { c with
          lastAccess := if c.tick = 0 then fun _ => 0 else lastAccess
          accessCounter := c.tick })
    else (c.cache i, c)

/-- The loop that looks for the least recently used slot. -/
def PlanCache.lru (c : PlanCache kind) : Fin cacheSize :=
  (List.finRange cacheSize).tail.foldl
    (fun lru i => if c.lastAccess i < c.lastAccess lru then i else lru) ⟨0, by decide⟩

/-- Slot `lru` gets the plan. -/
def PlanCache.insert (c : PlanCache kind) (plan : PlanObject kind) : PlanCache kind where
  cache := Function.update c.cache c.lru (some plan)
  lastAccess := Function.update c.lastAccess c.lru c.tick
  accessCounter := c.tick

/-- What `get_plan` returns, whether it constructed a plan, and the cache it
leaves. -/
structure Lookup (kind : PlanKind) where
  plan : PlanObject kind
  constructed : Bool
  cache : PlanCache kind

/-- `get_plan`; `none` is the exception of the constructor. -/
def getPlan (c : PlanCache kind) (length : Nat) : Option (Lookup kind) :=
  match c.find length with
  | (some p, c) => some ⟨p, false, c⟩
  | (none, c) =>
    (makePlan kind length).map fun plan =>
      match c.find length with
      | (some p, c) => ⟨p, true, c⟩
      | (none, c) => ⟨plan, true, c.insert plan⟩

/-! ## The cache as a least-recently-used cache -/

/-- The same slots and times in the terms of the library. -/
def PlanCache.toLru (c : PlanCache kind) : LruCache Nat cacheSize :=
  ⟨c.lengthAt, c.lastAccess, c.accessCounter⟩

theorem find_none {c : PlanCache kind} {length : Nat}
    (absent : ∀ i, c.lengthAt i ≠ some length) : c.find length = (none, c) := by
  have missing : (List.finRange cacheSize).find? (fun i => c.lengthAt i == some length) = none := by
    simp [absent]
  rw [PlanCache.find, missing]

/-- A cached length is found, in a slot that holds a plan of it. -/
theorem find_some {c : PlanCache kind} {length : Nat} {i : Fin cacheSize}
    (present : c.lengthAt i = some length) :
    ∃ j plan, (List.finRange cacheSize).find? (fun i => c.lengthAt i == some length) = some j ∧
      c.cache j = some plan ∧ plan.length = length := by
  cases search : (List.finRange cacheSize).find? fun i => c.lengthAt i == some length with
  | none =>
    have nowhere := List.find?_eq_none.mp search i (List.mem_finRange i)
    simp [present] at nowhere
  | some j =>
    have here : c.lengthAt j = some length := by simpa using List.find?_some search
    obtain ⟨plan, held, same⟩ := Option.map_eq_some_iff.mp here
    exact ⟨j, plan, rfl, held, same⟩

/-- The loop ends at a slot of the smallest access time. -/
theorem lru_oldest (c : PlanCache kind) (j : Fin cacheSize) :
    c.lastAccess c.lru ≤ c.lastAccess j := by
  have scan : ∀ (slots : List (Fin cacheSize)) (start : Fin cacheSize),
      let found := slots.foldl
        (fun lru i => if c.lastAccess i < c.lastAccess lru then i else lru) start
      c.lastAccess found ≤ c.lastAccess start ∧ ∀ i ∈ slots, c.lastAccess found ≤ c.lastAccess i := by
    intro slots
    induction slots with
    | nil => exact fun start => ⟨Nat.le_refl _, by simp⟩
    | cons i rest ih =>
      intro start
      simp only [List.foldl_cons]
      by_cases older : c.lastAccess i < c.lastAccess start
      · rw [if_pos older]
        obtain ⟨first, others⟩ := ih i
        refine ⟨first.trans (Nat.le_of_lt older), ?_⟩
        intro l member
        rcases List.mem_cons.mp member with rfl | later
        · exact first
        · exact others l later
      · rw [if_neg older]
        obtain ⟨first, others⟩ := ih start
        refine ⟨first, ?_⟩
        intro l member
        rcases List.mem_cons.mp member with rfl | later
        · exact first.trans (Nat.not_lt.mp older)
        · exact others l later
  obtain ⟨first, others⟩ := scan (List.finRange cacheSize).tail ⟨0, by decide⟩
  have member := List.mem_finRange j
  have slots : List.finRange cacheSize =
      ⟨0, by decide⟩ :: (List.finRange cacheSize).tail := rfl
  rw [slots] at member
  rcases List.mem_cons.mp member with rfl | later
  · exact first
  · exact others j later

/-- A refused length is in no slot, and its constructor throws. -/
theorem getPlan_eq_none (c : PlanCache kind) {length : Nat}
    (refused : kind.choice length = none) : getPlan c length = none := by
  have absent : ∀ i, c.lengthAt i ≠ some length := by
    intro i present
    obtain ⟨plan, -, rfl⟩ := Option.map_eq_some_iff.mp present
    exact absurd plan.chosen (by rw [refused]; decide)
  have thrown : makePlan kind length = none := dif_neg (by rw [refused]; decide)
  simp only [getPlan, find_none absent, thrown, Option.map_none]

/-- Any other length gets a plan. -/
theorem exists_getPlan (c : PlanCache kind) {length : Nat}
    (chosen : (kind.choice length).isSome = true) : ∃ lookup, getPlan c length = some lookup := by
  have made : makePlan kind length = some ⟨length, chosen⟩ := dif_pos chosen
  unfold getPlan
  split
  · exact ⟨_, rfl⟩
  · rw [made]
    exact ⟨_, rfl⟩

/-- What a lookup of a cached length finds: the plan in its slot, stamped if it is not the
latest. -/
theorem getPlan_cached {c : PlanCache kind} {length : Nat} {j : Fin cacheSize}
    {plan : PlanObject kind} (held : c.cache j = some plan)
    (search : (List.finRange cacheSize).find? (fun i => c.lengthAt i == some length) = some j) :
    getPlan c length = some
      (if c.lastAccess j ≠ c.accessCounter then
        ⟨plan, false,
          { c with
            lastAccess := if c.tick = 0 then fun _ => 0 else Function.update c.lastAccess j c.tick
            accessCounter := c.tick }⟩
      else ⟨plan, false, c⟩) := by
  unfold getPlan PlanCache.find
  by_cases stale : c.lastAccess j ≠ c.accessCounter
  · simp only [search, if_pos stale, held]
  · simp only [search, if_neg stale, held]

/-- A lookup of any other length inserts the plan it constructs. -/
theorem getPlan_absent {c : PlanCache kind} {length : Nat} {lookup : Lookup kind}
    (absent : ∀ i, c.lengthAt i ≠ some length) (found : getPlan c length = some lookup) :
    ∃ plan : PlanObject kind, plan.length = length ∧ lookup = ⟨plan, true, c.insert plan⟩ := by
  simp only [getPlan, find_none absent, Option.map_eq_some_iff] at found
  obtain ⟨plan, made, rfl⟩ := found
  rw [makePlan, Option.dite_none_right_eq_some] at made
  obtain ⟨chosen, same⟩ := made
  cases same
  exact ⟨_, rfl, rfl⟩

/-- `get_plan` returns a plan of the requested length. -/
theorem getPlan_length {c : PlanCache kind} {length : Nat} {lookup : Lookup kind}
    (found : getPlan c length = some lookup) : lookup.plan.length = length := by
  by_cases cached : ∃ i, c.lengthAt i = some length
  · obtain ⟨i, present⟩ := cached
    obtain ⟨j, plan, search, held, same⟩ := find_some present
    rw [getPlan_cached held search] at found
    split at found
    · cases found
      exact same
    · cases found
      exact same
  · obtain ⟨plan, same, rfl⟩ := getPlan_absent (fun i here => cached ⟨i, here⟩) found
    exact same

/-- Below `2^64` accesses a lookup is one access of a least-recently-used cache,
and constructs a plan exactly when the length was not found. -/
theorem getPlan_access {c : PlanCache kind} {length : Nat} {lookup : Lookup kind}
    (found : getPlan c length = some lookup) (running : c.accessCounter + 1 < 2 ^ 64) :
    LruCache.Access length c.toLru (!lookup.constructed) lookup.cache.toLru := by
  have tick : c.tick = c.accessCounter + 1 := Nat.mod_eq_of_lt running
  by_cases cached : ∃ i, c.lengthAt i = some length
  · obtain ⟨i, present⟩ := cached
    obtain ⟨j, plan, search, held, sameLength⟩ := find_some present
    have here : c.lengthAt j = some length := by rw [PlanCache.lengthAt, held, ← sameLength]; rfl
    rw [getPlan_cached held search] at found
    split at found
    · cases found
      have same : LruCache.touch c.toLru j length = PlanCache.toLru { c with
          lastAccess := if c.tick = 0 then fun _ => 0 else Function.update c.lastAccess j c.tick
          accessCounter := c.tick } := by
        have slots : Function.update c.lengthAt j (some length) = c.lengthAt := by
          rw [← here, Function.update_eq_self]
        simp only [LruCache.touch, PlanCache.toLru, tick, slots]
        rfl
      rw [← same]
      exact .hit j here
    · rename_i stale
      cases found
      exact .again j here (not_not.mp stale)
  · have absent : ∀ i, c.lengthAt i ≠ some length := fun i here => cached ⟨i, here⟩
    obtain ⟨plan, rfl, rfl⟩ := getPlan_absent absent found
    have slots : (c.insert plan).lengthAt = Function.update c.lengthAt c.lru (some plan.length) := by
      funext i
      simp only [PlanCache.lengthAt, PlanCache.insert, Function.update_apply]
      split
      · rfl
      · rfl
    have same : LruCache.touch c.toLru c.lru plan.length = (c.insert plan).toLru := by
      simp only [LruCache.touch, PlanCache.toLru, slots]
      simp only [PlanCache.insert, tick]
    rw [← same]
    exact .miss c.lru absent (lru_oldest c)

/-- An access advances the counter by at most one. -/
theorem getPlan_accessCounter {c : PlanCache kind} {length : Nat} {lookup : Lookup kind}
    (found : getPlan c length = some lookup) (running : c.accessCounter + 1 < 2 ^ 64) :
    lookup.cache.accessCounter ≤ c.accessCounter + 1 := by
  have access := getPlan_access found running
  generalize (!lookup.constructed) = hit at access
  generalize clock : lookup.cache.toLru = c' at access
  have counter : lookup.cache.accessCounter = c'.clock := congrArg LruCache.clock clock
  rw [counter]
  cases access with
  | again i _ _ => exact Nat.le_succ _
  | hit i _ => exact Nat.le_refl _
  | miss i _ _ => exact Nat.le_refl _

end DspDispatch.Fft.Pocketfft
