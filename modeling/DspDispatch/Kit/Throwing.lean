import Mathlib.Tactic.Common
import Mathlib.Algebra.Order.Ring.Int

/-!
# Computations that allocate and may throw

A computation makes its allocations at named sites. Which of them fail is not
known to it: it runs under a choice `fails` of the failing sites. It may return,
throw, or have no defined behaviour, and it leaves a ledger of the objects it has
constructed and not destroyed.

A vector of no elements makes no allocation, and one larger than any object can
be is never made.

The `_bind` lemmas run a computation step by step. `Clean` says what is expected
of a factory that may fail.
-/

namespace Kit

/-- How a computation ends. -/
inductive Ending (α : Type)
  | returned (a : α)
  | threw
  | undefined

def Ending.map {α β : Type} (f : α → β) : Ending α → Ending β
  | .returned a => .returned (f a)
  | .threw => .threw
  | .undefined => .undefined

/-- The objects a computation has constructed and not destroyed, by address, and
whether an allocation or a library call has failed on the way. -/
structure Ledger where
  next : Nat := 0
  alive : List Nat := []
  failed : Bool := false

/-- A computation with allocations at the sites `ι`. -/
def Throwing (ι α : Type) : Type := (ι → Bool) → Ledger → Ending α × Ledger

namespace Throwing

variable {ι α β : Type}

/-- The run of a computation from an empty ledger. -/
def run (p : Throwing ι α) (fails : ι → Bool) : Ending α × Ledger := p fails {}

instance : Monad (Throwing ι) where
  pure a := fun _ l => (.returned a, l)
  bind p k := fun fails l =>
    match p fails l with
    | (.returned a, l) => k a fails l
    | (.threw, l) => (.threw, l)
    | (.undefined, l) => (.undefined, l)

/-- Behaviour the language does not define. -/
def undefinedBehaviour : Throwing ι α := fun _ l => (.undefined, l)

/-- `operator new`. -/
def allocateObject (site : ι) : Throwing ι Unit := fun fails l =>
  if fails site then (.threw, { l with failed := true }) else (.returned (), l)

/-- The largest size of an object in bytes, `PTRDIFF_MAX`. -/
def maxBytes : Nat := 2 ^ 63 - 1

/-- A vector of `count` elements can be made. -/
def Made (fails : ι → Bool) (site : ι) (sizeof count : Nat) : Prop :=
  count = 0 ∨ fails site = false ∧ count * sizeof ≤ maxBytes

instance (fails : ι → Bool) (site : ι) (sizeof count : Nat) :
    Decidable (Made fails site sizeof count) :=
  inferInstanceAs (Decidable (_ ∨ _))

/-- The storage of a vector of `count` elements. -/
def allocate (site : ι) (sizeof count : Nat) : Throwing ι Unit := fun fails l =>
  if Made fails site sizeof count then (.returned (), l) else (.threw, { l with failed := true })

/-- The end of a constructor: a new object is alive, at this address. -/
def construct : Throwing ι Nat := fun _ l =>
  (.returned l.next, { l with next := l.next + 1, alive := l.next :: l.alive })

/-- `delete` of a live object. -/
def destroy (address : Nat) : Throwing ι Unit := fun _ l =>
  if address ∈ l.alive then (.returned (), { l with alive := l.alive.erase address })
  else (.undefined, l)

/-- Record whether a library call succeeded. -/
def answered (ok : Bool) : Throwing ι Unit := fun _ l =>
  (.returned (), { l with failed := l.failed || !ok })

/-- `try body catch (...) handler`. -/
def catching (body handler : Throwing ι α) : Throwing ι α := fun fails l =>
  match body fails l with
  | (.threw, l) => handler fails l
  | (.returned a, l) => (.returned a, l)
  | (.undefined, l) => (.undefined, l)

/-! ## Runs step by step -/

section Steps

variable {fails : ι → Bool} {l : Ledger} {site : ι}

@[simp] theorem pure_apply (a : α) : (pure a : Throwing ι α) fails l = (.returned a, l) := rfl

theorem bind_of_returned {p : Throwing ι α} {k : α → Throwing ι β} {a : α} {l' : Ledger}
    (ran : p fails l = (.returned a, l')) : (p >>= k) fails l = k a fails l' := by
  simp only [bind, ran]

theorem bind_of_threw {p : Throwing ι α} {k : α → Throwing ι β} {l' : Ledger}
    (ran : p fails l = (.threw, l')) : (p >>= k) fails l = (.threw, l') := by
  simp only [bind, ran]

theorem bind_of_undefined {p : Throwing ι α} {k : α → Throwing ι β} {l' : Ledger}
    (ran : p fails l = (.undefined, l')) : (p >>= k) fails l = (.undefined, l') := by
  simp only [bind, ran]

theorem allocateObject_bind (k : Unit → Throwing ι β) :
    (allocateObject site >>= k) fails l =
      if fails site then (.threw, { l with failed := true }) else k () fails l := by
  cases failing : fails site with
  | false => simp [bind, allocateObject, failing]
  | true => simp [bind, allocateObject, failing]

theorem allocate_bind {sizeof count : Nat} (k : Unit → Throwing ι β) :
    (allocate site sizeof count >>= k) fails l =
      if Made fails site sizeof count then k () fails l
      else (.threw, { l with failed := true }) := by
  by_cases made : Made fails site sizeof count
  · simp [bind, allocate, made]
  · simp [bind, allocate, made]

theorem construct_bind (k : Nat → Throwing ι β) :
    (construct >>= k) fails l =
      k l.next fails { l with next := l.next + 1, alive := l.next :: l.alive } :=
  bind_of_returned rfl

theorem destroy_bind {address : Nat} (alive : address ∈ l.alive) (k : Unit → Throwing ι β) :
    (destroy address >>= k) fails l = k () fails { l with alive := l.alive.erase address } := by
  simp [bind, destroy, alive]

theorem answered_bind {ok : Bool} (k : Unit → Throwing ι β) :
    (answered ok >>= k) fails l = k () fails { l with failed := l.failed || !ok } :=
  bind_of_returned rfl

end Steps

/-! ## Exceptions -/

/-- The computation ends with an exception. -/
def Throws (p : Throwing ι α) (fails : ι → Bool) (l : Ledger) : Prop :=
  ∃ l', p fails l = (.threw, l')

section Throws

variable {fails : ι → Bool} {l : Ledger} {site : ι}

/-- An allocation that succeeds is no reason for an exception. -/
theorem throws_allocateObject {k : Unit → Throwing ι β}
    (later : fails site = false → (k ()).Throws fails l) :
    (allocateObject site >>= k).Throws fails l := by
  unfold Throws
  rw [allocateObject_bind]
  cases failing : fails site with
  | true => exact ⟨_, if_pos rfl⟩
  | false =>
    rw [if_neg Bool.false_ne_true]
    exact later failing

theorem throws_allocate {sizeof count : Nat} {k : Unit → Throwing ι β}
    (later : Made fails site sizeof count → (k ()).Throws fails l) :
    (allocate site sizeof count >>= k).Throws fails l := by
  unfold Throws
  rw [allocate_bind]
  by_cases made : Made fails site sizeof count
  · rw [if_pos made]
    exact later made
  · exact ⟨_, if_neg made⟩

theorem throws_construct {k : Nat → Throwing ι β}
    (later : (k l.next).Throws fails { l with next := l.next + 1, alive := l.next :: l.alive }) :
    (construct >>= k).Throws fails l := by
  unfold Throws
  rw [construct_bind]
  exact later

end Throws

/-! ## Factories -/

/-- An object on the heap: its address and what it holds. -/
structure Owned (σ : Type) where
  address : Nat
  contents : σ

/-- What is expected of a factory. It does not throw. An error leaves no object
alive, and is given to a request it does not admit or when something failed.
Otherwise the returned object is the only one alive. -/
def Clean {ε σ : Type} (admitted : Prop) : Ending (Except ε (Owned σ)) × Ledger → Prop
  | (.returned (.error _), l) => l.alive = [] ∧ (l.failed = true ∨ ¬ admitted)
  | (.returned (.ok object), l) => l.alive = [object.address] ∧ l.failed = false
  | (.threw, _) => False
  | (.undefined, _) => False

/-- A clean factory that admits the request, where nothing failed, has returned
the only live object. -/
theorem Clean.returns {ε σ : Type} {admitted : Prop} {ended : Ending (Except ε (Owned σ)) × Ledger}
    (clean : Clean admitted ended) (admits : admitted) (working : ended.2.failed = false) :
    ∃ object, ended.1 = .returned (.ok object) ∧ ended.2.alive = [object.address] := by
  rcases ended with ⟨⟨answer⟩ | _ | _, l⟩
  · cases answer with
    | error st =>
      obtain ⟨-, failed | rejected⟩ := clean
      · exact absurd (failed.symm.trans working) (by decide)
      · exact absurd admits rejected
    | ok object => exact ⟨object, rfl, clean.1⟩
  · exact clean.elim
  · exact clean.elim

end Throwing

end Kit
