import Mathlib.Data.List.Induction
import Mathlib.Logic.Equiv.Basic

/-!
# Type-erased states and their owners

An owner holds a state behind an untyped pointer in a `unique_ptr`, and beside it
the functions that were handed out with the state. Owners are built by factories,
moved, called and destroyed by a program over any number of variables, and the
program logs every function it invokes on a state pointer.

* `Interface` says what the factories of each class of owners hand out, and which
  functions may be given which states.
* `Program.step` is one operation, member by member as the defaulted moves of the
  owner do it.
* `run_sound` and `run_destroyed_once` hold of every run: each function is invoked
  on a state it serves, before that state is destroyed, and a run that leaves no
  owner has destroyed every state once.

A state is named by the number of states made before it, so an address that is
used again names another state.
-/

namespace Kit

/-- Classes `κ` of owners. `Made` describes a state and what was handed out with
it, `Members` are the members of an owner beside its `unique_ptr`, and `Serves f
made` that `f` casts its pointer to the type of such states. -/
structure Interface (κ : Type) where
  Made : κ → Type
  Members : κ → Type
  Call : κ → Type
  Function : κ → Type
  members : (k : κ) → Made k → Members k
  deleter : (k : κ) → Made k → Function k
  invoked : (k : κ) → Members k → Call k → Option (Function k)
  Serves : (k : κ) → Function k → Made k → Prop
  invoked_serves : ∀ k made call f, invoked k (members k made) call = some f → Serves k f made
  deleter_serves : ∀ k made, Serves k (deleter k made) made

/-- `std::unique_ptr<void, F>`. -/
structure UniquePtr (F : Type) where
  ptr : Option Nat
  deleter : F

namespace Ownership

variable {κ : Type} {I : Interface κ}

structure Owner (I : Interface κ) (k : κ) where
  state : UniquePtr (I.Function k)
  members : I.Members k

/-- What a program logs: a state is made, a function is invoked through an owner,
and a deleter is invoked on a state. -/
inductive Event (I : Interface κ)
  | created (k : κ) (a : Nat) (made : I.Made k)
  | called (k : κ) (f : I.Function k) (ptr : Option Nat)
  | destroyed (k : κ) (f : I.Function k) (a : Nat)

/-! ## Sound logs -/

/-- The event is the destruction of the state `a`. -/
def Event.destroys (a : Nat) : Event I → Bool
  | .created _ _ _ => false
  | .called _ _ _ => false
  | .destroyed _ _ b => b == a

def Destroyed (t : List (Event I)) (a : Nat) : Prop := ∃ k f, Event.destroyed k f a ∈ t

/-- How often the log destroys a state. -/
def destructions (t : List (Event I)) (a : Nat) : Nat := t.countP (Event.destroys a)

/-- What must hold of an event after the log `t`. -/
def Event.Sound (t : List (Event I)) : Event I → Prop
  | .created _ a _ => ∀ k made, Event.created k a made ∉ t
  | .called k f ptr =>
    ∃ a made, ptr = some a ∧ Event.created k a made ∈ t ∧ I.Serves k f made ∧ ¬ Destroyed t a
  | .destroyed k f a => ∃ made, Event.created k a made ∈ t ∧ I.Serves k f made ∧ ¬ Destroyed t a

/-- Every event of the log is sound after the events before it. -/
def Sound (t : List (Event I)) : Prop := ∀ before e after, t = before ++ e :: after → e.Sound before

theorem sound_nil : Sound ([] : List (Event I)) := by
  intro before e after split
  simp at split

theorem sound_snoc {t : List (Event I)} {e : Event I} (sound : Sound t) (last : e.Sound t) :
    Sound (t ++ [e]) := by
  intro before e' after split
  rcases List.eq_nil_or_concat after with empty | ⟨after', e'', rfl⟩
  · subst empty
    obtain ⟨rfl, same⟩ := List.append_inj' split rfl
    cases same
    exact last
  · have split' : t ++ [e] = (before ++ e' :: after') ++ [e''] := by
      rw [split, List.append_assoc, List.cons_append, List.concat_eq_append]
    obtain ⟨rfl, -⟩ := List.append_inj' split' rfl
    exact sound before e' after' rfl

theorem Sound.of_snoc {t : List (Event I)} {e : Event I} (sound : Sound (t ++ [e])) :
    Sound t ∧ e.Sound t := by
  refine ⟨fun before e' after split => ?_, sound t e [] rfl⟩
  exact sound before e' (after ++ [e]) (by rw [split, List.append_assoc, List.cons_append])

theorem destroyed_snoc {t : List (Event I)} {e : Event I} {a : Nat} :
    Destroyed (t ++ [e]) a ↔ Destroyed t a ∨ ∃ k f, e = .destroyed k f a := by
  constructor
  · intro ⟨k, f, member⟩
    rcases List.mem_append.mp member with earlier | last
    · exact .inl ⟨k, f, earlier⟩
    · exact .inr ⟨k, f, (List.mem_singleton.mp last).symm⟩
  · intro destroyed
    rcases destroyed with ⟨k, f, member⟩ | ⟨k, f, rfl⟩
    · exact ⟨k, f, List.mem_append_left _ member⟩
    · exact ⟨k, f, List.mem_append_right _ (List.mem_singleton_self _)⟩

theorem destructions_pos {t : List (Event I)} {a : Nat} (destroyed : Destroyed t a) :
    0 < destructions t a := by
  obtain ⟨k, f, member⟩ := destroyed
  exact List.countP_pos_iff.mpr ⟨_, member, beq_self_eq_true a⟩

theorem destructions_eq_zero {t : List (Event I)} {a : Nat} (alive : ¬ Destroyed t a) :
    destructions t a = 0 := by
  refine List.countP_eq_zero.mpr ?_
  intro e member destroys
  cases e with
  | created k b made => cases destroys
  | called k f ptr => cases destroys
  | destroyed k f b =>
    obtain rfl : b = a := beq_iff_eq.mp destroys
    exact alive ⟨k, f, member⟩

/-- A sound log destroys no state twice. -/
theorem Sound.destructions_le {t : List (Event I)} (sound : Sound t) (a : Nat) :
    destructions t a ≤ 1 := by
  induction t using List.reverseRecOn with
  | nil => exact Nat.zero_le 1
  | append_singleton t e ih =>
    obtain ⟨earlier, last⟩ := sound.of_snoc
    have most := ih earlier
    rw [destructions, List.countP_append, List.countP_singleton]
    cases destroys : e.destroys a with
    | false => exact most
    | true =>
      cases e with
      | created k b made => cases destroys
      | called k f ptr => cases destroys
      | destroyed k f b =>
        obtain rfl : b = a := beq_iff_eq.mp destroys
        obtain ⟨made, -, -, alive⟩ := last
        rw [← destructions, destructions_eq_zero alive]
        exact Nat.le_refl 1

theorem Sound.created_of_destroyed {t : List (Event I)} (sound : Sound t) {a : Nat}
    (destroyed : Destroyed t a) : ∃ k made, Event.created k a made ∈ t := by
  obtain ⟨k, f, member⟩ := destroyed
  obtain ⟨before, after, rfl⟩ := List.append_of_mem member
  obtain ⟨made, created, -⟩ := sound before _ after rfl
  exact ⟨k, made, List.mem_append_left _ created⟩

/-! ## What variables hold -/

/-- The states that the log made and did not destroy are those that the variables
hold, each in one variable. -/
structure Accounted {X : Type} (holds : X → Option Nat) (t : List (Event I)) : Prop where
  alive : ∀ x a, holds x = some a → ¬ Destroyed t a
  unique : ∀ x y a, holds x = some a → holds y = some a → x = y
  kept : ∀ k a made, Event.created k a made ∈ t → Destroyed t a ∨ ∃ x, holds x = some a

namespace Accounted

variable {X : Type} {holds : X → Option Nat} {t : List (Event I)}

/-- A call makes and destroys nothing. -/
theorem called (acc : Accounted holds t) (k : κ) (f : I.Function k) (ptr : Option Nat) :
    Accounted holds (t ++ [.called k f ptr]) where
  alive := by
    intro x a held destroyed
    rcases destroyed_snoc.mp destroyed with earlier | ⟨k', f', called⟩
    · exact acc.alive x a held earlier
    · cases called
  unique := acc.unique
  kept := by
    intro k' a made created
    rcases List.mem_append.mp created with earlier | last
    · exact (acc.kept k' a made earlier).imp_left fun destroyed =>
        destroyed_snoc.mpr (.inl destroyed)
    · cases List.mem_singleton.mp last

variable [DecidableEq X]

/-- A state that nothing held before is made for a variable that held none. -/
theorem created (acc : Accounted holds t) {x : X} {n : Nat} (free : holds x = none)
    (unheld : ∀ y, holds y ≠ some n) (undestroyed : ¬ Destroyed t n) (k : κ) (made : I.Made k) :
    Accounted (Function.update holds x (some n)) (t ++ [.created k n made]) where
  alive := by
    intro y a held destroyed
    rcases destroyed_snoc.mp destroyed with earlier | ⟨k', f', created⟩
    · rcases eq_or_ne y x with rfl | other
      · rw [Function.update_self] at held
        cases held
        exact undestroyed earlier
      · rw [Function.update_of_ne other] at held
        exact acc.alive y a held earlier
    · cases created
  unique := by
    intro y z a hy hz
    rcases eq_or_ne y x with rfl | other
    · rw [Function.update_self] at hy
      cases hy
      rcases eq_or_ne z y with rfl | other
      · rfl
      · rw [Function.update_of_ne other] at hz
        exact absurd hz (unheld z)
    · rw [Function.update_of_ne other] at hy
      rcases eq_or_ne z x with rfl | other'
      · rw [Function.update_self] at hz
        cases hz
        exact absurd hy (unheld y)
      · rw [Function.update_of_ne other'] at hz
        exact acc.unique y z a hy hz
  kept := by
    intro k' a made' created
    rcases List.mem_append.mp created with earlier | last
    · rcases acc.kept k' a made' earlier with destroyed | ⟨y, held⟩
      · exact .inl (destroyed_snoc.mpr (.inl destroyed))
      · refine .inr ⟨y, ?_⟩
        rwa [Function.update_of_ne]
        rintro rfl
        rw [free] at held
        cases held
    · cases List.mem_singleton.mp last
      exact .inr ⟨x, Function.update_self _ _ _⟩

/-- A state passes from one variable to another one that held none. -/
theorem moved (acc : Accounted holds t) {dst src : X} (other : dst ≠ src)
    (free : holds dst = none) :
    Accounted (Function.update (Function.update holds src none) dst (holds src)) t := by
  have swap : Function.update (Function.update holds src none) dst (holds src) =
      holds ∘ Equiv.swap dst src := by
    funext x
    rcases eq_or_ne x dst with rfl | away
    · rw [Function.update_self, Function.comp_apply, Equiv.swap_apply_left]
    · rw [Function.update_of_ne away]
      rcases eq_or_ne x src with rfl | away'
      · rw [Function.update_self, Function.comp_apply, Equiv.swap_apply_right, free]
      · rw [Function.update_of_ne away', Function.comp_apply, Equiv.swap_apply_of_ne_of_ne away away']
  rw [swap]
  refine ⟨fun x a held => acc.alive _ a held, fun x y a hx hy => ?_, fun k a made created => ?_⟩
  · exact (Equiv.swap dst src).injective (acc.unique _ _ a hx hy)
  · rcases acc.kept k a made created with destroyed | ⟨x, held⟩
    · exact .inl destroyed
    · refine .inr ⟨Equiv.swap dst src x, ?_⟩
      rwa [Function.comp_apply, Equiv.swap_apply_self]

/-- The state a variable holds is destroyed. -/
theorem destroyed (acc : Accounted holds t) {x : X} {a : Nat} (held : holds x = some a) (k : κ)
    (f : I.Function k) :
    Accounted (Function.update holds x none) (t ++ [.destroyed k f a]) where
  alive := by
    intro y b held' destroyed
    rcases eq_or_ne y x with rfl | other
    · rw [Function.update_self] at held'
      cases held'
    · rw [Function.update_of_ne other] at held'
      rcases destroyed_snoc.mp destroyed with earlier | ⟨k', f', last⟩
      · exact acc.alive y b held' earlier
      · cases last
        exact other (acc.unique y x a held' held)
  unique := by
    intro y z b hy hz
    rcases eq_or_ne y x with rfl | other
    · rw [Function.update_self] at hy
      cases hy
    · rcases eq_or_ne z x with rfl | other'
      · rw [Function.update_self] at hz
        cases hz
      · rw [Function.update_of_ne other] at hy
        rw [Function.update_of_ne other'] at hz
        exact acc.unique y z b hy hz
  kept := by
    intro k' b made created
    rcases List.mem_append.mp created with earlier | last
    · rcases acc.kept k' b made earlier with destroyed | ⟨y, held'⟩
      · exact .inl (destroyed_snoc.mpr (.inl destroyed))
      · rcases eq_or_ne y x with rfl | other
        · obtain rfl : a = b := Option.some.inj (held.symm.trans held')
          exact .inl (destroyed_snoc.mpr (.inr ⟨k, f, rfl⟩))
        · exact .inr ⟨y, by rwa [Function.update_of_ne other]⟩
    · cases List.mem_singleton.mp last

end Accounted

/-! ## Programs over owners -/

/-- The owner after its state was moved out: a null pointer beside what it had. -/
def Owner.left {k : κ} (o : Owner I k) : Owner I k := { o with state.ptr := none }

/-- The deleter's call when a `unique_ptr` gives up what it points to. -/
def Owner.deletes {k : κ} (o : Owner I k) : List (Event I) :=
  match o.state.ptr with
  | none => []
  | some a => [.destroyed k o.state.deleter a]

@[simp] theorem Owner.left_deletes {k : κ} (o : Owner I k) : o.left.deletes = [] := rfl

/-- The variables of a program and its log. `moved` marks the owners in the
moved-from state: it only says which owners must not be called. -/
structure Program (I : Interface κ) where
  next : Nat := 0
  owners : (x : κ × Nat) → Option (Owner I x.1) := fun _ => none
  moved : κ × Nat → Bool := fun _ => false
  trace : List (Event I) := []

inductive Op (I : Interface κ)
  | create (k : κ) (v : Nat) (made : Option (I.Made k))
  | moveConstruct (k : κ) (dst src : Nat)
  | moveAssign (k : κ) (dst src : Nat)
  | call (k : κ) (v : Nat) (c : I.Call k)
  | destroy (k : κ) (v : Nat)

variable [DecidableEq κ]

namespace Program

def set (p : Program I) (x : κ × Nat) (o : Option (Owner I x.1)) : Program I :=
  { p with owners := Function.update p.owners x o }

def log (p : Program I) (events : List (Event I)) : Program I :=
  { p with trace := p.trace ++ events }

/-- `dst` is in the state `src` was in, and `src` is moved from. -/
def markMoved (p : Program I) (dst src : κ × Nat) : Program I :=
  { p with moved := Function.update (Function.update p.moved dst (p.moved src)) src true }

/-- A new owner of a new state. It is built as a parameter and moved to where it
stays, and the parameter is destroyed. -/
def build (p : Program I) (k : κ) (v : Nat) (made : I.Made k) : Program I :=
  let param : Owner I k := ⟨⟨some p.next, I.deleter k made⟩, I.members k made⟩
  let p := { p with next := p.next + 1, moved := Function.update p.moved (k, v) false,
                    trace := p.trace ++ [Event.created k p.next made] }
  (p.set (k, v) (some param)).log param.left.deletes

/-- A factory call for a new variable, which fails without an owner. -/
def create (p : Program I) (k : κ) (v : Nat) (made : Option (I.Made k)) : Option (Program I) :=
  match p.owners (k, v), made with
  | none, some made => some (p.build k v made)
  | none, none => some p
  | some _, _ => none

/-- The move constructor: `dst` takes every member and `src` keeps a null pointer. -/
def moveConstruct (p : Program I) (k : κ) (dst src : Nat) : Option (Program I) :=
  match p.owners (k, dst), p.owners (k, src) with
  | none, some source =>
    some (((p.set (k, src) (some source.left)).set (k, dst) (some source)).markMoved
      (k, dst) (k, src))
  | _, _ => none

/-- The move assignment. The pointer of `src` is released, `dst` takes it and
deletes what it had, and the deleter and the other members are copied. Each member
is read as it is by then, since `dst` may be `src`. -/
def moveAssign (p : Program I) (k : κ) (dst src : Nat) : Option (Program I) := do
  let _ ← p.owners (k, dst)
  let source ← p.owners (k, src)
  let p := p.set (k, src) (some source.left)
  let target ← p.owners (k, dst)
  let p := (p.set (k, dst) (some { target with state.ptr := source.state.ptr })).log target.deletes
  let source ← p.owners (k, src)
  let target ← p.owners (k, dst)
  let p := p.set (k, dst) (some ⟨⟨target.state.ptr, source.state.deleter⟩, source.members⟩)
  return if dst = src then p else p.markMoved (k, dst) (k, src)

/-- A call through an owner that is not moved from. -/
def call (p : Program I) (k : κ) (v : Nat) (c : I.Call k) : Option (Program I) :=
  match p.owners (k, v), p.moved (k, v) with
  | some o, false =>
    match I.invoked k o.members c with
    | none => some p
    | some f => some (p.log [.called k f o.state.ptr])
  | _, _ => none

def destroy (p : Program I) (k : κ) (v : Nat) : Option (Program I) :=
  match p.owners (k, v) with
  | some o => some ((p.set (k, v) none).log o.deletes)
  | none => none

/-- One operation; `none` is an operation on a variable that is not there. -/
def step (p : Program I) : Op I → Option (Program I)
  | .create k v made => p.create k v made
  | .moveConstruct k dst src => p.moveConstruct k dst src
  | .moveAssign k dst src => p.moveAssign k dst src
  | .call k v c => p.call k v c
  | .destroy k v => p.destroy k v

def run (ops : List (Op I)) : Option (Program I) := ops.foldlM step {}

/-! ### What the operations do -/

variable {p p' : Program I} {k : κ} {v dst src : Nat}

theorem create_cases {made : Option (I.Made k)} (ran : p.create k v made = some p') :
    p.owners (k, v) = none ∧
      (made = none ∧ p' = p ∨ ∃ made', made = some made' ∧ p' = p.build k v made') := by
  cases free : p.owners (k, v) with
  | some o => simp [create, free] at ran
  | none =>
    cases made with
    | none =>
      simp only [create, free, Option.some.injEq] at ran
      exact ⟨rfl, .inl ⟨rfl, ran.symm⟩⟩
    | some made =>
      simp only [create, free, Option.some.injEq] at ran
      exact ⟨rfl, .inr ⟨made, rfl, ran.symm⟩⟩

theorem moveConstruct_cases (ran : p.moveConstruct k dst src = some p') :
    ∃ o, p.owners (k, dst) = none ∧ p.owners (k, src) = some o ∧
      p' = ((p.set (k, src) (some o.left)).set (k, dst) (some o)).markMoved (k, dst) (k, src) := by
  cases free : p.owners (k, dst) with
  | some o => simp [moveConstruct, free] at ran
  | none =>
    cases source : p.owners (k, src) with
    | none => simp [moveConstruct, free, source] at ran
    | some o =>
      simp only [moveConstruct, free, source, Option.some.injEq] at ran
      exact ⟨o, rfl, rfl, ran.symm⟩

omit [DecidableEq κ] in
theorem call_cases {c : I.Call k} (ran : p.call k v c = some p') :
    ∃ o, p.owners (k, v) = some o ∧ p.moved (k, v) = false ∧
      (p' = p ∨ ∃ f, I.invoked k o.members c = some f ∧ p' = p.log [.called k f o.state.ptr]) := by
  cases found : p.owners (k, v) with
  | none => simp [call, found] at ran
  | some o =>
    cases still : p.moved (k, v) with
    | true => simp [call, found, still] at ran
    | false =>
      refine ⟨o, rfl, rfl, ?_⟩
      cases invoked : I.invoked k o.members c with
      | none =>
        simp only [call, found, still, invoked, Option.some.injEq] at ran
        exact .inl ran.symm
      | some f =>
        simp only [call, found, still, invoked, Option.some.injEq] at ran
        exact .inr ⟨f, rfl, ran.symm⟩

theorem destroy_cases (ran : p.destroy k v = some p') :
    ∃ o, p.owners (k, v) = some o ∧ p' = (p.set (k, v) none).log o.deletes := by
  cases found : p.owners (k, v) with
  | none => simp [destroy, found] at ran
  | some o =>
    simp only [destroy, found, Option.some.injEq] at ran
    exact ⟨o, rfl, ran.symm⟩

/-- Assigning an owner to itself changes nothing. -/
theorem moveAssign_self (ran : p.moveAssign k v v = some p') : p' = p := by
  cases found : p.owners (k, v) with
  | none => simp [moveAssign, found] at ran
  | some o =>
    have same : Function.update p.owners (k, v) (some o) = p.owners := by
      rw [← found, Function.update_eq_self]
    simpa [moveAssign, found, set, log, Owner.left, Owner.deletes, same]
      using ran.symm

/-- Assigning an owner to another one destroys that and builds it anew. -/
theorem moveAssign_ne (other : dst ≠ src) (ran : p.moveAssign k dst src = some p') :
    ∃ q, p.destroy k dst = some q ∧ q.moveConstruct k dst src = some p' := by
  have apart : (k, src) ≠ (k, dst) := fun same => other (Prod.mk.inj same).2.symm
  cases target : p.owners (k, dst) with
  | none => simp [moveAssign, target] at ran
  | some o =>
    cases source : p.owners (k, src) with
    | none => simp [moveAssign, target, source] at ran
    | some o' =>
      refine ⟨(p.set (k, dst) none).log o.deletes, by simp only [destroy, target], ?_⟩
      rw [← ran]
      simp [moveAssign, moveConstruct, target, source, set, log, markMoved, other, apart,
        apart.symm, Owner.left, Owner.deletes]
      rw [Function.update_comm apart.symm, Function.update_idem]

/-! ### The invariant -/

/-- The state a variable holds. -/
def holds (p : Program I) (x : κ × Nat) : Option Nat := (p.owners x).bind fun o => o.state.ptr

omit [DecidableEq κ] in
theorem holds_of_owner {x : κ × Nat} {o : Owner I x.1} (found : p.owners x = some o) :
    p.holds x = o.state.ptr := by
  rw [holds, found, Option.bind_some]

omit [DecidableEq κ] in
theorem holds_of_absent {x : κ × Nat} (absent : p.owners x = none) : p.holds x = none := by
  rw [holds, absent, Option.bind_none]

theorem holds_set (p : Program I) (x : κ × Nat) (o : Option (Owner I x.1)) :
    (p.set x o).holds = Function.update p.holds x (o.bind fun o => o.state.ptr) := by
  funext y
  rcases eq_or_ne y x with rfl | other
  · simp [holds, set]
  · simp [holds, set, other]

end Program

/-- What the owner points to was made with its deleter and its other members. -/
def Owner.Backed (t : List (Event I)) {k : κ} (o : Owner I k) : Prop :=
  ∀ a, o.state.ptr = some a → ∃ made, Event.created k a made ∈ t ∧
    o.state.deleter = I.deleter k made ∧ o.members = I.members k made

omit [DecidableEq κ] in
theorem Owner.Backed.append {t : List (Event I)} {k : κ} {o : Owner I k} (backed : o.Backed t)
    (events : List (Event I)) : o.Backed (t ++ events) := by
  intro a points
  obtain ⟨made, created, deleter, members⟩ := backed a points
  exact ⟨made, List.mem_append_left _ created, deleter, members⟩

omit [DecidableEq κ] in
theorem Owner.backed_left (t : List (Event I)) {k : κ} (o : Owner I k) : o.left.Backed t := by
  intro a points
  cases points

namespace Program

variable {p p' : Program I} {k : κ} {v dst src : Nat}

structure Inv (p : Program I) : Prop where
  sound : Sound p.trace
  fresh : ∀ k a made, Event.created k a made ∈ p.trace → a < p.next
  accounted : Accounted p.holds p.trace
  backed : ∀ x o, p.owners x = some o → o.Backed p.trace
  filled : ∀ x o, p.owners x = some o → p.moved x = false → ∃ a, o.state.ptr = some a

omit [DecidableEq κ] in
theorem inv_empty : Inv ({} : Program I) := by
  refine ⟨sound_nil, ?_, ⟨?_, ?_, ?_⟩, ?_, ?_⟩
  · intro k a made created
    cases created
  · intro x a held
    cases held
  · intro x y a held
    cases held
  · intro k a made created
    cases created
  · intro x o found
    cases found
  · intro x o found
    cases found

omit [DecidableEq κ] in
theorem Inv.holds_lt (inv : Inv p) {x : κ × Nat} {a : Nat} (held : p.holds x = some a) :
    a < p.next := by
  cases found : p.owners x with
  | none =>
    rw [holds_of_absent found] at held
    cases held
  | some o =>
    rw [holds_of_owner found] at held
    obtain ⟨made, created, -⟩ := inv.backed x o found a held
    exact inv.fresh x.1 a made created

theorem Inv.build (inv : Inv p) (made : I.Made k) (free : p.owners (k, v) = none) :
    Inv (p.build k v made) := by
  have trace : (p.build k v made).trace = p.trace ++ [.created k p.next made] := by
    simp [Program.build, set, log]
  have held : (p.build k v made).holds = Function.update p.holds (k, v) (some p.next) :=
    holds_set _ _ _
  have owners : (p.build k v made).owners = Function.update p.owners (k, v)
      (some ⟨⟨some p.next, I.deleter k made⟩, I.members k made⟩) := rfl
  have moved : (p.build k v made).moved = Function.update p.moved (k, v) false := rfl
  have unmade : ∀ k' made', Event.created k' p.next made' ∉ p.trace := by
    intro k' made' created
    exact Nat.lt_irrefl _ (inv.fresh k' p.next made' created)
  refine ⟨?_, ?_, ?_, ?_, ?_⟩
  · rw [trace]
    exact sound_snoc inv.sound unmade
  · intro k' a made' created
    rw [trace] at created
    rcases List.mem_append.mp created with earlier | last
    · exact Nat.lt_succ_of_lt (inv.fresh k' a made' earlier)
    · cases List.mem_singleton.mp last
      exact Nat.lt_succ_self _
  · rw [trace, held]
    refine inv.accounted.created (holds_of_absent free) ?_ ?_ k made
    · intro y same
      exact Nat.lt_irrefl _ (inv.holds_lt same)
    · intro destroyed
      obtain ⟨k', made', created⟩ := inv.sound.created_of_destroyed destroyed
      exact unmade k' made' created
  · intro x o found
    rw [trace]
    rcases eq_or_ne x (k, v) with rfl | other
    · rw [owners, Function.update_self] at found
      cases found
      intro a points
      cases points
      exact ⟨made, List.mem_append_right _ (List.mem_singleton_self _), rfl, rfl⟩
    · rw [owners, Function.update_of_ne other] at found
      exact (inv.backed x o found).append _
  · intro x o found still
    rcases eq_or_ne x (k, v) with rfl | other
    · rw [owners, Function.update_self] at found
      cases found
      exact ⟨p.next, rfl⟩
    · rw [owners, Function.update_of_ne other] at found
      rw [moved, Function.update_of_ne other] at still
      exact inv.filled x o found still

theorem Inv.create (inv : Inv p) {made : Option (I.Made k)} (ran : p.create k v made = some p') :
    Inv p' := by
  obtain ⟨free, ⟨-, rfl⟩ | ⟨made', -, rfl⟩⟩ := create_cases ran
  · exact inv
  · exact inv.build made' free

theorem Inv.moveConstruct (inv : Inv p) (ran : p.moveConstruct k dst src = some p') : Inv p' := by
  obtain ⟨o, free, source, result⟩ := moveConstruct_cases ran
  have other : (k, dst) ≠ (k, src) := by
    intro same
    rw [same, source] at free
    cases free
  have owners : p'.owners =
      Function.update (Function.update p.owners (k, src) (some o.left)) (k, dst) (some o) := by
    rw [result]
    rfl
  have moved : p'.moved =
      Function.update (Function.update p.moved (k, dst) (p.moved (k, src))) (k, src) true := by
    rw [result]
    rfl
  have held : p'.holds =
      Function.update (Function.update p.holds (k, src) none) (k, dst) (p.holds (k, src)) := by
    rw [result, holds_of_owner source]
    exact (holds_set _ _ _).trans (by rw [holds_set]; rfl)
  have trace : p'.trace = p.trace := by
    rw [result]
    rfl
  have next : p'.next = p.next := by
    rw [result]
    rfl
  refine ⟨trace ▸ inv.sound, trace ▸ next ▸ inv.fresh, ?_, ?_, ?_⟩
  · rw [held, trace]
    exact inv.accounted.moved other (holds_of_absent free)
  · intro x o' found
    rw [trace]
    rcases eq_or_ne x (k, dst) with rfl | away
    · rw [owners, Function.update_self] at found
      cases found
      exact inv.backed (k, src) o source
    · rw [owners, Function.update_of_ne away] at found
      rcases eq_or_ne x (k, src) with rfl | away'
      · rw [Function.update_self] at found
        cases found
        exact Owner.backed_left p.trace o
      · rw [Function.update_of_ne away'] at found
        exact inv.backed x o' found
  · intro x o' found still
    rw [moved] at still
    rcases eq_or_ne x (k, src) with rfl | away'
    · rw [Function.update_self] at still
      cases still
    · rw [Function.update_of_ne away'] at still
      rcases eq_or_ne x (k, dst) with rfl | away
      · rw [Function.update_self] at still
        rw [owners, Function.update_self] at found
        cases found
        exact inv.filled (k, src) o source still
      · rw [Function.update_of_ne away] at still
        rw [owners, Function.update_of_ne away, Function.update_of_ne away'] at found
        exact inv.filled x o' found still

omit [DecidableEq κ] in
/-- An owner that is not moved from invokes its functions on the state they came with. -/
theorem Inv.called_sound (inv : Inv p) {o : Owner I k} (found : p.owners (k, v) = some o)
    (still : p.moved (k, v) = false) {c : I.Call k} {f : I.Function k}
    (invoked : I.invoked k o.members c = some f) :
    (Event.called k f o.state.ptr).Sound p.trace := by
  obtain ⟨a, points⟩ := inv.filled (k, v) o found still
  obtain ⟨made, created, -, members⟩ := inv.backed (k, v) o found a points
  refine ⟨a, made, points, created, I.invoked_serves k made c f (members ▸ invoked), ?_⟩
  exact inv.accounted.alive (k, v) a ((holds_of_owner found).trans points)

omit [DecidableEq κ] in
theorem Inv.call (inv : Inv p) {c : I.Call k} (ran : p.call k v c = some p') : Inv p' := by
  obtain ⟨o, found, still, rfl | ⟨f, invoked, rfl⟩⟩ := call_cases ran
  · exact inv
  · refine ⟨?_, ?_, inv.accounted.called k f _, ?_, inv.filled⟩
    · exact sound_snoc inv.sound (inv.called_sound found still invoked)
    · intro k' a made created
      rcases List.mem_append.mp created with earlier | last
      · exact inv.fresh k' a made earlier
      · cases List.mem_singleton.mp last
    · intro x o' found'
      exact (inv.backed x o' found').append _

omit [DecidableEq κ] in
/-- The deleter of an owner is invoked on the state it came with. -/
theorem Inv.destroyed_sound (inv : Inv p) {o : Owner I k} (found : p.owners (k, v) = some o)
    {a : Nat} (points : o.state.ptr = some a) :
    (Event.destroyed k o.state.deleter a).Sound p.trace := by
  obtain ⟨made, created, deleter, -⟩ := inv.backed (k, v) o found a points
  refine ⟨made, created, deleter ▸ I.deleter_serves k made, ?_⟩
  exact inv.accounted.alive (k, v) a ((holds_of_owner found).trans points)

theorem Inv.destroy (inv : Inv p) (ran : p.destroy k v = some p') : Inv p' := by
  obtain ⟨o, found, result⟩ := destroy_cases ran
  have owners : p'.owners = Function.update p.owners (k, v) none := by
    rw [result]
    rfl
  have held : p'.holds = Function.update p.holds (k, v) none := by
    rw [result]
    exact holds_set _ _ _
  have trace : p'.trace = p.trace ++ o.deletes := by
    rw [result]
    rfl
  have remains : ∀ x o', p'.owners x = some o' → p.owners x = some o' := by
    intro x o' found'
    rcases eq_or_ne x (k, v) with rfl | other
    · rw [owners, Function.update_self] at found'
      cases found'
    · rwa [owners, Function.update_of_ne other] at found'
  have fresh : ∀ k' a made, Event.created k' a made ∈ p'.trace → a < p'.next := by
    intro k' a made created
    rw [trace] at created
    rw [result]
    rcases List.mem_append.mp created with earlier | last
    · exact inv.fresh k' a made earlier
    · cases points : o.state.ptr with
      | none =>
        rw [Owner.deletes, points] at last
        cases last
      | some a' =>
        rw [Owner.deletes, points] at last
        cases List.mem_singleton.mp last
  have backed : ∀ x o', p'.owners x = some o' → o'.Backed p'.trace := by
    intro x o' found'
    rw [trace]
    exact (inv.backed x o' (remains x o' found')).append _
  have filled : ∀ x o', p'.owners x = some o' → p'.moved x = false →
      ∃ a, o'.state.ptr = some a := by
    intro x o' found' still
    rw [result] at still
    exact inv.filled x o' (remains x o' found') still
  cases points : o.state.ptr with
  | none =>
    rw [Owner.deletes, points, List.append_nil] at trace
    have same : Function.update p.holds (k, v) none = p.holds := by
      rw [← points, ← holds_of_owner found, Function.update_eq_self]
    refine ⟨trace ▸ inv.sound, fresh, ?_, backed, filled⟩
    rw [held, same, trace]
    exact inv.accounted
  | some a =>
    rw [Owner.deletes, points] at trace
    refine ⟨?_, fresh, ?_, backed, filled⟩
    · rw [trace]
      exact sound_snoc inv.sound (inv.destroyed_sound found points)
    · rw [held, trace]
      exact inv.accounted.destroyed ((holds_of_owner found).trans points) k _

theorem Inv.moveAssign (inv : Inv p) (ran : p.moveAssign k dst src = some p') : Inv p' := by
  rcases eq_or_ne dst src with rfl | other
  · rw [moveAssign_self ran]
    exact inv
  · obtain ⟨q, destroyed, constructed⟩ := moveAssign_ne other ran
    exact (inv.destroy destroyed).moveConstruct constructed

theorem Inv.step (inv : Inv p) {op : Op I} (ran : p.step op = some p') : Inv p' := by
  cases op with
  | create k v made => exact inv.create ran
  | moveConstruct k dst src => exact inv.moveConstruct ran
  | moveAssign k dst src => exact inv.moveAssign ran
  | call k v c => exact inv.call ran
  | destroy k v => exact inv.destroy ran

theorem Inv.steps {ops : List (Op I)} (inv : Inv p) (ran : ops.foldlM Program.step p = some p') :
    Inv p' := by
  induction ops generalizing p with
  | nil => exact Option.some.inj ran ▸ inv
  | cons op ops ih =>
    rw [List.foldlM_cons] at ran
    obtain ⟨q, first, rest⟩ := Option.bind_eq_some_iff.mp ran
    exact ih (inv.step first) rest

/-! ## Runs -/

theorem run_inv {ops : List (Op I)} (ran : run ops = some p) : Inv p :=
  inv_empty.steps ran

/-- Every function of a run is invoked on a state it serves that is not destroyed. -/
theorem run_sound {ops : List (Op I)} (ran : run ops = some p) : Sound p.trace :=
  (run_inv ran).sound

/-- A run that leaves no owner behind destroys every state it made once. -/
theorem run_destroyed_once {ops : List (Op I)} (ran : run ops = some p)
    (gone : ∀ x, p.owners x = none) {a : Nat} {made : I.Made k}
    (created : Event.created k a made ∈ p.trace) : destructions p.trace a = 1 := by
  have inv := run_inv ran
  refine Nat.le_antisymm (inv.sound.destructions_le a) ?_
  rcases inv.accounted.kept k a made created with destroyed | ⟨x, held⟩
  · exact destructions_pos destroyed
  · rw [holds_of_absent (gone x)] at held
    cases held

end Program

end Ownership

end Kit
