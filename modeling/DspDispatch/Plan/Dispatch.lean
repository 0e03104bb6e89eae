import DspDispatch.Kit.Ownership
import DspDispatch.Fft.Plan

/-!
# Dispatch through plans (`include/fft/fft.h`, `include/fir/fir.h`)

A plan is a `void*` and the functions that cast it. The factories of the backends
fill a dispatch record with a state and the addresses of their own functions, and
the plan's constructor spreads the record over its members. Here are the records
as the factories fill them, and the plans of both libraries as one program moves
them around. Which instantiation a factory chooses for a configuration is open, and
a factory that fails hands out no state.
-/

namespace DspDispatch

open Kit Kit.Ownership

/-! ## FFT plans -/

namespace Fft.Dispatch

/-- The instantiations of `make_plan`, with the template argument `Real`. -/
inductive Instantiation
  | mkl
  | aocl (real : FftPrecision)
  | armpl (real : FftPrecision)
  | pocketfft (real : FftPrecision)
  | cmsis
deriving DecidableEq, Repr

/-- The functions whose addresses the factories take. -/
inductive Function
  | mklExecute
  | mklDestroy
  | aoclExecute (real : FftPrecision)
  | aoclDestroy
  | armplExecute (real : FftPrecision)
  | armplDestroy (real : FftPrecision)
  | pocketExecute (real : FftPrecision)
  | pocketDestroy (real : FftPrecision)
  | cmsisExecute
  | cmsisDestroy
deriving DecidableEq, Repr

/-- The instantiation whose states a function casts its pointer to. `aocl_destroy`
is one function for both. -/
def Function.Serves : Function → Instantiation → Prop
  | .mklExecute, made => made = .mkl
  | .mklDestroy, made => made = .mkl
  | .aoclExecute real, made => made = .aocl real
  | .aoclDestroy, made => ∃ real, made = .aocl real
  | .armplExecute real, made => made = .armpl real
  | .armplDestroy real, made => made = .armpl real
  | .pocketExecute real, made => made = .pocketfft real
  | .pocketDestroy real, made => made = .pocketfft real
  | .cmsisExecute, made => made = .cmsis
  | .cmsisDestroy, made => made = .cmsis

/-- `BackendPlan` beside its state. -/
structure BackendPlan where
  execute : Function
  destroy : Function
  workspaceBytes : Nat
  name : String

/-- A state of an instantiation and the size of its scratch. -/
structure Made where
  instantiation : Instantiation
  scratchBytes : Nat

/-- The record the factory returns with a state. -/
def Made.backendPlan (made : Made) : BackendPlan :=
  match made.instantiation with
  | .mkl => ⟨.mklExecute, .mklDestroy, 0, "mkl"⟩
  | .aocl real => ⟨.aoclExecute real, .aoclDestroy, made.scratchBytes, "aocl"⟩
  | .armpl real => ⟨.armplExecute real, .armplDestroy real, made.scratchBytes, "armpl"⟩
  | .pocketfft real => ⟨.pocketExecute real, .pocketDestroy real, 0, "pocketfft"⟩
  | .cmsis => ⟨.cmsisExecute, .cmsisDestroy, made.scratchBytes, "cmsis"⟩

theorem Made.execute_serves (made : Made) :
    made.backendPlan.execute.Serves made.instantiation := by
  obtain ⟨instantiation, scratch⟩ := made
  cases instantiation with
  | mkl => rfl
  | aocl real => rfl
  | armpl real => rfl
  | pocketfft real => rfl
  | cmsis => rfl

theorem Made.destroy_serves (made : Made) :
    made.backendPlan.destroy.Serves made.instantiation := by
  obtain ⟨instantiation, scratch⟩ := made
  cases instantiation with
  | mkl => rfl
  | aocl real => exact ⟨real, rfl⟩
  | armpl real => rfl
  | pocketfft real => rfl
  | cmsis => rfl

/-- The members of an `FftPlan` beside `state_`. -/
structure Members where
  execute : Function
  workspaceBytes : Nat
  backendName : String

/-- `FftPlan::FftPlan` on a record. -/
def members (bp : BackendPlan) : Members := ⟨bp.execute, bp.workspaceBytes, bp.name⟩

/-- A call of `FftPlan::execute`; `none` is a null pointer. -/
structure Call where
  input : Option Ptr
  output : Option Ptr

/-- The function `FftPlan::execute` invokes on the state, unless a buffer is null. -/
def Members.invoked (m : Members) (c : Call) : Option Function :=
  if c.input.isNone || c.output.isNone then none else some m.execute

theorem invoked_serves {made : Made} {c : Call} {f : Function}
    (invoked : (members made.backendPlan).invoked c = some f) : f.Serves made.instantiation := by
  rw [Members.invoked] at invoked
  split at invoked
  · cases invoked
  · cases invoked
    exact made.execute_serves

end Fft.Dispatch

/-! ## FIR plans -/

namespace Fir.Dispatch

/-- The sample and tap types of the backends. -/
inductive Scalar
  | float
  | double
  | complexFloat
  | complexDouble
deriving DecidableEq, Repr

/-- The instantiations of `make_plan`; liquid has a state type for each `FirType`. -/
inductive Instantiation
  | portable (sample tap : Scalar)
  | ipp (sample tap : Scalar)
  | liquidReal
  | liquidComplexRealTaps
  | liquidComplex
  | cmsis (t : Scalar)
deriving DecidableEq, Repr

/-- The functions whose addresses the factories take. -/
inductive Function
  | portableExecute (sample tap : Scalar)
  | portableClear (sample tap : Scalar)
  | portableDestroy (sample tap : Scalar)
  | ippExecute (sample tap : Scalar)
  | ippClear (sample tap : Scalar)
  | ippDestroy (sample tap : Scalar)
  | liquidRealExecute
  | liquidRealClear
  | liquidRealDestroy
  | liquidCrExecute
  | liquidCrClear
  | liquidCrDestroy
  | liquidComplexExecute
  | liquidComplexClear
  | liquidComplexDestroy
  | cmsisExecute (t : Scalar)
  | cmsisClear (t : Scalar)
  | cmsisDestroy (t : Scalar)
deriving DecidableEq, Repr

/-- The instantiation whose states a function casts its pointer to. -/
def Function.serves : Function → Instantiation
  | .portableExecute sample tap => .portable sample tap
  | .portableClear sample tap => .portable sample tap
  | .portableDestroy sample tap => .portable sample tap
  | .ippExecute sample tap => .ipp sample tap
  | .ippClear sample tap => .ipp sample tap
  | .ippDestroy sample tap => .ipp sample tap
  | .liquidRealExecute => .liquidReal
  | .liquidRealClear => .liquidReal
  | .liquidRealDestroy => .liquidReal
  | .liquidCrExecute => .liquidComplexRealTaps
  | .liquidCrClear => .liquidComplexRealTaps
  | .liquidCrDestroy => .liquidComplexRealTaps
  | .liquidComplexExecute => .liquidComplex
  | .liquidComplexClear => .liquidComplex
  | .liquidComplexDestroy => .liquidComplex
  | .cmsisExecute t => .cmsis t
  | .cmsisClear t => .cmsis t
  | .cmsisDestroy t => .cmsis t

/-- `BackendPlan` beside its state. -/
structure BackendPlan where
  execute : Function
  clear : Function
  destroy : Function
  workspaceBytes : Nat
  name : String

/-- A state of an instantiation and the size of what the plan owns. -/
structure Made where
  instantiation : Instantiation
  workspaceBytes : Nat

/-- The record the factory returns with a state. -/
def Made.backendPlan (made : Made) : BackendPlan :=
  match made.instantiation with
  | .portable sample tap =>
    ⟨.portableExecute sample tap, .portableClear sample tap, .portableDestroy sample tap,
      made.workspaceBytes, "portable"⟩
  | .ipp sample tap =>
    ⟨.ippExecute sample tap, .ippClear sample tap, .ippDestroy sample tap,
      made.workspaceBytes, "ipp"⟩
  | .liquidReal =>
    ⟨.liquidRealExecute, .liquidRealClear, .liquidRealDestroy, made.workspaceBytes, "liquid"⟩
  | .liquidComplexRealTaps =>
    ⟨.liquidCrExecute, .liquidCrClear, .liquidCrDestroy, made.workspaceBytes, "liquid"⟩
  | .liquidComplex =>
    ⟨.liquidComplexExecute, .liquidComplexClear, .liquidComplexDestroy, made.workspaceBytes,
      "liquid"⟩
  | .cmsis t => ⟨.cmsisExecute t, .cmsisClear t, .cmsisDestroy t, made.workspaceBytes, "cmsis"⟩

/-- Every function of a record serves the state it comes with. -/
theorem Made.serves (made : Made) :
    made.backendPlan.execute.serves = made.instantiation ∧
      made.backendPlan.clear.serves = made.instantiation ∧
      made.backendPlan.destroy.serves = made.instantiation := by
  obtain ⟨instantiation, bytes⟩ := made
  cases instantiation with
  | portable sample tap => exact ⟨rfl, rfl, rfl⟩
  | ipp sample tap => exact ⟨rfl, rfl, rfl⟩
  | liquidReal => exact ⟨rfl, rfl, rfl⟩
  | liquidComplexRealTaps => exact ⟨rfl, rfl, rfl⟩
  | liquidComplex => exact ⟨rfl, rfl, rfl⟩
  | cmsis t => exact ⟨rfl, rfl, rfl⟩

/-- The members of a `FirPlan` beside `state_`. -/
structure Members where
  execute : Function
  clear : Function
  workspaceBytes : Nat
  backendName : String

/-- `FirPlan::FirPlan` on a record. -/
def members (bp : BackendPlan) : Members := ⟨bp.execute, bp.clear, bp.workspaceBytes, bp.name⟩

/-- A call of `FirPlan::execute` or `FirPlan::clear`; `none` is a null pointer. -/
inductive Call
  | execute (input output : Option Ptr)
  | clear

/-- The function the call invokes on the state, unless a buffer is null. -/
def Members.invoked (m : Members) : Call → Option Function
  | .execute input output => if input.isNone || output.isNone then none else some m.execute
  | .clear => some m.clear

theorem invoked_serves {made : Made} {c : Call} {f : Function}
    (invoked : (members made.backendPlan).invoked c = some f) :
    f.serves = made.instantiation := by
  obtain ⟨execute, clear, -⟩ := made.serves
  cases c with
  | execute input output =>
    rw [Members.invoked] at invoked
    split at invoked
    · cases invoked
    · cases invoked
      exact execute
  | clear =>
    cases invoked
    exact clear

end Fir.Dispatch

/-! ## Programs over plans -/

/-- The classes `FftPlan` and `FirPlan`. -/
inductive PlanClass
  | fft
  | fir
deriving DecidableEq, Repr

/-- What the factories put into plans, and what plans invoke. -/
def plans : Interface PlanClass where
  Made
    | .fft => Fft.Dispatch.Made
    | .fir => Fir.Dispatch.Made
  Members
    | .fft => Fft.Dispatch.Members
    | .fir => Fir.Dispatch.Members
  Call
    | .fft => Fft.Dispatch.Call
    | .fir => Fir.Dispatch.Call
  Function
    | .fft => Fft.Dispatch.Function
    | .fir => Fir.Dispatch.Function
  members
    | .fft, made => Fft.Dispatch.members made.backendPlan
    | .fir, made => Fir.Dispatch.members made.backendPlan
  deleter
    | .fft, made => made.backendPlan.destroy
    | .fir, made => made.backendPlan.destroy
  invoked
    | .fft, m, c => m.invoked c
    | .fir, m, c => m.invoked c
  Serves
    | .fft, f, made => f.Serves made.instantiation
    | .fir, f, made => f.serves = made.instantiation
  invoked_serves := by
    intro k made c f invoked
    cases k with
    | fft => exact Fft.Dispatch.invoked_serves invoked
    | fir => exact Fir.Dispatch.invoked_serves invoked
  deleter_serves := by
    intro k made
    cases k with
    | fft => exact Fft.Dispatch.Made.destroy_serves made
    | fir => exact (Fir.Dispatch.Made.serves made).2.2

/-- In every program that creates, moves, calls and destroys plans, and calls none
that is moved from, each function is invoked on a state of its own instantiation
that is not destroyed, and once no plan is left every state was destroyed once. -/
theorem dispatch_sound {ops : List (Op plans)} {p : Program plans}
    (ran : Program.run ops = some p) :
    Sound p.trace ∧
      ((∀ x, p.owners x = none) → ∀ k a made, Event.created k a made ∈ p.trace →
        destructions p.trace a = 1) := by
  refine ⟨Program.run_sound ran, ?_⟩
  intro gone k a made created
  exact Program.run_destroyed_once ran gone created

/-- A plan is moved to a new variable, assigned to itself, and assigned over a live
plan of another backend. -/
def movedPlans : List (Op plans) :=
  [.create .fft 0 (some ⟨.pocketfft .f32, 0⟩),
   .create .fft 1 (some ⟨.aocl .f64, 256⟩),
   .create .fir 0 (some ⟨.portable .complexFloat .float, 64⟩),
   .create .fir 1 none,
   .moveConstruct .fft 2 0,
   .moveAssign .fft 2 2,
   .moveAssign .fft 1 2,
   .call .fft 1 ⟨some ⟨0, 0⟩, some ⟨1, 0⟩⟩,
   .moveConstruct .fir 2 0,
   .call .fir 2 (.execute (some ⟨0, 0⟩) none),
   .call .fir 2 .clear,
   .destroy .fft 0,
   .destroy .fft 2,
   .destroy .fft 1,
   .destroy .fir 2,
   .destroy .fir 0]

theorem movedPlans_ends : ∃ p, Program.run movedPlans = some p ∧
    (∀ x, p.owners x = none) ∧ p.trace.length = 8 := by
  refine ⟨_, rfl, ?_, rfl⟩
  intro ⟨k, v⟩
  cases k with
  | fft =>
    match v with
    | 0 => rfl
    | 1 => rfl
    | 2 => rfl
    | v + 3 => rfl
  | fir =>
    match v with
    | 0 => rfl
    | 1 => rfl
    | 2 => rfl
    | v + 3 => rfl

/-- That program leaves no plan, and it destroyed its states once. -/
theorem dispatch_sound_moved_plans : ∃ p, Program.run movedPlans = some p ∧
    Sound p.trace ∧ p.trace.length = 8 ∧ ∀ k a made, Event.created k a made ∈ p.trace →
      destructions p.trace a = 1 := by
  obtain ⟨p, ran, gone, eight⟩ := movedPlans_ends
  exact ⟨p, ran, (dispatch_sound ran).1, eight, (dispatch_sound ran).2 gone⟩

end DspDispatch
