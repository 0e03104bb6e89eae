import DspDispatch.Kit.LaneLoop
import DspDispatch.Kit.TapFilter
import Mathlib.Algebra.QuadraticAlgebra.Basic

/-!
# FIR plans (`include/fir/fir.h`, `src/common/fir_backend.h`)

The public configuration, the status codes and the dispatch record every FIR
backend returns. A backend is its state, an `execute` and a `clear`; the opaque
`void*` of the source is the type parameter `σ`.

Samples are counted one array element each, so a caller buffer of a plan has
`batch * block_size` cells. Sizes are natural numbers; the backends compute the
lengths of their vectors in `size_t` arithmetic.
-/

namespace DspDispatch.Fir

open Kit

inductive FirPrecision
  | f32
  | f64
deriving DecidableEq, Repr

inductive FirType
  | real
  | complexRealTaps
  | complex
deriving DecidableEq, Repr

inductive Status
  | ok
  | nullPointer
  | invalidArgument
  | unsupportedConfig
  | backendError
deriving DecidableEq, Repr

/-- `Result<T>`: a value, or the status saying why there is none. -/
abbrev Result (α : Type) := Except Status α

/-! ## Sample and tap types -/

/-- `std::complex<R>`. -/
abbrev Cplx (R : Type) [CommRing R] := QuadraticAlgebra R (-1) 0

/-- The `Sample` template argument a `FirType` selects, over components `R`. -/
def SampleOf (R : Type) [CommRing R] : FirType → Type
  | .real => R
  | .complexRealTaps => Cplx R
  | .complex => Cplx R

/-- The `Tap` template argument a `FirType` selects, over components `R`. -/
def TapOf (R : Type) [CommRing R] : FirType → Type
  | .real => R
  | .complexRealTaps => R
  | .complex => Cplx R

/-- `std::complex<R> * R`. -/
instance {R : Type} [CommRing R] : HMul (Cplx R) R (Cplx R) := ⟨fun z t => ⟨z.re * t, z.im * t⟩⟩

instance {R : Type} [CommRing R] : (t : FirType) → AddCommMonoid (SampleOf R t)
  | .real => inferInstanceAs (AddCommMonoid R)
  | .complexRealTaps => inferInstanceAs (AddCommMonoid (Cplx R))
  | .complex => inferInstanceAs (AddCommMonoid (Cplx R))

instance {R : Type} [CommRing R] : (t : FirType) → HMul (SampleOf R t) (TapOf R t) (SampleOf R t)
  | .real => inferInstanceAs (HMul R R R)
  | .complexRealTaps => inferInstanceAs (HMul (Cplx R) R (Cplx R))
  | .complex => inferInstanceAs (HMul (Cplx R) (Cplx R) (Cplx R))

/-- `sizeof(float)` or `sizeof(double)`. -/
def FirPrecision.sizeofReal : FirPrecision → Nat
  | .f32 => 4
  | .f64 => 8

def FirType.sizeofSample (t : FirType) (p : FirPrecision) : Nat :=
  match t with
  | .real => p.sizeofReal
  | .complexRealTaps => 2 * p.sizeofReal
  | .complex => 2 * p.sizeofReal

def FirType.sizeofTap (t : FirType) (p : FirPrecision) : Nat :=
  match t with
  | .real => p.sizeofReal
  | .complexRealTaps => p.sizeofReal
  | .complex => 2 * p.sizeofReal

/-! ## Configuration -/

/-- `FirPlanConfig`. `taps` is a null pointer or an array with `tapCount`
readable elements, here the list of them. -/
structure FirPlanConfig (R : Type) [CommRing R] where
  type : FirType := .real
  precision : FirPrecision := .f32
  taps : Option (List (TapOf R type)) := none
  tapCount : Nat := 0
  blockSize : Nat := 0
  batch : Nat := 1
  readable : ∀ ts, taps = some ts → ts.length = tapCount := by simp

variable {R : Type} [CommRing R]

/-- The check every FIR backend makes first. -/
def invalidCommon (cfg : FirPlanConfig R) : Bool :=
  cfg.taps.isNone || cfg.tapCount == 0 || cfg.blockSize == 0 || cfg.batch == 0

theorem invalidCommon_eq_false {cfg : FirPlanConfig R} (valid : invalidCommon cfg = false) :
    (∃ ts, cfg.taps = some ts) ∧ 0 < cfg.tapCount ∧ 0 < cfg.blockSize ∧ 0 < cfg.batch := by
  simp only [invalidCommon, Bool.or_eq_false_iff, beq_eq_false_iff_ne] at valid
  obtain ⟨⟨⟨taps, count⟩, block⟩, batch⟩ := valid
  refine ⟨?_, by omega, by omega, by omega⟩
  cases found : cfg.taps with
  | none => simp [found] at taps
  | some ts => exact ⟨ts, rfl⟩

/-- The taps a valid configuration points to. -/
def FirPlanConfig.tapList (cfg : FirPlanConfig R) : List (TapOf R cfg.type) :=
  cfg.taps.getD []

theorem FirPlanConfig.length_tapList {cfg : FirPlanConfig R} (valid : invalidCommon cfg = false) :
    cfg.tapList.length = cfg.tapCount := by
  obtain ⟨⟨ts, found⟩, -⟩ := invalidCommon_eq_false valid
  rw [FirPlanConfig.tapList, found]
  exact cfg.readable ts found

/-- A configuration for real samples. -/
def realConfig (taps : List R) {tapCount : Nat} (same : taps.length = tapCount)
    (blockSize batch : Nat) : FirPlanConfig R where
  type := .real
  taps := some taps
  tapCount := tapCount
  blockSize := blockSize
  batch := batch
  readable := by
    intro ts found
    cases found
    exact same

/-- `2 ^ 34` lanes that remember `2 ^ 30` samples each: more than a `size_t` counts. -/
def wrappingHistory : FirPlanConfig Int :=
  realConfig (List.replicate (2 ^ 30 + 1) 1) List.length_replicate 1 (2 ^ 34)

/-! ## Dispatch records and runs of calls -/

/-- `BackendPlan`. `execute` reads and writes the caller's memory through the
two pointers; `none` is an access outside an array. -/
structure BackendPlan (σ S : Type) where
  state : σ
  execute : σ → Mem S → Ptr → Ptr → Option (Status × Mem S × σ)
  clear : σ → Option (Status × σ)
  workspaceBytes : Nat
  name : String

/-- A call on a plan. The caller's memory may have changed in any way since the
previous call, so each `execute` brings its own. -/
inductive FirCall (S : Type)
  | execute (mem : Mem S) (input output : Ptr)
  | clear

/-- What the caller sees of a call. -/
inductive FirOutcome (S : Type)
  | executed (status : Status) (mem : Mem S)
  | cleared (status : Status)

variable {σ S : Type}

/-- One call on the plan's current state. -/
def BackendPlan.step (p : BackendPlan σ S) (s : σ) : FirCall S → Option (FirOutcome S × σ)
  | .execute mem input output =>
    (p.execute s mem input output).map fun r => (.executed r.1 r.2.1, r.2.2)
  | .clear => (p.clear s).map fun r => (.cleared r.1, r.2)

/-- The calls in order, from the state the factory returned. -/
def BackendPlan.run (p : BackendPlan σ S) (calls : List (FirCall S)) :
    Option (List (FirOutcome S) × σ) :=
  runSteps p.step p.state calls

/-- Both buffers hold `n` samples and have none in common. -/
def FirCall.Distinct (n : Nat) : FirCall S → Prop
  | .execute mem input output => mem.Holds input n ∧ mem.Holds output n ∧ Apart input n output n
  | .clear => True

/-- Both buffers hold `n` samples, and are one buffer or have none in common. -/
def FirCall.Usable (n : Nat) : FirCall S → Prop
  | .execute mem input output =>
    mem.Holds input n ∧ mem.Holds output n ∧ (input = output ∨ Apart input n output n)
  | .clear => True

theorem FirCall.Distinct.usable {n : Nat} {call : FirCall S} (distinct : call.Distinct n) :
    call.Usable n := by
  cases call with
  | execute mem input output => exact ⟨distinct.1, distinct.2.1, .inr distinct.2.2⟩
  | clear => trivial

/-- Lane `b` of the block a call reads: `block_size` samples from
`in + b * block_size`. -/
def laneBlock (blockSize : Nat) (mem : Mem S) (input : Ptr) (b : Nat) : List S :=
  mem.read (input.add (b * blockSize)) blockSize

/-- Lane `b`'s segments of all blocks executed since the last clear. -/
def laneStream (blockSize b : Nat) (calls : List (FirCall S)) : List S :=
  calls.foldl (fun xs call =>
    match call with
    | .execute mem input _ => xs ++ laneBlock blockSize mem input b
    | .clear => []) []

@[simp] theorem laneStream_nil (blockSize b : Nat) :
    laneStream blockSize b ([] : List (FirCall S)) = [] := rfl

@[simp] theorem laneStream_execute (blockSize b : Nat) (past : List (FirCall S)) (mem : Mem S)
    (input output : Ptr) :
    laneStream blockSize b (past ++ [.execute mem input output]) =
      laneStream blockSize b past ++ laneBlock blockSize mem input b := by
  simp [laneStream]

@[simp] theorem laneStream_clear (blockSize b : Nat) (past : List (FirCall S)) :
    laneStream blockSize b (past ++ [.clear]) = [] := by
  simp [laneStream]

/-- An execute on a block of `n` equal samples, with another such block for the output
unless that is the input. -/
def constantCall (n : Nat) (v : S) (output : Ptr) : FirCall S :=
  .execute ⟨fun _ => List.replicate n v⟩ ⟨0, 0⟩ output

theorem constantCall_distinct (n : Nat) (v : S) : (constantCall n v ⟨1, 0⟩).Distinct n := by
  have holds : ∀ block, Mem.Holds (⟨fun _ => List.replicate n v⟩ : Mem S) ⟨block, 0⟩ n := by
    intro block
    rw [Mem.Holds, List.length_replicate, Nat.zero_add]
  exact ⟨holds 0, holds 1, .inl (by decide)⟩

theorem constantCall_usable (n : Nat) (v : S) : (constantCall n v ⟨0, 0⟩).Usable n := by
  obtain ⟨holds, -⟩ := constantCall_distinct n v
  exact ⟨holds, holds, .inl rfl⟩

theorem length_laneBlock {blockSize batch b : Nat} {mem : Mem S} {input : Ptr}
    (holds : mem.Holds input (batch * blockSize)) (below : b < batch) :
    (laneBlock blockSize mem input b).length = blockSize :=
  Mem.length_read (holds.mono (lane_end_le blockSize below))

/-- Lanes are read before their own output is written: the outputs of the lanes
before `b` leave lane `b` of the block as it was. -/
theorem laneBlock_write {blockSize batch b : Nat} {mem : Mem S} {input output : Ptr} {ys : List S}
    (below : b < batch) (holdsOut : mem.Holds output (batch * blockSize))
    (overlap : input = output ∨
      Apart input (batch * blockSize) output (batch * blockSize))
    (before : ys.length = b * blockSize) :
    laneBlock blockSize (mem.write output ys) input b = laneBlock blockSize mem input b :=
  Mem.read_lane_write below holdsOut (overlap.imp_left fun same => ⟨same, rfl⟩) before

end DspDispatch.Fir
