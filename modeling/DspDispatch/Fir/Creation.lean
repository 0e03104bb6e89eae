import DspDispatch.Fir.Portable
import DspDispatch.Fir.Ipp
import DspDispatch.Fir.Cmsis
import DspDispatch.Kit.Throwing

/-!
# Making the plans of the FIR backends

The factories once more, with their allocations and in the `size_t` arithmetic of
the source: products and sums of the requested sizes wrap, a vector may not be
made, and an exception passes through whatever does not catch it. The states are
those of the other modules.

A configuration's sizes are `size_t` values (`FirPlanConfig.Sized`).
-/

namespace DspDispatch.Fir

open Kit Kit.Throwing

variable {R : Type} [CommRing R] {S T : Type}

/-- The sizes of a configuration are 64-bit values. -/
structure FirPlanConfig.Sized (cfg : FirPlanConfig R) : Prop where
  tapCount_lt : cfg.tapCount < 2 ^ 64
  blockSize_lt : cfg.blockSize < 2 ^ 64
  batch_lt : cfg.batch < 2 ^ 64

/-! ## Portable -/

namespace Portable

/-- The allocations of `new PortableState(cfg)`. -/
inductive Site
  | object
  | taps
  | history
  | combined
deriving DecidableEq, Repr

/-- `new PortableState(cfg)`. An exception in the constructor frees the storage of
the object, which has not come to life. -/
def newState [Zero S] (sizeofSample sizeofTap : Nat) (taps : List T) (blockSize batch : Nat) :
    Throwing Site (Owned (PortableState S T)) := do
  let s := PortableState.createSized taps blockSize batch
  allocateObject .object
  allocate .taps sizeofTap s.taps.length
  allocate .history sizeofSample s.history.length
  allocate .combined sizeofSample s.combinedReserved
  let address ← construct
  return ⟨address, s⟩

/-- `make_backend_plan`. -/
def createPlan (cfg : FirPlanConfig R) :
    Throwing Site (Result (Owned (PortableState (SampleOf R cfg.type) (TapOf R cfg.type)))) :=
  if invalidCommon cfg then return .error .invalidArgument
  else do
    let object ← newState (cfg.type.sizeofSample cfg.precision) (cfg.type.sizeofTap cfg.precision)
      cfg.tapList cfg.blockSize cfg.batch
    return .ok object

/-- The configurations the backend has a plan for. -/
def Admits (cfg : FirPlanConfig R) : Prop := invalidCommon cfg = false

/-- The allocations of `new PortableState(cfg)` succeed. -/
structure AllMade (fails : Site → Bool) (sizeofSample sizeofTap : Nat)
    (s : PortableState S T) : Prop where
  object : fails .object = false
  taps : Made fails .taps sizeofTap s.taps.length
  history : Made fails .history sizeofSample s.history.length
  combined : Made fails .combined sizeofSample s.combinedReserved

section Run

variable [Zero S] {fails : Site → Bool} {sizeofSample sizeofTap blockSize batch : Nat}
  {taps : List T} {l : Ledger}

theorem newState_of_made (made : AllMade fails sizeofSample sizeofTap
      (PortableState.createSized taps blockSize batch : PortableState S T)) :
    newState (S := S) sizeofSample sizeofTap taps blockSize batch fails l =
      (.returned ⟨l.next, PortableState.createSized taps blockSize batch⟩,
        { l with next := l.next + 1, alive := l.next :: l.alive }) := by
  simp only [newState, allocateObject_bind, allocate_bind, construct_bind, pure_apply, made.object,
    made.taps, made.history, made.combined, if_true, Bool.false_eq_true, if_false]

theorem newState_of_not_made (failing : ¬ AllMade fails sizeofSample sizeofTap
      (PortableState.createSized taps blockSize batch : PortableState S T)) :
    (newState (S := S) sizeofSample sizeofTap taps blockSize batch).Throws fails l := by
  refine throws_allocateObject fun object => throws_allocate fun taps => ?_
  refine throws_allocate fun history => throws_allocate fun combined => ?_
  exact (failing ⟨object, taps, history, combined⟩).elim

end Run

/-- The factory ends cleanly exactly for a configuration it rejects, or when none
of its allocations fails: nothing catches an exception. -/
theorem createPlan_clean_iff (cfg : FirPlanConfig R) (fails : Site → Bool) :
    Clean (Admits cfg) ((createPlan cfg).run fails) ↔
      ¬ Admits cfg ∨ AllMade fails (cfg.type.sizeofSample cfg.precision)
        (cfg.type.sizeofTap cfg.precision)
        (PortableState.createSized cfg.tapList cfg.blockSize cfg.batch :
          PortableState (SampleOf R cfg.type) (TapOf R cfg.type)) := by
  unfold Admits createPlan Throwing.run
  cases valid : invalidCommon cfg with
  | true => exact iff_of_true ⟨rfl, .inr (by simp)⟩ (.inl (by simp))
  | false =>
    rw [if_neg (by simp)]
    by_cases made : AllMade fails (cfg.type.sizeofSample cfg.precision)
      (cfg.type.sizeofTap cfg.precision)
      (PortableState.createSized cfg.tapList cfg.blockSize cfg.batch :
        PortableState (SampleOf R cfg.type) (TapOf R cfg.type))
    · rw [bind_of_returned (newState_of_made made)]
      exact iff_of_true ⟨rfl, rfl⟩ (.inr made)
    · obtain ⟨l, threw⟩ := newState_of_not_made (l := {}) made
      rw [bind_of_threw threw]
      exact iff_of_false not_false (by simpa using made)

end Portable

/-! ## IPP -/

namespace Ipp

/-- The allocations of `make_typed`. -/
inductive Site
  | object
  | spec
  | work
  | delayA
  | delayB
deriving DecidableEq, Repr

/-- `make_typed`. -/
def createTyped [Zero S] (sizeofSample : Nat) (lib : IppLib T) (taps : List T)
    (tapCount blockSize batch : Nat) : Throwing Site (Result (Owned (IppFirState S))) :=
  if exceedsInt tapCount || exceedsInt blockSize then return .error .unsupportedConfig
  else do
    let tapsLen := toInt32 tapCount
    let (st, specSize, workSize) := lib.getSize tapsLen
    answered (mapStatus st = .ok ∧ ¬ (specSize ≤ 0 ∨ workSize < 0))
    if mapStatus st ≠ .ok then return .error (mapStatus st)
    else if specSize ≤ 0 ∨ workSize < 0 then return .error .backendError
    else do
      allocateObject .object
      let address ← construct
      allocate .spec 1 specSize.toNat
      allocate .work 1 workSize.toNat
      let delayA : List S := delays tapCount batch
      allocate .delayA sizeofSample delayA.length
      let delayB : List S := delays tapCount batch
      allocate .delayB sizeofSample delayB.length
      let (st, spec) := lib.init taps tapsLen (List.replicate specSize.toNat 0)
      answered (mapStatus st = .ok)
      if mapStatus st ≠ .ok then do
        destroy address
        return .error (mapStatus st)
      else
        return .ok
          { address := address
            contents :=
              { blockSize := blockSize
                batch := batch
                tapCount := tapCount
                spec := spec
                work := List.replicate workSize.toNat 0
                delayA := delayA
                delayB := delayB } }

/-- `make_backend_plan`. -/
def createPlan (ipp : FirPrecision → (t : FirType) → IppLib (TapOf R t)) (cfg : FirPlanConfig R) :
    Throwing Site (Result (Owned (IppFirState (SampleOf R cfg.type)))) :=
  if invalidCommon cfg then return .error .invalidArgument
  else if cfg.precision = .f64 ∧ cfg.type = .complexRealTaps then return .error .unsupportedConfig
  else createTyped (cfg.type.sizeofSample cfg.precision) (ipp cfg.precision cfg.type)
    cfg.tapList cfg.tapCount cfg.blockSize cfg.batch

/-- The configurations the backend has a plan for, the library willing. -/
structure Admits (cfg : FirPlanConfig R) : Prop where
  valid : invalidCommon cfg = false
  instantiated : ¬ (cfg.precision = .f64 ∧ cfg.type = .complexRealTaps)
  tapCount_le : cfg.tapCount ≤ 2 ^ 31 - 1
  blockSize_le : cfg.blockSize ≤ 2 ^ 31 - 1

/-- `ippsFIRSRGetSize` succeeds with sizes a buffer can have. -/
structure SizesUsable (lib : IppLib T) (tapCount : Nat) : Prop where
  status : mapStatus (lib.getSize (toInt32 tapCount)).1 = .ok
  sizes : ¬ ((lib.getSize (toInt32 tapCount)).2.1 ≤ 0 ∨ (lib.getSize (toInt32 tapCount)).2.2 < 0)

/-- The allocations of `make_typed` succeed. -/
structure AllMade (fails : Site → Bool) (sizeofSample : Nat) (lib : IppLib T)
    (tapCount batch : Nat) : Prop where
  object : fails .object = false
  spec : Made fails .spec 1 (lib.getSize (toInt32 tapCount)).2.1.toNat
  work : Made fails .work 1 (lib.getSize (toInt32 tapCount)).2.2.toNat
  delayA : Made fails .delayA sizeofSample (mulSize batch (subSize tapCount 1))
  delayB : Made fails .delayB sizeofSample (mulSize batch (subSize tapCount 1))

section Run

variable [Zero S] {fails : Site → Bool} {sizeofSample tapCount blockSize batch : Nat}
  {lib : IppLib T} {taps : List T}

variable (fails sizeofSample blockSize batch taps)

/-- A failing size call ends the factory before it has allocated anything. -/
theorem createTyped_of_unusable (ranges : (exceedsInt tapCount || exceedsInt blockSize) = false)
    (unusable : ¬ SizesUsable lib tapCount) :
    ∃ st l, (createTyped (S := S) sizeofSample lib taps tapCount blockSize batch).run fails =
      (.returned (.error st), l) ∧ l.alive = [] ∧ l.failed = true := by
  rcases size : lib.getSize (toInt32 tapCount) with ⟨st, specSize, workSize⟩
  simp only [createTyped, Throwing.run, ranges, size, Bool.false_eq_true, if_false, answered_bind]
  by_cases status : mapStatus st = .ok
  · by_cases sizes : specSize ≤ 0 ∨ workSize < 0
    · exact ⟨_, _, by rw [if_neg (by simpa using status), if_pos sizes]; rfl, rfl,
        by simp [sizes]⟩
    · exact absurd ⟨by rw [size]; exact status, by rw [size]; exact sizes⟩ unusable
  · exact ⟨_, _, by rw [if_pos status]; rfl, rfl, by simp [status]⟩

/-- An allocation that fails ends the factory with an exception. -/
theorem createTyped_of_not_made (ranges : (exceedsInt tapCount || exceedsInt blockSize) = false)
    (usable : SizesUsable lib tapCount)
    (failing : ¬ AllMade fails sizeofSample lib tapCount batch) :
    (createTyped (S := S) sizeofSample lib taps tapCount blockSize batch).Throws fails {} := by
  obtain ⟨status, sizes⟩ := usable
  have all : fails .object = false →
      Made fails .spec 1 (lib.getSize (toInt32 tapCount)).2.1.toNat →
      Made fails .work 1 (lib.getSize (toInt32 tapCount)).2.2.toNat →
      Made fails .delayA sizeofSample (delays tapCount batch : List S).length →
      ¬ Made fails .delayB sizeofSample (delays tapCount batch : List S).length := by
    rw [length_delays]
    exact fun object spec work delayA delayB => failing ⟨object, spec, work, delayA, delayB⟩
  rcases size : lib.getSize (toInt32 tapCount) with ⟨st, specSize, workSize⟩
  rw [size] at status sizes all
  simp only [Throws, createTyped, ranges, size, Bool.false_eq_true, if_false, answered_bind]
  rw [if_neg (by simpa using status), if_neg sizes]
  refine throws_allocateObject fun object => throws_construct ?_
  refine throws_allocate fun spec => throws_allocate fun work => ?_
  refine throws_allocate fun delayA => throws_allocate fun delayB => ?_
  exact absurd delayB (all object spec work delayA)

/-- With all allocations made the factory answers with the status of the
initialisation. A failure deletes the state. -/
theorem createTyped_of_made (ranges : (exceedsInt tapCount || exceedsInt blockSize) = false)
    (usable : SizesUsable lib tapCount) (made : AllMade fails sizeofSample lib tapCount batch) :
    (∃ st l, (createTyped (S := S) sizeofSample lib taps tapCount blockSize batch).run fails =
      (.returned (.error st), l) ∧ l.alive = [] ∧ l.failed = true) ∨
    (∃ object l, (createTyped (S := S) sizeofSample lib taps tapCount blockSize batch).run fails =
      (.returned (.ok object), l) ∧ l.alive = [object.address] ∧ l.failed = false) := by
  obtain ⟨status, sizes⟩ := usable
  obtain ⟨object, spec, work, delayA, delayB⟩ := made
  rcases size : lib.getSize (toInt32 tapCount) with ⟨st, specSize, workSize⟩
  rw [size] at status sizes spec work
  rcases init : lib.init taps (toInt32 tapCount) (List.replicate specSize.toNat 0) with ⟨st', spec'⟩
  simp only [createTyped, Throwing.run, ranges, size, init, Bool.false_eq_true, if_false,
    answered_bind]
  rw [if_neg (by simpa using status), if_neg sizes]
  rw [allocateObject_bind, if_neg (by rw [object]; exact Bool.false_ne_true), construct_bind,
    allocate_bind, if_pos spec, allocate_bind, if_pos work, allocate_bind, length_delays,
    if_pos delayA, allocate_bind, if_pos delayB, answered_bind]
  by_cases ready : mapStatus st' = .ok
  · right
    rw [if_neg (by simpa using ready)]
    refine ⟨_, _, rfl, rfl, ?_⟩
    simp only [status, sizes, ready]
    rfl
  · left
    rw [if_pos ready, destroy_bind (by simp)]
    exact ⟨_, _, rfl, by simp, by simp [ready]⟩

theorem createTyped_clean_iff (ranges : (exceedsInt tapCount || exceedsInt blockSize) = false)
    (admitted : Prop) :
    Clean admitted
        ((createTyped (S := S) sizeofSample lib taps tapCount blockSize batch).run fails) ↔
      ¬ SizesUsable lib tapCount ∨ AllMade fails sizeofSample lib tapCount batch := by
  by_cases usable : SizesUsable lib tapCount
  · by_cases made : AllMade fails sizeofSample lib tapCount batch
    · rcases createTyped_of_made (S := S) fails sizeofSample blockSize batch taps ranges usable made
        with ⟨st, l, run, alive, failed⟩ | ⟨object, l, run, alive, failed⟩
      · rw [run]
        exact iff_of_true ⟨alive, .inl failed⟩ (.inr made)
      · rw [run]
        exact iff_of_true ⟨alive, failed⟩ (.inr made)
    · obtain ⟨l, run⟩ :=
        createTyped_of_not_made (S := S) fails sizeofSample blockSize batch taps ranges usable made
      rw [Throwing.run, run]
      exact iff_of_false not_false (by simp [usable, made])
  · obtain ⟨st, l, run, alive, failed⟩ :=
      createTyped_of_unusable (S := S) fails sizeofSample blockSize batch taps ranges usable
    rw [run]
    exact iff_of_true ⟨alive, .inl failed⟩ (.inl usable)

end Run

/-- The factory ends cleanly exactly for a configuration it rejects, when the size
call fails, or when none of its allocations fails: an exception leaves it, and
leaves the state behind once that is made. -/
theorem createPlan_clean_iff (ipp : FirPrecision → (t : FirType) → IppLib (TapOf R t))
    (cfg : FirPlanConfig R) (fails : Site → Bool) :
    Clean (Admits cfg) ((createPlan ipp cfg).run fails) ↔
      ¬ Admits cfg ∨ ¬ SizesUsable (ipp cfg.precision cfg.type) cfg.tapCount ∨
        AllMade fails (cfg.type.sizeofSample cfg.precision) (ipp cfg.precision cfg.type)
          cfg.tapCount cfg.batch := by
  unfold createPlan
  cases valid : invalidCommon cfg with
  | true =>
    have rejected : ¬ Admits cfg := fun admits => by simp [admits.valid] at valid
    exact iff_of_true ⟨rfl, .inr rejected⟩ (.inl rejected)
  | false =>
    rw [if_neg Bool.false_ne_true]
    by_cases missing : cfg.precision = .f64 ∧ cfg.type = .complexRealTaps
    · have rejected : ¬ Admits cfg := fun admits => admits.instantiated missing
      rw [if_pos missing]
      exact iff_of_true ⟨rfl, .inr rejected⟩ (.inl rejected)
    · rw [if_neg missing]
      cases ranges : exceedsInt cfg.tapCount || exceedsInt cfg.blockSize with
      | true =>
        have rejected : ¬ Admits cfg := fun admits => by
          have taps := admits.tapCount_le
          have block := admits.blockSize_le
          simp only [exceedsInt, Bool.or_eq_true, decide_eq_true_eq] at ranges
          omega
        rw [createTyped, if_pos ranges]
        exact iff_of_true ⟨rfl, .inr rejected⟩ (.inl rejected)
      | false =>
        have sizes := ranges
        simp only [exceedsInt, Bool.or_eq_false_iff, decide_eq_false_iff_not] at sizes
        have admits : Admits cfg := ⟨valid, missing, by omega, by omega⟩
        rw [createTyped_clean_iff _ _ _ _ _ ranges]
        exact ⟨.inr, fun clean => clean.resolve_left (not_not.mpr admits)⟩

end Ipp

/-! ## CMSIS -/

namespace Cmsis

/-- The allocations of `make_typed`. -/
inductive Site
  | object
  | coeffs
  | state
  | inst
deriving DecidableEq, Repr

/-- A computation on arrays; an access outside an array has no defined
behaviour. -/
def onArrays {α : Type} (result : Option α) : Throwing Site α :=
  match result with
  | some a => return a
  | none => undefinedBehaviour

theorem onArrays_bind {α β : Type} (a : α) (k : α → Throwing Site β) (fails : Site → Bool)
    (l : Ledger) : (onArrays (some a) >>= k) fails l = k a fails l :=
  bind_of_returned rfl

theorem throws_onArrays {α β : Type} {a : α} {k : α → Throwing Site β} {fails : Site → Bool}
    {l : Ledger} (later : (k a).Throws fails l) : (onArrays (some a) >>= k).Throws fails l := by
  unfold Throws
  rw [onArrays_bind]
  exact later

/-- `make_typed`. -/
def createTyped [Zero S] (sizeofReal sizeofInstance : Nat) (lib : CmsisLib S) (taps : List S)
    (tapCount blockSize batch : Nat) : Throwing Site (Result (Owned (CmsisFirState S))) :=
  if tapCount > 2 ^ 16 - 1 then return .error .unsupportedConfig
  else if blockSize > 2 ^ 32 - 1 then return .error .unsupportedConfig
  else do
    allocateObject .object
    let address ← construct
    allocate .coeffs sizeofReal tapCount
    let coeffs ← onArrays (reverseTaps taps tapCount)
    let s := allocated coeffs tapCount blockSize batch
    allocate .state sizeofReal s.state.length
    allocate .inst sizeofInstance batch
    let s ← onArrays (forLoop batch (initLane lib) s)
    return .ok ⟨address, s⟩

/-- `make_backend_plan`. -/
def createPlan (lib : FirPrecision → CmsisLib R) (sizeofInstance : FirPrecision → Nat)
    (cfg : FirPlanConfig R) : Throwing Site (Result (Owned (CmsisFirState R))) :=
  if invalidCommon cfg then return .error .invalidArgument
  else match cfg with
    | { type := .real, precision, taps, tapCount, blockSize, batch, readable := _ } =>
      createTyped precision.sizeofReal (sizeofInstance precision) (lib precision)
        (S := R) (taps.getD []) tapCount blockSize batch
    | { type := .complexRealTaps, .. } => return .error .unsupportedConfig
    | { type := .complex, .. } => return .error .unsupportedConfig

/-- The configurations the backend has a plan for. -/
structure Admits (cfg : FirPlanConfig R) : Prop where
  valid : invalidCommon cfg = false
  real : cfg.type = .real
  tapCount_le : cfg.tapCount ≤ 2 ^ 16 - 1
  blockSize_le : cfg.blockSize ≤ 2 ^ 32 - 1

/-- The allocations of `make_typed` succeed. -/
structure AllMade (fails : Site → Bool) (sizeofReal sizeofInstance tapCount blockSize batch : Nat) :
    Prop where
  object : fails .object = false
  coeffs : Made fails .coeffs sizeofReal tapCount
  state : Made fails .state sizeofReal (mulSize batch (stateLen tapCount blockSize))
  inst : Made fails .inst sizeofInstance batch

section Run

variable [AddCommMonoid S] [Mul S] {lib : CmsisLib S} {blockSize batch : Nat}
  (fails : Site → Bool) (sizeofReal sizeofInstance : Nat) {taps : List S}

omit [Mul S] in
/-- An allocation that fails ends the factory with an exception. -/
theorem createTyped_of_not_made (taps_lt : taps.length < 2 ^ 16) (block_lt : blockSize < 2 ^ 32)
    (failing : ¬ AllMade fails sizeofReal sizeofInstance taps.length blockSize batch) :
    (createTyped sizeofReal sizeofInstance lib taps taps.length blockSize batch).Throws fails {} := by
  rw [createTyped, if_neg (by omega), if_neg (by omega), reverseTaps_eq]
  refine throws_allocateObject fun object => throws_construct (throws_allocate fun coeffs => ?_)
  refine throws_onArrays (throws_allocate fun state => throws_allocate fun inst => ?_)
  rw [length_allocated] at state
  exact (failing ⟨object, coeffs, state, inst⟩).elim

omit [Mul S] in
/-- With all allocations made the instances are initialised. -/
theorem createTyped_of_made (taps_lt : taps.length < 2 ^ 16) (block_lt : blockSize < 2 ^ 32)
    (made : AllMade fails sizeofReal sizeofInstance taps.length blockSize batch) :
    (createTyped sizeofReal sizeofInstance lib taps taps.length blockSize batch).run fails =
      match forLoop batch (initLane lib)
        (allocated taps.reverse taps.length blockSize batch) with
      | some s => (.returned (.ok ⟨0, s⟩), { next := 1, alive := [0], failed := false })
      | none => (.undefined, { next := 1, alive := [0], failed := false }) := by
  rw [createTyped, if_neg (by omega), if_neg (by omega), Throwing.run, allocateObject_bind,
    if_neg (by rw [made.object]; exact Bool.false_ne_true), construct_bind, allocate_bind,
    if_pos made.coeffs, reverseTaps_eq, onArrays_bind, allocate_bind,
    if_pos (by rw [length_allocated]; exact made.state), allocate_bind,
    if_pos made.inst]
  cases forLoop batch (initLane lib) (allocated taps.reverse taps.length blockSize batch) with
  | some s => rfl
  | none => rfl

theorem createTyped_clean_iff (documented : lib.Documented) (taps_pos : 0 < taps.length)
    (taps_lt : taps.length < 2 ^ 16) (block_lt : blockSize < 2 ^ 32)
    (admitted : Prop) :
    Clean admitted
        ((createTyped sizeofReal sizeofInstance lib taps taps.length blockSize batch).run fails) ↔
      AllMade fails sizeofReal sizeofInstance taps.length blockSize batch ∧
        batch * (taps.length + blockSize - 1) < 2 ^ 64 := by
  by_cases made : AllMade fails sizeofReal sizeofInstance taps.length blockSize batch
  · rw [createTyped_of_made fails sizeofReal sizeofInstance taps_lt block_lt made]
    by_cases fits : batch * (taps.length + blockSize - 1) < 2 ^ 64
    · obtain ⟨insts, run, -⟩ :=
        initLanes_of_fits documented taps_pos taps_lt block_lt fits taps.reverse
      rw [run]
      exact iff_of_true ⟨rfl, rfl⟩ ⟨made, fits⟩
    · rw [initLanes_of_wraps taps_pos taps_lt block_lt (Nat.le_of_not_lt fits)]
      exact iff_of_false not_false fun clean => fits clean.2
  · have threw : (createTyped sizeofReal sizeofInstance lib taps taps.length blockSize batch).Throws
        fails {} := createTyped_of_not_made fails sizeofReal sizeofInstance taps_lt block_lt made
    obtain ⟨l, run⟩ := threw
    rw [Throwing.run, run]
    exact iff_of_false not_false fun clean => made clean.1

end Run

/-- The factory ends cleanly exactly for a configuration it rejects, or when none
of its allocations fails and the windows have room in the state vector: an
exception leaves it, and leaves the state behind once that is made. -/
theorem createPlan_clean_iff {lib : FirPrecision → CmsisLib R}
    (documented : ∀ precision, (lib precision).Documented) (sizeofInstance : FirPrecision → Nat)
    (cfg : FirPlanConfig R) (fails : Site → Bool) :
    Clean (Admits cfg) ((createPlan lib sizeofInstance cfg).run fails) ↔
      ¬ Admits cfg ∨
        AllMade fails cfg.precision.sizeofReal (sizeofInstance cfg.precision) cfg.tapCount
            cfg.blockSize cfg.batch ∧
          cfg.batch * (cfg.tapCount + cfg.blockSize - 1) < 2 ^ 64 := by
  unfold createPlan
  cases valid : invalidCommon cfg with
  | true =>
    have rejected : ¬ Admits cfg := fun admits => by simp [admits.valid] at valid
    exact iff_of_true ⟨rfl, .inr rejected⟩ (.inl rejected)
  | false =>
    rw [if_neg Bool.false_ne_true]
    obtain ⟨-, taps_pos, -, -⟩ := invalidCommon_eq_false valid
    rcases cfg with ⟨type, precision, taps, tapCount, blockSize, batch, readable⟩
    have unreal : type ≠ .real → ¬ Admits (⟨type, precision, taps, tapCount, blockSize, batch,
        readable⟩ : FirPlanConfig R) := fun complex admits => complex admits.real
    cases type with
    | complexRealTaps => exact iff_of_true ⟨rfl, .inr (unreal nofun)⟩ (.inl (unreal nofun))
    | complex => exact iff_of_true ⟨rfl, .inr (unreal nofun)⟩ (.inl (unreal nofun))
    | real =>
      cases taps with
      | none => cases valid
      | some ts =>
        have size : List.length (α := R) ts = tapCount := readable ts rfl
        by_cases ranges : tapCount ≤ 2 ^ 16 - 1 ∧ blockSize ≤ 2 ^ 32 - 1
        · have admits : Admits (⟨.real, precision, some ts, tapCount, blockSize, batch, readable⟩ :
              FirPlanConfig R) := ⟨valid, rfl, ranges.1, ranges.2⟩
          subst size
          dsimp only at taps_pos ⊢
          rw [Option.getD_some, createTyped_clean_iff (S := R) fails _ _ (documented precision)
            taps_pos (by omega) (by omega)]
          exact ⟨.inr, fun clean => clean.resolve_left (not_not.mpr admits)⟩
        · have rejected : ¬ Admits (⟨.real, precision, some ts, tapCount, blockSize, batch,
              readable⟩ : FirPlanConfig R) :=
            fun admits => ranges ⟨admits.tapCount_le, admits.blockSize_le⟩
          dsimp only
          unfold createTyped
          by_cases many : tapCount > 2 ^ 16 - 1
          · rw [if_pos many]
            exact iff_of_true ⟨rfl, .inr rejected⟩ (.inl rejected)
          · rw [if_neg many, if_pos (by omega)]
            exact iff_of_true ⟨rfl, .inr rejected⟩ (.inl rejected)

end Cmsis

end DspDispatch.Fir
