import DspDispatch.Fft.Reference
import DspDispatch.Kit.Throwing
import DspDispatch.Pocketfft.Lanes
import DspDispatch.Pocketfft.PlanMemory

/-!
# Making a pocketfft plan

The factory once more, with its allocations: an exception of the library becomes
a status, one of the factory's own allocations does not. The warm-up transform
works on two vectors whose byte counts are computed in `size_t` arithmetic. It has
no defined behaviour where a lane it comes to is not inside them, or where it
leaves an array of the library's own (`WarmUpInside`).

Strides are taken to wrap around with the products they are made of.
-/

namespace DspDispatch.Fft.Pocketfft

open Kit Kit.Throwing
open DspDispatch.Pocketfft (MemStep Built endOf endOf_append endOf_ne_overruns endOf_throws
  arrayBytes allocTmp)

/-! ## The library call -/

/-- The allocations of `make_typed`, and those of the library in their order. -/
inductive Site
  | object
  | shape
  | axes
  | strideIn
  | strideOut
  | warmIn
  | warmOut
  | library (k : Nat)
deriving DecidableEq, Repr

/-- What a build of the library fixes: the lanes of a vector (`VLEN`), and what
`aligned_alloc` asks for beyond an array. -/
structure Target where
  vlen : FftPrecision → Nat
  align : Nat

section WarmUp

variable (target : Target) (cfg : FftPlanConfig)

/-- The constructor of the plan. -/
def planSteps : List MemStep :=
  match cfg.type with
  | .complex =>
    DspDispatch.Pocketfft.PocketfftC.steps target.align cfg.precision.sizeofReal cfg.length
  | _ => DspDispatch.Pocketfft.PocketfftR.steps target.align cfg.precision.sizeofReal cfg.length

/-- An `exec` of `lanes` lanes. -/
def execSteps (lanes : Nat) : List MemStep :=
  let rb := cfg.precision.sizeofReal
  match cfg.type with
  | .complex => DspDispatch.Pocketfft.PocketfftC.execSteps target.align rb cfg.length lanes
  | _ => DspDispatch.Pocketfft.PocketfftR.execSteps target.align rb cfg.length lanes

/-- The bytes of an element that `exec` works on. -/
def elemSize : Nat :=
  match cfg.type with
  | .complex => 2 * cfg.precision.sizeofReal
  | _ => cfg.precision.sizeofReal

/-- `alloc_tmp`, in bytes. -/
def tmpBytes : Nat :=
  mulSize (allocTmp [cfg.batch, cfg.length] cfg.length (target.vlen cfg.precision)) (elemSize cfg)

/-- The bytes of an input and of an output lane. -/
def laneBytes : Nat × Nat :=
  (cfg.kind.inLen cfg.length * cfg.precision.sizeofReal,
    cfg.kind.outLen cfg.length * cfg.precision.sizeofReal)

/-- `it.remaining()` before the first lane: the lanes of the input array. -/
def inputLanes : Nat :=
  let len := match cfg.type with
    | .complexToReal => cfg.length / 2 + 1
    | _ => cfg.length
  prod [cfg.batch, len] / len

/-- The first lane and the number of lanes of every round of the loops. -/
def rounds (vlen lanes : Nat) : List (Nat × Nat) :=
  let vectors := if 1 < vlen then lanes / vlen else 0
  (List.range' 0 vectors).map (fun r => (r * vlen, vlen)) ++
    (List.range' 0 (lanes - vectors * vlen)).map fun r => (vectors * vlen + r, 1)

/-- A round of the loops: the lanes are copied to `storage` and back. A single
complex lane is copied to the output and transformed there, its elements being
adjacent. -/
def roundSteps (round : Nat × Nat) : List MemStep :=
  let input := decide ((round.1 + round.2) * (laneBytes cfg).1 ≤ (warmBytes cfg).1)
  let output := decide ((round.1 + round.2) * (laneBytes cfg).2 ≤ (warmBytes cfg).2)
  let room := decide (round.2 * (cfg.length * elemSize cfg) ≤
    arrayBytes target.align (tmpBytes target cfg) 1)
  if cfg.type = .complex ∧ round.2 = 1 then
    .access (input && output) :: execSteps target cfg 1
  else .access (input && room) :: (execSteps target cfg round.2 ++ [.access output])

/-- The library call of the warm-up. A plan that is in the cache is not constructed. -/
def warmSteps (cached : Bool) : List MemStep :=
  if prod [cfg.batch, cfg.length] = 0 then []
  else .small :: ((if cached then [] else planSteps target cfg) ++
    .array (tmpBytes target cfg) 1 :: .small ::
      (rounds (target.vlen cfg.precision) (inputLanes cfg)).flatMap (roundSteps target cfg))

end WarmUp

/-- A library call. -/
def libraryCall (align : Nat) (steps : List MemStep) : Throwing Site Unit := fun fails l =>
  match endOf align (fun k => fails (.library k)) steps with
  | .made => (.returned (), l)
  | .throws => (.threw, { l with failed := true })
  | .overruns => (.undefined, l)

/-! ## The factory -/

section Factory

variable (target : Target) (cached : Bool) (cfg : FftPlanConfig)

/-- `pocket_run` on the buffers of the warm-up. -/
def warmRun : Throwing Site Status :=
  catching
    (do
      libraryCall target.align (warmSteps target cfg cached)
      return .ok)
    (return .backendError)

/-- `make_typed`. -/
def createTyped (inverse : Bool) : Throwing Site (Result (Owned PocketState)) := do
  allocateObject .object
  let address ← construct
  let s := state cfg inverse
  allocate .shape 8 s.shape.length
  allocate .axes 8 s.axes.length
  allocate .strideIn 8 s.strideIn.length
  allocate .strideOut 8 s.strideOut.length
  allocate .warmIn 1 (warmBytes cfg).1
  allocate .warmOut 1 (warmBytes cfg).2
  let st ← warmRun target cached cfg
  if st ≠ .ok then do
    destroy address
    return .error .backendError
  else
    return .ok ⟨address, s⟩

/-- `make_backend_plan`. -/
def createPlan : Throwing Site (Result (Owned PocketState)) :=
  match checkSizes cfg with
  | .error st => return .error st
  | .ok _ =>
    match resolveInverse cfg with
    | .error st => return .error st
    | .ok inverse => createTyped target cached cfg inverse

end Factory

/-! ## The buffers of the warm-up -/

/-- The buffers of the warm-up are as long as the lanes of the request. -/
def WarmCovers (cfg : FftPlanConfig) : Prop :=
  cfg.inSize * cfg.precision.sizeofReal ≤ (warmBytes cfg).1 ∧
    cfg.outSize * cfg.precision.sizeofReal ≤ (warmBytes cfg).2

instance (cfg : FftPlanConfig) : Decidable (WarmCovers cfg) := inferInstanceAs (Decidable (_ ∧ _))

/-- The byte counts are the bytes of the lanes, in `size_t` arithmetic. -/
theorem warmBytes_eq (cfg : FftPlanConfig) :
    warmBytes cfg = (cfg.inSize * cfg.precision.sizeofReal % 2 ^ 64,
      cfg.outSize * cfg.precision.sizeofReal % 2 ^ 64) := by
  unfold warmBytes FftPlanConfig.inSize FftPlanConfig.outSize FftPlanConfig.kind
  cases cfg.type with
  | complex =>
    simp only [DftKind.inLen, DftKind.outLen]
    congr 2 <;> ring
  | realToComplex =>
    simp only [DftKind.inLen, DftKind.outLen]
    congr 2 <;> ring
  | complexToReal =>
    simp only [DftKind.inLen, DftKind.outLen]
    congr 2 <;> ring

theorem warmCovers_iff {cfg : FftPlanConfig} :
    WarmCovers cfg ↔ cfg.inSize * cfg.precision.sizeofReal < 2 ^ 64 ∧
      cfg.outSize * cfg.precision.sizeofReal < 2 ^ 64 := by
  rw [WarmCovers, warmBytes_eq]
  constructor
  · intro covers
    exact ⟨by have := covers.1; omega, by have := covers.2; omega⟩
  · intro small
    exact ⟨by rw [Nat.mod_eq_of_lt small.1], by rw [Nat.mod_eq_of_lt small.2]⟩

theorem prod_shape (cfg : FftPlanConfig) (inverse : Bool) :
    prod (state cfg inverse).shape = cfg.batch * cfg.length % 2 ^ 64 := by
  simp [prod, state]

/-- The allocations before the warm-up are made. -/
structure Reaches (fails : Site → Bool) (cfg : FftPlanConfig) : Prop where
  object : fails .object = false
  shape : Made fails .shape 8 2
  axes : Made fails .axes 8 1
  strideIn : Made fails .strideIn 8 2
  strideOut : Made fails .strideOut 8 2
  warmIn : Made fails .warmIn 1 (warmBytes cfg).1
  warmOut : Made fails .warmOut 1 (warmBytes cfg).2

theorem length_strides (cfg : FftPlanConfig) (inverse : Bool) :
    (state cfg inverse).strideIn.length = 2 ∧ (state cfg inverse).strideOut.length = 2 := by
  unfold state
  cases cfg.type with
  | complex => exact ⟨rfl, rfl⟩
  | realToComplex => exact ⟨rfl, rfl⟩
  | complexToReal => exact ⟨rfl, rfl⟩

/-! ## Clean creations -/

/-- Every access of the warm-up that the library comes to is inside its buffer or
array. -/
def WarmUpInside (target : Target) (cached : Bool) (cfg : FftPlanConfig) (fails : Site → Bool) :
    Prop :=
  ∀ past inside rest, warmSteps target cfg cached = past ++ .access inside :: rest →
    endOf target.align (fun k => fails (.library k)) past = .made → inside = true

section Creation

variable {target : Target} {cached : Bool} {cfg : FftPlanConfig} {fails : Site → Bool}

theorem warmUpInside_iff_endOf : WarmUpInside target cached cfg fails ↔
    endOf target.align (fun k => fails (.library k)) (warmSteps target cfg cached) ≠ .overruns :=
  (endOf_ne_overruns _).symm

/-- One of the factory's own allocations that fails ends it with an exception. -/
theorem createTyped_of_not_reached (target : Target) (cached inverse : Bool)
    (failing : ¬ Reaches fails cfg) :
    (createTyped target cached cfg inverse).Throws fails {} := by
  obtain ⟨inward, outward⟩ := length_strides cfg inverse
  refine throws_allocateObject fun object => throws_construct ?_
  refine throws_allocate fun shape => throws_allocate fun axes => ?_
  refine throws_allocate fun strideIn => throws_allocate fun strideOut => ?_
  refine throws_allocate fun warmIn => throws_allocate fun warmOut => ?_
  rw [inward] at strideIn
  rw [outward] at strideOut
  exact (failing ⟨object, shape, axes, strideIn, strideOut, warmIn, warmOut⟩).elim

/-- Otherwise the warm-up decides. -/
theorem createTyped_of_reached (inverse : Bool) (reaches : Reaches fails cfg) :
    (createTyped target cached cfg inverse).run fails =
      (warmRun target cached cfg >>= fun st =>
        if st ≠ .ok then do
          destroy 0
          return .error .backendError
        else
          return .ok ⟨0, state cfg inverse⟩) fails { next := 1, alive := [0] } := by
  obtain ⟨inward, outward⟩ := length_strides cfg inverse
  have shape : Made fails .shape 8 (state cfg inverse).shape.length := reaches.shape
  have axes : Made fails .axes 8 (state cfg inverse).axes.length := reaches.axes
  rw [createTyped, Throwing.run, allocateObject_bind,
    if_neg (by rw [reaches.object]; exact Bool.false_ne_true), construct_bind, allocate_bind,
    if_pos shape, allocate_bind, if_pos axes, allocate_bind,
    if_pos (by rw [inward]; exact reaches.strideIn), allocate_bind,
    if_pos (by rw [outward]; exact reaches.strideOut), allocate_bind, if_pos reaches.warmIn,
    allocate_bind, if_pos reaches.warmOut]

/-- What the warm-up answers, by the way its library call ends. -/
theorem warmRun_eq (target : Target) (cached : Bool) (cfg : FftPlanConfig) (fails : Site → Bool)
    (l : Ledger) : warmRun target cached cfg fails l =
    match endOf target.align (fun k => fails (.library k)) (warmSteps target cfg cached) with
    | .made => (.returned .ok, l)
    | .throws => (.returned .backendError, { l with failed := true })
    | .overruns => (.undefined, l) := by
  unfold warmRun catching
  cases ended : endOf target.align (fun k => fails (.library k)) (warmSteps target cfg cached) with
  | made =>
    have call : libraryCall target.align (warmSteps target cfg cached) fails l =
        (.returned (), l) := by rw [libraryCall, ended]
    rw [bind_of_returned call]
    rfl
  | throws =>
    have call : libraryCall target.align (warmSteps target cfg cached) fails l =
        (.threw, { l with failed := true }) := by rw [libraryCall, ended]
    rw [bind_of_threw call]
    rfl
  | overruns =>
    have call : libraryCall target.align (warmSteps target cfg cached) fails l =
        (.undefined, l) := by rw [libraryCall, ended]
    rw [bind_of_undefined call]

/-- The end of a factory that comes to its warm-up. -/
theorem createTyped_eq (inverse : Bool) (reaches : Reaches fails cfg) :
    (createTyped target cached cfg inverse).run fails =
      match endOf target.align (fun k => fails (.library k)) (warmSteps target cfg cached) with
      | .made => (.returned (.ok ⟨0, state cfg inverse⟩), { next := 1, alive := [0] })
      | .throws => (.returned (.error .backendError), { next := 1, alive := [], failed := true })
      | .overruns => (.undefined, { next := 1, alive := [0] }) := by
  have warm := warmRun_eq target cached cfg fails { next := 1, alive := [0] }
  rw [createTyped_of_reached inverse reaches]
  cases ended : endOf target.align (fun k => fails (.library k)) (warmSteps target cfg cached) with
  | made =>
    rw [ended] at warm
    rw [bind_of_returned warm]
    rfl
  | throws =>
    rw [ended] at warm
    rw [bind_of_returned warm]
    rfl
  | overruns =>
    rw [ended] at warm
    rw [bind_of_undefined warm]

/-- A configuration that the checks let through comes to `make_typed`. -/
theorem createPlan_of_valid (valid : cfg.Valid) :
    createPlan target cached cfg = createTyped target cached cfg cfg.isInverse := by
  rw [createPlan, checkSizes_eq_ok.mpr ⟨valid.length_pos, valid.batch_pos⟩]
  dsimp only
  rw [resolveInverse_eq_ok.mpr ⟨rfl, valid.direction⟩]

/-- Any other is answered with a status. -/
theorem createPlan_of_not_valid (target : Target) (cached : Bool) (invalid : ¬ cfg.Valid) :
    ∃ st, createPlan target cached cfg = return .error st := by
  cases sizes : checkSizes cfg with
  | error st => exact ⟨st, by rw [createPlan, sizes]⟩
  | ok _ =>
    cases resolved : resolveInverse cfg with
    | error st => exact ⟨st, by rw [createPlan, sizes]; dsimp only; rw [resolved]⟩
    | ok inverse =>
      obtain ⟨rfl, direction⟩ := resolveInverse_eq_ok.mp resolved
      obtain ⟨length_pos, batch_pos⟩ := checkSizes_eq_ok.mp sizes
      exact absurd ⟨length_pos, batch_pos, direction⟩ invalid

/-- The factory ends cleanly exactly for a configuration it rejects, or when none
of its own allocations fails and the warm-up stays inside its buffers and arrays
as far as the library comes. -/
theorem createPlan_clean_iff :
    Clean cfg.Valid ((createPlan target cached cfg).run fails) ↔
      ¬ cfg.Valid ∨ Reaches fails cfg ∧ WarmUpInside target cached cfg fails := by
  by_cases valid : cfg.Valid
  · rw [createPlan_of_valid valid, or_iff_right (not_not_intro valid), warmUpInside_iff_endOf]
    by_cases reaches : Reaches fails cfg
    · rw [createTyped_eq cfg.isInverse reaches, and_iff_right reaches]
      cases endOf target.align (fun k => fails (.library k)) (warmSteps target cfg cached) with
      | made => exact iff_of_true ⟨rfl, rfl⟩ (by decide)
      | throws => exact iff_of_true ⟨rfl, .inl rfl⟩ (by decide)
      | overruns => exact iff_of_false not_false fun defined => defined rfl
    · obtain ⟨l, threw⟩ := createTyped_of_not_reached target cached cfg.isInverse
        reaches
      rw [Throwing.run, threw]
      exact iff_of_false not_false fun clean => reaches clean.1
  · obtain ⟨st, answered⟩ := createPlan_of_not_valid target cached valid
    rw [answered]
    exact iff_of_true ⟨rfl, .inr valid⟩ (.inl valid)

end Creation

/-! ## The plan that is made -/

/-- A plan that is in the cache has been constructed before. -/
def Constructed (target : Target) (cached : Bool) (cfg : FftPlanConfig) : Prop :=
  cached = true → endOf target.align (fun _ => false) (planSteps target cfg) = .made

section Made

variable {target : Target} {cached : Bool} {cfg : FftPlanConfig} {fails : Site → Bool}

/-- A constructor that finds no algorithm throws at once. -/
theorem planSteps_of_refused (refused : (planKindOf cfg).choice cfg.length = none) :
    planSteps target cfg = [.refusal] := by
  unfold planSteps
  unfold PlanKind.choice planKindOf at refused
  cases type : cfg.type with
  | complex =>
    simp only [type, ne_eq, not_true_eq_false, decide_false, Bool.false_eq_true,
      if_false] at refused
    simp only [DspDispatch.Pocketfft.PocketfftC.steps, refused, Option.elim_none]
  | realToComplex =>
    simp only [type, ne_eq, reduceCtorEq, not_false_eq_true, decide_true, if_true] at refused
    simp only [DspDispatch.Pocketfft.PocketfftR.steps, refused, Option.elim_none]
  | complexToReal =>
    simp only [type, ne_eq, reduceCtorEq, not_false_eq_true, decide_true, if_true] at refused
    simp only [DspDispatch.Pocketfft.PocketfftR.steps, refused, Option.elim_none]

/-- The warm-up of a length that is refused throws, whatever allocations fail. -/
theorem endOf_warmSteps_of_refused (refused : (planKindOf cfg).choice cfg.length = none)
    (samples : prod [cfg.batch, cfg.length] ≠ 0) (fails : Nat → Bool) :
    endOf target.align fails (warmSteps target cfg false) = .throws := by
  refine endOf_throws ?_
  rw [warmSteps, if_neg samples, planSteps_of_refused refused]
  rfl

/-- What the factory returns is the state of a plan that it makes in every process. -/
theorem createPlan_returned (constructed : Constructed target cached cfg)
    {object : Owned PocketState} {l : Ledger}
    (returned : (createPlan target cached cfg).run fails = (.returned (.ok object), l))
    [Field K] (lib : FftPrecision → PocketLib K) (w : World K) :
    ∃ plan, (makeBackendPlan lib cfg w).1 = .ok plan ∧ plan.state = object.contents := by
  have valid : cfg.Valid := by
    by_contra invalid
    obtain ⟨st, answered⟩ := createPlan_of_not_valid target cached invalid
    rw [answered] at returned
    cases returned
  have reaches : Reaches fails cfg := by
    by_contra failing
    obtain ⟨l', threw⟩ := createTyped_of_not_reached target cached cfg.isInverse
      failing
    rw [createPlan_of_valid valid, Throwing.run, threw] at returned
    cases returned
  rw [createPlan_of_valid valid, createTyped_eq cfg.isInverse reaches] at returned
  have accepted : Accepted cfg := by
    by_contra rejected
    obtain ⟨samples, thrown⟩ := not_or.mp rejected
    have refused := Option.not_isSome_iff_eq_none.mp thrown
    cases cached with
    | true =>
      have made := constructed rfl
      rw [planSteps_of_refused refused] at made
      cases made
    | false =>
      rw [endOf_warmSteps_of_refused refused samples] at returned
      cases returned
  obtain ⟨plan, made⟩ := exists_plan lib w valid accepted
  refine ⟨plan, made, ?_⟩
  rw [(makeBackendPlan_ok made).2.1]
  split at returned
  · cases returned
    rfl
  · cases returned
  · cases returned

end Made

/-! ## Short transforms -/

/-- The lanes that the library comes to are inside the buffers of the warm-up. -/
def LanesInside (cfg : FftPlanConfig) : Prop :=
  inputLanes cfg * (laneBytes cfg).1 ≤ (warmBytes cfg).1 ∧
    inputLanes cfg * (laneBytes cfg).2 ≤ (warmBytes cfg).2

instance (cfg : FftPlanConfig) : Decidable (LanesInside cfg) := inferInstanceAs (Decidable (_ ∧ _))

section Short

variable {target : Target} {cached : Bool} {cfg : FftPlanConfig} {fails : Site → Bool}

/-- The rounds make up the lanes. -/
theorem mem_rounds {vlen lanes : Nat} {round : Nat × Nat} (member : round ∈ rounds vlen lanes) :
    round.1 + round.2 ≤ lanes ∧ (round.2 = 1 ∨ round.2 = vlen ∧ vlen ≤ lanes) := by
  rcases List.mem_append.mp member with vector | single
  · obtain ⟨r, below, rfl⟩ := List.mem_map.mp vector
    rw [List.mem_range'_1] at below
    split at below
    · have last : (r + 1) * vlen ≤ lanes / vlen * vlen := Nat.mul_le_mul_right vlen (by omega)
      have all : lanes / vlen * vlen ≤ lanes := Nat.div_mul_le_self lanes vlen
      rw [Nat.add_mul, Nat.one_mul] at last
      refine ⟨last.trans all, .inr ⟨rfl, ?_⟩⟩
      by_contra few
      rw [Nat.div_eq_of_lt (Nat.not_le.mp few)] at below
      omega
    · omega
  · obtain ⟨r, below, rfl⟩ := List.mem_map.mp single
    rw [List.mem_range'_1] at below
    exact ⟨by dsimp only; omega, .inl rfl⟩

theorem exists_last_round (vlen : Nat) {lanes : Nat} (some : 0 < lanes) :
    ∃ round ∈ rounds vlen lanes, round.1 + round.2 = lanes := by
  have all : (if 1 < vlen then lanes / vlen else 0) * vlen ≤ lanes := by
    split
    · exact Nat.div_mul_le_self lanes vlen
    · omega
  unfold rounds
  generalize vectors_eq : (if 1 < vlen then lanes / vlen else 0) = vectors at all ⊢
  rcases all.eq_or_lt with whole | more
  · obtain ⟨last, rfl⟩ : ∃ last, vectors = last + 1 :=
      Nat.exists_eq_add_one.mpr (Nat.pos_of_ne_zero fun none => by subst none; omega)
    refine ⟨(last * vlen, vlen), List.mem_append_left _ (List.mem_map.mpr ⟨last, ?_, rfl⟩), ?_⟩
    · rw [List.mem_range'_1]
      omega
    · rw [← whole, Nat.add_mul, Nat.one_mul]
  · refine ⟨(vectors * vlen + (lanes - vectors * vlen - 1), 1), List.mem_append_right _
      (List.mem_map.mpr ⟨lanes - vectors * vlen - 1, ?_, rfl⟩), ?_⟩
    · rw [List.mem_range'_1]
      omega
    · dsimp only
      omega

theorem prod_pair (a b : Nat) : prod [a, b] = a * b % 2 ^ 64 := by simp [prod]

theorem sizeofReal_le (precision : FftPrecision) : precision.sizeofReal ≤ 8 := by
  cases precision with
  | f32 => decide
  | f64 => decide

theorem elemSize_le (cfg : FftPlanConfig) : elemSize cfg ≤ 16 := by
  have width := sizeofReal_le cfg.precision
  unfold elemSize
  split
  · omega
  · omega

/-- The lanes that fit the output buffer are lanes of `alloc_tmp`. -/
theorem inputLanes_le (positive : 0 < cfg.length)
    (inside : inputLanes cfg * (laneBytes cfg).2 ≤ (warmBytes cfg).2) :
    inputLanes cfg ≤ prod [cfg.batch, cfg.length] / cfg.length := by
  cases type : cfg.type with
  | complex => simp only [inputLanes, type, le_refl]
  | realToComplex => simp only [inputLanes, type, le_refl]
  | complexToReal =>
    have width : 0 < cfg.precision.sizeofReal := by cases cfg.precision <;> decide
    have lane : (laneBytes cfg).2 = cfg.length * cfg.precision.sizeofReal := by
      rw [laneBytes, FftPlanConfig.kind, type]
      rfl
    have wrapped : (warmBytes cfg).2 ≤
        cfg.batch * cfg.length % 2 ^ 64 * cfg.precision.sizeofReal := by
      have second : (warmBytes cfg).2 =
          cfg.batch * cfg.length * cfg.precision.sizeofReal % 2 ^ 64 := by
        rw [warmBytes, type, Nat.mul_comm cfg.batch]
      rw [second, ← Nat.mod_mul_mod]
      exact Nat.mod_le _ _
    rw [lane, ← Nat.mul_assoc] at inside
    rw [prod_pair, Nat.le_div_iff_mul_le positive]
    exact Nat.le_of_mul_le_mul_right (inside.trans wrapped) width

/-- A short transform on a usual target. -/
structure ShortOn (target : Target) (cfg : FftPlanConfig) : Prop where
  align_le : target.align ≤ 64
  vlen_pos : 0 < target.vlen cfg.precision
  vlen_le : target.vlen cfg.precision ≤ 16
  length_pos : 0 < cfg.length
  length_lt : cfg.length < 2 ^ 50

theorem ShortOn.planSteps (short : ShortOn target cfg) :
    ∀ step ∈ planSteps target cfg, step.Modest := by
  obtain ⟨narrow, -, -, positive, small⟩ := short
  have width := sizeofReal_le cfg.precision
  unfold Pocketfft.planSteps
  cases cfg.type with
  | complex => exact DspDispatch.Pocketfft.PocketfftC.modest narrow width positive small
  | realToComplex => exact DspDispatch.Pocketfft.PocketfftR.modest narrow width positive small
  | complexToReal => exact DspDispatch.Pocketfft.PocketfftR.modest narrow width positive small

theorem ShortOn.execSteps (short : ShortOn target cfg) {lanes : Nat} (few : lanes ≤ 16) :
    ∀ step ∈ execSteps target cfg lanes, step.Modest := by
  obtain ⟨narrow, -, -, positive, small⟩ := short
  have width := sizeofReal_le cfg.precision
  unfold Pocketfft.execSteps
  cases cfg.type with
  | complex => exact DspDispatch.Pocketfft.PocketfftC.modest_exec narrow width few positive small
  | realToComplex =>
    exact DspDispatch.Pocketfft.PocketfftR.modest_exec narrow width few positive small
  | complexToReal =>
    exact DspDispatch.Pocketfft.PocketfftR.modest_exec narrow width few positive small

/-- The bytes of `storage` do not wrap around. -/
theorem ShortOn.tmpBytes_eq (short : ShortOn target cfg) :
    tmpBytes target cfg = allocTmp [cfg.batch, cfg.length] cfg.length
      (target.vlen cfg.precision) * elemSize cfg ∧ tmpBytes target cfg ≤ 2 ^ 58 := by
  have lanes : (if target.vlen cfg.precision ≤ prod [cfg.batch, cfg.length] / cfg.length then
      target.vlen cfg.precision else 1) ≤ 16 := by
    split
    · exact short.vlen_le
    · decide
  have bound : allocTmp [cfg.batch, cfg.length] cfg.length (target.vlen cfg.precision) *
      elemSize cfg ≤ 2 ^ 50 * (16 * 16) := by
    rw [allocTmp, Nat.mul_assoc]
    exact Nat.mul_le_mul short.length_lt.le (Nat.mul_le_mul lanes (elemSize_le cfg))
  have exactly : tmpBytes target cfg = allocTmp [cfg.batch, cfg.length] cfg.length
      (target.vlen cfg.precision) * elemSize cfg := mulSize_of_lt (by omega)
  exact ⟨exactly, by omega⟩

/-- `storage` has room for the lanes of a round, if it was made for no fewer lanes than
there are. -/
theorem ShortOn.room (short : ShortOn target cfg)
    (enough : inputLanes cfg ≤ prod [cfg.batch, cfg.length] / cfg.length) {round : Nat × Nat}
    (member : round ∈ rounds (target.vlen cfg.precision) (inputLanes cfg)) :
    round.2 * (cfg.length * elemSize cfg) ≤ arrayBytes target.align (tmpBytes target cfg) 1 := by
  have narrow := short.align_le
  obtain ⟨exactly, bound⟩ := short.tmpBytes_eq
  have lanes : round.2 ≤ if target.vlen cfg.precision ≤ prod [cfg.batch, cfg.length] / cfg.length
      then target.vlen cfg.precision else 1 := by
    rcases (mem_rounds member).2 with single | ⟨whole, room⟩
    · rw [single]
      split
      · exact short.vlen_pos
      · exact le_rfl
    · rw [if_pos (room.trans enough), whole]
  have capacity : arrayBytes target.align (tmpBytes target cfg) 1 = tmpBytes target cfg := by
    rw [arrayBytes, mulSize_of_lt (by omega), if_pos (by omega), Nat.mul_one]
  rw [capacity, exactly, allocTmp, ← Nat.mul_assoc, Nat.mul_comm round.2]
  exact Nat.mul_le_mul_right _ (Nat.mul_le_mul_left _ lanes)

theorem ShortOn.round_le (short : ShortOn target cfg) {round : Nat × Nat}
    (member : round ∈ rounds (target.vlen cfg.precision) (inputLanes cfg)) : round.2 ≤ 16 := by
  rcases (mem_rounds member).2 with single | ⟨whole, -⟩
  · omega
  · exact whole.le.trans short.vlen_le

/-- The steps of a round are modest but for its accesses to the buffers. -/
theorem ShortOn.roundSteps (short : ShortOn target cfg) {round : Nat × Nat} (few : round.2 ≤ 16) :
    ∀ step ∈ roundSteps target cfg round, step.Modest ∨ step = .access false := by
  have access : ∀ inside,
      (MemStep.access inside).Modest ∨ MemStep.access inside = .access false := by
    intro inside
    cases inside with
    | true => exact .inl rfl
    | false => exact .inr rfl
  unfold Pocketfft.roundSteps
  dsimp only
  split
  · simp only [List.forall_mem_cons]
    exact ⟨access _, fun step member => .inl (short.execSteps (by decide) step member)⟩
  · simp only [List.forall_mem_cons, List.forall_mem_append, List.not_mem_nil, false_implies,
      implies_true, and_true]
    exact ⟨access _, fun step member => .inl (short.execSteps few step member), access _⟩

/-- All of them are modest if the lanes are inside the buffers and have room. -/
theorem ShortOn.modest_roundSteps (short : ShortOn target cfg) {round : Nat × Nat}
    (few : round.2 ≤ 16)
    (room : round.2 * (cfg.length * elemSize cfg) ≤ arrayBytes target.align (tmpBytes target cfg) 1)
    (input : (round.1 + round.2) * (laneBytes cfg).1 ≤ (warmBytes cfg).1)
    (output : (round.1 + round.2) * (laneBytes cfg).2 ≤ (warmBytes cfg).2) :
    ∀ step ∈ Pocketfft.roundSteps target cfg round, step.Modest := by
  simp only [Pocketfft.roundSteps, room, input, output, decide_true, Bool.and_true]
  split
  · exact List.forall_mem_cons.mpr ⟨rfl, short.execSteps (by decide)⟩
  · simp only [List.forall_mem_cons, List.forall_mem_append, List.not_mem_nil, false_implies,
      implies_true, and_true]
    exact ⟨rfl, short.execSteps few, rfl⟩

/-- And only then. -/
theorem lanes_of_modest {round : Nat × Nat}
    (modest : ∀ step ∈ roundSteps target cfg round, step.Modest) :
    (round.1 + round.2) * (laneBytes cfg).1 ≤ (warmBytes cfg).1 ∧
      (round.1 + round.2) * (laneBytes cfg).2 ≤ (warmBytes cfg).2 := by
  unfold roundSteps at modest
  dsimp only at modest
  split at modest
  · have access := modest _ List.mem_cons_self
    simpa [MemStep.Modest] using access
  · have first := modest _ List.mem_cons_self
    have last := modest _
      (List.mem_cons_of_mem _ (List.mem_append_right _ (List.mem_singleton_self _)))
    rw [MemStep.Modest, Bool.and_eq_true, decide_eq_true_eq] at first
    rw [MemStep.Modest, decide_eq_true_eq] at last
    exact ⟨first.1, last⟩

/-- Outside the rounds all steps of the warm-up are modest. -/
theorem ShortOn.forall_warmSteps (short : ShortOn target cfg) (cached : Bool)
    {P : MemStep → Prop} (of_modest : ∀ step, step.Modest → P step)
    (samples : prod [cfg.batch, cfg.length] ≠ 0) :
    (∀ step ∈ warmSteps target cfg cached, P step) ↔
      ∀ round ∈ rounds (target.vlen cfg.precision) (inputLanes cfg),
        ∀ step ∈ Pocketfft.roundSteps target cfg round, P step := by
  obtain ⟨-, bound⟩ := short.tmpBytes_eq
  have plan : ∀ step ∈ if cached then [] else Pocketfft.planSteps target cfg, P step := by
    split
    · simp
    · exact fun step member => of_modest step (short.planSteps step member)
  have storage : P (.array (tmpBytes target cfg) 1) := of_modest _ (by rw [MemStep.Modest]; omega)
  rw [warmSteps, if_neg samples]
  simp only [List.forall_mem_cons, List.forall_mem_append, List.mem_flatMap]
  constructor
  · rintro ⟨-, -, -, -, each⟩ round member step own
    exact each step ⟨round, member, own⟩
  · intro each
    refine ⟨of_modest _ trivial, plan, storage, of_modest _ trivial, ?_⟩
    rintro step ⟨round, member, own⟩
    exact each round member step own

/-- All are modest exactly if the lanes are inside the buffers. -/
theorem ShortOn.modest_warmSteps_iff (short : ShortOn target cfg)
    (samples : prod [cfg.batch, cfg.length] ≠ 0) :
    (∀ step ∈ warmSteps target cfg cached, step.Modest) ↔ LanesInside cfg := by
  rw [short.forall_warmSteps cached (fun _ => id) samples]
  constructor
  · intro modest
    rcases Nat.eq_zero_or_pos (inputLanes cfg) with none | some
    · exact ⟨by rw [none, Nat.zero_mul]; exact Nat.zero_le _,
        by rw [none, Nat.zero_mul]; exact Nat.zero_le _⟩
    · obtain ⟨round, member, last⟩ := exists_last_round (target.vlen cfg.precision) some
      have lanes := lanes_of_modest (modest round member)
      rwa [last] at lanes
  · rintro ⟨input, output⟩ round member
    have lanes := (mem_rounds member).1
    have enough := inputLanes_le short.length_pos output
    exact short.modest_roundSteps (short.round_le member) (short.room enough member)
      ((Nat.mul_le_mul_right _ lanes).trans input) ((Nat.mul_le_mul_right _ lanes).trans output)

/-- The warm-up of a short transform stays inside if all lanes do, whatever fails. -/
theorem ShortOn.warmUpInside (short : ShortOn target cfg)
    (inside : prod [cfg.batch, cfg.length] = 0 ∨ LanesInside cfg) :
    WarmUpInside target cached cfg fails := by
  rw [warmUpInside_iff_endOf]
  by_cases samples : prod [cfg.batch, cfg.length] = 0
  · rw [warmSteps, if_pos samples]
    exact nofun
  · exact (DspDispatch.Pocketfft.endOf_of_modest short.align_le
      ((short.modest_warmSteps_iff samples).mpr (inside.resolve_left samples))).1

/-- If no allocation of the library fails it stays inside only then. -/
theorem ShortOn.warmUpInside_iff (short : ShortOn target cfg)
    (nothing : ∀ k, fails (.library k) = false) :
    WarmUpInside target cached cfg fails ↔
      prod [cfg.batch, cfg.length] = 0 ∨ LanesInside cfg := by
  refine ⟨fun inside => ?_, short.warmUpInside⟩
  by_cases samples : prod [cfg.batch, cfg.length] = 0
  · exact .inl samples
  · have steps := (short.forall_warmSteps cached (fun _ => .inl) samples).mpr
      fun round member => short.roundSteps (short.round_le member)
    rw [warmUpInside_iff_endOf,
      DspDispatch.Pocketfft.endOf_ne_overruns_of_modest short.align_le steps nothing] at inside
    exact .inr ((short.modest_warmSteps_iff samples).mp inside)

end Short

/-! ## The buffers of the warm-up cover the lanes -/

/-- The library call of the warm-up throws although no allocation fails: the length is
refused, or an array is larger than any object can be, before an access goes outside. -/
def LibraryThrows (target : Target) (cfg : FftPlanConfig) : Prop :=
  endOf target.align (fun _ => false) (warmSteps target cfg false) = .throws

instance (target : Target) (cfg : FftPlanConfig) : Decidable (LibraryThrows target cfg) :=
  inferInstanceAs (Decidable (_ = _))

section Throwing

variable {target : Target} {cached : Bool} {cfg : FftPlanConfig}

/-- The complex constructor's refused lengths are among them, whatever the type. -/
theorem libraryThrows_of_refused (fits : cfg.length < 2 ^ 63)
    (refused : DspDispatch.Pocketfft.PocketfftC.Refused cfg.length)
    (samples : prod [cfg.batch, cfg.length] ≠ 0) : LibraryThrows target cfg := by
  refine endOf_warmSteps_of_refused ?_ samples _
  rw [PlanKind.choice, DspDispatch.Pocketfft.PocketfftC.choice_of_refused fits refused,
    DspDispatch.Pocketfft.PocketfftR.choice_of_refused fits refused, ite_self]

/-- Then the call throws whatever fails, and if the plan is cached. -/
theorem LibraryThrows.endOf_eq (throws : LibraryThrows target cfg)
    (constructed : Constructed target cached cfg) (fails : Nat → Bool) :
    endOf target.align fails (warmSteps target cfg cached) = .throws := by
  refine endOf_throws ?_
  cases cached with
  | false => exact throws
  | true =>
    have made := constructed rfl
    unfold LibraryThrows warmSteps at throws
    unfold warmSteps
    split at throws
    · cases throws
    · rename_i samples
      rw [if_neg samples]
      rw [if_neg Bool.false_ne_true, endOf, endOf_append, made] at throws
      exact throws

end Throwing

/-- What is expected of the warm-up of a request: whenever it is reached and the
library neither returns early nor throws, its buffers are as long as the lanes. -/
def WarmUpInBounds (target : Target) (cfg : FftPlanConfig) (inverse : Bool) : Prop :=
  ∀ (cached : Bool) (fails : Site → Bool), Constructed target cached cfg → Reaches fails cfg →
    prod (state cfg inverse).shape ≠ 0 →
    endOf target.align (fun k => fails (.library k)) (warmSteps target cfg cached) ≠ .throws →
    WarmCovers cfg

/-- The warm-up stays inside its buffers exactly when the byte counts are
`size_t` values, or it does not come to a transform: the number of samples is
zero in `size_t` arithmetic, a computed byte count is larger than any object, or
the library throws. -/
theorem warm_up_in_bounds (target : Target) (cfg : FftPlanConfig) (inverse : Bool) :
    WarmUpInBounds target cfg inverse ↔
      (cfg.inSize * cfg.precision.sizeofReal < 2 ^ 64 ∧
        cfg.outSize * cfg.precision.sizeofReal < 2 ^ 64) ∨
      cfg.batch * cfg.length % 2 ^ 64 = 0 ∨
      maxBytes < cfg.inSize * cfg.precision.sizeofReal % 2 ^ 64 ∨
      maxBytes < cfg.outSize * cfg.precision.sizeofReal % 2 ^ 64 ∨
      LibraryThrows target cfg := by
  unfold WarmUpInBounds
  rw [warmCovers_iff, prod_shape]
  constructor
  · intro inBounds
    by_contra outside
    simp only [not_or, Nat.not_lt] at outside
    obtain ⟨wraps, samples, inMade, outMade, returns⟩ := outside
    have reaches : Reaches (fun _ => false) cfg :=
      { object := rfl
        shape := .inr ⟨rfl, by decide⟩
        axes := .inr ⟨rfl, by decide⟩
        strideIn := .inr ⟨rfl, by decide⟩
        strideOut := .inr ⟨rfl, by decide⟩
        warmIn := .inr ⟨rfl, by rw [warmBytes_eq, Nat.mul_one]; exact inMade⟩
        warmOut := .inr ⟨rfl, by rw [warmBytes_eq, Nat.mul_one]; exact outMade⟩ }
    exact wraps (inBounds false _ nofun reaches samples returns)
  · intro condition cached fails constructed reaches samples returns
    have inMade := reaches.warmIn
    have outMade := reaches.warmOut
    rw [warmBytes_eq] at inMade outMade
    unfold Made at inMade outMade
    rcases condition with small | empty | large | large | throws
    · exact small
    · exact absurd empty samples
    · omega
    · omega
    · exact absurd (throws.endOf_eq constructed _) returns

theorem one_lt_size : 1 < 2 ^ 64 := by decide

/-- `2 ^ 60` double-precision transforms of one sample: the buffers would take
`2 ^ 64` bytes. -/
def manySamples : FftPlanConfig :=
  { sixteen with
    precision := .f64
    length := 1
    batch := 2 ^ 60
    length_lt := one_lt_size
    batch_lt := by decide }

/-- A build for SSE2. -/
def sse2 : Target where
  vlen
    | .f32 => 4
    | .f64 => 2
  align := 64

theorem manySamples_out_of_bounds :
    manySamples.Valid ∧ ¬ WarmUpInBounds sse2 manySamples false := by
  refine ⟨⟨by decide, by decide, by decide⟩, fun inBounds => ?_⟩
  have reaches : Reaches (fun _ => false) manySamples :=
    ⟨rfl, .inr ⟨rfl, by decide⟩, .inr ⟨rfl, by decide⟩, .inr ⟨rfl, by decide⟩,
      .inr ⟨rfl, by decide⟩, .inl (by decide), .inl (by decide)⟩
  have covers := inBounds false _ nofun reaches (by decide) (by decide +kernel)
  exact absurd covers (by decide)

end DspDispatch.Fft.Pocketfft
