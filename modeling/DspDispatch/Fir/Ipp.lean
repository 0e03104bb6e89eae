import DspDispatch.Fir.Streaming
import DspDispatch.Kit.MachineInt

/-!
# IPP FIR backend (`src/backends/ipp/ipp_fir_backend.cpp`)

The plan holds two delay vectors for all lanes, whose length is a product in
`size_t` arithmetic. An `execute` reads each lane's delay line from `delay_a`,
lets the library write the next one into `delay_b`, and swaps the two vectors
after the last lane. A lane that fails returns at once, before the swap.

The library is a parameter. `firSR k b` is what `ippsFIRSR` does on lane `b` of
the `k`-th execute of the plan, so it may fail on any lane of any call.
-/

namespace DspDispatch.Fir.Ipp

open Kit

/-- The `IppStatus` values the backend tells apart. -/
inductive IppStatus
  | noErr
  | nullPtrErr
  | firLenErr
  | sizeErr
  | algTypeErr
  | other (code : Int)
deriving DecidableEq, Repr

def mapStatus : IppStatus → Status
  | .noErr => .ok
  | .nullPtrErr => .nullPointer
  | .firLenErr => .invalidArgument
  | .sizeErr => .invalidArgument
  | .algTypeErr => .unsupportedConfig
  | .other _ => .backendError

theorem mapStatus_eq_ok_iff (st : IppStatus) : mapStatus st = .ok ↔ st = .noErr := by
  cases st <;> simp [mapStatus]

variable {S T : Type}

/-! ## The library -/

/-- `ippsFIRSRGetSize` (status, spec size, work size) and `ippsFIRSRInit`
(status, spec) of one sample and tap type. -/
structure IppLib (T : Type) where
  getSize : Int → IppStatus × Int × Int
  init : List T → Int → List UInt8 → IppStatus × List UInt8

/-- What an `ippsFIRSR` call returns and leaves in `dst`, `dlyDst` and the work
buffer. -/
structure FirSRResult (S : Type) where
  status : IppStatus
  dst : List S
  dlyDst : List S
  work : List UInt8

/-- An `ippsFIRSR` call on what it reads: `src`, the spec, `dlySrc` (`none` is a
null pointer) and the work buffer (a null pointer when empty). -/
abbrev FirSR (S : Type) := List S → List UInt8 → Option (List S) → List UInt8 → FirSRResult S

/-- The delay samples a call starts from: zeros for a null `dlySrc`. -/
def delaySamples [Zero S] (tapCount : Nat) (dlySrc : Option (List S)) : List S :=
  dlySrc.getD (List.replicate (tapCount - 1) 0)

/-- What is documented of a call with a spec for `taps`. It writes `dst`,
`dlyDst` and the work buffer and nothing else. A successful call writes the
convolution of the taps with the delay samples followed by `src`, and the last
samples of that sequence; a failing call writes anything. -/
structure FirSR.Performs [AddCommMonoid S] [HMul S T S] (taps : List T) (spec : List UInt8)
    (firSR : FirSR S) : Prop where
  length_dst : ∀ src dly work, (firSR src spec dly work).dst.length = src.length
  length_dlyDst : ∀ src dly work, (delaySamples taps.length dly).length = taps.length - 1 →
    (firSR src spec dly work).dlyDst.length = taps.length - 1
  length_work : ∀ src dly work, (firSR src spec dly work).work.length = work.length
  dst_eq : ∀ src dly work, (delaySamples taps.length dly).length = taps.length - 1 →
    (firSR src spec dly work).status = .noErr → ∀ i, i < src.length →
      (firSR src spec dly work).dst[i]? = some (∑ j : Fin taps.length,
        (delaySamples taps.length dly ++ src).getD (taps.length - 1 + i - j) 0 * taps.get j)
  dlyDst_eq : ∀ src dly work, (delaySamples taps.length dly).length = taps.length - 1 →
    (firSR src spec dly work).status = .noErr →
      (firSR src spec dly work).dlyDst = (delaySamples taps.length dly ++ src).drop src.length

/-- The call filters with the taps its spec was successfully initialised
with. -/
def IppLib.Filters [AddCommMonoid S] [HMul S T S] (lib : IppLib T) (firSR : FirSR S) : Prop :=
  ∀ taps buffer spec, lib.init taps taps.length buffer = (.noErr, spec) →
    firSR.Performs taps spec

/-! ## The plan -/

structure IppFirState (S : Type) where
  blockSize : Nat
  batch : Nat
  tapCount : Nat
  spec : List UInt8
  work : List UInt8
  delayA : List S
  delayB : List S

def exceedsInt (v : Nat) : Bool := v > 2 ^ 31 - 1

/-- `ptr_or_null`: an empty vector has no element to point to. -/
def ptrOrNull (v : List S) (offset : Nat) : Option Nat := if v.isEmpty then none else some offset

/-- The delay line behind a pointer into `v`. -/
def loadDelay (v : List S) (ptr : Option Nat) (delayLen : Nat) : Option (Option (List S)) :=
  match ptr with
  | none => some none
  | some offset => (loadSegment v offset delayLen).map some

/-- What the library left behind a pointer into `v`. -/
def storeDelay (v : List S) (ptr : Option Nat) (dlyDst : List S) : Option (List S) :=
  match ptr with
  | none => some v
  | some offset => storeSegment v offset dlyDst

/-- The body of the loop over the lanes; a failing lane returns. -/
def executeLane (firSR : Nat → FirSR S) (input output : Ptr) (b : Nat)
    (ms : Mem S × IppFirState S) : Option ((Mem S × IppFirState S) × Option Status) := do
  let (mem, s) := ms
  let n := toInt32 s.blockSize
  let delayLen := s.tapCount - 1
  let sampleOff := b * s.blockSize
  let delayOff := mulSize b delayLen
  let src ← mem.loadRange (input.add sampleOff) n.toNat
  let dlySrc ← loadDelay s.delayA (ptrOrNull s.delayA delayOff) delayLen
  let r := firSR b src s.spec dlySrc s.work
  let mem ← mem.storeRange (output.add sampleOff) r.dst
  let delayB ← storeDelay s.delayB (ptrOrNull s.delayB delayOff) r.dlyDst
  let s := { s with delayB := delayB, work := r.work }
  let mapped := mapStatus r.status
  some ((mem, s), if mapped ≠ .ok then some mapped else none)

def ippExecute (firSR : Nat → FirSR S) (s : IppFirState S) (mem : Mem S) (input output : Ptr) :
    Option (Status × Mem S × IppFirState S) := do
  let ((mem, s), returned) ← forReturn s.batch (executeLane firSR input output) (mem, s)
  match returned with
  | some st => some (st, mem, s)
  | none => some (.ok, mem, { s with delayA := s.delayB, delayB := s.delayA })

def ippClear [Zero S] (s : IppFirState S) : Option (Status × IppFirState S) :=
  some (.ok, { s with
    delayA := List.replicate s.delayA.length 0
    delayB := List.replicate s.delayB.length 0 })

/-- The dispatch record of a new plan. The state is numbered by the executes
made on it, to tell `firSR` which one it serves. -/
def backendPlan [Zero S] (sizeofSample : Nat) (firSR : Nat → Nat → FirSR S) (s : IppFirState S) :
    BackendPlan (Nat × IppFirState S) S where
  state := (0, s)
  execute ks mem input output :=
    (ippExecute (firSR ks.1) ks.2 mem input output).map fun r => (r.1, r.2.1, ks.1 + 1, r.2.2)
  clear ks := (ippClear ks.2).map fun r => (r.1, ks.1, r.2)
  workspaceBytes := s.spec.length + s.work.length +
    (s.delayA.length + s.delayB.length) * sizeofSample
  name := "ipp"

/-- The two delay vectors. -/
def delays [Zero S] (tapCount batch : Nat) : List S :=
  List.replicate (mulSize batch (subSize tapCount 1)) 0

def makeTyped [Zero S] (sizeofSample : Nat) (lib : IppLib T) (firSR : Nat → Nat → FirSR S)
    (taps : List T) (tapCount blockSize batch : Nat) :
    Result (BackendPlan (Nat × IppFirState S) S) := do
  if exceedsInt tapCount || exceedsInt blockSize then throw .unsupportedConfig
  let tapsLen := toInt32 tapCount
  let (st, specSize, workSize) := lib.getSize tapsLen
  if mapStatus st ≠ .ok then throw (mapStatus st)
  if specSize ≤ 0 ∨ workSize < 0 then throw .backendError
  let (st, spec) := lib.init taps tapsLen (List.replicate specSize.toNat 0)
  if mapStatus st ≠ .ok then throw (mapStatus st)
  return backendPlan sizeofSample firSR
    { blockSize := blockSize
      batch := batch
      tapCount := tapCount
      spec := spec
      work := List.replicate workSize.toNat 0
      delayA := delays tapCount batch
      delayB := delays tapCount batch }

/-- The factory. IPP has no double-precision filter with real taps on complex
samples. -/
def makeBackendPlan {R : Type} [CommRing R]
    (ipp : FirPrecision → (t : FirType) → IppLib (TapOf R t)) (cfg : FirPlanConfig R)
    (firSR : Nat → Nat → FirSR (SampleOf R cfg.type)) :
    Result (BackendPlan (Nat × IppFirState (SampleOf R cfg.type)) (SampleOf R cfg.type)) :=
  if invalidCommon cfg then .error .invalidArgument
  else if cfg.precision = .f64 ∧ cfg.type = .complexRealTaps then .error .unsupportedConfig
  else makeTyped (cfg.type.sizeofSample cfg.precision) (ipp cfg.precision cfg.type) firSR
    cfg.tapList cfg.tapCount cfg.blockSize cfg.batch

/-! ## What the state stands for -/

/-- The state of a plan whose delay vectors have room for all lanes, and whose live
delay line of lane `b` is `live b`. The other vector holds `stale`, of the same
shape. -/
structure Represents (taps : List T) (spec : List UInt8) (blockSize batch : Nat)
    (live stale : Nat → List S) (s : IppFirState S) : Prop where
  blockSize_eq : s.blockSize = blockSize
  blockSize_lt : blockSize < 2 ^ 31
  batch_eq : s.batch = batch
  tapCount_eq : s.tapCount = taps.length
  spec_eq : s.spec = spec
  delay_lt : batch * (taps.length - 1) < 2 ^ 64
  live_width : ∀ b, b < batch → (live b).length = taps.length - 1
  stale_width : ∀ b, b < batch → (stale b).length = taps.length - 1
  delayA_eq : s.delayA = lanes batch live
  delayB_eq : s.delayB = lanes batch stale

theorem length_delays [Zero S] (tapCount batch : Nat) :
    (delays tapCount batch : List S).length = mulSize batch (subSize tapCount 1) :=
  List.length_replicate

/-- An accepted configuration gives a spec initialised with the taps, and the
delay vectors of its sizes. -/
theorem makeTyped_ok [Zero S] {sizeofSample : Nat} {lib : IppLib T}
    {firSR : Nat → Nat → FirSR S} {taps : List T} {blockSize batch : Nat}
    {plan : BackendPlan (Nat × IppFirState S) S}
    (made : makeTyped sizeofSample lib firSR taps taps.length blockSize batch = .ok plan) :
    ∃ work buffer spec, plan = backendPlan sizeofSample firSR
        { blockSize := blockSize
          batch := batch
          tapCount := taps.length
          spec := spec
          work := work
          delayA := delays taps.length batch
          delayB := delays taps.length batch } ∧
      blockSize < 2 ^ 31 ∧ lib.init taps taps.length buffer = (.noErr, spec) := by
  by_cases large : (exceedsInt taps.length || exceedsInt blockSize) = true
  · simp only [makeTyped, large, if_true] at made
    cases made
  · have sizes : ¬ 2 ^ 31 - 1 < taps.length ∧ ¬ 2 ^ 31 - 1 < blockSize := by
      simpa [exceedsInt] using large
    have tapsLen : toInt32 taps.length = taps.length := toInt32_of_lt (by omega)
    rcases size : lib.getSize taps.length with ⟨st, specSize, workSize⟩
    rcases init : lib.init taps taps.length (List.replicate specSize.toNat 0) with ⟨st', spec⟩
    simp only [makeTyped, large, tapsLen, size, init] at made
    by_cases sized : mapStatus st = .ok
    · by_cases range : specSize ≤ 0 ∨ workSize < 0
      · simp only [sized, range] at made
        cases made
      · by_cases ready : mapStatus st' = .ok
        · simp only [sized, range, ready] at made
          cases made
          rw [(mapStatus_eq_ok_iff st').mp ready] at init
          exact ⟨_, _, spec, rfl, by omega, init⟩
        · simp [sized, range, ready] at made
          cases made
    · simp [sized] at made
      cases made

/-- New delay vectors that have room for all lanes are zero delay lines. -/
theorem delays_eq_lanes [Zero S] {tapCount batch : Nat}
    (fits : batch * (tapCount - 1) < 2 ^ 64) (nonempty : 0 < tapCount) :
    (delays tapCount batch : List S) =
      lanes batch fun _ => delayLine (tapCount - 1) ([] : List S) := by
  rw [delays, mulSize_subSize nonempty (by decide), mulSize_of_lt fits]
  simp only [delayLine_nil]
  exact replicate_eq_lanes batch (tapCount - 1) 0

/-- The state of a new plan whose delay vectors have room for all lanes. -/
theorem makeTyped_represents [Zero S] {sizeofSample : Nat} {lib : IppLib T}
    {firSR : Nat → Nat → FirSR S} {taps : List T} {blockSize batch : Nat}
    {plan : BackendPlan (Nat × IppFirState S) S}
    (made : makeTyped sizeofSample lib firSR taps taps.length blockSize batch = .ok plan)
    (nonempty : 0 < taps.length) (fits : batch * (taps.length - 1) < 2 ^ 64) :
    ∃ s buffer spec, plan = backendPlan sizeofSample firSR s ∧
      lib.init taps taps.length buffer = (.noErr, spec) ∧
      Represents taps spec blockSize batch
        (fun _ => delayLine (taps.length - 1) ([] : List S))
        (fun _ => delayLine (taps.length - 1) ([] : List S)) s := by
  obtain ⟨work, buffer, spec, planned, short, init⟩ := makeTyped_ok made
  refine ⟨_, buffer, spec, planned, init, ?_⟩
  constructor
  case blockSize_lt => exact short
  case delay_lt => exact fits
  case live_width => exact fun b _ => length_delayLine _ _
  case stale_width => exact fun b _ => length_delayLine _ _
  case delayA_eq => exact delays_eq_lanes fits nonempty
  case delayB_eq => exact delays_eq_lanes fits nonempty
  all_goals rfl

/-- The library reads lane `b`'s delay samples through the pointer it is
given. -/
theorem loadDelay_lanes [Zero S] {len batch b : Nat} {f : Nat → List S}
    (width : ∀ c, c < batch → (f c).length = len - 1) (below : b < batch) :
    ∃ dlySrc, loadDelay (lanes batch f) (ptrOrNull (lanes batch f) (b * (len - 1))) (len - 1) =
        some dlySrc ∧ delaySamples len dlySrc = f b := by
  have size := length_lanes width
  have inside := lane_end_le (len - 1) below
  by_cases empty : (lanes batch f).isEmpty
  · refine ⟨none, by rw [ptrOrNull, if_pos empty]; rfl, ?_⟩
    have flat : len - 1 = 0 := by
      rw [List.isEmpty_iff.mp empty] at size
      simp only [List.length_nil] at size
      omega
    have lane := width b below
    rw [flat] at lane
    rw [List.length_eq_zero_iff.mp lane, delaySamples, flat]
    rfl
  · refine ⟨some (f b), ?_, rfl⟩
    rw [ptrOrNull, if_neg empty, loadDelay, loadSegment_eq (by omega), segment_lanes width below]
    rfl

/-- What the library leaves behind the pointer replaces lane `b`. -/
theorem storeDelay_lanes {len batch b : Nat} {f : Nat → List S} {ys : List S}
    (width : ∀ c, c < batch → (f c).length = len) (below : b < batch) (size : ys.length = len) :
    storeDelay (lanes batch f) (ptrOrNull (lanes batch f) (b * len)) ys =
      some (lanes batch (Function.update f b ys)) := by
  have total := length_lanes width
  have inside := lane_end_le len below
  by_cases empty : (lanes batch f).isEmpty
  · rw [ptrOrNull, if_pos empty, storeDelay, ← overwrite_lanes width below size]
    rw [List.isEmpty_iff.mp empty] at total ⊢
    simp only [List.length_nil] at total
    have none_left : ys = [] := List.length_eq_zero_iff.mp (by omega)
    rw [none_left, overwrite_nil]
  · rw [ptrOrNull, if_neg empty, storeDelay, storeSegment_eq (by omega),
      overwrite_lanes width below size]

/-! ## One lane -/

section Lane

variable [AddCommMonoid S] [HMul S T S] {taps : List T} {spec : List UInt8}
  {blockSize batch : Nat} {live stale : Nat → List S} {s : IppFirState S}

/-- A successful call filters the block behind the delay samples. -/
theorem FirSR.Performs.dst_eq_filterBlock {firSR : FirSR S} (performs : firSR.Performs taps spec)
    {src : List S} {dly : Option (List S)} {work : List UInt8}
    (width : (delaySamples taps.length dly).length = taps.length - 1)
    (success : (firSR src spec dly work).status = .noErr) :
    (firSR src spec dly work).dst = filterBlock taps (delaySamples taps.length dly) src := by
  apply List.ext_getElem?
  intro i
  by_cases inBlock : i < src.length
  · rw [performs.dst_eq src dly work width success i inBlock, filterBlock, List.getElem?_map,
      List.getElem?_range inBlock, Option.map_some, tapSum_eq_sum, width]
  · rw [List.getElem?_eq_none (by rw [performs.length_dst]; omega),
      List.getElem?_eq_none (by rw [length_filterBlock]; omega)]

/-- One lane writes its output and its stale delay line. On success these are
the filtered block and the next delay line. -/
theorem executeLane_represents {firSR : Nat → FirSR S} {b : Nat} {mem : Mem S} {input output : Ptr}
    (rep : Represents taps spec blockSize batch live stale s) (below : b < batch)
    (performs : (firSR b).Performs taps spec)
    (holdsIn : mem.Holds (input.add (b * blockSize)) blockSize)
    (holdsOut : mem.Holds (output.add (b * blockSize)) blockSize) :
    ∃ dst dlyDst s' st, executeLane firSR input output b (mem, s) =
        some ((mem.write (output.add (b * blockSize)) dst, s'),
          if mapStatus st ≠ .ok then some (mapStatus st) else none) ∧
      dst.length = blockSize ∧
      Represents taps spec blockSize batch live (Function.update stale b dlyDst) s' ∧
      (st = .noErr → dst = filterBlock taps (live b) (laneBlock blockSize mem input b) ∧
        dlyDst = shiftIn (live b) (laneBlock blockSize mem input b)) := by
  have samples : (toInt32 blockSize).toNat = blockSize := by
    rw [toInt32_of_lt rep.blockSize_lt, Int.toNat_natCast]
  have delayOff : mulSize b (taps.length - 1) = b * (taps.length - 1) := by
    have total := rep.delay_lt
    have inside := lane_end_le (taps.length - 1) below
    exact mulSize_of_lt (by omega)
  obtain ⟨dlySrc, loaded, delay⟩ := loadDelay_lanes rep.live_width below
  have delayWidth : (delaySamples taps.length dlySrc).length = taps.length - 1 := by
    rw [delay, rep.live_width b below]
  have srcLength : (laneBlock blockSize mem input b).length = blockSize := Mem.length_read holdsIn
  let r := firSR b (laneBlock blockSize mem input b) spec dlySrc s.work
  have dstLength : r.dst.length = blockSize := (performs.length_dst _ _ _).trans srcLength
  have dlyLength : r.dlyDst.length = taps.length - 1 :=
    performs.length_dlyDst _ _ _ delayWidth
  have stored : storeDelay s.delayB (ptrOrNull s.delayB (b * (taps.length - 1))) r.dlyDst =
      some (lanes batch (Function.update stale b r.dlyDst)) := by
    rw [rep.delayB_eq]
    exact storeDelay_lanes rep.stale_width below dlyLength
  refine ⟨r.dst, r.dlyDst,
    { s with delayB := lanes batch (Function.update stale b r.dlyDst), work := r.work },
    r.status, ?_, dstLength, ?_, ?_⟩
  · rw [← rep.delayA_eq] at loaded
    have written : mem.storeRange (output.add (b * blockSize)) r.dst =
        some (mem.write (output.add (b * blockSize)) r.dst) :=
      Mem.storeRange_eq (by rw [dstLength]; exact holdsOut)
    simp only [executeLane, samples, rep.tapCount_eq, rep.blockSize_eq, rep.spec_eq, delayOff,
      Mem.loadRange_eq holdsIn, loaded, Option.bind_eq_bind, Option.bind_some]
    change ((mem.storeRange (output.add (b * blockSize)) r.dst).bind fun mem =>
      (storeDelay s.delayB (ptrOrNull s.delayB (b * (taps.length - 1))) r.dlyDst).bind _) = _
    rw [written, stored]
    rfl
  · refine { rep with stale_width := ?_, delayB_eq := rfl }
    intro c hc
    by_cases same : c = b
    · rw [same, Function.update_self, dlyLength]
    · rw [Function.update_of_ne same, rep.stale_width c hc]
  · intro success
    have dst := performs.dst_eq_filterBlock delayWidth success
    have dly := performs.dlyDst_eq _ _ _ delayWidth success
    rw [delay] at dst dly
    exact ⟨dst, dly⟩

end Lane

/-! ## The whole call -/

section Call

variable [AddCommMonoid S] [HMul S T S] {taps : List T} {spec : List UInt8}
  {blockSize batch : Nat} {live stale : Nat → List S} {s : IppFirState S}

/-- One lane after the lanes before it are written. -/
theorem nextLane_represents {firSR : Nat → FirSR S} {b : Nat} {mem : Mem S} {input output : Ptr}
    (rep : Represents taps spec blockSize batch live stale s) (below : b < batch)
    (performs : (firSR b).Performs taps spec) (holdsIn : mem.Holds input (batch * blockSize))
    (holdsOut : mem.Holds output (batch * blockSize))
    (overlap : input = output ∨
      Apart input (batch * blockSize) output (batch * blockSize))
    {done : List S} (doneLength : done.length = b * blockSize) :
    ∃ dst dlyDst s' st, executeLane firSR input output b (mem.write output done, s) =
        some ((mem.write output (done ++ dst), s'),
          if mapStatus st ≠ .ok then some (mapStatus st) else none) ∧
      dst.length = blockSize ∧
      Represents taps spec blockSize batch live (Function.update stale b dlyDst) s' ∧
      (st = .noErr → dst = filterBlock taps (live b) (laneBlock blockSize mem input b) ∧
        dlyDst = shiftIn (live b) (laneBlock blockSize mem input b)) := by
  have laneEnd := lane_end_le blockSize below
  have holdsDone : mem.Holds output done.length := by
    rw [doneLength]
    exact Nat.le_trans (by omega) holdsOut
  have block := laneBlock_write below holdsOut overlap doneLength
  obtain ⟨dst, dlyDst, s', st, lane, dstLength, rep', onSuccess⟩ :=
    executeLane_represents rep below performs
      ((Mem.holds_write holdsDone).mpr (holdsIn.mono laneEnd))
      ((Mem.holds_write holdsDone).mpr (holdsOut.mono laneEnd))
  rw [block] at onSuccess
  have joined : (mem.write output done).write (output.add (b * blockSize)) dst =
      mem.write output (done ++ dst) := by
    rw [← doneLength]
    apply Mem.write_write
    rw [doneLength, dstLength]
    exact Nat.le_trans (by omega) holdsOut
  rw [joined] at lane
  exact ⟨dst, dlyDst, s', st, lane, dstLength, rep', onSuccess⟩

/-- The lane loop either filters all lanes, and leaves the next delay lines in
the stale vector, or returns an error. The live vector stays in both cases. -/
theorem lanes_represents {firSR : Nat → FirSR S} {mem : Mem S} {input output : Ptr}
    (rep : Represents taps spec blockSize batch live stale s)
    (performs : ∀ b, (firSR b).Performs taps spec)
    (holdsIn : mem.Holds input (batch * blockSize))
    (holdsOut : mem.Holds output (batch * blockSize))
    (overlap : input = output ∨
      Apart input (batch * blockSize) output (batch * blockSize)) :
    (∃ s', forReturn s.batch (executeLane firSR input output) (mem, s) =
        some ((mem.write output (filteredLanes taps blockSize batch live mem input), s'), none) ∧
      Represents taps spec blockSize batch live
        (fun b => shiftIn (live b) (laneBlock blockSize mem input b)) s') ∨
    (∃ st written s' stale', forReturn s.batch (executeLane firSR input output) (mem, s) =
        some ((mem.write output written, s'), some st) ∧
      st ≠ .ok ∧ written.length ≤ batch * blockSize ∧
      Represents taps spec blockSize batch live stale' s') := by
  let out : Nat → List S := fun b => filterBlock taps (live b) (laneBlock blockSize mem input b)
  let next : Nat → List S := fun b => shiftIn (live b) (laneBlock blockSize mem input b)
  have outWidth : ∀ b, b < batch → (out b).length = blockSize :=
    fun b below => by rw [length_filterBlock, length_laneBlock holdsIn below]
  rw [rep.batch_eq]
  have loop := forReturn_total batch (executeLane firSR input output) (s := (mem, s))
    (fun done ms => ms.1 = mem.write output (lanes done out) ∧
      ∃ stale', Represents taps spec blockSize batch live stale' ms.2 ∧
        ∀ c, c < done → stale' c = next c)
    (fun ms st => st ≠ .ok ∧ ∃ written, ms.1 = mem.write output written ∧
      written.length ≤ batch * blockSize ∧
        ∃ stale', Represents taps spec blockSize batch live stale' ms.2)
    ⟨by rw [lanes_zero, Mem.write_nil], stale, rep, by simp⟩
    (by
      intro b below state inv
      rcases state with ⟨m, t⟩
      rcases inv with ⟨done, stale', repB, filled⟩
      dsimp only at done repB
      subst done
      have doneLength : (lanes b out).length = b * blockSize :=
        length_lanes fun c hc => outWidth c (hc.trans below)
      obtain ⟨dst, dlyDst, t', st, lane, dstLength, repB', onSuccess⟩ :=
        nextLane_represents repB below (performs b) holdsIn holdsOut overlap doneLength
      by_cases success : st = .noErr
      · obtain ⟨rfl, rfl⟩ := onSuccess success
        rw [success] at lane
        refine .inl ⟨_, lane, by rw [lanes_succ], _, repB', ?_⟩
        intro c hc
        by_cases same : c = b
        · rw [same, Function.update_self]
        · rw [Function.update_of_ne same, filled c (by omega)]
      · have failed : mapStatus st ≠ .ok := fun ok => success ((mapStatus_eq_ok_iff st).mp ok)
        rw [if_pos failed] at lane
        refine .inr ⟨_, _, lane, failed, _, rfl, ?_, _, repB'⟩
        rw [List.length_append, doneLength, dstLength]
        exact lane_end_le blockSize below)
  rcases loop with ⟨⟨m, s'⟩, run, written, stale', rep', filled⟩ |
    ⟨⟨m, s'⟩, st, run, failed, written, wrote, short, stale', rep'⟩
  · dsimp only at written rep'
    subst written
    refine .inl ⟨s', run, { rep' with stale_width := ?_, delayB_eq := ?_ }⟩
    · intro b below
      rw [length_shiftIn, rep.live_width b below]
    · rw [rep'.delayB_eq]
      exact lanes_congr filled
  · dsimp only at wrote rep'
    subst wrote
    exact .inr ⟨st, written, s', stale', run, failed, short, rep'⟩

/-- An execute that returns `Ok` writes the filtered lanes and pushes the blocks
into the delay lines. One that returns an error keeps the delay lines. -/
theorem ippExecute_represents {firSR : Nat → FirSR S} {mem : Mem S} {input output : Ptr}
    (rep : Represents taps spec blockSize batch live stale s)
    (performs : ∀ b, (firSR b).Performs taps spec)
    (holdsIn : mem.Holds input (batch * blockSize))
    (holdsOut : mem.Holds output (batch * blockSize))
    (overlap : input = output ∨
      Apart input (batch * blockSize) output (batch * blockSize)) :
    ∃ st written s' stale', ippExecute firSR s mem input output =
        some (st, mem.write output written, s') ∧
      written.length ≤ batch * blockSize ∧
      ((st = .ok ∧ written = filteredLanes taps blockSize batch live mem input ∧
          Represents taps spec blockSize batch
            (fun b => shiftIn (live b) (laneBlock blockSize mem input b)) stale' s') ∨
        (st ≠ .ok ∧ Represents taps spec blockSize batch live stale' s')) := by
  rcases lanes_represents rep performs holdsIn holdsOut overlap with
    ⟨s', run, rep'⟩ | ⟨st, written, s', stale', run, failed, short, rep'⟩
  · refine ⟨.ok, _, { s' with delayA := s'.delayB, delayB := s'.delayA }, live, ?_,
      Nat.le_of_eq (length_filteredLanes holdsIn), .inl ⟨rfl, rfl, ?_⟩⟩
    · simp only [ippExecute, run, Option.bind_eq_bind, Option.bind_some]
    · exact
        { rep' with
          live_width := rep'.stale_width
          stale_width := rep'.live_width
          delayA_eq := rep'.delayB_eq
          delayB_eq := rep'.delayA_eq }
  · refine ⟨st, written, s', stale', ?_, short, .inr ⟨failed, rep'⟩⟩
    simp only [ippExecute, run, Option.bind_eq_bind, Option.bind_some]

end Call

/-! ## Delay vectors without an element -/

section Null

variable [AddCommMonoid S] [HMul S T S] {taps : List T} {spec : List UInt8}
  {blockSize batch : Nat} {s : IppFirState S}

/-- A lane of a plan whose delay vectors are empty passes null pointers, and is filtered
behind zeros. Only the work buffer of the plan changes. -/
theorem nextLane_null {firSR : Nat → FirSR S} {b : Nat} {mem : Mem S} {input output : Ptr}
    (short : s.blockSize < 2 ^ 31) (emptyA : s.delayA = []) (emptyB : s.delayB = [])
    (below : b < s.batch) (performs : (firSR b).Performs taps s.spec)
    (succeeds : ∀ src dly work, (firSR b src s.spec dly work).status = .noErr)
    (holdsIn : mem.Holds input (s.batch * s.blockSize))
    (holdsOut : mem.Holds output (s.batch * s.blockSize))
    (overlap : input = output ∨
      Apart input (s.batch * s.blockSize) output (s.batch * s.blockSize))
    {done : List S} (doneLength : done.length = b * s.blockSize) :
    ∃ work, executeLane firSR input output b (mem.write output done, s) =
      some ((mem.write output (done ++ filterBlock taps (delayLine (taps.length - 1) [])
        (laneBlock s.blockSize mem input b)), { s with work := work }), none) := by
  have samples : (toInt32 s.blockSize).toNat = s.blockSize := by
    rw [toInt32_of_lt short, Int.toNat_natCast]
  have zeros : delaySamples taps.length (none : Option (List S)) =
      delayLine (taps.length - 1) [] := (delayLine_nil _).symm
  have width : (delaySamples taps.length (none : Option (List S))).length = taps.length - 1 := by
    rw [zeros, length_delayLine]
  have outLength : (filterBlock taps (delayLine (taps.length - 1) [])
      (laneBlock s.blockSize mem input b)).length = s.blockSize := by
    rw [length_filterBlock, length_laneBlock holdsIn below]
  have laneEnd := lane_end_le s.blockSize below
  have holdsDone : mem.Holds output done.length := by
    rw [doneLength]
    exact Nat.le_trans (by omega) holdsOut
  have block := laneBlock_write below holdsOut overlap doneLength
  have read := Mem.loadRange_eq ((Mem.holds_write holdsDone).mpr (holdsIn.mono laneEnd))
  rw [← laneBlock, block] at read
  have dst : (firSR b (laneBlock s.blockSize mem input b) s.spec none s.work).dst =
      filterBlock taps (delayLine (taps.length - 1) []) (laneBlock s.blockSize mem input b) := by
    rw [performs.dst_eq_filterBlock width (succeeds _ _ _), zeros]
  have stored : (mem.write output done).storeRange (output.add (b * s.blockSize))
      (filterBlock taps (delayLine (taps.length - 1) []) (laneBlock s.blockSize mem input b)) =
        some (mem.write output (done ++ filterBlock taps (delayLine (taps.length - 1) [])
          (laneBlock s.blockSize mem input b))) := by
    rw [Mem.storeRange_eq, ← doneLength]
    · refine congrArg some (Mem.write_write ?_)
      rw [doneLength, outLength]
      exact Nat.le_trans (by omega) holdsOut
    · rw [outLength]
      exact (Mem.holds_write holdsDone).mpr (holdsOut.mono laneEnd)
  have ok : mapStatus .noErr = .ok := rfl
  refine ⟨(firSR b (laneBlock s.blockSize mem input b) s.spec none s.work).work, ?_⟩
  simp only [executeLane, samples, read, emptyA, emptyB, ptrOrNull, List.isEmpty_nil, if_true,
    loadDelay, storeDelay, dst, stored, succeeds, ok, ne_eq, not_true_eq_false, if_false,
    Option.bind_eq_bind, Option.bind_some]

/-- An execute of such a plan, no lane of which fails, returns `Ok` and remembers
nothing. -/
theorem ippExecute_null {firSR : Nat → FirSR S} {mem : Mem S} {input output : Ptr}
    (short : s.blockSize < 2 ^ 31) (spec_eq : s.spec = spec)
    (emptyA : s.delayA = []) (emptyB : s.delayB = [])
    (performs : ∀ b, (firSR b).Performs taps spec)
    (succeeds : ∀ b src dly work, (firSR b src spec dly work).status = .noErr)
    (holdsIn : mem.Holds input (s.batch * s.blockSize))
    (holdsOut : mem.Holds output (s.batch * s.blockSize))
    (overlap : input = output ∨
      Apart input (s.batch * s.blockSize) output (s.batch * s.blockSize)) :
    ∃ work, ippExecute firSR s mem input output =
      some (.ok, mem.write output (filteredLanes taps s.blockSize s.batch
        (fun _ => delayLine (taps.length - 1) ([] : List S)) mem input), { s with work := work }) := by
  subst spec_eq
  let out : Nat → List S := fun b =>
    filterBlock taps (delayLine (taps.length - 1) []) (laneBlock s.blockSize mem input b)
  have outWidth : ∀ b, b < s.batch → (out b).length = s.blockSize :=
    fun b below => by rw [length_filterBlock, length_laneBlock holdsIn below]
  rcases forReturn_total s.batch (executeLane firSR input output) (s := (mem, s))
    (fun done ms => ms.1 = mem.write output (lanes done out) ∧
      ∃ work, ms.2 = { s with work := work })
    (fun _ _ => False)
    ⟨by rw [lanes_zero, Mem.write_nil], s.work, rfl⟩
    (by
      intro b below state inv
      rcases state with ⟨m, t⟩
      rcases inv with ⟨done, work, rest⟩
      dsimp only at done rest
      subst done rest
      obtain ⟨work', lane⟩ := nextLane_null (s := { s with work := work }) short emptyA emptyB
        below (performs b) (fun src dly work => succeeds b src dly work) holdsIn holdsOut overlap
        (length_lanes fun c hc => outWidth c (hc.trans below))
      exact .inl ⟨_, lane, by rw [lanes_succ], work', rfl⟩) with
    ⟨⟨m, t⟩, run, written, work, rest⟩ | ⟨-, -, -, never⟩
  · dsimp only at written rest
    subst written rest
    refine ⟨work, ?_⟩
    simp only [ippExecute, run, Option.bind_eq_bind, Option.bind_some, emptyA, emptyB]
    rfl
  · exact never.elim

end Null

theorem ippClear_represents [Zero S] {taps : List T} {spec : List UInt8} {blockSize batch : Nat}
    {live stale : Nat → List S} {s : IppFirState S}
    (rep : Represents taps spec blockSize batch live stale s) :
    ∃ s', ippClear s = some (.ok, s') ∧
      Represents taps spec blockSize batch (fun _ => delayLine (taps.length - 1) ([] : List S))
        (fun _ => delayLine (taps.length - 1) ([] : List S)) s' := by
  have lengthA : s.delayA.length = batch * (taps.length - 1) := by
    rw [rep.delayA_eq, length_lanes rep.live_width]
  have lengthB : s.delayB.length = batch * (taps.length - 1) := by
    rw [rep.delayB_eq, length_lanes rep.stale_width]
  refine ⟨_, rfl, { rep with live_width := ?_, stale_width := ?_, delayA_eq := ?_, delayB_eq := ?_ }⟩
  · exact fun b _ => length_delayLine _ _
  · exact fun b _ => length_delayLine _ _
  · simp only [lengthA, delayLine_nil, replicate_eq_lanes]
  · simp only [lengthB, delayLine_nil, replicate_eq_lanes]

end DspDispatch.Fir.Ipp
