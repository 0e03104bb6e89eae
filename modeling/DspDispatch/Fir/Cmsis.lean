import DspDispatch.Fir.Streaming
import DspDispatch.Kit.MachineInt

/-!
# CMSIS FIR backend (`src/backends/cmsis/cmsis_fir_backend.cpp`)

The taps are stored in reverse, and every lane has an instance whose state is a
window of `tap_count + block_size - 1` samples in one flat vector, whose length
is a product in `size_t` arithmetic. The library is a parameter: `arm_fir_init`
and `arm_fir` on the coefficients and the window of one instance.

`cmsisExecute_distinct` says what a call computes in the terms of the direct
filter: the front of lane `b`'s window is the delay line `h b`.
-/

namespace DspDispatch.Fir.Cmsis

open Kit

variable {S : Type}

/-! ## The library -/

/-- `arm_fir_init` on a window, and `arm_fir` on coefficients, window and source
block, giving the output block and the window left behind. -/
structure CmsisLib (S : Type) where
  firInit : List S → List S
  fir : List S → List S → List S → List S × List S

/-- What the library documents. `arm_fir` copies the block behind the front of
the window, slides the coefficients over the result, and moves the last samples
of the window to its front. -/
structure CmsisLib.Documented [AddCommMonoid S] [Mul S] (lib : CmsisLib S) : Prop where
  firInit_eq : ∀ window, lib.firInit window = List.replicate window.length 0
  length_dst : ∀ coeffs window src, 0 < coeffs.length →
    window.length = coeffs.length + src.length - 1 →
      (lib.fir coeffs window src).1.length = src.length
  dst_eq : ∀ coeffs window src, 0 < coeffs.length →
    window.length = coeffs.length + src.length - 1 → ∀ i, i < src.length →
      (lib.fir coeffs window src).1[i]? = some (∑ j : Fin coeffs.length,
        coeffs.get j * (overwrite window (coeffs.length - 1) src).getD (i + j) 0)
  length_window : ∀ coeffs window src, 0 < coeffs.length →
    window.length = coeffs.length + src.length - 1 →
      (lib.fir coeffs window src).2.length = window.length
  window_eq : ∀ coeffs window src, 0 < coeffs.length →
    window.length = coeffs.length + src.length - 1 →
      (lib.fir coeffs window src).2.take (coeffs.length - 1) =
        (overwrite window (coeffs.length - 1) src).drop src.length

/-! ## The plan -/

/-- `arm_fir_instance`: the tap count and where its coefficients and its window
start in the vectors of the plan. -/
structure Instance where
  numTaps : Nat := 0
  pCoeffs : Nat := 0
  pState : Nat := 0

structure CmsisFirState (S : Type) where
  blockSize : Nat
  batch : Nat
  tapCount : Nat
  coeffs : List S
  state : List S
  inst : List Instance

/-- `state_len()`. -/
def stateLen (tapCount blockSize : Nat) : Nat := subSize (addSize tapCount blockSize) 1

/-- `CmsisTraits::exec` on lane `b`. -/
def executeLane (lib : CmsisLib S) (input output : Ptr) (b : Nat)
    (ms : Mem S × CmsisFirState S) : Option (Mem S × CmsisFirState S) := do
  let (mem, s) := ms
  let block := toUInt32 s.blockSize
  let off := b * s.blockSize
  let inst ← s.inst[b]?
  let src ← mem.loadRange (input.add off) block
  let coeffs ← loadSegment s.coeffs inst.pCoeffs inst.numTaps
  let window ← loadSegment s.state inst.pState (inst.numTaps + block - 1)
  let r := lib.fir coeffs window src
  let mem ← mem.storeRange (output.add off) r.1
  let state ← storeSegment s.state inst.pState r.2
  some (mem, { s with state := state })

def cmsisExecute (lib : CmsisLib S) (s : CmsisFirState S) (mem : Mem S) (input output : Ptr) :
    Option (Status × Mem S × CmsisFirState S) := do
  let (mem, s) ← forLoop s.batch (executeLane lib input output) (mem, s)
  some (.ok, mem, s)

def cmsisClear [Zero S] (s : CmsisFirState S) : Option (Status × CmsisFirState S) :=
  some (.ok, { s with state := List.replicate s.state.length 0 })

/-- The loop that reverses the taps. -/
def reverseTaps [Zero S] (taps : List S) (tapCount : Nat) : Option (List S) :=
  forLoop tapCount (fun i coeffs => do
    let j ← sizeSub (tapCount - 1) i
    let t ← taps[j]?
    storeSegment coeffs i [t]) (List.replicate tapCount 0)

/-- `CmsisTraits::init` on lane `b`. -/
def initLane (lib : CmsisLib S) (b : Nat) (s : CmsisFirState S) : Option (CmsisFirState S) := do
  let inst : Instance :=
    { numTaps := toUInt16 s.tapCount
      pCoeffs := 0
      pState := mulSize b (stateLen s.tapCount s.blockSize) }
  let window ← loadSegment s.state inst.pState (inst.numTaps + toUInt32 s.blockSize - 1)
  let state ← storeSegment s.state inst.pState (lib.firInit window)
  let insts ← storeSegment s.inst b [inst]
  some { s with state := state, inst := insts }

/-- The state with its vectors made and no instance initialised yet. -/
def allocated [Zero S] (coeffs : List S) (tapCount blockSize batch : Nat) : CmsisFirState S :=
  { blockSize := blockSize
    batch := batch
    tapCount := tapCount
    coeffs := coeffs
    state := List.replicate (mulSize batch (stateLen tapCount blockSize)) 0
    inst := List.replicate batch {} }

/-- The dispatch record of a new plan. -/
def backendPlan [Zero S] (sizeofReal sizeofInstance : Nat) (lib : CmsisLib S)
    (s : CmsisFirState S) : BackendPlan (CmsisFirState S) S where
  state := s
  execute := cmsisExecute lib
  clear := cmsisClear
  workspaceBytes := (s.coeffs.length + s.state.length) * sizeofReal +
    s.inst.length * sizeofInstance
  name := "cmsis"

/-- `make_typed`; the outer `none` is an access outside an array. -/
def makeTyped [Zero S] (sizeofReal sizeofInstance : Nat) (lib : CmsisLib S) (taps : List S)
    (tapCount blockSize batch : Nat) : Option (Result (BackendPlan (CmsisFirState S) S)) :=
  if tapCount > 2 ^ 16 - 1 then some (.error .unsupportedConfig)
  else if blockSize > 2 ^ 32 - 1 then some (.error .unsupportedConfig)
  else do
    let coeffs ← reverseTaps taps tapCount
    let s ← forLoop batch (initLane lib) (allocated coeffs tapCount blockSize batch)
    some (.ok (backendPlan sizeofReal sizeofInstance lib s))

/-- The factory, with the library and `sizeof` of the instance type of each
precision. CMSIS has no complex filter. -/
def makeBackendPlan {R : Type} [CommRing R] (lib : FirPrecision → CmsisLib R)
    (sizeofInstance : FirPrecision → Nat) (cfg : FirPlanConfig R) :
    Option (Result (BackendPlan (CmsisFirState R) R)) :=
  if invalidCommon cfg then some (.error .invalidArgument)
  else match cfg with
    | { type := .real, precision, taps, tapCount, blockSize, batch, readable := _ } =>
      makeTyped precision.sizeofReal (sizeofInstance precision) (lib precision)
        (S := R) (taps.getD []) tapCount blockSize batch
    | { type := .complexRealTaps, .. } => some (.error .unsupportedConfig)
    | { type := .complex, .. } => some (.error .unsupportedConfig)

/-! ## What the state stands for -/

/-- The state of a plan with these taps and sizes whose lane `b` has the delay
line `h b` at the front of its window. -/
structure Represents (taps : List S) (blockSize batch : Nat) (h window : Nat → List S)
    (s : CmsisFirState S) : Prop where
  blockSize_eq : s.blockSize = blockSize
  blockSize_lt : blockSize < 2 ^ 32
  batch_eq : s.batch = batch
  taps_pos : 0 < taps.length
  coeffs_eq : s.coeffs = taps.reverse
  inst_eq : ∀ b, b < batch → s.inst[b]? =
    some ⟨taps.length, 0, b * (taps.length + blockSize - 1)⟩
  window_width : ∀ b, b < batch → (window b).length = taps.length + blockSize - 1
  front_eq : ∀ b, b < batch → (window b).take (taps.length - 1) = h b
  state_eq : s.state = lanes batch window

/-! ## Creation -/

theorem reverseTaps_eq [Zero S] (taps : List S) :
    reverseTaps taps taps.length = some taps.reverse := by
  -- after `i` steps the first `i` coefficients are in place
  have trace := forLoop_trace taps.length
    (fun i coeffs => do
      let j ← sizeSub (taps.length - 1) i
      let t ← taps[j]?
      storeSegment coeffs i [t])
    (fun i => overwrite (List.replicate taps.length 0) 0 (taps.reverse.take i))
    (by
      intro i below
      have taken : (taps.reverse.take i).length = i := by
        rw [List.length_take, List.length_reverse]
        omega
      have tap : taps.reverse[i]? = taps[taps.length - 1 - i]? := List.getElem?_reverse below
      have found : taps[taps.length - 1 - i]? = some taps[taps.length - 1 - i] :=
        List.getElem?_eq_getElem (by omega)
      have next := overwrite_overwrite (List.replicate taps.length (0 : S))
        (taps.reverse.take i) [taps[taps.length - 1 - i]] (k := 0)
        (by rw [List.length_replicate, List.length_singleton]; omega)
      have whole : (overwrite (List.replicate taps.length (0 : S)) 0
          (taps.reverse.take i)).length = taps.length := by
        rw [length_overwrite (by rw [List.length_replicate]; omega), List.length_replicate]
      rw [taken, Nat.zero_add] at next
      rw [sizeSub_eq (by omega), Option.bind_eq_bind, Option.bind_some, found,
        Option.bind_eq_bind, Option.bind_some,
        storeSegment_eq (by rw [whole, List.length_singleton]; omega), next,
        List.take_add_one, tap, found, Option.toList_some])
  rw [List.take_zero, overwrite_nil, List.take_of_length_le (Nat.le_of_eq List.length_reverse),
    overwrite_all (by rw [List.length_reverse, List.length_replicate])] at trace
  exact trace

theorem stateLen_eq {tapCount blockSize : Nat} (nonempty : 0 < tapCount)
    (small : tapCount + blockSize < 2 ^ 64) :
    stateLen tapCount blockSize = tapCount + blockSize - 1 := by
  rw [stateLen, addSize_of_lt small, subSize_of_le small (by omega)]

theorem length_allocated [Zero S] (coeffs : List S) (tapCount blockSize batch : Nat) :
    (allocated coeffs tapCount blockSize batch).state.length =
      mulSize batch (stateLen tapCount blockSize) :=
  List.length_replicate

section Create

variable [AddCommMonoid S] [Mul S] {lib : CmsisLib S} {tapCount blockSize batch : Nat}

/-- Initialising a lane of a zero state vector sets its instance. -/
theorem initLane_eq (documented : lib.Documented) {s : CmsisFirState S} {b width : Nat}
    (taps_lt : s.tapCount < 2 ^ 16) (block_lt : s.blockSize < 2 ^ 32) (below : b < s.batch)
    (window : s.tapCount + s.blockSize - 1 = width)
    (length : stateLen s.tapCount s.blockSize = width) (fits : s.batch * width < 2 ^ 64)
    (zeros : s.state = List.replicate (s.batch * width) 0) (size : s.inst.length = s.batch) :
    initLane lib b s = some { s with inst := overwrite s.inst b [⟨s.tapCount, 0, b * width⟩] } := by
  have inside := lane_end_le width below
  have loaded : loadSegment s.state (b * width) width = some (List.replicate width 0) := by
    rw [zeros, loadSegment_eq (by rw [List.length_replicate]; exact inside),
      segment_replicate 0 inside]
  have stored : storeSegment s.state (b * width) (List.replicate width 0) = some s.state := by
    rw [zeros, storeSegment_eq (by simpa using inside), overwrite_replicate 0 inside]
  have insts : storeSegment s.inst b [⟨s.tapCount, 0, b * width⟩] =
      some (overwrite s.inst b [⟨s.tapCount, 0, b * width⟩]) :=
    storeSegment_eq (by rw [List.length_singleton]; omega)
  have start : mulSize b width = b * width := mulSize_of_lt (by omega)
  simp only [initLane, toUInt16_of_lt taps_lt, toUInt32_of_lt block_lt, length, start, window,
    loaded, stored, insts, documented.firInit_eq, List.length_replicate, Option.bind_eq_bind,
    Option.bind_some]

/-- Where the state vector has room for all windows every lane gets its instance,
and nothing else changes. -/
theorem initLanes_of_fits (documented : lib.Documented) (taps_pos : 0 < tapCount)
    (taps_lt : tapCount < 2 ^ 16) (block_lt : blockSize < 2 ^ 32)
    (fits : batch * (tapCount + blockSize - 1) < 2 ^ 64) (coeffs : List S) :
    ∃ insts, forLoop batch (initLane lib) (allocated coeffs tapCount blockSize batch) =
        some { allocated coeffs tapCount blockSize batch with inst := insts } ∧
      insts.length = batch ∧
      ∀ c, c < batch → insts[c]? = some ⟨tapCount, 0, c * (tapCount + blockSize - 1)⟩ := by
  have length := stateLen_eq taps_pos (by omega : tapCount + blockSize < 2 ^ 64)
  have zeros : (allocated coeffs tapCount blockSize batch).state =
      List.replicate (batch * (tapCount + blockSize - 1)) 0 := by
    simp only [allocated, length, mulSize_of_lt fits]
  -- after `b` lanes the instances of these lanes are set
  obtain ⟨s, run, insts, rfl, size, set⟩ := forLoop_total batch (initLane lib)
    (s := allocated coeffs tapCount blockSize batch)
    (fun b s => ∃ insts, s = { allocated coeffs tapCount blockSize batch with inst := insts } ∧
      insts.length = batch ∧
      ∀ c, c < b → insts[c]? = some ⟨tapCount, 0, c * (tapCount + blockSize - 1)⟩)
    ⟨_, rfl, List.length_replicate, by simp⟩
    (by
      intro b below s inv
      rcases inv with ⟨insts, rfl, size, set⟩
      refine ⟨_, initLane_eq documented taps_lt block_lt below rfl length fits zeros size, _, rfl,
        ?_, ?_⟩
      · exact (length_overwrite (Nat.le_trans below (Nat.le_of_eq size.symm))).trans size
      · intro c hc
        have room : b + [(⟨tapCount, 0, b * (tapCount + blockSize - 1)⟩ : Instance)].length ≤
            insts.length := Nat.le_trans below (Nat.le_of_eq size.symm)
        refine (getElem?_overwrite room c).trans ?_
        rw [List.length_singleton]
        by_cases same : c = b
        · rw [if_pos (by omega), same, Nat.sub_self]
          rfl
        · rw [if_neg (by omega), set c (by omega)])
  exact ⟨insts, run, size, set⟩

omit [Mul S] in
/-- Where it has not, the initialisation leaves the vector. -/
theorem initLanes_of_wraps (taps_pos : 0 < tapCount) (taps_lt : tapCount < 2 ^ 16)
    (block_lt : blockSize < 2 ^ 32)
    (wraps : 2 ^ 64 ≤ batch * (tapCount + blockSize - 1)) (coeffs : List S) :
    forLoop batch (initLane lib) (allocated coeffs tapCount blockSize batch) = none := by
  have length := stateLen_eq taps_pos (by omega : tapCount + blockSize < 2 ^ 64)
  rw [Option.eq_none_iff_forall_ne_some]
  intro s run
  have count_lt := mulSize_lt batch (tapCount + blockSize - 1)
  obtain ⟨b, below, starts, ends⟩ := exists_lane_past (Nat.lt_of_lt_of_le count_lt wraps)
  obtain ⟨t, t', before, step⟩ := forLoop_eq_some run below
  obtain ⟨size, taps, block⟩ := forLoop_partial
    (fun _ s => s.state.length = mulSize batch (tapCount + blockSize - 1) ∧
      s.tapCount = tapCount ∧ s.blockSize = blockSize)
    ⟨by rw [length_allocated, length], rfl, rfl⟩
    (by
      intro b _ s s' ⟨size, taps, block⟩ step
      simp only [initLane, Option.bind_eq_bind, Option.bind_eq_some_iff] at step
      obtain ⟨window, -, state, stored, insts, -, result⟩ := step
      cases result
      exact ⟨(length_storeSegment stored).trans size, taps, block⟩)
    before
  simp only [initLane, Option.bind_eq_bind, Option.bind_eq_some_iff] at step
  obtain ⟨window, loaded, -⟩ := step
  rw [taps, block, length, toUInt16_of_lt taps_lt, toUInt32_of_lt block_lt,
    mulSize_of_lt (Nat.lt_of_le_of_lt starts count_lt), loadSegment, if_neg] at loaded
  · cases loaded
  · rw [size]
    exact Nat.not_le_of_lt ends

/-- An accepted configuration whose windows have room gives reversed taps, one
instance a lane, and windows of zeros. -/
theorem makeTyped_represents (documented : lib.Documented) (sizeofReal sizeofInstance : Nat)
    {taps : List S} (taps_pos : 0 < taps.length) (taps_lt : taps.length < 2 ^ 16)
    (block_lt : blockSize < 2 ^ 32) (fits : batch * (taps.length + blockSize - 1) < 2 ^ 64) :
    ∃ s, makeTyped sizeofReal sizeofInstance lib taps taps.length blockSize batch =
        some (.ok (backendPlan sizeofReal sizeofInstance lib s)) ∧
      Represents taps blockSize batch (fun _ => delayLine (taps.length - 1) ([] : List S))
        (fun _ => List.replicate (taps.length + blockSize - 1) 0) s := by
  obtain ⟨insts, run, -, set⟩ :=
    initLanes_of_fits documented taps_pos taps_lt block_lt fits taps.reverse
  have length := stateLen_eq taps_pos (by omega : taps.length + blockSize < 2 ^ 64)
  refine ⟨{ allocated taps.reverse taps.length blockSize batch with inst := insts }, ?_, ?_⟩
  · rw [makeTyped, if_neg (by omega), if_neg (by omega), reverseTaps_eq, Option.bind_eq_bind,
      Option.bind_some, run]
    rfl
  · constructor
    case blockSize_lt => exact block_lt
    case taps_pos => exact taps_pos
    case inst_eq => exact set
    case window_width => exact fun b _ => List.length_replicate
    case front_eq =>
      intro b _
      rw [List.take_replicate, delayLine_nil]
      congr 1
      omega
    case state_eq =>
      simp only [allocated, length, mulSize_of_lt fits]
      exact replicate_eq_lanes _ _ _
    all_goals rfl

omit [Mul S] in
/-- What a factory that has made a plan has seen. -/
theorem makeTyped_ok {sizeofReal sizeofInstance : Nat} {taps : List S}
    {plan : BackendPlan (CmsisFirState S) S} (taps_pos : 0 < taps.length)
    (made : makeTyped sizeofReal sizeofInstance lib taps taps.length blockSize batch =
      some (.ok plan)) :
    taps.length < 2 ^ 16 ∧ blockSize < 2 ^ 32 ∧
      batch * (taps.length + blockSize - 1) < 2 ^ 64 := by
  by_cases manyTaps : taps.length > 2 ^ 16 - 1
  · rw [makeTyped, if_pos manyTaps] at made
    cases made
  · by_cases longBlock : blockSize > 2 ^ 32 - 1
    · rw [makeTyped, if_neg manyTaps, if_pos longBlock] at made
      cases made
    · refine ⟨by omega, by omega, ?_⟩
      by_contra wraps
      rw [makeTyped, if_neg manyTaps, if_neg longBlock, reverseTaps_eq, Option.bind_eq_bind,
        Option.bind_some, initLanes_of_wraps taps_pos (by omega) (by omega)
          (Nat.le_of_not_lt wraps)] at made
      cases made

end Create

theorem cmsisClear_represents [AddCommMonoid S] {taps : List S} {blockSize batch : Nat}
    {h window : Nat → List S} {s : CmsisFirState S}
    (rep : Represents taps blockSize batch h window s) :
    ∃ s', cmsisClear s = some (.ok, s') ∧
      Represents taps blockSize batch (fun _ => delayLine (taps.length - 1) ([] : List S))
        (fun _ => List.replicate (taps.length + blockSize - 1) 0) s' := by
  have size : s.state.length = batch * (taps.length + blockSize - 1) := by
    rw [rep.state_eq, length_lanes rep.window_width]
  refine ⟨_, rfl, { rep with window_width := ?_, front_eq := ?_, state_eq := ?_ }⟩
  · exact fun b _ => List.length_replicate
  · intro b _
    have positive := rep.taps_pos
    rw [List.take_replicate, delayLine_nil]
    congr 1
    omega
  · simp only [size, replicate_eq_lanes]

/-! ## One lane -/

/-- The window after the block is copied behind the delay line. -/
theorem overwrite_window {w src : List S} {n : Nat} (size : w.length = n + src.length) :
    overwrite w n src = w.take n ++ src := by
  rw [overwrite, List.drop_of_length_le (by omega), List.append_nil]

section Lane

variable {R : Type} [CommRing R] {lib : CmsisLib R} {taps : List R}
  {blockSize batch b : Nat} {h window : Nat → List R} {s : CmsisFirState R}

/-- Sliding the reversed taps over the window is filtering behind its front. -/
theorem sum_reverse_eq_tapSum (front src : List R) {i : Nat}
    (width : front.length = taps.length - 1) :
    ∑ j : Fin taps.reverse.length, taps.reverse.get j * (front ++ src).getD (i + j) 0 =
      tapSum taps fun k => (front ++ src).getD (front.length + i - k) 0 := by
  rw [tapSum_eq_sum]
  refine Fintype.sum_equiv ((finCongr List.length_reverse).trans Fin.revPerm) _ _ ?_
  intro j
  have small : (j : Nat) < taps.length := j.isLt.trans_eq List.length_reverse
  have tap : taps.reverse.get j = taps.get (finCongr List.length_reverse j).rev := by
    simp [List.getElem_reverse]
    congr 1
    omega
  have place : front.length + i - ((finCongr List.length_reverse j).rev : Nat) = i + j := by
    simp only [Fin.val_rev, finCongr_apply, Fin.val_cast]
    omega
  simp only [Equiv.trans_apply, Fin.revPerm_apply]
  rw [place, tap, mul_comm]

/-- `arm_fir` with the reversed taps filters the block behind the front of the
window, and leaves the next delay line there. -/
theorem CmsisLib.Documented.fir_reverse (documented : lib.Documented) (positive : 0 < taps.length)
    (w src : List R) (width : w.length = taps.length + src.length - 1) :
    (lib.fir taps.reverse w src).1 = filterBlock taps (w.take (taps.length - 1)) src ∧
      (lib.fir taps.reverse w src).2.take (taps.length - 1) =
        shiftIn (w.take (taps.length - 1)) src ∧
      (lib.fir taps.reverse w src).2.length = w.length := by
  have count : taps.reverse.length = taps.length := List.length_reverse
  have shape : w.length = taps.reverse.length + src.length - 1 := by rw [count, width]
  have slid : overwrite w (taps.reverse.length - 1) src = w.take (taps.length - 1) ++ src := by
    rw [overwrite_window (by omega), count]
  have frontLength : (w.take (taps.length - 1)).length = taps.length - 1 := by
    rw [List.length_take]
    omega
  refine ⟨?_, ?_, documented.length_window _ _ _ (by omega) shape⟩
  · apply List.ext_getElem?
    intro i
    have dstLength := documented.length_dst _ _ _ (by omega) shape
    by_cases inBlock : i < src.length
    · rw [documented.dst_eq _ _ _ (by omega) shape i inBlock, slid,
        sum_reverse_eq_tapSum _ _ frontLength, filterBlock, List.getElem?_map,
        List.getElem?_range inBlock, Option.map_some]
    · rw [List.getElem?_eq_none (by omega),
        List.getElem?_eq_none (by rw [length_filterBlock]; omega)]
  · have moved := documented.window_eq _ _ _ (by omega) shape
    rw [slid, count] at moved
    exact moved

/-- One lane writes the filtered block and moves the delay line to the front of
its window. -/
theorem executeLane_represents (documented : lib.Documented)
    (rep : Represents taps blockSize batch h window s) (below : b < batch) {mem : Mem R}
    {input output : Ptr} (holdsIn : mem.Holds (input.add (b * blockSize)) blockSize)
    (holdsOut : mem.Holds (output.add (b * blockSize)) blockSize) :
    ∃ w s', executeLane lib input output b (mem, s) =
        some (mem.write (output.add (b * blockSize))
          (filterBlock taps (h b) (laneBlock blockSize mem input b)), s') ∧
      Represents taps blockSize batch
        (Function.update h b (shiftIn (h b) (laneBlock blockSize mem input b)))
        (Function.update window b w) s' := by
  have srcLength : (laneBlock blockSize mem input b).length = blockSize := Mem.length_read holdsIn
  have width := rep.window_width b below
  obtain ⟨dst, front, windowLength⟩ := documented.fir_reverse rep.taps_pos
    (window b) (laneBlock blockSize mem input b) (by rw [width, srcLength])
  rw [rep.front_eq b below] at dst front
  have inside := lane_end_le (taps.length + blockSize - 1) below
  have stateLength : s.state.length = batch * (taps.length + blockSize - 1) := by
    rw [rep.state_eq, length_lanes rep.window_width]
  have loadedCoeffs : loadSegment s.coeffs 0 taps.length = some taps.reverse := by
    rw [rep.coeffs_eq, loadSegment_eq (by rw [List.length_reverse, Nat.zero_add]), Kit.segment,
      List.drop_zero, List.take_of_length_le (Nat.le_of_eq List.length_reverse)]
  have loadedWindow : loadSegment s.state (b * (taps.length + blockSize - 1))
      (taps.length + blockSize - 1) = some (window b) := by
    rw [loadSegment_eq (by omega), rep.state_eq, segment_lanes rep.window_width below]
  let moved := (lib.fir taps.reverse (window b) (laneBlock blockSize mem input b)).2
  have movedLength : moved.length = taps.length + blockSize - 1 := windowLength.trans width
  have stored : storeSegment s.state (b * (taps.length + blockSize - 1)) moved =
      some (lanes batch (Function.update window b moved)) := by
    rw [storeSegment_eq (by omega), rep.state_eq,
      overwrite_lanes rep.window_width below movedLength]
  have written : mem.storeRange (output.add (b * blockSize))
      (filterBlock taps (h b) (laneBlock blockSize mem input b)) =
        some (mem.write (output.add (b * blockSize))
          (filterBlock taps (h b) (laneBlock blockSize mem input b))) :=
    Mem.storeRange_eq (by rw [length_filterBlock, srcLength]; exact holdsOut)
  refine ⟨moved, { s with state := lanes batch (Function.update window b moved) }, ?_, ?_⟩
  · simp only [executeLane, rep.blockSize_eq, toUInt32_of_lt rep.blockSize_lt,
      rep.inst_eq b below, Mem.loadRange_eq holdsIn, loadedCoeffs, loadedWindow,
      Option.bind_eq_bind, Option.bind_some]
    change ((mem.storeRange (output.add (b * blockSize))
      (lib.fir taps.reverse (window b) (laneBlock blockSize mem input b)).1).bind fun mem =>
        (storeSegment s.state (b * (taps.length + blockSize - 1)) moved).bind _) = _
    rw [dst, written, stored]
    rfl
  · refine { rep with window_width := ?_, front_eq := ?_, state_eq := rfl }
    · intro c hc
      by_cases same : c = b
      · rw [same, Function.update_self, movedLength]
      · rw [Function.update_of_ne same, rep.window_width c hc]
    · intro c hc
      by_cases same : c = b
      · rw [same, Function.update_self, Function.update_self]
        exact front
      · rw [Function.update_of_ne same, Function.update_of_ne same, rep.front_eq c hc]

/-- `cmsis_execute` returns `Ok`, writes exactly the filtered lanes, and pushes
each lane's block into its delay line. -/
theorem cmsisExecute_distinct (documented : lib.Documented)
    (rep : Represents taps blockSize batch h window s) {mem : Mem R} {input output : Ptr}
    (holdsIn : mem.Holds input (batch * blockSize))
    (holdsOut : mem.Holds output (batch * blockSize))
    (overlap : input = output ∨ Apart input (batch * blockSize) output (batch * blockSize)) :
    ∃ window' s', cmsisExecute lib s mem input output =
        some (.ok, mem.write output (filteredLanes taps blockSize batch h mem input), s') ∧
      Represents taps blockSize batch
        (fun b => shiftIn (h b) (laneBlock blockSize mem input b)) window' s' := by
  obtain ⟨s', run, window', rep'⟩ := forLoop_filterLanes
    (fun g t => ∃ w, Represents taps blockSize batch g w t) holdsIn holdsOut overlap
    ⟨window, rep⟩
    (by
      intro b below g m t inv holdsLane holdsOutLane
      rcases inv with ⟨w, repB⟩
      obtain ⟨moved, t', lane, repB'⟩ :=
        executeLane_represents documented repB below holdsLane holdsOutLane
      exact ⟨t', lane, _, repB'⟩)
  refine ⟨window', s', ?_, { rep' with front_eq := ?_ }⟩
  · rw [cmsisExecute, rep.batch_eq, run]
    rfl
  · intro b below
    rw [rep'.front_eq b below, if_pos below]

end Lane

end DspDispatch.Fir.Cmsis
