import DspDispatch.Fir.Streaming
import DspDispatch.Kit.MachineInt

/-!
# Portable FIR backend (`src/backends/portable/fir_backend.cpp`)

The direct-form filter, templated over a sample and a tap type with a zero, an
addition and a product of a sample with a tap, about which nothing is assumed.
All lanes share one `history` vector, `history_len` samples a lane, and one
`combined` scratch vector. The number of samples of the history is a product in
`size_t` arithmetic, which the constructor does not check.

The second half states once what `portableExecute` computes. `Represents`
reads the state as one history slice a lane; `portableExecute_distinct` gives
the exact memory and the next slices for an output buffer distinct from the
input. `portableExecute_of_short` is the other case: a history that has no room
for all lanes is left by every call.
-/

namespace DspDispatch.Fir.Portable

open Kit

variable {S T : Type}

structure PortableState (S T : Type) where
  blockSize : Nat
  batch : Nat
  tapCount : Nat
  taps : List T
  history : List S
  combined : List S
  /-- The argument of `combined.reserve`. -/
  combinedReserved : Nat

def PortableState.historyLen (s : PortableState S T) : Nat :=
  if s.tapCount > 0 then s.tapCount - 1 else 0

theorem PortableState.historyLen_eq (s : PortableState S T) : s.historyLen = s.tapCount - 1 := by
  unfold historyLen
  split
  · rfl
  · omega

/-- The constructor, from the array of `tap_count` taps. -/
def PortableState.createSized [Zero S] (taps : List T) (blockSize batch : Nat) :
    PortableState S T :=
  let historyLen := if taps.length > 0 then subSize taps.length 1 else 0
  { blockSize := blockSize
    batch := batch
    tapCount := taps.length
    taps := taps
    history := List.replicate (mulSize batch historyLen) 0
    combined := []
    combinedReserved := addSize historyLen blockSize }

def portableClear [Zero S] (s : PortableState S T) : Option (Status × PortableState S T) :=
  some (.ok, { s with history := List.replicate s.history.length 0 })

section Execute

variable [Zero S] [Add S] [HMul S T S]

/-- `(i >= k) ? bin[i - k] : hist[hist_len + i - k]`. -/
def operand (s : PortableState S T) (mem : Mem S) (bin : Ptr) (hist i k : Nat) : Option S :=
  if i ≥ k then mem.load bin (i - k)
  else (sizeSub (s.historyLen + i) k).bind fun j => s.history[hist + j]?

/-- The loop over the taps for output sample `i`. -/
def accumulate (s : PortableState S T) (mem : Mem S) (bin : Ptr) (hist i : Nat) : Option S :=
  forLoop s.tapCount (fun k acc => do
    let x ← operand s mem bin hist i k
    let t ← s.taps[k]?
    some (acc + x * t)) 0

/-- The loop over the samples of one lane. -/
def filterLane (s : PortableState S T) (bin bout : Ptr) (hist : Nat) (mem : Mem S) :
    Option (Mem S) :=
  forLoop s.blockSize (fun i mem => do
    let acc ← accumulate s mem bin hist i
    mem.store bout i acc) mem

/-- The end of a lane: `combined` becomes the history followed by the block,
and its last `hist_len` samples the new history. -/
def updateHistory (s : PortableState S T) (bin : Ptr) (hist : Nat) (mem : Mem S) :
    Option (PortableState S T) :=
  if s.historyLen = 0 then some s
  else do
    let old ← loadSegment s.history hist s.historyLen
    let block ← mem.loadRange bin s.blockSize
    let combined := old ++ block
    let start ← sizeSub combined.length s.historyLen
    let history ← storeSegment s.history hist (combined.drop start)
    some { s with combined := combined, history := history }

/-- The body of the loop over the lanes. -/
def executeLane (input output : Ptr) (b : Nat) (ms : Mem S × PortableState S T) :
    Option (Mem S × PortableState S T) := do
  let (mem, s) := ms
  let bin := input.add (b * s.blockSize)
  let bout := output.add (b * s.blockSize)
  let hist := mulSize b s.historyLen
  let mem ← filterLane s bin bout hist mem
  let s ← updateHistory s bin hist mem
  some (mem, s)

def portableExecute (s : PortableState S T) (mem : Mem S) (input output : Ptr) :
    Option (Status × Mem S × PortableState S T) := do
  let (mem, s) ← forLoop s.batch (executeLane input output) (mem, s)
  some (.ok, mem, s)

def makeTyped (sizeofSample sizeofTap : Nat) (taps : List T) (blockSize batch : Nat) :
    BackendPlan (PortableState S T) S :=
  let s := PortableState.createSized taps blockSize batch
  { state := s
    execute := portableExecute
    clear := portableClear
    workspaceBytes := s.history.length * sizeofSample + s.combinedReserved * sizeofSample +
      s.taps.length * sizeofTap
    name := "portable" }

end Execute

/-- The factory. Every precision and type has an instantiation. -/
def makeBackendPlan {R : Type} [CommRing R] (cfg : FirPlanConfig R) :
    Result (BackendPlan (PortableState (SampleOf R cfg.type) (TapOf R cfg.type))
      (SampleOf R cfg.type)) :=
  if invalidCommon cfg then .error .invalidArgument
  else .ok (makeTyped (cfg.type.sizeofSample cfg.precision) (cfg.type.sizeofTap cfg.precision)
    cfg.tapList cfg.blockSize cfg.batch)

/-! ## What the state stands for -/

/-- The state of a plan with these taps and sizes, whose history has room for all
lanes, and whose lane `b` remembers `h b`. -/
structure Represents (taps : List T) (blockSize batch : Nat) (h : Nat → List S)
    (s : PortableState S T) : Prop where
  blockSize_eq : s.blockSize = blockSize
  batch_eq : s.batch = batch
  tapCount_eq : s.tapCount = taps.length
  taps_eq : s.taps = taps
  width : ∀ b, b < batch → (h b).length = taps.length - 1
  history_eq : s.history = lanes batch h
  history_lt : batch * (taps.length - 1) < 2 ^ 64
  combined_le : s.combined.length ≤ taps.length - 1 + blockSize

namespace Represents

variable {taps : List T} {blockSize batch b : Nat} {h : Nat → List S} {s : PortableState S T}

theorem historyLen_eq (rep : Represents taps blockSize batch h s) :
    s.historyLen = taps.length - 1 := by
  rw [PortableState.historyLen_eq, rep.tapCount_eq]

theorem length_history (rep : Represents taps blockSize batch h s) :
    s.history.length = batch * (taps.length - 1) := by
  rw [rep.history_eq, length_lanes rep.width]

/-- Lane `b`'s slice of the history vector. -/
theorem segment_history (rep : Represents taps blockSize batch h s) (below : b < batch) :
    segment s.history (b * (taps.length - 1)) (taps.length - 1) = h b := by
  rw [rep.history_eq, segment_lanes rep.width below]

/-- Where lane `b`'s slice starts. -/
theorem laneStart_eq (rep : Represents taps blockSize batch h s) (below : b < batch) :
    mulSize b s.historyLen = b * (taps.length - 1) := by
  have total := rep.history_lt
  have inside := lane_end_le (taps.length - 1) below
  rw [rep.historyLen_eq]
  exact mulSize_of_lt (by omega)

theorem history_end_le (rep : Represents taps blockSize batch h s) (below : b < batch) :
    b * (taps.length - 1) + (taps.length - 1) ≤ s.history.length := by
  rw [rep.length_history]
  exact lane_end_le _ below

end Represents

/-- The number of samples of a new history. -/
theorem length_history_createSized [Zero S] (taps : List T) (blockSize batch : Nat) :
    (PortableState.createSized taps blockSize batch : PortableState S T).history.length =
      mulSize batch (taps.length - 1) := by
  simp only [PortableState.createSized, List.length_replicate]
  split
  · rename_i nonempty
    exact mulSize_subSize nonempty (by decide)
  · rename_i empty
    have none : taps.length - 1 = 0 := by omega
    rw [none]

theorem create_represents [Zero S] {taps : List T} (blockSize : Nat) {batch : Nat}
    (fits : batch * (taps.length - 1) < 2 ^ 64) :
    Represents taps blockSize batch (fun _ => delayLine (taps.length - 1) ([] : List S))
      (PortableState.createSized taps blockSize batch) := by
  constructor
  case width => exact fun b _ => length_delayLine _ _
  case history_eq =>
    have size := length_history_createSized (S := S) taps blockSize batch
    rw [mulSize_of_lt fits] at size
    simp only [PortableState.createSized, List.length_replicate] at size
    simp only [PortableState.createSized, size, delayLine_nil]
    exact replicate_eq_lanes batch (taps.length - 1) 0
  case history_lt => exact fits
  case combined_le => exact Nat.zero_le _
  all_goals rfl

theorem portableClear_represents [Zero S] {taps : List T} {blockSize batch : Nat}
    {h : Nat → List S} {s : PortableState S T} (rep : Represents taps blockSize batch h s) :
    ∃ s', portableClear s = some (.ok, s') ∧
      Represents taps blockSize batch (fun _ => delayLine (taps.length - 1) ([] : List S)) s' := by
  refine ⟨_, rfl, { rep with width := fun b _ => length_delayLine _ _, history_eq := ?_ }⟩
  simp only [rep.length_history, delayLine_nil]
  exact replicate_eq_lanes batch (taps.length - 1) 0

/-! ## One lane -/

section Lane

variable [Zero S] [Add S] [HMul S T S] {taps : List T} {blockSize batch b : Nat}
  {h : Nat → List S} {s : PortableState S T}

omit [Add S] [HMul S T S] in
/-- Both arms of the operand read the history slice followed by the block. -/
theorem operand_eq (rep : Represents taps blockSize batch h s) (below : b < batch)
    {mem : Mem S} {bin : Ptr} (holds : mem.Holds bin blockSize) {i k : Nat}
    (inBlock : i < blockSize) (isTap : k < taps.length) :
    operand s mem bin (b * (taps.length - 1)) i k =
      some ((h b ++ mem.read bin blockSize).getD ((h b).length + i - k) 0) := by
  have width := rep.width b below
  have size := Mem.length_read holds
  unfold operand
  by_cases current : i ≥ k
  · have found : mem.load bin (i - k) = (mem.read bin blockSize)[i - k]? := by
      rw [Mem.getElem?_read, if_pos (by omega)]
    have inside : i - k < (mem.read bin blockSize).length := by omega
    rw [if_pos current, found, List.getD_eq_getElem?_getD,
      List.getElem?_append_right (by omega)]
    have position : (h b).length + i - k - (h b).length = i - k := by omega
    rw [position, List.getElem?_eq_getElem inside, Option.getD_some]
  · have found : s.history[b * (taps.length - 1) + (taps.length - 1 + i - k)]? =
        (h b)[taps.length - 1 + i - k]? := by
      rw [← rep.segment_history below, getElem?_segment, if_pos (by omega)]
    have inside : taps.length - 1 + i - k < (h b).length := by omega
    rw [if_neg current, rep.historyLen_eq, sizeSub_eq (by omega), Option.bind_some, found,
      List.getD_eq_getElem?_getD, width, List.getElem?_append_left inside,
      List.getElem?_eq_getElem inside, Option.getD_some]

theorem accumulate_eq (rep : Represents taps blockSize batch h s) (below : b < batch)
    {mem : Mem S} {bin : Ptr} (holds : mem.Holds bin blockSize) {i : Nat}
    (inBlock : i < blockSize) :
    accumulate s mem bin (b * (taps.length - 1)) i =
      some (tapSum taps fun k =>
        (h b ++ mem.read bin blockSize).getD ((h b).length + i - k) 0) := by
  unfold accumulate
  rw [rep.tapCount_eq, rep.taps_eq]
  -- after `k` taps the accumulator is the sum over the first `k` taps
  have trace := forLoop_trace taps.length
    (fun k acc => do
      let x ← operand s mem bin (b * (taps.length - 1)) i k
      let t ← taps[k]?
      some (acc + x * t))
    (fun k => tapSum (taps.take k) fun k =>
      (h b ++ mem.read bin blockSize).getD ((h b).length + i - k) 0)
    (by
      intro k isTap
      rw [List.take_add_one, List.getElem?_eq_getElem isTap, Option.toList_some, tapSum_snoc,
        List.length_take, Nat.min_eq_left (Nat.le_of_lt isTap)]
      simp only [operand_eq rep below holds inBlock isTap, Option.bind_eq_bind, Option.bind_some])
  rw [List.take_length] at trace
  exact trace

/-- A lane whose output does not meet its input gets the filtered block. -/
theorem filterLane_distinct (rep : Represents taps blockSize batch h s) (below : b < batch)
    {mem : Mem S} {bin bout : Ptr} (holdsIn : mem.Holds bin blockSize)
    (holdsOut : mem.Holds bout blockSize) (apart : Apart bin blockSize bout blockSize) :
    filterLane s bin bout (b * (taps.length - 1)) mem =
      some (mem.write bout (filterBlock taps (h b) (mem.read bin blockSize))) := by
  unfold filterLane
  rw [rep.blockSize_eq]
  have size := Mem.length_read holdsIn
  have length : (filterBlock taps (h b) (mem.read bin blockSize)).length = blockSize := by
    rw [length_filterBlock, size]
  -- after `i` samples the first `i` outputs are written and the block is intact
  have trace := forLoop_trace blockSize
    (fun i mem => do
      let acc ← accumulate s mem bin (b * (taps.length - 1)) i
      mem.store bout i acc)
    (fun i => mem.write bout ((filterBlock taps (h b) (mem.read bin blockSize)).take i))
    (by
      intro i inBlock
      have taken : ((filterBlock taps (h b) (mem.read bin blockSize)).take i).length = i := by
        rw [List.length_take, length]
        omega
      have holdsTaken : mem.Holds bout
          ((filterBlock taps (h b) (mem.read bin blockSize)).take i).length := by
        rw [taken]
        exact Nat.le_trans (by omega) holdsOut
      have apartTaken : Apart bin blockSize bout
          ((filterBlock taps (h b) (mem.read bin blockSize)).take i).length := by
        rw [taken]
        exact apart.mono (i := 0) (j := 0) (by omega) (by omega)
      have next : (filterBlock taps (h b) (mem.read bin blockSize))[i]? =
          some (tapSum taps fun k =>
            (h b ++ mem.read bin blockSize).getD ((h b).length + i - k) 0) := by
        simp [filterBlock, size, inBlock]
      rw [accumulate_eq rep below ((Mem.holds_write holdsTaken).mpr holdsIn) inBlock,
        Mem.read_write_of_apart holdsTaken apartTaken, List.take_add_one, next, Option.toList_some]
      have stored := Mem.store_write (m := mem) (p := bout)
        ((filterBlock taps (h b) (mem.read bin blockSize)).take i)
        (tapSum taps fun k => (h b ++ mem.read bin blockSize).getD ((h b).length + i - k) 0)
        (by rw [taken]; exact Nat.le_trans (by omega) holdsOut)
      rw [taken] at stored
      exact stored)
  rw [List.take_zero, Mem.write_nil] at trace
  rw [trace, List.take_of_length_le (Nat.le_of_eq length)]

omit [Zero S] [Add S] [HMul S T S] in
/-- Whatever the block now holds is pushed into the lane's history slice; the
other slices stay. -/
theorem updateHistory_represents (rep : Represents taps blockSize batch h s) (below : b < batch)
    {mem : Mem S} {bin : Ptr} (holds : mem.Holds bin blockSize) :
    ∃ s', updateHistory s bin (b * (taps.length - 1)) mem = some s' ∧
      Represents taps blockSize batch
        (Function.update h b (shiftIn (h b) (mem.read bin blockSize))) s' := by
  have width := rep.width b below
  have widths : ∀ c, c < batch →
      (Function.update h b (shiftIn (h b) (mem.read bin blockSize)) c).length =
        taps.length - 1 := by
    intro c hc
    by_cases same : c = b
    · rw [same, Function.update_self, length_shiftIn, width]
    · rw [Function.update_of_ne same, rep.width c hc]
  unfold updateHistory
  by_cases flat : s.historyLen = 0
  · rw [if_pos flat]
    rw [rep.historyLen_eq] at flat
    refine ⟨s, rfl, { rep with width := widths, history_eq := ?_ }⟩
    have empty : ∀ c, c < batch → h c =
        Function.update h b (shiftIn (h b) (mem.read bin blockSize)) c := by
      intro c hc
      rw [List.length_eq_zero_iff.mp ((rep.width c hc).trans flat),
        List.length_eq_zero_iff.mp ((widths c hc).trans flat)]
    rw [rep.history_eq]
    exact lanes_congr empty
  · rw [if_neg flat]
    have size := Mem.length_read holds
    have total : (h b ++ mem.read bin blockSize).length = taps.length - 1 + blockSize := by
      rw [List.length_append, width, size]
    have start : (h b ++ mem.read bin blockSize).length - s.historyLen =
        (mem.read bin blockSize).length := by
      rw [total, rep.historyLen_eq, size]
      omega
    have inside := rep.history_end_le below
    have shifted : (shiftIn (h b) (mem.read bin blockSize)).length = taps.length - 1 := by
      rw [length_shiftIn, width]
    rw [rep.blockSize_eq, Mem.loadRange_eq holds, rep.historyLen_eq, loadSegment_eq inside,
      rep.segment_history below]
    simp only [Option.bind_eq_bind, Option.bind_some]
    rw [← rep.historyLen_eq,
      sizeSub_eq (by rw [total, rep.historyLen_eq]; omega), start, Option.bind_some]
    change ∃ s', ((storeSegment s.history _ (shiftIn (h b) (mem.read bin blockSize))).bind _) =
      some s' ∧ _
    rw [rep.historyLen_eq, storeSegment_eq (by rw [shifted]; exact inside), Option.bind_some]
    refine ⟨_, rfl, ⟨rfl, rep.batch_eq, rep.tapCount_eq, rep.taps_eq,
      widths, ?_, rep.history_lt, Nat.le_of_eq total⟩⟩
    change overwrite s.history _ _ = _
    rw [rep.history_eq, overwrite_lanes rep.width below shifted]

/-- One lane of a call whose output lane does not meet its input lane. -/
theorem executeLane_distinct (rep : Represents taps blockSize batch h s) (below : b < batch)
    {mem : Mem S} {input output : Ptr}
    (holdsIn : mem.Holds (input.add (b * blockSize)) blockSize)
    (holdsOut : mem.Holds (output.add (b * blockSize)) blockSize)
    (apart : Apart (input.add (b * blockSize)) blockSize (output.add (b * blockSize)) blockSize) :
    ∃ s', executeLane input output b (mem, s) =
        some (mem.write (output.add (b * blockSize))
          (filterBlock taps (h b) (laneBlock blockSize mem input b)), s') ∧
      Represents taps blockSize batch
        (Function.update h b (shiftIn (h b) (laneBlock blockSize mem input b))) s' := by
  have filtered : filterLane s (input.add (b * blockSize)) (output.add (b * blockSize))
      (b * (taps.length - 1)) mem = some (mem.write (output.add (b * blockSize))
        (filterBlock taps (h b) (laneBlock blockSize mem input b))) :=
    filterLane_distinct rep below holdsIn holdsOut apart
  have length : (filterBlock taps (h b) (laneBlock blockSize mem input b)).length = blockSize := by
    rw [length_filterBlock, laneBlock, Mem.length_read holdsIn]
  have holdsWritten : mem.Holds (output.add (b * blockSize))
      (filterBlock taps (h b) (laneBlock blockSize mem input b)).length := by
    rw [length]
    exact holdsOut
  have kept : (mem.write (output.add (b * blockSize))
      (filterBlock taps (h b) (laneBlock blockSize mem input b))).read
        (input.add (b * blockSize)) blockSize = laneBlock blockSize mem input b :=
    Mem.read_write_of_apart holdsWritten (by rw [length]; exact apart)
  obtain ⟨s', updated, rep'⟩ := updateHistory_represents rep below
    ((Mem.holds_write holdsWritten).mpr holdsIn)
  rw [kept] at rep'
  refine ⟨s', ?_, rep'⟩
  simp only [executeLane, rep.blockSize_eq, rep.laneStart_eq below, filtered, updated,
    Option.bind_eq_bind, Option.bind_some]

end Lane

/-! ## The whole call, output distinct from input -/

section Call

variable [Zero S] [Add S] [HMul S T S] {taps : List T} {blockSize batch : Nat}
  {h : Nat → List S} {s : PortableState S T}

/-- `portable_execute` returns `Ok`, writes exactly the filtered lanes, and
pushes each lane's block into that lane's history. -/
theorem portableExecute_distinct (rep : Represents taps blockSize batch h s) {mem : Mem S}
    {input output : Ptr} (holdsIn : mem.Holds input (batch * blockSize))
    (holdsOut : mem.Holds output (batch * blockSize))
    (apart : Apart input (batch * blockSize) output (batch * blockSize)) :
    ∃ s', portableExecute s mem input output =
        some (.ok, mem.write output (filteredLanes taps blockSize batch h mem input), s') ∧
      Represents taps blockSize batch
        (fun b => shiftIn (h b) (laneBlock blockSize mem input b)) s' := by
  obtain ⟨s', run, rep'⟩ := forLoop_filterLanes (Represents taps blockSize batch)
    holdsIn holdsOut (.inr apart) rep
    (by
      intro b below g m t repB holdsLane holdsOutLane
      have laneEnd := lane_end_le blockSize below
      exact executeLane_distinct repB below holdsLane holdsOutLane (apart.mono laneEnd laneEnd))
  have advanced : ∀ b, b < batch →
      (if b < batch then shiftIn (h b) (laneBlock blockSize mem input b) else h b) =
        shiftIn (h b) (laneBlock blockSize mem input b) :=
    fun b below => if_pos below
  refine ⟨s', ?_, { rep' with width := ?_, history_eq := ?_ }⟩
  · rw [portableExecute, rep.batch_eq, run]
    rfl
  · intro b below
    rw [← advanced b below]
    exact rep'.width b below
  · rw [rep'.history_eq]
    exact lanes_congr advanced

end Call

/-! ## A history without room for all lanes -/

section Short

variable [Zero S] [Add S] [HMul S T S] {input output : Ptr}

/-- A lane that does not fault has had its slice inside the history, and keeps
the sizes. -/
theorem executeLane_eq_some {b : Nat} {mem mem' : Mem S} {s s' : PortableState S T}
    (ran : executeLane input output b (mem, s) = some (mem', s')) :
    (s.historyLen ≠ 0 → mulSize b s.historyLen + s.historyLen ≤ s.history.length) ∧
      s'.tapCount = s.tapCount ∧ s'.history.length = s.history.length := by
  simp only [executeLane, Option.bind_eq_bind, Option.bind_eq_some_iff] at ran
  obtain ⟨filtered, -, next, updated, result⟩ := ran
  cases result
  unfold updateHistory at updated
  split at updated
  · rename_i flat
    cases updated
    exact ⟨fun kept => absurd flat kept, rfl, rfl⟩
  · simp only [Option.bind_eq_bind, Option.bind_eq_some_iff] at updated
    obtain ⟨old, loaded, block, -, start, -, history, stored, result⟩ := updated
    cases result
    refine ⟨fun _ => ?_, rfl, length_storeSegment stored⟩
    unfold loadSegment at loaded
    split at loaded
    · assumption
    · cases loaded

/-- No call goes through on a history that is too short for its lanes: the first
lane whose slice ends behind it reads there. -/
theorem portableExecute_of_short {s : PortableState S T} (mem : Mem S)
    (small : s.history.length < 2 ^ 64) (short : s.history.length < s.batch * s.historyLen) :
    portableExecute s mem input output = none := by
  rw [Option.eq_none_iff_forall_ne_some]
  intro result ran
  simp only [portableExecute, Option.bind_eq_bind, Option.bind_eq_some_iff] at ran
  obtain ⟨⟨mem', s'⟩, looped, -⟩ := ran
  obtain ⟨b, below, starts, ends⟩ := exists_lane_past short
  obtain ⟨⟨m, t⟩, ⟨m', t'⟩, before, lane⟩ := forLoop_eq_some looped below
  -- the lanes before keep the sizes
  obtain ⟨taps, length⟩ := forLoop_partial
    (fun _ (ms : Mem S × PortableState S T) =>
      ms.2.tapCount = s.tapCount ∧ ms.2.history.length = s.history.length) ⟨rfl, rfl⟩
    (fun _ _ _ _ same step =>
      have kept := (executeLane_eq_some step).2
      ⟨kept.1.trans same.1, kept.2.trans same.2⟩)
    before
  have width : t.historyLen = s.historyLen := by
    rw [PortableState.historyLen_eq, PortableState.historyLen_eq]
    exact congrArg (· - 1) taps
  have room := (executeLane_eq_some lane).1
  rw [width, length, mulSize_of_lt (Nat.lt_of_le_of_lt starts small)] at room
  have kept : s.historyLen ≠ 0 := by
    intro flat
    rw [flat, Nat.mul_zero] at short
    exact Nat.not_lt_zero _ short
  exact Nat.not_le_of_lt ends (room kept)

/-- Every run of a plan that begins with an execute faults where the product of
the sizes wraps. -/
theorem run_of_wraps (sizeofSample sizeofTap : Nat) {taps : List T} (blockSize : Nat) {batch : Nat}
    (wraps : 2 ^ 64 ≤ batch * (taps.length - 1)) (mem : Mem S) (later : List (FirCall S)) :
    (makeTyped sizeofSample sizeofTap taps blockSize batch).run
      (.execute mem input output :: later) = none := by
  have length := length_history_createSized (S := S) taps blockSize batch
  have width : (PortableState.createSized taps blockSize batch : PortableState S T).historyLen =
      taps.length - 1 := PortableState.historyLen_eq _
  have small : (PortableState.createSized taps blockSize batch : PortableState S T).history.length <
      2 ^ 64 := by
    rw [length]
    exact mulSize_lt _ _
  have faults : portableExecute (PortableState.createSized taps blockSize batch) mem input output =
      none :=
    portableExecute_of_short mem small (by rw [width]; exact Nat.lt_of_lt_of_le small wraps)
  simp only [BackendPlan.run, runSteps, BackendPlan.step, makeTyped, faults, Option.map_none,
    Option.bind_none]

end Short

end DspDispatch.Fir.Portable
