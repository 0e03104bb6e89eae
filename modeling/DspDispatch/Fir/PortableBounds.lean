import DspDispatch.Fir.StateSizes
import DspDispatch.Kit.Logged

/-!
# What a portable FIR plan touches

`portable_execute` once more, in the `size_t` arithmetic of the source and with a
log of its accesses. An index may wrap, and an index outside its array is a fault.
For an accepted configuration whose sizes do not wrap there is none in any run: the
plan does what the functions without the log do, and every access is one that
`Access.Allowed` describes.
-/

namespace DspDispatch.Fir.Portable

open Kit

/-- An access of a call: the lane that makes it, the first element and the number of
elements. `combined` is a new size of the scratch vector, `readCombined` a copy from
it to its end, `fill` the part of the history a clear overwrites. -/
inductive Access
  | input (lane first count : Nat)
  | output (lane first count : Nat)
  | tap (first : Nat)
  | readHistory (lane first count : Nat)
  | writeHistory (lane first count : Nat)
  | combined (size : Nat)
  | readCombined (first : Int) (size : Nat)
  | fill (count : Nat)
deriving DecidableEq, Repr

/-- The elements lie in the slice of `width` elements that lane `lane` has in an
array for `batch` lanes. -/
structure Access.Own (width batch lane first count : Nat) : Prop where
  lane_lt : lane < batch
  first_ge : lane * width ≤ first
  last_le : first + count ≤ lane * width + width

/-- The accesses of a plan with these sizes. -/
def Access.Allowed (tapCount blockSize batch : Nat) : Access → Prop
  | input lane first count => Own blockSize batch lane first count
  | output lane first count => Own blockSize batch lane first count
  | tap first => first < tapCount
  | readHistory lane first count => Own (tapCount - 1) batch lane first count
  | writeHistory lane first count => Own (tapCount - 1) batch lane first count
  | combined size => size ≤ tapCount - 1 + blockSize
  | readCombined first size => 0 ≤ first ∧ first ≤ size
  | fill count => count = batch * (tapCount - 1)

namespace SizeT

variable {S T : Type}

section Execute

variable [Zero S] [Add S] [HMul S T S]

/-- `(i >= k) ? bin[i - k] : hist[hist_len + i - k]`. -/
def operand (s : PortableState S T) (mem : Mem S) (input : Ptr) (b i k : Nat) :
    Logged Access S :=
  if i ≥ k then
    let index := mulSize b s.blockSize + subSize i k
    .access (.input b index 1) (mem.load input index)
  else
    let index := mulSize b s.historyLen + subSize (addSize s.historyLen i) k
    .access (.readHistory b index 1) s.history[index]?

/-- The loop over the taps for output sample `i`. -/
def accumulate (s : PortableState S T) (mem : Mem S) (input : Ptr) (b i : Nat) :
    Logged Access S :=
  .loop s.tapCount (fun k acc => do
    let x ← operand s mem input b i k
    let t ← .access (.tap k) s.taps[k]?
    return acc + x * t) 0

/-- The loop over the samples of one lane. -/
def filterLane (s : PortableState S T) (input output : Ptr) (b : Nat) (mem : Mem S) :
    Logged Access (Mem S) :=
  .loop s.blockSize (fun i mem => do
    let acc ← accumulate s mem input b i
    let index := mulSize b s.blockSize + i
    .access (.output b index 1) (mem.store output index acc)) mem

/-- The elements from an iterator of `combined` to its end. -/
def fromIterator (combined : List S) (first : Int) : Option (List S) :=
  if 0 ≤ first ∧ first ≤ combined.length then some (combined.drop first.toNat) else none

/-- The end of a lane. -/
def updateHistory (s : PortableState S T) (input : Ptr) (b : Nat) (mem : Mem S) :
    Logged Access (PortableState S T) :=
  if s.historyLen = 0 then return s
  else do
    let hist := mulSize b s.historyLen
    let bin := mulSize b s.blockSize
    let old ← .access (.readHistory b hist s.historyLen) (loadSegment s.history hist s.historyLen)
    .access (.combined old.length) (some ())
    let block ← .access (.input b bin s.blockSize) (mem.loadRange (input.add bin) s.blockSize)
    let combined := old ++ block
    .access (.combined combined.length) (some ())
    let first := combined.length - toInt64 s.historyLen
    let recent ← .access (.readCombined first combined.length) (fromIterator combined first)
    let history ← .access (.writeHistory b hist recent.length)
      (storeSegment s.history hist recent)
    return { s with combined := combined, history := history }

/-- The body of the loop over the lanes. -/
def executeLane (input output : Ptr) (b : Nat) (ms : Mem S × PortableState S T) :
    Logged Access (Mem S × PortableState S T) := do
  let (mem, s) := ms
  let mem ← filterLane s input output b mem
  let s ← updateHistory s input b mem
  return (mem, s)

def portableExecute (s : PortableState S T) (mem : Mem S) (input output : Ptr) :
    Logged Access (Status × Mem S × PortableState S T) := do
  let (mem, s) ← .loop s.batch (executeLane input output) (mem, s)
  return (.ok, mem, s)

def portableClear (s : PortableState S T) : Logged Access (Status × PortableState S T) := do
  let history ← .access (.fill s.history.length) (some (List.replicate s.history.length 0))
  return (.ok, { s with history := history })

/-- One call. -/
def step (s : PortableState S T) : FirCall S → Logged Access (FirOutcome S × PortableState S T)
  | .execute mem input output => do
    let (status, mem, s) ← portableExecute s mem input output
    return (.executed status mem, s)
  | .clear => do
    let (status, s) ← portableClear s
    return (.cleared status, s)

/-- The calls in order. -/
def run (s : PortableState S T) :
    List (FirCall S) → Logged Access (List (FirOutcome S) × PortableState S T)
  | [] => return ([], s)
  | call :: rest => do
    let (outcome, s) ← step s call
    let (outcomes, s) ← run s rest
    return (outcome :: outcomes, s)

end Execute

/-! ## One lane -/

/-- Sizes that do not wrap, for a vector of taps that could be made. -/
structure Fits (tapCount blockSize batch : Nat) : Prop where
  taps : tapCount < 2 ^ 63
  history : batch * (tapCount - 1) < 2 ^ 64
  buffers : batch * blockSize < 2 ^ 64
  combined : tapCount - 1 + blockSize < 2 ^ 64

section Lane

variable [Zero S] [Add S] [HMul S T S] {taps : List T} {blockSize batch b : Nat}
  {h : Nat → List S} {s : PortableState S T}

omit [Zero S] [Add S] [HMul S T S] in
/-- Where the lane's samples and its history start. -/
theorem starts (fits : Fits taps.length blockSize batch) (rep : Represents taps blockSize batch h s)
    (below : b < batch) :
    mulSize b s.blockSize = b * blockSize ∧ mulSize b s.historyLen = b * (taps.length - 1) := by
  have buffers := fits.buffers
  have inside := lane_end_le blockSize below
  refine ⟨?_, rep.laneStart_eq below⟩
  rw [rep.blockSize_eq]
  exact mulSize_of_lt (by omega)

omit [Add S] [HMul S T S] in
theorem operand_meets (fits : Fits taps.length blockSize batch)
    (rep : Represents taps blockSize batch h s) (below : b < batch) {mem : Mem S} {input : Ptr}
    (holds : mem.Holds (input.add (b * blockSize)) blockSize) {i k : Nat}
    (inBlock : i < blockSize) (isTap : k < taps.length) :
    Logged.Meets (Access.Allowed taps.length blockSize batch)
      (fun x => Portable.operand s mem (input.add (b * blockSize)) (b * (taps.length - 1)) i k =
        some x)
      (operand s mem input b i k) := by
  have found := operand_eq rep below holds inBlock isTap
  have total := fits.combined
  obtain ⟨bin, hist⟩ := starts fits rep below
  unfold operand Portable.operand at *
  rw [found]
  by_cases current : i ≥ k
  · rw [if_pos current, Mem.load_add] at found
    rw [if_pos current, bin, subSize_of_le (by omega) current]
    exact Logged.Meets.access found rfl ⟨below, by omega, by omega⟩
  · rw [if_neg current, rep.historyLen_eq, sizeSub_eq (by omega), Option.bind_some] at found
    rw [if_neg current, hist, rep.historyLen_eq, addSize_of_lt (by omega),
      subSize_of_le (by omega) (by omega)]
    exact Logged.Meets.access found rfl ⟨below, by omega, by omega⟩

theorem accumulate_meets (fits : Fits taps.length blockSize batch)
    (rep : Represents taps blockSize batch h s) (below : b < batch) {mem : Mem S} {input : Ptr}
    (holds : mem.Holds (input.add (b * blockSize)) blockSize) {i : Nat}
    (inBlock : i < blockSize) :
    Logged.Meets (Access.Allowed taps.length blockSize batch)
      (fun x => Portable.accumulate s mem (input.add (b * blockSize)) (b * (taps.length - 1)) i =
        some x)
      (accumulate s mem input b i) := by
  unfold accumulate
  rw [rep.tapCount_eq]
  refine (Logged.Meets.loop (fun k acc => do
      let x ← Portable.operand s mem (input.add (b * blockSize)) (b * (taps.length - 1)) i k
      let t ← s.taps[k]?
      some (acc + x * t)) (fun _ _ => True) trivial ?_).mono (fun _ allowed => allowed) ?_
  · intro k isTap acc _
    have tap : s.taps[k]? = some taps[k] := by
      rw [rep.taps_eq]
      exact List.getElem?_eq_getElem isTap
    refine Logged.Meets.bind (operand_meets fits rep below holds inBlock isTap) ?_
    intro x found
    refine Logged.Meets.bind (Q := fun t => t = taps[k]) (Logged.Meets.access tap rfl isTap) ?_
    intro t same
    refine Logged.Meets.pure ⟨?_, trivial⟩
    rw [found, tap, same]
    rfl
  · intro x ⟨ran, _⟩
    rw [Portable.accumulate, rep.tapCount_eq]
    exact ran

theorem filterLane_meets (fits : Fits taps.length blockSize batch)
    (rep : Represents taps blockSize batch h s) (below : b < batch) {mem : Mem S}
    {input output : Ptr} (holdsIn : mem.Holds input (batch * blockSize))
    (holdsOut : mem.Holds output (batch * blockSize)) :
    Logged.Meets (Access.Allowed taps.length blockSize batch)
      (fun mem' => Portable.filterLane s (input.add (b * blockSize)) (output.add (b * blockSize))
          (b * (taps.length - 1)) mem = some mem' ∧
        ∀ p n, mem'.Holds p n ↔ mem.Holds p n)
      (filterLane s input output b mem) := by
  have inside := lane_end_le blockSize below
  unfold filterLane Portable.filterLane
  rw [rep.blockSize_eq]
  refine Logged.Meets.loop _ (fun _ (mem' : Mem S) => ∀ p n, mem'.Holds p n ↔ mem.Holds p n)
    (fun _ _ => Iff.rfl) ?_
  intro i inBlock mem' same
  have holds : mem'.Holds (input.add (b * blockSize)) blockSize :=
    ((same _ _).mpr holdsIn).mono inside
  have room : mem'.Holds (output.add (b * blockSize)) (i + 1) :=
    ((same _ _).mpr holdsOut).mono (by omega)
  refine Logged.Meets.bind (accumulate_meets fits rep below holds inBlock) ?_
  intro acc found
  obtain ⟨mem'', stored, same'⟩ := Mem.exists_store acc room
  have bin : mulSize b blockSize = b * blockSize := by
    rw [← rep.blockSize_eq, (starts fits rep below).1, rep.blockSize_eq]
  rw [bin]
  refine Logged.Meets.access (by rw [← Mem.store_add]; exact stored) ⟨?_, ?_⟩
    ⟨below, by omega, by omega⟩
  · rw [found]
    exact stored
  · exact fun p n => (same' p n).trans (same p n)

omit [Zero S] [Add S] [HMul S T S] in
/-- What the end of a lane with a history reads and stores. -/
theorem updateHistory_parts (rep : Represents taps blockSize batch h s) (below : b < batch)
    {mem : Mem S} {bin : Ptr} (holds : mem.Holds bin blockSize) (kept : s.historyLen ≠ 0) :
    ∃ old block history, old.length = taps.length - 1 ∧ block.length = blockSize ∧
      loadSegment s.history (b * (taps.length - 1)) s.historyLen = some old ∧
      mem.loadRange bin s.blockSize = some block ∧
      storeSegment s.history (b * (taps.length - 1)) ((old ++ block).drop blockSize) =
        some history ∧
      Portable.updateHistory s bin (b * (taps.length - 1)) mem =
        some { s with combined := old ++ block, history := history } := by
  obtain ⟨s', updated, -⟩ := updateHistory_represents rep below holds
  have ran := updated
  rw [Portable.updateHistory, if_neg kept] at ran
  obtain ⟨old, loaded, ran⟩ := Option.bind_eq_some_iff.mp ran
  obtain ⟨block, read, ran⟩ := Option.bind_eq_some_iff.mp ran
  obtain ⟨start, sub, ran⟩ := Option.bind_eq_some_iff.mp ran
  obtain ⟨history, stored, ran⟩ := Option.bind_eq_some_iff.mp ran
  have lengthOld : old.length = taps.length - 1 := by
    have inside := rep.history_end_le below
    rw [rep.historyLen_eq, loadSegment_eq inside] at loaded
    cases loaded
    exact length_segment inside
  have lengthBlock : block.length = blockSize := by
    rw [rep.blockSize_eq, Mem.loadRange_eq holds] at read
    cases read
    exact Mem.length_read holds
  have start_eq : start = blockSize := by
    rw [rep.historyLen_eq, List.length_append, sizeSub_eq (by omega)] at sub
    cases sub
    omega
  rw [start_eq] at stored
  cases ran
  exact ⟨old, block, history, lengthOld, lengthBlock, loaded, read, stored, updated⟩

omit [Zero S] [Add S] [HMul S T S] in
/-- `combined.end() - hist_len` is where the block begins that is kept. -/
theorem recent_start (fits : Fits taps.length blockSize batch)
    (rep : Represents taps blockSize batch h s) {combined : List S}
    (total : combined.length = taps.length - 1 + blockSize) :
    (combined.length : Int) - toInt64 s.historyLen = blockSize ∧
      fromIterator combined blockSize = some (combined.drop blockSize) := by
  have small := Nat.lt_of_le_of_lt (Nat.sub_le taps.length 1) fits.taps
  constructor
  · rw [rep.historyLen_eq, toInt64_of_lt small, total, Nat.cast_add]
    exact add_sub_cancel_left _ _
  · rw [fromIterator, if_pos (by omega), Int.toNat_natCast]

omit [Zero S] [Add S] [HMul S T S] in
theorem updateHistory_meets (fits : Fits taps.length blockSize batch)
    (rep : Represents taps blockSize batch h s) (below : b < batch) {mem : Mem S} {input : Ptr}
    (holds : mem.Holds (input.add (b * blockSize)) blockSize) :
    Logged.Meets (Access.Allowed taps.length blockSize batch)
      (fun s' => Portable.updateHistory s (input.add (b * blockSize)) (b * (taps.length - 1)) mem =
          some s' ∧ ∃ h', Represents taps blockSize batch h' s')
      (updateHistory s input b mem) := by
  obtain ⟨s', ran, rep'⟩ := updateHistory_represents rep below holds
  unfold updateHistory
  by_cases flat : s.historyLen = 0
  · rw [Portable.updateHistory, if_pos flat] at ran ⊢
    rw [if_pos flat]
    cases ran
    exact Logged.Meets.pure ⟨rfl, _, rep'⟩
  · obtain ⟨old, block, history, lengthOld, lengthBlock, loaded, read, stored, updated⟩ :=
      updateHistory_parts rep below holds flat
    obtain ⟨bin, hist⟩ := starts fits rep below
    have total : (old ++ block).length = taps.length - 1 + blockSize := by
      rw [List.length_append, lengthOld, lengthBlock]
    have inRange : (0 : Int) ≤ blockSize ∧ (blockSize : Int) ≤ (old ++ block).length := by
      omega
    obtain ⟨first, recent⟩ := recent_start fits rep total
    have reads : Access.Own (taps.length - 1) batch b (b * (taps.length - 1)) s.historyLen :=
      ⟨below, Nat.le_refl _, by rw [rep.historyLen_eq]⟩
    have blocks : Access.Own blockSize batch b (b * blockSize) s.blockSize :=
      ⟨below, Nat.le_refl _, by rw [rep.blockSize_eq]⟩
    have writes : Access.Own (taps.length - 1) batch b (b * (taps.length - 1))
        ((old ++ block).drop blockSize).length := by
      refine ⟨below, Nat.le_refl _, ?_⟩
      rw [List.length_drop, total, Nat.add_sub_cancel]
    rw [if_neg flat, bin, hist]
    refine Logged.Meets.bind (Logged.Meets.access (Q := (old = ·)) loaded rfl reads) ?_
    intro _ same
    subst same
    refine Logged.Meets.bind (Logged.Meets.access (Q := fun _ => True) rfl trivial ?_) ?_
    · exact Nat.le_trans (Nat.le_of_eq lengthOld) (Nat.le_add_right _ _)
    intro _ _
    refine Logged.Meets.bind (Logged.Meets.access (Q := (block = ·)) read rfl blocks) ?_
    intro _ same
    subst same
    refine Logged.Meets.bind (Logged.Meets.access (Q := fun _ => True) rfl trivial ?_) ?_
    · exact Nat.le_of_eq total
    intro _ _
    rw [first]
    refine Logged.Meets.bind
      (Logged.Meets.access (Q := ((old ++ block).drop blockSize = ·)) recent rfl inRange) ?_
    intro _ same
    subst same
    refine Logged.Meets.bind (Logged.Meets.access (Q := (history = ·)) stored rfl writes) ?_
    intro _ same
    subst same
    rw [updated] at ran ⊢
    cases ran
    exact Logged.Meets.pure ⟨rfl, _, rep'⟩

/-- The state of a plan with these taps and sizes. -/
def Shape (taps : List T) (blockSize batch : Nat) (s : PortableState S T) : Prop :=
  ∃ h, Represents taps blockSize batch h s

theorem executeLane_meets (fits : Fits taps.length blockSize batch)
    (rep : Represents taps blockSize batch h s) (below : b < batch) {mem : Mem S}
    {input output : Ptr} (holdsIn : mem.Holds input (batch * blockSize))
    (holdsOut : mem.Holds output (batch * blockSize)) :
    Logged.Meets (Access.Allowed taps.length blockSize batch)
      (fun r => Portable.executeLane input output b (mem, s) = some r ∧
        Shape taps blockSize batch r.2 ∧ ∀ p n, r.1.Holds p n ↔ mem.Holds p n)
      (executeLane input output b (mem, s)) := by
  have inside := lane_end_le blockSize below
  unfold executeLane
  refine Logged.Meets.bind (filterLane_meets fits rep below holdsIn holdsOut) ?_
  intro mem' ⟨filtered, same⟩
  have holds : mem'.Holds (input.add (b * blockSize)) blockSize :=
    ((same _ _).mpr holdsIn).mono inside
  refine Logged.Meets.bind (updateHistory_meets fits rep below holds) ?_
  intro s' ⟨updated, shape⟩
  refine Logged.Meets.pure ⟨?_, shape, same⟩
  simp only [Portable.executeLane, rep.blockSize_eq, rep.laneStart_eq below, filtered, updated,
    Option.bind_eq_bind, Option.bind_some]

end Lane

/-! ## Runs -/

section Run

variable [Zero S] [Add S] [HMul S T S] {taps : List T} {blockSize batch : Nat}
  {s : PortableState S T}

/-- The caller's buffers hold a block for every lane, and may overlap. -/
def Holds (n : Nat) : FirCall S → Prop
  | .execute mem input output => mem.Holds input n ∧ mem.Holds output n
  | .clear => True

theorem portableExecute_meets (fits : Fits taps.length blockSize batch)
    (shape : Shape taps blockSize batch s) {mem : Mem S} {input output : Ptr}
    (holdsIn : mem.Holds input (batch * blockSize))
    (holdsOut : mem.Holds output (batch * blockSize)) :
    Logged.Meets (Access.Allowed taps.length blockSize batch)
      (fun r => Portable.portableExecute s mem input output = some r ∧
        Shape taps blockSize batch r.2.2)
      (portableExecute s mem input output) := by
  obtain ⟨h₀, rep₀⟩ := shape
  unfold portableExecute
  rw [rep₀.batch_eq]
  refine Logged.Meets.bind (Logged.Meets.loop (Portable.executeLane input output)
    (fun _ (ms : Mem S × PortableState S T) => Shape taps blockSize batch ms.2 ∧
      ∀ p n, ms.1.Holds p n ↔ mem.Holds p n) ⟨⟨h₀, rep₀⟩, fun _ _ => Iff.rfl⟩ ?_) ?_
  · intro b below state inv
    rcases state with ⟨mem', t⟩
    rcases inv with ⟨⟨h, rep⟩, same⟩
    refine (executeLane_meets fits rep below ((same _ _).mpr holdsIn) ((same _ _).mpr holdsOut)).mono
      (fun _ allowed => allowed) ?_
    intro r ⟨ran, shape, same'⟩
    exact ⟨ran, shape, fun p n => (same' p n).trans (same p n)⟩
  · intro state post
    rcases state with ⟨mem', t⟩
    rcases post with ⟨ran, shape, -⟩
    refine Logged.Meets.pure ⟨?_, shape⟩
    rw [Portable.portableExecute, rep₀.batch_eq, ran]
    rfl

omit [Add S] [HMul S T S] in
theorem portableClear_meets (shape : Shape taps blockSize batch s) :
    Logged.Meets (Access.Allowed taps.length blockSize batch)
      (fun r => Portable.portableClear s = some r ∧ Shape taps blockSize batch r.2)
      (portableClear s) := by
  obtain ⟨h, rep⟩ := shape
  obtain ⟨s', cleared, rep'⟩ := portableClear_represents rep
  refine Logged.Meets.bind (Logged.Meets.access (Q := (List.replicate s.history.length 0 = ·)) rfl
    rfl rep.length_history) ?_
  intro _ same
  subst same
  cases cleared
  exact Logged.Meets.pure ⟨rfl, _, rep'⟩

variable (sizeofSample sizeofTap : Nat)

/-- One call does the same as without a log, and leaves a state of the plan. -/
theorem step_meets (fits : Fits taps.length blockSize batch) (shape : Shape taps blockSize batch s)
    {call : FirCall S} (holds : Holds (batch * blockSize) call) :
    Logged.Meets (Access.Allowed taps.length blockSize batch)
      (fun r => (makeTyped sizeofSample sizeofTap taps blockSize batch).step s call = some r ∧
        Shape taps blockSize batch r.2)
      (step s call) := by
  cases call with
  | execute mem input output =>
    obtain ⟨holdsIn, holdsOut⟩ := holds
    refine Logged.Meets.bind (portableExecute_meets fits shape holdsIn holdsOut) ?_
    intro result post
    rcases result with ⟨status, mem', t⟩
    rcases post with ⟨ran, shape'⟩
    refine Logged.Meets.pure ⟨?_, shape'⟩
    simp only [BackendPlan.step, makeTyped, ran, Option.map_some]
  | clear =>
    refine Logged.Meets.bind (portableClear_meets shape) ?_
    intro result post
    rcases result with ⟨status, t⟩
    rcases post with ⟨ran, shape'⟩
    refine Logged.Meets.pure ⟨?_, shape'⟩
    simp only [BackendPlan.step, makeTyped, ran, Option.map_some]

theorem run_meets (fits : Fits taps.length blockSize batch) (calls : List (FirCall S))
    (holds : ∀ call ∈ calls, Holds (batch * blockSize) call)
    (shape : Shape taps blockSize batch s) :
    Logged.Meets (Access.Allowed taps.length blockSize batch)
      (fun r => runSteps (makeTyped sizeofSample sizeofTap taps blockSize batch).step s calls =
          some r ∧ Shape taps blockSize batch r.2)
      (run s calls) := by
  induction calls generalizing s with
  | nil => exact Logged.Meets.pure ⟨rfl, shape⟩
  | cons call rest ih =>
    refine Logged.Meets.bind (step_meets sizeofSample sizeofTap fits shape (holds call (by simp))) ?_
    intro result post
    rcases result with ⟨outcome, t⟩
    rcases post with ⟨first, shape'⟩
    refine Logged.Meets.bind (ih (fun later member => holds later (by simp [member])) shape') ?_
    intro result post
    rcases result with ⟨outcomes, t'⟩
    rcases post with ⟨later, shape''⟩
    exact Logged.Meets.pure ⟨runSteps_cons_of first later, shape''⟩

end Run

end SizeT

/-! ## Plans that have been made -/

/-- What a factory that has made a plan has seen. -/
theorem createPlan_ok {R : Type} [CommRing R] {cfg : FirPlanConfig R} {fails : Site → Bool}
    {object : Throwing.Owned (PortableState (SampleOf R cfg.type) (TapOf R cfg.type))} {l : Ledger}
    (made : (createPlan cfg).run fails = (.returned (.ok object), l)) :
    Admits cfg ∧
      AllMade fails (cfg.type.sizeofSample cfg.precision) (cfg.type.sizeofTap cfg.precision)
        object.contents ∧
      object.contents = PortableState.createSized cfg.tapList cfg.blockSize cfg.batch := by
  unfold createPlan Throwing.run at made
  cases valid : invalidCommon cfg with
  | true =>
    rw [valid, if_pos rfl] at made
    cases made
  | false =>
    rw [valid, if_neg Bool.false_ne_true] at made
    by_cases all : AllMade fails (cfg.type.sizeofSample cfg.precision)
      (cfg.type.sizeofTap cfg.precision)
      (PortableState.createSized cfg.tapList cfg.blockSize cfg.batch :
        PortableState (SampleOf R cfg.type) (TapOf R cfg.type))
    · rw [Throwing.bind_of_returned (newState_of_made all)] at made
      cases made
      exact ⟨valid, all, rfl⟩
    · obtain ⟨l', threw⟩ := newState_of_not_made (l := {}) all
      rw [Throwing.bind_of_threw threw] at made
      cases made

section Made

variable {S T : Type}

/-- What the constructor reserves for the scratch vector. -/
theorem combinedReserved_createSized [Zero S] {taps : List T} {blockSize batch : Nat}
    (nonempty : 0 < taps.length) (fits : SizeT.Fits taps.length blockSize batch) :
    (PortableState.createSized taps blockSize batch : PortableState S T).combinedReserved =
      taps.length - 1 + blockSize := by
  have small := fits.taps
  simp only [PortableState.createSized, if_pos nonempty]
  rw [subSize_of_le (by omega) nonempty, addSize_of_lt fits.combined]

/-- A vector of taps that could be made is not longer than an object can be. -/
theorem taps_lt_of_made {fails : Site → Bool} {sizeofSample sizeofTap : Nat}
    {s : PortableState S T} (all : AllMade fails sizeofSample sizeofTap s)
    (sized : 0 < sizeofTap) : s.taps.length < 2 ^ 63 := by
  rcases all.taps with none | ⟨-, fits⟩
  · omega
  · have := Nat.le_mul_of_pos_right s.taps.length sized
    unfold Throwing.maxBytes at fits
    omega

end Made

theorem sizeofTap_pos (t : FirType) (p : FirPrecision) : 0 < t.sizeofTap p := by
  cases t <;> cases p <;> decide

/-- For every plan the factory has made whose sizes do not wrap, every run of calls
does what the functions of the other modules do. No index leaves its array, every
access is an allowed one, so each lane keeps to its own slices, and the vectors keep
their sizes. -/
theorem portable_in_bounds {R : Type} [CommRing R] (cfg : FirPlanConfig R) (fails : Site → Bool)
    (object : Throwing.Owned (PortableState (SampleOf R cfg.type) (TapOf R cfg.type))) (l : Ledger)
    (made : (createPlan cfg).run fails = (.returned (.ok object), l))
    (history : cfg.batch * (cfg.tapCount - 1) < 2 ^ 64)
    (buffers : cfg.batch * cfg.blockSize < 2 ^ 64)
    (combined : cfg.tapCount - 1 + cfg.blockSize < 2 ^ 64)
    (calls : List (FirCall (SampleOf R cfg.type)))
    (holds : ∀ call ∈ calls, SizeT.Holds (cfg.batch * cfg.blockSize) call) :
    ∃ outcomes s log, SizeT.run object.contents calls = some ((outcomes, s), log) ∧
      (∀ access ∈ log, access.Allowed cfg.tapCount cfg.blockSize cfg.batch) ∧
      s.history.length = cfg.batch * (cfg.tapCount - 1) ∧
      object.contents.combinedReserved = cfg.tapCount - 1 + cfg.blockSize ∧
      s.combined.length ≤ object.contents.combinedReserved ∧
      (makeTyped (cfg.type.sizeofSample cfg.precision) (cfg.type.sizeofTap cfg.precision)
        cfg.tapList cfg.blockSize cfg.batch).run calls = some (outcomes, s) := by
  obtain ⟨valid, all, contents⟩ := createPlan_ok made
  have length := FirPlanConfig.length_tapList valid
  have nonempty : 0 < cfg.tapList.length := by
    rw [length]
    exact (invalidCommon_eq_false valid).2.1
  have taps := taps_lt_of_made all (sizeofTap_pos _ _)
  have stored : object.contents.taps = cfg.tapList := by rw [contents]; rfl
  rw [stored] at taps
  rw [← length] at history combined ⊢
  have fits : SizeT.Fits cfg.tapList.length cfg.blockSize cfg.batch :=
    ⟨taps, history, buffers, combined⟩
  have reserved : object.contents.combinedReserved = cfg.tapList.length - 1 + cfg.blockSize := by
    rw [contents]
    exact combinedReserved_createSized nonempty fits
  have start := create_represents (S := SampleOf R cfg.type) cfg.blockSize history
  rw [← contents] at start
  obtain ⟨⟨outcomes, s⟩, log, ran, ⟨plain, h, rep⟩, allowed⟩ :=
    SizeT.run_meets (cfg.type.sizeofSample cfg.precision) (cfg.type.sizeofTap cfg.precision) fits
      calls holds ⟨_, start⟩
  refine ⟨outcomes, s, log, ran, allowed, rep.length_history, reserved, ?_, ?_⟩
  · rw [reserved]
    exact rep.combined_le
  · rw [contents] at plain
    exact plain

/-- Two taps and two lanes: a block filtered in place, a clear, and a block between
buffers that overlap. -/
theorem portable_in_bounds_two_taps :
    let cfg : FirPlanConfig Int := realConfig [3, 5] rfl 2 2
    let mem : Mem Int := ⟨fun _ => [1, 2, 3, 4, 5]⟩
    let calls : List (FirCall Int) :=
      [.execute mem ⟨0, 0⟩ ⟨0, 0⟩, .clear, .execute mem ⟨0, 1⟩ ⟨0, 0⟩]
    ∃ (object : Throwing.Owned (PortableState (SampleOf Int cfg.type) (TapOf Int cfg.type)))
      (l : Ledger) (outcomes : List (FirOutcome Int))
      (s : PortableState (SampleOf Int cfg.type) (TapOf Int cfg.type)) (log : List Access),
      (createPlan cfg).run (fun _ => false) = (.returned (.ok object), l) ∧
      SizeT.run object.contents calls = some ((outcomes, s), log) ∧
      (∀ access ∈ log, access.Allowed 2 2 2) ∧ s.history.length = 2 * (2 - 1) := by
  intro cfg mem calls
  have all : AllMade (fun _ => false) 4 4 (PortableState.createSized cfg.tapList 2 2 :
      PortableState (SampleOf Int cfg.type) (TapOf Int cfg.type)) :=
    ⟨rfl, by decide, by decide +kernel, by decide +kernel⟩
  have made : (createPlan cfg).run (fun _ => false) =
      (.returned (.ok ⟨0, PortableState.createSized cfg.tapList 2 2⟩), { next := 1, alive := [0] }) :=
    Throwing.bind_of_returned (newState_of_made all)
  have holds : ∀ call ∈ calls, SizeT.Holds (2 * 2) call := by
    intro call member
    simp only [calls, List.mem_cons, List.not_mem_nil, or_false] at member
    rcases member with rfl | rfl | rfl
    · exact ⟨by decide, by decide⟩
    · trivial
    · exact ⟨by decide, by decide⟩
  obtain ⟨outcomes, s, log, ran, allowed, history, -⟩ :=
    portable_in_bounds cfg _ _ _ made (by decide) (by decide) (by decide) calls holds
  exact ⟨_, _, outcomes, s, log, made, ran, allowed, history⟩

end DspDispatch.Fir.Portable
