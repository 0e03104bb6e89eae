import DspDispatch.Fir.Ipp

/-!
# Streaming and failure atomicity of the IPP FIR backend

A run of calls in which any `ippsFIRSR` call may fail. The stream of a lane is
made of the blocks of the executes that returned `Ok`; the live delay lines are
the delay lines of these streams after every call, so an execute that returned
an error has left no trace in the filter. This takes delay vectors with room for
all lanes; a plan whose vectors have wrapped to nothing forgets its streams.
-/

namespace DspDispatch.Fir.Ipp

open Kit

variable {S T : Type}

/-- Lane `b`'s segments of the blocks of all executes since the last clear that
returned `Ok`. -/
def okStream (blockSize b : Nat) (past : List (FirCall S × FirOutcome S)) : List S :=
  past.foldl (fun xs made =>
    match made with
    | (.execute mem input _, .executed .ok _) => xs ++ laneBlock blockSize mem input b
    | (.execute _ _ _, _) => xs
    | (.clear, _) => []) []

@[simp] theorem okStream_nil (blockSize b : Nat) :
    okStream blockSize b ([] : List (FirCall S × FirOutcome S)) = [] := rfl

theorem okStream_ok (blockSize b : Nat) (past : List (FirCall S × FirOutcome S)) (mem mem' : Mem S)
    (input output : Ptr) :
    okStream blockSize b (past ++ [(.execute mem input output, .executed .ok mem')]) =
      okStream blockSize b past ++ laneBlock blockSize mem input b := by
  simp [okStream]

/-- A failed execute adds nothing to the stream. -/
theorem okStream_failed (blockSize b : Nat) (past : List (FirCall S × FirOutcome S))
    (mem mem' : Mem S) (input output : Ptr) {st : Status} (failed : st ≠ .ok) :
    okStream blockSize b (past ++ [(.execute mem input output, .executed st mem')]) =
      okStream blockSize b past := by
  cases st with
  | ok => exact absurd rfl failed
  | nullPointer => simp [okStream]
  | invalidArgument => simp [okStream]
  | unsupportedConfig => simp [okStream]
  | backendError => simp [okStream]

theorem okStream_clear (blockSize b : Nat) (past : List (FirCall S × FirOutcome S))
    (outcome : FirOutcome S) : okStream blockSize b (past ++ [(.clear, outcome)]) = [] := by
  simp [okStream]

section Run

variable [AddCommMonoid S] [HMul S T S] {lib : IppLib T} {taps : List T} {spec : List UInt8}
  {blockSize batch : Nat}

/-- The live delay lines are those of the streams of the successful executes. -/
def Remembers (taps : List T) (spec : List UInt8) (blockSize batch : Nat)
    (past : List (FirCall S × FirOutcome S)) (ks : Nat × IppFirState S) : Prop :=
  ∃ stale, Represents taps spec blockSize batch
    (fun b => delayLine (taps.length - 1) (okStream blockSize b past)) stale ks.2

/-- The answer a call owes after `past`. Every execute writes at most its output
buffer; one that returns `Ok` writes the convolved lanes there. -/
def Answers (taps : List T) (blockSize batch : Nat) (past : List (FirCall S × FirOutcome S)) :
    FirCall S → FirOutcome S → Prop
  | .execute mem input output, outcome =>
    ∃ st written, outcome = .executed st (mem.write output written) ∧
      written.length ≤ batch * blockSize ∧
      (st = .ok → written =
        convolvedLanes taps blockSize batch (fun b => okStream blockSize b past) mem input)
  | .clear, outcome => outcome = .cleared .ok

/-- One call, whether or not a lane of it fails, keeps the invariant and gives
the answer it owes. -/
theorem step_remembers (sizeofSample : Nat) {firSR : Nat → Nat → FirSR S} {s₀ : IppFirState S}
    (performs : ∀ k b, (firSR k b).Performs taps spec)
    {past : List (FirCall S × FirOutcome S)} {ks : Nat × IppFirState S} {call : FirCall S}
    (remembers : Remembers taps spec blockSize batch past ks)
    (usable : call.Usable (batch * blockSize)) :
    ∃ outcome ks', (backendPlan sizeofSample firSR s₀).step ks call = some (outcome, ks') ∧
      Answers taps blockSize batch past call outcome ∧
      Remembers taps spec blockSize batch (past ++ [(call, outcome)]) ks' := by
  obtain ⟨k, s⟩ := ks
  obtain ⟨stale, rep⟩ := remembers
  cases call with
  | execute mem input output =>
    obtain ⟨holdsIn, holdsOut, overlap⟩ := usable
    obtain ⟨st, written, s', stale', executed, short, verdict⟩ :=
      ippExecute_represents rep (performs k) holdsIn holdsOut overlap
    refine ⟨.executed st (mem.write output written), (k + 1, s'), ?_,
      ⟨st, written, rfl, short, ?_⟩, stale', ?_⟩
    · simp only [BackendPlan.step, backendPlan, executed, Option.map_some]
    · intro success
      rcases verdict with ⟨-, wrote, -⟩ | ⟨failed, -⟩
      · rw [wrote, filteredLanes_delayLine (fun _ _ => rfl) holdsIn]
      · exact absurd success failed
    · rcases verdict with ⟨rfl, -, rep'⟩ | ⟨failed, rep'⟩
      · simp only [okStream_ok, delayLine_append]
        exact rep'
      · simp only [okStream_failed _ _ _ _ _ _ _ failed]
        exact rep'
  | clear =>
    obtain ⟨s', cleared, rep'⟩ := ippClear_represents rep
    refine ⟨.cleared .ok, (k, s'), ?_, rfl, fun _ => delayLine (taps.length - 1) [], ?_⟩
    · simp only [BackendPlan.step, backendPlan, cleared, Option.map_some]
    · simp only [okStream_clear]
      exact rep'

/-- Every run of an accepted plan whose delay vectors have room for all lanes goes
through, whatever lanes fail, and every call in it gives the answer it owes. -/
theorem run_remembers {sizeofSample : Nat} {firSR : Nat → Nat → FirSR S}
    {plan : BackendPlan (Nat × IppFirState S) S}
    (made : makeTyped sizeofSample lib firSR taps taps.length blockSize batch = .ok plan)
    (nonempty : 0 < taps.length) (fits : batch * (taps.length - 1) < 2 ^ 64)
    (filters : ∀ k b, lib.Filters (firSR k b)) (calls : List (FirCall S))
    (usable : ∀ call ∈ calls, call.Usable (batch * blockSize)) :
    ∃ outcomes ks spec, plan.run calls = some (outcomes, ks) ∧
      outcomes.length = calls.length ∧
      Remembers taps spec blockSize batch (calls.zip outcomes) ks ∧
      ∀ k call outcome, calls[k]? = some call → outcomes[k]? = some outcome →
        Answers taps blockSize batch ((calls.zip outcomes).take k) call outcome := by
  obtain ⟨s, buffer, spec, rfl, initialised, rep⟩ :=
    makeTyped_represents made nonempty fits
  have performs : ∀ k b, (firSR k b).Performs taps spec :=
    fun k b => filters k b taps buffer spec initialised
  obtain ⟨outcomes, ks, run, length, remembers, answers⟩ :=
    runSteps_history (Remembers taps spec blockSize batch)
      (fun call => call.Usable (batch * blockSize)) (Answers taps blockSize batch)
      (fun _ _ _ remembers ok => step_remembers sizeofSample performs remembers ok)
      calls [] (0, s) ⟨_, rep⟩ usable
  exact ⟨outcomes, ks, spec, run, length, remembers, answers⟩

end Run

/-- Streaming and failure atomicity on a run of calls of a plan. Each execute
writes inside its output buffer only. If it returns `Ok`, it writes at position `i`
of lane `b` the convolution of the taps with `x`, lane `b`'s stream of the blocks of
the `Ok` executes since the last clear, this block included. After the run the live
delay lines are those of these streams, so an execute that returned an error is as
if it had not been called. -/
def FailureAtomic {R : Type} [CommRing R] (cfg : FirPlanConfig R)
    (plan : BackendPlan (Nat × IppFirState (SampleOf R cfg.type)) (SampleOf R cfg.type))
    (calls : List (FirCall (SampleOf R cfg.type))) : Prop :=
  ∃ outcomes ks, plan.run calls = some (outcomes, ks) ∧
    ks.2.delayA = lanes cfg.batch (fun b =>
      delayLine (cfg.tapCount - 1) (okStream cfg.blockSize b (calls.zip outcomes))) ∧
    ∀ k mem input output, calls[k]? = some (.execute mem input output) →
      ∃ st written, outcomes[k]? = some (.executed st (mem.write output written)) ∧
        written.length ≤ cfg.batch * cfg.blockSize ∧
        (st = .ok → ∀ b, b < cfg.batch → ∀ i, i < cfg.blockSize →
          let before := okStream cfg.blockSize b ((calls.zip outcomes).take k)
          let x := before ++ laneBlock cfg.blockSize mem input b
          let n := before.length + i
          (mem.write output written).load output (b * cfg.blockSize + i) =
            some (∑ j : Fin cfg.tapList.length,
              sampleAt x ((n : Int) - (j : Nat)) * cfg.tapList.get j))

/-- An accepted plan is failure atomic on every run of execute and clear calls,
whatever lanes of whatever executes fail, exactly when the number of samples its
delay vectors are to hold is a `size_t` value. -/
theorem ipp_failure_atomic_iff {R : Type} [CommRing R]
    (ipp : FirPrecision → (t : FirType) → IppLib (TapOf R t)) (cfg : FirPlanConfig R)
    (firSR : Nat → Nat → FirSR (SampleOf R cfg.type))
    (plan : BackendPlan (Nat × IppFirState (SampleOf R cfg.type)) (SampleOf R cfg.type))
    (made : makeBackendPlan ipp cfg firSR = .ok plan)
    (filters : ∀ k b, (ipp cfg.precision cfg.type).Filters (firSR k b)) :
    (∀ calls : List (FirCall (SampleOf R cfg.type)),
      (∀ call ∈ calls, call.Usable (cfg.batch * cfg.blockSize)) → FailureAtomic cfg plan calls) ↔
      cfg.batch * (cfg.tapCount - 1) < 2 ^ 64 := by
  unfold makeBackendPlan at made
  split at made
  · cases made
  · rename_i valid
    split at made
    · cases made
    · have accepted : invalidCommon cfg = false := by simpa using valid
      have tapCount := cfg.length_tapList accepted
      have nonempty : 0 < cfg.tapList.length :=
        (invalidCommon_eq_false accepted).2.1.trans_eq tapCount.symm
      rw [← tapCount] at made ⊢
      constructor
      · -- the vectors of a new plan hold the lines of empty streams
        intro atomic
        obtain ⟨work, buffer, spec, rfl, -, -⟩ := makeTyped_ok made
        obtain ⟨outcomes, ks, run, live, -⟩ := atomic [] (fun _ none => absurd none List.not_mem_nil)
        cases run
        have length := congrArg List.length live
        simp only [backendPlan] at length
        rw [length_delays, mulSize_subSize nonempty (by decide), ← tapCount,
          length_lanes fun b _ => length_delayLine _ _] at length
        exact le_mulSize_iff.mp (Nat.le_of_eq length.symm)
      · intro fits calls usable
        obtain ⟨outcomes, ks, spec, run, length, ⟨stale, rep⟩, answers⟩ :=
          run_remembers made nonempty fits filters calls usable
        refine ⟨outcomes, ks, run, ?_, ?_⟩
        · rw [← tapCount]
          exact rep.delayA_eq
        intro k mem input output here
        have inRun : k < calls.length := (List.getElem?_eq_some_iff.mp here).1
        obtain ⟨holdsIn, holdsOut, -⟩ := usable _ (List.mem_of_getElem? here)
        obtain ⟨st, written, outcome, short, onSuccess⟩ :=
          answers k _ outcomes[k] here (List.getElem?_eq_getElem (by omega))
        refine ⟨st, written, ?_, short, ?_⟩
        · rw [List.getElem?_eq_getElem (by omega), outcome]
        · intro success b below i inBlock before x n
          rw [onSuccess success, load_convolvedLanes
            (fun b => okStream cfg.blockSize b ((calls.zip outcomes).take k)) holdsOut below
            inBlock, convolveAt, tapSum_eq_sum]

/-! ## Instances -/

/-- A filter with these taps that fails on demand, leaving garbage. -/
def plainFirSR (taps : List Int) (fails : Bool) : FirSR Int := fun src _ dly work =>
  if fails then ⟨.sizeErr, src.map fun _ => 99, List.replicate (taps.length - 1) 99, work⟩
  else ⟨.noErr, filterBlock taps (delaySamples taps.length dly) src,
    shiftIn (delaySamples taps.length dly) src, work⟩

/-- A library that accepts only these taps, in real arithmetic. -/
def plainLib (taps : List Int) : (t : FirType) → IppLib (TapOf Int t)
  | .real =>
    { getSize := fun _ => (.noErr, 8, 0)
      init := fun (ts : List Int) _ buffer =>
        (if ts = taps then .noErr else .firLenErr, buffer) }
  | .complexRealTaps => ⟨fun _ => (.algTypeErr, 0, 0), fun _ _ buffer => (.algTypeErr, buffer)⟩
  | .complex => ⟨fun _ => (.algTypeErr, 0, 0), fun _ _ buffer => (.algTypeErr, buffer)⟩

theorem plainFirSR_performs (taps : List Int) (fails : Bool) (spec : List UInt8) :
    (plainFirSR taps fails).Performs taps spec where
  length_dst src dly work := by
    cases fails <;> simp [plainFirSR]
  length_dlyDst src dly work width := by
    cases fails
    · exact (length_shiftIn _ _).trans width
    · exact List.length_replicate
  length_work src dly work := by
    cases fails <;> rfl
  dst_eq src dly work width success i inBlock := by
    cases fails with
    | true => cases success
    | false =>
      change (filterBlock taps (delaySamples taps.length dly) src)[i]? = _
      rw [filterBlock, List.getElem?_map, List.getElem?_range inBlock, Option.map_some,
        tapSum_eq_sum, width]
  dlyDst_eq src dly work width success := by
    cases fails with
    | true => cases success
    | false => rfl

theorem plainLib_filters (taps : List Int) (fails : Bool) :
    IppLib.Filters (S := Int) (T := Int) (plainLib taps .real) (plainFirSR taps fails) := by
  intro (ts : List Int) buffer spec initialised
  by_cases accepted : ts = taps
  · rw [accepted]
    exact plainFirSR_performs taps fails spec
  · simp only [plainLib, if_neg accepted] at initialised
    cases initialised

/-- The library accepts its taps in blocks of one sample. -/
theorem plainLib_accepted {taps : List Int} {tapCount batch : Nat}
    (same : taps.length = tapCount) (nonempty : 0 < tapCount) (short : tapCount < 2 ^ 31)
    (lanes : 0 < batch) (firSR : Nat → Nat → FirSR Int) :
    makeBackendPlan (fun _ => plainLib taps) (realConfig taps same 1 batch) firSR =
      .ok (backendPlan (S := Int) 4 firSR ⟨1, batch, tapCount, List.replicate 8 0, [],
        delays tapCount batch, delays tapCount batch⟩) := by
  have valid : invalidCommon (realConfig taps same 1 batch) = false := by
    simp only [invalidCommon, realConfig, Bool.or_eq_false_iff, beq_eq_false_iff_ne]
    exact ⟨⟨⟨rfl, by omega⟩, by decide⟩, by omega⟩
  have ranges : (exceedsInt tapCount || exceedsInt 1) = false := by
    simp only [exceedsInt, Bool.or_eq_false_iff, decide_eq_false_iff_not]
    omega
  have init : (plainLib taps .real).init taps (toInt32 tapCount) (List.replicate 8 0) =
      (.noErr, List.replicate 8 0) := by
    simp only [plainLib, if_true]
  unfold makeBackendPlan
  rw [valid, if_neg Bool.false_ne_true, if_neg (by simp [realConfig])]
  change makeTyped 4 (plainLib taps .real) firSR taps tapCount 1 batch = _
  have size : (plainLib taps .real).getSize (toInt32 tapCount) = (.noErr, 8, 0) := rfl
  have count : (8 : Int).toNat = 8 := rfl
  simp only [makeTyped, ranges, size, count, init]
  rfl

/-- A filter with the taps 3 and 5. -/
abbrev twoTapFirSR : Bool → FirSR Int := plainFirSR [3, 5]

abbrev twoTapLib : (t : FirType) → IppLib (TapOf Int t) := plainLib [3, 5]

theorem length_twoTaps : ([3, 5] : List Int).length = 2 := rfl

/-- Two lanes of blocks of one sample. -/
def twoTapConfig : FirPlanConfig Int := realConfig [3, 5] length_twoTaps 1 2

/-- The second lane of the second execute fails. -/
theorem ipp_failure_atomic_iff_two_lanes :
    let block (v w : Int) : FirCall Int := .execute ⟨fun _ => [v, w]⟩ ⟨0, 0⟩ ⟨1, 0⟩
    let firSR (k b : Nat) : FirSR Int := twoTapFirSR (k == 1 && b == 1)
    ∃ plan, makeBackendPlan (fun _ => twoTapLib) twoTapConfig firSR = .ok plan ∧
      FailureAtomic twoTapConfig plan [block 7 1, block 8 2, .clear, block 9 4] := by
  intro block firSR
  have usable : ∀ call ∈ [block 7 1, block 8 2, .clear, block 9 4],
      call.Usable (twoTapConfig.batch * twoTapConfig.blockSize) := by
    intro call member
    simp only [List.mem_cons, List.not_mem_nil, or_false] at member
    rcases member with rfl | rfl | rfl | rfl
    · exact ⟨by decide, by decide, .inr (by decide)⟩
    · exact ⟨by decide, by decide, .inr (by decide)⟩
    · trivial
    · exact ⟨by decide, by decide, .inr (by decide)⟩
  have made := plainLib_accepted length_twoTaps (by decide) (by decide) (by decide : 0 < 2) firSR
  have atomic := ipp_failure_atomic_iff (fun _ => twoTapLib) twoTapConfig firSR _ made
    fun _ _ => plainLib_filters _ _
  exact ⟨_, made, atomic.mpr (by decide) _ usable⟩

/-! ### Delay vectors that wrap -/

theorem laneBlock_constant {batch b : Nat} (below : b < batch) (v : Int) :
    laneBlock 1 ⟨fun _ => List.replicate (batch * 1) v⟩ ⟨0, 0⟩ b = [v] := by
  have inside := lane_end_le 1 below
  exact segment_replicate v (by rw [Ptr.add_offset, Nat.zero_add]; exact inside)

/-- A plan with empty delay vectors has forgotten a block of ones when it filters the
block of zeros behind it. -/
theorem run_null (taps : List Int) (tapCount : Nat) {batch : Nat} (spec : List UInt8)
    (lanes : 0 < batch) :
    let plan := backendPlan 4 (fun _ _ => plainFirSR taps false)
      ⟨1, batch, tapCount, spec, [], [], []⟩
    ∃ first second ks,
      plan.run [constantCall (batch * 1) 1 ⟨1, 0⟩, constantCall (batch * 1) 0 ⟨1, 0⟩] =
        some ([.executed .ok first, .executed .ok second], ks) ∧
      second.load ⟨1, 0⟩ 0 = some 0 := by
  intro plan
  let served (v : Int) : Mem Int := (⟨fun _ => List.replicate (batch * 1) v⟩ : Mem Int).write ⟨1, 0⟩
    (convolvedLanes taps 1 batch (fun _ => []) ⟨fun _ => List.replicate (batch * 1) v⟩ ⟨0, 0⟩)
  have serves : ∀ (k : Nat) (work : List UInt8) (v : Int), ∃ work',
      plan.step (k, ⟨1, batch, tapCount, spec, work, [], []⟩) (constantCall (batch * 1) v ⟨1, 0⟩) =
        some (.executed .ok (served v), (k + 1, ⟨1, batch, tapCount, spec, work', [], []⟩)) := by
    intro k work v
    obtain ⟨holdsIn, holdsOut, overlap⟩ := (constantCall_distinct (batch * 1) v).usable
    have performs : ∀ b : Nat, ((fun _ => plainFirSR taps false) b : FirSR Int).Performs taps spec :=
      fun _ => plainFirSR_performs taps false spec
    obtain ⟨work', ran⟩ := ippExecute_null (s := ⟨1, batch, tapCount, spec, work, [], []⟩)
      (Nat.one_lt_two_pow (by decide)) rfl rfl rfl performs (fun _ _ _ _ => rfl) holdsIn holdsOut
      overlap
    have nothing : ∀ b, b < batch → delayLine (taps.length - 1) ([] : List Int) =
        delayLine (taps.length - 1) ((fun _ => []) b) := fun _ _ => rfl
    rw [filteredLanes_delayLine nothing holdsIn] at ran
    refine ⟨work', ?_⟩
    simp only [plan, BackendPlan.step, backendPlan, constantCall, ran, Option.map_some]
    rfl
  obtain ⟨work, first⟩ := serves 0 [] 1
  obtain ⟨work', second⟩ := serves 1 work 0
  refine ⟨served 1, served 0, _, runSteps_cons_of first (runSteps_cons_of second rfl), ?_⟩
  have holdsOut := (constantCall_distinct (batch * 1) (0 : Int)).2.1
  have written : (served 0).load ⟨1, 0⟩ (0 * 1 + 0) = some (convolveAt taps
      ([] ++ laneBlock 1 ⟨fun _ => List.replicate (batch * 1) 0⟩ ⟨0, 0⟩ 0) (0 + 0)) :=
    load_convolvedLanes (fun _ => []) holdsOut lanes Nat.zero_lt_one
  rw [Nat.zero_mul, Nat.zero_add] at written
  rw [written, laneBlock_constant lanes, convolveAt, tapSum_eq_sum]
  refine congrArg some (Finset.sum_eq_zero fun k _ => ?_)
  have silent : ∀ j : Int, sampleAt [(0 : Int)] j = 0 := fun j => by
    unfold sampleAt
    split
    · rw [List.getD_eq_getElem?_getD, ← List.replicate_one, List.getElem?_replicate]
      split <;> rfl
    · rfl
  exact mul_eq_zero_of_left (silent _) _

/-- `2 ^ 34` lanes of `2 ^ 30` delay samples each: the vectors of an accepted plan are
empty. Behind a block of ones the taps, all ones, are due 1 for the first zero, and the
plan puts out 0. -/
theorem wrappedDelays_not_failureAtomic :
    let taps : List Int := List.replicate (2 ^ 30 + 1) 1
    let firSR (_ _ : Nat) : FirSR Int := plainFirSR taps false
    let calls : List (FirCall Int) :=
      [constantCall (2 ^ 34 * 1) 1 ⟨1, 0⟩, constantCall (2 ^ 34 * 1) 0 ⟨1, 0⟩]
    ∃ plan, makeBackendPlan (fun _ => plainLib taps) wrappingHistory firSR = .ok plan ∧
      (∀ k b, IppLib.Filters (S := Int) (T := Int) (plainLib taps .real) (firSR k b)) ∧
      (∀ call ∈ calls, call.Usable (2 ^ 34 * 1)) ∧
      (∃ first second ks, plan.run calls =
          some ([.executed .ok first, .executed .ok second], ks) ∧
        second.load ⟨1, 0⟩ 0 = some (0 : Int)) ∧
      ¬ FailureAtomic wrappingHistory plan calls := by
  intro taps firSR calls
  have ones : ∀ j, taps.get j = 1 := fun _ => List.getElem_replicate _
  have length : taps.length = 2 ^ 30 + 1 := List.length_replicate
  have made := plainLib_accepted length (by decide) (by decide) (by decide : 0 < 2 ^ 34) firSR
  have empty : (delays (2 ^ 30 + 1) (2 ^ 34) : List Int) = [] := by
    rw [delays, mulSize_subSize (by decide) (by decide), mulSize]
    rfl
  rw [empty] at made
  obtain ⟨first, second, ks, run, lost⟩ :=
    run_null taps (2 ^ 30 + 1) (List.replicate 8 0) (by decide : 0 < 2 ^ 34)
  have usable : ∀ call ∈ calls, call.Usable (2 ^ 34 * 1) := by
    intro call member
    simp only [calls, List.mem_cons, List.not_mem_nil, or_false] at member
    rcases member with rfl | rfl
    · exact (constantCall_distinct _ _).usable
    · exact (constantCall_distinct _ _).usable
  refine ⟨_, made, fun _ _ => plainLib_filters _ _, usable, ⟨first, second, ks, run, lost⟩, ?_⟩
  rintro ⟨outcomes, ks', run', -, owes⟩
  have same := run.symm.trans run'
  cases same
  obtain ⟨st, written, answered, -, due⟩ := owes 1 _ _ _ rfl
  obtain ⟨rfl, wrote⟩ := FirOutcome.executed.inj (Option.some.inj answered)
  have value := due rfl 0 (by decide : 0 < 2 ^ 34) 0 Nat.zero_lt_one
  rw [← wrote] at value
  let past : List (FirCall Int × FirOutcome Int) :=
    [(constantCall (2 ^ 34 * 1) 1 ⟨1, 0⟩, .executed .ok first)]
  have stream : okStream 1 0 past = [1] := by
    have served := okStream_ok 1 0 [] (⟨fun _ => List.replicate (2 ^ 34 * 1) 1⟩ : Mem Int) first
      ⟨0, 0⟩ ⟨1, 0⟩
    rw [laneBlock_constant (by decide : 0 < 2 ^ 34)] at served
    exact served
  have due : second.load ⟨1, 0⟩ 0 = some (∑ j : Fin taps.length,
      sampleAt (okStream 1 0 past ++
          laneBlock 1 ⟨fun _ => List.replicate (2 ^ 34 * 1) 0⟩ ⟨0, 0⟩ 0)
        ((((okStream 1 0 past).length + 0 : Nat) : Int) - (j : Nat)) * taps.get j) := value
  rw [stream, laneBlock_constant (by decide : 0 < 2 ^ 34), lost, Option.some.injEq,
    Finset.sum_eq_single (⟨1, by rw [length]; decide⟩ : Fin taps.length)] at due
  · rw [ones] at due
    have wrong : (0 : Int) = 1 := due
    exact absurd wrong (by decide)
  · intro j _ other
    rw [ones]
    rcases Nat.eq_zero_or_pos (j : Nat) with first | later
    · rw [first]
      rfl
    · have late : (j : Nat) ≠ 1 := fun same => other (Fin.ext same)
      rw [sampleAt_of_neg _ (by simp only [List.length_singleton]; omega), zero_mul]
  · exact fun absent => absurd (Finset.mem_univ _) absent

end DspDispatch.Fir.Ipp
