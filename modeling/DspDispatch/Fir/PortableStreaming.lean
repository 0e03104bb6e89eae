import DspDispatch.Fir.Portable
import Mathlib.Algebra.BigOperators.Ring.Finset

/-!
# Streaming correctness of the portable FIR backend

Over a whole run of `execute` and `clear` calls the plan's history holds, lane
by lane, the delay line of the stream since the last clear. From this invariant
every call answers with the convolution of the taps with that stream.

`run_convolves` assumes no law of the arithmetic: the convolution is the
multiply-and-accumulate in tap order. `portable_streaming_iff` has its value over
a commutative semiring, and the plans whose history has no room for their lanes.
-/

namespace DspDispatch.Fir.Portable

open Kit

variable {S T : Type}

section Run

variable [Zero S] [Add S] [HMul S T S]

/-- The answer a call owes after the calls `past`: an execute writes the
convolved lanes into its output and nothing else, and every call returns `Ok`. -/
def Answers (taps : List T) (blockSize batch : Nat) (past : List (FirCall S)) :
    FirCall S → FirOutcome S → Prop
  | .execute mem input output, outcome =>
    outcome = .executed .ok
      (mem.write output
        (convolvedLanes taps blockSize batch (fun b => laneStream blockSize b past) mem input))
  | .clear, outcome => outcome = .cleared .ok

/-- The histories are the delay lines of the lanes' streams. -/
def Remembers (taps : List T) (blockSize batch : Nat) (past : List (FirCall S))
    (s : PortableState S T) : Prop :=
  Represents taps blockSize batch
    (fun b => delayLine (taps.length - 1) (laneStream blockSize b past)) s

/-- One call keeps the invariant and gives the answer it owes. -/
theorem step_remembers (sizeofSample sizeofTap : Nat) {taps : List T} {blockSize batch : Nat}
    {past : List (FirCall S)} {s : PortableState S T} {call : FirCall S}
    (remembers : Remembers taps blockSize batch past s)
    (distinct : call.Distinct (batch * blockSize)) :
    ∃ outcome s', (makeTyped sizeofSample sizeofTap taps blockSize batch).step s call =
        some (outcome, s') ∧
      Answers taps blockSize batch past call outcome ∧
      Remembers taps blockSize batch (past ++ [call]) s' := by
  cases call with
  | execute mem input output =>
    obtain ⟨holdsIn, holdsOut, apart⟩ := distinct
    obtain ⟨s', executed, rep'⟩ := portableExecute_distinct remembers holdsIn holdsOut apart
    rw [filteredLanes_delayLine (fun _ _ => rfl) holdsIn] at executed
    refine ⟨_, s', ?_, rfl, ?_⟩
    · simp only [BackendPlan.step, makeTyped, executed, Option.map_some]
    · simp only [Remembers, laneStream_execute, delayLine_append]
      exact rep'
  | clear =>
    obtain ⟨s', cleared, rep'⟩ := portableClear_represents remembers
    refine ⟨_, s', ?_, rfl, ?_⟩
    · simp only [BackendPlan.step, makeTyped, cleared, Option.map_some]
    · simp only [Remembers, laneStream_clear]
      exact rep'

/-- Every run of a freshly created plan with distinct buffers goes through, where
the history has room for all lanes, and every call in it gives the answer it owes. -/
theorem run_convolves (sizeofSample sizeofTap : Nat) {taps : List T}
    {blockSize batch : Nat} (fits : batch * (taps.length - 1) < 2 ^ 64) (calls : List (FirCall S))
    (distinct : ∀ call ∈ calls, call.Distinct (batch * blockSize)) :
    ∃ outcomes s, (makeTyped sizeofSample sizeofTap taps blockSize batch).run calls =
        some (outcomes, s) ∧
      outcomes.length = calls.length ∧
      Remembers taps blockSize batch calls s ∧
      ∀ k call outcome, calls[k]? = some call → outcomes[k]? = some outcome →
        Answers taps blockSize batch (calls.take k) call outcome := by
  have start : Remembers taps blockSize batch []
      (makeTyped sizeofSample sizeofTap taps blockSize batch :
        BackendPlan (PortableState S T) S).state :=
    create_represents blockSize fits
  exact runSteps_total (Remembers taps blockSize batch)
    (fun call => call.Distinct (batch * blockSize)) (Answers taps blockSize batch)
    (fun _ _ _ remembers ok => step_remembers sizeofSample sizeofTap remembers ok)
    calls _ start distinct

end Run

/-- Streaming correctness on a run of calls. Every execute returns `Ok`, changes
no sample outside its output buffer, and writes at position `i` of lane `b` the sum
of `t_j * x_b(n - j)`, where `x_b` is the lane's stream since the last clear, the
new block included, and `n` the position of the sample in it. -/
def Streams {R σ : Type} [CommSemiring R] (plan : BackendPlan σ R) (taps : List R)
    (blockSize batch : Nat) (calls : List (FirCall R)) : Prop :=
  ∃ outcomes s, plan.run calls = some (outcomes, s) ∧
    ∀ k mem input output, calls[k]? = some (.execute mem input output) →
      ∃ written : List R, outcomes[k]? = some (.executed .ok (mem.write output written)) ∧
        written.length = batch * blockSize ∧
        ∀ b, b < batch → ∀ i, i < blockSize →
          let before := laneStream blockSize b (calls.take k)
          let x := before ++ laneBlock blockSize mem input b
          let n := before.length + i
          (mem.write output written).load output (b * blockSize + i) =
            some (∑ j : Fin taps.length, taps.get j * sampleAt x ((n : Int) - (j : Nat)))

/-- A plan streams correctly on every run of execute and clear calls with distinct
buffers exactly when the number of samples its history is to hold is a `size_t`
value. -/
theorem portable_streaming_iff {R : Type} [CommSemiring R] (sizeofSample sizeofTap : Nat)
    (taps : List R) (blockSize batch : Nat) :
    (∀ calls : List (FirCall R), (∀ call ∈ calls, call.Distinct (batch * blockSize)) →
      Streams (makeTyped sizeofSample sizeofTap taps blockSize batch) taps blockSize batch calls) ↔
      batch * (taps.length - 1) < 2 ^ 64 := by
  constructor
  · intro streams
    by_contra wraps
    obtain ⟨outcomes, s, run, -⟩ := streams [constantCall (batch * blockSize) 0 ⟨1, 0⟩]
      (List.forall_mem_singleton.mpr (constantCall_distinct _ _))
    rw [constantCall, run_of_wraps _ _ _ (Nat.le_of_not_lt wraps)] at run
    cases run
  · intro fits calls distinct
    obtain ⟨outcomes, s, run, length, -, answers⟩ :=
      run_convolves sizeofSample sizeofTap fits calls distinct
    refine ⟨outcomes, s, run, ?_⟩
    intro k mem input output here
    have inRun : k < calls.length := (List.getElem?_eq_some_iff.mp here).1
    obtain ⟨holdsIn, holdsOut, -⟩ := distinct _ (List.mem_of_getElem? here)
    have answer := answers k _ outcomes[k] here (List.getElem?_eq_getElem (by omega))
    refine ⟨convolvedLanes taps blockSize batch
      (fun b => laneStream blockSize b (calls.take k)) mem input, ?_, length_convolvedLanes, ?_⟩
    · rw [List.getElem?_eq_getElem (by omega)]
      exact congrArg some answer
    · intro b below i inBlock before x n
      rw [load_convolvedLanes (fun b => laneStream blockSize b (calls.take k)) holdsOut below
        inBlock, convolveAt, tapSum_eq_sum]
      congr 1
      exact Finset.sum_congr rfl fun j _ => mul_comm _ _

/-- One lane, two taps, blocks of one sample, and a clear before the last. -/
theorem portable_streaming_iff_two_taps :
    let block (v : Nat) : FirCall Nat := .execute ⟨fun _ => [v, 0]⟩ ⟨0, 0⟩ ⟨0, 1⟩
    Streams (makeTyped 4 4 [3, 5] 1 1) [3, 5] 1 1 [block 7, block 2, .clear, block 1] := by
  intro block
  refine (portable_streaming_iff 4 4 [3, 5] 1 1).mpr (by decide) _ ?_
  intro call member
  simp only [List.mem_cons, List.not_mem_nil, or_false] at member
  rcases member with rfl | rfl | rfl | rfl
  · exact ⟨by decide, by decide, by decide⟩
  · exact ⟨by decide, by decide, by decide⟩
  · trivial
  · exact ⟨by decide, by decide, by decide⟩

/-- The first execute of an accepted plan faults: its history is empty. -/
theorem wrappedHistory_not_streams :
    let plan : BackendPlan (PortableState Int Int) Int :=
      makeTyped 4 4 (List.replicate (2 ^ 30 + 1) 1) 1 (2 ^ 34)
    let call : FirCall Int := constantCall (2 ^ 34 * 1) 0 ⟨1, 0⟩
    makeBackendPlan wrappingHistory = .ok plan ∧ plan.state.history = [] ∧
      call.Distinct (2 ^ 34 * 1) ∧ plan.run [call] = none ∧
      ¬ Streams plan (List.replicate (2 ^ 30 + 1) 1) 1 (2 ^ 34) [call] := by
  intro plan call
  have taps : (List.replicate (2 ^ 30 + 1) (1 : Int)).length = 2 ^ 30 + 1 := List.length_replicate
  have faults : plan.run [call] = none :=
    run_of_wraps 4 4 1 (by rw [taps]; decide) _ []
  refine ⟨rfl, ?_, constantCall_distinct _ _, faults, ?_⟩
  · have length := length_history_createSized (S := Int) (List.replicate (2 ^ 30 + 1) (1 : Int)) 1
      (2 ^ 34)
    rw [taps, mulSize] at length
    exact List.length_eq_zero_iff.mp length
  · rintro ⟨outcomes, s, run, -⟩
    rw [faults] at run
    cases run

end DspDispatch.Fir.Portable
