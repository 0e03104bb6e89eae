import DspDispatch.Fir.PortableComponents
import DspDispatch.Kit.Feedback

/-!
# The portable FIR backend in place

An execute whose output is its input overwrites samples that later iterations and
the history update read. Each lane is then a filter that reads its own output, and
the history holds the end of that output. This module follows runs that mix calls in
place, calls with distinct buffers and clears, and says when the two kinds of calls
agree.
-/

namespace DspDispatch.Fir

open Kit

variable {S T : Type}

/-- An execute whose output is its input. -/
def FirCall.InPlace : FirCall S → Prop
  | .execute _ input output => input = output
  | .clear => False

namespace Portable

section Calls

variable [Zero S] [Add S] [HMul S T S] {taps : List T} {blockSize batch b : Nat}
  {h : Nat → List S} {s : PortableState S T}

/-! ## One lane -/

/-- In place a lane gets the outputs of the filter that reads its own. -/
theorem filterLane_inPlace (rep : Represents taps blockSize batch h s) (below : b < batch)
    {mem : Mem S} {p : Ptr} (holds : mem.Holds p blockSize) {ys : List S}
    (remembers : h b = delayLine (taps.length - 1) ys) :
    filterLane s p p (b * (taps.length - 1)) mem =
      some (mem.write p (feedbackBlock taps ys (mem.read p blockSize))) := by
  unfold filterLane
  rw [rep.blockSize_eq]
  have size := Mem.length_read holds
  -- after `i` samples the block starts with the first `i` outputs
  have trace := forLoop_trace blockSize
    (fun i mem => do
      let acc ← accumulate s mem p (b * (taps.length - 1)) i
      mem.store p i acc)
    (fun i => mem.write p (feedbackBlock taps ys ((mem.read p blockSize).take i)))
    (by
      intro i inBlock
      let done := feedbackBlock taps ys ((mem.read p blockSize).take i)
      have length : done.length = i := by
        rw [length_feedbackBlock, List.length_take]
        omega
      have holdsDone : mem.Holds p done.length := by
        rw [length]
        exact Nat.le_trans (by omega) holds
      have inside : i < (mem.read p blockSize).length := by omega
      have block : (mem.write p done).read p blockSize =
          done ++ (mem.read p blockSize)[i] :: (mem.read p blockSize).drop (i + 1) := by
        rw [Mem.read_write_front holds (by omega), length, List.drop_eq_getElem_cons inside]
      have sum : tapSum taps (fun k => (h b ++ (mem.write p done).read p blockSize).getD
            ((h b).length + i - k) 0) =
          convolveAt taps (ys ++ done ++ [(mem.read p blockSize)[i]]) (ys.length + i) := by
        apply tapSum_congr
        intro k isTap
        have whole : ys ++ (done ++ (mem.read p blockSize)[i] ::
              (mem.read p blockSize).drop (i + 1)) =
            ys ++ done ++ [(mem.read p blockSize)[i]] ++ (mem.read p blockSize).drop (i + 1) := by
          simp
        rw [block, remembers, length_delayLine, getD_delayLine_append _ _ (by omega), whole]
        refine (sampleAt_append_left _ _ ?_).trans (congrArg _ (by omega))
        rw [List.length_append, List.length_append, List.length_singleton, length]
        omega
      have stored := Mem.store_write done
        (convolveAt taps (ys ++ done ++ [(mem.read p blockSize)[i]]) (ys.length + i))
        (m := mem) (p := p) (by rw [length]; exact Nat.le_trans (by omega) holds)
      have taken : ((mem.read p blockSize).take i).length = i := by
        rw [List.length_take]
        omega
      rw [accumulate_eq rep below ((Mem.holds_write holdsDone).mpr holds) inBlock, sum,
        List.take_succ_eq_append_getElem inside, feedbackBlock_snoc, taken]
      rw [length] at stored
      exact stored)
  rw [List.take_zero, List.take_of_length_le (Nat.le_of_eq size)] at trace
  have empty : feedbackBlock taps ys [] = [] := List.length_eq_zero_iff.mp (length_feedbackBlock ys [])
  rw [empty, Mem.write_nil] at trace
  exact trace

theorem executeLane_inPlace (rep : Represents taps blockSize batch h s) (below : b < batch)
    {mem : Mem S} {p : Ptr} (holds : mem.Holds (p.add (b * blockSize)) blockSize) {ys : List S}
    (remembers : h b = delayLine (taps.length - 1) ys) :
    ∃ s', executeLane p p b (mem, s) =
        some (mem.write (p.add (b * blockSize))
          (feedbackBlock taps ys (laneBlock blockSize mem p b)), s') ∧
      Represents taps blockSize batch (Function.update h b
        (delayLine (taps.length - 1) (feedback taps ys (laneBlock blockSize mem p b)))) s' := by
  have filtered := filterLane_inPlace rep below holds remembers
  have length : (feedbackBlock taps ys (laneBlock blockSize mem p b)).length = blockSize := by
    rw [length_feedbackBlock]
    exact Mem.length_read holds
  have holdsWritten : mem.Holds (p.add (b * blockSize))
      (feedbackBlock taps ys (laneBlock blockSize mem p b)).length := by
    rw [length]
    exact holds
  have output : (mem.write (p.add (b * blockSize))
      (feedbackBlock taps ys (laneBlock blockSize mem p b))).read (p.add (b * blockSize)) blockSize =
        feedbackBlock taps ys (laneBlock blockSize mem p b) := by
    have written := Mem.read_write holdsWritten
    rwa [length] at written
  obtain ⟨s', updated, rep'⟩ := updateHistory_represents rep below
    ((Mem.holds_write holdsWritten).mpr holds)
  rw [output, remembers, ← delayLine_append, append_feedbackBlock] at rep'
  refine ⟨s', ?_, rep'⟩
  unfold laneBlock at updated
  simp only [executeLane, rep.blockSize_eq, rep.laneStart_eq below, filtered, updated,
    Option.bind_eq_bind, Option.bind_some]
  rfl

/-! ## The whole call -/

/-- The outputs of the lanes that have put out `ys b` so far. -/
def feedbackLanes (taps : List T) (blockSize batch : Nat) (ys : Nat → List S) (mem : Mem S)
    (p : Ptr) : List S :=
  lanes batch fun b => feedbackBlock taps (ys b) (laneBlock blockSize mem p b)

theorem length_feedbackLanes {ys : Nat → List S} {mem : Mem S} {p : Ptr}
    (holds : mem.Holds p (batch * blockSize)) :
    (feedbackLanes taps blockSize batch ys mem p).length = batch * blockSize :=
  length_lanes fun b below => by rw [length_feedbackBlock, length_laneBlock holds below]

/-- In place `portable_execute` returns `Ok`, replaces every lane by its outputs, and
remembers the ends of the outputs. -/
theorem portableExecute_inPlace {ys : Nat → List S}
    (rep : Represents taps blockSize batch (fun b => delayLine (taps.length - 1) (ys b)) s)
    {mem : Mem S} {p : Ptr} (holds : mem.Holds p (batch * blockSize)) :
    ∃ s', portableExecute s mem p p =
        some (.ok, mem.write p (feedbackLanes taps blockSize batch ys mem p), s') ∧
      Represents taps blockSize batch (fun b => delayLine (taps.length - 1)
        (feedback taps (ys b) (laneBlock blockSize mem p b))) s' := by
  -- after `done` lanes these lanes remember their new outputs
  let outputs : Nat → Nat → List S := fun done b =>
    if b < done then feedback taps (ys b) (laneBlock blockSize mem p b) else ys b
  have start : (fun b => delayLine (taps.length - 1) (ys b)) =
      fun b => delayLine (taps.length - 1) (outputs 0 b) := rfl
  rw [start] at rep
  obtain ⟨s', run, rep'⟩ := forLoop_lanes (executeLane p p) (s := s)
    (fun b => feedbackBlock taps (ys b) (laneBlock blockSize mem p b))
    (fun done t => Represents taps blockSize batch
      (fun b => delayLine (taps.length - 1) (outputs done b)) t)
    holds holds (.inl ⟨rfl, rfl⟩)
    (fun b below => by rw [length_feedbackBlock, length_laneBlock holds below]) rep
    (by
      intro b below m t repB holdsLane _ block
      have current : outputs b b = ys b := if_neg (Nat.lt_irrefl b)
      obtain ⟨t', ran, repB'⟩ := executeLane_inPlace repB below holdsLane rfl
      rw [laneBlock, block, ← laneBlock, current] at ran repB'
      have advanced : Function.update (fun c => delayLine (taps.length - 1) (outputs b c)) b
            (delayLine (taps.length - 1) (feedback taps (ys b) (laneBlock blockSize mem p b))) =
          fun c => delayLine (taps.length - 1) (outputs (b + 1) c) := by
        funext c
        rcases Nat.lt_trichotomy c b with earlier | rfl | later
        · rw [Function.update_of_ne (Nat.ne_of_lt earlier)]
          simp only [outputs, if_pos earlier, if_pos (Nat.lt_succ_of_lt earlier)]
        · rw [Function.update_self]
          simp only [outputs, if_pos (Nat.lt_succ_self c)]
        · rw [Function.update_of_ne (Nat.ne_of_gt later)]
          simp only [outputs, if_neg (Nat.lt_asymm later), if_neg (Nat.not_lt_of_ge later)]
      rw [advanced] at repB'
      exact ⟨t', ran, repB'⟩)
  have final : ∀ b, b < batch → delayLine (taps.length - 1) (outputs batch b) =
      delayLine (taps.length - 1) (feedback taps (ys b) (laneBlock blockSize mem p b)) :=
    fun b below => congrArg _ (if_pos below)
  refine ⟨s', ?_, { rep' with width := fun b _ => length_delayLine _ _, history_eq := ?_ }⟩
  · rw [portableExecute, rep.batch_eq, run]
    rfl
  · rw [rep'.history_eq]
    exact lanes_congr final

end Calls

/-! ## Runs that mix both kinds of calls -/

section Runs

variable [Zero S] [Add S] [HMul S T S]

/-- The samples whose end lane `b` remembers after the calls: those it has read, or its
outputs where a call was in place. -/
def remembered (taps : List T) (blockSize b : Nat) (calls : List (FirCall S)) : List S :=
  calls.foldl (fun zs call =>
    match call with
    | .execute mem input output =>
      if input = output then feedback taps zs (laneBlock blockSize mem input b)
      else zs ++ laneBlock blockSize mem input b
    | .clear => []) []

/-- The samples a call writes after the calls `past`. -/
def mixed (taps : List T) (blockSize batch : Nat) (past : List (FirCall S)) : FirCall S → List S
  | .execute mem input output =>
    if input = output then
      feedbackLanes taps blockSize batch (fun b => remembered taps blockSize b past) mem input
    else
      convolvedLanes taps blockSize batch (fun b => remembered taps blockSize b past) mem input
  | .clear => []

variable {taps : List T} {blockSize batch : Nat}

theorem remembered_execute (b : Nat) (past : List (FirCall S)) (mem : Mem S)
    (input output : Ptr) :
    remembered taps blockSize b (past ++ [.execute mem input output]) =
      if input = output then
        feedback taps (remembered taps blockSize b past) (laneBlock blockSize mem input b)
      else remembered taps blockSize b past ++ laneBlock blockSize mem input b := by
  simp [remembered]

theorem remembered_clear (b : Nat) (past : List (FirCall S)) :
    remembered taps blockSize b (past ++ [.clear]) = [] := by
  simp [remembered]

/-- One call keeps the remembered ends and writes what it owes. -/
theorem step_mixed (sizeofSample sizeofTap : Nat) {past : List (FirCall S)}
    {s : PortableState S T} {call : FirCall S}
    (rep : Represents taps blockSize batch
      (fun b => delayLine (taps.length - 1) (remembered taps blockSize b past)) s)
    (usable : call.Usable (batch * blockSize)) :
    ∃ outcome s', (makeTyped sizeofSample sizeofTap taps blockSize batch).step s call =
        some (outcome, s') ∧
      call.Wrote (batch * blockSize) outcome (mixed taps blockSize batch past call) ∧
      Represents taps blockSize batch
        (fun b => delayLine (taps.length - 1) (remembered taps blockSize b (past ++ [call]))) s' := by
  cases call with
  | execute mem input output =>
    obtain ⟨holdsIn, holdsOut, overlap⟩ := usable
    by_cases same : input = output
    · subst same
      obtain ⟨s', executed, rep'⟩ := portableExecute_inPlace rep holdsIn
      refine ⟨_, s', ?_, ⟨rfl, ?_⟩, ?_⟩
      · simp only [BackendPlan.step, makeTyped, executed, Option.map_some, mixed, if_true]
      · rw [mixed, if_pos rfl, length_feedbackLanes holdsIn]
      · simp only [remembered_execute, if_true]
        exact rep'
    · have apart := overlap.resolve_left same
      obtain ⟨s', executed, rep'⟩ := portableExecute_distinct rep holdsIn holdsOut apart
      rw [filteredLanes_delayLine (fun _ _ => rfl) holdsIn] at executed
      refine ⟨_, s', ?_, ⟨rfl, ?_⟩, ?_⟩
      · simp only [BackendPlan.step, makeTyped, executed, Option.map_some, mixed, if_neg same]
      · rw [mixed, if_neg same, length_convolvedLanes]
      · simp only [remembered_execute, if_neg same, delayLine_append]
        exact rep'
  | clear =>
    obtain ⟨s', cleared, rep'⟩ := portableClear_represents rep
    refine ⟨_, s', ?_, ⟨rfl, rfl⟩, ?_⟩
    · simp only [BackendPlan.step, makeTyped, cleared, Option.map_some]
    · simp only [remembered_clear]
      exact rep'

/-- What the calls of a whole run owe. -/
def mixedRun (taps : List T) (blockSize batch : Nat) (calls : List (FirCall S)) : List (List S) :=
  calls.mapIdx fun k call => mixed taps blockSize batch (calls.take k) call

/-- Every call of a run writes what it owes. -/
theorem run_mixed (sizeofSample sizeofTap : Nat) {taps : List T} {blockSize batch : Nat}
    {calls : List (FirCall S)} (fits : batch * (taps.length - 1) < 2 ^ 64)
    (usable : ∀ call ∈ calls, call.Usable (batch * blockSize)) :
    (makeTyped sizeofSample sizeofTap taps blockSize batch).Writes (batch * blockSize) calls
      (mixedRun taps blockSize batch calls) := by
  obtain ⟨outcomes, s, run, length, -, answers⟩ := runSteps_total
    (fun past s => Represents taps blockSize batch
      (fun b => delayLine (taps.length - 1) (remembered taps blockSize b past)) s)
    (fun call => call.Usable (batch * blockSize))
    (fun past call outcome =>
      call.Wrote (batch * blockSize) outcome (mixed taps blockSize batch past call))
    (fun _ _ _ rep ok => step_mixed sizeofSample sizeofTap rep ok)
    calls (PortableState.createSized taps blockSize batch) (create_represents blockSize fits) usable
  refine ⟨outcomes, s, run, length, List.length_mapIdx, ?_⟩
  intro k call outcome ys here found owes
  rw [mixedRun, List.getElem?_mapIdx, here, Option.map_some, Option.some.injEq] at owes
  rw [← owes]
  exact answers k call outcome here found

/-! ## Calls in place since the creation or a clear -/

/-- No call yet, or a clear as the last one. -/
def Fresh (past : List (FirCall S)) : Prop := past = [] ∨ ∃ earlier, past = earlier ++ [.clear]

theorem remembered_fresh {past : List (FirCall S)} (fresh : Fresh past) (b : Nat) :
    remembered taps blockSize b past = [] := by
  rcases fresh with rfl | ⟨earlier, rfl⟩
  · rfl
  · exact remembered_clear b earlier

/-- Calls in place remember the outputs for the stream they have read. -/
theorem remembered_inPlace {past later : List (FirCall S)} (fresh : Fresh past)
    (inPlace : ∀ call ∈ later, call.InPlace) (b : Nat) :
    remembered taps blockSize b (past ++ later) =
      feedback taps [] (laneStream blockSize b later) := by
  induction later using List.reverseRecOn with
  | nil => rw [List.append_nil, remembered_fresh fresh, laneStream_nil, feedback_nil]
  | append_singleton later call ih =>
    have earlier := ih fun c member => inPlace c (List.mem_append_left _ member)
    cases call with
    | execute mem input output =>
      have same : input = output := inPlace (.execute mem input output) (by simp)
      rw [← List.append_assoc, remembered_execute, if_pos same, earlier, laneStream_execute,
        feedback_append]
    | clear => exact (inPlace .clear (by simp)).elim

omit [Zero S] [Add S] [HMul S T S] in
theorem laneStream_append {past later : List (FirCall S)} (inPlace : ∀ call ∈ later, call.InPlace)
    (b : Nat) :
    laneStream blockSize b (past ++ later) =
      laneStream blockSize b past ++ laneStream blockSize b later := by
  induction later using List.reverseRecOn with
  | nil => rw [List.append_nil, laneStream_nil, List.append_nil]
  | append_singleton later call ih =>
    have earlier := ih fun c member => inPlace c (List.mem_append_left _ member)
    cases call with
    | execute mem input output =>
      rw [← List.append_assoc, laneStream_execute, laneStream_execute, earlier, List.append_assoc]
    | clear => exact (inPlace .clear (by simp)).elim

omit [Zero S] [Add S] [HMul S T S] in
theorem length_laneStream_inPlace {calls : List (FirCall S)} {b : Nat} (below : b < batch)
    (inPlace : ∀ call ∈ calls, call.InPlace)
    (usable : ∀ call ∈ calls, call.Usable (batch * blockSize)) :
    (laneStream blockSize b calls).length = calls.length * blockSize := by
  induction calls using List.reverseRecOn with
  | nil => exact (Nat.zero_mul blockSize).symm
  | append_singleton calls call ih =>
    have earlier := ih (fun c member => inPlace c (List.mem_append_left _ member))
      (fun c member => usable c (List.mem_append_left _ member))
    cases call with
    | execute mem input output =>
      have holds : mem.Holds input (batch * blockSize) :=
        (usable (.execute mem input output) (by simp)).1
      rw [laneStream_execute, List.length_append, earlier, length_laneBlock holds below,
        List.length_append, List.length_singleton, Nat.succ_mul]
    | clear => exact (inPlace .clear (by simp)).elim

/-- The `k`-th call in place writes the `k`-th blocks of the lanes' outputs. -/
theorem mixedRun_inPlace {past later : List (FirCall S)} (fresh : Fresh past)
    (inPlace : ∀ call ∈ later, call.InPlace)
    (usable : ∀ call ∈ later, call.Usable (batch * blockSize)) {k : Nat}
    (inRun : k < later.length) :
    (mixedRun taps blockSize batch (past ++ later))[past.length + k]? =
      some (lanes batch fun b =>
        segment (feedback taps [] (laneStream blockSize b later)) (k * blockSize) blockSize) := by
  have found : (past ++ later)[past.length + k]? = some later[k] := by
    rw [List.getElem?_append_right (Nat.le_add_right _ _), Nat.add_sub_cancel_left,
      List.getElem?_eq_getElem inRun]
  have before : (past ++ later).take (past.length + k) = past ++ later.take k := by
    rw [List.take_append]
    simp
  have member : later[k] ∈ later := List.getElem_mem inRun
  have early : ∀ call ∈ later.take k, call ∈ later := fun _ => List.mem_of_mem_take
  rw [mixedRun, List.getElem?_mapIdx, found, Option.map_some, before]
  cases called : later[k] with
  | clear =>
    rw [called] at member
    exact (inPlace .clear member).elim
  | execute mem input output =>
    rw [called] at member
    have same : input = output := inPlace _ member
    have holds : mem.Holds input (batch * blockSize) := (usable _ member).1
    have split : later = later.take k ++ [.execute mem input output] ++ later.drop (k + 1) := by
      rw [← called]
      simp
    rw [mixed, if_pos same, feedbackLanes]
    refine congrArg some (lanes_congr fun b below => ?_)
    rw [remembered_inPlace fresh (fun call taken => inPlace call (early call taken))]
    have length : (feedback taps [] (laneStream blockSize b (later.take k))).length =
        k * blockSize := by
      rw [length_feedback, length_laneStream_inPlace below
        (fun call taken => inPlace call (early call taken))
        (fun call taken => usable call (early call taken)), List.length_take]
      simp [Nat.min_eq_left (Nat.le_of_lt inRun)]
    have whole : feedback taps [] (laneStream blockSize b later) =
        feedback taps (feedback taps (feedback taps [] (laneStream blockSize b (later.take k)))
          (laneBlock blockSize mem input b)) (laneStream blockSize b (later.drop (k + 1))) := by
      conv_lhs => rw [split]
      rw [laneStream_append (fun call dropped => inPlace call (List.mem_of_mem_drop dropped)),
        laneStream_execute, feedback_append, feedback_append]
    obtain ⟨rest, joined⟩ := prefix_feedback taps (feedback taps (feedback taps []
      (laneStream blockSize b (later.take k))) (laneBlock blockSize mem input b))
      (laneStream blockSize b (later.drop (k + 1)))
    rw [whole, ← joined]
    generalize feedback taps [] (laneStream blockSize b (later.take k)) = ys at length
    rw [← append_feedbackBlock, Kit.segment, ← length, List.append_assoc, List.drop_left,
      List.take_left']
    rw [length_feedbackBlock, length_laneBlock holds below]

end Runs

/-! ## When both kinds of calls agree -/

/-- A list of samples is told by the outcome of the call that wrote it. -/
theorem Wrote.unique {n : Nat} {call : FirCall S} {outcome : FirOutcome S} {ys zs : List S}
    (usable : call.Usable n) (left : call.Wrote n outcome ys) (right : call.Wrote n outcome zs) :
    ys = zs := by
  cases call with
  | execute mem input output =>
    obtain ⟨-, holds, -⟩ := usable
    obtain ⟨answer, lengthY⟩ := left
    obtain ⟨answer', lengthZ⟩ := right
    rw [answer, FirOutcome.executed.injEq] at answer'
    have readY : (mem.write output ys).read output ys.length = ys :=
      Mem.read_write (by rw [lengthY]; exact holds)
    have readZ : (mem.write output zs).read output zs.length = zs :=
      Mem.read_write (by rw [lengthZ]; exact holds)
    rw [← readY, ← readZ, answer'.2, lengthY, lengthZ]
  | clear => exact left.2.trans right.2.symm

/-- The samples a run writes are determined. -/
theorem Writes.unique {σ : Type} {p : BackendPlan σ S} {n : Nat} {calls : List (FirCall S)}
    {ws ws' : List (List S)} (usable : ∀ call ∈ calls, call.Usable n)
    (left : p.Writes n calls ws) (right : p.Writes n calls ws') : ws = ws' := by
  obtain ⟨outcomes, s, run, length, size, writes⟩ := left
  obtain ⟨outcomes', s', run', -, size', writes'⟩ := right
  rw [run, Option.some.injEq, Prod.mk.injEq] at run'
  obtain ⟨rfl, -⟩ := run'
  apply List.ext_getElem (size.trans size'.symm)
  intro k inLeft inRight
  have call := List.getElem?_eq_getElem (l := calls) (i := k) (by omega)
  have outcome := List.getElem?_eq_getElem (l := outcomes) (i := k) (by omega)
  exact Wrote.unique (usable _ (List.getElem_mem _))
    (writes k _ _ _ call outcome (List.getElem?_eq_getElem inLeft))
    (writes' k _ _ _ call outcome (List.getElem?_eq_getElem inRight))

/-- On the same input, runs of calls in place and runs with distinct buffers write the
same samples. -/
def AgreesInPlace {σ : Type} (p : BackendPlan σ S) (n : Nat) : Prop :=
  ∀ calls calls' : List (FirCall S), List.Forall₂ (FirCall.Part id n) calls calls' →
    (∀ call ∈ calls, call.InPlace ∧ call.Usable n) → (∀ call ∈ calls', call.Distinct n) →
    ∃ written, p.Writes n calls written ∧ p.Writes n calls' written

section Agreement

variable [Zero S] [Add S] [HMul S T S] {taps : List T} {blockSize batch : Nat}

/-- Where outputs are convolutions, runs in place owe what runs with distinct buffers
owe. -/
theorem mixedRun_eq_owedRun
    (same : ∀ (xs : List S) n, n < xs.length →
      (feedback taps [] xs).getD n 0 = convolveAt taps xs n)
    {calls calls' : List (FirCall S)}
    (pairs : List.Forall₂ (FirCall.Part id (batch * blockSize)) calls calls')
    (inPlace : ∀ call ∈ calls, call.InPlace ∧ call.Usable (batch * blockSize)) :
    mixedRun taps blockSize batch calls = owedRun taps blockSize batch calls' := by
  apply List.ext_getElem?
  intro k
  rw [mixedRun, owedRun, List.getElem?_mapIdx, List.getElem?_mapIdx]
  cases here : calls[k]? with
  | none => rw [parallel_after pairs here]; rfl
  | some call =>
    obtain ⟨call', here', part, past⟩ := parallel_at pairs here
    obtain ⟨inPlaceHere, usable⟩ := inPlace call (List.mem_of_getElem? here)
    rw [here', Option.map_some, Option.map_some]
    cases call with
    | clear => exact inPlaceHere.elim
    | execute mem input output =>
      cases call' with
      | clear => exact part.elim
      | execute mem' input' output' =>
        have overlap : input = output := inPlaceHere
        rw [mixed, if_pos overlap, owed, convolvedLanes_eq, feedbackLanes]
        refine congrArg some (lanes_congr fun b below => ?_)
        have earlier : remembered taps blockSize b ([] ++ calls.take k) =
            feedback taps [] (laneStream blockSize b (calls.take k)) :=
          remembered_inPlace (.inl rfl)
            (fun call member => (inPlace call (List.mem_of_mem_take member)).1) b
        rw [List.nil_append] at earlier
        rw [earlier, feedbackBlock_eq_convolve same, laneStream_part past below,
          laneBlock_part part below, List.map_id, List.map_id, length_laneBlock usable.1 below]

/-- Calls that feed the stream `xs` to every lane, block after block. -/
def streamCalls (blockSize batch : Nat) (xs : List S) (output : Ptr) (count : Nat) :
    List (FirCall S) :=
  (List.range count).map fun k =>
    .execute ⟨fun _ => lanes batch fun _ => segment xs (k * blockSize) blockSize⟩ ⟨0, 0⟩ output

omit [Zero S] [Add S] [HMul S T S] in
theorem streamCalls_succ (xs : List S) (output : Ptr) (count : Nat) :
    streamCalls blockSize batch xs output (count + 1) =
      streamCalls blockSize batch xs output count ++ [.execute
        ⟨fun _ => lanes batch fun _ => segment xs (count * blockSize) blockSize⟩ ⟨0, 0⟩ output] := by
  simp [streamCalls, List.range_succ]

omit [Zero S] [Add S] [HMul S T S] in
theorem streamCalls_last (xs : List S) (output : Ptr) (count : Nat) :
    (streamCalls blockSize batch xs output (count + 1))[count]? = some (.execute
        ⟨fun _ => lanes batch fun _ => segment xs (count * blockSize) blockSize⟩ ⟨0, 0⟩ output) := by
  simp [streamCalls]

omit [Zero S] [Add S] [HMul S T S] in
theorem streamCalls_take (xs : List S) (output : Ptr) (count : Nat) :
    (streamCalls blockSize batch xs output (count + 1)).take count =
      streamCalls blockSize batch xs output count := by
  rw [streamCalls_succ]
  exact List.take_left' (by simp [streamCalls])

section StreamCalls

variable {xs : List S} {count : Nat} (long : count * blockSize ≤ xs.length)

omit [Zero S] [Add S] [HMul S T S]

include long in
theorem segment_width {k : Nat} (early : k < count) :
    (segment xs (k * blockSize) blockSize).length = blockSize :=
  length_segment (Nat.le_trans (lane_end_le blockSize early) long)

include long in
theorem streamCalls_holds {k : Nat} (early : k < count) (p : Ptr) (start : p.offset = 0) :
    (⟨fun _ => lanes batch fun _ => segment xs (k * blockSize) blockSize⟩ : Mem S).Holds p
      (batch * blockSize) := by
  have size := length_lanes (n := batch) (f := fun _ => segment xs (k * blockSize) blockSize)
    fun _ _ => segment_width long early
  rw [Mem.Holds, size, start, Nat.zero_add]

include long in
theorem laneBlock_streamCall {b k : Nat} (early : k < count) (below : b < batch) :
    laneBlock blockSize (⟨fun _ => lanes batch fun _ => segment xs (k * blockSize) blockSize⟩ : Mem S)
      ⟨0, 0⟩ b = segment xs (k * blockSize) blockSize := by
  have found := segment_lanes (n := batch) (f := fun _ => segment xs (k * blockSize) blockSize)
    (fun _ _ => segment_width long early) below
  rw [laneBlock, Mem.read, Ptr.add_offset, Nat.zero_add]
  exact found

include long in
/-- The lanes' streams are the stream. -/
theorem laneStream_streamCalls (output : Ptr) {b : Nat} (below : b < batch) :
    laneStream blockSize b (streamCalls blockSize batch xs output count) =
      xs.take (count * blockSize) := by
  induction count with
  | zero => simp [streamCalls]
  | succ count ih =>
    have shorter : count * blockSize ≤ xs.length := by
      rw [Nat.succ_mul] at long
      omega
    rw [streamCalls_succ, laneStream_execute, ih shorter,
      laneBlock_streamCall long (Nat.lt_succ_self count) below, Kit.segment, ← List.take_add,
      Nat.succ_mul]

end StreamCalls

omit [Zero S] [Add S] [HMul S T S] in
/-- In place and with distinct buffers the calls that feed a stream form parallel
runs. -/
theorem streamCalls_parallel (batch : Nat) {xs : List S} {count : Nat} (long : count * blockSize ≤ xs.length) :
    let calls := streamCalls blockSize batch xs ⟨0, 0⟩ count
    let calls' := streamCalls blockSize batch xs ⟨1, 0⟩ count
    List.Forall₂ (FirCall.Part id (batch * blockSize)) calls calls' ∧
      (∀ call ∈ calls, call.InPlace ∧ call.Usable (batch * blockSize)) ∧
      ∀ call ∈ calls', call.Distinct (batch * blockSize) := by
  intro calls calls'
  refine ⟨?_, ?_, ?_⟩
  · simp only [calls, calls', streamCalls]
    rw [List.forall₂_map_left_iff, List.forall₂_map_right_iff, List.forall₂_same]
    intro k _
    exact (List.map_id _).symm
  · intro call member
    obtain ⟨k, early, rfl⟩ := List.mem_map.mp member
    have holds : Mem.Holds ⟨fun _ => lanes batch fun _ => segment xs (k * blockSize) blockSize⟩
        ⟨0, 0⟩ (batch * blockSize) :=
      streamCalls_holds long (List.mem_range.mp early) ⟨0, 0⟩ rfl
    exact ⟨rfl, holds, holds, .inl rfl⟩
  · intro call member
    obtain ⟨k, early, rfl⟩ := List.mem_map.mp member
    exact ⟨streamCalls_holds long (List.mem_range.mp early) ⟨0, 0⟩ rfl,
      streamCalls_holds long (List.mem_range.mp early) ⟨1, 0⟩ rfl, .inl (by decide)⟩

/-- Runs that agree put out convolutions, on streams that fill their blocks. -/
theorem AgreesInPlace.output {sizeofSample sizeofTap : Nat}
    (fits : batch * (taps.length - 1) < 2 ^ 64) (blockSize_pos : 0 < blockSize)
    (batch_pos : 0 < batch)
    (agrees : AgreesInPlace
      (makeTyped sizeofSample sizeofTap taps blockSize batch : BackendPlan (PortableState S T) S)
      (batch * blockSize))
    {xs : List S} {count n : Nat} (length : xs.length = (count + 1) * blockSize)
    (last : count = n / blockSize) :
    (feedback taps [] xs).getD n 0 = convolveAt taps xs n := by
  have long := Nat.le_of_eq length.symm
  obtain ⟨pairs, inPlace, distinct⟩ := streamCalls_parallel batch long
  obtain ⟨written, left, right⟩ := agrees _ _ pairs inPlace distinct
  have usable := fun call member => (inPlace call member).2
  have usable' := fun call member => (distinct call member).usable
  have owes := Writes.unique usable left (run_mixed sizeofSample sizeofTap fits usable)
  have owes' := Writes.unique usable' right (run_writes sizeofSample sizeofTap fits distinct)
  have size : (streamCalls blockSize batch xs ⟨0, 0⟩ (count + 1)).length = count + 1 := by
    rw [streamCalls, List.length_map, List.length_range]
  have outputs : (mixedRun taps blockSize batch
      ([] ++ streamCalls blockSize batch xs ⟨0, 0⟩ (count + 1)))[[].length + count]? = _ :=
    mixedRun_inPlace (.inl rfl) (fun call member => (inPlace call member).1) usable (by omega)
  have shorter : count * blockSize ≤ xs.length := by
    rw [length, Nat.succ_mul]
    omega
  rw [List.nil_append, List.length_nil, Nat.zero_add, ← owes, owes', owedRun,
    List.getElem?_mapIdx, streamCalls_last, streamCalls_take, Option.map_some, owed,
    convolvedLanes_eq, Option.some.injEq] at outputs
  have before := laneStream_streamCalls shorter ⟨1, 0⟩ batch_pos
  have whole : xs.take ((count + 1) * blockSize) = xs := by
    rw [← length, List.take_length]
  have position : count * blockSize + n % blockSize = n := by
    rw [last, Nat.div_add_mod']
  have size' : (xs.take (count * blockSize)).length = count * blockSize := by
    rw [List.length_take, Nat.min_eq_left shorter]
  have joined : xs.take (count * blockSize) ++ segment xs (count * blockSize) blockSize = xs := by
    rw [Kit.segment, ← List.take_add, ← Nat.succ_mul, whole]
  have inside : n < xs.length := by
    have := Nat.mod_lt n blockSize_pos
    rw [length, Nat.succ_mul]
    omega
  -- the sample of the first lane
  have inBlock : n % blockSize < blockSize := Nat.mod_lt n blockSize_pos
  have width : ∀ b, b < batch → (segment (feedback taps [] (laneStream blockSize b
      (streamCalls blockSize batch xs ⟨0, 0⟩ (count + 1)))) (count * blockSize) blockSize).length =
        blockSize := by
    intro b below
    rw [laneStream_streamCalls long _ below, whole]
    apply length_segment
    rw [length_feedback, List.length_nil, length, Nat.succ_mul]
    omega
  have sample := congrArg (fun ys : List S => ys[0 * blockSize + n % blockSize]?) outputs
  rw [getElem?_lanes (fun b _ => by rw [List.length_map, List.length_range]) batch_pos inBlock,
    getElem?_lanes width batch_pos inBlock, laneStream_streamCalls long _ batch_pos, whole,
    getElem?_segment, if_pos inBlock, position, List.getElem?_map, List.getElem?_range inBlock,
    Option.map_some, before, laneBlock_streamCall long (Nat.lt_succ_self count) batch_pos, joined,
    size', position] at sample
  rw [List.getD_eq_getElem?_getD, ← sample, Option.getD_some]

/-- A plan agrees exactly when the outputs of every stream are the convolutions. -/
theorem agreesInPlace_iff (sizeofSample sizeofTap : Nat)
    (fits : batch * (taps.length - 1) < 2 ^ 64) (blockSize_pos : 0 < blockSize)
    (batch_pos : 0 < batch) :
    AgreesInPlace
        (makeTyped sizeofSample sizeofTap taps blockSize batch : BackendPlan (PortableState S T) S)
        (batch * blockSize) ↔
      ∀ (xs : List S) n, n < xs.length → (feedback taps [] xs).getD n 0 = convolveAt taps xs n := by
  constructor
  · intro agrees xs n inside
    -- fill the last block
    let us := xs.take (n + 1)
    let fill := List.replicate ((n / blockSize + 1) * blockSize - (n + 1)) (0 : S)
    have split : xs = us ++ xs.drop (n + 1) := (List.take_append_drop (n + 1) xs).symm
    have size : us.length = n + 1 := by
      rw [List.length_take]
      omega
    have room : n < (n / blockSize + 1) * blockSize := by
      have := Nat.lt_mul_div_succ n blockSize_pos
      rwa [Nat.mul_comm] at this
    have length : (us ++ fill).length = (n / blockSize + 1) * blockSize := by
      rw [List.length_append, size, List.length_replicate]
      omega
    have output := agrees.output fits blockSize_pos batch_pos length rfl
    rw [List.getD_eq_getElem?_getD, getElem?_feedback_append_left us _ (by omega),
      convolveAt_append_left _ _ _ (by omega)] at output
    rw [split, List.getD_eq_getElem?_getD, getElem?_feedback_append_left us _ (by omega),
      convolveAt_append_left _ _ _ (by omega)]
    exact output
  · intro same calls calls' pairs inPlace distinct
    refine ⟨owedRun taps blockSize batch calls', ?_, run_writes sizeofSample sizeofTap fits distinct⟩
    rw [← mixedRun_eq_owedRun same pairs inPlace]
    exact run_mixed sizeofSample sizeofTap fits fun call member => (inPlace call member).2

end Agreement

open Finset in
/-- Called in place a plan is a recursive filter. In the calls in place after the
creation or a clear each lane's samples are replaced by the sequence whose value at `n`
is `t_0 x(n)` and the sum of `t_k y(n - k)` over the later taps, across all blocks. -/
def RecursiveInPlace {R σ : Type} [CommRing R] (plan : BackendPlan σ R) (taps : List R)
    (blockSize batch : Nat) : Prop :=
  ∀ past later : List (FirCall R),
    (∀ call ∈ past ++ later, call.Usable (batch * blockSize)) → Fresh past →
    (∀ call ∈ later, call.InPlace) →
    ∃ outcomes s, plan.run (past ++ later) = some (outcomes, s) ∧
      ∃ y : Nat → List R,
        (∀ b, b < batch → (y b).length = (laneStream blockSize b later).length ∧
          ∀ n, n < (y b).length →
            (y b).getD n 0 = taps.getD 0 0 * (laneStream blockSize b later).getD n 0 +
              ∑ k ∈ Ico 1 taps.length, taps.getD k 0 * sampleAt (y b) ((n : Int) - k)) ∧
        ∀ k mem p, later[k]? = some (.execute mem p p) →
          outcomes[past.length + k]? = some (.executed .ok
            (mem.write p (lanes batch fun b => segment (y b) (k * blockSize) blockSize)))

/-- Where the product of the sizes wraps, the first call in place faults. -/
theorem not_recursiveInPlace {R : Type} [CommRing R] (sizeofSample sizeofTap : Nat)
    {taps : List R} {blockSize batch : Nat} (wraps : 2 ^ 64 ≤ batch * (taps.length - 1)) :
    ¬ RecursiveInPlace (makeTyped sizeofSample sizeofTap taps blockSize batch :
      BackendPlan (PortableState R R) R) taps blockSize batch := by
  intro recursive
  obtain ⟨outcomes, s, run, -⟩ := recursive [] [constantCall (batch * blockSize) 0 ⟨0, 0⟩]
    (List.forall_mem_singleton.mpr (constantCall_usable _ _)) (.inl rfl)
    (List.forall_mem_singleton.mpr rfl)
  rw [List.nil_append, constantCall, run_of_wraps _ _ _ wraps] at run
  cases run

/-- A plan called in place is a recursive filter, and over an integral domain its calls
in place agree with calls between distinct buffers only if all later taps are zero,
exactly when the number of samples its history is to hold is a `size_t` value. -/
theorem portable_in_place_iff {R : Type} [CommRing R] (sizeofSample sizeofTap : Nat)
    (taps : List R) (blockSize batch : Nat) :
    let plan : BackendPlan (PortableState R R) R :=
      makeTyped sizeofSample sizeofTap taps blockSize batch
    (RecursiveInPlace plan taps blockSize batch ∧
      (IsDomain R → 0 < blockSize → 0 < batch →
        (AgreesInPlace plan (batch * blockSize) ↔ ∀ k, 1 ≤ k → taps.getD k 0 = 0))) ↔
      batch * (taps.length - 1) < 2 ^ 64 := by
  intro plan
  constructor
  · rintro ⟨recursive, -⟩
    by_contra wraps
    exact not_recursiveInPlace sizeofSample sizeofTap (Nat.le_of_not_lt wraps) recursive
  · intro fits
    constructor
    · intro past later usable fresh inPlace
      obtain ⟨outcomes, s, run, length, size, writes⟩ :=
        run_mixed sizeofSample sizeofTap fits usable
      refine ⟨outcomes, s, run, fun b => feedback taps [] (laneStream blockSize b later), ?_, ?_⟩
      · intro b _
        have same : (feedback taps [] (laneStream blockSize b later)).length =
            (laneStream blockSize b later).length := by
          rw [length_feedback, List.length_nil, Nat.zero_add]
        refine ⟨same, fun n inside => feedback_recurrence _ _ ?_⟩
        rwa [same] at inside
      · intro k mem p here
        have inRun : k < later.length := (List.getElem?_eq_some_iff.mp here).1
        have call : (past ++ later)[past.length + k]? = some (.execute mem p p) := by
          rw [List.getElem?_append_right (Nat.le_add_right _ _), Nat.add_sub_cancel_left, here]
        have inOutcomes : past.length + k < outcomes.length := by
          rw [length, List.length_append]
          omega
        have written : (mixedRun taps blockSize batch (past ++ later))[past.length + k]? = _ :=
          mixedRun_inPlace fresh inPlace
            (fun call member => usable call (List.mem_append_right _ member)) inRun
        have wrote := writes _ _ _ _ call (List.getElem?_eq_getElem inOutcomes) written
        rw [List.getElem?_eq_getElem inOutcomes, wrote.1]
    · intro domain blockSize_pos batch_pos
      rw [agreesInPlace_iff sizeofSample sizeofTap fits blockSize_pos batch_pos]
      exact feedback_eq_convolve_iff

open Finset in
/-- One lane of two taps in blocks of one sample, with a clear before the last two; and
one tap. -/
theorem portable_in_place_iff_two_taps :
    let block (v : Int) : FirCall Int := .execute ⟨fun _ => [v]⟩ ⟨0, 0⟩ ⟨0, 0⟩
    let plan (taps : List Int) : BackendPlan (PortableState Int Int) Int := makeTyped 4 4 taps 1 1
    (∃ outcomes s, (plan [2, 3]).run [block 7, .clear, block 1, block 5] = some (outcomes, s) ∧
      ∃ y : Nat → List Int, (y 0).length = 2 ∧
        (∀ n, n < 2 → (y 0).getD n 0 = 2 * ([1, 5] : List Int).getD n 0 +
          ∑ k ∈ Ico 1 2, ([2, 3] : List Int).getD k 0 * sampleAt (y 0) ((n : Int) - k)) ∧
        outcomes[3]? = some (.executed .ok
          ((⟨fun _ => [5]⟩ : Mem Int).write ⟨0, 0⟩ (lanes 1 fun b => segment (y b) (1 * 1) 1)))) ∧
    ¬ AgreesInPlace (plan [2, 3]) (1 * 1) ∧ AgreesInPlace (plan [2]) (1 * 1) := by
  intro block plan
  obtain ⟨runs, agrees⟩ := (portable_in_place_iff 4 4 ([2, 3] : List Int) 1 1).mpr (by decide)
  have agrees' := ((portable_in_place_iff 4 4 ([2] : List Int) 1 1).mpr (by decide)).2
  refine ⟨?_, ?_, ?_⟩
  · obtain ⟨outcomes, s, run, y, outputs, written⟩ :=
      runs [block 7, .clear] [block 1, block 5]
        (by
          intro call member
          simp only [List.cons_append, List.nil_append, List.mem_cons, List.not_mem_nil,
            or_false] at member
          rcases member with rfl | rfl | rfl | rfl
          · exact ⟨by decide, by decide, .inl rfl⟩
          · trivial
          · exact ⟨by decide, by decide, .inl rfl⟩
          · exact ⟨by decide, by decide, .inl rfl⟩)
        (.inr ⟨[block 7], rfl⟩)
        (by
          intro call member
          simp only [List.mem_cons, List.not_mem_nil, or_false] at member
          rcases member with rfl | rfl
          · rfl
          · rfl)
    obtain ⟨length, recurrence⟩ := outputs 0 (by decide)
    have two : (y 0).length = 2 := length
    rw [two] at recurrence
    exact ⟨outcomes, s, run, y, two, recurrence, written 1 _ _ rfl⟩
  · intro same
    exact absurd ((agrees inferInstance (by decide) (by decide)).mp same 1 (Nat.le_refl 1))
      (by decide)
  · refine (agrees' inferInstance (by decide) (by decide)).mpr ?_
    intro k later
    exact List.getD_eq_default _ _ later

/-- A plan whose history is empty faults at the first call in place. -/
theorem wrappedHistory_not_recursive :
    let taps : List Int := List.replicate (2 ^ 30 + 1) 1
    let plan : BackendPlan (PortableState Int Int) Int := makeTyped 4 4 taps 1 (2 ^ 34)
    plan.run [constantCall (2 ^ 34 * 1) 0 ⟨0, 0⟩] = none ∧
      ¬ RecursiveInPlace plan taps 1 (2 ^ 34) := by
  intro taps plan
  have wraps : 2 ^ 64 ≤ 2 ^ 34 * (taps.length - 1) := by
    rw [List.length_replicate]
    decide
  exact ⟨run_of_wraps 4 4 1 wraps _ [], not_recursiveInPlace 4 4 wraps⟩

end Portable

end DspDispatch.Fir
