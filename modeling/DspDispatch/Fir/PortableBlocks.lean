import DspDispatch.Fir.PortableStreaming

/-!
# The portable FIR output does not depend on the cut into blocks

Two plans with the same taps and different block sizes are compared at equal
stream positions. The position of a sample counts all samples its lane has been
fed since creation; `clock` gives the position a call starts at and the
position of the last clear before it.

Every operand of an output sample is either the input sample at an earlier
position, or the zero of a position before the last clear
(`sampleAt_laneStream`). Neither depends on the block size, so both plans do
the same operations on the same operands in the same order, and no law of the
arithmetic is needed.
-/

namespace DspDispatch.Fir.Portable

open Kit

variable {S T : Type}

/-! ## Stream positions -/

/-- After the calls: the samples a lane has been fed, and how many of them came
before the last clear. -/
def clock (blockSize : Nat) (calls : List (FirCall S)) : Nat × Nat :=
  calls.foldl (fun c call =>
    match call with
    | .execute _ _ _ => (c.1 + blockSize, c.2)
    | .clear => (c.1, c.1)) (0, 0)

@[simp] theorem clock_execute (blockSize : Nat) (past : List (FirCall S)) (mem : Mem S)
    (input output : Ptr) :
    clock blockSize (past ++ [.execute mem input output]) =
      ((clock blockSize past).1 + blockSize, (clock blockSize past).2) := by
  simp [clock]

@[simp] theorem clock_clear (blockSize : Nat) (past : List (FirCall S)) :
    clock blockSize (past ++ [.clear]) = ((clock blockSize past).1, (clock blockSize past).1) := by
  simp [clock]

/-- Lane `b` was fed the sample `v` at stream position `n`. -/
def FedAt (blockSize b : Nat) (calls : List (FirCall S)) (n : Nat) (v : S) : Prop :=
  ∃ k mem input output i, calls[k]? = some (.execute mem input output) ∧ i < blockSize ∧
    n = (clock blockSize (calls.take k)).1 + i ∧ mem.load input (b * blockSize + i) = some v

/-- The call that processed stream position `n` of lane `b` returned `Ok` and
wrote the sample `v` for it. -/
def WroteAt (blockSize b : Nat) (calls : List (FirCall S)) (outcomes : List (FirOutcome S))
    (n : Nat) (v : S) : Prop :=
  ∃ k mem input output mem' i, calls[k]? = some (.execute mem input output) ∧
    outcomes[k]? = some (.executed .ok mem') ∧ i < blockSize ∧
    n = (clock blockSize (calls.take k)).1 + i ∧ mem'.load output (b * blockSize + i) = some v

/-- The plan was cleared at stream position `n`. -/
def ClearedAt (blockSize : Nat) (calls : List (FirCall S)) (n : Nat) : Prop :=
  ∃ k, calls[k]? = some .clear ∧ n = (clock blockSize (calls.take k)).1

section Positions

variable {blockSize b batch : Nat} {calls past : List (FirCall S)} {call : FirCall S}

private theorem getElem?_snoc_of_lt {k : Nat} (c : FirCall S) (here : calls[k]? = some call) :
    (calls ++ [c])[k]? = some call ∧ (calls ++ [c]).take k = calls.take k := by
  have inside := (List.getElem?_eq_some_iff.mp here).1
  exact ⟨by rw [List.getElem?_append_left inside, here],
    List.take_append_of_le_length (Nat.le_of_lt inside)⟩

theorem FedAt.snoc {n : Nat} {v : S} (c : FirCall S) (fed : FedAt blockSize b calls n v) :
    FedAt blockSize b (calls ++ [c]) n v := by
  obtain ⟨k, mem, input, output, i, here, inBlock, position, loaded⟩ := fed
  obtain ⟨here', taken⟩ := getElem?_snoc_of_lt c here
  exact ⟨k, mem, input, output, i, here', inBlock, by rw [taken]; exact position, loaded⟩

/-- Samples fed in a prefix of the run are fed in the run. -/
theorem FedAt.of_take {m n : Nat} {v : S} (fed : FedAt blockSize b (calls.take m) n v) :
    FedAt blockSize b calls n v := by
  obtain ⟨k, mem, input, output, i, here, inBlock, position, loaded⟩ := fed
  rw [List.getElem?_take] at here
  split at here
  · refine ⟨k, mem, input, output, i, here, inBlock, ?_, loaded⟩
    rw [position, List.take_take, Nat.min_eq_left (by omega)]
  · cases here

theorem clock_snd_le (blockSize : Nat) (calls : List (FirCall S)) :
    (clock blockSize calls).2 ≤ (clock blockSize calls).1 := by
  induction calls using List.reverseRecOn with
  | nil => exact Nat.le_refl 0
  | append_singleton past call ih =>
    cases call with
    | execute mem input output =>
      rw [clock_execute]
      exact Nat.le_trans ih (Nat.le_add_right _ _)
    | clear =>
      rw [clock_clear]

/-- The stream since the last clear is as long as the positions since then. -/
theorem length_laneStream (below : b < batch)
    (distinct : ∀ call ∈ calls, call.Distinct (batch * blockSize)) :
    (laneStream blockSize b calls).length + (clock blockSize calls).2 =
      (clock blockSize calls).1 := by
  induction calls using List.reverseRecOn with
  | nil => rfl
  | append_singleton past call ih =>
    have before := ih fun c member => distinct c (by simp [member])
    cases call with
    | execute mem input output =>
      have ready := distinct (.execute mem input output) (by simp)
      rw [clock_execute, laneStream_execute, List.length_append,
        length_laneBlock ready.1 below]
      omega
    | clear =>
      rw [clock_clear, laneStream_clear]
      exact Nat.zero_add _

/-- Sample `m` since the last clear was fed at the position of that clear
plus `m`. -/
theorem fedAt_of_laneStream (below : b < batch)
    (distinct : ∀ call ∈ calls, call.Distinct (batch * blockSize)) {m : Nat} {v : S}
    (found : (laneStream blockSize b calls)[m]? = some v) :
    FedAt blockSize b calls ((clock blockSize calls).2 + m) v := by
  induction calls using List.reverseRecOn with
  | nil => simp at found
  | append_singleton past call ih =>
    have distinctPast : ∀ c ∈ past, FirCall.Distinct (batch * blockSize) c :=
      fun c member => distinct c (by simp [member])
    cases call with
    | execute mem input output =>
      have ready := distinct (.execute mem input output) (by simp)
      have length := length_laneStream below distinctPast
      rw [laneStream_execute, List.getElem?_append] at found
      rw [clock_execute]
      split at found
      · exact (ih distinctPast found).snoc _
      · have loaded := found
        rw [laneBlock, Mem.getElem?_read] at loaded
        split at loaded
        · refine ⟨past.length, mem, input, output, m - (laneStream blockSize b past).length,
            by simp, ‹_›, ?_, ?_⟩
          · rw [List.take_left]
            omega
          · rw [← Mem.load_add]
            exact loaded
        · cases loaded
    | clear =>
      rw [laneStream_clear] at found
      simp at found

/-- Every position below the total was processed by one of the calls. -/
theorem exists_call_at {n : Nat} (inRun : n < (clock blockSize calls).1) :
    ∃ k mem input output i, calls[k]? = some (.execute mem input output) ∧ i < blockSize ∧
      n = (clock blockSize (calls.take k)).1 + i := by
  induction calls using List.reverseRecOn with
  | nil => exact absurd inRun (Nat.not_lt_zero n)
  | append_singleton past call ih =>
    by_cases earlier : n < (clock blockSize past).1
    · obtain ⟨k, mem, input, output, i, here, inBlock, position⟩ := ih earlier
      obtain ⟨here', taken⟩ := getElem?_snoc_of_lt call here
      exact ⟨k, mem, input, output, i, here', inBlock, by rw [taken]; exact position⟩
    · cases call with
      | execute mem input output =>
        rw [clock_execute] at inRun
        dsimp only at inRun
        refine ⟨past.length, mem, input, output, n - (clock blockSize past).1, by simp,
          by omega, ?_⟩
        rw [List.take_left]
        omega
      | clear =>
        rw [clock_clear] at inRun
        exact absurd inRun earlier

theorem clock_fst_mono (blockSize : Nat) (calls : List (FirCall S)) {j k : Nat} (le : j ≤ k) :
    (clock blockSize (calls.take j)).1 ≤ (clock blockSize (calls.take k)).1 := by
  induction k with
  | zero =>
    rw [Nat.le_zero.mp le]
  | succ k ih =>
    rcases Nat.le_succ_iff.mp le with earlier | rfl
    · refine Nat.le_trans (ih earlier) ?_
      rw [List.take_add_one]
      cases calls[k]? with
      | none => simp
      | some call =>
        cases call with
        | execute mem input output => simp
        | clear => simp
    · exact Nat.le_refl _

/-- The recorded clear is a clear of the run, or the creation. -/
theorem clock_snd_cleared (blockSize : Nat) (calls : List (FirCall S)) :
    (clock blockSize calls).2 = 0 ∨ ClearedAt blockSize calls (clock blockSize calls).2 := by
  induction calls using List.reverseRecOn with
  | nil => exact Or.inl rfl
  | append_singleton past call ih =>
    cases call with
    | execute mem input output =>
      rw [clock_execute]
      refine ih.imp_right ?_
      intro cleared
      rcases cleared with ⟨k, here, position⟩
      obtain ⟨here', taken⟩ := getElem?_snoc_of_lt (.execute mem input output) here
      exact ⟨k, here', by rw [taken]; exact position⟩
    | clear =>
      rw [clock_clear]
      exact Or.inr ⟨past.length, by simp, by rw [List.take_left]⟩

/-- No clear of the run lies between the recorded one and the current
position. -/
theorem le_clock_snd_of_clearedAt {k n : Nat} {mem : Mem S} {input output : Ptr}
    (here : calls[k]? = some (.execute mem input output))
    (cleared : ClearedAt blockSize calls n)
    (before : n < (clock blockSize (calls.take k)).1 + blockSize) :
    n ≤ (clock blockSize (calls.take k)).2 := by
  obtain ⟨j, clearAt, position⟩ := cleared
  -- a clear at index `j < k` is recorded by the clock of any later prefix
  have recorded : ∀ m, j < m → n ≤ (clock blockSize (calls.take m)).2 := by
    intro m
    induction m with
    | zero => exact fun absurdly => absurd absurdly (Nat.not_lt_zero j)
    | succ m ih =>
      intro later
      rw [List.take_add_one]
      rcases Nat.lt_succ_iff_lt_or_eq.mp later with earlier | rfl
      · have bound := ih earlier
        cases calls[m]? with
        | none => simpa using bound
        | some call =>
          cases call with
          | execute mem input output =>
            simpa using bound
          | clear =>
            rw [Option.toList_some, clock_clear]
            exact Nat.le_trans bound (clock_snd_le _ _)
      · rw [clearAt, Option.toList_some, clock_clear, position]
  rcases Nat.lt_trichotomy j k with earlier | rfl | later
  · exact recorded k earlier
  · rw [here] at clearAt
    cases clearAt
  · have advanced := clock_fst_mono blockSize calls (j := k + 1) (k := j) later
    rw [List.take_add_one, here, Option.toList_some, clock_execute] at advanced
    dsimp only at advanced
    omega

end Positions

/-! ## Operands by position -/

section Operands

variable [Zero S] {blockSize b batch : Nat} {calls : List (FirCall S)}

/-- What lane `b` reads `t` positions back from position `n` of call `k`: zero
at or before the last clear, else the sample the lane was fed there. -/
theorem sampleAt_laneStream (below : b < batch)
    (distinct : ∀ call ∈ calls, call.Distinct (batch * blockSize)) {k n i : Nat} {mem : Mem S}
    {input output : Ptr} (here : calls[k]? = some (.execute mem input output))
    (inBlock : i < blockSize) (position : n = (clock blockSize (calls.take k)).1 + i) (t : Nat) :
    let x := sampleAt (laneStream blockSize b (calls.take k) ++ laneBlock blockSize mem input b)
      (((laneStream blockSize b (calls.take k)).length + i : Nat) - t : Int)
    (n < (clock blockSize (calls.take k)).2 + t ∧ x = 0) ∨
      ((clock blockSize (calls.take k)).2 + t ≤ n ∧ FedAt blockSize b calls (n - t) x) := by
  intro x
  have distinctTake : ∀ call ∈ calls.take k, FirCall.Distinct (batch * blockSize) call :=
    fun call member => distinct call (List.mem_of_mem_take member)
  have length := length_laneStream below distinctTake
  have ready := distinct _ (List.mem_of_getElem? here)
  by_cases early : n < (clock blockSize (calls.take k)).2 + t
  · exact Or.inl ⟨early, sampleAt_of_neg _ (by omega)⟩
  · refine Or.inr ⟨by omega, ?_⟩
    have index : (((laneStream blockSize b (calls.take k)).length + i : Nat) - t : Int) =
        (((laneStream blockSize b (calls.take k)).length + i - t : Nat) : Int) := by omega
    have inside : (laneStream blockSize b (calls.take k)).length + i - t <
        (laneStream blockSize b (calls.take k) ++ laneBlock blockSize mem input b).length := by
      rw [List.length_append, length_laneBlock ready.1 below]
      omega
    have taken : calls.take (k + 1) = calls.take k ++ [.execute mem input output] := by
      rw [List.take_add_one, here, Option.toList_some]
    have found : (laneStream blockSize b (calls.take (k + 1)))[
        (laneStream blockSize b (calls.take k)).length + i - t]? = some x := by
      rw [taken, laneStream_execute, List.getElem?_eq_getElem inside]
      simp only [x, index, sampleAt_natCast, List.getD_eq_getElem?_getD,
        List.getElem?_eq_getElem inside, Option.getD_some]
    have fed := fedAt_of_laneStream below
      (fun call member => distinct call (List.mem_of_mem_take member)) found
    rw [taken, clock_execute] at fed
    rw [← taken] at fed
    have place : n - t = (clock blockSize (calls.take k)).2 +
        ((laneStream blockSize b (calls.take k)).length + i - t) := by omega
    rw [place]
    exact fed.of_take

end Operands

/-! ## Two runs on one stream -/

section TwoRuns

variable {blockSize₁ blockSize₂ : Nat} {calls₁ calls₂ : List (FirCall S)}

/-- Where the clears agree on the common prefix, both runs last cleared at the
same position. -/
theorem clock_snd_le_of_clears_agree
    (clears : ∀ p, p < (clock blockSize₁ calls₁).1 → p < (clock blockSize₂ calls₂).1 →
      (ClearedAt blockSize₁ calls₁ p ↔ ClearedAt blockSize₂ calls₂ p))
    {n k₁ k₂ i₁ i₂ : Nat} {mem₂ : Mem S} {input₂ output₂ : Ptr}
    (inRun₁ : n < (clock blockSize₁ calls₁).1) (inRun₂ : n < (clock blockSize₂ calls₂).1)
    (here₂ : calls₂[k₂]? = some (.execute mem₂ input₂ output₂))
    (inBlock₂ : i₂ < blockSize₂)
    (position₁ : n = (clock blockSize₁ (calls₁.take k₁)).1 + i₁)
    (position₂ : n = (clock blockSize₂ (calls₂.take k₂)).1 + i₂) :
    (clock blockSize₁ (calls₁.take k₁)).2 ≤ (clock blockSize₂ (calls₂.take k₂)).2 := by
  have le := clock_snd_le blockSize₁ (calls₁.take k₁)
  rcases clock_snd_cleared blockSize₁ (calls₁.take k₁) with zero | cleared
  · omega
  · have clearedRun : ClearedAt blockSize₁ calls₁ (clock blockSize₁ (calls₁.take k₁)).2 := by
      obtain ⟨j, clearAt, place⟩ := cleared
      rw [List.getElem?_take] at clearAt
      split at clearAt
      · refine ⟨j, clearAt, ?_⟩
        rw [place, List.take_take, Nat.min_eq_left (by omega)]
      · cases clearAt
    have other := (clears _ (by omega) (by omega)).mp clearedRun
    exact le_clock_snd_of_clearedAt here₂ other (by omega)

/-- Where both runs were last cleared at the same position, the two calls that
process a position convolve the same samples. -/
theorem convolveAt_laneStream_eq [Zero S] [Add S] [HMul S T S] {taps : List T}
    {b batch n k₁ k₂ i₁ i₂ : Nat} {mem₁ mem₂ : Mem S} {input₁ input₂ output₁ output₂ : Ptr}
    (below : b < batch)
    (distinct₁ : ∀ call ∈ calls₁, call.Distinct (batch * blockSize₁))
    (distinct₂ : ∀ call ∈ calls₂, call.Distinct (batch * blockSize₂))
    (stream : ∀ n v₁ v₂, FedAt blockSize₁ b calls₁ n v₁ → FedAt blockSize₂ b calls₂ n v₂ → v₁ = v₂)
    (origin : (clock blockSize₁ (calls₁.take k₁)).2 = (clock blockSize₂ (calls₂.take k₂)).2)
    (here₁ : calls₁[k₁]? = some (.execute mem₁ input₁ output₁)) (inBlock₁ : i₁ < blockSize₁)
    (position₁ : n = (clock blockSize₁ (calls₁.take k₁)).1 + i₁)
    (here₂ : calls₂[k₂]? = some (.execute mem₂ input₂ output₂)) (inBlock₂ : i₂ < blockSize₂)
    (position₂ : n = (clock blockSize₂ (calls₂.take k₂)).1 + i₂) :
    convolveAt taps
      (laneStream blockSize₁ b (calls₁.take k₁) ++ laneBlock blockSize₁ mem₁ input₁ b)
        ((laneStream blockSize₁ b (calls₁.take k₁)).length + i₁) =
      convolveAt taps
        (laneStream blockSize₂ b (calls₂.take k₂) ++ laneBlock blockSize₂ mem₂ input₂ b)
        ((laneStream blockSize₂ b (calls₂.take k₂)).length + i₂) := by
  apply tapSum_congr
  intro t _
  have operand₁ := sampleAt_laneStream below distinct₁ here₁ inBlock₁ position₁ t
  have operand₂ := sampleAt_laneStream below distinct₂ here₂ inBlock₂ position₂ t
  rcases operand₁ with ⟨early₁, zero₁⟩ | ⟨late₁, fed₁⟩
  · rcases operand₂ with ⟨-, zero₂⟩ | ⟨late₂, -⟩
    · rw [zero₁, zero₂]
    · omega
  · rcases operand₂ with ⟨early₂, -⟩ | ⟨-, fed₂⟩
    · omega
    · exact stream _ _ _ fed₁ fed₂

end TwoRuns

/-- The call that processes a position writes the convolution at it. -/
theorem exists_wroteAt [Zero S] [Add S] [HMul S T S] {taps : List T} {blockSize batch b n : Nat}
    {calls : List (FirCall S)} {outcomes : List (FirOutcome S)}
    (distinct : ∀ call ∈ calls, call.Distinct (batch * blockSize))
    (length : outcomes.length = calls.length)
    (answers : ∀ k call outcome, calls[k]? = some call → outcomes[k]? = some outcome →
      Answers taps blockSize batch (calls.take k) call outcome)
    (below : b < batch) (inRun : n < (clock blockSize calls).1) :
    ∃ k mem input output i, calls[k]? = some (.execute mem input output) ∧ i < blockSize ∧
      n = (clock blockSize (calls.take k)).1 + i ∧
      WroteAt blockSize b calls outcomes n (convolveAt taps
        (laneStream blockSize b (calls.take k) ++ laneBlock blockSize mem input b)
        ((laneStream blockSize b (calls.take k)).length + i)) := by
  obtain ⟨k, mem, input, output, i, here, inBlock, position⟩ := exists_call_at inRun
  have within := (List.getElem?_eq_some_iff.mp here).1
  have there : outcomes[k]? = some outcomes[k] := List.getElem?_eq_getElem (by omega)
  have answer := answers k _ outcomes[k] here there
  have holdsOut := (distinct _ (List.mem_of_getElem? here)).2.1
  refine ⟨k, mem, input, output, i, here, inBlock, position,
    k, mem, input, output, _, i, here, ?_, inBlock, position,
    load_convolvedLanes (fun b => laneStream blockSize b (calls.take k)) holdsOut below inBlock⟩
  rw [there]
  exact congrArg some answer

/-- Two runs fed the same stream on every lane, with clears at the same positions, as
far as both go. -/
structure FedAlike (batch blockSize₁ blockSize₂ : Nat) (calls₁ calls₂ : List (FirCall S)) :
    Prop where
  stream : ∀ b, b < batch → ∀ n v₁ v₂, FedAt blockSize₁ b calls₁ n v₁ →
    FedAt blockSize₂ b calls₂ n v₂ → v₁ = v₂
  clears : ∀ n, n < (clock blockSize₁ calls₁).1 → n < (clock blockSize₂ calls₂).1 →
    (ClearedAt blockSize₁ calls₁ n ↔ ClearedAt blockSize₂ calls₂ n)

/-- Two runs that go through and write the same sample for every lane at every stream
position both have processed. -/
def WriteAlike {σ₁ σ₂ : Type} (plan₁ : BackendPlan σ₁ S) (plan₂ : BackendPlan σ₂ S)
    (batch blockSize₁ blockSize₂ : Nat) (calls₁ calls₂ : List (FirCall S)) : Prop :=
  ∃ outcomes₁ s₁ outcomes₂ s₂, plan₁.run calls₁ = some (outcomes₁, s₁) ∧
    plan₂.run calls₂ = some (outcomes₂, s₂) ∧
    ∀ b, b < batch → ∀ n, n < (clock blockSize₁ calls₁).1 → n < (clock blockSize₂ calls₂).1 →
      ∃ v, WroteAt blockSize₁ b calls₁ outcomes₁ n v ∧ WroteAt blockSize₂ b calls₂ outcomes₂ n v

theorem fedAt_constant {blockSize b n k : Nat} {v w : S} {output : Ptr}
    (fed : FedAt blockSize b [constantCall n v output] k w) : w = v := by
  obtain ⟨j, mem, input, output', i, here, -, -, loaded⟩ := fed
  obtain rfl : j = 0 := by
    have := (List.getElem?_eq_some_iff.mp here).1
    rw [List.length_singleton] at this
    omega
  cases here
  exact List.eq_of_mem_replicate (List.mem_of_getElem? loaded)

/-- One block each of equal samples is the same stream. -/
theorem constantCall_fedAlike (batch blockSize₁ blockSize₂ : Nat) (v : S) (n₁ n₂ : Nat)
    (output₁ output₂ : Ptr) :
    FedAlike batch blockSize₁ blockSize₂ [constantCall n₁ v output₁]
      [constantCall n₂ v output₂] where
  stream b _ n v₁ v₂ fed₁ fed₂ := (fedAt_constant fed₁).trans (fedAt_constant fed₂).symm
  clears n _ _ := by
    have never : ∀ (blockSize m : Nat) (output : Ptr),
        ¬ ClearedAt blockSize [constantCall m v output] n := by
      rintro blockSize m output ⟨k, here, -⟩
      have found := List.mem_of_getElem? here
      rw [List.mem_singleton] at found
      cases found
    exact iff_of_false (never _ _ _) (never _ _ _)

/-- Two plans with the same taps and batch, fed the same stream on every lane in
blocks of `blockSize₁` and of `blockSize₂` samples with clears at the same
positions, write the same samples, exactly when the number of samples their
histories are to hold is a `size_t` value. Nothing is assumed of zero, addition and
multiplication. -/
theorem portable_blocks_iff [Zero S] [Add S] [HMul S T S] (sizeofSample sizeofTap : Nat)
    (taps : List T) (batch blockSize₁ blockSize₂ : Nat) :
    (∀ calls₁ calls₂ : List (FirCall S),
      (∀ call ∈ calls₁, call.Distinct (batch * blockSize₁)) →
      (∀ call ∈ calls₂, call.Distinct (batch * blockSize₂)) →
      FedAlike batch blockSize₁ blockSize₂ calls₁ calls₂ →
      WriteAlike (makeTyped sizeofSample sizeofTap taps blockSize₁ batch)
        (makeTyped sizeofSample sizeofTap taps blockSize₂ batch) batch blockSize₁ blockSize₂
        calls₁ calls₂) ↔
      batch * (taps.length - 1) < 2 ^ 64 := by
  constructor
  · intro alike
    by_contra wraps
    obtain ⟨outcomes₁, s₁, outcomes₂, s₂, run₁, -⟩ := alike
      [constantCall (batch * blockSize₁) 0 ⟨1, 0⟩] [constantCall (batch * blockSize₂) 0 ⟨1, 0⟩]
      (List.forall_mem_singleton.mpr (constantCall_distinct _ _))
      (List.forall_mem_singleton.mpr (constantCall_distinct _ _))
      (constantCall_fedAlike _ _ _ _ _ _ _ _)
    rw [constantCall, run_of_wraps _ _ _ (Nat.le_of_not_lt wraps)] at run₁
    cases run₁
  · intro fits calls₁ calls₂ distinct₁ distinct₂ fed
    obtain ⟨outcomes₁, s₁, run₁, length₁, -, answers₁⟩ :=
      run_convolves sizeofSample sizeofTap fits calls₁ distinct₁
    obtain ⟨outcomes₂, s₂, run₂, length₂, -, answers₂⟩ :=
      run_convolves sizeofSample sizeofTap fits calls₂ distinct₂
    refine ⟨outcomes₁, s₁, outcomes₂, s₂, run₁, run₂, ?_⟩
    intro b below n inRun₁ inRun₂
    obtain ⟨k₁, mem₁, input₁, output₁, i₁, here₁, inBlock₁, position₁, wrote₁⟩ :=
      exists_wroteAt distinct₁ length₁ answers₁ below inRun₁
    obtain ⟨k₂, mem₂, input₂, output₂, i₂, here₂, inBlock₂, position₂, wrote₂⟩ :=
      exists_wroteAt distinct₂ length₂ answers₂ below inRun₂
    have origin : (clock blockSize₁ (calls₁.take k₁)).2 = (clock blockSize₂ (calls₂.take k₂)).2 :=
      Nat.le_antisymm
        (clock_snd_le_of_clears_agree fed.clears inRun₁ inRun₂ here₂ inBlock₂
          position₁ position₂)
        (clock_snd_le_of_clears_agree (fun p h₂ h₁ => (fed.clears p h₁ h₂).symm)
          inRun₂ inRun₁ here₁ inBlock₁ position₂ position₁)
    refine ⟨_, wrote₁, ?_⟩
    rw [convolveAt_laneStream_eq below distinct₁ distinct₂ (fed.stream b below) origin here₁
      inBlock₁ position₁ here₂ inBlock₂ position₂]
    exact wrote₂

/-- Blocks of one sample against blocks of two, with a clear after two. -/
theorem portable_blocks_iff_one_two :
    let one (v : Int) : FirCall Int := .execute ⟨fun _ => [v, 0]⟩ ⟨0, 0⟩ ⟨0, 1⟩
    let two (v w : Int) : FirCall Int := .execute ⟨fun _ => [v, w, 0, 0]⟩ ⟨0, 0⟩ ⟨0, 2⟩
    let calls₁ := [one 7, one 2, .clear, one 1]
    let calls₂ := [two 7 2, .clear, two 1 6]
    WriteAlike (makeTyped 4 4 [3, 5] 1 1) (makeTyped 4 4 [3, 5] 2 1) 1 1 2 calls₁ calls₂ := by
  intro one two calls₁ calls₂
  have fed₁ : ∀ b n v, b < 1 → FedAt 1 b calls₁ n v → [7, 2, 1, 6][n]? = some v := by
    intro b n v below fed
    rcases fed with ⟨k, mem, input, output, i, here, inBlock, position, loaded⟩
    obtain rfl : i = 0 := by omega
    obtain rfl : b = 0 := by omega
    match k with
    | 0 => cases here; subst position; exact loaded
    | 1 => cases here; subst position; exact loaded
    | 2 => cases here
    | 3 => cases here; subst position; exact loaded
    | _ + 4 => cases here
  have fed₂ : ∀ b n v, b < 1 → FedAt 2 b calls₂ n v → [7, 2, 1, 6][n]? = some v := by
    intro b n v below fed
    rcases fed with ⟨k, mem, input, output, i, here, inBlock, position, loaded⟩
    obtain rfl : b = 0 := by omega
    match k, i with
    | 0, 0 => cases here; subst position; exact loaded
    | 0, 1 => cases here; subst position; exact loaded
    | 1, _ => cases here
    | 2, 0 => cases here; subst position; exact loaded
    | 2, 1 => cases here; subst position; exact loaded
    | _ + 3, _ => cases here
    | 0, _ + 2 => omega
    | 2, _ + 2 => omega
  have cleared₁ : ∀ n, ClearedAt 1 calls₁ n ↔ n = 2 := by
    refine fun n => ⟨?_, fun at2 => ⟨2, rfl, at2⟩⟩
    intro cleared
    rcases cleared with ⟨k, here, position⟩
    match k with
    | 0 | 1 | 3 => cases here
    | 2 => exact position
    | _ + 4 => cases here
  have cleared₂ : ∀ n, ClearedAt 2 calls₂ n ↔ n = 2 := by
    refine fun n => ⟨?_, fun at2 => ⟨1, rfl, at2⟩⟩
    intro cleared
    rcases cleared with ⟨k, here, position⟩
    match k with
    | 0 | 2 => cases here
    | 1 => exact position
    | _ + 3 => cases here
  refine (portable_blocks_iff 4 4 [(3 : Int), 5] 1 1 2).mpr (by decide) calls₁ calls₂ ?_ ?_
    ⟨fun b below n v₁ v₂ left right =>
      Option.some.inj ((fed₁ b n v₁ below left).symm.trans (fed₂ b n v₂ below right)),
      fun n _ _ => (cleared₁ n).trans (cleared₂ n).symm⟩
  · intro call member
    simp only [calls₁, List.mem_cons, List.not_mem_nil, or_false] at member
    rcases member with rfl | rfl | rfl | rfl
    · exact ⟨by decide, by decide, by decide⟩
    · exact ⟨by decide, by decide, by decide⟩
    · trivial
    · exact ⟨by decide, by decide, by decide⟩
  · intro call member
    simp only [calls₂, List.mem_cons, List.not_mem_nil, or_false] at member
    rcases member with rfl | rfl | rfl
    · exact ⟨by decide, by decide, by decide⟩
    · trivial
    · exact ⟨by decide, by decide, by decide⟩

/-- Plans for blocks of one and of two samples, whose histories are empty: neither run
goes through. -/
theorem wrappedHistory_not_writeAlike :
    let taps : List Int := List.replicate (2 ^ 30 + 1) 1
    let plan₁ : BackendPlan (PortableState Int Int) Int := makeTyped 4 4 taps 1 (2 ^ 34)
    let plan₂ : BackendPlan (PortableState Int Int) Int := makeTyped 4 4 taps 2 (2 ^ 34)
    let calls₁ : List (FirCall Int) := [constantCall (2 ^ 34 * 1) 0 ⟨1, 0⟩]
    let calls₂ : List (FirCall Int) := [constantCall (2 ^ 34 * 2) 0 ⟨1, 0⟩]
    (∀ call ∈ calls₁, call.Distinct (2 ^ 34 * 1)) ∧ (∀ call ∈ calls₂, call.Distinct (2 ^ 34 * 2)) ∧
      FedAlike (2 ^ 34) 1 2 calls₁ calls₂ ∧ plan₁.run calls₁ = none ∧ plan₂.run calls₂ = none ∧
      ¬ WriteAlike plan₁ plan₂ (2 ^ 34) 1 2 calls₁ calls₂ := by
  intro taps plan₁ plan₂ calls₁ calls₂
  have length : taps.length = 2 ^ 30 + 1 := List.length_replicate
  have faults₁ : plan₁.run calls₁ = none := run_of_wraps 4 4 1 (by rw [length]; decide) _ []
  have faults₂ : plan₂.run calls₂ = none := run_of_wraps 4 4 2 (by rw [length]; decide) _ []
  refine ⟨List.forall_mem_singleton.mpr (constantCall_distinct _ _),
    List.forall_mem_singleton.mpr (constantCall_distinct _ _),
    constantCall_fedAlike _ _ _ _ _ _ _ _, faults₁, faults₂, ?_⟩
  rintro ⟨outcomes₁, s₁, outcomes₂, s₂, run₁, -⟩
  rw [faults₁] at run₁
  cases run₁

end DspDispatch.Fir.Portable
