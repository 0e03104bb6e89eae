import DspDispatch.Fir.PortableStreaming

/-!
# The three sample types of the portable FIR backend

The template is instantiated with real samples, with complex samples and real
taps, and with complex samples and complex taps. A plan of one of the complex
types runs in parallel with real plans on the real and the imaginary parts of its
input; `FirCall.Part` relates the calls. All plans owe convolutions of their
lanes' streams (`run_writes`), and taking parts goes through streams, samples and
sums.
-/

namespace DspDispatch.Fir

open Kit

variable {S S' : Type}

/-- The call `call'` of a parallel run reads the images of the samples `call`
reads. Where the buffers lie and what else they hold may differ. -/
def FirCall.Part (f : S → S') (n : Nat) : FirCall S → FirCall S' → Prop
  | .execute mem input _, .execute mem' input' _ => mem'.read input' n = (mem.read input n).map f
  | .clear, .clear => True
  | _, _ => False

/-- The outcome of a call that returned `Ok` and wrote these `n` samples, and
nothing else, into its output buffer. A clear writes none. -/
def FirCall.Wrote (n : Nat) : FirCall S → FirOutcome S → List S → Prop
  | .execute mem _ output, outcome, ys =>
    outcome = .executed .ok (mem.write output ys) ∧ ys.length = n
  | .clear, outcome, ys => outcome = .cleared .ok ∧ ys = []

/-- The plan's run on the calls goes through and the calls write these samples,
each its own list. -/
def BackendPlan.Writes {σ : Type} (p : BackendPlan σ S) (n : Nat) (calls : List (FirCall S))
    (written : List (List S)) : Prop :=
  ∃ (outcomes : List (FirOutcome S)) (s : σ), p.run calls = some (outcomes, s) ∧
    outcomes.length = calls.length ∧ written.length = calls.length ∧
    ∀ (k : Nat) call outcome ys, calls[k]? = some call → outcomes[k]? = some outcome →
      written[k]? = some ys → call.Wrote n outcome ys

section Pairs

variable {P : FirCall S → FirCall S' → Prop} {calls : List (FirCall S)}
  {calls' : List (FirCall S')}

/-- The calls of parallel runs come in pairs, each after runs that are parallel. -/
theorem parallel_at (pairs : List.Forall₂ P calls calls') {k : Nat} {call : FirCall S}
    (here : calls[k]? = some call) :
    ∃ call', calls'[k]? = some call' ∧ P call call' ∧
      List.Forall₂ P (calls.take k) (calls'.take k) := by
  have below := (List.getElem?_eq_some_iff.mp here).1
  have below' : k < calls'.length := pairs.length_eq ▸ below
  have related := (List.forall₂_iff_get.mp pairs).2 k below below'
  refine ⟨calls'[k], List.getElem?_eq_getElem below', ?_, List.forall₂_take k pairs⟩
  rw [← (List.getElem?_eq_some_iff.mp here).2]
  exact related

theorem parallel_after (pairs : List.Forall₂ P calls calls') {k : Nat}
    (ended : calls[k]? = none) : calls'[k]? = none := by
  rw [List.getElem?_eq_none_iff] at ended ⊢
  rw [← pairs.length_eq]
  exact ended

end Pairs

section Parts

variable {f : S → S'} {blockSize batch b : Nat} {calls : List (FirCall S)}
  {calls' : List (FirCall S')}

theorem laneBlock_part {mem : Mem S} {mem' : Mem S'} {input input' : Ptr}
    (part : mem'.read input' (batch * blockSize) = (mem.read input (batch * blockSize)).map f)
    (below : b < batch) :
    laneBlock blockSize mem' input' b = (laneBlock blockSize mem input b).map f := by
  have inside := lane_end_le blockSize below
  rw [laneBlock, laneBlock, Mem.read_add _ _ inside, Mem.read_add _ _ inside, part, segment_map]

/-- The streams of the parts are the parts of the streams. -/
theorem laneStream_part
    (parts : List.Forall₂ (FirCall.Part f (batch * blockSize)) calls calls') (below : b < batch) :
    laneStream blockSize b calls' = (laneStream blockSize b calls).map f := by
  have prefixes : ∀ k, laneStream blockSize b (calls'.take k) =
      (laneStream blockSize b (calls.take k)).map f := by
    intro k
    induction k with
    | zero => rfl
    | succ k ih =>
      rw [List.take_add_one, List.take_add_one]
      cases here : calls[k]? with
      | none =>
        rw [parallel_after parts here, Option.toList_none, Option.toList_none, List.append_nil,
          List.append_nil]
        exact ih
      | some call =>
        obtain ⟨call', here', part, -⟩ := parallel_at parts here
        rw [here', Option.toList_some, Option.toList_some]
        cases call with
        | execute mem input output =>
          cases call' with
          | execute mem' input' output' =>
            rw [laneStream_execute, laneStream_execute, ih, laneBlock_part part below,
              List.map_append]
          | clear => exact part.elim
        | clear =>
          cases call' with
          | execute mem' input' output' => exact part.elim
          | clear => rw [laneStream_clear, laneStream_clear]; rfl
  have whole := prefixes calls.length
  rw [List.take_length, parts.length_eq, List.take_length] at whole
  exact whole

end Parts

namespace Portable

variable {T : Type}

/-! ## What the calls of a run owe -/

section Owed

variable [Zero S] [Add S] [HMul S T S]

/-- The samples a call owes after the calls `past`. -/
def owed (taps : List T) (blockSize batch : Nat) (past : List (FirCall S)) : FirCall S → List S
  | .execute mem input _ =>
    convolvedLanes taps blockSize batch (fun b => laneStream blockSize b past) mem input
  | .clear => []

/-- What the calls of a whole run owe. -/
def owedRun (taps : List T) (blockSize batch : Nat) (calls : List (FirCall S)) : List (List S) :=
  calls.mapIdx fun k call => owed taps blockSize batch (calls.take k) call

/-- Every call of a run writes what it owes. -/
theorem run_writes (sizeofSample sizeofTap : Nat) {taps : List T} {blockSize batch : Nat}
    {calls : List (FirCall S)} (fits : batch * (taps.length - 1) < 2 ^ 64)
    (distinct : ∀ call ∈ calls, call.Distinct (batch * blockSize)) :
    (makeTyped sizeofSample sizeofTap taps blockSize batch).Writes (batch * blockSize) calls
      (owedRun taps blockSize batch calls) := by
  obtain ⟨outcomes, s, run, length, -, answers⟩ :=
    run_convolves sizeofSample sizeofTap fits calls distinct
  refine ⟨outcomes, s, run, length, List.length_mapIdx, ?_⟩
  intro k call outcome ys here found owes
  have answer := answers k call outcome here found
  rw [owedRun, List.getElem?_mapIdx, here, Option.map_some, Option.some.injEq] at owes
  rw [← owes]
  cases call with
  | execute mem input output => exact ⟨answer, length_convolvedLanes⟩
  | clear => exact ⟨answer, rfl⟩

theorem convolvedLanes_eq {taps : List T} {blockSize batch : Nat} {stream : Nat → List S}
    {mem : Mem S} {input : Ptr} :
    convolvedLanes taps blockSize batch stream mem input =
      lanes batch fun b => (List.range blockSize).map fun i =>
        convolveAt taps (stream b ++ laneBlock blockSize mem input b) ((stream b).length + i) :=
  rfl

end Owed

/-! ## Real taps on complex samples -/

section RealTaps

variable [Zero S] [Add S] [HMul S T S] [Zero S'] [Add S'] [HMul S' T S'] {f : S → S'}
  {taps : List T} {blockSize batch : Nat} {past : List (FirCall S)} {past' : List (FirCall S')}
  {call : FirCall S} {call' : FirCall S'}

theorem convolveAt_map (zero : f 0 = 0) (add : ∀ x y, f (x + y) = f x + f y)
    (mul : ∀ (x : S) (t : T), f (x * t) = f x * t) (xs : List S) (n : Nat) :
    convolveAt taps (xs.map f) n = f (convolveAt taps xs n) := by
  rw [convolveAt, convolveAt, map_tapSum zero add mul]
  simp only [sampleAt_map zero]

/-- A call on parts owes the parts. -/
theorem owed_part (zero : f 0 = 0) (add : ∀ x y, f (x + y) = f x + f y)
    (mul : ∀ (x : S) (t : T), f (x * t) = f x * t)
    (parts : List.Forall₂ (FirCall.Part f (batch * blockSize)) past past')
    (part : call.Part f (batch * blockSize) call') :
    owed taps blockSize batch past' call' = (owed taps blockSize batch past call).map f := by
  cases call with
  | execute mem input output =>
    cases call' with
    | execute mem' input' output' =>
      rw [owed, owed, convolvedLanes_eq, convolvedLanes_eq, map_lanes]
      apply lanes_congr
      intro b below
      rw [List.map_map, laneStream_part parts below, laneBlock_part part below,
        ← List.map_append, List.length_map]
      apply List.map_congr_left
      intro i _
      exact convolveAt_map zero add mul _ _
    | clear => exact part.elim
  | clear =>
    cases call' with
    | execute mem' input' output' => exact part.elim
    | clear => rfl

end RealTaps

section Runs

variable [Zero S] [Add S] [HMul S T S] [Zero S'] [Add S'] [HMul S' T S'] {f : S → S'}
  {taps : List T} {blockSize batch : Nat} {calls : List (FirCall S)} {calls' : List (FirCall S')}

/-- A run on parts owes the parts. -/
theorem owedRun_part (zero : f 0 = 0) (add : ∀ x y, f (x + y) = f x + f y)
    (mul : ∀ (x : S) (t : T), f (x * t) = f x * t)
    (parts : List.Forall₂ (FirCall.Part f (batch * blockSize)) calls calls') :
    owedRun taps blockSize batch calls' = (owedRun taps blockSize batch calls).map (List.map f) := by
  apply List.ext_getElem?
  intro k
  rw [List.getElem?_map, owedRun, owedRun, List.getElem?_mapIdx, List.getElem?_mapIdx]
  cases here : calls[k]? with
  | none => rw [parallel_after parts here]; rfl
  | some call =>
    obtain ⟨call', here', part, past⟩ := parallel_at parts here
    rw [here', Option.map_some, Option.map_some, Option.map_some, owed_part zero add mul past part]

end Runs

/-! ## Complex taps -/

section Combine

variable {U V : Type} [Zero S] [Add S] [HMul S T S] [Zero S'] [Add S'] [HMul S' U S'] {f : S → S'}
  {p q : S → S'} {g : S' → S' → S'} {taps : List T} {ps qs : List U} {blockSize batch : Nat}

/-- Where `f` of a sum of products combines two sums over parts of the samples
and of the taps, it so combines the convolutions. -/
theorem convolveAt_combine (zeroP : p 0 = 0) (zeroQ : q 0 = 0)
    (combine : ∀ x : Nat → S, f (tapSum taps x) =
      g (tapSum ps fun k => p (x k)) (tapSum qs fun k => q (x k))) (xs : List S) (n : Nat) :
    f (convolveAt taps xs n) = g (convolveAt ps (xs.map p) n) (convolveAt qs (xs.map q) n) := by
  rw [convolveAt, combine, convolveAt, convolveAt]
  simp only [sampleAt_map zeroP, sampleAt_map zeroQ]

theorem owed_combine (zeroP : p 0 = 0) (zeroQ : q 0 = 0)
    (combine : ∀ x : Nat → S, f (tapSum taps x) =
      g (tapSum ps fun k => p (x k)) (tapSum qs fun k => q (x k)))
    {past : List (FirCall S)} {pastP pastQ : List (FirCall S')} {call : FirCall S}
    {callP callQ : FirCall S'}
    (partsP : List.Forall₂ (FirCall.Part p (batch * blockSize)) past pastP)
    (partsQ : List.Forall₂ (FirCall.Part q (batch * blockSize)) past pastQ)
    (partP : call.Part p (batch * blockSize) callP) (partQ : call.Part q (batch * blockSize) callQ) :
    (owed taps blockSize batch past call).map f =
      List.zipWith g (owed ps blockSize batch pastP callP)
        (owed qs blockSize batch pastQ callQ) := by
  cases call with
  | execute mem input output =>
    cases callP with
    | clear => exact partP.elim
    | execute memP inputP outputP =>
      cases callQ with
      | clear => exact partQ.elim
      | execute memQ inputQ outputQ =>
        rw [owed, owed, owed, convolvedLanes_eq, convolvedLanes_eq, convolvedLanes_eq, map_lanes,
          zipWith_lanes g (fun b _ => by simp only [List.length_map, List.length_range])]
        apply lanes_congr
        intro b below
        rw [laneStream_part partsP below, laneStream_part partsQ below, laneBlock_part partP below,
          laneBlock_part partQ below, ← List.map_append, ← List.map_append, List.length_map,
          List.length_map, List.zipWith_map, List.zipWith_self, List.map_map]
        apply List.map_congr_left
        intro i _
        exact convolveAt_combine zeroP zeroQ combine _ _
  | clear =>
    cases callP with
    | execute memP inputP outputP => exact partP.elim
    | clear =>
      cases callQ with
      | execute memQ inputQ outputQ => exact partQ.elim
      | clear => rfl

theorem owedRun_combine (zeroP : p 0 = 0) (zeroQ : q 0 = 0)
    (combine : ∀ x : Nat → S, f (tapSum taps x) =
      g (tapSum ps fun k => p (x k)) (tapSum qs fun k => q (x k)))
    {calls : List (FirCall S)} {callsP callsQ : List (FirCall S')}
    (partsP : List.Forall₂ (FirCall.Part p (batch * blockSize)) calls callsP)
    (partsQ : List.Forall₂ (FirCall.Part q (batch * blockSize)) calls callsQ) :
    (owedRun taps blockSize batch calls).map (List.map f) =
      List.zipWith (List.zipWith g) (owedRun ps blockSize batch callsP)
        (owedRun qs blockSize batch callsQ) := by
  apply List.ext_getElem?
  intro k
  rw [List.getElem?_map, List.getElem?_zipWith, owedRun, owedRun, owedRun, List.getElem?_mapIdx,
    List.getElem?_mapIdx, List.getElem?_mapIdx]
  cases here : calls[k]? with
  | none => rw [parallel_after partsP here, parallel_after partsQ here]; rfl
  | some call =>
    obtain ⟨callP, hereP, partP, pastP⟩ := parallel_at partsP here
    obtain ⟨callQ, hereQ, partQ, pastQ⟩ := parallel_at partsQ here
    rw [hereP, hereQ]
    exact congrArg some (owed_combine zeroP zeroQ combine pastP pastQ partP partQ)

end Combine

section Components

variable {R : Type} [CommRing R]

theorem re_tapSum (taps : List (Cplx R)) (x : Nat → Cplx R) :
    (tapSum taps x).re = tapSum (taps.map QuadraticAlgebra.re) (fun k => (x k).re) -
      tapSum (taps.map QuadraticAlgebra.im) (fun k => (x k).im) := by
  induction taps using List.reverseRecOn with
  | nil => exact (sub_zero 0).symm
  | append_singleton taps t ih =>
    rw [List.map_append, List.map_append, List.map_singleton, List.map_singleton, tapSum_snoc,
      tapSum_snoc, tapSum_snoc, QuadraticAlgebra.re_add, ih, QuadraticAlgebra.re_mul,
      List.length_map, List.length_map]
    ring

theorem im_tapSum (taps : List (Cplx R)) (x : Nat → Cplx R) :
    (tapSum taps x).im = tapSum (taps.map QuadraticAlgebra.re) (fun k => (x k).im) +
      tapSum (taps.map QuadraticAlgebra.im) (fun k => (x k).re) := by
  induction taps using List.reverseRecOn with
  | nil => exact (add_zero 0).symm
  | append_singleton taps t ih =>
    rw [List.map_append, List.map_append, List.map_singleton, List.map_singleton, tapSum_snoc,
      tapSum_snoc, tapSum_snoc, QuadraticAlgebra.im_add, ih, QuadraticAlgebra.im_mul,
      List.length_map, List.length_map]
    ring

/-- The plan of one of the three types, as the factory's switch makes it. -/
def typedPlan (type : FirType) (precision : FirPrecision) (taps : List (TapOf R type))
    (blockSize batch : Nat) :
    BackendPlan (PortableState (SampleOf R type) (TapOf R type)) (SampleOf R type) :=
  makeTyped (type.sizeofSample precision) (type.sizeofTap precision) taps blockSize batch

/-- It is the plan of an accepted configuration. -/
theorem makeBackendPlan_eq (cfg : FirPlanConfig R) :
    makeBackendPlan cfg = if invalidCommon cfg then .error .invalidArgument
      else .ok (typedPlan cfg.type cfg.precision cfg.tapList cfg.blockSize cfg.batch) := rfl

/-- The calls `calls'` step in parallel with `calls` on the parts `f` of their
samples, their own buffers distinct. -/
def Parallel (f : S → S') (n : Nat) (calls : List (FirCall S)) (calls' : List (FirCall S')) :
    Prop :=
  List.Forall₂ (FirCall.Part f n) calls calls' ∧ ∀ call ∈ calls', call.Distinct n

theorem run_writes_real (precision : FirPrecision) {taps : List R} {blockSize batch : Nat}
    {f : S → R} {calls : List (FirCall S)} {calls' : List (FirCall R)}
    (fits : batch * (taps.length - 1) < 2 ^ 64)
    (parallel : Parallel f (batch * blockSize) calls calls') :
    (typedPlan .real precision taps blockSize batch).Writes (batch * blockSize) calls'
      (owedRun (S := R) (T := R) taps blockSize batch calls') := by
  have writes := run_writes precision.sizeofReal precision.sizeofReal fits parallel.2
  exact writes

/-- The part `f` of a block of equal samples. -/
theorem constantCall_parallel (f : S → S') (n : Nat) (v : S) :
    Parallel f n [constantCall n v ⟨1, 0⟩] [constantCall n (f v) ⟨1, 0⟩] := by
  have read : ∀ {S : Type} (v : S),
      (⟨fun _ => List.replicate n v⟩ : Mem S).read ⟨0, 0⟩ n = List.replicate n v :=
    fun v => segment_replicate v (Nat.le_of_eq (Nat.zero_add n))
  refine ⟨.cons ?_ .nil, List.forall_mem_singleton.mpr (constantCall_distinct _ _)⟩
  change Mem.read _ _ _ = (Mem.read _ _ _).map f
  rw [read, read, List.map_replicate]

/-- On every run of execute and clear calls with distinct buffers, a plan for complex
samples with real taps writes samples whose real and imaginary parts are the samples
two real plans with its taps write on the real and the imaginary parts of the input. -/
def RealTapsConsistent (precision : FirPrecision) (taps : List R) (blockSize batch : Nat) : Prop :=
  ∀ (calls : List (FirCall (Cplx R))) (callsRe callsIm : List (FirCall R)),
    (∀ call ∈ calls, call.Distinct (batch * blockSize)) →
    Parallel QuadraticAlgebra.re (batch * blockSize) calls callsRe →
    Parallel QuadraticAlgebra.im (batch * blockSize) calls callsIm →
    ∃ (zs : List (List (Cplx R))) (xs ys : List (List R)),
      (typedPlan .complexRealTaps precision taps blockSize batch).Writes
        (batch * blockSize) calls zs ∧
      (typedPlan .real precision taps blockSize batch).Writes (batch * blockSize) callsRe xs ∧
      (typedPlan .real precision taps blockSize batch).Writes (batch * blockSize) callsIm ys ∧
      zs.map (List.map QuadraticAlgebra.re) = xs ∧
      zs.map (List.map QuadraticAlgebra.im) = ys

/-- A plan with complex taps `r + i s` writes `(A - D) + i (B + C)`, where real plans
with taps `r` write `A` and `B` on the real and the imaginary parts of the input, and
real plans with taps `s` write `C` and `D`. -/
def ComplexTapsConsistent (precision : FirPrecision) (taps : List (Cplx R))
    (blockSize batch : Nat) : Prop :=
  ∀ (calls : List (FirCall (Cplx R))) (callsA callsB callsC callsD : List (FirCall R)),
    (∀ call ∈ calls, call.Distinct (batch * blockSize)) →
    Parallel QuadraticAlgebra.re (batch * blockSize) calls callsA →
    Parallel QuadraticAlgebra.im (batch * blockSize) calls callsB →
    Parallel QuadraticAlgebra.re (batch * blockSize) calls callsC →
    Parallel QuadraticAlgebra.im (batch * blockSize) calls callsD →
    ∃ (zs : List (List (Cplx R))) (as bs cs ds : List (List R)),
      (typedPlan .complex precision taps blockSize batch).Writes (batch * blockSize) calls zs ∧
      (typedPlan .real precision (taps.map QuadraticAlgebra.re) blockSize batch).Writes
        (batch * blockSize) callsA as ∧
      (typedPlan .real precision (taps.map QuadraticAlgebra.re) blockSize batch).Writes
        (batch * blockSize) callsB bs ∧
      (typedPlan .real precision (taps.map QuadraticAlgebra.im) blockSize batch).Writes
        (batch * blockSize) callsC cs ∧
      (typedPlan .real precision (taps.map QuadraticAlgebra.im) blockSize batch).Writes
        (batch * blockSize) callsD ds ∧
      zs.map (List.map QuadraticAlgebra.re) = List.zipWith (List.zipWith (· - ·)) as ds ∧
      zs.map (List.map QuadraticAlgebra.im) = List.zipWith (List.zipWith (· + ·)) bs cs

section Wraps

variable {blockSize batch : Nat}

/-- Where the product of the sizes wraps, no run that begins with an execute goes
through. -/
theorem run_typedPlan_of_wraps (type : FirType) (precision : FirPrecision)
    {taps : List (TapOf R type)} (wraps : 2 ^ 64 ≤ batch * (taps.length - 1)) (n : Nat)
    (v : SampleOf R type) (output : Ptr) :
    (typedPlan type precision taps blockSize batch).run [constantCall n v output] = none :=
  run_of_wraps _ _ _ wraps _ []

theorem not_realTapsConsistent (precision : FirPrecision) {taps : List R}
    (wraps : 2 ^ 64 ≤ batch * (taps.length - 1)) :
    ¬ RealTapsConsistent precision taps blockSize batch := by
  intro consistent
  obtain ⟨zs, xs, ys, ⟨outcomes, s, run, -⟩, -⟩ :=
    consistent [constantCall (batch * blockSize) 0 ⟨1, 0⟩] _ _
      (List.forall_mem_singleton.mpr (constantCall_distinct _ _))
      (constantCall_parallel _ _ _) (constantCall_parallel _ _ _)
  cases run.symm.trans (run_typedPlan_of_wraps .complexRealTaps precision wraps _ _ _)

theorem not_complexTapsConsistent (precision : FirPrecision) {taps : List (Cplx R)}
    (wraps : 2 ^ 64 ≤ batch * (taps.length - 1)) :
    ¬ ComplexTapsConsistent precision taps blockSize batch := by
  intro consistent
  obtain ⟨zs, as, bs, cs, ds, ⟨outcomes, s, run, -⟩, -⟩ :=
    consistent [constantCall (batch * blockSize) 0 ⟨1, 0⟩] _ _ _ _
      (List.forall_mem_singleton.mpr (constantCall_distinct _ _))
      (constantCall_parallel _ _ _) (constantCall_parallel _ _ _)
      (constantCall_parallel _ _ _) (constantCall_parallel _ _ _)
  cases run.symm.trans (run_typedPlan_of_wraps .complex precision wraps _ _ _)

end Wraps

/-- The three sample types are consistent exactly when the number of samples the
histories are to hold is a `size_t` value. -/
theorem portable_components_iff (precision : FirPrecision) (blockSize batch : Nat) :
    (∀ taps : List R, RealTapsConsistent precision taps blockSize batch ↔
      batch * (taps.length - 1) < 2 ^ 64) ∧
    (∀ taps : List (Cplx R), ComplexTapsConsistent precision taps blockSize batch ↔
      batch * (taps.length - 1) < 2 ^ 64) := by
  constructor
  · intro taps
    constructor
    · intro consistent
      by_contra wraps
      exact not_realTapsConsistent precision (Nat.le_of_not_lt wraps) consistent
    · intro fits calls callsRe callsIm distinct parallelRe parallelIm
      refine ⟨owedRun taps blockSize batch calls, _, _,
        run_writes (S := Cplx R) (T := R) _ _ fits distinct,
        run_writes_real precision fits parallelRe, run_writes_real precision fits parallelIm, ?_, ?_⟩
      · exact (owedRun_part (T := R) rfl (fun _ _ => rfl) (fun _ _ => rfl) parallelRe.1).symm
      · exact (owedRun_part (T := R) rfl (fun _ _ => rfl) (fun _ _ => rfl) parallelIm.1).symm
  · intro taps
    constructor
    · intro consistent
      by_contra wraps
      exact not_complexTapsConsistent precision (Nat.le_of_not_lt wraps) consistent
    · intro fits calls callsA callsB callsC callsD distinct parallelA parallelB parallelC parallelD
      have parts : ∀ f : Cplx R → R, batch * ((taps.map f).length - 1) < 2 ^ 64 := by
        intro f
        rwa [List.length_map]
      refine ⟨owedRun taps blockSize batch calls, _, _, _, _,
        run_writes (S := Cplx R) (T := Cplx R) _ _ fits distinct,
        run_writes_real precision (parts _) parallelA, run_writes_real precision (parts _) parallelB,
        run_writes_real precision (parts _) parallelC, run_writes_real precision (parts _) parallelD,
        ?_, ?_⟩
      · exact owedRun_combine rfl rfl (re_tapSum taps) parallelA.1 parallelD.1
      · exact owedRun_combine rfl rfl (im_tapSum taps) parallelB.1 parallelC.1

/-- One lane, one tap, two blocks of one sample and a clear between them. -/
theorem portable_components_iff_two_blocks :
    let block (v : Cplx Int) : FirCall (Cplx Int) := .execute ⟨fun _ => [v, 0]⟩ ⟨0, 0⟩ ⟨0, 1⟩
    let part (v : Int) : FirCall Int := .execute ⟨fun _ => [v, 0]⟩ ⟨0, 0⟩ ⟨0, 1⟩
    (∃ (zs : List (List (Cplx Int))) (xs ys : List (List Int)),
      (typedPlan .complexRealTaps .f32 [(3 : Int)] 1 1).Writes (1 * 1)
        [block ⟨1, 2⟩, .clear, block ⟨4, 5⟩] zs ∧
      (typedPlan .real .f32 [(3 : Int)] 1 1).Writes (1 * 1) [part 1, .clear, part 4] xs ∧
      (typedPlan .real .f32 [(3 : Int)] 1 1).Writes (1 * 1) [part 2, .clear, part 5] ys ∧
      zs.map (List.map QuadraticAlgebra.re) = xs ∧
      zs.map (List.map QuadraticAlgebra.im) = ys) ∧
    (∃ (zs : List (List (Cplx Int))) (as bs cs ds : List (List Int)),
      (typedPlan .complex .f32 [(⟨3, 7⟩ : Cplx Int)] 1 1).Writes (1 * 1)
        [block ⟨1, 2⟩, .clear, block ⟨4, 5⟩] zs ∧
      (typedPlan .real .f32 [(3 : Int)] 1 1).Writes (1 * 1) [part 1, .clear, part 4] as ∧
      (typedPlan .real .f32 [(3 : Int)] 1 1).Writes (1 * 1) [part 2, .clear, part 5] bs ∧
      (typedPlan .real .f32 [(7 : Int)] 1 1).Writes (1 * 1) [part 1, .clear, part 4] cs ∧
      (typedPlan .real .f32 [(7 : Int)] 1 1).Writes (1 * 1) [part 2, .clear, part 5] ds ∧
      zs.map (List.map QuadraticAlgebra.re) = List.zipWith (List.zipWith (· - ·)) as ds ∧
      zs.map (List.map QuadraticAlgebra.im) = List.zipWith (List.zipWith (· + ·)) bs cs) := by
  intro block part
  have distinct : ∀ call ∈ [block ⟨1, 2⟩, .clear, block ⟨4, 5⟩], call.Distinct (1 * 1) := by
    simp [block, FirCall.Distinct, Mem.Holds, Apart]
  have distinctPart : ∀ v w : Int, ∀ call ∈ [part v, .clear, part w], call.Distinct (1 * 1) := by
    simp [part, FirCall.Distinct, Mem.Holds, Apart]
  have re : Parallel QuadraticAlgebra.re (1 * 1) [block ⟨1, 2⟩, .clear, block ⟨4, 5⟩]
      [part 1, .clear, part 4] :=
    ⟨.cons rfl (.cons trivial (.cons rfl .nil)), distinctPart 1 4⟩
  have im : Parallel QuadraticAlgebra.im (1 * 1) [block ⟨1, 2⟩, .clear, block ⟨4, 5⟩]
      [part 2, .clear, part 5] :=
    ⟨.cons rfl (.cons trivial (.cons rfl .nil)), distinctPart 2 5⟩
  exact ⟨((portable_components_iff .f32 1 1).1 [3]).mpr (by decide) _ _ _ distinct re im,
    ((portable_components_iff .f32 1 1).2 [⟨3, 7⟩]).mpr (by decide) _ _ _ _ _ distinct re im re im⟩

/-- Plans whose histories are empty fault at the first execute. -/
theorem wrappedHistory_not_consistent :
    let real : List Int := List.replicate (2 ^ 30 + 1) 1
    let complex : List (Cplx Int) := List.replicate (2 ^ 30 + 1) ⟨1, 0⟩
    let call : FirCall (Cplx Int) := constantCall (2 ^ 34 * 1) 0 ⟨1, 0⟩
    (typedPlan .complexRealTaps .f32 real 1 (2 ^ 34)).run [call] = none ∧
      (typedPlan .complex .f32 complex 1 (2 ^ 34)).run [call] = none ∧
      ¬ RealTapsConsistent .f32 real 1 (2 ^ 34) ∧ ¬ ComplexTapsConsistent .f32 complex 1 (2 ^ 34) := by
  intro real complex call
  have wrapsReal : 2 ^ 64 ≤ 2 ^ 34 * (real.length - 1) := by
    rw [List.length_replicate]
    decide
  have wrapsComplex : 2 ^ 64 ≤ 2 ^ 34 * (complex.length - 1) := by
    rw [List.length_replicate]
    decide
  exact ⟨run_typedPlan_of_wraps .complexRealTaps .f32 wrapsReal _ _ _,
    run_typedPlan_of_wraps .complex .f32 wrapsComplex _ _ _,
    not_realTapsConsistent .f32 wrapsReal, not_complexTapsConsistent .f32 wrapsComplex⟩

end Components

end Portable

end DspDispatch.Fir
