import DspDispatch.Fft.Reference

/-!
# The adapters of one library call

The MKL, AOCL and ArmPL adapters hand the caller's buffers to one library call for
the whole batch; AOCL and ArmPL then scale the output of inverse transforms.
`Plan.Calls` says so. What the call does is known for every accepted configuration
(`Plan.exists_call`), also for one whose sizes the library cannot represent: then
the lanes planned are not the lanes of the buffers.
-/

namespace DspDispatch.Fft

open Kit

namespace Backend

/-! ## What is planned -/

/-- The backends that make one library call for the whole batch. -/
def Vendor (b : Backend) : Prop := b = .mkl ∨ b.Narrows

/-- The length of the transforms planned. -/
def plannedLength (b : Backend) (cfg : FftPlanConfig) : Nat :=
  if b.Narrows then (toInt32 cfg.length).toNat else cfg.length

/-- The lanes planned. -/
def plannedLanes (b : Backend) (cfg : FftPlanConfig) : Strided :=
  if b.Narrows then cfg.narrowed
  else .contiguous cfg.batch (cfg.kind.inLen cfg.length) (cfg.kind.outLen cfg.length)

/-- The scale the library applies. -/
noncomputable def plannedScale (b : Backend) (cfg : FftPlanConfig) : ℝ :=
  if b.Narrows then 1 else cfg.scale

/-- The plan may overwrite its input. -/
def Destroys (b : Backend) (cfg : FftPlanConfig) : Prop := b = .armpl ∧ cfg.type = .complexToReal

/-- The adapter scales the output. -/
def Scales (b : Backend) (cfg : FftPlanConfig) : Prop := b.Narrows ∧ cfg.isInverse = true

instance (b : Backend) : Decidable b.Vendor := inferInstanceAs (Decidable (_ ∨ _))

instance (b : Backend) (cfg : FftPlanConfig) : Decidable (b.Scales cfg) :=
  inferInstanceAs (Decidable (_ ∧ _))

variable {libs : Libraries ℝ} {b : Backend} {cfg : FftPlanConfig}

/-- What an execute makes of the outcome of its library call. -/
noncomputable def afterCall (b : Backend) (cfg : FftPlanConfig) (w : World ℝ) (output : Ptr)
    (run : Bool × Mem ℝ) : Option (Status × World ℝ) :=
  if run.1 = false then some (.backendError, { w with mem := run.2 })
  else do
    let mem ← if b.Scales cfg then scaleOutput cfg.type cfg.length cfg.batch output run.2
      else some run.2
    some (.ok, { w with mem := mem })

/-- Every execute makes this library call. -/
def Plan.Calls (p : Plan libs b cfg) (call : Mem ℝ → Ptr → Ptr → Bool × Mem ℝ) : Prop :=
  ∀ w input output, p.execute w input output =
    b.afterCall cfg w output (call w.mem input output)

theorem mkl_planned (cfg : FftPlanConfig) :
    plannedLength .mkl cfg = cfg.length ∧ plannedScale .mkl cfg = cfg.scale ∧
      plannedLanes .mkl cfg =
        .contiguous cfg.batch (cfg.kind.inLen cfg.length) (cfg.kind.outLen cfg.length) ∧
      Destroys .mkl cfg = False ∧ ¬ Scales .mkl cfg := by
  have wide : ¬ Narrows .mkl := by decide
  exact ⟨if_neg wide, if_neg wide, if_neg wide, by simp [Destroys], fun scales => wide scales.1⟩

theorem aocl_planned (cfg : FftPlanConfig) :
    plannedLength .aocl cfg = (toInt32 cfg.length).toNat ∧ plannedScale .aocl cfg = 1 ∧
      plannedLanes .aocl cfg = cfg.narrowed ∧ Destroys .aocl cfg = False ∧
      (Scales .aocl cfg ↔ cfg.isInverse = true) := by
  have narrow : Narrows .aocl := by decide
  exact ⟨if_pos narrow, if_pos narrow, if_pos narrow, by simp [Destroys], and_iff_right narrow⟩

theorem armpl_planned (cfg : FftPlanConfig) :
    plannedLength .armpl cfg = (toInt32 cfg.length).toNat ∧ plannedScale .armpl cfg = 1 ∧
      plannedLanes .armpl cfg = cfg.narrowed ∧
      Destroys .armpl cfg = (cfg.type = .complexToReal) ∧
      (Scales .armpl cfg ↔ cfg.isInverse = true) := by
  have narrow : Narrows .armpl := by decide
  exact ⟨if_pos narrow, if_pos narrow, if_pos narrow, by simp [Destroys], and_iff_right narrow⟩

theorem plannedLanes_outLen (b : Backend) (cfg : FftPlanConfig) :
    (b.plannedLanes cfg).outLen = cfg.kind.outLen (b.plannedLength cfg) := by
  unfold plannedLanes plannedLength
  split
  · exact cfg.narrowed_outLen
  · rfl

/-! ## The call of each adapter -/

theorem mkl_calls (p : Plan libs .mkl cfg) :
    p.Calls fun m input output =>
      let run := libs.mkl.compute cfg.isInverse (Mkl.descriptor cfg) m input output
      (Mkl.dftiOk libs.mkl run.1, run.2) := by
  obtain ⟨-, plan, made, s, reached⟩ := p
  obtain ⟨-, -, state, execute⟩ := Mkl.makeBackendPlan_ok made
  obtain ⟨-, -, -, -, unscaled⟩ := mkl_planned cfg
  have same := Mkl.reached_state made reached
  subst same
  intro w input output
  change (plan.execute plan.state w input output).map _ = _
  rw [execute, state]
  simp only [Mkl.mklExecute, afterCall, if_neg unscaled]
  generalize libs.mkl.compute cfg.isInverse (Mkl.descriptor cfg) w.mem input output = run
  cases ok : Mkl.dftiOk libs.mkl run.1 with
  | false => rfl
  | true => rfl

theorem aocl_calls (p : Plan libs .aocl cfg) :
    ∃ h, (libs.aocl cfg.precision).setup (Aocl.problem cfg cfg.isInverse) = some h ∧
      p.Calls ((libs.aocl cfg.precision).executeIo h) := by
  obtain ⟨-, plan, made, s, reached⟩ := p
  obtain ⟨-, -, h, planned, same⟩ := Aocl.makeBackendPlan_ok made
  obtain ⟨-, -, -, -, scaled⟩ := aocl_planned cfg
  have constant := Aocl.reached_state made reached
  subst constant
  refine ⟨h, planned, ?_⟩
  intro w input output
  change (plan.execute plan.state w input output).map _ = _
  rw [same]
  simp only [Aocl.makeTyped, Aocl.aoclExecute, planned, Option.bind_eq_bind, Option.bind_some,
    afterCall, scaled]
  generalize (libs.aocl cfg.precision).executeIo h w.mem input output = run
  by_cases failed : run.1 = false
  · rw [if_pos failed, if_pos failed]
    rfl
  · rw [if_neg failed, if_neg failed]
    by_cases inverse : cfg.isInverse = true
    · rw [if_pos inverse, if_pos inverse]
      cases scaleOutput cfg.type cfg.length cfg.batch output run.2 <;> rfl
    · rw [if_neg inverse, if_neg inverse]
      rfl

theorem armpl_calls (p : Plan libs .armpl cfg) :
    ∃ h, (libs.armpl cfg.precision).planMany (Armpl.plannerCall cfg cfg.isInverse) = some h ∧
      p.Calls fun m input output =>
        (true, (libs.armpl cfg.precision).execute cfg.type h m input output) := by
  obtain ⟨-, plan, made, s, reached⟩ := p
  obtain ⟨-, h, planned, state, execute⟩ := Armpl.makeBackendPlan_ok made
  obtain ⟨-, -, -, -, scaled⟩ := armpl_planned cfg
  have constant := Armpl.reached_state made reached
  subst constant
  refine ⟨h, planned, ?_⟩
  intro w input output
  change (plan.execute plan.state w input output).map _ = _
  rw [execute, state]
  simp only [Armpl.armplExecute, Armpl.normalizeInverse, afterCall, scaled, Bool.true_eq_false,
    if_false, Option.bind_eq_bind]
  generalize (libs.armpl cfg.precision).execute cfg.type h w.mem input output = mem
  by_cases inverse : cfg.isInverse = true
  · rw [if_pos inverse, if_pos inverse]
    cases scaleOutput cfg.type cfg.length cfg.batch output mem <;> rfl
  · rw [if_neg inverse, if_neg inverse]
    rfl

/-- What the call of a documented library does, for any accepted sizes. -/
theorem Plan.exists_call (documented : libs.Documented) (vendor : b.Vendor) (p : Plan libs b cfg)
    (addressable : cfg.Addressable) :
    ∃ call, p.Calls call ∧ Transforms cfg.kind (b.plannedLength cfg) (b.plannedScale cfg)
      (b.plannedLanes cfg) (b.Destroys cfg) fun m input output => (call m input output).2 := by
  rcases vendor with rfl | rfl | rfl
  · obtain ⟨length, scale, lanes, destroys, -⟩ := mkl_planned cfg
    obtain ⟨valid, committed, -, -⟩ := Mkl.makeBackendPlan_ok p.made
    refine ⟨_, mkl_calls p, ?_⟩
    rw [length, scale, lanes, destroys]
    exact Mkl.compute_transforms documented.mkl valid addressable committed
  · obtain ⟨length, scale, lanes, destroys, -⟩ := aocl_planned cfg
    obtain ⟨h, planned, calls⟩ := aocl_calls p
    refine ⟨_, calls, ?_⟩
    rw [length, scale, lanes, destroys]
    exact Aocl.execute_transforms documented.aocl planned
  · obtain ⟨length, scale, lanes, destroys, -⟩ := armpl_planned cfg
    obtain ⟨h, planned, calls⟩ := armpl_calls p
    refine ⟨_, calls, ?_⟩
    rw [length, scale, lanes, destroys]
    exact Armpl.execute_transforms documented.armpl planned

/-! ## Configurations the libraries can accept -/

/-- What an accepted configuration satisfies whatever the library. -/
structure Admits (b : Backend) (cfg : FftPlanConfig) : Prop where
  valid : cfg.Valid
  positive : b.Narrows → 0 < toInt32 cfg.length ∧ 0 ≤ toInt32 cfg.batch
  supported : b = .aocl → ¬ (cfg.type ≠ .complex ∧ Aocl.aoclRealLengthSupported cfg.length = false)

theorem Plan.admits (documented : libs.Documented) (vendor : b.Vendor) (p : Plan libs b cfg) :
    b.Admits cfg := by
  rcases vendor with rfl | rfl | rfl
  · obtain ⟨valid, -, -, -⟩ := Mkl.makeBackendPlan_ok p.made
    exact ⟨valid, fun narrow => absurd narrow (by decide), fun other => by cases other⟩
  · obtain ⟨valid, supported, h, planned, -⟩ := Aocl.makeBackendPlan_ok p.made
    have positive := (documented.aocl _).domain _ _ planned
    rw [Aocl.problem_dims_n, Aocl.problem_vecs_n] at positive
    exact ⟨valid, fun _ => positive, fun _ => supported⟩
  · obtain ⟨valid, h, planned, -, -⟩ := Armpl.makeBackendPlan_ok p.made
    have positive := (documented.armpl _).domain _ _ planned
    rw [Armpl.plannerCall_n, Armpl.plannerCall_howmany] at positive
    exact ⟨valid, fun _ => positive, fun other => by cases other⟩

/-- The libraries of an operation accept every such configuration. -/
theorem exists_plan (op : Operation) (vendor : b.Vendor) (admits : b.Admits cfg) :
    Nonempty (Plan op.libraries b cfg) := by
  let w : World ℝ := { mem := ⟨fun _ => []⟩, caches := fun _ => {} }
  obtain ⟨valid, positive, supported⟩ := admits
  rcases vendor with rfl | rfl | rfl
  · obtain ⟨plan, made⟩ := Mkl.exists_plan op.mkl valid (fun _ _ _ => rfl) (fun _ _ => rfl)
      fun _ => rfl
    exact ⟨⟨w, plan, made, plan.state, .start⟩⟩
  · have planned := op.aocl_setup (d := Aocl.problem cfg cfg.isInverse) (by
      rw [Aocl.problem_dims_n, Aocl.problem_vecs_n]
      exact positive (by decide))
    have made := Aocl.makeBackendPlan_eq (fun _ => op.aocl) valid (supported rfl) planned
    exact ⟨⟨w, _, made, _, .start⟩⟩
  · have planned := op.armpl_planMany (d := Armpl.plannerCall cfg cfg.isInverse) (by
      rw [Armpl.plannerCall_n, Armpl.plannerCall_howmany]
      exact positive (by decide))
    obtain ⟨plan, made⟩ := Armpl.exists_plan (fun _ => op.armpl) valid (fun _ => rfl) planned
    exact ⟨⟨w, plan, made, plan.state, .start⟩⟩

/-- Over the libraries of an operation every execute performs it. -/
theorem Plan.calls_operation {op : Operation} (vendor : b.Vendor) (p : Plan op.libraries b cfg)
    (addressable : cfg.Addressable) :
    p.Calls fun m input output => (true, op.call cfg.kind (b.plannedLength cfg)
      (b.plannedScale cfg) (b.plannedLanes cfg) (b.Destroys cfg) m input output) := by
  rcases vendor with rfl | rfl | rfl
  · obtain ⟨length, scale, lanes, destroys, -⟩ := mkl_planned cfg
    obtain ⟨valid, -, -, -⟩ := Mkl.makeBackendPlan_ok p.made
    have length_lt := addressable.length_lt valid.batch_pos
    have batch_lt := addressable.batch_lt valid.length_pos
    have call : ∀ m input output,
        op.mkl.compute cfg.isInverse (Mkl.descriptor cfg) m input output =
          (0, op.call cfg.kind cfg.length cfg.scale (.contiguous cfg.batch
            (cfg.kind.inLen cfg.length) (cfg.kind.outLen cfg.length)) False m input output) := by
      intro m input output
      rw [← Mkl.descriptor_strided (K := ℝ) cfg length_lt batch_lt, ← Mkl.descriptor_scale,
        ← Mkl.descriptor_kind (K := ℝ) cfg]
      have natural : (Mkl.descriptor cfg : Mkl.Descriptor ℝ).length.toNat = cfg.length := by
        rw [Mkl.descriptor_length, toInt64_of_lt length_lt, Int.toNat_natCast]
      conv_rhs => rw [← natural]
      cases cfg.isInverse <;> rfl
    have calls := mkl_calls p
    rw [length, scale, lanes, destroys]
    intro w input output
    rw [calls w input output]
    change afterCall .mkl cfg w output (Mkl.dftiOk op.mkl (op.mkl.compute _ _ _ _ _).1,
      (op.mkl.compute _ _ _ _ _).2) = _
    rw [call]
    rfl
  · obtain ⟨length, scale, lanes, destroys, -⟩ := aocl_planned cfg
    obtain ⟨h, planned, calls⟩ := aocl_calls p
    have positive := (op.aocl_documented).domain _ _ planned
    have same := Option.some.inj (planned.symm.trans (op.aocl_setup positive))
    subst same
    rw [length, scale, lanes, destroys, ← Aocl.problem_strided, ← Aocl.problem_kind,
      ← Aocl.problem_dims_n cfg cfg.isInverse]
    exact calls
  · obtain ⟨length, scale, lanes, destroys, -⟩ := armpl_planned cfg
    obtain ⟨h, planned, calls⟩ := armpl_calls p
    have positive := (op.armpl_documented).domain _ _ planned
    have same := Option.some.inj (planned.symm.trans (op.armpl_planMany positive))
    subst same
    rw [length, scale, lanes, destroys, ← Armpl.plannerCall_strided, ← Armpl.plannerCall_destroys,
      ← Armpl.plannerCall_kind, ← Armpl.plannerCall_n cfg cfg.isInverse]
    exact calls

/-! ## What an execute leaves -/

/-- What the adapter multiplies the output with. -/
noncomputable def factor (b : Backend) (cfg : FftPlanConfig) (ok : Bool) : ℝ :=
  if ok = true ∧ b.Scales cfg then cfg.scale else 1

theorem factor_ne_zero (length_pos : 0 < cfg.length) (ok : Bool) : b.factor cfg ok ≠ 0 := by
  have nonzero : (cfg.length : ℝ) ≠ 0 := Nat.cast_ne_zero.mpr length_pos.ne'
  unfold factor FftPlanConfig.scale
  split_ifs
  · exact one_div_ne_zero nonzero
  · exact one_ne_zero
  · exact one_ne_zero

theorem plannedScale_ne_zero (length_pos : 0 < cfg.length) : b.plannedScale cfg ≠ 0 := by
  have nonzero : (cfg.length : ℝ) ≠ 0 := Nat.cast_ne_zero.mpr length_pos.ne'
  unfold plannedScale FftPlanConfig.scale
  split_ifs
  · exact one_ne_zero
  · exact one_div_ne_zero nonzero
  · exact one_ne_zero

/-- The memory after the adapter's scaling. -/
noncomputable def finished (b : Backend) (cfg : FftPlanConfig) (output : Ptr) (run : Bool × Mem ℝ) :
    Mem ℝ :=
  run.2.write output ((run.2.read output cfg.outSize).map (· * b.factor cfg run.1))

theorem read_finished (output : Ptr) {run : Bool × Mem ℝ} (holds : run.2.Holds output cfg.outSize) :
    (b.finished cfg output run).read output cfg.outSize =
      (run.2.read output cfg.outSize).map (· * b.factor cfg run.1) := by
  have length : ((run.2.read output cfg.outSize).map (· * b.factor cfg run.1)).length =
      cfg.outSize := by rw [List.length_map, Mem.length_read holds]
  have scaled : run.2.Holds output
      ((run.2.read output cfg.outSize).map (· * b.factor cfg run.1)).length := by rwa [length]
  have written := Mem.read_write scaled
  rwa [length] at written

/-- An execute with an output buffer never leaves it, and returns a status. -/
theorem afterCall_eq (addressable : cfg.Addressable) {w : World ℝ} {output : Ptr}
    {run : Bool × Mem ℝ} (holds : run.2.Holds output cfg.outSize) :
    b.afterCall cfg w output run = some (if run.1 then .ok else .backendError,
      { w with mem := b.finished cfg output run }) := by
  have unscaled : b.factor cfg run.1 = 1 → b.finished cfg output run = run.2 := by
    intro one
    rw [finished, one]
    simp only [mul_one, List.map_id']
    exact Mem.write_read holds
  unfold afterCall
  cases ok : run.1 with
  | false =>
    rw [ok] at unscaled
    rw [unscaled (by simp [factor])]
    rfl
  | true =>
    rw [ok] at unscaled
    by_cases scales : b.Scales cfg
    · have scaled : b.factor cfg true = cfg.scale := if_pos ⟨rfl, scales⟩
      rw [finished, ok, scaled, if_pos scales, scaleOutput_eq scales.2 addressable holds]
      rfl
    · rw [unscaled (if_neg fun both => scales both.2), if_neg scales]
      rfl

theorem cells_finished (output : Ptr) {run : Bool × Mem ℝ}
    (holds : run.2.Holds output cfg.outSize) (block off : Nat) :
    ((b.finished cfg output run).cells block)[off]? =
      if block = output.block ∧ output.offset ≤ off ∧ off < output.offset + cfg.outSize then
        ((run.2.cells block)[off]?).map (· * b.factor cfg run.1)
      else (run.2.cells block)[off]? := by
  have length := Mem.length_read holds
  rw [finished, Mem.getElem?_cells_write (by rwa [List.length_map, length]), List.length_map,
    length]
  by_cases inside : block = output.block ∧ output.offset ≤ off ∧ off < output.offset + cfg.outSize
  · obtain ⟨rfl, start, stop⟩ := inside
    rw [if_pos ⟨rfl, start, stop⟩, if_pos ⟨rfl, start, stop⟩, List.getElem?_map, Mem.getElem?_read,
      if_pos (by omega), Mem.load, Nat.add_sub_cancel' start]
  · rw [if_neg inside, if_neg inside]

/-- An execute over the libraries of an operation. -/
theorem Plan.execute_operation {op : Operation} (vendor : b.Vendor) (p : Plan op.libraries b cfg)
    (addressable : cfg.Addressable) {w : World ℝ} (input : Ptr) {output : Ptr}
    (holds : w.mem.Holds output cfg.outSize) :
    ∃ m, m = op.call cfg.kind (b.plannedLength cfg) (b.plannedScale cfg) (b.plannedLanes cfg)
        (b.Destroys cfg) w.mem input output ∧
      m.Holds output cfg.outSize ∧
      p.execute w input output =
        some (.ok, { w with mem := b.finished cfg output (true, m) }) := by
  obtain ⟨count, idist, odist, planned⟩ : ∃ count idist odist,
      b.plannedLanes cfg = dftStrided cfg.kind (b.plannedLength cfg) count idist odist := by
    unfold plannedLanes plannedLength
    by_cases narrows : b.Narrows
    · rw [if_pos narrows, if_pos narrows, FftPlanConfig.narrowed]
      exact ⟨_, _, _, rfl⟩
    · rw [if_neg narrows, if_neg narrows, ← dftStrided_eq_contiguous]
      exact ⟨_, _, _, rfl⟩
  have frame := (op.transforms cfg.kind (b.plannedLength cfg) count idist odist
    (b.plannedScale cfg) (b.Destroys cfg)).frame w.mem input output
  rw [← planned] at frame
  have holds' : (op.call cfg.kind (b.plannedLength cfg) (b.plannedScale cfg) (b.plannedLanes cfg)
      (b.Destroys cfg) w.mem input output).Holds output cfg.outSize := by
    rw [Mem.Holds, frame.sizes]
    exact holds
  exact ⟨_, rfl, holds',
    (p.calls_operation vendor addressable w input output).trans (afterCall_eq addressable holds')⟩

/-- Cells an execute leaves alone: those it neither writes nor destroys, except that
it may scale the output buffer, where zeros stay zeros. -/
theorem Plan.execute_frame (documented : libs.Documented) (vendor : b.Vendor) (p : Plan libs b cfg)
    (addressable : cfg.Addressable) {w : World ℝ} (input : Ptr) {output : Ptr}
    (holds : w.mem.Holds output cfg.outSize) :
    ∃ st v, p.execute w input output = some (st, v) ∧
      (∀ block, (v.mem.cells block).length = (w.mem.cells block).length) ∧
      ∀ block off, ¬ (b.plannedLanes cfg).Writes output block off →
        ¬ (b.Destroys cfg ∧ (b.plannedLanes cfg).Reads input block off) →
        (¬ (block = output.block ∧ output.offset ≤ off ∧ off < output.offset + cfg.outSize) →
          (v.mem.cells block)[off]? = (w.mem.cells block)[off]?) ∧
        ((w.mem.cells block)[off]? = some 0 → (v.mem.cells block)[off]? = some 0) := by
  obtain ⟨call, calls, transforms⟩ := p.exists_call documented vendor addressable
  have frame := transforms.frame w.mem input output
  have holds' : (call w.mem input output).2.Holds output cfg.outSize := by
    rw [Mem.Holds, frame.sizes]
    exact holds
  refine ⟨_, _, (calls w input output).trans (afterCall_eq addressable holds'), ?_, ?_⟩
  · intro block
    dsimp only
    rw [finished, Mem.length_cells_write (by rw [List.length_map, Mem.length_read holds']; exact holds'),
      frame.sizes]
  · intro block off outside kept
    dsimp only
    rw [cells_finished output holds', frame.kept block off outside kept]
    constructor
    · intro elsewhere
      rw [if_neg elsewhere]
    · intro zero
      rw [zero]
      split
      · rw [Option.map_some, zero_mul]
      · rfl

end Backend

end DspDispatch.Fft
