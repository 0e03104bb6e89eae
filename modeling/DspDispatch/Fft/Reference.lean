import DspDispatch.Fft.Backends

/-!
# Libraries that do what they document

What a library documents leaves it freedom: what it writes when its operands do
not fit, and what it leaves in an input it may destroy. `Operation` is a way to
use this freedom, and `Operation.libraries` are libraries that use it so.
`Operation.exact` leaves as much as possible alone; `Operation.careless` spoils
what it may.
-/

namespace DspDispatch.Fft

open Kit

/-- A library call for each description of lanes, with the documented effect. -/
structure Operation where
  call : DftKind → Nat → ℝ → Strided → Prop → Mem ℝ → Ptr → Ptr → Mem ℝ
  transforms : ∀ kind n count idist odist scale destroys,
    Transforms kind n scale (dftStrided kind n count idist odist) destroys
      (call kind n scale (dftStrided kind n count idist odist) destroys)

namespace Operation

/-- Writes the output lanes and nothing else. -/
noncomputable def exact : Operation where
  call kind n scale S _ := S.apply fun xs => kind.lane n scale xs
  transforms := transforms_apply

/-- Spoils operands that do not fit, and inputs it may destroy. -/
noncomputable def careless : Operation where
  call kind n scale S destroys := S.careless (fun xs => kind.lane n scale xs) 0 destroys
  transforms _ _ _ _ _ _ _ :=
    { frame := fun _ _ _ => Strided.careless_frame _
      computes := fun _ _ _ fits _ =>
        (Strided.careless_maps _ (fun _ _ => DftKind.length_lane _ _ _ _) fits).lanes_eq }

/-! ## The libraries -/

/-- All calls of DFTI succeed. -/
def mkl (op : Operation) : Mkl.DftiLib ℝ where
  noError _ := false
  createDescriptor _ _ _ := 0
  setValue _ _ := 0
  commitDescriptor _ := 0
  computeForward d m p q :=
    (0, op.call (d.kind false) d.length.toNat (d.scale false) (d.strided false) False m p q)
  computeBackward d m p q :=
    (0, op.call (d.kind true) d.length.toNat (d.scale true) (d.strided true) False m p q)

/-- A handle is the descriptor it was made from. -/
def aocl (op : Operation) : Aocl.AoclLib ℝ Aocl.ProbDesc where
  setup d := if 0 < d.dims.n ∧ 0 ≤ d.vecs.n then some d else none
  executeIo d m p q := (true, op.call d.kind d.dims.n.toNat 1 d.strided False m p q)

/-- A plan is the arguments it was made from. -/
def armpl (op : Operation) : Armpl.FftwLib ℝ Armpl.PlanMany where
  malloc _ := true
  planMany d := if 0 < d.n ∧ 0 ≤ d.howmany then some d else none
  execute _ d m p q := op.call d.kind d.n.toNat 1 d.strided d.Destroys m p q

end Operation

/-- The lanes of a pass along the second axis. -/
def Pocketfft.NdArgs.strided (a : Pocketfft.NdArgs) (kind : DftKind) (n : Nat) : Strided :=
  dftStrided kind n (a.shape.getD 0 0) (a.strideIn.getD 0 0 / a.strideIn.getD 1 0)
    (a.strideOut.getD 0 0 / a.strideOut.getD 1 0)

theorem Pocketfft.laneArgs_strided (precision : FftPrecision) (kind : DftKind) (n count : Nat)
    (idist odist : Int) :
    (laneArgs precision kind n count idist odist).strided kind n =
      dftStrided kind n count idist odist := by
  have scalar := precision.sizeofReal_pos
  have strideIn : (kind.inWidth * precision.sizeofReal : Int) ≠ 0 := by
    exact_mod_cast (Nat.mul_pos kind.inWidth_pos scalar).ne'
  have strideOut : (kind.outWidth * precision.sizeofReal : Int) ≠ 0 := by
    exact_mod_cast (Nat.mul_pos kind.outWidth_pos scalar).ne'
  simp only [NdArgs.strided, laneArgs, List.getD_cons_zero, List.getD_cons_succ,
    Int.mul_ediv_cancel _ strideIn, Int.mul_ediv_cancel _ strideOut]

/-- Passes that write the output lanes and nothing else. -/
noncomputable def Pocketfft.exact : PocketLib ℝ where
  pass kind n a _ fct := (a.strided kind n).apply fun xs => kind.lane n fct xs

theorem Pocketfft.exact_documented : PocketLib.Documented fun _ => exact where
  transforms precision kind n count idist odist fct := by
    change Transforms _ _ _ _ _ (((laneArgs precision kind n count idist odist).strided kind n).apply
      fun xs => kind.lane n fct xs)
    rw [laneArgs_strided]
    exact transforms_apply kind n count idist odist fct False
  inPlace precision forward n count dist fct m p inPlace b below := by
    dsimp only [exact]
    rw [laneArgs_strided]
    exact inPlace.apply_laneOut (fun _ _ => DftKind.length_lane _ _ _ _) below

/-- CMSIS-DSP with the lengths it ships tables for. -/
noncomputable def Cmsis.exact : CmsisLib ℝ where
  cfftInit len := [16, 32, 64, 128, 256, 512, 1024, 2048, 4096].contains len
  rfftInit len := [32, 64, 128, 256, 512, 1024, 2048, 4096].contains len
  cfft len inverse xs :=
    DftKind.lane len (if inverse then 1 / (len : ℝ) else 1) xs (.c2c (!inverse))
  rfft len inverse xs _ :=
    (xs, if inverse then DftKind.lane len (1 / (len : ℝ)) (unpackSpectrum (len / 2) xs) .c2r
      else packSpectrum (len / 2) (DftKind.lane len 1 xs .r2c))

theorem Cmsis.exact_documented : exact.Documented where
  cfft _ _ _ _ _ := rfl
  even len supported := by
    simp only [exact, List.contains_eq_mem, List.mem_cons, List.not_mem_nil, or_false,
      decide_eq_true_eq] at supported
    omega
  rfft_input _ _ _ _ _ length := length
  rfft_forward _ _ _ _ _ _ := rfl
  rfft_inverse _ _ _ _ _ _ := rfl

namespace Operation

/-- The libraries of an operation. -/
noncomputable def libraries (op : Operation) : Libraries ℝ where
  AoclHandle := Aocl.ProbDesc
  FftwPlan := Armpl.PlanMany
  mkl := op.mkl
  aocl _ := op.aocl
  armpl _ := op.armpl
  pocketfft _ := Pocketfft.exact
  cmsis := Cmsis.exact

/-- ArmPL makes every plan of a positive length. -/
theorem armpl_planMany (op : Operation) {d : Armpl.PlanMany} (positive : 0 < d.n ∧ 0 ≤ d.howmany) :
    op.armpl.planMany d = some d := if_pos positive

/-- AOCL sets every problem of a positive length up. -/
theorem aocl_setup (op : Operation) {d : Aocl.ProbDesc} (positive : 0 < d.dims.n ∧ 0 ≤ d.vecs.n) :
    op.aocl.setup d = some d := if_pos positive

theorem mkl_documented (op : Operation) : op.mkl.Documented where
  transforms d backward _ _ := by
    cases backward with
    | false => exact op.transforms _ _ _ _ _ _ _
    | true => exact op.transforms _ _ _ _ _ _ _
  succeeds d backward _ _ m p q _ := by
    cases backward <;> rfl

theorem aocl_documented (op : Operation) : op.aocl.Documented where
  domain d h made := by
    simp only [aocl] at made
    split at made
    · rename_i positive
      cases made
      exact positive
    · cases made
  transforms d h made _ := by
    simp only [aocl] at made
    split at made
    · cases made
      exact op.transforms _ _ _ _ _ _ _
    · cases made
  succeeds _ _ _ _ _ _ _ _ := rfl

theorem armpl_documented (op : Operation) : op.armpl.Documented where
  domain d h made := by
    simp only [armpl] at made
    split at made
    · rename_i positive
      cases made
      exact positive
    · cases made
  transforms d h made := by
    simp only [armpl] at made
    split at made
    · cases made
      exact op.transforms _ _ _ _ _ _ _
    · cases made

theorem documented (op : Operation) : op.libraries.Documented where
  mkl := op.mkl_documented
  aocl _ := op.aocl_documented
  armpl _ := op.armpl_documented
  pocketfft := Pocketfft.exact_documented
  cmsis := Cmsis.exact_documented

end Operation

/-! ## Buffers in blocks of their own -/

/-- A process with these memory blocks and empty caches. -/
def World.ofBuffers {K : Type} (buffers : Nat → List K) : World K where
  mem := ⟨buffers⟩
  caches _ := {}

section OfBuffers

variable {K : Type} {buffers : Nat → List K} {cfg : FftPlanConfig} {i j : Nat}

theorem usable_ofBuffers (input : cfg.inSize ≤ (buffers i).length)
    (output : cfg.outSize ≤ (buffers j).length) (other : i ≠ j) :
    cfg.Usable (World.ofBuffers buffers).mem ⟨i, 0⟩ ⟨j, 0⟩ where
  input := by simpa [Mem.Holds, World.ofBuffers] using input
  output := by simpa [Mem.Holds, World.ofBuffers] using output
  apart := .inl other

theorem read_ofBuffers {n : Nat} (length : (buffers i).length = n) :
    (World.ofBuffers buffers).mem.read ⟨i, 0⟩ n = buffers i := by
  rw [← length]
  exact segment_all _

end OfBuffers

/-- One lane of sixteen complex values. -/
def sixteen : FftPlanConfig where
  length := 16

theorem sixteen_valid : sixteen.Valid := ⟨by decide, by decide, by decide⟩

end DspDispatch.Fft
