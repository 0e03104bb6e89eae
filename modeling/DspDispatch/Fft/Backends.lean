import DspDispatch.Fft.Aocl
import DspDispatch.Fft.Armpl
import DspDispatch.Fft.Cmsis
import DspDispatch.Fft.Mkl
import DspDispatch.Fft.Pocketfft

/-!
# The five FFT backends

A build selects one backend and with it one `make_backend_plan`. `Backend` names
the choices, `Libraries` the libraries behind them, and `Backend.makeBackendPlan`
is the factory of a choice. All factories are of one type: only the one of
pocketfft leaves something in the process, its plan cache.
-/

namespace DspDispatch.Fft

open Kit

inductive Backend
  | mkl
  | aocl
  | armpl
  | pocketfft
  | cmsis
deriving DecidableEq, Repr

/-- The libraries of all backends; those with opaque plans come with their type
of plans. -/
structure Libraries (K : Type) where
  AoclHandle : Type
  FftwPlan : Type
  mkl : Mkl.DftiLib K
  aocl : FftPrecision → Aocl.AoclLib K AoclHandle
  armpl : FftPrecision → Armpl.FftwLib K FftwPlan
  pocketfft : FftPrecision → Pocketfft.PocketLib K
  cmsis : Cmsis.CmsisLib K

/-- All libraries do what they document. -/
structure Libraries.Documented (libs : Libraries ℝ) : Prop where
  mkl : libs.mkl.Documented
  aocl : ∀ precision, (libs.aocl precision).Documented
  armpl : ∀ precision, (libs.armpl precision).Documented
  pocketfft : Pocketfft.PocketLib.Documented libs.pocketfft
  cmsis : libs.cmsis.Documented

namespace Backend

variable {K : Type}

/-- The plan state of a backend. -/
def State (libs : Libraries K) : Backend → Type
  | .mkl => Mkl.MklState K
  | .aocl => Aocl.AoclState libs.AoclHandle
  | .armpl => Armpl.ArmplState libs.FftwPlan
  | .pocketfft => Pocketfft.PocketState
  | .cmsis => Cmsis.CmsisFftState K

/-- `make_backend_plan` of a backend, and the process it leaves. -/
def makeBackendPlan [Field K] (libs : Libraries K) :
    (b : Backend) → FftPlanConfig → World K → Result (BackendPlan (b.State libs) (World K)) × World K
  | .mkl, cfg, w => (Mkl.makeBackendPlan libs.mkl cfg, w)
  | .aocl, cfg, w => (Aocl.makeBackendPlan libs.aocl cfg, w)
  | .armpl, cfg, w => (Armpl.makeBackendPlan libs.armpl cfg, w)
  | .pocketfft, cfg, w => Pocketfft.makeBackendPlan libs.pocketfft cfg w
  | .cmsis, cfg, w => (Cmsis.makeBackendPlan libs.cmsis cfg, w)

/-- A plan of the backend in one of the states it can be in. -/
structure Plan (libs : Libraries ℝ) (b : Backend) (cfg : FftPlanConfig) where
  world : World ℝ
  plan : BackendPlan (b.State libs) (World ℝ)
  made : (b.makeBackendPlan libs cfg world).1 = .ok plan
  state : b.State libs
  reached : plan.Reached cfg state

theorem Plan.valid {libs : Libraries ℝ} {b : Backend} {cfg : FftPlanConfig} (p : Plan libs b cfg) :
    cfg.Valid := by
  obtain ⟨w, plan, made, s, -⟩ := p
  cases b with
  | mkl => exact (Mkl.makeBackendPlan_ok made).1
  | aocl => exact (Aocl.makeBackendPlan_ok made).1
  | armpl => exact (Armpl.makeBackendPlan_ok made).1
  | pocketfft => exact (Pocketfft.makeBackendPlan_ok made).1
  | cmsis => exact (Cmsis.makeBackendPlan_ok made).1

/-- `execute` of a plan in its present state. -/
def Plan.execute {libs : Libraries ℝ} {b : Backend} {cfg : FftPlanConfig} (p : Plan libs b cfg)
    (w : World ℝ) (input output : Ptr) : Option (Status × World ℝ) :=
  (p.plan.execute p.state w input output).map fun run => (run.1, run.2.1)

/-- The backends whose libraries take sizes as `int`. -/
def Narrows (b : Backend) : Prop := b = .aocl ∨ b = .armpl

instance (b : Backend) : Decidable b.Narrows := inferInstanceAs (Decidable (_ ∨ _))

/-- A plan whose sizes the library can represent keeps the contract. The input
survives, except that of an ArmPL complex-to-real transform. -/
theorem Plan.meets {libs : Libraries ℝ} (documented : libs.Documented) {b : Backend}
    {cfg : FftPlanConfig} (p : Plan libs b cfg) (addressable : cfg.Addressable)
    (fits : b.Narrows → cfg.FitsInt) :
    p.plan.Meets cfg (b = .armpl → cfg.type ≠ .complexToReal) := by
  obtain ⟨w, plan, made, s, reached⟩ := p
  change plan.Meets cfg _
  clear reached
  have weaken : ∀ {σ : Type} {plan : BackendPlan σ (World ℝ)} {keeps keeps' : Prop},
      (keeps' → keeps) → plan.Meets cfg keeps → plan.Meets cfg keeps' := by
    intro σ plan keeps keeps' stronger meets s reached w p q usable input
    obtain ⟨left, w', s', run, length, kept, result⟩ := meets s reached w p q usable input
    exact ⟨left, w', s', run, length, fun holds => kept (stronger holds), result⟩
  cases b with
  | mkl => exact weaken (fun _ => trivial) (Mkl.makeBackendPlan_meets documented.mkl made addressable)
  | aocl =>
    exact weaken (fun _ => trivial)
      (Aocl.makeBackendPlan_meets documented.aocl made addressable (fits (.inl rfl)))
  | armpl =>
    exact weaken (fun keeps => keeps rfl)
      (Armpl.makeBackendPlan_meets documented.armpl made addressable (fits (.inr rfl)))
  | pocketfft =>
    exact weaken (fun _ => trivial)
      (Pocketfft.makeBackendPlan_meets documented.pocketfft made addressable)
  | cmsis => exact weaken (fun _ => trivial) (Cmsis.makeBackendPlan_meets documented.cmsis made)

/-- What one execute of such a plan does: it returns `Ok` and writes the contract's
output. Cells outside the two buffers keep their contents. -/
theorem Plan.execute_eq {libs : Libraries ℝ} (documented : libs.Documented) {b : Backend}
    {cfg : FftPlanConfig} (p : Plan libs b cfg) (addressable : cfg.Addressable)
    (fits : b.Narrows → cfg.FitsInt) {w : World ℝ} {input output : Ptr}
    (usable : cfg.Usable w.mem input output) (covered : cfg.Input (w.mem.read input cfg.inSize)) :
    ∃ left w', p.execute w input output = some (.ok, w') ∧ left.length = cfg.inSize ∧
      ((b = .armpl → cfg.type ≠ .complexToReal) → left = w.mem.read input cfg.inSize) ∧
      w'.mem = (w.mem.write input left).write output
        (cfg.contract (w.mem.read input cfg.inSize)) := by
  obtain ⟨left, w', s', run, length, kept, result⟩ :=
    p.meets documented addressable fits p.state p.reached w input output usable covered
  exact ⟨left, w', by rw [Plan.execute, run]; rfl, length, kept, result⟩

/-- The output buffer after such an execute. -/
theorem Plan.execute_output {libs : Libraries ℝ} (documented : libs.Documented) {b : Backend}
    {cfg : FftPlanConfig} (p : Plan libs b cfg) (addressable : cfg.Addressable)
    (fits : b.Narrows → cfg.FitsInt) {w : World ℝ} {input output : Ptr}
    (usable : cfg.Usable w.mem input output) (covered : cfg.Input (w.mem.read input cfg.inSize)) :
    ∃ w', p.execute w input output = some (.ok, w') ∧
      w'.mem.read output cfg.outSize = cfg.contract (w.mem.read input cfg.inSize) ∧
      ∀ block, (w'.mem.cells block).length = (w.mem.cells block).length := by
  obtain ⟨left, w', run, length, -, result⟩ :=
    p.execute_eq documented addressable fits usable covered
  have written := cfg.length_contract (w.mem.read input cfg.inSize)
  have holdsLeft : w.mem.Holds input left.length := by
    rw [length]
    exact usable.input
  have holds : (w.mem.write input left).Holds output
      (cfg.contract (w.mem.read input cfg.inSize)).length := by
    rw [written, Mem.holds_write holdsLeft]
    exact usable.output
  have stored := Mem.read_write holds
  rw [written, ← result] at stored
  refine ⟨w', run, stored, fun block => ?_⟩
  rw [result, Mem.length_cells_write holds, Mem.length_cells_write holdsLeft]

end Backend

end DspDispatch.Fft
