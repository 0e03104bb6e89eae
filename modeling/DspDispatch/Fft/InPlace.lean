import DspDispatch.Fft.Interchange

/-!
# Complex transforms in place

The public header lets input and output be one buffer. pocketfft and CMSIS then
write what they write to another buffer. The plans of the other three backends are
made for distinct buffers and executed on whatever the caller passes, so there the
result rests on behaviour no library documents.
-/

namespace DspDispatch.Fft

open Kit

section InPlace

variable {libs : Libraries ℝ} {b : Backend} {cfg : FftPlanConfig}

/-- Executing on one buffer returns `Ok` and leaves there what executing on two
buffers writes to the second. -/
def Backend.Plan.InPlace (p : b.Plan libs cfg) : Prop :=
  ∀ w x y, cfg.Usable w.mem x y →
    ∃ v v', p.execute w x x = some (.ok, v) ∧ p.execute w x y = some (.ok, v') ∧
      v.mem.read x cfg.outSize = v'.mem.read y cfg.outSize

theorem outSize_complex (complex : cfg.type = .complex) : cfg.outSize = cfg.inSize := by
  unfold FftPlanConfig.outSize FftPlanConfig.inSize FftPlanConfig.kind
  rw [complex]
  rfl

theorem input_complex (complex : cfg.type = .complex) (xs : List ℝ) : cfg.Input xs := by
  intro b below
  unfold FftPlanConfig.kind
  rw [complex]
  trivial

/-! ## In-place capable backends -/

/-- pocketfft allows equal buffers with equal strides. -/
theorem pocketfft_inPlace (documented : libs.Documented) (complex : cfg.type = .complex)
    (addressable : cfg.Addressable) (p : Backend.pocketfft.Plan libs cfg) {w : World ℝ} {x : Ptr}
    (holds : w.mem.Holds x cfg.inSize) :
    ∃ v, p.execute w x x = some (.ok, v) ∧
      v.mem.read x cfg.outSize = cfg.contract (w.mem.read x cfg.inSize) := by
  obtain ⟨-, plan, made, s, reached⟩ := p
  obtain ⟨v, run, result⟩ := Pocketfft.execute_eq made addressable reached w x x
  refine ⟨v, ?_, ?_⟩
  · change (plan.execute s w x x).map _ = _
    rw [run]
    rfl
  · rw [result]
    exact Pocketfft.pass_inPlace documented.pocketfft complex holds

/-- CMSIS copies every lane before it writes. -/
theorem cmsis_inPlace (documented : libs.Documented) (complex : cfg.type = .complex)
    (p : Backend.cmsis.Plan libs cfg) {w : World ℝ} {x : Ptr} (holds : w.mem.Holds x cfg.inSize) :
    ∃ v, p.execute w x x = some (.ok, v) ∧
      v.mem.read x cfg.outSize = cfg.contract (w.mem.read x cfg.inSize) := by
  obtain ⟨-, plan, made, s, reached⟩ := p
  have sizes := outSize_complex complex
  have callable : cfg.Callable w.mem x x := ⟨holds, by rwa [sizes], .inl ⟨rfl, complex⟩⟩
  obtain ⟨s', run⟩ := Cmsis.execute_contract documented.cmsis made reached callable
    (input_complex complex _)
  let v : World ℝ := { w with mem := w.mem.write x (cfg.contract (w.mem.read x cfg.inSize)) }
  refine ⟨v, ?_, ?_⟩
  · change (plan.execute s w x x).map _ = _
    rw [run]
    rfl
  · have length := cfg.length_contract (w.mem.read x cfg.inSize)
    have fits : w.mem.Holds x (cfg.contract (w.mem.read x cfg.inSize)).length := by
      rw [length, sizes]
      exact holds
    have written := Mem.read_write fits
    rwa [length] at written

theorem inPlace_of_not_vendor (documented : libs.Documented) (complex : cfg.type = .complex)
    (addressable : cfg.Addressable) (other : ¬ b.Vendor) (p : b.Plan libs cfg) : p.InPlace := by
  intro w x y usable
  have fits : b.Narrows → cfg.FitsInt := fun narrows => absurd (.inr narrows) other
  obtain ⟨v', run', result', -⟩ := p.execute_output documented addressable fits usable
    (input_complex complex _)
  have inPlace : ∃ v, p.execute w x x = some (.ok, v) ∧
      v.mem.read x cfg.outSize = cfg.contract (w.mem.read x cfg.inSize) := by
    cases b with
    | mkl => exact absurd (.inl rfl) other
    | aocl => exact absurd (.inr (.inl rfl)) other
    | armpl => exact absurd (.inr (.inr rfl)) other
    | pocketfft => exact pocketfft_inPlace documented complex addressable p usable.input
    | cmsis => exact cmsis_inPlace documented complex p usable.input
  obtain ⟨v, run, result⟩ := inPlace
  exact ⟨v, v', run, run', result.trans result'.symm⟩

/-! ## Plans made for distinct buffers -/

/-- Complex lanes are planned back to back. -/
theorem plannedLanes_complex (complex : cfg.type = .complex) (admits : b.Admits cfg) :
    0 < b.plannedLength cfg ∧ ∃ count, count * (b.plannedLength cfg * 2) ≤ cfg.inSize ∧
      b.plannedLanes cfg =
        .contiguous count (b.plannedLength cfg * 2) (b.plannedLength cfg * 2) := by
  have kind : cfg.kind = .c2c (cfg.direction = .forward) := by
    rw [FftPlanConfig.kind, complex]
  rw [FftPlanConfig.inSize, kind]
  by_cases narrows : b.Narrows
  · obtain ⟨positive, -⟩ := admits.positive narrows
    have natural := Int.toNat_of_nonneg positive.le
    have distances : cfg.distances = (cfg.length, cfg.length) := by
      rw [FftPlanConfig.distances, complex]
    rw [Backend.plannedLength, Backend.plannedLanes, if_pos narrows, if_pos narrows]
    refine ⟨by omega, (toInt32 cfg.batch).toNat, ?_, ?_⟩
    · exact Nat.mul_le_mul (toNat_toInt32_le _) (Nat.mul_le_mul_right 2 (toNat_toInt32_le _))
    · rw [FftPlanConfig.narrowed, dftStrided, Strided.contiguous, distances, kind]
      simp only [DftKind.inLen, DftKind.outLen, DftKind.inWidth, DftKind.outWidth]
      push_cast
      rw [natural, mul_comm 2]
  · rw [Backend.plannedLength, Backend.plannedLanes, if_neg narrows, if_neg narrows, kind]
    exact ⟨admits.valid.length_pos, cfg.batch, Nat.le_refl _, rfl⟩

/-- A first block of ones, all others of zeros. -/
def onesFirst (size : Nat) (block : Nat) : List ℝ :=
  List.replicate size (if block = 0 then 1 else 0)

/-- A careless transform of ones leaves another first value in place than in another
buffer: the spoilt one, or their sum. If it has no lanes it leaves the one and the
zero that were there. -/
theorem careless_ones_ne {n count size : Nat} {forward : Bool} {scale : ℝ} {destroys : Prop}
    (positive : 0 < n) (nonempty : 0 < size) (fits : count * (n * 2) ≤ size)
    (nonzero : scale ≠ 0) (keeps : ¬ destroys)
    {spoil : Ptr → Mem ℝ} (spoils : ∀ q, spoil q = (Strided.contiguous count (n * 2) (n * 2)).careless
      (fun xs => DftKind.lane n scale xs (.c2c forward)) 0 destroys ⟨onesFirst size⟩ ⟨0, 0⟩ q) :
    ((spoil ⟨0, 0⟩).cells 0)[0]? ≠ ((spoil ⟨1, 0⟩).cells 1)[0]? := by
  intro first
  rcases Nat.eq_zero_or_pos count with none | counted
  · have kept : ∀ q block, ((spoil q).cells block)[0]? = (onesFirst size block)[0]? := by
      intro q block
      rw [spoils]
      refine (Strided.careless_frame _).kept block 0 ?_ fun destroyed => keeps destroyed.1
      rw [Strided.contiguous_writes, none]
      omega
    rw [kept, kept, onesFirst, onesFirst, List.getElem?_replicate, List.getElem?_replicate,
      if_pos nonempty, if_pos nonempty] at first
    simp at first
  · have holds : ∀ block, Mem.Holds ⟨onesFirst size⟩ ⟨block, 0⟩ (count * (n * 2)) := by
      intro block
      simp only [Mem.Holds, onesFirst, List.length_replicate]
      omega
    have width : 0 < n * 2 := Nat.mul_pos positive Nat.two_pos
    have inPlace : ((spoil ⟨0, 0⟩).cells 0)[0]? = some 0 := by
      rw [spoils]
      exact Strided.careless_contiguous_self (Nat.mul_pos counted width) (holds 0)
    have maps : (Strided.contiguous count (n * 2) (n * 2)).Maps
        (fun xs => DftKind.lane n scale xs (.c2c forward)) destroys ⟨onesFirst size⟩ ⟨0, 0⟩ ⟨1, 0⟩
        (spoil ⟨1, 0⟩) := by
      rw [spoils]
      exact Strided.careless_maps _ (fun _ _ => DftKind.length_lane _ _ _ _)
        (Strided.fits_contiguous (holds 0) (holds 1) (.inl (by decide)))
    have ones : Mem.read ⟨onesFirst size⟩ (Ptr.add ⟨0, 0⟩ 0) (n * 2) =
        List.replicate (n * 2) 1 := by
      have lane := Nat.le_mul_of_pos_left (n * 2) counted
      exact segment_replicate 1 (by simp only [Ptr.add_offset]; omega)
    have lane := maps.lanes_eq 0 counted
    rw [Strided.contiguous_laneIn, Strided.contiguous_laneOut, Nat.zero_mul, ones] at lane
    have elsewhere := congrArg (·[0]?) lane
    simp only [Mem.getElem?_read, width, if_true, Mem.load] at elsewhere
    rw [DftKind.lane_c2c_ones positive] at elsewhere
    rw [inPlace] at first
    have zero := Option.some.inj (first.trans elsewhere)
    exact mul_ne_zero nonzero (Nat.cast_ne_zero.mpr positive.ne') zero.symm

/-- A library that spoils operands that meet spoils a transform in place. -/
theorem not_inPlace_careless (vendor : b.Vendor) (complex : cfg.type = .complex)
    (addressable : cfg.Addressable) (p : b.Plan Operation.careless.libraries cfg) :
    ¬ p.InPlace := by
  intro inPlace
  have admits := p.admits Operation.careless.documented vendor
  have valid := admits.valid
  have sizes := outSize_complex complex
  have kind : cfg.kind = .c2c (cfg.direction = .forward) := by
    rw [FftPlanConfig.kind, complex]
  have keeps : ¬ b.Destroys cfg := by
    intro both
    rcases both with ⟨-, back⟩
    rw [complex] at back
    cases back
  obtain ⟨length_pos, count, fits, planned⟩ := plannedLanes_complex complex admits
  let w : World ℝ := .ofBuffers (onesFirst cfg.inSize)
  have usable : cfg.Usable w.mem ⟨0, 0⟩ ⟨1, 0⟩ :=
    usable_ofBuffers List.length_replicate.ge (by rw [sizes]; exact List.length_replicate.ge)
      (by decide)
  have holds₀ : w.mem.Holds ⟨0, 0⟩ cfg.outSize := by
    rw [sizes]
    exact usable.input
  obtain ⟨v, v', run, run', same⟩ := inPlace w ⟨0, 0⟩ ⟨1, 0⟩ usable
  obtain ⟨m, call, holds, ran⟩ := p.execute_operation vendor addressable ⟨0, 0⟩ holds₀
  obtain ⟨m', call', holds', ran'⟩ := p.execute_operation vendor addressable ⟨0, 0⟩ usable.output
  cases run.symm.trans ran
  cases run'.symm.trans ran'
  dsimp only at same
  rw [Backend.read_finished _ holds, Backend.read_finished _ holds'] at same
  have factor := b.factor_ne_zero valid.length_pos true
  have first := congrArg (·[0]?) (List.map_injective_iff.mpr (mul_left_injective₀ factor) same)
  simp only [Mem.getElem?_read, valid.outSize_pos, if_true, Mem.load, Nat.zero_add] at first
  rw [call, call', planned, kind] at first
  exact careless_ones_ne length_pos valid.inSize_pos fits (b.plannedScale_ne_zero valid.length_pos)
    keeps (fun _ => rfl) first

/-! ## The contract -/

/-- For a complex configuration some library accepts, in-place executes of every
plan over every documented library meet the contract exactly for pocketfft and
CMSIS. -/
theorem inPlace_iff (complex : cfg.type = .complex) (addressable : cfg.Addressable)
    (accepted : ∃ libs : Libraries ℝ, libs.Documented ∧ Nonempty (b.Plan libs cfg)) :
    (∀ libs : Libraries ℝ, libs.Documented → ∀ p : b.Plan libs cfg, p.InPlace) ↔
      b = .pocketfft ∨ b = .cmsis := by
  have others : ¬ b.Vendor ↔ b = .pocketfft ∨ b = .cmsis := by
    cases b <;> decide
  rw [← others]
  constructor
  · intro inPlace vendor
    obtain ⟨libs, documented, ⟨p⟩⟩ := accepted
    obtain ⟨q⟩ := Backend.exists_plan .careless vendor (p.admits documented vendor)
    exact not_inPlace_careless vendor complex addressable q
      (inPlace _ Operation.careless.documented q)
  · intro other libs documented p
    exact inPlace_of_not_vendor documented complex addressable other p

end InPlace

theorem inPlace_iff_sixteen :
    ∃ p : Backend.pocketfft.Plan Operation.exact.libraries sixteen, p.InPlace := by
  obtain ⟨plan, made⟩ := Pocketfft.exists_plan Operation.exact.libraries.pocketfft
    (.ofBuffers fun _ => []) sixteen_valid (Pocketfft.accepted_of_not_refused (by decide))
  let p : Backend.pocketfft.Plan Operation.exact.libraries sixteen :=
    ⟨_, plan, made, plan.state, .start⟩
  exact ⟨p, (inPlace_iff rfl ⟨by decide, by decide⟩ ⟨_, Operation.exact.documented, ⟨p⟩⟩).mpr
    (.inl rfl) _ Operation.exact.documented p⟩

/-- oneMKL plans are committed out of place. -/
theorem mkl_not_inPlace :
    ¬ ∀ (b : Backend) (cfg : FftPlanConfig) (libs : Libraries ℝ) (p : b.Plan libs cfg),
      libs.Documented → cfg.type = .complex → cfg.Addressable → p.InPlace := by
  intro inPlace
  obtain ⟨p⟩ := Backend.exists_plan .careless (.inl rfl)
    (⟨sixteen_valid, by decide, by decide⟩ : Backend.mkl.Admits sixteen)
  have addressable : sixteen.Addressable := ⟨by decide, by decide⟩
  exact not_inPlace_careless (.inl rfl) rfl addressable p
    (inPlace _ _ _ p Operation.careless.documented rfl addressable)

end DspDispatch.Fft
