import DspDispatch.Fft.Reference

/-!
# Packed real spectra in the CMSIS adapter

CMSIS packs the spectrum of an even number `n` of real samples into `n` values;
the public spectrum has `n / 2 + 1` complex bins. The two loops of the adapter are
inverse to each other up to the imaginary parts of the two end bins, which the
packed form has no place for. They fill what they write completely, so nothing
that the scratch vectors held before a lane reaches an output.

Nothing is assumed of the kernel but that its outputs are computed from its
inputs.
-/

namespace DspDispatch.Fft.Cmsis

open Kit

variable {K : Type} [Zero K] {half : Nat} {xs ys : List K}

/-! ## The two forms -/

/-- A public spectrum with the imaginary parts of the end bins set to zero. -/
def ignoreEnds (half : Nat) (xs : List K) : List K := (xs.set 1 0).set (2 * half + 1) 0

/-- Packing reads every cell but the imaginary parts of the ends. -/
theorem packSpectrum_congr (same : ∀ i, i ≠ 1 → i ≠ 2 * half + 1 → xs[i]? = ys[i]?)
    (positive : 0 < half) : packSpectrum half xs = packSpectrum half ys := by
  have first : xs.getD 0 0 = ys.getD 0 0 := by
    rw [List.getD_eq_getElem?_getD, List.getD_eq_getElem?_getD, same 0 (by omega) (by omega)]
  have last : xs.getD (2 * half) 0 = ys.getD (2 * half) 0 := by
    rw [List.getD_eq_getElem?_getD, List.getD_eq_getElem?_getD, same _ (by omega) (by omega)]
  have between : Kit.segment xs 2 (2 * (half - 1)) = Kit.segment ys 2 (2 * (half - 1)) := by
    apply List.ext_getElem?
    intro i
    rw [getElem?_segment, getElem?_segment]
    split
    · exact same _ (by omega) (by omega)
    · rfl
  rw [packSpectrum, packSpectrum, first, last, between]

theorem packSpectrum_ignoreEnds (positive : 0 < half) :
    packSpectrum half (ignoreEnds half xs) = packSpectrum half xs := by
  refine packSpectrum_congr (fun i notFirst notLast => ?_) positive
  rw [ignoreEnds, List.getElem?_set_ne (Ne.symm notLast), List.getElem?_set_ne (Ne.symm notFirst)]

/-- Unpacking a packed spectrum gives it back without those imaginary parts. -/
theorem realEnds_eq_ignoreEnds (length : xs.length = (half + 1) * 2) (positive : 0 < half) :
    realEnds half xs = ignoreEnds half xs := by
  have size : (ignoreEnds half xs).length = (half + 1) * 2 := by
    rw [ignoreEnds, List.length_set, List.length_set, length]
  have first : (ignoreEnds half xs).getD 1 0 = 0 := by
    rw [ignoreEnds, List.getD_eq_getElem?_getD, List.getElem?_set_ne (by omega),
      List.getElem?_set_self (by omega)]
    rfl
  have last : (ignoreEnds half xs).getD (2 * half + 1) 0 = 0 := by
    rw [ignoreEnds, List.getD_eq_getElem?_getD,
      List.getElem?_set_self (by rw [List.length_set]; omega)]
    rfl
  rw [← realEnds_eq size positive first last, realEnds, realEnds, packSpectrum_ignoreEnds positive]

/-- Packing an unpacked spectrum gives it back. -/
theorem packSpectrum_unpackSpectrum (length : ys.length = 2 * half) (positive : 0 < half) :
    packSpectrum half (unpackSpectrum half ys) = ys := by
  have mid : (Kit.segment ys 2 (2 * (half - 1))).length = 2 * (half - 1) :=
    length_segment (by omega)
  have front : Kit.segment ys 0 2 = [ys.getD 0 0, ys.getD 1 0] :=
    segment_two (getElem?_eq_getD 0 (by omega)) (getElem?_eq_getD 0 (by omega))
  have joined : Kit.segment ys 0 2 ++ Kit.segment ys 2 (2 * (half - 1)) = ys := by
    have whole := segment_append ys 0 2 (2 * (half - 1))
    rw [Nat.zero_add] at whole
    rw [whole, show 2 + 2 * (half - 1) = ys.length by omega, segment_all]
  have nyquist : (unpackSpectrum half ys).getD (2 * half) 0 = ys.getD 1 0 := by
    rw [unpackSpectrum, List.getD_eq_getElem?_getD, List.getElem?_append_right]
    · rw [List.length_append, mid, show 2 * half - ([ys.getD 0 0, 0].length + 2 * (half - 1)) = 0 by
        simp only [List.length_cons, List.length_nil]; omega]
      rfl
    · simp only [List.length_append, mid, List.length_cons, List.length_nil]
      omega
  have between : Kit.segment (unpackSpectrum half ys) 2 (2 * (half - 1)) =
      Kit.segment ys 2 (2 * (half - 1)) := by
    rw [unpackSpectrum, Kit.segment, List.append_assoc, List.cons_append, List.cons_append,
      List.nil_append, List.drop_succ_cons, List.drop_succ_cons, List.drop_zero,
      List.take_append_of_le_length (by rw [mid]), List.take_of_length_le (by rw [mid])]
  rw [front] at joined
  rw [packSpectrum, nyquist, between]
  exact joined

/-! ## The two loops -/

section Loops

variable {m m₂ : Mem K} {p q : Ptr} {va vb : List K}

/-- `pack` fills the whole vector: what it held before does not matter. -/
theorem pack_overwrites (positive : 0 < half) (holds : m.Holds p ((half + 1) * 2))
    (lengthA : va.length = 2 * half) (lengthB : vb.length = 2 * half) :
    pack half m p va = pack half m p vb := by
  rw [pack_eq lengthA positive holds, pack_eq lengthB positive holds]

/-- Packing what was unpacked. -/
theorem pack_unpack (positive : 0 < half) (length : ys.length = 2 * half)
    (holds : m.Holds p ((half + 1) * 2)) :
    ∃ m', unpack half ys p m = some m' ∧
      ∀ va : List K, va.length = 2 * half → pack half m' p va = some ys := by
  have size := length_unpackSpectrum length positive
  have holds' : m.Holds p (unpackSpectrum half ys).length := by rwa [size]
  refine ⟨_, unpack_eq length positive holds, fun va lengthA => ?_⟩
  have found : (m.write p (unpackSpectrum half ys)).read p ((half + 1) * 2) =
      unpackSpectrum half ys := by
    rw [← size]
    exact Mem.read_write holds'
  rw [pack_eq lengthA positive ((Mem.holds_write holds').mpr holds), found,
    packSpectrum_unpackSpectrum length positive]

/-- Unpacking what was packed. -/
theorem unpack_pack (positive : 0 < half) (holds : m.Holds p ((half + 1) * 2))
    (length : va.length = 2 * half) :
    ∃ ys, pack half m p va = some ys ∧
      ∀ (m₂ : Mem K) (q : Ptr), m₂.Holds q ((half + 1) * 2) →
        unpack half ys q m₂ =
          some (m₂.write q (ignoreEnds half (m.read p ((half + 1) * 2)))) := by
  have read := Mem.length_read holds
  refine ⟨_, pack_eq length positive holds, fun m₂ q holdsQ => ?_⟩
  rw [unpack_eq (length_packSpectrum read positive) positive holdsQ, ← realEnds,
    realEnds_eq_ignoreEnds read positive]

end Loops

/-! ## Runs of a real plan -/

/-- A state of a real plan of even length: only the sizes of the scratch vectors
are known. -/
structure RealState (s : CmsisFftState K) : Prop where
  real : s.type ≠ .complex
  even : s.n % 2 = 0
  two_le : 2 ≤ s.n
  bins : s.bins = s.n / 2 + 1
  length_a : s.a.length = s.n
  length_b : s.b.length = s.n

/-- The state every accepted real configuration starts from. -/
theorem state_real {cfg : FftPlanConfig} (real : cfg.type ≠ .complex) (even : cfg.length % 2 = 0)
    (positive : 0 < cfg.length) (inverse : Bool) :
    RealState (state cfg inverse : CmsisFftState K) where
  real := real
  even := even
  two_le := by
    change 2 ≤ cfg.length
    omega
  bins := rfl
  length_a := by simp [state, real]
  length_b := by simp [state, real]

/-- An execute of a plan. -/
structure FftCall (K : Type) where
  world : World K
  input : Ptr
  output : Ptr

section Runs

variable {lib : CmsisLib K} {kernel : Bool → List K → List K} {s : CmsisFftState K}

/-- Scalars of an input lane and of an output lane. -/
def inLen (s : CmsisFftState K) : Nat := (planKind s.type s.inverse).inLen s.n

def outLen (s : CmsisFftState K) : Nat := (planKind s.type s.inverse).outLen s.n

/-- Both buffers hold their lanes and have no cell in common. -/
structure FftCall.Usable (c : FftCall K) (s : CmsisFftState K) : Prop where
  input : c.world.mem.Holds c.input (s.batch * inLen s)
  output : c.world.mem.Holds c.output (s.batch * outLen s)
  apart : Apart c.input (s.batch * inLen s) c.output (s.batch * outLen s)

/-- Lane `b` of the input of a call. -/
def FftCall.lane (c : FftCall K) (s : CmsisFftState K) (b : Nat) : List K :=
  c.world.mem.read (c.input.add (b * inLen s)) (inLen s)

/-- What the adapter makes of an input lane with the kernel. -/
def laneResult (kernel : Bool → List K → List K) (s : CmsisFftState K) (xs : List K) : List K :=
  match s.type with
  | .realToComplex => unpackSpectrum (s.n / 2) (kernel false xs)
  | _ => kernel true (packSpectrum (s.n / 2) xs)

/-- The output buffer of a call. -/
def FftCall.result (c : FftCall K) (kernel : Bool → List K → List K) (s : CmsisFftState K) :
    List K :=
  lanes s.batch fun b => laneResult kernel s (c.lane s b)

/-- The step of a plan on a call. -/
def executeStep (lib : CmsisLib K) (s : CmsisFftState K) (c : FftCall K) :
    Option ((Status × World K) × CmsisFftState K) :=
  (cmsisExecute lib s c.world c.input c.output).map fun r => ((r.1, r.2.1), r.2.2)

theorem length_laneResult (computes : lib.Computes s.rfft s.n kernel) (ready : RealState s)
    {xs : List K} (length : xs.length = inLen s) : (laneResult kernel s xs).length = outLen s := by
  have even := ready.even
  have two_le := ready.two_le
  unfold laneResult outLen
  unfold inLen at length
  cases type : s.type with
  | complex => exact absurd type ready.real
  | realToComplex =>
    rw [type] at length
    exact length_unpackSpectrum ((computes.length_output false xs length).trans (by omega))
      (by omega)
  | complexToReal =>
    rw [type] at length
    exact computes.length_output true _
      ((length_packSpectrum length (by omega)).trans (by omega))

/-- One lane, from any scratch vectors. -/
theorem lane_kernel (computes : lib.Computes s.rfft s.n kernel) (ready : RealState s)
    {va vb : List K} (lengthA : va.length = s.n) (lengthB : vb.length = s.n) {b : Nat} {m : Mem K}
    {p q : Ptr} (holdsIn : m.Holds (p.add (b * inLen s)) (inLen s))
    (holdsOut : m.Holds (q.add (b * outLen s)) (outLen s)) :
    ∃ va' vb', lane lib s p q b (m, va, vb) =
      some (m.write (q.add (b * outLen s))
        (laneResult kernel s (m.read (p.add (b * inLen s)) (inLen s))), va', vb') ∧
      va'.length = s.n ∧ vb'.length = s.n := by
  have two_le := ready.two_le
  unfold inLen at holdsIn ⊢
  unfold outLen at holdsOut ⊢
  unfold lane laneResult
  cases type : s.type with
  | complex => exact absurd type ready.real
  | realToComplex =>
    rw [type] at holdsIn holdsOut
    exact realToComplexLane_kernel computes ready.even (by omega) ready.bins lengthA lengthB
      holdsIn holdsOut
  | complexToReal =>
    rw [type] at holdsIn holdsOut
    exact complexToRealLane_kernel computes ready.even (by omega) ready.bins lengthA lengthB
      holdsIn holdsOut

/-- A call writes its result and nothing else, and leaves a state that differs in
the scratch vectors only. -/
theorem execute_kernel (computes : lib.Computes s.rfft s.n kernel) (ready : RealState s)
    {c : FftCall K} (usable : c.Usable s) :
    ∃ va vb, va.length = s.n ∧ vb.length = s.n ∧
      cmsisExecute lib s c.world c.input c.output =
        some (.ok, { c.world with mem := c.world.mem.write c.output (c.result kernel s) },
          { s with a := va, b := vb }) := by
  obtain ⟨⟨va, vb⟩, run, lengthA, lengthB⟩ := forLoop_lanes (s := (s.a, s.b))
    (lane lib s c.input c.output) (fun b => laneResult kernel s (c.lane s b))
    (fun _ v => v.1.length = s.n ∧ v.2.length = s.n) usable.input usable.output (.inr usable.apart)
    (fun b below => length_laneResult computes ready
      (Mem.length_read (usable.input.mono (lane_end_le _ below))))
    ⟨ready.length_a, ready.length_b⟩
    (by
      intro b below m v sizes holdsIn holdsOut found
      obtain ⟨va', vb', ran, sizes'⟩ :=
        lane_kernel computes ready sizes.1 sizes.2 holdsIn holdsOut
      rw [found] at ran
      exact ⟨(va', vb'), ran, sizes'⟩)
  refine ⟨va, vb, lengthA, lengthB, ?_⟩
  rw [cmsisExecute, run]
  rfl

/-- What a call owes: `Ok` and its result in the output buffer, nothing else. -/
def Answers (kernel : Bool → List K → List K) (s : CmsisFftState K) (c : FftCall K)
    (outcome : Status × World K) : Prop :=
  outcome = (.ok, { c.world with mem := c.world.mem.write c.output (c.result kernel s) })

/-- Every call of a run answers as if it were the first. -/
theorem run_kernel (computes : lib.Computes s.rfft s.n kernel) (ready : RealState s)
    (calls : List (FftCall K)) (usable : ∀ c ∈ calls, c.Usable s) :
    ∃ outcomes s', runSteps (executeStep lib) s calls = some (outcomes, s') ∧
      outcomes.length = calls.length ∧
      ∀ (k : Nat) c outcome, calls[k]? = some c → outcomes[k]? = some outcome →
        Answers kernel s c outcome := by
  -- only the contents of the scratch vectors change from call to call
  have step : ∀ (past : List (FftCall K)) t c,
      (∃ va vb, va.length = s.n ∧ vb.length = s.n ∧ t = { s with a := va, b := vb }) →
      c.Usable s → ∃ outcome t', executeStep lib t c = some (outcome, t') ∧
        Answers kernel s c outcome ∧
        ∃ va vb, va.length = s.n ∧ vb.length = s.n ∧ t' = { s with a := va, b := vb } := by
    intro past t c ready usable
    rcases ready with ⟨va, vb, lengthA, lengthB, rfl⟩
    have ready' : RealState { s with a := va, b := vb } :=
      { ready with length_a := lengthA, length_b := lengthB }
    obtain ⟨va', vb', lengthA', lengthB', run⟩ :=
      execute_kernel (s := { s with a := va, b := vb }) computes ready'
        ⟨usable.input, usable.output, usable.apart⟩
    exact ⟨_, _, by rw [executeStep, run]; rfl, rfl, va', vb', lengthA', lengthB', rfl⟩
  obtain ⟨outcomes, s', run, length, -, answers⟩ := runSteps_total
    (fun _ t => ∃ va vb, va.length = s.n ∧ vb.length = s.n ∧ t = { s with a := va, b := vb })
    (fun c => c.Usable s) (fun _ c outcome => Answers kernel s c outcome) step
    calls s ⟨s.a, s.b, ready.length_a, ready.length_b, rfl⟩ usable
  exact ⟨outcomes, s', run, length, answers⟩

/-- The result of a call fills its output buffer. -/
theorem length_result (computes : lib.Computes s.rfft s.n kernel) (ready : RealState s)
    {c : FftCall K} (usable : c.Usable s) :
    (c.result kernel s).length = s.batch * outLen s :=
  length_lanes fun _ below => length_laneResult computes ready
    (Mem.length_read (usable.input.mono (lane_end_le _ below)))

/-- The imaginary parts of the end bins do not reach the result. -/
theorem result_congr (ready : RealState s) (inverse : s.type = .complexToReal) {c c' : FftCall K}
    (same : ∀ b, b < s.batch → ∀ i, i ≠ 1 → i ≠ 2 * (s.n / 2) + 1 →
      (c.lane s b)[i]? = (c'.lane s b)[i]?) : c.result kernel s = c'.result kernel s := by
  have two_le := ready.two_le
  apply lanes_congr
  intro b below
  unfold laneResult
  rw [inverse]
  exact congrArg (kernel true) (packSpectrum_congr (same b below) (by omega))

/-- The laws of the packed form, in a real plan of even length with scratch vectors
of any contents. In every run each execute returns `Ok` and writes all of its output
buffer, lane `b` being computed from lane `b` of its own input. Packing fills the
vector the kernel reads. Packing after unpacking is the identity, unpacking after
packing clears the imaginary parts of the end bins, and two inputs that differ only
there give the same output. -/
theorem real_spectrum_packing (computes : lib.Computes s.rfft s.n kernel) (ready : RealState s) :
    (∀ calls : List (FftCall K), (∀ c ∈ calls, c.Usable s) →
      ∃ outcomes s', runSteps (executeStep lib) s calls = some (outcomes, s') ∧
        ∀ (k : Nat) c, calls[k]? = some c →
          outcomes[k]? = some (.ok,
            { c.world with mem := c.world.mem.write c.output (c.result kernel s) }) ∧
          (c.result kernel s).length = s.batch * outLen s) ∧
    (∀ (m : Mem K) p, m.Holds p ((s.n / 2 + 1) * 2) → ∀ va vb : List K,
      va.length = s.n → vb.length = s.n → pack (s.n / 2) m p va = pack (s.n / 2) m p vb) ∧
    (∀ ys : List K, ys.length = s.n → ∀ (m : Mem K) p, m.Holds p ((s.n / 2 + 1) * 2) →
      ∃ m', unpack (s.n / 2) ys p m = some m' ∧
        ∀ va : List K, va.length = s.n → pack (s.n / 2) m' p va = some ys) ∧
    (∀ (m : Mem K) p, m.Holds p ((s.n / 2 + 1) * 2) → ∀ va : List K, va.length = s.n →
      ∃ ys, pack (s.n / 2) m p va = some ys ∧
        ∀ (m₂ : Mem K) q, m₂.Holds q ((s.n / 2 + 1) * 2) →
          unpack (s.n / 2) ys q m₂ =
            some (m₂.write q (ignoreEnds (s.n / 2) (m.read p ((s.n / 2 + 1) * 2))))) ∧
    (s.type = .complexToReal → ∀ c c' : FftCall K,
      (∀ b, b < s.batch → ∀ i, i ≠ 1 → i ≠ 2 * (s.n / 2) + 1 →
        (c.lane s b)[i]? = (c'.lane s b)[i]?) →
      c.result kernel s = c'.result kernel s) := by
  have even := ready.even
  have two_le := ready.two_le
  have size : s.n = 2 * (s.n / 2) := by omega
  have positive : 0 < s.n / 2 := by omega
  refine ⟨?_, ?_, ?_, ?_, fun inverse c c' same => result_congr ready inverse same⟩
  · intro calls usable
    obtain ⟨outcomes, s', run, length, answers⟩ := run_kernel computes ready calls usable
    refine ⟨outcomes, s', run, fun k c here => ?_⟩
    have inRun : k < calls.length := (List.getElem?_eq_some_iff.mp here).1
    have found := List.getElem?_eq_getElem (l := outcomes) (i := k) (by omega)
    have answer := answers k c _ here found
    rw [found]
    exact ⟨congrArg some answer,
      length_result computes ready (usable c (List.mem_of_getElem? here))⟩
  · intro m p holds va vb lengthA lengthB
    exact pack_overwrites positive holds (lengthA.trans size) (lengthB.trans size)
  · intro ys length m p holds
    obtain ⟨m', unpacked, packed⟩ := pack_unpack positive (length.trans size) holds
    exact ⟨m', unpacked, fun va lengthA => packed va (lengthA.trans size)⟩
  · intro m p holds va lengthA
    exact unpack_pack positive holds (lengthA.trans size)

end Runs

/-! ## An instance -/

/-- The packed transforms of two samples. -/
def butterfly (inverse : Bool) : List ℚ → List ℚ
  | [x, y] => if inverse then [(x + y) / 2, (x - y) / 2] else [x + y, x - y]
  | xs => xs

/-- A kernel for two samples that leaves zeros in its input. -/
def butterflyLib : CmsisLib ℚ where
  cfftInit _ := false
  rfftInit len := len == 2
  cfft _ _ xs := xs
  rfft _ inverse xs _ := (xs.map fun _ => 0, butterfly inverse xs)

theorem length_butterfly (inverse : Bool) (xs : List ℚ) : (butterfly inverse xs).length = xs.length := by
  unfold butterfly
  split
  · cases inverse <;> rfl
  · rfl

theorem two_lt_size : 2 < 2 ^ 64 := by decide

/-- Two lanes of two bins. -/
def twoBins : FftPlanConfig :=
  { sixteen with
    type := .complexToReal
    length := 2
    batch := 2
    length_lt := two_lt_size
    batch_lt := two_lt_size }

/-- Spectra with different imaginary parts in their end bins, transformed back one
after the other. -/
theorem real_spectrum_packing_two_bins :
    let w : World ℚ := { mem := ⟨fun
      | 0 => [6, 9, 2, 8, 5, 7, 1, 4]
      | 1 => [6, 0, 2, 0, 5, 0, 1, 0]
      | _ => [0, 0, 0, 0]⟩, caches := fun _ => {}, requests := [] }
    let s : CmsisFftState ℚ := state twoBins true
    let noisy : FftCall ℚ := ⟨w, ⟨0, 0⟩, ⟨2, 0⟩⟩
    let clean : FftCall ℚ := ⟨w, ⟨1, 0⟩, ⟨2, 0⟩⟩
    noisy.result butterfly s = [4, 2, 3, 2] ∧ noisy.result butterfly s = clean.result butterfly s ∧
      ∃ outcomes s', runSteps (executeStep butterflyLib) s [noisy, clean] = some (outcomes, s') ∧
        ∀ (k : Nat) c, [noisy, clean][k]? = some c →
          outcomes[k]? = some (.ok,
            { c.world with mem := c.world.mem.write c.output (c.result butterfly s) }) ∧
          (c.result butterfly s).length = s.batch * outLen s := by
  intro w s noisy clean
  have computes : butterflyLib.Computes s.rfft s.n butterfly := {
    output := fun _ _ _ _ _ => rfl
    length_output := fun inverse xs length => (length_butterfly inverse xs).trans length
    length_input := fun _ _ _ length _ => (List.length_map _).trans length }
  have ready : RealState s := state_real (by decide) (by decide) (by decide) true
  have laws := real_spectrum_packing computes ready
  refine ⟨by decide +kernel, ?_, laws.1 [noisy, clean] ?_⟩
  · refine laws.2.2.2.2 rfl noisy clean ?_
    intro b below i notFirst notLast
    have lane0 : noisy.lane s 0 = [6, 9, 2, 8] ∧ clean.lane s 0 = [6, 0, 2, 0] := by decide +kernel
    have lane1 : noisy.lane s 1 = [5, 7, 1, 4] ∧ clean.lane s 1 = [5, 0, 1, 0] := by decide +kernel
    have last : 2 * (s.n / 2) + 1 = 3 := by decide +kernel
    rw [last] at notLast
    have skipped : i = 0 ∨ i = 2 ∨ ∃ j, i = j + 4 := by
      rcases Nat.lt_or_ge i 4 with small | large
      · omega
      · exact .inr (.inr ⟨i - 4, by omega⟩)
    match b with
    | 0 =>
      rw [lane0.1, lane0.2]
      rcases skipped with rfl | rfl | ⟨j, rfl⟩
      all_goals rfl
    | 1 =>
      rw [lane1.1, lane1.2]
      rcases skipped with rfl | rfl | ⟨j, rfl⟩
      all_goals rfl
    | _ + 2 => exact absurd below (by change ¬ _ + 2 < 2; omega)
  · intro c member
    simp only [List.mem_cons, List.not_mem_nil, or_false] at member
    rcases member with rfl | rfl
    · exact ⟨by decide, by decide, by decide⟩
    · exact ⟨by decide, by decide, by decide⟩

end DspDispatch.Fft.Cmsis
