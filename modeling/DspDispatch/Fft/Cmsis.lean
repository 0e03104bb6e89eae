import DspDispatch.Fft.Library
import DspDispatch.Kit.LaneLoop

/-!
# CMSIS-DSP FFT backend (`src/backends/cmsis/cmsis_backend.cpp`)

CMSIS transforms one lane at a time, in the plan's scratch vectors `a` and `b`.
Its real spectra are packed: the real parts of the first and the last bin come
first, then the bins between them. The adapter packs and unpacks them bin by
bin. The kernels are a parameter; the real one may overwrite its input.
-/

namespace DspDispatch.Fft.Cmsis

open Kit

variable {K : Type}

/-! ## The library -/

/-- The entry points used. An init function tells whether it supports a length.
`cfft` returns what it leaves in its buffer, `rfft` what it leaves in its input
and its output vector. -/
structure CmsisLib (K : Type) where
  cfftInit : Nat → Bool
  rfftInit : Nat → Bool
  cfft : Nat → Bool → List K → List K
  rfft : Nat → Bool → List K → List K → List K × List K

/-- The packed form of a spectrum of bins `0` to `half`. -/
def packSpectrum [Zero K] (half : Nat) (xs : List K) : List K :=
  [xs.getD 0 0, xs.getD (2 * half) 0] ++ segment xs 2 (2 * (half - 1))

/-- The bins of a packed spectrum. -/
def unpackSpectrum [Zero K] (half : Nat) (ys : List K) : List K :=
  [ys.getD 0 0, 0] ++ segment ys 2 (2 * (half - 1)) ++ [ys.getD 1 0, 0]

/-- What the library documents: plain forward transforms and inverse ones scaled
by `1 / N`, real ones of even lengths only and with packed spectra. -/
structure CmsisLib.Documented (lib : CmsisLib ℝ) : Prop where
  cfft : ∀ len inverse xs, lib.cfftInit len = true → xs.length = 2 * len →
    lib.cfft len inverse xs =
      DftKind.lane len (if inverse then 1 / (len : ℝ) else 1) xs (.c2c (!inverse))
  even : ∀ len, lib.rfftInit len = true → len % 2 = 0
  rfft_input : ∀ len inverse xs ys, lib.rfftInit len = true → xs.length = len →
    (lib.rfft len inverse xs ys).1.length = len
  rfft_forward : ∀ len xs ys, lib.rfftInit len = true → xs.length = len → ys.length = len →
    (lib.rfft len false xs ys).2 = packSpectrum (len / 2) (DftKind.lane len 1 xs .r2c)
  rfft_inverse : ∀ len xs ys, lib.rfftInit len = true → xs.length = len → ys.length = len →
    (lib.rfft len true xs ys).2 =
      DftKind.lane len (1 / (len : ℝ)) (unpackSpectrum (len / 2) xs) .c2r

/-- What the loops of the real transforms need of `arm_rfft_fast_f32`: it computes
`n` outputs from its `n` inputs, which it may overwrite with anything. -/
structure CmsisLib.Computes (lib : CmsisLib K) (len n : Nat) (kernel : Bool → List K → List K) :
    Prop where
  output : ∀ inverse xs ys, xs.length = n → ys.length = n →
    (lib.rfft len inverse xs ys).2 = kernel inverse xs
  length_output : ∀ inverse xs, xs.length = n → (kernel inverse xs).length = n
  length_input : ∀ inverse xs ys, xs.length = n → ys.length = n →
    (lib.rfft len inverse xs ys).1.length = n

/-! ## The plan -/

/-- `CmsisFftState`; an instance is its length. -/
structure CmsisFftState (K : Type) where
  type : FftType
  n : Nat
  batch : Nat
  bins : Nat
  inverse : Bool
  cfft : Nat
  rfft : Nat
  a : List K
  b : List K

/-- What the loops of `cmsis_execute` change. -/
abbrev Scratch (K : Type) : Type := Mem K × List K × List K

/-- One lane of the complex loop. -/
def complexLane (lib : CmsisLib K) (s : CmsisFftState K) (input output : Ptr) (b : Nat) :
    Scratch K → Option (Scratch K)
  | (mem, va, vb) => do
    let bin := input.add (b * 2 * s.n)
    let bout := output.add (b * 2 * s.n)
    let xs ← mem.loadRange bin (2 * s.n)
    let va ← storeSegment va 0 xs
    let va := lib.cfft s.cfft s.inverse va
    let ys ← loadSegment va 0 (2 * s.n)
    let mem ← mem.storeRange bout ys
    some (mem, va, vb)

/-- The loop over the bins between the ends, from packed to public. -/
def unpackBins (half : Nat) (vb : List K) (bout : Ptr) (mem : Mem K) : Option (Mem K) :=
  forLoop (half - 1) (fun i mem => do
    let k := i + 1
    let re ← vb[2 * k]?
    let mem ← mem.store bout (2 * k) re
    let im ← vb[2 * k + 1]?
    mem.store bout (2 * k + 1) im) mem

/-- Packed spectrum to public bins: both ends, then the bins between them. -/
def unpack [Zero K] (half : Nat) (vb : List K) (bout : Ptr) (mem : Mem K) : Option (Mem K) := do
  let dc ← vb[0]?
  let mem ← mem.store bout 0 dc
  let mem ← mem.store bout 1 0
  let nyquist ← vb[1]?
  let mem ← mem.store bout (2 * half) nyquist
  let mem ← mem.store bout (2 * half + 1) 0
  unpackBins half vb bout mem

/-- One lane of the real-to-complex loop. -/
def realToComplexLane [Zero K] (lib : CmsisLib K) (s : CmsisFftState K) (input output : Ptr)
    (b : Nat) : Scratch K → Option (Scratch K)
  | (mem, va, vb) => do
    let half := s.n / 2
    let bin := input.add (b * s.n)
    let bout := output.add (b * 2 * s.bins)
    let xs ← mem.loadRange bin s.n
    let va ← storeSegment va 0 xs
    let (va, vb) := lib.rfft s.rfft false va vb
    let mem ← unpack half vb bout mem
    some (mem, va, vb)

/-- The loop over the bins between the ends, from public to packed. -/
def packBins (half : Nat) (mem : Mem K) (bin : Ptr) (va : List K) : Option (List K) :=
  forLoop (half - 1) (fun i va => do
    let k := i + 1
    let re ← mem.load bin (2 * k)
    let va ← storeSegment va (2 * k) [re]
    let im ← mem.load bin (2 * k + 1)
    storeSegment va (2 * k + 1) [im]) va

/-- Public bins to packed spectrum; the imaginary parts of the ends are ignored. -/
def pack (half : Nat) (mem : Mem K) (bin : Ptr) (va : List K) : Option (List K) := do
  let dc ← mem.load bin 0
  let va ← storeSegment va 0 [dc]
  let nyquist ← mem.load bin (2 * half)
  let va ← storeSegment va 1 [nyquist]
  packBins half mem bin va

/-- One lane of the complex-to-real loop. -/
def complexToRealLane (lib : CmsisLib K) (s : CmsisFftState K) (input output : Ptr)
    (b : Nat) : Scratch K → Option (Scratch K)
  | (mem, va, vb) => do
    let half := s.n / 2
    let bin := input.add (b * 2 * s.bins)
    let bout := output.add (b * s.n)
    let va ← pack half mem bin va
    let (va, vb) := lib.rfft s.rfft true va vb
    let ys ← loadSegment vb 0 s.n
    let mem ← mem.storeRange bout ys
    some (mem, va, vb)

/-- The body of the loop of the plan's type. -/
def lane [Zero K] (lib : CmsisLib K) (s : CmsisFftState K) (input output : Ptr) (b : Nat) :
    Scratch K → Option (Scratch K) :=
  match s.type with
  | .complex => complexLane lib s input output b
  | .realToComplex => realToComplexLane lib s input output b
  | .complexToReal => complexToRealLane lib s input output b

def cmsisExecute [Zero K] (lib : CmsisLib K) (s : CmsisFftState K) (w : World K)
    (input output : Ptr) : Option (Status × World K × CmsisFftState K) := do
  let (mem, va, vb) ← forLoop s.batch (lane lib s input output) (w.mem, s.a, s.b)
  some (.ok, { w with mem := mem }, { s with a := va, b := vb })

/-- The state of a configuration. -/
def state [Zero K] (cfg : FftPlanConfig) (inverse : Bool) : CmsisFftState K where
  type := cfg.type
  n := cfg.length
  batch := cfg.batch
  bins := cfg.length / 2 + 1
  inverse := inverse
  cfft := if cfg.type = .complex then toUInt16 cfg.length else 0
  rfft := if cfg.type = .complex then 0 else toUInt16 cfg.length
  a := if cfg.type = .complex then List.replicate (2 * cfg.length) 0
    else List.replicate cfg.length 0
  b := if cfg.type = .complex then [] else List.replicate cfg.length 0

def makeBackendPlan [Zero K] (lib : CmsisLib K) (cfg : FftPlanConfig) :
    Result (BackendPlan (CmsisFftState K) (World K)) := do
  checkSizes cfg
  if cfg.precision ≠ .f32 then .error .unsupportedConfig
  else
    let inverse ← resolveInverse cfg
    if 65535 < cfg.length then .error .unsupportedLength
    else
      let len := toUInt16 cfg.length
      let supported := if cfg.type = .complex then lib.cfftInit len else lib.rfftInit len
      if supported = false then .error .unsupportedLength
      else
        let s : CmsisFftState K := state cfg inverse
        .ok {
          state := s
          execute := cmsisExecute lib
          workspaceBytes := (s.a.length + s.b.length) * 4
          name := "cmsis" }

/-- What an accepted configuration gives. -/
theorem makeBackendPlan_ok [Zero K] {lib : CmsisLib K} {cfg : FftPlanConfig}
    {plan : BackendPlan (CmsisFftState K) (World K)} (made : makeBackendPlan lib cfg = .ok plan) :
    cfg.Valid ∧ cfg.length < 2 ^ 16 ∧
      (if cfg.type = .complex then lib.cfftInit cfg.length else lib.rfftInit cfg.length) = true ∧
      plan.state = state cfg cfg.isInverse ∧ plan.execute = cmsisExecute lib := by
  cases sizes : checkSizes cfg with
  | error st =>
    simp only [makeBackendPlan, sizes] at made
    cases made
  | ok _ =>
    simp only [makeBackendPlan, sizes] at made
    change (if _ then _ else _) = _ at made
    split at made
    · cases made
    · cases resolved : resolveInverse cfg with
      | error st =>
        simp only [resolved] at made
        cases made
      | ok inverse =>
        obtain ⟨rfl, direction⟩ := resolveInverse_eq_ok.mp resolved
        obtain ⟨length_pos, batch_pos⟩ := checkSizes_eq_ok.mp sizes
        simp only [resolved] at made
        change (if _ then _ else _) = _ at made
        split at made
        · cases made
        · rename_i fits
          have length_lt : cfg.length < 2 ^ 16 := by omega
          rw [toUInt16_of_lt length_lt] at made
          by_cases supported :
              (if cfg.type = .complex then lib.cfftInit cfg.length else lib.rfftInit cfg.length) =
                false
          · rw [if_pos supported] at made
            cases made
          · rw [if_neg supported] at made
            cases made
            rw [Bool.not_eq_false] at supported
            exact ⟨⟨length_pos, batch_pos, direction⟩, length_lt, supported, rfl, rfl⟩

/-! ## Packed spectra -/

section Packing

variable [Zero K] {half : Nat} {va vb : List K} {m : Mem K} {p : Ptr}

@[simp] theorem length_packSpectrum {xs : List K} (length : xs.length = (half + 1) * 2)
    (positive : 0 < half) : (packSpectrum half xs).length = 2 * half := by
  have mid : (segment xs 2 (2 * (half - 1))).length = 2 * (half - 1) :=
    length_segment (by omega)
  simp only [packSpectrum, List.length_append, List.length_cons, List.length_nil, mid]
  omega

@[simp] theorem length_unpackSpectrum {ys : List K} (length : ys.length = 2 * half)
    (positive : 0 < half) : (unpackSpectrum half ys).length = (half + 1) * 2 := by
  have mid : (segment ys 2 (2 * (half - 1))).length = 2 * (half - 1) :=
    length_segment (by omega)
  simp only [unpackSpectrum, List.length_append, List.length_cons, List.length_nil, mid]
  omega

/-- What packing keeps of a spectrum. -/
def realEnds (half : Nat) (xs : List K) : List K := unpackSpectrum half (packSpectrum half xs)

/-- Packing loses the imaginary parts of the end bins only. -/
theorem realEnds_eq {xs : List K} (length : xs.length = (half + 1) * 2)
    (positive : 0 < half) (first : xs.getD 1 0 = 0) (last : xs.getD (2 * half + 1) 0 = 0) :
    realEnds half xs = xs := by
  have mid : (segment xs 2 (2 * (half - 1))).length = 2 * (half - 1) :=
    length_segment (by omega)
  have kept : segment (packSpectrum half xs) 2 (2 * (half - 1)) =
      segment xs 2 (2 * (half - 1)) := by
    simp only [packSpectrum, Kit.segment, List.cons_append, List.nil_append, List.drop_succ_cons,
      List.drop_zero, List.take_take, Nat.min_self]
  have front : segment xs 0 2 = [xs.getD 0 0, 0] :=
    segment_two (getElem?_eq_getD 0 (by omega)) (by rw [getElem?_eq_getD 0 (by omega), first])
  have back : segment xs (2 * half) 2 = [xs.getD (2 * half) 0, 0] :=
    segment_two (getElem?_eq_getD 0 (by omega)) (by rw [getElem?_eq_getD 0 (by omega), last])
  have joined : segment xs 0 2 ++ segment xs 2 (2 * (half - 1)) ++ segment xs (2 * half) 2 = xs := by
    have middle := segment_append xs 0 2 (2 * (half - 1))
    have whole := segment_append xs 0 (2 + 2 * (half - 1)) 2
    have all := segment_all xs
    rw [show 0 + 2 = 2 from rfl] at middle
    rw [show 0 + (2 + 2 * (half - 1)) = 2 * half by omega,
      show 2 + 2 * (half - 1) + 2 = xs.length by omega, all] at whole
    rw [middle, whole]
  rw [front, back] at joined
  rw [realEnds, unpackSpectrum, kept]
  simpa only [packSpectrum, List.cons_append, List.nil_append, List.getD_cons_zero,
    List.getD_cons_succ] using joined

omit [Zero K] in
/-- The loop copies the bins between the ends. -/
theorem unpackBins_eq (length : vb.length = 2 * half) (positive : 0 < half)
    (holds : m.Holds p (2 * half)) :
    unpackBins half vb p m = some (m.write (p.add 2) (segment vb 2 (2 * (half - 1)))) := by
  have trace := forLoop_trace (half - 1)
    (fun i mem => do
      let k := i + 1
      let re ← vb[2 * k]?
      let mem ← mem.store p (2 * k) re
      let im ← vb[2 * k + 1]?
      mem.store p (2 * k + 1) im)
    (fun k => m.write (p.add 2) (segment vb 2 (2 * k)))
    (by
      intro k below
      have written : (segment vb 2 (2 * k)).length = 2 * k := length_segment (by omega)
      have re : vb[2 + 2 * k]? = some vb[2 + 2 * k] := List.getElem?_eq_getElem (by omega)
      have im : vb[2 + (2 * k + 1)]? = some vb[2 + (2 * k + 1)] :=
        List.getElem?_eq_getElem (by omega)
      have written' : (segment vb 2 (2 * k + 1)).length = 2 * k + 1 := length_segment (by omega)
      have storeRe := Mem.store_write (m := m) (p := p.add 2) (segment vb 2 (2 * k))
        vb[2 + 2 * k] (by
          simp only [Mem.Holds, Ptr.add_block, Ptr.add_offset, written] at holds ⊢
          omega)
      have storeIm := Mem.store_write (m := m) (p := p.add 2) (segment vb 2 (2 * k + 1))
        vb[2 + (2 * k + 1)] (by
          simp only [Mem.Holds, Ptr.add_block, Ptr.add_offset, written'] at holds ⊢
          omega)
      rw [written, Mem.store_add, ← segment_succ re] at storeRe
      rw [written', Mem.store_add, ← segment_succ im] at storeIm
      have even : 2 * (k + 1) = 2 + 2 * k := by omega
      have odd : 2 * (k + 1) + 1 = 2 + (2 * k + 1) := by omega
      have next : 2 * k + 1 + 1 = 2 + 2 * k := by omega
      dsimp only
      rw [odd, even, re, im, Option.bind_eq_bind, Option.bind_some, storeRe, Option.bind_eq_bind,
        Option.bind_some, Option.bind_some, storeIm, next])
  simpa [unpackBins, Kit.segment, Mem.write_nil] using trace

/-- The stores of a real-to-complex lane write the unpacked spectrum. -/
theorem unpack_eq (length : vb.length = 2 * half) (positive : 0 < half)
    (holds : m.Holds p ((half + 1) * 2)) :
    unpack half vb p m = some (m.write p (unpackSpectrum half vb)) := by
  have dc : vb[0]? = some (vb.getD 0 0) := getElem?_eq_getD 0 (by omega)
  have nyquist : vb[1]? = some (vb.getD 1 0) := getElem?_eq_getD 0 (by omega)
  unfold unpackSpectrum
  generalize vb.getD 0 0 = v0 at dc ⊢
  generalize vb.getD 1 0 = v1 at nyquist ⊢
  have mid : (segment vb 2 (2 * (half - 1))).length = 2 * (half - 1) := length_segment (by omega)
  have inside : p.offset + (half + 1) * 2 ≤ (m.cells p.block).length := holds
  have holdsFront : m.Holds p [v0, 0].length := Nat.le_trans (by simp) inside
  have store0 : m.store p 0 v0 = some (m.write p [v0]) :=
    Mem.store_first v0 (Nat.le_trans (by omega) inside)
  have store1 : (m.write p [v0]).store p 1 0 = some (m.write p [v0, 0]) :=
    Mem.store_second v0 0 (Nat.le_trans (by omega) inside)
  have holds2 : (m.write p [v0, 0]).Holds p ((half + 1) * 2) :=
    (Mem.holds_write holdsFront).mpr holds
  have inside2 : p.offset + (half + 1) * 2 ≤ ((m.write p [v0, 0]).cells p.block).length := holds2
  have store2 := Mem.store_first (k := 2 * half) v1 (m := m.write p [v0, 0]) (p := p)
    (Nat.le_trans (by omega) inside2)
  have store3 := Mem.store_second (k := 2 * half) v1 0 (m := m.write p [v0, 0]) (p := p)
    (Nat.le_trans (by omega) inside2)
  have holdsBack : (m.write p [v0, 0]).Holds (p.add (2 * half)) [v1, 0].length :=
    holds2.mono (by simp; omega)
  have loop := unpackBins_eq (m := (m.write p [v0, 0]).write (p.add (2 * half)) [v1, 0]) length
    positive ((Mem.holds_write holdsBack).mpr (Nat.le_trans (by omega) inside2))
  have holdsMid : (m.write p [v0, 0]).Holds (p.add 2) (segment vb 2 (2 * (half - 1))).length :=
    holds2.mono (by omega)
  -- the ends are written before the bins between them
  have ordered := Mem.write_comm holdsBack holdsMid
    (.inr (.inr (by simp only [Ptr.add_offset, mid]; omega)))
  have front : (m.write p [v0, 0]).write (p.add 2) (segment vb 2 (2 * (half - 1))) =
      m.write p ([v0, 0] ++ segment vb 2 (2 * (half - 1))) :=
    Mem.write_write (Nat.le_trans (by simp [mid]; omega) inside)
  have place : 2 * half = ([v0, 0] ++ segment vb 2 (2 * (half - 1))).length := by
    rw [List.length_append, mid]
    simp
    omega
  have whole : (m.write p ([v0, 0] ++ segment vb 2 (2 * (half - 1)))).write (p.add (2 * half))
      [v1, 0] = m.write p ([v0, 0] ++ segment vb 2 (2 * (half - 1)) ++ [v1, 0]) := by
    conv_lhs => rw [place]
    apply Mem.write_write
    rw [← place]
    exact Nat.le_trans (by simp; omega) inside
  simp only [unpack, dc, nyquist, Option.bind_eq_bind, Option.bind_some, store0, store1, store2, store3,
    loop, ordered, front, whole]

omit [Zero K] in
/-- The loop copies the bins between the ends. -/
theorem packBins_eq (head : List K) (length : va.length = 2 * half) (positive : 0 < half)
    (holds : m.Holds p ((half + 1) * 2)) (ends : head.length = 2) :
    packBins half m p (overwrite va 0 head) =
      some (overwrite va 0 (head ++ segment (m.read p ((half + 1) * 2)) 2 (2 * (half - 1)))) := by
  have cell : ∀ i, i < (half + 1) * 2 →
      m.load p i = (m.read p ((half + 1) * 2))[i]? := by
    intro i below
    rw [Mem.getElem?_read, if_pos below]
  have total := Mem.length_read holds
  generalize m.read p ((half + 1) * 2) = xs at cell total ⊢
  have trace := forLoop_trace (half - 1)
    (fun i va => do
      let k := i + 1
      let re ← m.load p (2 * k)
      let va ← storeSegment va (2 * k) [re]
      let im ← m.load p (2 * k + 1)
      storeSegment va (2 * k + 1) [im])
    (fun k => overwrite va 0 (head ++ segment xs 2 (2 * k)))
    (by
      intro k below
      have re : xs[2 + 2 * k]? = some xs[2 + 2 * k] := List.getElem?_eq_getElem (by omega)
      have im : xs[2 + (2 * k + 1)]? = some xs[2 + (2 * k + 1)] :=
        List.getElem?_eq_getElem (by omega)
      have written : (head ++ segment xs 2 (2 * k)).length = 2 + 2 * k := by
        rw [List.length_append, ends, length_segment (by omega)]
      have written' : (head ++ segment xs 2 (2 * k + 1)).length = 2 + (2 * k + 1) := by
        rw [List.length_append, ends, length_segment (by omega)]
      have storeRe := storeSegment_overwrite va (head ++ segment xs 2 (2 * k)) [xs[2 + 2 * k]]
        written.symm (by rw [written, List.length_singleton]; omega)
      have storeIm := storeSegment_overwrite va (head ++ segment xs 2 (2 * k + 1))
        [xs[2 + (2 * k + 1)]] written'.symm (by rw [written', List.length_singleton]; omega)
      rw [List.append_assoc, ← segment_succ re] at storeRe
      rw [List.append_assoc, ← segment_succ im] at storeIm
      have even : 2 * (k + 1) = 2 + 2 * k := by omega
      have odd : 2 * (k + 1) + 1 = 2 + (2 * k + 1) := by omega
      have next : 2 * k + 1 + 1 = 2 + 2 * k := by omega
      dsimp only
      rw [odd, even, cell _ (by omega), cell _ (by omega), re, im, Option.bind_eq_bind,
        Option.bind_some, storeRe, Option.bind_eq_bind, Option.bind_some, Option.bind_some, storeIm,
        next])
  simpa [packBins, Kit.segment] using trace

/-- The stores of a complex-to-real lane fill the vector with the packed
spectrum. -/
theorem pack_eq (length : va.length = 2 * half) (positive : 0 < half)
    (holds : m.Holds p ((half + 1) * 2)) :
    pack half m p va = some (packSpectrum half (m.read p ((half + 1) * 2))) := by
  have total := Mem.length_read holds
  have dc : m.load p 0 = some ((m.read p ((half + 1) * 2)).getD 0 0) := by
    rw [← getElem?_eq_getD 0 (by omega), Mem.getElem?_read, if_pos (by omega)]
  have nyquist : m.load p (2 * half) = some ((m.read p ((half + 1) * 2)).getD (2 * half) 0) := by
    rw [← getElem?_eq_getD 0 (by omega), Mem.getElem?_read, if_pos (by omega)]
  have packed := length_packSpectrum total positive
  unfold packSpectrum at packed ⊢
  generalize (m.read p ((half + 1) * 2)).getD 0 0 = x0 at dc packed ⊢
  generalize (m.read p ((half + 1) * 2)).getD (2 * half) 0 = x1 at nyquist packed ⊢
  have storeDc : storeSegment va 0 [x0] = some (overwrite va 0 [x0]) :=
    storeSegment_eq (by simp; omega)
  have storeNyquist : storeSegment (overwrite va 0 [x0]) 1 [x1] = some (overwrite va 0 [x0, x1]) :=
    storeSegment_overwrite va [x0] [x1] rfl (by simp; omega)
  have loop := packBins_eq [x0, x1] length positive holds rfl
  rw [overwrite_all (packed.trans length.symm)] at loop
  simp only [pack, dc, nyquist, Option.bind_eq_bind, Option.bind_some, storeDc, storeNyquist, loop]

end Packing

/-! ## One lane -/

section Kernel

variable [Zero K] {lib : CmsisLib K} {kernel : Bool → List K → List K} {s : CmsisFftState K}
  {b : Nat} {m : Mem K} {p q : Ptr} {va vb : List K}

/-- A real-to-complex lane writes the bins of the packed spectrum the kernel
computes from it, whatever the scratch vectors held. -/
theorem realToComplexLane_kernel (computes : lib.Computes s.rfft s.n kernel)
    (even : s.n % 2 = 0) (positive : 0 < s.n) (bins : s.bins = s.n / 2 + 1)
    (lengthA : va.length = s.n) (lengthB : vb.length = s.n)
    (holdsIn : m.Holds (p.add (b * s.n)) s.n)
    (holdsOut : m.Holds (q.add (b * ((s.n / 2 + 1) * 2))) ((s.n / 2 + 1) * 2)) :
    ∃ va' vb', realToComplexLane lib s p q b (m, va, vb) =
      some (m.write (q.add (b * ((s.n / 2 + 1) * 2)))
        (unpackSpectrum (s.n / 2) (kernel false (m.read (p.add (b * s.n)) s.n))), va', vb') ∧
      va'.length = s.n ∧ vb'.length = s.n := by
  have place : b * 2 * (s.n / 2 + 1) = b * ((s.n / 2 + 1) * 2) := by ring
  have read := Mem.length_read holdsIn
  have stored : storeSegment va 0 (m.read (p.add (b * s.n)) s.n) =
      some (m.read (p.add (b * s.n)) s.n) := by
    rw [storeSegment_eq (by omega), overwrite_all (by omega)]
  have consumed := computes.length_input false _ vb read lengthB
  have transformed := computes.output false _ vb read lengthB
  have size := computes.length_output false _ read
  have unpacked := unpack_eq (size.trans (by omega : s.n = 2 * (s.n / 2))) (by omega) holdsOut
  refine ⟨_, kernel false (m.read (p.add (b * s.n)) s.n), ?_, consumed, size⟩
  simp only [realToComplexLane, bins, place, Mem.loadRange_eq holdsIn, Option.bind_eq_bind,
    Option.bind_some, stored, transformed, unpacked]

/-- A complex-to-real lane writes what the kernel computes from its packed
spectrum, whatever the scratch vectors held. -/
theorem complexToRealLane_kernel (computes : lib.Computes s.rfft s.n kernel)
    (even : s.n % 2 = 0) (positive : 0 < s.n) (bins : s.bins = s.n / 2 + 1)
    (lengthA : va.length = s.n) (lengthB : vb.length = s.n)
    (holdsIn : m.Holds (p.add (b * ((s.n / 2 + 1) * 2))) ((s.n / 2 + 1) * 2))
    (holdsOut : m.Holds (q.add (b * s.n)) s.n) :
    ∃ va' vb', complexToRealLane lib s p q b (m, va, vb) =
      some (m.write (q.add (b * s.n))
        (kernel true (packSpectrum (s.n / 2)
          (m.read (p.add (b * ((s.n / 2 + 1) * 2))) ((s.n / 2 + 1) * 2)))), va', vb') ∧
      va'.length = s.n ∧ vb'.length = s.n := by
  have place : b * 2 * (s.n / 2 + 1) = b * ((s.n / 2 + 1) * 2) := by ring
  have read := Mem.length_read holdsIn
  have filled : pack (s.n / 2) m (p.add (b * ((s.n / 2 + 1) * 2))) va =
      some (packSpectrum (s.n / 2) (m.read (p.add (b * ((s.n / 2 + 1) * 2)))
        ((s.n / 2 + 1) * 2))) := pack_eq (by omega) (by omega) holdsIn
  have packed : (packSpectrum (s.n / 2) (m.read (p.add (b * ((s.n / 2 + 1) * 2)))
      ((s.n / 2 + 1) * 2))).length = s.n :=
    (length_packSpectrum read (by omega)).trans (by omega)
  generalize packSpectrum (s.n / 2) (m.read (p.add (b * ((s.n / 2 + 1) * 2)))
    ((s.n / 2 + 1) * 2)) = xs at *
  have consumed := computes.length_input true _ vb packed lengthB
  have transformed := computes.output true _ vb packed lengthB
  have size := computes.length_output true _ packed
  have taken : loadSegment (kernel true xs) 0 s.n = some (kernel true xs) := by
    rw [loadSegment_eq (by omega), ← size, segment_all]
  refine ⟨_, kernel true xs, ?_, consumed, size⟩
  simp only [complexToRealLane, bins, place, filled, Option.bind_eq_bind, Option.bind_some,
    transformed, taken,
    Mem.storeRange_eq (show m.Holds (q.add (b * s.n)) (kernel true xs).length by rwa [size])]

end Kernel

section Lane

/-- The documented kernel: packed spectra of plain transforms, and the inverse
ones scaled by `1 / n`. -/
noncomputable def packedKernel (n : Nat) : Bool → List ℝ → List ℝ
  | false, xs => packSpectrum (n / 2) (DftKind.lane n 1 xs .r2c)
  | true, xs => DftKind.lane n (1 / (n : ℝ)) (unpackSpectrum (n / 2) xs) .c2r

theorem CmsisLib.Documented.computes {lib : CmsisLib ℝ} (documented : lib.Documented) {n : Nat}
    (supported : lib.rfftInit n = true) (positive : 0 < n) :
    lib.Computes n n (packedKernel n) where
  output inverse xs ys lengthX lengthY := by
    cases inverse with
    | false => exact documented.rfft_forward n xs ys supported lengthX lengthY
    | true => exact documented.rfft_inverse n xs ys supported lengthX lengthY
  length_output inverse xs length := by
    have even := documented.even n supported
    cases inverse with
    | false =>
      exact (length_packSpectrum (DftKind.length_lane .r2c n 1 xs) (by omega)).trans (by omega)
    | true => exact DftKind.length_lane .c2r n (1 / (n : ℝ)) (unpackSpectrum (n / 2) xs)
  length_input inverse xs ys length _ := documented.rfft_input n inverse xs ys supported length

variable {lib : CmsisLib ℝ} {s : CmsisFftState ℝ} {b : Nat} {m : Mem ℝ} {p q : Ptr} {va vb : List ℝ}

theorem complexLane_eq (vb : List ℝ) (documented : lib.Documented) (supported : lib.cfftInit s.n = true)
    (instance_eq : s.cfft = s.n) (length : va.length = 2 * s.n)
    (holdsIn : m.Holds (p.add (b * (s.n * 2))) (s.n * 2))
    (holdsOut : m.Holds (q.add (b * (s.n * 2))) (s.n * 2)) :
    ∃ va', complexLane lib s p q b (m, va, vb) =
      some (m.write (q.add (b * (s.n * 2)))
        (DftKind.lane s.n (if s.inverse then 1 / (s.n : ℝ) else 1)
          (m.read (p.add (b * (s.n * 2))) (s.n * 2)) (.c2c (!s.inverse))), va', vb) ∧
      va'.length = 2 * s.n := by
  have place : b * 2 * s.n = b * (s.n * 2) := by ring
  have size : 2 * s.n = s.n * 2 := Nat.mul_comm _ _
  have read := Mem.length_read holdsIn
  have stored : storeSegment va 0 (m.read (p.add (b * (s.n * 2))) (s.n * 2)) =
      some (m.read (p.add (b * (s.n * 2))) (s.n * 2)) := by
    rw [storeSegment_eq (by omega), overwrite_all (by omega)]
  have transformed := documented.cfft s.n s.inverse _ supported (read.trans size.symm)
  have result := DftKind.length_lane (.c2c (!s.inverse)) s.n
    (if s.inverse then 1 / (s.n : ℝ) else 1) (m.read (p.add (b * (s.n * 2))) (s.n * 2))
  generalize DftKind.lane s.n _ (m.read (p.add (b * (s.n * 2))) (s.n * 2)) _ = ys at *
  have total : ys.length = s.n * 2 := result
  have taken : loadSegment ys 0 (s.n * 2) = some ys := by
    rw [loadSegment_eq (by omega), ← total, segment_all]
  refine ⟨ys, ?_, by omega⟩
  simp only [complexLane, place, size, Mem.loadRange_eq holdsIn, Option.bind_eq_bind,
    Option.bind_some, stored, instance_eq, transformed, taken,
    Mem.storeRange_eq (show m.Holds (q.add (b * (s.n * 2))) ys.length by rwa [total])]

theorem realToComplexLane_eq (documented : lib.Documented) (supported : lib.rfftInit s.n = true)
    (instance_eq : s.rfft = s.n) (bins : s.bins = s.n / 2 + 1) (positive : 0 < s.n)
    (lengthA : va.length = s.n) (lengthB : vb.length = s.n) (holdsIn : m.Holds (p.add (b * s.n)) s.n)
    (holdsOut : m.Holds (q.add (b * ((s.n / 2 + 1) * 2))) ((s.n / 2 + 1) * 2)) :
    ∃ va' vb', realToComplexLane lib s p q b (m, va, vb) =
      some (m.write (q.add (b * ((s.n / 2 + 1) * 2)))
        (DftKind.lane s.n 1 (m.read (p.add (b * s.n)) s.n) .r2c), va', vb') ∧
      va'.length = s.n ∧ vb'.length = s.n := by
  have even := documented.even s.n supported
  have computes : lib.Computes s.rfft s.n (packedKernel s.n) := by
    rw [instance_eq]
    exact documented.computes supported positive
  obtain ⟨va', vb', run, sizes⟩ := realToComplexLane_kernel computes even positive bins lengthA
    lengthB holdsIn holdsOut
  have bounds := DftKind.length_lane .r2c s.n 1 (m.read (p.add (b * s.n)) s.n)
  have ends := DftKind.input_c2r (n := s.n) (m.read (p.add (b * s.n)) s.n)
  have expanded : unpackSpectrum (s.n / 2) (packedKernel s.n false (m.read (p.add (b * s.n)) s.n)) =
      DftKind.lane s.n 1 (m.read (p.add (b * s.n)) s.n) .r2c :=
    realEnds_eq bounds (by omega) ends.1 (ends.2 even)
  rw [expanded] at run
  exact ⟨va', vb', run, sizes⟩

theorem complexToRealLane_eq (documented : lib.Documented) (supported : lib.rfftInit s.n = true)
    (instance_eq : s.rfft = s.n) (bins : s.bins = s.n / 2 + 1) (positive : 0 < s.n)
    (lengthA : va.length = s.n) (lengthB : vb.length = s.n)
    (holdsIn : m.Holds (p.add (b * ((s.n / 2 + 1) * 2))) ((s.n / 2 + 1) * 2))
    (holdsOut : m.Holds (q.add (b * s.n)) s.n) :
    ∃ va' vb', complexToRealLane lib s p q b (m, va, vb) =
      some (m.write (q.add (b * s.n))
        (DftKind.lane s.n (1 / (s.n : ℝ)) (realEnds (s.n / 2)
          (m.read (p.add (b * ((s.n / 2 + 1) * 2))) ((s.n / 2 + 1) * 2))) .c2r), va', vb') ∧
      va'.length = s.n ∧ vb'.length = s.n := by
  have computes : lib.Computes s.rfft s.n (packedKernel s.n) := by
    rw [instance_eq]
    exact documented.computes supported positive
  exact complexToRealLane_kernel computes (documented.even s.n supported) positive bins lengthA
    lengthB holdsIn holdsOut

end Lane

/-! ## The loop -/

/-- The scratch vectors keep their sizes. -/
def Sized (cfg : FftPlanConfig) (va vb : List ℝ) : Prop :=
  if cfg.type = .complex then va.length = 2 * cfg.length
  else va.length = cfg.length ∧ vb.length = cfg.length

/-- The state of a plan at any time. -/
def Ready (cfg : FftPlanConfig) (s : CmsisFftState ℝ) : Prop :=
  ∃ va vb, s = { (state cfg cfg.isInverse : CmsisFftState ℝ) with a := va, b := vb } ∧
    Sized cfg va vb

theorem state_ready (cfg : FftPlanConfig) : Ready cfg (state cfg cfg.isInverse) := by
  refine ⟨_, _, rfl, ?_⟩
  rw [Sized]
  by_cases complex : cfg.type = .complex
  · rw [if_pos complex, if_pos complex, List.length_replicate]
  · rw [if_neg complex, if_neg complex, if_neg complex, List.length_replicate]
    exact ⟨rfl, rfl⟩

/-- The lane a configuration transforms when it finds this input lane: complex to
real transforms ignore the imaginary parts of the end bins. -/
def effective (cfg : FftPlanConfig) (xs : List ℝ) : List ℝ :=
  if cfg.type = .complexToReal then realEnds (cfg.length / 2) xs else xs

/-- Inputs the contract covers are transformed as they are. -/
theorem effective_eq {cfg : FftPlanConfig} {lib : CmsisLib ℝ} (documented : lib.Documented)
    (length_pos : 0 < cfg.length)
    (supported : (if cfg.type = .complex then lib.cfftInit cfg.length
      else lib.rfftInit cfg.length) = true)
    {xs : List ℝ} (length : xs.length = cfg.kind.inLen cfg.length)
    (input : cfg.kind.Input cfg.length xs) : effective cfg xs = xs := by
  unfold effective
  rw [← planKind_isInverse] at length input
  cases type : cfg.type with
  | complex => rw [if_neg (by simp)]
  | realToComplex => rw [if_neg (by simp)]
  | complexToReal =>
    rw [type] at length input supported
    have even := documented.even _ supported
    rw [if_pos rfl]
    exact realEnds_eq length (by omega) input.1 (input.2 even)

/-- A lane of the loop writes the transform of the lane it finds. -/
theorem lane_eq {lib : CmsisLib ℝ} (documented : lib.Documented) {cfg : FftPlanConfig}
    (length_pos : 0 < cfg.length) (length_lt : cfg.length < 2 ^ 16)
    (supported : (if cfg.type = .complex then lib.cfftInit cfg.length
      else lib.rfftInit cfg.length) = true)
    {s : CmsisFftState ℝ} (ready : Ready cfg s) {va vb : List ℝ} (sized : Sized cfg va vb)
    {b : Nat} {m : Mem ℝ} {p q : Ptr}
    (holdsIn : m.Holds (p.add (b * cfg.kind.inLen cfg.length)) (cfg.kind.inLen cfg.length))
    (holdsOut : m.Holds (q.add (b * cfg.kind.outLen cfg.length)) (cfg.kind.outLen cfg.length)) :
    ∃ va' vb', lane lib s p q b (m, va, vb) =
      some (m.write (q.add (b * cfg.kind.outLen cfg.length))
        (cfg.kind.lane cfg.length cfg.scale (effective cfg
          (m.read (p.add (b * cfg.kind.inLen cfg.length)) (cfg.kind.inLen cfg.length)))),
        va', vb') ∧ Sized cfg va' vb' := by
  obtain ⟨sa, sb, rfl, -⟩ := ready
  have stored : toUInt16 cfg.length = cfg.length := toUInt16_of_lt length_lt
  have scale : cfg.scale = if cfg.isInverse then 1 / (cfg.length : ℝ) else 1 := rfl
  rw [scale]
  rw [← planKind_isInverse] at holdsIn holdsOut ⊢
  unfold Sized at sized ⊢
  unfold effective
  -- the loop of the type, with the instance the type has
  let s : CmsisFftState ℝ := { (state cfg cfg.isInverse : CmsisFftState ℝ) with a := sa, b := sb }
  have mode : s.type = cfg.type := rfl
  cases type : cfg.type with
  | complex =>
    rw [type] at mode supported sized holdsIn holdsOut
    have cfft : s.cfft = s.n := (if_pos type).trans stored
    obtain ⟨va', ran, length⟩ := complexLane_eq (s := s) vb documented supported cfft sized
      holdsIn holdsOut
    exact ⟨va', vb, by rw [lane, mode]; exact ran, length⟩
  | realToComplex =>
    rw [type] at mode supported sized holdsIn holdsOut
    have rfft : s.rfft = s.n := (if_neg (by simp [type])).trans stored
    have inverse : cfg.isInverse = false := by simp [FftPlanConfig.isInverse, type]
    obtain ⟨va', vb', ran, sized'⟩ := realToComplexLane_eq (s := s) documented supported rfft rfl
      length_pos sized.1 sized.2 holdsIn holdsOut
    rw [if_neg (by simp [inverse])]
    exact ⟨va', vb', by rw [lane, mode]; exact ran, sized'⟩
  | complexToReal =>
    rw [type] at mode supported sized holdsIn holdsOut
    have rfft : s.rfft = s.n := (if_neg (by simp [type])).trans stored
    have inverse : cfg.isInverse = true := by simp [FftPlanConfig.isInverse, type]
    obtain ⟨va', vb', ran, sized'⟩ := complexToRealLane_eq (s := s) documented supported rfft rfl
      length_pos sized.1 sized.2 holdsIn holdsOut
    rw [if_pos inverse]
    exact ⟨va', vb', by rw [lane, mode]; exact ran, sized'⟩

/-! ## The contract -/

/-- An execute of an accepted plan on any buffers it may be called with. -/
theorem execute_eq {lib : CmsisLib ℝ} (documented : lib.Documented) {cfg : FftPlanConfig}
    {plan : BackendPlan (CmsisFftState ℝ) (World ℝ)} (made : makeBackendPlan lib cfg = .ok plan)
    {s : CmsisFftState ℝ} (ready : Ready cfg s) {w : World ℝ} {p q : Ptr}
    (callable : cfg.Callable w.mem p q) :
    ∃ s', plan.execute s w p q =
      some (.ok, { w with mem := w.mem.write q (lanes cfg.batch fun b =>
        cfg.kind.lane cfg.length cfg.scale
          (effective cfg (cfg.laneOf (w.mem.read p cfg.inSize) b))) }, s') ∧
      Ready cfg s' := by
  obtain ⟨valid, length_lt, supported, -, execute⟩ := makeBackendPlan_ok made
  obtain ⟨va, vb, rfl, sized⟩ := ready
  have ready : Ready cfg
      { (state cfg cfg.isInverse : CmsisFftState ℝ) with a := va, b := vb } := ⟨va, vb, rfl, sized⟩
  have overlap : p = q ∧ cfg.kind.inLen cfg.length = cfg.kind.outLen cfg.length ∨
      Apart p cfg.inSize q cfg.outSize := by
    refine callable.overlap.imp_left fun inPlace => ⟨inPlace.1, ?_⟩
    rw [FftPlanConfig.kind, inPlace.2]
    rfl
  obtain ⟨⟨va', vb'⟩, run, sized'⟩ := forLoop_lanes (s := (va, vb)) (m := w.mem)
    (lane lib { (state cfg cfg.isInverse : CmsisFftState ℝ) with a := va, b := vb } p q)
    (fun b => cfg.kind.lane cfg.length cfg.scale
      (effective cfg (cfg.laneOf (w.mem.read p cfg.inSize) b)))
    (fun _ v => Sized cfg v.1 v.2) callable.input callable.output overlap
    (fun _ _ => DftKind.length_lane _ _ _ _) sized
    (by
      intro b below m scratch sized holdsIn holdsOut found
      rcases scratch with ⟨va, vb⟩
      obtain ⟨va', vb', ran, sized'⟩ := lane_eq documented valid.length_pos length_lt supported ready
        sized holdsIn holdsOut
      rw [found, ← cfg.laneOf_read below] at ran
      exact ⟨(va', vb'), ran, sized'⟩)
  refine ⟨{ (state cfg cfg.isInverse : CmsisFftState ℝ) with a := va', b := vb' }, ?_,
    va', vb', rfl, sized'⟩
  rw [execute]
  exact congrArg (Option.bind · _) run

/-- Every state of a plan has vectors of the right sizes. -/
theorem reached_ready {lib : CmsisLib ℝ} (documented : lib.Documented) {cfg : FftPlanConfig}
    {plan : BackendPlan (CmsisFftState ℝ) (World ℝ)} (made : makeBackendPlan lib cfg = .ok plan)
    {s : CmsisFftState ℝ} (reached : plan.Reached cfg s) : Ready cfg s := by
  obtain ⟨-, -, -, stored, -⟩ := makeBackendPlan_ok made
  refine reached.invariant (Ready cfg) (by rw [stored]; exact state_ready cfg) ?_
  intro s w p q st w' s' ready callable run
  obtain ⟨s'', run', ready'⟩ := execute_eq documented made ready callable
  rw [run'] at run
  cases run
  exact ready'

/-- On inputs of the contract an execute writes its output, also in place. -/
theorem execute_contract {lib : CmsisLib ℝ} (documented : lib.Documented) {cfg : FftPlanConfig}
    {plan : BackendPlan (CmsisFftState ℝ) (World ℝ)} (made : makeBackendPlan lib cfg = .ok plan)
    {s : CmsisFftState ℝ} (reached : plan.Reached cfg s) {w : World ℝ} {p q : Ptr}
    (callable : cfg.Callable w.mem p q) (input : cfg.Input (w.mem.read p cfg.inSize)) :
    ∃ s', plan.execute s w p q =
      some (.ok, { w with mem := w.mem.write q (cfg.contract (w.mem.read p cfg.inSize)) }, s') := by
  obtain ⟨valid, -, supported, -, -⟩ := makeBackendPlan_ok made
  obtain ⟨s', run, -⟩ := execute_eq documented made (reached_ready documented made reached) callable
  have same : (lanes cfg.batch fun b => cfg.kind.lane cfg.length cfg.scale
      (effective cfg (cfg.laneOf (w.mem.read p cfg.inSize) b))) =
      cfg.contract (w.mem.read p cfg.inSize) := by
    apply lanes_congr
    intro b below
    have length : (cfg.laneOf (w.mem.read p cfg.inSize) b).length = cfg.kind.inLen cfg.length := by
      rw [cfg.laneOf_read below]
      exact Mem.length_read (callable.input.mono (lane_end_le _ below))
    rw [effective_eq documented valid.length_pos supported length (input b below)]
  rw [same] at run
  exact ⟨s', run⟩

/-- An accepted plan keeps the contract. -/
theorem makeBackendPlan_meets {lib : CmsisLib ℝ} (documented : lib.Documented)
    {cfg : FftPlanConfig} {plan : BackendPlan (CmsisFftState ℝ) (World ℝ)}
    (made : makeBackendPlan lib cfg = .ok plan) : plan.Meets cfg True := by
  intro s reached w p q usable input
  obtain ⟨s', run⟩ := execute_contract documented made reached usable.callable input
  refine ⟨w.mem.read p cfg.inSize, _, s', run, Mem.length_read usable.input, fun _ => rfl, ?_⟩
  rw [Mem.write_read usable.input]

end DspDispatch.Fft.Cmsis
