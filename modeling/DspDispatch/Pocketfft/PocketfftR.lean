import DspDispatch.Pocketfft.PocketfftC
import DspDispatch.Pocketfft.Rfftp

/-!
# Real transforms of pocketfft (`fftblue::exec_r`, `pocketfft_r`)

Bluestein's algorithm makes a complex signal from the real one, or a whole spectrum from the
half-complex order, and has the complex transform do the work. `exec_r` copies parts of an
array of complex numbers as if it were one of real numbers (`realAt`, `storeReal`).
-/

namespace DspDispatch.Pocketfft

open Kit

section Flat

variable {K : Type}

/-- The real numbers of an array of complex ones, in memory order. -/
def realAt (tmp : List (Cmplx K)) (q : Nat) : Option K :=
  (tmp[q / 2]?).map fun v => if q % 2 = 0 then v.r else v.i

def storeReal (tmp : List (Cmplx K)) (q : Nat) (v : K) : Option (List (Cmplx K)) := do
  let w ← tmp[q / 2]?
  storeCell tmp (q / 2) (if q % 2 = 0 then ⟨v, w.i⟩ else ⟨w.r, v⟩)

end Flat

namespace Fftblue

section Model

variable {K : Type} [Field K] [DecidableEq K]

/-- The array `tmp` of a forward transform. -/
def complexSignal (n : Nat) (c : List K) : Option (List (Cmplx K)) := do
  let c0 ← (c)[0]?
  let zero := 0 * c0
  forLoop n (fun m tmp => do
    let v ← (c)[m]?
    storeCell tmp m ⟨v, zero⟩) (List.replicate n 0)

/-- `if ((n&1)==0) tmp[n/2].i=T0(0)*c[0];`. -/
def clearMiddle (n : Nat) (c0 : K) (tmp : List (Cmplx K)) : Option (List (Cmplx K)) :=
  if n % 2 = 0 then storeReal tmp (2 * (n / 2) + 1) (0 * c0) else some tmp

/-- That of a backward transform: the second half is the conjugate of the first. -/
def wholeSpectrum (n : Nat) (c : List K) : Option (List (Cmplx K)) := do
  let c0 ← (c)[0]?
  let tmp ← storeCell (List.replicate n 0) 0 ⟨c0, c0 * 0⟩
  let tmp ← forLoop (n - 1) (fun i tmp => do
    let v ← (c)[1 + i]?
    storeReal tmp (2 + i) v) tmp
  let tmp ← clearMiddle n c0 tmp
  forLoop ((n - 1) / 2) (fun m0 tmp => do
    let m := m0 + 1
    let v ← tmp[m]?
    storeCell tmp (n - m) ⟨v.r, -v.i⟩) tmp

/-- `exec_r`: the array `c` afterwards. -/
def execR (t : Trig K) (s : Fftblue K) (c : List K) (fct : K) (fwd : Bool) : Option (List K) :=
  if fwd then do
    let tmp ← complexSignal s.n c
    let tmp ← s.exec t tmp fct true
    let t0 ← tmp[0]?
    let c ← storeCell c 0 t0.r
    forLoop (s.n - 1) (fun i c => do
      let v ← realAt tmp (2 + i)
      storeCell c (1 + i) v) c
  else do
    let tmp ← wholeSpectrum s.n c
    let tmp ← s.exec t tmp fct false
    forLoop s.n (fun m c => do
      let v ← tmp[m]?
      storeCell c m v.r) c

end Model

section Correct

variable {n : Nat}

theorem complexSignal_eq (positive : 0 < n) (x : Nat → ℝ) :
    complexSignal n (tabulate n x) = some (Cfftp.samples n fun j => x j) := by
  have fills : Fills n (fun j => ofComplex (x j : ℂ)) (fun p => ∃ m, m < n ∧ p = m)
      (forLoop n fun m tmp => do
        let v ← (tabulate n x)[m]?
        storeCell tmp m ⟨v, 0 * x 0⟩) := by
    refine fills_forLoop fun m below => ?_
    simp only [getElem?_tabulate below, Option.bind_eq_bind, Option.bind_some]
    refine fills_storeCell below (Cmplx.ext rfl ?_)
    rw [zero_mul]
    rfl
  have run := fills.eq (fun p below => ⟨p, below, rfl⟩) (List.replicate n 0) List.length_replicate
  rw [complexSignal]
  simp only [getElem?_tabulate positive, Option.bind_eq_bind, Option.bind_some]
  exact run

/-- The spectrum after `i` values are copied. -/
noncomputable def copied (X : Nat → ℂ) (i m : Nat) : Cmplx ℝ :=
  ⟨if 2 * m < 2 + i then (X m).re else 0, if 2 * m + 1 < 2 + i then (X m).im else 0⟩

theorem copied_step {X : Nat → ℂ} {i : Nat} (below : i < n - 1) :
    (do
      let v ← (tabulate n (halfCell X))[1 + i]?
      storeReal (tabulate n (copied X i)) (2 + i) v) = some (tabulate n (copied X (i + 1))) := by
  have inside : (2 + i) / 2 < n := by omega
  simp only [storeReal, getElem?_tabulate (by omega : 1 + i < n), getElem?_tabulate inside,
    Option.bind_eq_bind, Option.bind_some, storeCell_tabulate _ inside]
  refine congrArg some (tabulate_congr fun m _ => ?_)
  by_cases here : m = (2 + i) / 2
  · rw [here, Function.update_self]
    rcases Nat.even_or_odd' i with ⟨a, rfl | rfl⟩
    · have half : (2 + 2 * a) / 2 = a + 1 := by omega
      have cell : 1 + 2 * a = 2 * (a + 1) - 1 := by omega
      rw [if_pos (by omega), half, cell, halfCell_re (Nat.succ_pos a), copied, copied]
      refine Cmplx.ext ?_ ?_
      · dsimp only
        rw [if_pos (by omega)]
      · dsimp only
        rw [if_neg (by omega), if_neg (by omega)]
    · have half : (2 + (2 * a + 1)) / 2 = a + 1 := by omega
      have cell : 1 + (2 * a + 1) = 2 * (a + 1) := by omega
      rw [if_neg (by omega), half, cell, halfCell_im (Nat.succ_pos a), copied, copied]
      refine Cmplx.ext ?_ ?_
      · dsimp only
        rw [if_pos (by omega), if_pos (by omega)]
      · dsimp only
        rw [if_pos (by omega)]
  · rw [Function.update_of_ne here, copied, copied]
    refine Cmplx.ext (if_congr ?_ rfl rfl) (if_congr ?_ rfl rfl)
    · omega
    · omega

/-- The spectrum after `i` values of the second half are there. -/
noncomputable def mirrored (n : Nat) (X : Nat → ℂ) (i m : Nat) : Cmplx ℝ :=
  if 2 * m ≤ n ∨ n ≤ m + i then ofComplex (X m) else 0

theorem mirrored_step {X : Nat → ℂ} (conjugate : Conjugate n X) {i : Nat}
    (below : i < (n - 1) / 2) :
    (do
      let v ← (tabulate n (mirrored n X i))[i + 1]?
      storeCell (tabulate n (mirrored n X i)) (n - (i + 1)) ⟨v.r, -v.i⟩) =
      some (tabulate n (mirrored n X (i + 1))) := by
  have flipped := conjugate.flip (i + 1) (by omega)
  simp only [getElem?_tabulate (by omega : i + 1 < n), Option.bind_eq_bind, Option.bind_some,
    storeCell_tabulate _ (by omega : n - (i + 1) < n)]
  refine congrArg some (tabulate_congr fun m _ => ?_)
  by_cases here : m = n - (i + 1)
  · rw [here, Function.update_self, mirrored, mirrored, if_pos (.inl (by omega)),
      if_pos (.inr (by omega)), flipped]
    rfl
  · rw [Function.update_of_ne here, mirrored, mirrored]
    refine if_congr ?_ rfl rfl
    omega

theorem wholeSpectrum_eq (positive : 0 < n) {X : Nat → ℂ} (conjugate : Conjugate n X) :
    wholeSpectrum n (tabulate n (halfCell X)) = some (Cfftp.samples n X) := by
  have real := conjugate.real
  have start : storeCell (List.replicate n 0) 0 (⟨(X 0).re, (X 0).re * 0⟩ : Cmplx ℝ) =
      some (tabulate n (copied X 0)) := by
    have zeros : List.replicate n (0 : Cmplx ℝ) = tabulate n fun _ => 0 :=
      eq_tabulate List.length_replicate fun p below => by
        rw [List.getElem?_replicate, if_pos below]
    rw [zeros, storeCell_tabulate _ positive]
    refine congrArg some (tabulate_congr fun m _ => ?_)
    rcases Nat.eq_zero_or_pos m with rfl | other
    · rw [Function.update_self, copied]
      refine Cmplx.ext ?_ ?_
      · dsimp only
        rw [if_pos (by omega)]
      · dsimp only
        rw [if_pos (by omega), real, mul_zero]
    · rw [Function.update_of_ne other.ne', copied, if_neg (by omega), if_neg (by omega)]
      rfl
  have copy := forLoop_trace (n - 1)
    (fun i tmp => do
      let v ← (tabulate n (halfCell X))[1 + i]?
      storeReal tmp (2 + i) v)
    (fun i => tabulate n (copied X i)) fun i below => copied_step below
  -- for an even length the imaginary part in the middle is zero
  have middle : clearMiddle n (X 0).re (tabulate n (copied X (n - 1))) =
      some (tabulate n (mirrored n X 0)) := by
    have others : ∀ m, m < n → (n % 2 = 0 → m ≠ n / 2) → copied X (n - 1) m = mirrored n X 0 m := by
      intro m below away
      rw [copied, mirrored]
      by_cases low : 2 * m ≤ n
      · have strict : 2 * m < n := by
          by_contra large
          exact away (by omega) (by omega)
        rw [if_pos (by omega), if_pos (by omega), if_pos (.inl low)]
        rfl
      · rw [if_neg (by omega), if_neg (by omega), if_neg (by omega)]
        rfl
    rw [clearMiddle]
    split
    · rename_i even
      have half : (2 * (n / 2) + 1) / 2 = n / 2 := by omega
      have inside : n / 2 < n := by omega
      have flipped := conjugate.flip (n / 2) (by omega)
      have itself : n - n / 2 = n / 2 := by omega
      rw [itself] at flipped
      have imag := Complex.conj_eq_iff_im.mp flipped.symm
      simp only [storeReal, half, getElem?_tabulate inside, Option.bind_eq_bind, Option.bind_some,
        storeCell_tabulate _ inside]
      refine congrArg some (tabulate_congr fun m below => ?_)
      by_cases here : m = n / 2
      · rw [here, Function.update_self, if_neg (by omega), mirrored, if_pos (.inl (by omega)),
          copied]
        refine Cmplx.ext ?_ ?_
        · dsimp only
          rw [if_pos (by omega)]
          rfl
        · rw [zero_mul]
          exact imag.symm
      · rw [Function.update_of_ne here]
        exact others m below fun _ => here
    · rename_i odd
      exact congrArg some (tabulate_congr fun m below => others m below fun even => absurd even odd)
  have mirror := forLoop_trace ((n - 1) / 2)
    (fun m0 tmp => do
      let v ← tmp[m0 + 1]?
      storeCell tmp (n - (m0 + 1)) ⟨v.r, -v.i⟩)
    (fun i => tabulate n (mirrored n X i)) fun i below => mirrored_step conjugate below
  have whole : tabulate n (mirrored n X ((n - 1) / 2)) = Cfftp.samples n X :=
    tabulate_congr fun m _ => if_pos (by omega)
  rw [whole] at mirror
  simp only [Option.bind_eq_bind] at copy mirror
  simp only [wholeSpectrum, getElem?_tabulate positive, halfCell_zero, start, copy, middle, mirror,
    Option.bind_eq_bind, Option.bind_some]

/-- The real numbers of an array after the first one are its half-complex order. -/
theorem realAt_samples {Z : Nat → ℂ} {i : Nat} (below : i + 1 < n) :
    realAt (Cfftp.samples n Z) (2 + i) = some (halfCell Z (1 + i)) := by
  rw [realAt, Cfftp.samples, getElem?_tabulate (by omega : (2 + i) / 2 < n), Option.map_some]
  refine congrArg some ?_
  rcases Nat.even_or_odd' i with ⟨a, rfl | rfl⟩
  · have half : (2 + 2 * a) / 2 = a + 1 := by omega
    have cell : 1 + 2 * a = 2 * (a + 1) - 1 := by omega
    rw [if_pos (by omega), half, cell, halfCell_re (Nat.succ_pos a)]
    rfl
  · have half : (2 + (2 * a + 1)) / 2 = a + 1 := by omega
    have cell : 1 + (2 * a + 1) = 2 * (a + 1) := by omega
    rw [if_neg (by omega), half, cell, halfCell_im (Nat.succ_pos a)]
    rfl

theorem Sound.execR_forward {s : Fftblue ℝ} (sound : s.Sound) (x : Nat → ℝ) (fct : ℝ) :
    s.execR Trig.real (tabulate s.n x) fct true =
      some (tabulate s.n fun p => fct * halfCell (dft true s.n fun j => x j) p) := by
  have first : (Cfftp.samples s.n fun k => dft true s.n (fun j => x j) k * fct)[0]? =
      some (ofComplex (dft true s.n (fun j => x j) 0 * fct)) := getElem?_tabulate sound.positive
  have fills : Fills s.n (fun p => fct * halfCell (dft true s.n fun j => x j) p)
      (fun p => p = 0 ∨ ∃ i, i < s.n - 1 ∧ p = 1 + i)
      fun c => (storeCell c 0 (ofComplex (dft true s.n (fun j => x j) 0 * fct)).r).bind
        (forLoop (s.n - 1) fun i c => do
          let v ← realAt (Cfftp.samples s.n fun k => dft true s.n (fun j => x j) k * fct) (2 + i)
          storeCell c (1 + i) v) := by
    refine Fills.bind (fills_storeCell sound.positive ?_) (fills_forLoop fun i below => ?_)
    · rw [← halfCell_mul, halfCell_zero]
      rfl
    · simp only [realAt_samples (by omega : i + 1 < s.n), Option.bind_eq_bind, Option.bind_some]
      exact fills_storeCell (by omega) (halfCell_mul _ fct (1 + i))
  have run := fills.eq (fun p below => ?_) (tabulate s.n x) length_tabulate
  · simp only [execR, if_true, complexSignal_eq sound.positive, sound.exec_eq, first,
      Option.bind_eq_bind, Option.bind_some]
    exact run
  · rcases p with _ | p
    · exact .inl rfl
    · exact .inr ⟨p, by omega, Nat.add_comm p 1⟩

theorem Sound.execR_backward {s : Fftblue ℝ} (sound : s.Sound) {X : Nat → ℂ}
    (conjugate : Conjugate s.n X) (fct : ℝ) :
    s.execR Trig.real (tabulate s.n (halfCell X)) fct false =
      some (tabulate s.n fun k => fct * (dft false s.n X k).re) := by
  have fills : Fills s.n (fun k => fct * (dft false s.n X k).re) (fun p => ∃ m, m < s.n ∧ p = m)
      (forLoop s.n fun m c => do
        let v ← (Cfftp.samples s.n fun k => dft false s.n X k * fct)[m]?
        storeCell c m v.r) := by
    refine fills_forLoop fun m below => ?_
    simp only [Cfftp.samples, getElem?_tabulate below, Option.bind_eq_bind, Option.bind_some]
    refine fills_storeCell below ?_
    rw [ofComplex_r, Complex.re_mul_ofReal, mul_comm]
  have run := fills.eq (fun p below => ⟨p, below, rfl⟩) (tabulate s.n (halfCell X)) length_tabulate
  simp only [execR, Bool.false_eq_true, if_false, wholeSpectrum_eq sound.positive conjugate,
    sound.exec_eq, Option.bind_eq_bind, Option.bind_some]
  exact run

end Correct

end Fftblue

/-- `pocketfft_r<T0>`; one of the two plans is there. -/
structure PocketfftR (K : Type) where
  packplan : Option (Rfftp K)
  blueplan : Option (Fftblue K)
  len : Nat

namespace PocketfftR

section Model

variable {K : Type} [Field K] [DecidableEq K]

/-- The constructor; `none` is an exception. -/
def make (t : Trig K) (length : Nat) : Option (PocketfftR K) := do
  let blue ← choice length
  if blue then
    let plan ← Fftblue.make t length
    some ⟨none, some plan, length⟩
  else
    let plan ← Rfftp.make t length
    some ⟨some plan, none, length⟩

/-- `exec`. -/
def exec (t : Trig K) (plan : PocketfftR K) (c : List K) (fct : K) (fwd : Bool) :
    Option (List K) :=
  match plan.packplan with
  | some packplan => packplan.exec t c fct fwd
  | none => plan.blueplan.bind fun blueplan => blueplan.execR t c fct fwd

end Model

section Correct

variable {n : Nat}

/-- A plan for a length that computes its transforms. -/
structure Sound (plan : PocketfftR ℝ) (n : Nat) : Prop where
  len : plan.len = n
  forward : ∀ (x : Nat → ℝ) (fct : ℝ), plan.exec Trig.real (tabulate n x) fct true =
    some (tabulate n fun p => fct * halfCell (dft true n fun j => x j) p)
  backward : ∀ (X : Nat → ℂ) (fct : ℝ), Conjugate n X →
    plan.exec Trig.real (tabulate n (halfCell X)) fct false =
      some (tabulate n fun k => fct * (dft false n X k).re)

theorem exists_packplan (positive : 0 < n) :
    ∃ plan, Rfftp.make Trig.real n = some plan ∧ Sound ⟨some plan, none, n⟩ n := by
  obtain ⟨plan, made, rfl, sound⟩ := Rfftp.exists_make positive
  exact ⟨plan, made, rfl, sound.exec_forward, fun X fct conjugate =>
    sound.exec_backward conjugate fct⟩

theorem exists_blueplan (positive : 0 < n) (small : n * 2 - 1 ≤ (2 ^ 64 - 1) / 11 / 2) :
    ∃ plan, Fftblue.make Trig.real n = some plan ∧ Sound ⟨none, some plan, n⟩ n := by
  obtain ⟨plan, made, rfl, sound⟩ := Fftblue.exists_make positive small
  exact ⟨plan, made, rfl, sound.execR_forward, fun X fct conjugate =>
    sound.execR_backward conjugate fct⟩

theorem make_of_accepted (accepted : ¬ PocketfftC.Refused n) :
    ∃ plan, make Trig.real n = some plan ∧ plan.Sound n := by
  have positive : 0 < n := Nat.pos_of_ne_zero fun zero => accepted (.inl zero)
  obtain ⟨blue, chosen, padded⟩ := choice_of_accepted accepted
  rw [make, chosen, Option.bind_eq_bind, Option.bind_some]
  cases blue with
  | true =>
    obtain ⟨blueplan, made, sound⟩ := exists_blueplan positive (padded rfl)
    exact ⟨_, by rw [if_pos rfl, made]; rfl, sound⟩
  | false =>
    obtain ⟨packplan, packed, sound⟩ := exists_packplan positive
    exact ⟨_, by rw [if_neg Bool.false_ne_true, packed]; rfl, sound⟩

/-- The constructor refuses the lengths that the complex one refuses. -/
theorem make_of_refused (fits : n < 2 ^ 63) (refused : PocketfftC.Refused n) :
    make Trig.real n = none := by
  rw [make, choice_of_refused fits refused]
  rfl

/-- For every length whose arrays have an address: either it is refused, or the plan computes
the spectrum of every real signal in half-complex order, and the signal of every symmetric
spectrum, whichever of the two algorithms is guessed to be cheaper. -/
theorem real_refuses_or_computes (n : Nat) (small : n < 2 ^ 60) :
    (PocketfftC.Refused n ∧ make Trig.real n = none) ∨
      ¬ PocketfftC.Refused n ∧ ∃ plan, make Trig.real n = some plan ∧ plan.len = n ∧
        (∀ (x : Nat → ℝ) (fct : ℝ), plan.exec Trig.real (tabulate n x) fct true =
          some (tabulate n fun p => fct * halfCell (dft true n fun j => x j) p)) ∧
        ∀ (X : Nat → ℂ) (fct : ℝ), Conjugate n X →
          plan.exec Trig.real (tabulate n (halfCell X)) fct false =
            some (tabulate n fun k => fct * (dft false n X k).re) := by
  by_cases refused : PocketfftC.Refused n
  · exact .inl ⟨refused, make_of_refused (by omega) refused⟩
  · obtain ⟨plan, made, sound⟩ := make_of_accepted refused
    exact .inr ⟨refused, plan, made, sound.len, sound.forward, sound.backward⟩

/-- A prime length is not refused. -/
theorem real_refuses_or_computes_prime :
    ¬ PocketfftC.Refused 1013 ∧ ∃ plan, make Trig.real 1013 = some plan ∧ plan.len = 1013 ∧
      (∀ (x : Nat → ℝ) (fct : ℝ), plan.exec Trig.real (tabulate 1013 x) fct true =
        some (tabulate 1013 fun p => fct * halfCell (dft true 1013 fun j => x j) p)) ∧
      ∀ (X : Nat → ℂ) (fct : ℝ), Conjugate 1013 X →
        plan.exec Trig.real (tabulate 1013 (halfCell X)) fct false =
          some (tabulate 1013 fun k => fct * (dft false 1013 X k).re) :=
  (real_refuses_or_computes 1013 (by decide)).resolve_left fun refused =>
    absurd refused.1 (by decide)

/-- There and back gives the signal again, times the length and the two factors. -/
theorem backward_forward (n : Nat) (accepted : ¬ PocketfftC.Refused n) :
    ∃ plan, make Trig.real n = some plan ∧ ∀ (x : Nat → ℝ) (fct fct' : ℝ),
      (plan.exec Trig.real (tabulate n x) fct true).bind
          (plan.exec Trig.real · fct' false) =
        some (tabulate n fun k => fct' * (fct * (n * x k))) := by
  obtain ⟨plan, made, sound⟩ := make_of_accepted accepted
  refine ⟨plan, made, fun x fct fct' => ?_⟩
  have scaled : (tabulate n fun p => fct * halfCell (dft true n fun j => x j) p) =
      tabulate n (halfCell fun q => dft true n (fun j => x j) q * fct) :=
    tabulate_congr fun p _ => (halfCell_mul _ fct p).symm
  rw [sound.forward, Option.bind_some, scaled,
    sound.backward _ fct' ((conjugate_dft true n x).mul fct)]
  refine congrArg some (tabulate_congr fun k below => ?_)
  have back : dft false n (fun q => dft true n (fun j => x j) q * fct) k =
      ((n * x k : ℝ) : ℂ) * fct := by
    have inverse := dft_dft true (fun j => (x j : ℂ)) below
    rw [Bool.not_true] at inverse
    rw [Complex.ofReal_mul, Complex.ofReal_natCast, ← inverse, dft, dft, Finset.sum_mul]
    exact Finset.sum_congr rfl fun q _ => mul_right_comm _ _ _
  rw [back, Complex.re_mul_ofReal, Complex.ofReal_re, mul_comm fct]

theorem backward_forward_28 : ¬ PocketfftC.Refused 28 ∧
    ∃ plan, make Trig.real 28 = some plan ∧ ∀ (x : Nat → ℝ) (fct fct' : ℝ),
      (plan.exec Trig.real (tabulate 28 x) fct true).bind
          (plan.exec Trig.real · fct' false) =
        some (tabulate 28 fun k => fct' * (fct * ((28 : Nat) * x k))) :=
  ⟨by decide, backward_forward 28 (by decide)⟩

end Correct

end PocketfftR

end DspDispatch.Pocketfft
