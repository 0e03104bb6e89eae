import DspDispatch.Fft.Reference
import DspDispatch.Kit.Loop
import Mathlib.Data.Nat.Factorization.Basic

/-!
# The real lengths AOCL accepts

`aocl_real_length_supported` divides a length by `2`, `3`, `5` and `7` as often as
each goes into it, one loop a prime, and looks whether `1` is left. Every loop
removes its prime and leaves the others, so what is left has exactly the prime
factors above `7`. The loops end for every positive length; the factory rejects
the length `0`, and an empty batch, before it calls the function.
-/

namespace DspDispatch.Fft.Aocl

open Kit

/-- `while (n % p == 0) n /= p;`, given `fuel` iterations. -/
def divideLoop (fuel p n : Nat) : Option Nat := whileLoop (fun n => n % p == 0) (fun n => n / p) fuel n

/-- `aocl_real_length_supported` with its loops as they stand, each given `fuel`
iterations. -/
def realLengthLoops (fuel n : Nat) : Option Bool :=
  ([2, 3, 5, 7].foldlM (fun n p => divideLoop fuel p n) n).map (· == 1)

/-! ## One loop -/

/-- The loop divides out the whole power of the prime. -/
theorem divideLoop_eq {fuel p n : Nat} (prime : p.Prime) (positive : 0 < n) (enough : n ≤ fuel) :
    divideLoop fuel p n = some (ordCompl[p] n) := by
  -- the invariant: what the loop has divided out so far is a power of the prime
  obtain ⟨m, run, ⟨left, k, split⟩, done⟩ := whileLoop_total (fun m => m % p == 0) (fun m => m / p)
    (fun m => 0 < m ∧ ∃ k, n = p ^ k * m) id
    (by
      intro m inv divides
      obtain ⟨left, k, split⟩ := inv
      have dvd : p ∣ m := Nat.dvd_of_mod_eq_zero (beq_iff_eq.mp divides)
      refine ⟨⟨Nat.div_pos (Nat.le_of_dvd left dvd) prime.pos, k + 1, ?_⟩,
        Nat.div_lt_self left prime.one_lt⟩
      rw [split, pow_succ, Nat.mul_assoc, Nat.mul_div_cancel' dvd])
    fuel n ⟨positive, 0, by rw [pow_zero, Nat.one_mul]⟩ enough
  have removed : ¬ p ∣ m := by
    intro dvd
    rw [Nat.mod_eq_zero_of_dvd dvd] at done
    exact absurd done (by decide)
  rw [divideLoop, run, split, Nat.ordCompl_pow_mul_of_not_dvd k prime removed]

/-- The recursion of the model is what the loop computes. -/
theorem divideOut_eq {p n : Nat} (prime : p.Prime) (positive : 0 < n) :
    divideOut p n = ordCompl[p] n := by
  induction n using Nat.strong_induction_on with
  | _ n ih =>
    rw [divideOut]
    split
    · rename_i divides
      have dvd : p ∣ n := Nat.dvd_of_mod_eq_zero divides.2.2
      rw [ih (n / p) (Nat.div_lt_self positive prime.one_lt)
        (Nat.div_pos (Nat.le_of_dvd positive dvd) prime.pos), Nat.ordCompl_div_of_dvd prime dvd]
    · rename_i stays
      have removed : ¬ p ∣ n :=
        fun dvd => stays ⟨prime.one_lt, positive, Nat.mod_eq_zero_of_dvd dvd⟩
      exact ((Nat.ordCompl_eq_self_iff_zero_or_not_dvd n prime).mpr (.inr removed)).symm

/-- Dividing out a prime keeps exactly the other prime factors. -/
theorem dvd_ordCompl_iff {p q n : Nat} (prime : p.Prime) (positive : 0 < n) (primeQ : q.Prime) :
    q ∣ ordCompl[p] n ↔ q ∣ n ∧ q ≠ p := by
  constructor
  · intro dvd
    refine ⟨dvd.trans (Nat.ordCompl_dvd n p), ?_⟩
    rintro rfl
    exact Nat.not_dvd_ordCompl prime (by omega) dvd
  · intro ⟨dvd, other⟩
    rw [← Nat.ordProj_mul_ordCompl_eq_self n p] at dvd
    rcases primeQ.dvd_mul.mp dvd with power | rest
    · exact absurd ((Nat.prime_dvd_prime_iff_eq primeQ prime).mp (primeQ.dvd_of_dvd_pow power)) other
    · exact rest

/-! ## The four loops -/

/-- The value after the loops for the primes of a list. -/
def stripped (primes : List Nat) (n : Nat) : Nat := primes.foldl (fun n p => ordCompl[p] n) n

/-- What is left is positive and has exactly the other prime factors. -/
theorem stripped_spec {primes : List Nat} (prime : ∀ p ∈ primes, p.Prime) {n : Nat}
    (positive : 0 < n) :
    0 < stripped primes n ∧
      ∀ q, q.Prime → (q ∣ stripped primes n ↔ q ∣ n ∧ q ∉ primes) := by
  induction primes generalizing n with
  | nil => exact ⟨positive, fun q _ => by simp [stripped]⟩
  | cons p rest ih =>
    have primeP := prime p (by simp)
    obtain ⟨left, factors⟩ := ih (fun q member => prime q (by simp [member]))
      (Nat.ordCompl_pos p (by omega : n ≠ 0))
    refine ⟨left, fun q primeQ => ?_⟩
    have here := factors q primeQ
    rw [dvd_ordCompl_iff primeP positive primeQ] at here
    simp only [List.mem_cons, not_or]
    exact here.trans and_assoc

theorem primes_two_to_seven : ∀ p ∈ [2, 3, 5, 7], Nat.Prime p := by
  intro p member
  simp only [List.mem_cons, List.not_mem_nil, or_false] at member
  rcases member with rfl | rfl | rfl | rfl
  · exact Nat.prime_two
  · exact Nat.prime_three
  · exact Nat.prime_five
  · exact Nat.prime_seven

/-- Loops run one after the other on positive values. -/
theorem foldlM_divideLoop {fuel : Nat} {primes : List Nat} (prime : ∀ p ∈ primes, p.Prime)
    {n : Nat} (positive : 0 < n) (enough : n ≤ fuel) :
    primes.foldlM (fun n p => divideLoop fuel p n) n = some (stripped primes n) := by
  induction primes generalizing n with
  | nil => rfl
  | cons p rest ih =>
    have first := divideLoop_eq (prime p (by simp)) positive enough
    rw [List.foldlM_cons, first]
    exact ih (fun q member => prime q (by simp [member])) (Nat.ordCompl_pos p (by omega))
      ((Nat.ordCompl_le n p).trans enough)

theorem foldl_divideOut {primes : List Nat} (prime : ∀ p ∈ primes, p.Prime) {n : Nat}
    (positive : 0 < n) : primes.foldl (fun n p => divideOut p n) n = stripped primes n := by
  induction primes generalizing n with
  | nil => rfl
  | cons p rest ih =>
    rw [List.foldl_cons, divideOut_eq (prime p (by simp)) positive]
    exact ih (fun q member => prime q (by simp [member])) (Nat.ordCompl_pos p (by omega))

theorem aoclRealLengthSupported_eq {n : Nat} (positive : 0 < n) :
    aoclRealLengthSupported n = (stripped [2, 3, 5, 7] n == 1) := by
  rw [aoclRealLengthSupported, foldl_divideOut primes_two_to_seven positive]

/-- The function returns on every positive length. -/
theorem realLengthLoops_eq {fuel n : Nat} (positive : 0 < n) (enough : n ≤ fuel) :
    realLengthLoops fuel n = some (aoclRealLengthSupported n) := by
  rw [realLengthLoops, foldlM_divideLoop primes_two_to_seven positive enough,
    aoclRealLengthSupported_eq positive]
  rfl

/-! ## Seven-smooth lengths -/

/-- No prime factor is above `7`. -/
def SevenSmooth (n : Nat) : Prop := ∀ p, p.Prime → p ∣ n → p ≤ 7

theorem prime_le_seven_iff {p : Nat} (prime : p.Prime) : p ≤ 7 ↔ p ∈ [2, 3, 5, 7] := by
  constructor
  · intro small
    interval_cases p
    all_goals first | decide | exact absurd prime (by decide)
  · intro member
    simp only [List.mem_cons, List.not_mem_nil, or_false] at member
    omega

theorem aoclRealLengthSupported_iff {n : Nat} (positive : 0 < n) :
    aoclRealLengthSupported n = true ↔ SevenSmooth n := by
  obtain ⟨left, factors⟩ := stripped_spec primes_two_to_seven positive
  rw [aoclRealLengthSupported_eq positive, beq_iff_eq]
  constructor
  · intro one p prime dvd
    by_contra large
    have kept := (factors p prime).mpr ⟨dvd, mt (prime_le_seven_iff prime).mpr large⟩
    rw [one] at kept
    exact prime.one_lt.ne' (Nat.dvd_one.mp kept)
  · intro smooth
    by_contra more
    obtain ⟨p, prime, dvd⟩ := Nat.exists_prime_and_dvd more
    obtain ⟨dvd', other⟩ := (factors p prime).mp dvd
    exact other ((prime_le_seven_iff prime).mp (smooth p prime dvd'))

/-- The exponents are those the loops divide out. -/
theorem sevenSmooth_iff_exists_pow {n : Nat} (positive : 0 < n) :
    SevenSmooth n ↔ ∃ a b c d, n = 2 ^ a * 3 ^ b * 5 ^ c * 7 ^ d := by
  constructor
  · intro smooth
    have one := (aoclRealLengthSupported_iff positive).mpr smooth
    rw [aoclRealLengthSupported_eq positive, beq_iff_eq] at one
    have split : ∀ p m, ∃ k, m = p ^ k * ordCompl[p] m :=
      fun p m => ⟨_, (Nat.ordProj_mul_ordCompl_eq_self m p).symm⟩
    obtain ⟨a, two⟩ := split 2 n
    obtain ⟨b, three⟩ := split 3 (ordCompl[2] n)
    obtain ⟨c, five⟩ := split 5 (ordCompl[3] (ordCompl[2] n))
    obtain ⟨d, seven⟩ := split 7 (ordCompl[5] (ordCompl[3] (ordCompl[2] n)))
    change ordCompl[7] (ordCompl[5] (ordCompl[3] (ordCompl[2] n))) = 1 at one
    refine ⟨a, b, c, d, ?_⟩
    calc n = 2 ^ a * (3 ^ b * (5 ^ c * (7 ^ d * 1))) := by rw [← one, ← seven, ← five, ← three, ← two]
      _ = 2 ^ a * 3 ^ b * 5 ^ c * 7 ^ d := by ring
  · intro powers p prime dvd
    rcases powers with ⟨a, b, c, d, rfl⟩
    have powers := prime.dvd_mul.mp dvd
    rw [prime.dvd_mul, prime.dvd_mul] at powers
    rcases powers with ((two | three) | five) | seven
    · exact (Nat.le_of_dvd (by decide) (prime.dvd_of_dvd_pow two)).trans (by decide)
    · exact (Nat.le_of_dvd (by decide) (prime.dvd_of_dvd_pow three)).trans (by decide)
    · exact (Nat.le_of_dvd (by decide) (prime.dvd_of_dvd_pow five)).trans (by decide)
    · exact Nat.le_of_dvd (by decide) (prime.dvd_of_dvd_pow seven)

/-! ## The factory -/

/-- A real configuration whose direction does not contradict its type. -/
def RealConfig (cfg : FftPlanConfig) : Prop :=
  cfg.type ≠ .complex ∧ (cfg.type = .realToComplex → cfg.direction ≠ .inverse)

section Factory

variable {K H : Type} [Field K] {lib : FftPrecision → AoclLib K H} {cfg : FftPlanConfig}

theorem makeBackendPlan_accepts (real : RealConfig cfg)
    (setup : ∀ d, (lib cfg.precision).setup d ≠ none) :
    (∃ plan, makeBackendPlan lib cfg = .ok plan) ↔
      0 < cfg.batch ∧ 0 < cfg.length ∧ SevenSmooth cfg.length := by
  constructor
  · intro accepted
    rcases accepted with ⟨plan, made⟩
    obtain ⟨valid, lengths, -⟩ := makeBackendPlan_ok made
    have supported : aoclRealLengthSupported cfg.length = true := by
      by_contra unsupported
      exact lengths ⟨real.1, Bool.eq_false_iff.mpr unsupported⟩
    exact ⟨valid.batch_pos, valid.length_pos,
      (aoclRealLengthSupported_iff valid.length_pos).mp supported⟩
  · intro condition
    rcases condition with ⟨batch_pos, length_pos, smooth⟩
    obtain ⟨h, planned⟩ := Option.ne_none_iff_exists'.mp (setup (problem cfg cfg.isInverse))
    refine ⟨_, makeBackendPlan_eq lib ⟨length_pos, batch_pos, real.2⟩ ?_ planned⟩
    rw [(aoclRealLengthSupported_iff length_pos).mpr smooth]
    exact fun unsupported => absurd unsupported.2 (by decide)

theorem makeBackendPlan_unsupported (real : RealConfig cfg) (batch_pos : 0 < cfg.batch)
    (length_pos : 0 < cfg.length) (rough : ¬ SevenSmooth cfg.length) :
    makeBackendPlan lib cfg = .error .unsupportedLength := by
  have unsupported : aoclRealLengthSupported cfg.length = false := by
    rw [Bool.eq_false_iff]
    exact mt (aoclRealLengthSupported_iff length_pos).mp rough
  have sizes := checkSizes_eq_ok.mpr ⟨length_pos, batch_pos⟩
  have resolved := resolveInverse_eq_ok.mpr ⟨rfl, real.2⟩
  rw [makeBackendPlan, sizes, resolved]
  exact if_pos ⟨real.1, unsupported⟩

/-- The sizes are checked before the length is looked at. -/
theorem makeBackendPlan_empty (empty : cfg.length = 0 ∨ cfg.batch = 0) :
    makeBackendPlan lib cfg = .error .invalidArgument := by
  have sizes : checkSizes cfg = .error .invalidArgument := if_pos empty
  rw [makeBackendPlan, sizes]
  rfl

end Factory

/-- `aocl_real_length_supported` returns on every positive length, and returns true
exactly on the seven-smooth ones. If the library sets every descriptor up, the
factory accepts exactly those for a positive batch and answers that every other
positive length is unsupported. Without a batch, or a length, it answers that the
argument is invalid, whatever the other is. -/
theorem aocl_real_lengths :
    (∀ n, 0 < n →
      (∃ enough, ∀ fuel, enough ≤ fuel →
        realLengthLoops fuel n = some (aoclRealLengthSupported n)) ∧
      (aoclRealLengthSupported n = true ↔ SevenSmooth n) ∧
      (SevenSmooth n ↔ ∃ a b c d, n = 2 ^ a * 3 ^ b * 5 ^ c * 7 ^ d)) ∧
    ∀ (K H : Type) [Field K] (lib : FftPrecision → AoclLib K H) (cfg : FftPlanConfig),
      RealConfig cfg → (∀ d, (lib cfg.precision).setup d ≠ none) →
      ((∃ plan, makeBackendPlan lib cfg = .ok plan) ↔
        0 < cfg.batch ∧ 0 < cfg.length ∧ SevenSmooth cfg.length) ∧
      (0 < cfg.batch → 0 < cfg.length → ¬ SevenSmooth cfg.length →
        makeBackendPlan lib cfg = .error .unsupportedLength) ∧
      (cfg.length = 0 ∨ cfg.batch = 0 → makeBackendPlan lib cfg = .error .invalidArgument) := by
  constructor
  · intro n positive
    exact ⟨⟨n, fun fuel enough => realLengthLoops_eq positive enough⟩,
      aoclRealLengthSupported_iff positive, sevenSmooth_iff_exists_pow positive⟩
  · intro K H _ lib cfg real setup
    exact ⟨makeBackendPlan_accepts real setup, makeBackendPlan_unsupported real,
      makeBackendPlan_empty⟩

/-- A library that sets every descriptor up. -/
def readyLib : FftPrecision → AoclLib ℚ Unit := fun _ => ⟨fun _ => some (), fun _ m _ _ => (true, m)⟩

/-- Real transforms of length `30`, and an empty batch of those of length `11`. -/
def thirtyReals : FftPlanConfig :=
  { sixteen with type := .realToComplex, length := 30, length_lt := by decide }

def noElevenReals : FftPlanConfig :=
  { sixteen with
    type := .realToComplex
    length := 11
    batch := 0
    length_lt := by decide
    batch_lt := by decide }

theorem aocl_real_lengths_thirty :
    aoclRealLengthSupported 30 = true ∧
      (∃ plan, makeBackendPlan readyLib thirtyReals = .ok plan) ∧
      makeBackendPlan readyLib noElevenReals = .error .invalidArgument := by
  have smooth : SevenSmooth 30 :=
    (aocl_real_lengths.1 30 (by decide)).2.2.mpr ⟨1, 1, 1, 0, by decide⟩
  have factory : ∀ cfg, RealConfig cfg → _ := fun cfg real =>
    aocl_real_lengths.2 ℚ Unit readyLib cfg real fun _ => Option.some_ne_none ()
  have thirty := factory thirtyReals ⟨by decide, fun _ => by decide⟩
  have eleven := factory noElevenReals ⟨by decide, fun _ => by decide⟩
  exact ⟨(aocl_real_lengths.1 30 (by decide)).2.1.mpr smooth,
    thirty.1.mpr ⟨by decide, by decide, smooth⟩, eleven.2.2 (.inr rfl)⟩

/-- An empty batch of an unsupported length is an invalid argument. -/
theorem noElevenReals_not_unsupported :
    ¬ ∀ (K H : Type) [Field K] (lib : FftPrecision → AoclLib K H) (cfg : FftPlanConfig),
      RealConfig cfg → (∀ d, (lib cfg.precision).setup d ≠ none) →
      0 < cfg.length → ¬ SevenSmooth cfg.length →
      makeBackendPlan lib cfg = .error .unsupportedLength := by
  intro unsupported
  have rough : ¬ SevenSmooth 11 :=
    fun smooth => absurd (smooth 11 (by decide) (dvd_refl 11)) (by decide)
  have answer := unsupported ℚ Unit readyLib noElevenReals ⟨by decide, fun _ => by decide⟩
    (fun _ => Option.some_ne_none ()) (by decide) rough
  rw [makeBackendPlan_empty (.inr rfl)] at answer
  cases answer

end DspDispatch.Fft.Aocl
