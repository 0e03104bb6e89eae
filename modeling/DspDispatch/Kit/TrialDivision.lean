import DspDispatch.Kit.Loop
import DspDispatch.Kit.MachineInt
import Mathlib.Data.Nat.Factors
import Mathlib.Data.Nat.Prime.Basic
import Mathlib.Tactic.Ring

/-!
# Trial division

`divideBy visit x` divides a number by `x` as often as this goes, and visits `x` each
time. `trialDivision square visit` does so for every odd divisor up to the square root of
what is left. Of an odd number it visits the prime factors in increasing order, up to a last
one that stays (`trialDivision_spec`).

The squares may be those of a machine word. One that has wrapped around is too small, and
the loop goes on where it could have stopped: it then finds no divisor, or the last prime
factor, which it would have left (`Squares`).
-/

namespace Kit

universe u

variable {σ : Type u} (square : Nat → Nat) (visit : Nat → σ → σ)

/-- `while (n % x == 0) { visit x; n /= x; }`. -/
def divideBy (x : Nat) (s : σ × Nat) : Option (σ × Nat) :=
  whileLoop (fun s => s.2 % x == 0) (fun s => (visit x s.1, s.2 / x)) s.2 s

/-- `for (; x * x <= n; x += 2)` with these loops, given a number of iterations. -/
def trialDivision : Nat → Nat → σ × Nat → Option (σ × Nat)
  | 0, x, s => if square x ≤ s.2 then none else some s
  | fuel + 1, x, s =>
    if square x ≤ s.2 then (divideBy visit x s).bind (trialDivision fuel (x + 2)) else some s

/-- Squares that are at most too small, and with which the loop ends once only one is left. -/
structure Squares : Prop where
  le : ∀ x, square x ≤ x * x
  three : 1 < square 3
  stops : ∀ x, 1 < square x ∨ 1 < square (x + 2) ∨ 1 < square (x + 4)

/-- The visits of a list of divisors. -/
def visits (ps : List Nat) (s : σ) : σ := ps.foldl (fun s p => visit p s) s

variable {square visit}

/-- The squares of `size_t` values. -/
theorem squares_mulSize : Squares fun x => mulSize x x where
  le x := by
    rw [mulSize]
    exact Nat.mod_le _ _
  three := by decide +kernel
  stops x := by
    have second : (x + 2) * (x + 2) = x * x + 4 * x + 4 := by ring
    have third : (x + 4) * (x + 4) = x * x + 8 * x + 16 := by ring
    simp only [mulSize, second, third]
    generalize x * x = s
    omega

theorem visits_append (ps qs : List Nat) (s : σ) :
    visits visit (ps ++ qs) s = visits visit qs (visits visit ps s) := List.foldl_append

/-- Dividing by any number above one takes out a power of it. -/
theorem divideBy_spec (visit : Nat → σ → σ) {x n : Nat} (s : σ) (above : 1 < x) (positive : 0 < n) :
    ∃ k m, divideBy visit x (s, n) = some (visits visit (List.replicate k x) s, m) ∧
      n = x ^ k * m ∧ 0 < m ∧ ¬ x ∣ m := by
  obtain ⟨⟨s', m⟩, run, ⟨k, same, split, left⟩, done⟩ := whileLoop_total
    (fun s : σ × Nat => s.2 % x == 0) (fun s => (visit x s.1, s.2 / x))
    (fun t => ∃ k, t.1 = visits visit (List.replicate k x) s ∧ n = x ^ k * t.2 ∧ 0 < t.2)
    (fun t => t.2)
    (by
      intro t inv divides
      obtain ⟨k, same, split, left⟩ := inv
      have dvd : x ∣ t.2 := Nat.dvd_of_mod_eq_zero (beq_iff_eq.mp divides)
      refine ⟨⟨k + 1, ?_, ?_, Nat.div_pos (Nat.le_of_dvd left dvd) (by omega)⟩,
        Nat.div_lt_self left above⟩
      · rw [List.replicate_succ', visits_append, ← same]
        rfl
      · rw [pow_succ, Nat.mul_assoc, Nat.mul_div_cancel' dvd, ← split])
    n (s, n) ⟨0, rfl, by rw [pow_zero, Nat.one_mul], positive⟩ (Nat.le_refl n)
  dsimp only at same split left done
  refine ⟨k, m, by rw [← same]; exact run, split, left, ?_⟩
  intro dvd
  rw [Nat.mod_eq_zero_of_dvd dvd] at done
  exact absurd done (by decide)

/-- What has been visited and what is left make up the number, and what is left has no
prime factor below `x`. -/
structure Visited (visit : Nat → σ → σ) (s : σ) (n x : Nat) (t : σ × Nat) : Prop where
  positive : 0 < t.2
  rough : ∀ q, q.Prime → q ∣ t.2 → x ≤ q
  factors : ∃ ps, t.1 = visits visit ps s ∧ ps ++ t.2.primeFactorsList = n.primeFactorsList

theorem primeFactorsList_of_dvd {x m : Nat} (above : 1 < x) (positive : 0 < m) (dvd : x ∣ m)
    (rough : ∀ q, q.Prime → q ∣ m → x ≤ q) :
    m.primeFactorsList = x :: (m / x).primeFactorsList := by
  have large : x ≤ m := Nat.le_of_dvd positive dvd
  obtain ⟨l, rfl⟩ := Nat.exists_eq_add_of_le' (Nat.le_trans above large)
  have least : (l + 2).minFac = x :=
    Nat.le_antisymm (Nat.minFac_le_of_dvd above dvd)
      (rough _ (Nat.minFac_prime (by omega)) (Nat.minFac_dvd _))
  rw [Nat.primeFactorsList, least]

/-- One divisor. -/
theorem divideBy_visited {x n : Nat} {s : σ} {t : σ × Nat} (above : 1 < x)
    (visited : Visited visit s n x t) :
    ∃ t', divideBy visit x t = some t' ∧ Visited visit s n x t' ∧ t'.2 ∣ t.2 ∧ ¬ x ∣ t'.2 := by
  obtain ⟨t', run, ⟨inv, dvd⟩, done⟩ := whileLoop_total
    (fun s : σ × Nat => s.2 % x == 0) (fun s => (visit x s.1, s.2 / x))
    (fun t' => Visited visit s n x t' ∧ t'.2 ∣ t.2) (fun t' => t'.2)
    (by
      intro t' inv divides
      obtain ⟨⟨positive, rough, ps, same, factors⟩, part⟩ := inv
      have dvd : x ∣ t'.2 := Nat.dvd_of_mod_eq_zero (beq_iff_eq.mp divides)
      have quotient : t'.2 / x ∣ t'.2 := Nat.div_dvd_of_dvd dvd
      refine ⟨⟨⟨Nat.div_pos (Nat.le_of_dvd positive dvd) (by omega), ?_, ps ++ [x], ?_, ?_⟩,
        quotient.trans part⟩, Nat.div_lt_self positive above⟩
      · intro q prime factor
        exact rough q prime (factor.trans quotient)
      · rw [visits_append, ← same]
        rfl
      · rw [List.append_assoc, List.singleton_append,
          ← primeFactorsList_of_dvd above positive dvd rough, factors])
    t.2 t ⟨visited, dvd_rfl⟩ (Nat.le_refl _)
  refine ⟨t', run, inv, dvd, ?_⟩
  intro factor
  rw [Nat.mod_eq_zero_of_dvd factor] at done
  exact absurd done (by decide)

/-- A number without factors up to its square root is one or prime. -/
theorem primeFactorsList_of_lt_sq {x m : Nat} (positive : 0 < m) (small : m < x * x)
    (rough : ∀ q, q.Prime → q ∣ m → x ≤ q) :
    m.primeFactorsList = if m = 1 then [] else [m] := by
  split
  · rename_i one
    rw [one, Nat.primeFactorsList_one]
  · rename_i other
    refine Nat.primeFactorsList_prime ?_
    by_contra composite
    have square := Nat.minFac_sq_le_self positive composite
    have least := rough _ (Nat.minFac_prime other) (Nat.minFac_dvd m)
    have := Nat.mul_le_mul least least
    rw [pow_two] at square
    omega

/-- Nothing is left once the divisors are past the number. -/
theorem Visited.eq_one {s : σ} {n x : Nat} {t : σ × Nat} (visited : Visited visit s n x t)
    (past : t.2 < x) : t.2 = 1 := by
  by_contra other
  have least := visited.rough _ (Nat.minFac_prime other) (Nat.minFac_dvd t.2)
  have small := Nat.minFac_le visited.positive
  omega

theorem trialDivision_visited (squares : Squares square) {s : σ} {n : Nat} (more : Nat)
    {fuel x : Nat} {t : σ × Nat} (above : 1 < x) (oddX : ¬ 2 ∣ x) (odd : ¬ 2 ∣ t.2)
    (visited : Visited visit s n x t) (enough : more ≤ fuel) (past : t.2 < x + 2 * more)
    (stops : 1 < square (x + 2 * more)) :
    ∃ t' x', trialDivision square visit fuel x t = some t' ∧ Visited visit s n x' t' ∧
      t'.2 < x' * x' := by
  induction more generalizing fuel x t with
  | zero =>
    have one := visited.eq_one past
    have le := squares.le x
    rw [Nat.mul_zero, Nat.add_zero] at stops
    refine ⟨t, x, ?_, visited, by omega⟩
    cases fuel with
    | zero => rw [trialDivision, if_neg (by omega)]
    | succ fuel => rw [trialDivision, if_neg (by omega)]
  | succ more ih =>
    obtain ⟨fuel, rfl⟩ := Nat.exists_eq_add_of_le' (Nat.le_trans (Nat.le_add_left 1 more) enough)
    rw [trialDivision]
    split
    · obtain ⟨t', run, visited', part, removed⟩ := divideBy_visited above visited
      have le := Nat.le_of_dvd visited.positive part
      have later : x + 2 * (more + 1) = x + 2 + 2 * more := by omega
      rw [later] at stops
      rw [run, Option.bind_some]
      refine ih (by omega) (by omega) (fun even => odd (even.trans part)) ?_ (by omega) (by omega)
        stops
      refine ⟨visited'.positive, ?_, visited'.factors⟩
      intro q prime factor
      have least := visited'.rough q prime factor
      have other : q ≠ x := by
        rintro rfl
        exact removed factor
      -- the number between two odd ones is even
      have next : q ≠ x + 1 := by
        rintro rfl
        exact odd ((by omega : 2 ∣ x + 1).trans (factor.trans part))
      omega
    · rename_i large
      have le := squares.le x
      exact ⟨t, x, rfl, visited, by omega⟩

/-- As many iterations as the number end the loop. -/
theorem exists_stop (squares : Squares square) {n : Nat} (positive : 0 < n) (odd : ¬ 2 ∣ n) :
    ∃ more, more ≤ n ∧ n < 3 + 2 * more ∧ 1 < square (3 + 2 * more) := by
  rcases Nat.lt_or_ge n 2 with one | several
  · exact ⟨0, by omega, by omega, squares.three⟩
  · obtain ⟨half, rfl⟩ : ∃ half, n = 2 * half + 1 := ⟨n / 2, by omega⟩
    have places : ∀ more, 3 + 2 * (half + more) = 2 * half + 3 + 2 * more := fun more => by omega
    rcases squares.stops (2 * half + 3) with first | second | third
    · exact ⟨half + 0, by omega, by omega, by rw [places]; exact first⟩
    · exact ⟨half + 1, by omega, by omega, by rw [places]; exact second⟩
    · exact ⟨half + 2, by omega, by omega, by rw [places]; exact third⟩

/-- Trial division of an odd number visits its prime factors in order, but for a last one
that is left. -/
theorem trialDivision_spec (squares : Squares square) (visit : Nat → σ → σ) {n : Nat} (s : σ)
    (positive : 0 < n) (odd : ¬ 2 ∣ n) :
    ∃ ps m, trialDivision square visit n 3 (s, n) = some (visits visit ps s, m) ∧ 0 < m ∧
      ps ++ (if m = 1 then [] else [m]) = n.primeFactorsList := by
  have rough : ∀ q, q.Prime → q ∣ n → 3 ≤ q := by
    intro q prime factor
    have two := prime.two_le
    have other : q ≠ 2 := by
      rintro rfl
      exact odd factor
    omega
  have start : Visited visit s n 3 (s, n) := ⟨positive, rough, [], rfl, rfl⟩
  obtain ⟨more, enough, past, stops⟩ := exists_stop squares positive odd
  obtain ⟨⟨s', m⟩, x, run, ⟨left, rough', ps, same, factors⟩, small⟩ :=
    trialDivision_visited squares more (by omega) (by omega) odd start enough past stops
  dsimp only at left rough' same factors small
  refine ⟨ps, m, by rw [← same]; exact run, left, ?_⟩
  rw [← primeFactorsList_of_lt_sq left small rough', factors]

/-- Dividing by two and then by odd numbers, with a visit to what is left unless that is
one, visits all prime factors in order. -/
theorem factorisation_spec (squares : Squares square) (visit : Nat → σ → σ) {n : Nat} (s : σ)
    (positive : 0 < n) :
    ((divideBy visit 2 (s, n)).bind fun t =>
      (trialDivision square visit t.2 3 t).map fun t => if 1 < t.2 then visit t.2 t.1 else t.1) =
      some (visits visit n.primeFactorsList s) := by
  have rough : ∀ q, q.Prime → q ∣ n → 2 ≤ q := fun q prime _ => prime.two_le
  have start : Visited visit s n 2 (s, n) := ⟨positive, rough, [], rfl, rfl⟩
  obtain ⟨⟨s', m⟩, run, ⟨left, -, ps, same, factors⟩, -, odd⟩ :=
    divideBy_visited (by omega) start
  dsimp only at left same factors odd
  obtain ⟨ps', m', run', some, rest⟩ := trialDivision_spec squares visit s' left odd
  rw [run, Option.bind_some, run', Option.map_some, ← factors, ← rest, ← List.append_assoc,
    visits_append, visits_append, ← same]
  dsimp only
  rcases Nat.lt_or_ge 1 m' with large | small
  · rw [if_pos large, if_neg (by omega)]
    rfl
  · rw [if_neg (by omega), if_pos (by omega)]
    rfl

end Kit
