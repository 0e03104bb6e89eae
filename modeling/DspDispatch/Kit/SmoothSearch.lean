import DspDispatch.Kit.Loop
import Mathlib.NumberTheory.SmoothNumbers

/-!
# The search for a smooth number above a bound

The loops look for the least number at or above `n` that is made of given small factors,
with a best candidate that starts at some number and only falls. `threes` walks over the
numbers `f * 2 ^ a * 3 ^ b` of one odd `f`, always near `n`; `multiples c` runs a body for
`f`, `f * c`, `f * c ^ 2` and so on, up to the best candidate. A body `Covers` a set of
cofactors when it leaves the best candidate at most every multiple of `f` by one of them;
`multiples_covers` adds the powers of `c` to that set. The walk returns early, with
`Except.error`, at `n` itself. Products are machine products `mul`, which are the true ones
up to `top`.
-/

namespace Kit

variable (mul : Nat → Nat → Nat) (n : Nat)

/-- `while (x < n) x *= 2;`. -/
def doubled (fuel x : Nat) : Option Nat :=
  whileLoop (fun x => decide (x < n)) (fun x => mul x 2) fuel x

/-- `for (;;)` over the numbers near `n`: times three below it, half of it above. -/
def threes : Nat → Nat → Nat → Option (Except Nat Nat)
  | 0, _, _ => none
  | fuel + 1, x, best =>
    if x < n then threes fuel (mul x 3) best
    else if n < x then
      if x % 2 = 1 then some (.ok (min best x))
      else threes fuel (x / 2) (min best x)
    else some (.error n)

/-- The innermost body: the first power of two that lifts `f` to `n`, then the walk. -/
def near (f best : Nat) : Option (Except Nat Nat) :=
  (doubled mul n n f).bind fun x => threes mul n (2 * n + 1) x best

/-- `for (; f < best; f *= c) body`. -/
def multiples (c : Nat) (body : Nat → Nat → Option (Except Nat Nat)) :
    Nat → Nat → Nat → Option (Except Nat Nat)
  | 0, f, best => if f < best then none else some (.ok best)
  | fuel + 1, f, best =>
    if f < best then
      (body f best).bind fun
        | .error r => some (.error r)
        | .ok best' => multiples c body fuel (mul f c) best'
    else some (.ok best)

/-- What a search over the candidates `T` leaves of a best candidate. -/
def Outcome (T : Nat → Prop) (best : Nat) : Except Nat Nat → Prop
  | .error r => r = n ∧ T n
  | .ok best' =>
    best' ≤ best ∧ (best' = best ∨ T best' ∧ n ≤ best') ∧ ∀ y, T y → n ≤ y → best' ≤ y

/-- A body searches the multiples of `f` by the cofactors `S`. -/
def Covers (S : Nat → Prop) (body : Nat → Nat → Option (Except Nat Nat)) : Prop :=
  ∀ f best, f % 2 = 1 → f < best → best ≤ 2 * n →
    ∃ r, body f best = some r ∧ Outcome n (fun y => ∃ m, S m ∧ y = f * m) best r

/-- The cofactors with any power of `c` added. -/
def powersOf (c : Nat) (S : Nat → Prop) (y : Nat) : Prop := ∃ k m, S m ∧ y = c ^ k * m

/-- The cofactors of the walk. -/
def TwoThree (y : Nat) : Prop := ∃ a b, y = 2 ^ a * 3 ^ b

variable {mul n} {top : Nat}

/-! ## The walk over twos and threes -/

theorem doubled_spec (exact : ∀ x y, x * y ≤ top → mul x y = x * y) (room : 2 * n ≤ top)
    {f fuel : Nat} (positive : 0 < f) (enough : n ≤ fuel) :
    ∃ a, doubled mul n fuel f = some (f * 2 ^ a) ∧ n ≤ f * 2 ^ a ∧
      (a = 0 ∨ f * 2 ^ (a - 1) < n) := by
  obtain ⟨x, run, ⟨a, same, last⟩, done⟩ := whileLoop_total
    (fun x => decide (x < n)) (fun x => mul x 2)
    (fun x => ∃ a, x = f * 2 ^ a ∧ (a = 0 ∨ f * 2 ^ (a - 1) < n)) (fun x => n - x)
    (by
      rintro x ⟨a, same, -⟩ below
      have small : x < n := of_decide_eq_true below
      have left : 0 < x := same ▸ Nat.mul_pos positive (Nat.two_pow_pos a)
      rw [exact x 2 (by omega)]
      refine ⟨⟨a + 1, by rw [same, pow_succ, Nat.mul_assoc], .inr ?_⟩, by omega⟩
      rw [Nat.add_sub_cancel, ← same]
      exact small)
    fuel f ⟨0, by rw [pow_zero, Nat.mul_one], .inl rfl⟩ (by omega)
  subst same
  exact ⟨a, run, Nat.le_of_not_lt (of_decide_eq_false done), last⟩

/-- The candidates that are left at one point of the walk. -/
def Ahead (f a b y : Nat) : Prop := ∃ a' b', a' ≤ a ∧ b ≤ b' ∧ y = f * 2 ^ a' * 3 ^ b'

theorem ahead_self (f a b : Nat) : Ahead f a b (f * 2 ^ a * 3 ^ b) :=
  ⟨a, b, Nat.le_refl a, Nat.le_refl b, rfl⟩

/-- A parity test tells whether there are twos left. -/
theorem walk_odd {f a b : Nat} (odd : f % 2 = 1) : (f * 2 ^ a * 3 ^ b) % 2 = 1 ↔ a = 0 := by
  have three : 3 ^ b % 2 = 1 := by
    rw [Nat.pow_mod, Nat.one_pow]
  rw [Nat.mul_mod, three, Nat.mul_mod f, odd]
  rcases a with _ | a
  · simp
  · simp [pow_succ]

theorem walk_half (f a b : Nat) : f * 2 ^ (a + 1) * 3 ^ b / 2 = f * 2 ^ a * 3 ^ b := by
  refine Nat.div_eq_of_eq_mul_right (by omega) ?_
  rw [pow_succ]
  ring

/-- The candidates at or above `n` when the walk is below it. -/
theorem ahead_up {f a b y : Nat} (small : f * 2 ^ a * 3 ^ b < n) (ahead : Ahead f a b y)
    (above : n ≤ y) : Ahead f a (b + 1) y := by
  obtain ⟨a', b', le, ge, rfl⟩ := ahead
  refine ⟨a', b', le, ?_, rfl⟩
  by_contra last
  obtain rfl : b' = b := by omega
  have := Nat.mul_le_mul_right (3 ^ b')
    (Nat.mul_le_mul_left f (Nat.pow_le_pow_right (by omega : 0 < 2) le))
  omega

/-- The candidates when the walk is at or above `n`: this one, larger ones, and those with
fewer twos. -/
theorem ahead_down {f a b y : Nat} (ahead : Ahead f a b y) :
    f * 2 ^ a * 3 ^ b ≤ y ∨ (∃ a', a = a' + 1 ∧ Ahead f a' b y) := by
  obtain ⟨a', b', le, ge, rfl⟩ := ahead
  rcases Nat.lt_or_ge a' a with less | more
  · obtain ⟨a, rfl⟩ := Nat.exists_eq_succ_of_ne_zero (by omega : a ≠ 0)
    exact .inr ⟨a, rfl, a', b', by omega, ge, rfl⟩
  · obtain rfl : a' = a := by omega
    exact .inl (Nat.mul_le_mul_left _ (Nat.pow_le_pow_right (by omega) ge))

/-- The outcome of a walk goes on to one that has fewer candidates left. -/
theorem Outcome.mono {T T' : Nat → Prop} {best best' : Nat} {r : Except Nat Nat}
    (sub : ∀ y, T' y → T y) (fall : best' = best ∨ T best' ∧ n ≤ best') (le : best' ≤ best)
    (rest : ∀ y, T y → n ≤ y → best' ≤ y ∨ ∃ y', T' y' ∧ n ≤ y' ∧ y' ≤ y)
    (outcome : Outcome n T' best' r) : Outcome n T best r := by
  rcases r with r | r
  · exact ⟨outcome.1, sub _ outcome.2⟩
  · obtain ⟨low, from', least⟩ := outcome
    refine ⟨low.trans le, ?_, ?_⟩
    · rcases from' with rfl | ⟨here, above⟩
      · exact fall
      · exact .inr ⟨sub _ here, above⟩
    · intro y here above
      rcases rest y here above with covered | ⟨y', later, above', le'⟩
      · exact low.trans covered
      · exact (least y' later above').trans le'

theorem threes_spec (exact : ∀ x y, x * y ≤ top → mul x y = x * y) (room : 3 * n ≤ top)
    {f : Nat} (odd : f % 2 = 1) :
    ∀ (fuel a b best : Nat), a + (n - 3 ^ b) < fuel →
      ∃ r, threes mul n fuel (f * 2 ^ a * 3 ^ b) best = some r ∧
        Outcome n (Ahead f a b) best r := by
  intro fuel
  induction fuel with
  | zero =>
    intro a b best enough
    omega
  | succ fuel ih =>
    intro a b best enough
    have positive : 0 < f * 2 ^ a := Nat.mul_pos (by omega) (Nat.two_pow_pos a)
    have three : 3 ^ b ≤ f * 2 ^ a * 3 ^ b := Nat.le_mul_of_pos_left _ positive
    have one : 0 < 3 ^ b := Nat.pow_pos (by omega)
    rw [threes]
    rcases Nat.lt_trichotomy (f * 2 ^ a * 3 ^ b) n with small | equal | large
    · -- below `n`: one more factor of three, and no candidate is lost
      rw [if_pos small, exact _ 3 (by omega), Nat.mul_assoc, ← pow_succ]
      obtain ⟨r, run, outcome⟩ := ih a (b + 1) best (by rw [pow_succ]; omega)
      refine ⟨r, run, outcome.mono ?_ (.inl rfl) (Nat.le_refl best) ?_⟩
      · rintro y ⟨a', b', le, ge, same⟩
        exact ⟨a', b', le, by omega, same⟩
      · intro y ahead above
        exact .inr ⟨y, ahead_up small ahead above, above, Nat.le_refl y⟩
    · rw [if_neg (by omega), if_neg (by omega)]
      exact ⟨.error n, rfl, rfl, equal ▸ ahead_self f a b⟩
    · rw [if_neg (by omega), if_pos large]
      have fall : min best (f * 2 ^ a * 3 ^ b) = best ∨
          Ahead f a b (min best (f * 2 ^ a * 3 ^ b)) ∧ n ≤ min best (f * 2 ^ a * 3 ^ b) := by
        rcases Nat.le_total best (f * 2 ^ a * 3 ^ b) with le | ge
        · exact .inl (Nat.min_eq_left le)
        · rw [Nat.min_eq_right ge]
          exact .inr ⟨ahead_self f a b, Nat.le_of_lt large⟩
      split
      · rename_i last
        obtain rfl := (walk_odd odd).mp last
        refine ⟨_, rfl, Nat.min_le_left _ _, fall, ?_⟩
        intro y ahead above
        rcases ahead_down ahead with le | ⟨a', absurd, -⟩
        · exact (Nat.min_le_right _ _).trans le
        · omega
      · rename_i more
        obtain ⟨a, rfl⟩ := Nat.exists_eq_succ_of_ne_zero (mt (walk_odd (b := b) odd).mpr more)
        rw [Nat.succ_eq_add_one, walk_half]
        obtain ⟨r, run, outcome⟩ := ih a b (min best (f * 2 ^ (a + 1) * 3 ^ b)) (by omega)
        refine ⟨r, run, outcome.mono ?_ fall (Nat.min_le_left _ _) ?_⟩
        · rintro y ⟨a', b', le, ge, same⟩
          exact ⟨a', b', by omega, ge, same⟩
        · intro y ahead above
          rcases ahead_down ahead with le | ⟨a', same, rest⟩
          · exact .inl ((Nat.min_le_right _ _).trans le)
          · obtain rfl : a = a' := by omega
            exact .inr ⟨y, rest, above, Nat.le_refl y⟩

theorem near_covers (exact : ∀ x y, x * y ≤ top → mul x y = x * y) (room : 3 * n ≤ top) :
    Covers n TwoThree (near mul n) := by
  intro f best odd below twice
  have positive : 0 < f := by omega
  obtain ⟨a, doubling, reached, last⟩ :=
    doubled_spec exact (by omega : 2 * n ≤ top) positive (Nat.le_refl n)
  have few : a ≤ n := by
    rcases last with rfl | small
    · omega
    · have grow : a - 1 < 2 ^ (a - 1) := Nat.lt_two_pow_self
      have : 2 ^ (a - 1) ≤ f * 2 ^ (a - 1) := Nat.le_mul_of_pos_left _ positive
      omega
  obtain ⟨r, run, outcome⟩ :=
    threes_spec exact room odd (2 * n + 1) a 0 best (by rw [pow_zero]; omega)
  refine ⟨r, ?_, outcome.mono ?_ (.inl rfl) (Nat.le_refl best) ?_⟩
  · rw [near, doubling, Option.bind_some, ← run, pow_zero, Nat.mul_one]
  · rintro y ⟨a', b', -, -, rfl⟩
    exact ⟨2 ^ a' * 3 ^ b', ⟨a', b', rfl⟩, Nat.mul_assoc _ _ _⟩
  · rintro y ⟨m, ⟨a', b', rfl⟩, rfl⟩ above
    rcases Nat.le_total a' a with le | ge
    · exact .inr ⟨_, ⟨a', b', le, Nat.zero_le b', (Nat.mul_assoc _ _ _).symm⟩, above,
        Nat.le_refl _⟩
    · -- more twos than it takes to reach `n`: the first number of the walk is smaller
      refine .inr ⟨f * 2 ^ a, ⟨a, 0, Nat.le_refl a, Nat.le_refl 0, by rw [pow_zero, Nat.mul_one]⟩,
        reached, ?_⟩
      refine Nat.mul_le_mul_left f ((Nat.pow_le_pow_right (by omega) ge).trans ?_)
      exact Nat.le_mul_of_pos_right _ (Nat.pow_pos (by omega))

/-! ## The loops around it -/

theorem le_multiple {c m : Nat} (f k : Nat) (above : 1 < c) (positive : 0 < m) :
    f ≤ f * (c ^ k * m) :=
  Nat.le_mul_of_pos_right f (Nat.mul_pos (Nat.pow_pos (by omega)) positive)

theorem multiples_covers {c : Nat} {S : Nat → Prop} {body : Nat → Nat → Option (Except Nat Nat)}
    (exact : ∀ x y, x * y ≤ top → mul x y = x * y) (room : 2 * n * c ≤ top) (oddC : c % 2 = 1)
    (above : 1 < c) (positive : ∀ m, S m → 0 < m) (covers : Covers n S body) :
    Covers n (powersOf c S) (multiples mul c body (2 * n)) := by
  intro f best odd below twice
  have enough : best ≤ 2 * n + f := by omega
  clear below
  generalize 2 * n = fuel at enough ⊢
  induction fuel generalizing f best with
  | zero =>
    rw [multiples, if_neg (by omega)]
    refine ⟨_, rfl, Nat.le_refl best, .inl rfl, ?_⟩
    rintro y ⟨-, ⟨k, m, cofactor, rfl⟩, rfl⟩ -
    have := le_multiple f k above (positive m cofactor)
    omega
  | succ fuel ih =>
    rw [multiples]
    split
    · rename_i below
      obtain ⟨r, run, outcome⟩ := covers f best odd below twice
      have here : ∀ y, (∃ m, S m ∧ y = f * m) → ∃ m, powersOf c S m ∧ y = f * m := by
        rintro y ⟨m, cofactor, same⟩
        exact ⟨m, ⟨0, m, cofactor, by rw [pow_zero, Nat.one_mul]⟩, same⟩
      rw [run, Option.bind_some]
      rcases r with r | best'
      · exact ⟨.error r, rfl, outcome.1, here _ outcome.2⟩
      · obtain ⟨low, from', least⟩ := outcome
        have scaled : mul f c = f * c :=
          exact f c ((Nat.mul_le_mul_right c (by omega)).trans room)
        have next : 2 * f ≤ f * c := Nat.mul_comm 2 f ▸ Nat.mul_le_mul_left f above
        dsimp only
        rw [scaled]
        obtain ⟨r, run', outcome'⟩ := ih (f * c) best' (by rw [Nat.mul_mod, odd, oddC])
          (low.trans twice) (by omega)
        refine ⟨r, run', outcome'.mono ?_ (from'.imp id fun found => ⟨here _ found.1, found.2⟩)
          low ?_⟩
        · rintro y ⟨-, ⟨k, m, cofactor, rfl⟩, rfl⟩
          exact ⟨c ^ (k + 1) * m, ⟨k + 1, m, cofactor, rfl⟩, by rw [pow_succ]; ring⟩
        · rintro y ⟨-, ⟨k, m, cofactor, rfl⟩, rfl⟩ reached
          rcases k with _ | k
          · exact .inl (least _ ⟨m, cofactor, by rw [pow_zero, Nat.one_mul]⟩ reached)
          · exact .inr ⟨_, ⟨c ^ k * m, ⟨k, m, cofactor, rfl⟩, rfl⟩, by
              rw [pow_succ] at reached; convert reached using 1; ring, by
              rw [pow_succ]; exact Nat.le_of_eq (by ring)⟩
    · rename_i reached
      refine ⟨_, rfl, Nat.le_refl best, .inl rfl, ?_⟩
      rintro y ⟨-, ⟨k, m, cofactor, rfl⟩, rfl⟩ -
      exact (Nat.le_of_not_lt reached).trans (le_multiple f k above (positive m cofactor))

/-! ## Smooth numbers -/

/-- What a search ends with, in either way. -/
def found : Except Nat Nat → Nat
  | .error r => r
  | .ok best => best

/-- A search from `2 * n` over candidates with the powers of two ends with the least. -/
theorem Outcome.isLeast {T : Nat → Prop} {r : Except Nat Nat} (positive : 0 < n)
    (powers : ∀ a, T (2 ^ a)) (outcome : Outcome n T (2 * n) r) :
    IsLeast {y | T y ∧ n ≤ y} (found r) := by
  rcases r with r | best
  · obtain ⟨rfl, here⟩ := outcome
    exact ⟨⟨here, Nat.le_refl r⟩, fun y candidate => candidate.2⟩
  · obtain ⟨low, from', least⟩ := outcome
    refine ⟨?_, fun y candidate => least y candidate.1 candidate.2⟩
    rcases from' with rfl | found
    · -- a power of two lies below `2 * n`
      have close : 2 ^ (Nat.log 2 n) ≤ n := Nat.pow_log_le_self 2 (by omega)
      have reached : n < 2 ^ (Nat.log 2 n + 1) := Nat.lt_pow_succ_log_self (by omega) n
      have := least _ (powers (Nat.log 2 n + 1)) (Nat.le_of_lt reached)
      rw [pow_succ] at this reached
      have twice : 2 * n = 2 ^ (Nat.log 2 n) * 2 := by omega
      refine ⟨?_, ?_⟩
      · change T (2 * n)
        rw [twice, ← pow_succ]
        exact powers _
      · change n ≤ 2 * n
        omega
    · exact found

theorem powersOf_smooth {p : Nat} (prime : p.Prime) {S : Nat → Prop}
    (smooth : ∀ m, S m ↔ m ∈ Nat.smoothNumbers p) (m : Nat) :
    powersOf p S m ↔ m ∈ Nat.smoothNumbers (p + 1) := by
  constructor
  · rintro ⟨k, m', part, rfl⟩
    exact Nat.pow_mul_mem_smoothNumbers prime.ne_zero k ((smooth m').mp part)
  · intro member
    obtain ⟨⟨k, m', part⟩, same⟩ := (Nat.equivProdNatSmoothNumbers prime).surjective ⟨m, member⟩
    refine ⟨k, m', (smooth m').mpr part, ?_⟩
    exact (congrArg Subtype.val same).symm

theorem twoThree_smooth (m : Nat) : TwoThree m ↔ m ∈ Nat.smoothNumbers 5 := by
  rw [Nat.smoothNumbers_succ (by decide : ¬ Nat.Prime 4),
    ← powersOf_smooth Nat.prime_three (powersOf_smooth Nat.prime_two fun m => Iff.rfl)]
  constructor
  · rintro ⟨a, b, rfl⟩
    exact ⟨b, 2 ^ a, ⟨a, 1, Nat.mem_smoothNumbers_of_lt (by omega) (by omega),
      (Nat.mul_one _).symm⟩, Nat.mul_comm _ _⟩
  · rintro ⟨b, -, ⟨a, m', one, rfl⟩, rfl⟩
    rw [Nat.smoothNumbers_succ (by decide), Nat.smoothNumbers_one] at one
    obtain rfl : m' = 1 := one
    exact ⟨a, b, by rw [Nat.mul_one, Nat.mul_comm]⟩

/-- The walk covers the products of twos and threes. -/
theorem near_covers_smooth (exact : ∀ x y, x * y ≤ top → mul x y = x * y) (room : 3 * n ≤ top) :
    Covers n (· ∈ Nat.smoothNumbers 5) (near mul n) := by
  have same : (· ∈ Nat.smoothNumbers 5) = TwoThree :=
    funext fun m => propext (twoThree_smooth m).symm
  rw [same]
  exact near_covers exact room

/-- A loop over the powers of an odd prime adds that prime. -/
theorem multiples_covers_smooth {p : Nat} {body : Nat → Nat → Option (Except Nat Nat)}
    (exact : ∀ x y, x * y ≤ top → mul x y = x * y) (room : 2 * n * p ≤ top) (prime : p.Prime)
    (odd : p % 2 = 1) (covers : Covers n (· ∈ Nat.smoothNumbers p) body) :
    Covers n (· ∈ Nat.smoothNumbers (p + 1)) (multiples mul p body (2 * n)) := by
  have same : (· ∈ Nat.smoothNumbers (p + 1)) = powersOf p (· ∈ Nat.smoothNumbers p) :=
    funext fun m => propext (powersOf_smooth prime (fun _ => Iff.rfl) m).symm
  rw [same]
  exact multiples_covers exact room odd prime.one_lt
    (fun m part => Nat.pos_of_ne_zero (Nat.ne_zero_of_mem_smoothNumbers part)) covers

/-- A whole search, from one and `2 * n`. -/
theorem Covers.isLeast {body : Nat → Nat → Option (Except Nat Nat)} {bound : Nat}
    (positive : 0 < n) (two : 2 < bound) (covers : Covers n (· ∈ Nat.smoothNumbers bound) body) :
    ∃ r, (body 1 (2 * n)).map found = some r ∧
      IsLeast {m | m ∈ Nat.smoothNumbers bound ∧ n ≤ m} r := by
  obtain ⟨r, run, outcome⟩ := covers 1 (2 * n) rfl (by omega) (Nat.le_refl _)
  have same : (fun y => ∃ m, m ∈ Nat.smoothNumbers bound ∧ y = 1 * m) =
      (· ∈ Nat.smoothNumbers bound) := by
    funext y
    simp
  rw [same] at outcome
  refine ⟨found r, by rw [run]; rfl, outcome.isLeast positive fun a => ?_⟩
  have power := Nat.pow_mul_mem_smoothNumbers (by omega : 2 ≠ 0) a
    (Nat.mem_smoothNumbers_of_lt Nat.one_pos (by omega : 1 < 2))
  rw [Nat.mul_one] at power
  exact Nat.smoothNumbers_mono two power

end Kit
