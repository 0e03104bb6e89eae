import DspDispatch.Pocketfft.Cfftp
import DspDispatch.Pocketfft.RealGeneralInverse

/-!
# The real transform of pocketfft (`rfftp`)

The factors of two and four come first, so that the passes of the odd factors have rows of
odd length (`RealFactors`). The constructor computes the twiddle factors of all factors but
the last, whose pass needs none, and a table of cosines and sines for each factor above five.

The forward transform takes the factors from the last to the first: the array holds the
spectra of the signals of every `l1`-th sample, and `l1` goes from the length to one. The
backward transform takes them from the first to the last.
-/

namespace DspDispatch.Pocketfft

open Kit

/-- `fctdata`: a factor and the places of its twiddle factors in `mem`. -/
structure RfctData where
  fct : Nat
  tw : Option Nat
  tws : Option Nat
deriving DecidableEq, Repr

/-- `rfftp<T0>`. -/
structure Rfftp (K : Type) where
  length : Nat
  mem : List K
  fact : List RfctData

namespace Rfftp

/-- `factorize`. -/
def factorize (length : Nat) : Option (List Nat) := do
  let s ← divideBy addFactor 4 ([], length)
  let s := if s.2 % 2 = 0 then (swapEnds (addFactor 2 s.1), s.2 / 2) else s
  let s ← trialDivision (fun x => mulSize x x) addFactor s.2 3 s
  some (if 1 < s.2 then addFactor s.2 s.1 else s.1)

/-- What one factor adds to `twsize`. -/
def twsizeOf (length l1 ip : Nat) : Nat :=
  let ido := length / (l1 * ip)
  (ip - 1) * (ido - 1) + if 5 < ip then 2 * ip else 0

/-- `twsize`; the state of the loop is `twsize` and `l1`. -/
def twsize (length : Nat) (fact : List Nat) : Nat :=
  (fact.foldl (fun s ip => (s.1 + twsizeOf length s.2 ip, s.2 * ip)) (0, 1)).1

/-- The variables of `comp_twiddle`; `ptr` is an index of `mem`. -/
structure TwState (K : Type) where
  mem : List K
  ptr : Nat
  l1 : Nat
  fact : List RfctData

section Model

variable {K : Type} [Field K]

/-- The loops over `fact[k].tw`. -/
def fillTw (twid : SinCos K) (l1 ip ido tw : Nat) (mem : List K) : Option (List K) :=
  forLoop (ip - 1) (fun j0 => forLoop ((ido - 1) / 2) fun i0 mem => do
    let j := j0 + 1
    let i := i0 + 1
    let v ← twid.get (j * l1 * i)
    let mem ← storeCell mem (tw + ((j - 1) * (ido - 1) + 2 * i - 2)) v.r
    storeCell mem (tw + ((j - 1) * (ido - 1) + 2 * i - 1)) v.i) mem

/-- The loop over `fact[k].tws`, from both ends. -/
def fillTws (twid : SinCos K) (length ip tws : Nat) (mem : List K) : Option (List K) := do
  let mem ← storeCell mem tws 1
  let mem ← storeCell mem (tws + 1) 0
  forLoop (ip / 2) (fun m mem => do
    let i := 2 * m + 2
    let ic := 2 * ip - 2 - 2 * m
    let v ← twid.get (i / 2 * (length / ip))
    let mem ← storeCell mem (tws + i) v.r
    let mem ← storeCell mem (tws + (i + 1)) v.i
    let mem ← storeCell mem (tws + ic) v.r
    storeCell mem (tws + (ic + 1)) (-v.i)) mem

/-- The loops for a factor that has another one behind it. -/
def fillTwIf (more : Bool) (twid : SinCos K) (l1 ip ido tw : Nat) (mem : List K) :
    Option (List K) :=
  if more then fillTw twid l1 ip ido tw mem else some mem

/-- One iteration of `comp_twiddle`; `count` is the number of factors. -/
def compTwiddleStep (length count : Nat) (twid : SinCos K) (s : TwState K) (ip : Nat) :
    Option (TwState K) := do
  let ido := length / (s.l1 * ip)
  -- the last factor doesn't need twiddles
  let more := decide (s.fact.length < count - 1)
  let tw := if more then some s.ptr else none
  let ptr := if more then s.ptr + (ip - 1) * (ido - 1) else s.ptr
  let mem ← fillTwIf more twid s.l1 ip ido s.ptr s.mem
  if 5 < ip then
    let mem ← fillTws twid length ip ptr mem
    some ⟨mem, ptr + 2 * ip, s.l1 * ip, s.fact ++ [⟨ip, tw, some ptr⟩]⟩
  else some ⟨mem, ptr, s.l1 * ip, s.fact ++ [⟨ip, tw, none⟩]⟩

/-- The constructor; `none` is an exception. -/
def make (t : Trig K) (length : Nat) : Option (Rfftp K) := do
  if length = 0 then none
  else if length = 1 then some ⟨1, [], []⟩
  else
    let fact ← factorize length
    let twid ← SinCos.make t length
    let s ← fact.foldlM (compTwiddleStep length fact.length twid)
      ⟨List.replicate (twsize length fact) 0, 0, 1, []⟩
    some ⟨length, s.mem, s.fact⟩

/-- What a pointer into `mem` points to; there is nothing to read behind `nullptr`. -/
def pointee (mem : List K) (ptr : Option Nat) : List K := (ptr.map mem.drop).getD []

/-- The forward pass of one factor from `p1` to `p2`, and the two arrays afterwards, the
result first. `radfg` leaves its result in `p1`. -/
def forwardPass (t : Trig K) (mem : List K) (d : RfctData) (ido l1 : Nat) (p1 p2 : List K) :
    Option (List K × List K) :=
  let tw := pointee mem d.tw
  if d.fct = 4 then (radf4 t ido l1 p1 p2 tw).map (·, p1)
  else if d.fct = 2 then (radf2 ido l1 p1 p2 tw).map (·, p1)
  else if d.fct = 3 then (radf3 t ido l1 p1 p2 tw).map (·, p1)
  else if d.fct = 5 then (radf5 t ido l1 p1 p2 tw).map (·, p1)
  else radfg ido d.fct l1 p1 p2 tw (pointee mem d.tws)

/-- The backward pass; `radbg` leaves its result in `p2`, as the others do. -/
def backwardPass (t : Trig K) (mem : List K) (d : RfctData) (ido l1 : Nat) (p1 p2 : List K) :
    Option (List K × List K) :=
  let tw := pointee mem d.tw
  if d.fct = 4 then (radb4 t ido l1 p1 p2 tw).map (·, p1)
  else if d.fct = 2 then (radb2 ido l1 p1 p2 tw).map (·, p1)
  else if d.fct = 3 then (radb3 t ido l1 p1 p2 tw).map (·, p1)
  else if d.fct = 5 then (radb5 t ido l1 p1 p2 tw).map (·, p1)
  else (radbg ido d.fct l1 p1 p2 tw (pointee mem d.tws)).map fun p => (p.2, p.1)

/-- One iteration of the loop of `exec` for `r2hc`; the state is `p1`, `p2` and `l1`. -/
def forwardStep (t : Trig K) (plan : Rfftp K) (s : List K × List K × Nat) (d : RfctData) :
    Option (List K × List K × Nat) :=
  let ido := plan.length / s.2.2
  let l1 := s.2.2 / d.fct
  (forwardPass t plan.mem d ido l1 s.1 s.2.1).map fun p => (p.1, p.2, l1)

/-- One iteration of the other loop. -/
def backwardStep (t : Trig K) (plan : Rfftp K) (s : List K × List K × Nat) (d : RfctData) :
    Option (List K × List K × Nat) :=
  let l1 := s.2.2
  let ido := plan.length / (d.fct * l1)
  (backwardPass t plan.mem d ido l1 s.1 s.2.1).map fun p => (p.1, p.2, l1 * d.fct)

/-- `exec` with `copy_and_norm`: the array `c` afterwards. -/
def exec [DecidableEq K] (t : Trig K) (plan : Rfftp K) (c : List K) (fct : K) (r2hc : Bool) :
    Option (List K) :=
  if plan.length = 1 then ((c)[0]?).bind fun v => storeCell c 0 (v * fct)
  else do
    let ch := List.replicate plan.length 0
    let s ← if r2hc then plan.fact.reverse.foldlM (forwardStep t plan) (c, ch, plan.length)
      else plan.fact.foldlM (backwardStep t plan) (c, ch, 1)
    some (if fct = 1 then s.1 else s.1.map (fct * ·))

end Model

/-! ## The factors -/

/-- Each factor is two, four, or an odd prime with only odd factors behind it. -/
def RealFactors : List Nat → Prop
  | [] => True
  | ip :: fact => (ip = 2 ∨ ip = 4 ∨ (ip.Prime ∧ ¬ 2 ∣ ip ∧ ¬ 2 ∣ fact.prod)) ∧ RealFactors fact

theorem two_le_of_mem {fact : List Nat} (factors : RealFactors fact) : ∀ ip ∈ fact, 2 ≤ ip := by
  induction fact with
  | nil => exact fun ip member => absurd member List.not_mem_nil
  | cons p fact ih =>
    obtain ⟨first, others⟩ := factors
    refine List.forall_mem_cons.mpr ⟨?_, ih others⟩
    rcases first with rfl | rfl | ⟨prime, -⟩
    · decide
    · decide
    · exact prime.two_le

theorem realFactors_append {evens odds : List Nat} (two : ∀ ip ∈ evens, ip = 2 ∨ ip = 4)
    (odd : RealFactors odds) : RealFactors (evens ++ odds) := by
  induction evens with
  | nil => exact odd
  | cons ip evens ih =>
    refine ⟨?_, ih fun ip member => two ip (List.mem_cons_of_mem _ member)⟩
    rcases two ip (List.mem_cons_self ..) with two | four
    · exact .inl two
    · exact .inr (.inl four)

theorem realFactors_of_primes {odds : List Nat} (primes : ∀ ip ∈ odds, ip.Prime ∧ ¬ 2 ∣ ip) :
    RealFactors odds ∧ ¬ 2 ∣ odds.prod := by
  induction odds with
  | nil => exact ⟨trivial, by decide⟩
  | cons ip odds ih =>
    obtain ⟨rest, odd⟩ := ih fun ip member => primes ip (List.mem_cons_of_mem _ member)
    obtain ⟨prime, other⟩ := primes ip (List.mem_cons_self ..)
    refine ⟨⟨.inr (.inr ⟨prime, other, odd⟩), rest⟩, ?_⟩
    rw [List.prod_cons, Nat.prime_two.dvd_mul]
    rintro (left | right)
    · exact other left
    · exact odd right

/-- The factors multiply to the length, and the even ones come first. -/
theorem factorize_spec {length : Nat} (positive : 0 < length) :
    ∃ fact, factorize length = some fact ∧ fact.prod = length ∧ RealFactors fact := by
  obtain ⟨k, m, fours, split, left, none⟩ :=
    divideBy_spec addFactor [] (by omega : 1 < 4) positive
  rw [visits_addFactor, List.nil_append] at fours
  obtain ⟨fact, q, step, product, odd, left', powers⟩ :
      ∃ fact q, (if m % 2 = 0 then (swapEnds (addFactor 2 (List.replicate k 4)), m / 2)
          else (List.replicate k 4, m)) = (fact, q) ∧
        fact.prod * q = length ∧ ¬ 2 ∣ q ∧ 0 < q ∧ ∀ ip ∈ fact, ip = 2 ∨ ip = 4 := by
    have product : (List.replicate k 4).prod * m = length := by rw [List.prod_replicate, split]
    split
    · rename_i even
      have perm := swapEnds_perm (List.replicate k 4)
      refine ⟨_, _, rfl, ?_, by omega, by omega, ?_⟩
      · rw [perm.prod_eq, addFactor, List.prod_append, List.prod_singleton, Nat.mul_assoc,
          Nat.mul_div_cancel' (Nat.dvd_of_mod_eq_zero even), product]
      · intro ip member
        rcases List.mem_append.mp (perm.mem_iff.mp member) with four | two
        · exact .inr (List.eq_of_mem_replicate four)
        · exact .inl (List.mem_singleton.mp two)
    · exact ⟨_, _, rfl, product, by omega, left,
        fun ip member => .inr (List.eq_of_mem_replicate member)⟩
  obtain ⟨ps, r, trial, some', primes⟩ :=
    trialDivision_spec squares_mulSize addFactor fact left' odd
  rw [visits_addFactor] at trial
  have all : (if 1 < r then addFactor r (fact ++ ps) else fact ++ ps) =
      fact ++ q.primeFactorsList := by
    rw [← primes, ← List.append_assoc]
    rcases Nat.lt_or_ge 1 r with large | small
    · rw [if_pos large, if_neg (by omega)]
      rfl
    · rw [if_neg (by omega), if_pos (by omega), List.append_nil]
  refine ⟨fact ++ q.primeFactorsList, ?_, ?_, ?_⟩
  · simp only [factorize, fours, step, trial, all, Option.bind_eq_bind, Option.bind_some]
  · rw [List.prod_append, Nat.prod_primeFactorsList left'.ne', product]
  · refine realFactors_append powers (realFactors_of_primes fun ip member => ?_).1
    have dvd := Nat.dvd_of_mem_primeFactorsList member
    exact ⟨Nat.prime_of_mem_primeFactorsList member, fun even => odd (even.trans dvd)⟩

/-! ## The twiddle factors -/

section Twiddles

variable {n l1 ip ido : Nat} {twid : SinCos ℝ}

theorem fillTw_eq (factored : n = l1 * ip * ido) (table : Cfftp.Table n twid) {tw : Nat}
    {mem : List ℝ} (room : tw + (ip - 1) * (ido - 1) ≤ mem.length) :
    ∃ mem', fillTw twid l1 ip ido tw mem = some mem' ∧ mem'.length = mem.length ∧
      RealTwiddles n l1 ip ido (mem'.drop tw) ∧
      ∀ p, p < mem.length → p < tw ∨ tw + (ip - 1) * (ido - 1) ≤ p → mem'[p]? = mem[p]? := by
  have small : ∀ j t, j < ip - 1 → t < (ido - 1) / 2 → (j + 1) * l1 * (t + 1) ≤ n := by
    intro j t row column
    have rows := Nat.mul_le_mul_right l1 (by omega : j + 1 ≤ ip)
    have product := Nat.mul_le_mul rows (by omega : t + 1 ≤ ido)
    rw [factored, Nat.mul_comm l1 ip]
    exact product
  have place : ∀ j t, (j + 1 - 1) * (ido - 1) + 2 * (t + 1) - 2 = 2 * t + (ido - 1) * j ∧
      (j + 1 - 1) * (ido - 1) + 2 * (t + 1) - 1 = 2 * t + 1 + (ido - 1) * j := by
    intro j t
    rw [Nat.add_sub_cancel, Nat.mul_comm j]
    omega
  obtain ⟨mem', run, size, own, keeps⟩ := fills_own (n := mem.length)
    (f := fillTw twid l1 ip ido tw)
    (fun p => ∃ j, j < ip - 1 ∧ ∃ t, t < (ido - 1) / 2 ∧
      (p = tw + (2 * t + (ido - 1) * j) ∨ p = tw + (2 * t + 1 + (ido - 1) * j)))
    (fun p => if (p - tw) % (ido - 1) % 2 = 0
      then (twiddle false n (((p - tw) / (ido - 1) + 1) * l1 * ((p - tw) % (ido - 1) / 2 + 1))).re
      else (twiddle false n (((p - tw) / (ido - 1) + 1) * l1 * ((p - tw) % (ido - 1) / 2 + 1))).im)
    (by
      intro final agrees
      refine fills_forLoop fun j row => fills_forLoop fun t column => ?_
      have real := agrees (tw + (2 * t + (ido - 1) * j)) ⟨j, row, t, column, .inl rfl⟩
      have imag := agrees (tw + (2 * t + 1 + (ido - 1) * j)) ⟨j, row, t, column, .inr rfl⟩
      have inside := cell_lt row (by omega : 2 * t + 1 < ido - 1)
      have half : 2 * t / 2 = t := by omega
      have half' : (2 * t + 1) / 2 = t := by omega
      rw [Nat.add_sub_cancel_left, cell_div (by omega), cell_mod (by omega), if_pos (by omega),
        half] at real
      rw [Nat.add_sub_cancel_left, cell_div (by omega), cell_mod (by omega), if_neg (by omega),
        half'] at imag
      simp only [place, table _ (small j t row column), Option.bind_eq_bind, Option.bind_some]
      exact (fills_storeCell (by omega) real.symm).bind (fills_storeCell (by omega) imag.symm)) rfl
  refine ⟨mem', run, size, ?_, fun p below outside => keeps p below ?_⟩
  · intro x t row column
    have half : 2 * t / 2 = t := by omega
    have half' : (2 * t + 1) / 2 = t := by omega
    constructor
    · rw [List.getElem?_drop, Nat.mul_comm x, own _ ⟨x, by omega, t, column, .inl rfl⟩,
        Nat.add_sub_cancel_left, cell_div (by omega), cell_mod (by omega), if_pos (by omega), half]
    · rw [List.getElem?_drop, Nat.mul_comm x, own _ ⟨x, by omega, t, column, .inr rfl⟩,
        Nat.add_sub_cancel_left, cell_div (by omega), cell_mod (by omega), if_neg (by omega), half']
  · rintro ⟨j, row, t, column, rfl | rfl⟩
    · have inside := cell_lt row (by omega : 2 * t < ido - 1)
      omega
    · have inside := cell_lt row (by omega : 2 * t + 1 < ido - 1)
      omega

theorem fillTws_eq {h : Nat} (factored : n = l1 * (2 * h + 1) * ido) (positive : 0 < n)
    (table : Cfftp.Table n twid) {tws : Nat} {mem : List ℝ}
    (room : tws + 2 * (2 * h + 1) ≤ mem.length) :
    ∃ mem', fillTws twid n (2 * h + 1) tws mem = some mem' ∧ mem'.length = mem.length ∧
      AngleTable (2 * h + 1) (mem'.drop tws) ∧
      ∀ p, p < mem.length → p < tws ∨ tws + 2 * (2 * h + 1) ≤ p → mem'[p]? = mem[p]? := by
  have unit : 0 < l1 * ido := by
    refine Nat.pos_of_ne_zero fun none => positive.ne' ?_
    rw [factored, Nat.mul_right_comm, none, Nat.zero_mul]
  have split : n = l1 * ido * (2 * h + 1) := by rw [factored, Nat.mul_right_comm]
  have width : n / (2 * h + 1) = l1 * ido := by
    rw [split, Nat.mul_div_cancel _ (Nat.succ_pos (2 * h))]
  have entry : ∀ m, m ≤ 2 * h + 1 →
      twid.get (m * (l1 * ido)) = some (ofComplex (twiddle false (2 * h + 1) m)) := by
    intro m inside
    rw [table _ (by rw [split, Nat.mul_comm]; exact Nat.mul_le_mul_left _ inside), split,
      Nat.mul_comm m, twiddle_cancel unit]
  obtain ⟨mem', run, size, own, keeps⟩ := fills_own (n := mem.length)
    (f := fillTws twid n (2 * h + 1) tws)
    (fun p => ∃ m, m < 2 * h + 1 ∧ (p = tws + 2 * m ∨ p = tws + (2 * m + 1)))
    (fun p => if (p - tws) % 2 = 0 then (twiddle false (2 * h + 1) ((p - tws) / 2)).re
      else (twiddle false (2 * h + 1) ((p - tws) / 2)).im)
    (by
      intro final agrees
      have cosine : ∀ m, m < 2 * h + 1 →
          final (tws + 2 * m) = (twiddle false (2 * h + 1) m).re := by
        intro m inside
        have half : 2 * m / 2 = m := by omega
        rw [agrees _ ⟨m, inside, .inl rfl⟩, Nat.add_sub_cancel_left, if_pos (by omega), half]
      have sine : ∀ m, m < 2 * h + 1 →
          final (tws + (2 * m + 1)) = (twiddle false (2 * h + 1) m).im := by
        intro m inside
        have half : (2 * m + 1) / 2 = m := by omega
        rw [agrees _ ⟨m, inside, .inr rfl⟩, Nat.add_sub_cancel_left, if_neg (by omega), half]
      have half : (2 * h + 1) / 2 = h := by omega
      have fills : Fills mem.length final
          (fun p => p = tws ∨ p = tws + 1 ∨ ∃ m, m < h ∧
            (p = tws + (2 * m + 2) ∨ p = tws + (2 * m + 2 + 1) ∨
              p = tws + (2 * (2 * h + 1) - 2 - 2 * m) ∨
              p = tws + (2 * (2 * h + 1) - 2 - 2 * m + 1)))
          (fillTws twid n (2 * h + 1) tws) := by
        refine Fills.bind (fills_storeCell (by omega) ?_)
          (Fills.bind (fills_storeCell (by omega) ?_) ?_)
        · have first := cosine 0 (Nat.succ_pos (2 * h))
          rw [twiddle_zero, Complex.one_re, Nat.mul_zero, Nat.add_zero] at first
          exact first.symm
        · have first := sine 0 (Nat.succ_pos (2 * h))
          rw [twiddle_zero, Complex.one_im, Nat.mul_zero, Nat.zero_add] at first
          exact first.symm
        · rw [half]
          refine fills_forLoop fun m low => ?_
          have index : (2 * m + 2) / 2 = m + 1 := by omega
          have double : 2 * m + 2 = 2 * (m + 1) := by ring
          have across : 2 * (2 * h + 1) - 2 - 2 * m = 2 * (2 * h - m) := by omega
          -- the angle on the other side
          have mirrored : twiddle false (2 * h + 1) (2 * h - m) =
              (starRingEnd ℂ) (twiddle false (2 * h + 1) (m + 1)) :=
            twiddle_eq_conj (Nat.succ_pos (2 * h)) (by omega : 2 * h - m + (m + 1) = (2 * h + 1) * 1)
          have cosine' := cosine (2 * h - m) (by omega)
          have sine' := sine (2 * h - m) (by omega)
          rw [mirrored, Complex.conj_re] at cosine'
          rw [mirrored, Complex.conj_im] at sine'
          simp only [width, index, entry (m + 1) (by omega), Option.bind_eq_bind, Option.bind_some]
          rw [across, double]
          exact (fills_storeCell (by omega) (cosine (m + 1) (by omega)).symm).bind
            ((fills_storeCell (by omega) (sine (m + 1) (by omega)).symm).bind
              ((fills_storeCell (by omega) cosine'.symm).bind
                (fills_storeCell (by omega) sine'.symm)))
      refine fills.mono ?_
      rintro p ⟨m, inside, side⟩
      rcases Nat.eq_zero_or_pos m with rfl | other
      · rcases side with rfl | rfl
        · exact .inl rfl
        · exact .inr (.inl rfl)
      · rcases Nat.lt_or_ge h m with high | low
        · exact .inr (.inr ⟨2 * h - m, by omega, by omega⟩)
        · exact .inr (.inr ⟨m - 1, by omega, by omega⟩)) rfl
  refine ⟨mem', run, size, ?_, fun p below outside => keeps p below ?_⟩
  · intro m inside
    have half : 2 * m / 2 = m := by omega
    have half' : (2 * m + 1) / 2 = m := by omega
    constructor
    · rw [List.getElem?_drop, own _ ⟨m, inside, .inl rfl⟩, Nat.add_sub_cancel_left,
        if_pos (by omega), half]
    · rw [List.getElem?_drop, own _ ⟨m, inside, .inr rfl⟩, Nat.add_sub_cancel_left,
        if_neg (by omega), half']
  · rintro ⟨m, inside, rfl | rfl⟩
    · omega
    · omega

/-- The memory holds the twiddle factors of a factor that comes after factors with the
product `l1`. -/
structure Entry (n l1 : Nat) (mem : List ℝ) (d : RfctData) : Prop where
  twiddles : RealTwiddles n l1 d.fct (n / (l1 * d.fct)) (pointee mem d.tw)
  table : 5 < d.fct → AngleTable d.fct (pointee mem d.tws)

theorem realTwiddles_mono {mem mem' : List ℝ} {tw : Nat}
    (old : RealTwiddles n l1 ip ido (mem.drop tw))
    (same : ∀ p, p < tw + (ip - 1) * (ido - 1) → mem'[p]? = mem[p]?) :
    RealTwiddles n l1 ip ido (mem'.drop tw) := by
  intro x t row column
  have left := cell_lt (by omega : x < ip - 1) (by omega : 2 * t < ido - 1)
  have right := cell_lt (by omega : x < ip - 1) (by omega : 2 * t + 1 < ido - 1)
  obtain ⟨real, imag⟩ := old x t row column
  rw [List.getElem?_drop, Nat.mul_comm x] at real imag ⊢
  rw [List.getElem?_drop, same _ (by omega), same _ (by omega)]
  exact ⟨real, imag⟩

/-- The twiddle factors of one factor, unless it is the last. -/
theorem firstPart_eq (table : Cfftp.Table n twid) {s : TwState ℝ} (count : Nat)
    (factored : n = s.l1 * ip * ido) (last : ¬ s.fact.length < count - 1 → ido = 1)
    (room : s.ptr + (ip - 1) * (ido - 1) ≤ s.mem.length) :
    ∃ tw mem, (if decide (s.fact.length < count - 1) then some s.ptr else none) = tw ∧
      (if decide (s.fact.length < count - 1) then s.ptr + (ip - 1) * (ido - 1) else s.ptr) =
        s.ptr + (ip - 1) * (ido - 1) ∧
      fillTwIf (decide (s.fact.length < count - 1)) twid s.l1 ip ido s.ptr s.mem = some mem ∧
      mem.length = s.mem.length ∧
      (∀ p, p < s.ptr → mem[p]? = s.mem[p]?) ∧
      ∀ mem', (∀ p, p < s.ptr + (ip - 1) * (ido - 1) → mem'[p]? = mem[p]?) →
        RealTwiddles n s.l1 ip ido (pointee mem' tw) := by
  by_cases more : s.fact.length < count - 1
  · obtain ⟨mem, run, size, twiddles, keeps⟩ := fillTw_eq factored table room
    have yes := decide_eq_true more
    exact ⟨_, mem, if_pos yes, if_pos yes, (if_pos yes).trans run, size,
      fun p below => keeps p (by omega) (.inl below),
      fun mem' same => realTwiddles_mono twiddles same⟩
  · have no : ¬ decide (s.fact.length < count - 1) = true := fun yes => more (of_decide_eq_true yes)
    have one := last more
    subst one
    exact ⟨_, s.mem, if_neg no, if_neg no, if_neg no, rfl, fun _ _ => rfl,
      fun mem' _ x t _ absurd => (Nat.not_lt_zero t absurd).elim⟩

/-- One iteration writes the entry of its factor behind the others. -/
theorem compTwiddleStep_eq (table : Cfftp.Table n twid) (positive : 0 < n) {s : TwState ℝ}
    (count : Nat) (factored : n = s.l1 * ip * ido)
    (last : ¬ s.fact.length < count - 1 → ido = 1) (odd : 5 < ip → ¬ 2 ∣ ip)
    (room : s.ptr + twsizeOf n s.l1 ip ≤ s.mem.length) :
    ∃ s' d, compTwiddleStep n count twid s ip = some s' ∧ s'.l1 = s.l1 * ip ∧
      s'.ptr = s.ptr + twsizeOf n s.l1 ip ∧ s'.mem.length = s.mem.length ∧
      s'.fact = s.fact ++ [d] ∧ d.fct = ip ∧
      (∀ p, p < s.ptr → s'.mem[p]? = s.mem[p]?) ∧
      ∀ mem', (∀ p, p < s'.ptr → mem'[p]? = s'.mem[p]?) → Entry n s.l1 mem' d := by
  have narrow : n / (s.l1 * ip) = ido := (widths factored positive).2.2.2
  have size : twsizeOf n s.l1 ip = (ip - 1) * (ido - 1) + if 5 < ip then 2 * ip else 0 := by
    rw [twsizeOf, narrow]
  obtain ⟨tw, mem₁, twEq, ptrEq, run₁, length₁, keeps₁, twiddles⟩ :=
    firstPart_eq table count factored last (by omega)
  by_cases large : 5 < ip
  · rw [if_pos large] at size
    obtain ⟨h, rfl⟩ : ∃ h, ip = 2 * h + 1 := ⟨ip / 2, by have other := odd large; omega⟩
    obtain ⟨mem₂, run₂, length₂, tws, keeps₂⟩ := fillTws_eq factored positive table
      (by omega : s.ptr + (2 * h + 1 - 1) * (ido - 1) + 2 * (2 * h + 1) ≤ mem₁.length)
    have old : ∀ p, p < s.ptr + (2 * h + 1 - 1) * (ido - 1) → mem₂[p]? = mem₁[p]? :=
      fun p below => keeps₂ p (by omega) (.inl below)
    refine ⟨⟨mem₂, s.ptr + (2 * h + 1 - 1) * (ido - 1) + 2 * (2 * h + 1), s.l1 * (2 * h + 1),
      s.fact ++ [⟨2 * h + 1, tw, some (s.ptr + (2 * h + 1 - 1) * (ido - 1))⟩]⟩,
      ⟨2 * h + 1, tw, some (s.ptr + (2 * h + 1 - 1) * (ido - 1))⟩, ?_, rfl, by dsimp only; omega,
      length₂.trans length₁, rfl, rfl, fun p below => ?_, fun mem' same => ?_⟩
    · simp only [compTwiddleStep, narrow, twEq, ptrEq, run₁, run₂, if_pos large,
        Option.bind_eq_bind, Option.bind_some]
    · rw [old p (by omega), keeps₁ p (by omega)]
    · dsimp only at same
      refine ⟨?_, fun _ => ?_⟩
      · dsimp only
        rw [narrow]
        exact twiddles mem' fun p below => (same p (by omega)).trans (old p below)
      · intro m below
        dsimp only at below
        obtain ⟨cosine, sine⟩ := tws m below
        change (mem'.drop _)[_]? = _ ∧ (mem'.drop _)[_]? = _
        rw [List.getElem?_drop] at cosine sine ⊢
        rw [List.getElem?_drop, same _ (by omega), same _ (by omega)]
        exact ⟨cosine, sine⟩
  · rw [if_neg large, Nat.add_zero] at size
    refine ⟨⟨mem₁, s.ptr + (ip - 1) * (ido - 1), s.l1 * ip, s.fact ++ [⟨ip, tw, none⟩]⟩,
      ⟨ip, tw, none⟩, ?_, rfl, by dsimp only; omega, length₁, rfl, rfl, keeps₁,
      fun mem' same => ⟨?_, fun absurd => (large absurd).elim⟩⟩
    · simp only [compTwiddleStep, narrow, twEq, ptrEq, run₁, if_neg large, Option.bind_eq_bind,
        Option.bind_some]
    · dsimp only
      rw [narrow]
      exact twiddles mem' same

/-- The entries of a list of factors. -/
def Entries (n : Nat) (mem : List ℝ) : Nat → List RfctData → Prop
  | _, [] => True
  | l1, d :: ds => Entry n l1 mem d ∧ Entries n mem (l1 * d.fct) ds

theorem twsize_eq (n : Nat) (fact : List Nat) :
    twsize n fact = sizeFrom (twsizeOf n) 1 fact := by
  rw [twsize, foldl_sizeFrom, Nat.zero_add]

/-- The array of twiddle factors is at most four times as long as the transform. -/
theorem twsize_le {n : Nat} {fact : List Nat} (positive : 0 < n) (product : fact.prod = n)
    (factors : RealFactors fact) : twsize n fact ≤ 4 * n := by
  have entry_le : ∀ l1 ip, twsizeOf n l1 ip ≤ (ip - 1) * (n / (l1 * ip) - 1) + 2 * ip := by
    intro l1 ip
    rw [twsizeOf]
    split
    · omega
    · omega
  rw [twsize_eq]
  have bound := sizeFrom_le Nat.two_pos entry_le positive fact 1 (by rw [product, Nat.one_mul])
    (two_le_of_mem factors)
  rwa [product] at bound

/-- A factor above five is odd. -/
theorem odd_of_large {fact : List Nat} (factors : RealFactors (ip :: fact)) (large : 5 < ip) :
    ¬ 2 ∣ ip := by
  obtain ⟨rfl | rfl | ⟨-, odd, -⟩, -⟩ := factors
  · omega
  · omega
  · exact odd

/-- The whole loop: an array of the size `twsize` has room for the entries of all factors. -/
theorem compTwiddle_eq (table : Cfftp.Table n twid) (positive : 0 < n) (count : Nat)
    (fact : List Nat) :
    ∀ s : TwState ℝ, n = s.l1 * fact.prod → count = s.fact.length + fact.length →
      RealFactors fact → s.ptr + sizeFrom (twsizeOf n) s.l1 fact ≤ s.mem.length →
      ∃ s' ds, fact.foldlM (compTwiddleStep n count twid) s = some s' ∧ s'.fact = s.fact ++ ds ∧
        ds.map RfctData.fct = fact ∧ (∀ p, p < s.ptr → s'.mem[p]? = s.mem[p]?) ∧
        Entries n s'.mem s.l1 ds := by
  induction fact with
  | nil =>
    intro s _ _ _ _
    exact ⟨s, [], rfl, (List.append_nil _).symm, rfl, fun _ _ => rfl, trivial⟩
  | cons ip fact ih =>
    intro s factored counted factors room
    rw [List.prod_cons, ← Nat.mul_assoc] at factored
    rw [List.length_cons] at counted
    rw [sizeFrom] at room
    have last : ¬ s.fact.length < count - 1 → fact.prod = 1 := by
      intro none
      have empty : fact = [] := List.eq_nil_of_length_eq_zero (by omega)
      rw [empty, List.prod_nil]
    obtain ⟨s₁, d, step, l1Eq, ptrEq, lengthEq, factEq, fctEq, keeps, entry⟩ :=
      compTwiddleStep_eq table positive count factored last (odd_of_large factors) (by omega)
    obtain ⟨s₂, ds, run, factEq', fcts, keeps', entries⟩ :=
      ih s₁ (by rw [l1Eq, factored])
        (by rw [factEq, List.length_append, List.length_singleton, counted]; omega) factors.2
        (by rw [ptrEq, lengthEq, l1Eq]; omega)
    refine ⟨s₂, d :: ds, ?_, ?_, ?_, ?_, ?_, ?_⟩
    · rw [List.foldlM_cons, step]
      exact run
    · rw [factEq', factEq, List.append_assoc]
      rfl
    · rw [List.map_cons, fctEq, fcts]
    · intro p below
      rw [keeps' p (by omega), keeps p below]
    · exact entry s₂.mem keeps'
    · rw [fctEq, ← l1Eq]
      exact entries

end Twiddles

/-! ## The passes -/

/-- What a pass needs to know about its factor and the length of its rows. -/
def RealFactor (ip ido : Nat) : Prop := ip = 2 ∨ ip = 4 ∨ (ip.Prime ∧ ¬ 2 ∣ ip ∧ ¬ 2 ∣ ido)

section Passes

variable {n l1 ido : Nat} {x : Nat → ℝ} {X : Nat → ℂ} {mem : List ℝ} {d : RfctData}

theorem odd_of_radix {ip : Nat} (factor : RealFactor ip ido) (two : ip ≠ 2) (four : ip ≠ 4) :
    ip.Prime ∧ ¬ 2 ∣ ip ∧ ido % 2 = 1 := by
  obtain ⟨prime, odd, rows⟩ := (factor.resolve_left two).resolve_left four
  exact ⟨prime, odd, by omega⟩

theorem prime_large {ip : Nat} (prime : ip.Prime) (odd : ¬ 2 ∣ ip) (three : ip ≠ 3) (five : ip ≠ 5) :
    5 < ip := by
  have least := prime.two_le
  omega

/-- A pass that writes its result to the other array. -/
theorem swapped_forward {first : (Nat → ℝ) → List ℝ} {middle : Option ((Nat → ℝ) → List ℝ)}
    {rest : (Nat → Cmplx ℝ) → List (Cmplx ℝ)} {ip : Nat} {p2 wa : List ℝ} (x : Nat → ℝ)
    (factored : n = l1 * ip * ido) (positive : 0 < n) (firstRadix : FirstRadix ip first)
    (middleRadix : ido % 2 = 0 → ∃ body, middle = some body ∧ MiddleRadix ip body)
    (restRadix : RestRadix ip rest) (twiddles : RealTwiddles n l1 ip ido wa)
    (size : p2.length = n) :
    ∃ p2', (radf ip first middle rest ido l1 (spectra n (l1 * ip) x) p2 wa).map
        (·, spectra n (l1 * ip) x) = some (spectra n l1 x, p2') ∧ p2'.length = n := by
  rw [radf_eq x factored positive firstRadix middleRadix restRadix twiddles size]
  refine ⟨_, rfl, ?_⟩
  obtain ⟨-, -, -, narrow⟩ := widths factored positive
  rw [spectra, length_grid, narrow, factored]

theorem swapped_backward {first : (Nat → ℝ) → List ℝ} {middle : Option ((Nat → ℝ) → List ℝ)}
    {rest : (Nat → Cmplx ℝ) → List (Cmplx ℝ)} {ip : Nat} {p2 wa : List ℝ}
    (conjugate : Conjugate n X) (factored : n = l1 * ip * ido) (positive : 0 < n)
    (firstInverse : FirstInverse ip first)
    (middleInverse : ido % 2 = 0 → ∃ body, middle = some body ∧ MiddleInverse ip body)
    (restInverse : RestInverse ip rest) (twiddles : RealTwiddles n l1 ip ido wa)
    (size : p2.length = n) :
    ∃ p2', (radb ip first middle rest ido l1 (stageCells n l1 X) p2 wa).map
        (·, stageCells n l1 X) = some (stageCells n (l1 * ip) X, p2') ∧ p2'.length = n := by
  rw [radb_eq conjugate factored positive firstInverse middleInverse restInverse twiddles size]
  exact ⟨_, rfl, length_stageCells factored positive⟩

/-- The forward pass of one factor goes one stage down. -/
theorem forwardPass_eq (x : Nat → ℝ) (factored : n = l1 * d.fct * ido) (positive : 0 < n)
    (entry : Entry n l1 mem d) (factor : RealFactor d.fct ido) {p2 : List ℝ}
    (size : p2.length = n) :
    ∃ p2', forwardPass Trig.real mem d ido l1 (spectra n (l1 * d.fct) x) p2 =
        some (spectra n l1 x, p2') ∧ p2'.length = n := by
  have narrow := (widths factored positive).2.2.2
  have twiddles := entry.twiddles
  rw [narrow] at twiddles
  rw [forwardPass]
  by_cases four : d.fct = 4
  · rw [if_pos four]
    rw [four] at factored twiddles ⊢
    exact swapped_forward x factored positive first4 (fun _ => ⟨_, rfl, middle4⟩) rest4 twiddles size
  rw [if_neg four]
  by_cases two : d.fct = 2
  · rw [if_pos two]
    rw [two] at factored twiddles ⊢
    exact swapped_forward x factored positive first2 (fun _ => ⟨_, rfl, middle2⟩) rest2 twiddles size
  rw [if_neg two]
  obtain ⟨prime, odd, rows⟩ := odd_of_radix factor two four
  have noMiddle : ido % 2 = 0 → ∃ body, none = some body ∧ MiddleRadix d.fct body :=
    fun even => absurd even (by omega)
  by_cases three : d.fct = 3
  · rw [if_pos three]
    rw [three] at factored twiddles noMiddle ⊢
    exact swapped_forward x factored positive first3 noMiddle rest3 twiddles size
  rw [if_neg three]
  by_cases five : d.fct = 5
  · rw [if_pos five]
    rw [five] at factored twiddles noMiddle ⊢
    exact swapped_forward x factored positive first5 noMiddle rest5 twiddles size
  rw [if_neg five]
  have large := prime_large prime odd three five
  have table := entry.table large
  obtain ⟨h, half⟩ : ∃ h, d.fct = 2 * h + 1 := ⟨d.fct / 2, by omega⟩
  rw [half] at factored twiddles table large ⊢
  exact radfg_eq x factored positive rows (by omega) twiddles table size

/-- The backward pass of one factor goes one stage up. -/
theorem backwardPass_eq (conjugate : Conjugate n X) (factored : n = l1 * d.fct * ido)
    (positive : 0 < n) (entry : Entry n l1 mem d) (factor : RealFactor d.fct ido) {p2 : List ℝ}
    (size : p2.length = n) :
    ∃ p2', backwardPass Trig.real mem d ido l1 (stageCells n l1 X) p2 =
        some (stageCells n (l1 * d.fct) X, p2') ∧ p2'.length = n := by
  have narrow := (widths factored positive).2.2.2
  have twiddles := entry.twiddles
  rw [narrow] at twiddles
  rw [backwardPass]
  by_cases four : d.fct = 4
  · rw [if_pos four]
    rw [four] at factored twiddles ⊢
    exact swapped_backward conjugate factored positive firstBack4
      (fun _ => ⟨_, rfl, middleBack4⟩) restBack4 twiddles size
  rw [if_neg four]
  by_cases two : d.fct = 2
  · rw [if_pos two]
    rw [two] at factored twiddles ⊢
    exact swapped_backward conjugate factored positive firstBack2
      (fun _ => ⟨_, rfl, middleBack2⟩) restBack2 twiddles size
  rw [if_neg two]
  obtain ⟨prime, odd, rows⟩ := odd_of_radix factor two four
  have noMiddle : ido % 2 = 0 → ∃ body, none = some body ∧ MiddleInverse d.fct body :=
    fun even => absurd even (by omega)
  by_cases three : d.fct = 3
  · rw [if_pos three]
    rw [three] at factored twiddles noMiddle ⊢
    exact swapped_backward conjugate factored positive firstBack3 noMiddle restBack3 twiddles size
  rw [if_neg three]
  by_cases five : d.fct = 5
  · rw [if_pos five]
    rw [five] at factored twiddles noMiddle ⊢
    exact swapped_backward conjugate factored positive firstBack5 noMiddle restBack5 twiddles size
  rw [if_neg five]
  have large := prime_large prime odd three five
  have table := entry.table large
  obtain ⟨h, half⟩ : ∃ h, d.fct = 2 * h + 1 := ⟨d.fct / 2, by omega⟩
  rw [half] at factored twiddles table prime large ⊢
  obtain ⟨cc', run, size'⟩ := radbg_eq conjugate factored positive rows prime (by omega) twiddles
    table size
  rw [run]
  exact ⟨cc', rfl, size'⟩

/-- All forward passes, from the last factor to the first. -/
theorem forwardPasses_eq (x : Nat → ℝ) {plan : Rfftp ℝ} (positive : 0 < plan.length)
    (ds : List RfctData) :
    ∀ (l1 : Nat) (p2 : List ℝ), plan.length = l1 * (ds.map RfctData.fct).prod →
      p2.length = plan.length → Entries plan.length plan.mem l1 ds →
      RealFactors (ds.map RfctData.fct) →
      ∃ p2', ds.reverse.foldlM (forwardStep Trig.real plan)
          (spectra plan.length plan.length x, p2, plan.length) =
        some (spectra plan.length l1 x, p2', l1) ∧ p2'.length = plan.length := by
  induction ds with
  | nil =>
    intro l1 p2 factored size _ _
    rw [List.map_nil, List.prod_nil, Nat.mul_one] at factored
    exact ⟨p2, by rw [← factored]; rfl, size⟩
  | cons d ds ih =>
    intro l1 p2 factored size entries factors
    rw [List.map_cons, List.prod_cons, ← Nat.mul_assoc] at factored
    obtain ⟨hl, hp, -, narrow⟩ := widths factored positive
    obtain ⟨p2', runs, size'⟩ := ih (l1 * d.fct) p2 factored size entries.2 factors.2
    obtain ⟨p2'', run, size''⟩ := forwardPass_eq x factored positive entries.1 factors.1 size'
    refine ⟨p2'', ?_, size''⟩
    rw [List.reverse_cons, List.foldlM_append, runs]
    change (forwardStep Trig.real plan _ d).bind some = _
    rw [forwardStep]
    dsimp only
    rw [narrow, Nat.mul_div_cancel _ hp, run]
    rfl

/-- All backward passes, from the first factor to the last. -/
theorem backwardPasses_eq {plan : Rfftp ℝ} (conjugate : Conjugate plan.length X)
    (positive : 0 < plan.length) (ds : List RfctData) :
    ∀ (l1 : Nat) (p2 : List ℝ), plan.length = l1 * (ds.map RfctData.fct).prod →
      p2.length = plan.length → Entries plan.length plan.mem l1 ds →
      RealFactors (ds.map RfctData.fct) →
      ∃ s, ds.foldlM (backwardStep Trig.real plan) (stageCells plan.length l1 X, p2, l1) =
        some s ∧ s.1 = stageCells plan.length plan.length X := by
  induction ds with
  | nil =>
    intro l1 p2 factored _ _ _
    rw [List.map_nil, List.prod_nil, Nat.mul_one] at factored
    exact ⟨_, rfl, by rw [factored]⟩
  | cons d ds ih =>
    intro l1 p2 factored size entries factors
    rw [List.map_cons, List.prod_cons, ← Nat.mul_assoc] at factored
    have narrow := (widths factored positive).2.2.2
    obtain ⟨p2', run, size'⟩ :=
      backwardPass_eq conjugate factored positive entries.1 factors.1 size
    obtain ⟨s, runs, result⟩ := ih (l1 * d.fct) p2' factored size' entries.2 factors.2
    refine ⟨s, ?_, result⟩
    rw [List.foldlM_cons, backwardStep]
    dsimp only
    rw [Nat.mul_comm d.fct, narrow, run]
    exact runs

end Passes

/-! ## The transform -/

/-- A constructed transform: the factors multiply to the length, and the memory holds their
twiddle factors. -/
structure Sound (plan : Rfftp ℝ) : Prop where
  positive : 0 < plan.length
  entries : Entries plan.length plan.mem 1 plan.fact
  product : plan.length ≠ 1 → (plan.fact.map RfctData.fct).prod = plan.length
  factors : RealFactors (plan.fact.map RfctData.fct)

theorem exists_make {n : Nat} (positive : 0 < n) :
    ∃ plan, make Trig.real n = some plan ∧ plan.length = n ∧ plan.Sound := by
  by_cases one : n = 1
  · refine ⟨⟨1, [], []⟩, ?_, one.symm, Nat.one_pos, trivial, fun other => (other rfl).elim, trivial⟩
    rw [make, if_neg positive.ne', if_pos one]
  · obtain ⟨fact, factored, product, factors⟩ := factorize_spec positive
    obtain ⟨twid, made, size, sound⟩ := SinCos.exists_make positive
    have table : Cfftp.Table n twid := fun idx inside => by
      rw [← size]
      exact sound.get_eq (size.symm ▸ positive) (size.symm ▸ inside)
    obtain ⟨s, ds, run, factEq, fcts, -, entries⟩ := compTwiddle_eq table positive fact.length fact
      ⟨List.replicate (twsize n fact) 0, 0, 1, []⟩ (by rw [product, Nat.one_mul])
      (by rw [List.length_nil, Nat.zero_add]) factors
      (by rw [List.length_replicate, twsize_eq, Nat.zero_add])
    rw [List.nil_append] at factEq
    refine ⟨⟨n, s.mem, s.fact⟩, ?_, rfl, positive, ?_, fun _ => ?_, ?_⟩
    · simp only [make, if_neg positive.ne', if_neg one, factored, made, run,
        Option.bind_eq_bind, Option.bind_some]
    · rw [factEq]
      exact entries
    · rw [factEq, fcts, product]
    · rw [factEq, fcts]
      exact factors

section Ends

variable {n : Nat}

/-- Spectra of single samples are the samples. -/
theorem spectra_self (positive : 0 < n) (x : Nat → ℝ) : spectra n n x = tabulate n x := by
  have one := Nat.div_self positive
  refine eq_tabulate (by rw [spectra, length_grid, one, Nat.mul_one]) fun k below => ?_
  have cell := getElem?_grid (F := fun k => halfCell (partSpectrum n n x k)) below
    (one.symm ▸ Nat.one_pos : 0 < n / n)
  rw [one, Nat.one_mul, Nat.zero_add, halfCell_zero, partSpectrum, one, dft_zero,
    Finset.sum_range_one, Nat.mul_zero, Nat.add_zero, Complex.ofReal_re] at cell
  rw [spectra, one]
  exact cell

theorem spectra_one (x : Nat → ℝ) :
    spectra n 1 x = tabulate n (halfCell (dft true n fun j => x j)) := by
  refine eq_tabulate (by rw [spectra, length_grid, Nat.div_one, Nat.one_mul]) fun p below => ?_
  have cell := getElem?_grid (F := fun k => halfCell (partSpectrum n 1 x k)) Nat.one_pos
    ((Nat.div_one n).symm ▸ below : p < n / 1)
  rw [Nat.mul_zero, Nat.add_zero, partSpectrum, Nat.div_one] at cell
  simp only [Nat.zero_add, Nat.one_mul] at cell
  rw [spectra, Nat.div_one]
  exact cell

theorem stageCells_one (X : Nat → ℂ) : stageCells n 1 X = tabulate n (halfCell X) := by
  refine eq_tabulate (by rw [stageCells, length_grid, Nat.div_one, Nat.one_mul]) fun p below => ?_
  have cell := getElem?_grid (F := fun k => halfCell fun q => stage false n 1 X q k) Nat.one_pos
    ((Nat.div_one n).symm ▸ below : p < n / 1)
  rw [Nat.mul_zero, Nat.add_zero] at cell
  simp only [stage_one] at cell
  exact cell

theorem stageCells_self (positive : 0 < n) (X : Nat → ℂ) :
    stageCells n n X = tabulate n fun k => (dft false n X k).re := by
  have one := Nat.div_self positive
  refine eq_tabulate (by rw [stageCells, length_grid, one, Nat.mul_one]) fun k below => ?_
  have cell := getElem?_grid (F := fun k => halfCell fun q => stage false n n X q k) below
    (one.symm ▸ Nat.one_pos : 0 < n / n)
  rw [one, Nat.one_mul, Nat.zero_add, halfCell_zero, stage_self positive] at cell
  rw [stageCells, one]
  exact cell

end Ends

/-- `copy_and_norm`. -/
theorem norm_eq (n : Nat) (f : Nat → ℝ) (fct : ℝ) :
    (if fct = 1 then tabulate n f else (tabulate n f).map (fct * ·)) =
      tabulate n fun k => fct * f k := by
  split
  · rename_i unit
    exact tabulate_congr fun k _ => by rw [unit, one_mul]
  · exact map_tabulate _

/-- The forward transform of a signal, in half-complex order. -/
theorem Sound.exec_forward {plan : Rfftp ℝ} (sound : plan.Sound) (x : Nat → ℝ) (fct : ℝ) :
    plan.exec Trig.real (tabulate plan.length x) fct true =
      some (tabulate plan.length fun p => fct * halfCell (dft true plan.length fun j => x j) p) := by
  rw [exec]
  split
  · rename_i one
    rw [one]
    change storeCell [x 0] 0 (x 0 * fct) = some [fct * halfCell (dft true 1 fun j => x j) 0]
    rw [halfCell_zero, dft_zero, Finset.sum_range_one, Complex.ofReal_re, mul_comm]
    rfl
  · rename_i other
    obtain ⟨p2', run, -⟩ := forwardPasses_eq x sound.positive plan.fact 1
      (List.replicate plan.length 0) (by rw [sound.product other, Nat.one_mul])
      List.length_replicate sound.entries sound.factors
    rw [spectra_self sound.positive] at run
    simp only [if_true, run, Option.bind_eq_bind, Option.bind_some, spectra_one, norm_eq]

/-- The backward transform of a symmetric spectrum in half-complex order. -/
theorem Sound.exec_backward {plan : Rfftp ℝ} (sound : plan.Sound) {X : Nat → ℂ}
    (conjugate : Conjugate plan.length X) (fct : ℝ) :
    plan.exec Trig.real (tabulate plan.length (halfCell X)) fct false =
      some (tabulate plan.length fun k => fct * (dft false plan.length X k).re) := by
  rw [exec]
  split
  · rename_i one
    rw [one]
    change storeCell [halfCell X 0] 0 (halfCell X 0 * fct) = some [fct * (dft false 1 X 0).re]
    rw [halfCell_zero, dft_zero, Finset.sum_range_one, mul_comm]
    rfl
  · rename_i other
    obtain ⟨s, run, result⟩ := backwardPasses_eq conjugate sound.positive plan.fact 1
      (List.replicate plan.length 0) (by rw [sound.product other, Nat.one_mul])
      List.length_replicate sound.entries sound.factors
    rw [stageCells_one] at run
    rw [stageCells_self sound.positive] at result
    simp only [Bool.false_eq_true, if_false, run, result, Option.bind_eq_bind, Option.bind_some,
      norm_eq]

end Rfftp

end DspDispatch.Pocketfft
