import DspDispatch.Pocketfft.Factors
import DspDispatch.Pocketfft.GeneralPass

/-!
# The complex transform of pocketfft (`cfftp`)

The constructor takes the length apart and computes the twiddle factors of all passes into
one array, which it has made as long as `twsize` says; each factor keeps the places of its
own. `pass_all` makes one pass for each factor, between the array of the caller and a
second one.

`exec_eq` says that a constructed transform computes the discrete Fourier transform times
the factor, whatever the length.
-/

namespace DspDispatch.Pocketfft

open Kit

/-- `fctdata`: a factor and the places of its twiddle factors in `mem`. -/
structure FctData where
  fct : Nat
  tw : Nat
  tws : Option Nat
deriving DecidableEq, Repr

/-- `cfftp<T0>`. -/
structure Cfftp (K : Type) where
  length : Nat
  mem : List (Cmplx K)
  fact : List FctData

namespace Cfftp

/-- What one factor adds to `twsize`. -/
def twsizeOf (length l1 ip : Nat) : Nat :=
  let ido := length / (l1 * ip)
  (ip - 1) * (ido - 1) + if 11 < ip then ip else 0

/-- `twsize`; the state of the loop is `twsize` and `l1`. -/
def twsize (length : Nat) (fact : List Nat) : Nat :=
  (fact.foldl (fun s ip => (s.1 + twsizeOf length s.2 ip, s.2 * ip)) (0, 1)).1

/-- The variables of `comp_twiddle`. -/
structure TwState (K : Type) where
  mem : List (Cmplx K)
  memofs : Nat
  l1 : Nat
  fact : List FctData

section Model

variable {K : Type} [Field K]

/-- The loops over `fact[k].tw`. -/
def fillTw (twiddle : SinCos K) (l1 ip ido tw : Nat) (mem : List (Cmplx K)) :
    Option (List (Cmplx K)) :=
  forLoop (ip - 1) (fun j => forLoop (ido - 1) fun i mem => do
    let v ← twiddle.get ((j + 1) * l1 * (i + 1))
    storeCell mem (tw + (i + (ido - 1) * j)) v) mem

/-- The loop over `fact[k].tws`. -/
def fillTws (twiddle : SinCos K) (l1 ip ido tws : Nat) (mem : List (Cmplx K)) :
    Option (List (Cmplx K)) :=
  forLoop ip (fun j mem => do
    let v ← twiddle.get (j * l1 * ido)
    storeCell mem (tws + j) v) mem

/-- One iteration of `comp_twiddle`. -/
def compTwiddleStep (length : Nat) (twiddle : SinCos K) (s : TwState K) (ip : Nat) :
    Option (TwState K) := do
  let ido := length / (s.l1 * ip)
  let tw := s.memofs
  let memofs := s.memofs + (ip - 1) * (ido - 1)
  let mem ← fillTw twiddle s.l1 ip ido tw s.mem
  if 11 < ip then
    let mem ← fillTws twiddle s.l1 ip ido memofs mem
    some ⟨mem, memofs + ip, s.l1 * ip, s.fact ++ [⟨ip, tw, some memofs⟩]⟩
  else some ⟨mem, memofs, s.l1 * ip, s.fact ++ [⟨ip, tw, none⟩]⟩

/-- The constructor; `none` is an exception. -/
def make (t : Trig K) (length : Nat) : Option (Cfftp K) := do
  if length = 0 then none
  else if length = 1 then some ⟨1, [], []⟩
  else
    let fact ← factorize length
    let twiddle ← SinCos.make t length
    let s ← fact.foldlM (compTwiddleStep length twiddle)
      ⟨List.replicate (twsize length fact) 0, 0, 1, []⟩
    some ⟨length, s.mem, s.fact⟩

/-- The pass of one factor from `p1` to `p2`, and the two arrays afterwards, the result
first. `passg` leaves its result in `p1`. -/
def passOf (t : Trig K) (fwd : Bool) (mem : List (Cmplx K)) (d : FctData) (ido l1 : Nat)
    (p1 p2 : List (Cmplx K)) : Option (List (Cmplx K) × List (Cmplx K)) :=
  let tw := mem.drop d.tw
  if d.fct = 4 then (pass4 fwd ido l1 p1 p2 tw).map (·, p1)
  else if d.fct = 8 then (pass8 t fwd ido l1 p1 p2 tw).map (·, p1)
  else if d.fct = 2 then (pass2 fwd ido l1 p1 p2 tw).map (·, p1)
  else if d.fct = 3 then (pass3 t fwd ido l1 p1 p2 tw).map (·, p1)
  else if d.fct = 5 then (pass5 t fwd ido l1 p1 p2 tw).map (·, p1)
  else if d.fct = 7 then (pass7 t fwd ido l1 p1 p2 tw).map (·, p1)
  else if d.fct = 11 then (pass11 t fwd ido l1 p1 p2 tw).map (·, p1)
  else d.tws.bind fun tws => passg fwd ido d.fct l1 p1 p2 tw (mem.drop tws)

/-- One iteration of `pass_all`; the state is `p1`, `p2` and `l1`. -/
def passStep (t : Trig K) (fwd : Bool) (plan : Cfftp K)
    (s : List (Cmplx K) × List (Cmplx K) × Nat) (d : FctData) :
    Option (List (Cmplx K) × List (Cmplx K) × Nat) :=
  let l2 := d.fct * s.2.2
  let ido := plan.length / l2
  (passOf t fwd plan.mem d ido s.2.2 s.1 s.2.1).map fun p => (p.1, p.2, l2)

/-- `pass_all` and `exec`: the array `c` afterwards. In the end the result is copied to `c`
if it is not there, and multiplied with `fct` if that is not one. -/
def exec [DecidableEq K] (t : Trig K) (plan : Cfftp K) (cc : List (Cmplx K)) (fct : K)
    (fwd : Bool) : Option (List (Cmplx K)) :=
  if plan.length = 1 then (cc[0]?).bind fun v => storeCell cc 0 (v.scale fct)
  else do
    let s ← plan.fact.foldlM (passStep t fwd plan) (cc, List.replicate plan.length 0, 1)
    some (if fct = 1 then s.1 else s.1.map (·.scale fct))

end Model

/-! ## The twiddle factors -/

section Twiddles

variable {n l1 ip ido : Nat} {twiddle : SinCos ℝ}

/-- The table of the sines and cosines of a length. -/
def Table (n : Nat) (table : SinCos ℝ) : Prop :=
  ∀ idx, idx ≤ n → table.get idx = some (ofComplex (Kit.twiddle false n idx))

theorem fillTw_eq (factored : n = l1 * ip * ido) (table : Table n twiddle) {tw : Nat}
    {mem : List (Cmplx ℝ)} (room : tw + (ip - 1) * (ido - 1) ≤ mem.length) :
    ∃ mem', fillTw twiddle l1 ip ido tw mem = some mem' ∧ mem'.length = mem.length ∧
      TwiddlesOf n l1 ip ido (mem'.drop tw) ∧
      ∀ p, p < mem.length → p < tw ∨ tw + (ip - 1) * (ido - 1) ≤ p → mem'[p]? = mem[p]? := by
  have small : ∀ j i, j < ip - 1 → i < ido - 1 → (j + 1) * l1 * (i + 1) ≤ n := by
    intro j i row column
    have rows := Nat.mul_le_mul_right l1 (by omega : j + 1 ≤ ip)
    have := Nat.mul_le_mul rows (by omega : i + 1 ≤ ido)
    rw [factored, Nat.mul_comm l1 ip]
    exact this
  obtain ⟨mem', run, size, window, keeps⟩ := fills_window (n := mem.length)
    (f := fillTw twiddle l1 ip ido tw) tw ((ip - 1) * (ido - 1))
    (fun q => ofComplex (Kit.twiddle false n ((q / (ido - 1) + 1) * l1 * (q % (ido - 1) + 1)))) (by
      intro final agrees
      have fills : Fills mem.length final
          (fun p => ∃ j, j < ip - 1 ∧ ∃ i, i < ido - 1 ∧ p = tw + (i + (ido - 1) * j))
          (fillTw twiddle l1 ip ido tw) := by
        refine fills_forLoop fun j row => fills_forLoop fun i column => ?_
        have inside := cell_lt row column
        simp only [table _ (small j i row column), Option.bind_eq_bind, Option.bind_some]
        refine fills_storeCell (by omega) ?_
        rw [agrees _ inside, cell_div column, cell_mod column]
      refine fills.mono ?_
      rintro p ⟨q, below, rfl⟩
      obtain ⟨j, i, row, column, rfl⟩ := exists_cell below
      exact ⟨j, row, i, column, rfl⟩) rfl
  refine ⟨mem', run, size, ?_, keeps⟩
  intro x i row column
  have row' : x < ip - 1 := by omega
  have column' : i < ido - 1 := by omega
  rw [List.getElem?_drop, Nat.mul_comm x, window _ (cell_lt row' column'), cell_div column',
    cell_mod column']

theorem fillTws_eq (factored : n = l1 * ip * ido) (positive : 0 < n) (table : Table n twiddle)
    {tws : Nat} {mem : List (Cmplx ℝ)} (room : tws + ip ≤ mem.length) :
    ∃ mem', fillTws twiddle l1 ip ido tws mem = some mem' ∧ mem'.length = mem.length ∧
      (∀ j, j < ip → (mem'.drop tws)[j]? = some (ofComplex (Kit.twiddle false ip j))) ∧
      ∀ p, p < mem.length → p < tws ∨ tws + ip ≤ p → mem'[p]? = mem[p]? := by
  have hip : 0 < ip := (widths factored positive).2.1
  have hido : 0 < l1 * ido := by
    refine Nat.pos_of_ne_zero fun none => positive.ne' ?_
    rw [factored, Nat.mul_right_comm, none, Nat.zero_mul]
  have split : n = l1 * ido * ip := by rw [factored, Nat.mul_right_comm]
  have small : ∀ j, j < ip → j * l1 * ido ≤ n := by
    intro j below
    rw [split, Nat.mul_assoc, Nat.mul_comm]
    exact Nat.mul_le_mul_left _ (Nat.le_of_lt below)
  obtain ⟨mem', run, size, window, keeps⟩ := fills_window (n := mem.length)
    (f := fillTws twiddle l1 ip ido tws) tws ip
    (fun j => ofComplex (Kit.twiddle false ip j)) (by
      intro final agrees
      have fills : Fills mem.length final (fun p => ∃ j, j < ip ∧ p = tws + j)
          (fillTws twiddle l1 ip ido tws) := by
        refine fills_forLoop fun j below => ?_
        simp only [table _ (small j below), Option.bind_eq_bind, Option.bind_some]
        refine fills_storeCell (by omega) ?_
        have index : j * l1 * ido = l1 * ido * j := by ring
        rw [agrees j below, index, split, twiddle_cancel hido]
      exact fills) rfl
  refine ⟨mem', run, size, fun j below => ?_, keeps⟩
  rw [List.getElem?_drop, window j below]

/-- The memory holds the twiddle factors of a factor that comes after factors with the
product `l1`. -/
structure Entry (n l1 : Nat) (mem : List (Cmplx ℝ)) (d : FctData) : Prop where
  twiddles : TwiddlesOf n l1 d.fct (n / (l1 * d.fct)) (mem.drop d.tw)
  table : 11 < d.fct → ∃ tws, d.tws = some tws ∧
    ∀ j, j < d.fct → (mem.drop tws)[j]? = some (ofComplex (Kit.twiddle false d.fct j))

theorem twiddlesOf_mono {mem mem' : List (Cmplx ℝ)} {tw : Nat}
    (old : TwiddlesOf n l1 ip ido (mem.drop tw))
    (same : ∀ p, p < tw + (ip - 1) * (ido - 1) → mem'[p]? = mem[p]?) :
    TwiddlesOf n l1 ip ido (mem'.drop tw) := by
  intro x i row column
  have inside := cell_lt (by omega : x < ip - 1) (by omega : i < ido - 1)
  have cell := old x i row column
  rw [List.getElem?_drop] at cell ⊢
  rw [same _ (by rw [Nat.mul_comm x]; omega), cell]

/-- One iteration writes the entry of its factor behind the others. -/
theorem compTwiddleStep_eq (table : Table n twiddle) (positive : 0 < n) {s : TwState ℝ}
    (factored : n = s.l1 * ip * ido) (room : s.memofs + twsizeOf n s.l1 ip ≤ s.mem.length) :
    ∃ s' d, compTwiddleStep n twiddle s ip = some s' ∧ s'.l1 = s.l1 * ip ∧
      s'.memofs = s.memofs + twsizeOf n s.l1 ip ∧ s'.mem.length = s.mem.length ∧
      s'.fact = s.fact ++ [d] ∧ d.fct = ip ∧
      (∀ p, p < s.memofs → s'.mem[p]? = s.mem[p]?) ∧
      ∀ mem', (∀ p, p < s'.memofs → mem'[p]? = s'.mem[p]?) → Entry n s.l1 mem' d := by
  have narrow : n / (s.l1 * ip) = ido := (widths factored positive).2.2.2
  have size : twsizeOf n s.l1 ip = (ip - 1) * (ido - 1) + if 11 < ip then ip else 0 := by
    rw [twsizeOf, narrow]
  obtain ⟨mem₁, run₁, length₁, twiddles, keeps₁⟩ :=
    fillTw_eq factored table (by omega : s.memofs + (ip - 1) * (ido - 1) ≤ s.mem.length)
  by_cases large : 11 < ip
  · rw [if_pos large] at size
    obtain ⟨mem₂, run₂, length₂, tws, keeps₂⟩ := fillTws_eq factored positive table
      (by omega : s.memofs + (ip - 1) * (ido - 1) + ip ≤ mem₁.length)
    have old : ∀ p, p < s.memofs + (ip - 1) * (ido - 1) → mem₂[p]? = mem₁[p]? :=
      fun p below => keeps₂ p (by omega) (.inl below)
    refine ⟨⟨mem₂, s.memofs + (ip - 1) * (ido - 1) + ip, s.l1 * ip,
      s.fact ++ [⟨ip, s.memofs, some (s.memofs + (ip - 1) * (ido - 1))⟩]⟩,
      ⟨ip, s.memofs, some (s.memofs + (ip - 1) * (ido - 1))⟩, ?_, rfl, by dsimp only; omega,
      length₂.trans length₁, rfl, rfl, fun p below => ?_, fun mem' same => ?_⟩
    · simp only [compTwiddleStep, narrow, run₁, run₂, if_pos large, Option.bind_eq_bind,
        Option.bind_some]
    · rw [old p (by omega), keeps₁ p (by omega) (.inl below)]
    · dsimp only at same
      refine ⟨?_, fun _ => ⟨_, rfl, fun j below => ?_⟩⟩
      · dsimp only
        rw [narrow]
        exact twiddlesOf_mono twiddles fun p below => (same p (by omega)).trans (old p below)
      · dsimp only at below
        have cell := tws j below
        rw [List.getElem?_drop] at cell ⊢
        rw [same _ (by omega), cell]
  · rw [if_neg large, Nat.add_zero] at size
    refine ⟨⟨mem₁, s.memofs + (ip - 1) * (ido - 1), s.l1 * ip,
      s.fact ++ [⟨ip, s.memofs, none⟩]⟩, ⟨ip, s.memofs, none⟩, ?_, rfl, by dsimp only; omega,
      length₁, rfl, rfl, fun p below => keeps₁ p (by omega) (.inl below), fun mem' same => ?_⟩
    · simp only [compTwiddleStep, narrow, run₁, if_neg large, Option.bind_eq_bind,
        Option.bind_some]
    · refine ⟨?_, fun absurd => (large absurd).elim⟩
      dsimp only
      rw [narrow]
      exact twiddlesOf_mono twiddles same

/-- The entries of a list of factors. -/
def Entries (n : Nat) (mem : List (Cmplx ℝ)) : Nat → List FctData → Prop
  | _, [] => True
  | l1, d :: ds => Entry n l1 mem d ∧ Entries n mem (l1 * d.fct) ds

theorem twsize_eq (n : Nat) (fact : List Nat) :
    twsize n fact = sizeFrom (twsizeOf n) 1 fact := by
  rw [twsize, foldl_sizeFrom, Nat.zero_add]

/-- The array of twiddle factors is at most twice as long as the transform. -/
theorem twsize_le {fact : List Nat} (positive : 0 < n) (product : fact.prod = n)
    (factors : ∀ ip ∈ fact, PassFactor ip) : twsize n fact ≤ 2 * n := by
  have entry_le : ∀ l1 ip, twsizeOf n l1 ip ≤ (ip - 1) * (n / (l1 * ip) - 1) + 1 * ip := by
    intro l1 ip
    rw [twsizeOf]
    split
    · omega
    · omega
  rw [twsize_eq]
  have bound := sizeFrom_le Nat.one_pos entry_le positive fact 1 (by rw [product, Nat.one_mul])
    fun ip member => (factors ip member).two_le
  rwa [product] at bound

/-- The whole loop: an array of the size `twsize` has room for the entries of all factors. -/
theorem compTwiddle_eq (table : Table n twiddle) (positive : 0 < n) (fact : List Nat) :
    ∀ s : TwState ℝ, n = s.l1 * fact.prod →
      s.memofs + sizeFrom (twsizeOf n) s.l1 fact ≤ s.mem.length →
      ∃ s' ds, fact.foldlM (compTwiddleStep n twiddle) s = some s' ∧ s'.fact = s.fact ++ ds ∧
        ds.map FctData.fct = fact ∧ (∀ p, p < s.memofs → s'.mem[p]? = s.mem[p]?) ∧
        Entries n s'.mem s.l1 ds := by
  induction fact with
  | nil =>
    intro s _ _
    exact ⟨s, [], rfl, (List.append_nil _).symm, rfl, fun _ _ => rfl, trivial⟩
  | cons ip fact ih =>
    intro s factored room
    rw [List.prod_cons, ← Nat.mul_assoc] at factored
    rw [sizeFrom] at room
    obtain ⟨s₁, d, step, l1Eq, memofsEq, lengthEq, factEq, fctEq, keeps, entry⟩ :=
      compTwiddleStep_eq table positive factored (by omega)
    obtain ⟨s₂, ds, run, factEq', fcts, keeps', entries⟩ :=
      ih s₁ (by rw [l1Eq, factored]) (by rw [memofsEq, lengthEq, l1Eq]; omega)
    refine ⟨s₂, d :: ds, ?_, ?_, ?_, ?_, ?_, ?_⟩
    · rw [List.foldlM_cons, step]
      exact run
    · rw [factEq', factEq, List.append_assoc]
      rfl
    · rw [List.map_cons, fctEq, fcts]
    · intro p below
      rw [keeps' p (by omega), keeps p below]
    · exact entry s₂.mem keeps'
    · rw [fctEq, ← l1Eq]
      exact entries

end Twiddles

/-! ## The passes -/

section Passes

variable {fwd : Bool} {n l1 ido : Nat} {z : Nat → ℂ} {mem : List (Cmplx ℝ)} {d : FctData}

/-- A pass that writes its result to the other array. -/
theorem swapped_eq {first rest : (Nat → Cmplx ℝ) → List (Cmplx ℝ)} {ip : Nat} {p2 : List (Cmplx ℝ)}
    (factored : n = l1 * ip * ido) (positive : 0 < n) (firstRadix : Radix fwd ip first)
    (restRadix : Radix fwd ip rest) {wa : List (Cmplx ℝ)} (twiddles : TwiddlesOf n l1 ip ido wa)
    (size : p2.length = n) :
    ∃ p2', (pass fwd ip first rest ido l1 (stageArray fwd n l1 z) p2 wa).map
        (·, stageArray fwd n l1 z) = some (stageArray fwd n (l1 * ip) z, p2') ∧ p2'.length = n := by
  rw [pass_eq factored positive firstRadix restRadix twiddles size]
  exact ⟨_, rfl, length_stageArray factored positive⟩

/-- The pass of one factor takes the values of a stage to those of the next. -/
theorem passOf_eq (fwd : Bool) (z : Nat → ℂ) (factored : n = l1 * d.fct * ido) (positive : 0 < n)
    (entry : Entry n l1 mem d)
    (factor : PassFactor d.fct) {p2 : List (Cmplx ℝ)} (size : p2.length = n) :
    ∃ p2', passOf Trig.real fwd mem d ido l1 (stageArray fwd n l1 z) p2 =
        some (stageArray fwd n (l1 * d.fct) z, p2') ∧ p2'.length = n := by
  have narrow := (widths factored positive).2.2.2
  have twiddles := entry.twiddles
  rw [narrow] at twiddles
  rw [passOf]
  by_cases four : d.fct = 4
  · rw [if_pos four]
    rw [four] at factored twiddles ⊢
    exact swapped_eq factored positive (radix4 fwd) (radix4 fwd) twiddles size
  rw [if_neg four]
  by_cases eight : d.fct = 8
  · rw [if_pos eight]
    rw [eight] at factored twiddles ⊢
    exact swapped_eq factored positive (radix8 fwd) (twiddledRadix8 fwd) twiddles size
  rw [if_neg eight]
  by_cases two : d.fct = 2
  · rw [if_pos two]
    rw [two] at factored twiddles ⊢
    exact swapped_eq factored positive (radix2 fwd) (radix2 fwd) twiddles size
  rw [if_neg two]
  by_cases three : d.fct = 3
  · rw [if_pos three]
    rw [three] at factored twiddles ⊢
    exact swapped_eq factored positive (radix3 fwd) (radix3 fwd) twiddles size
  rw [if_neg three]
  by_cases five : d.fct = 5
  · rw [if_pos five]
    rw [five] at factored twiddles ⊢
    exact swapped_eq factored positive (radix5 fwd) (radix5 fwd) twiddles size
  rw [if_neg five]
  by_cases seven : d.fct = 7
  · rw [if_pos seven]
    rw [seven] at factored twiddles ⊢
    exact swapped_eq factored positive (radix7 fwd) (radix7 fwd) twiddles size
  rw [if_neg seven]
  by_cases eleven : d.fct = 11
  · rw [if_pos eleven]
    rw [eleven] at factored twiddles ⊢
    exact swapped_eq factored positive (radix11 fwd) (radix11 fwd) twiddles size
  rw [if_neg eleven]
  -- what is left is a prime from thirteen on
  obtain ⟨prime, odd⟩ : d.fct.Prime ∧ ¬ 2 ∣ d.fct := by
    rcases factor with absurd | absurd | absurd | found
    · exact (two absurd).elim
    · exact (four absurd).elim
    · exact (eight absurd).elim
    · exact found
  have large : 11 < d.fct := by
    have least := prime.two_le
    have nine : d.fct ≠ 9 := by
      intro square
      rw [square] at prime
      exact (by decide : ¬ Nat.Prime 9) prime
    omega
  obtain ⟨tws, stored, table⟩ := entry.table large
  obtain ⟨h, half⟩ : ∃ h, d.fct = 2 * h + 1 := ⟨d.fct / 2, by omega⟩
  rw [stored, Option.bind_some]
  rw [half] at factored twiddles table prime large ⊢
  exact passg_eq factored positive prime (by omega) twiddles table size

/-- All passes together. -/
theorem passes_eq (fwd : Bool) (z : Nat → ℂ) {plan : Cfftp ℝ} (positive : 0 < plan.length)
    (ds : List FctData) :
    ∀ (l1 : Nat) (p2 : List (Cmplx ℝ)), plan.length = l1 * (ds.map FctData.fct).prod →
      p2.length = plan.length → Entries plan.length plan.mem l1 ds →
      (∀ d ∈ ds, PassFactor d.fct) →
      ∃ s, ds.foldlM (passStep Trig.real fwd plan) (stageArray fwd plan.length l1 z, p2, l1) =
        some s ∧ s.1 = stageArray fwd plan.length plan.length z := by
  induction ds with
  | nil =>
    intro l1 p2 factored _ _ _
    rw [List.map_nil, List.prod_nil, Nat.mul_one] at factored
    exact ⟨_, rfl, by rw [factored]⟩
  | cons d ds ih =>
    intro l1 p2 factored size entries factors
    rw [List.map_cons, List.prod_cons, ← Nat.mul_assoc] at factored
    have narrow := (widths factored positive).2.2.2
    obtain ⟨p2', run, size'⟩ := passOf_eq fwd z factored positive entries.1
      (factors d (List.mem_cons_self ..)) size
    obtain ⟨s, runs, result⟩ := ih (l1 * d.fct) p2' factored size' entries.2
      fun d' member => factors d' (List.mem_cons_of_mem d member)
    refine ⟨s, ?_, result⟩
    rw [List.foldlM_cons, passStep, Nat.mul_comm d.fct, narrow, run]
    exact runs

end Passes

/-! ## The transform -/

/-- A constructed transform: the factors multiply to the length, and the memory holds their
twiddle factors. -/
structure Sound (plan : Cfftp ℝ) : Prop where
  positive : 0 < plan.length
  entries : Entries plan.length plan.mem 1 plan.fact
  product : plan.length ≠ 1 → (plan.fact.map FctData.fct).prod = plan.length
  factors : ∀ d ∈ plan.fact, PassFactor d.fct

theorem exists_make {n : Nat} (positive : 0 < n) :
    ∃ plan, make Trig.real n = some plan ∧ plan.length = n ∧ plan.Sound := by
  by_cases one : n = 1
  · refine ⟨⟨1, [], []⟩, ?_, one.symm, Nat.one_pos, trivial, fun other => (other rfl).elim, ?_⟩
    · rw [make, if_neg positive.ne', if_pos one]
    · intro d member
      cases member
  · obtain ⟨fact, factored, product, factors⟩ := factorize_spec positive
    obtain ⟨twiddle, made, size, sound⟩ := SinCos.exists_make positive
    have table : Table n twiddle := fun idx inside => by
      rw [← size]
      exact sound.get_eq (size.symm ▸ positive) (size.symm ▸ inside)
    obtain ⟨s, ds, run, factEq, fcts, -, entries⟩ := compTwiddle_eq table positive fact
      ⟨List.replicate (twsize n fact) 0, 0, 1, []⟩ (by rw [product, Nat.one_mul]) (by
        rw [List.length_replicate, twsize_eq, Nat.zero_add])
    rw [List.nil_append] at factEq
    refine ⟨⟨n, s.mem, s.fact⟩, ?_, rfl, positive, ?_, fun _ => ?_, ?_⟩
    · simp only [make, if_neg positive.ne', if_neg one, factored, made, run,
        Option.bind_eq_bind, Option.bind_some]
    · rw [factEq]
      exact entries
    · rw [factEq, fcts, product]
    · intro d member
      rw [factEq] at member
      exact factors _ (fcts ▸ List.mem_map_of_mem member)

/-- The array of a signal. -/
noncomputable def samples (n : Nat) (z : Nat → ℂ) : List (Cmplx ℝ) :=
  tabulate n fun i => ofComplex (z i)

theorem stageArray_one {fwd : Bool} {n : Nat} (z : Nat → ℂ) :
    stageArray fwd n 1 z = samples n z := by
  refine eq_tabulate ?_ fun i below => ?_
  · rw [stageArray, length_grid, Nat.div_one, Nat.one_mul]
  · have cell := getElem?_grid (F := fun k i => ofComplex (stage fwd n 1 z i k)) Nat.one_pos
      ((Nat.div_one n).symm ▸ below : i < n / 1)
    rw [Nat.mul_zero, Nat.add_zero, stage_one] at cell
    exact cell

theorem stageArray_self {fwd : Bool} {n : Nat} (positive : 0 < n) (z : Nat → ℂ) :
    stageArray fwd n n z = samples n (dft fwd n z) := by
  have one := Nat.div_self positive
  refine eq_tabulate ?_ fun k below => ?_
  · rw [stageArray, length_grid, one, Nat.mul_one]
  · have cell := getElem?_grid (F := fun k i => ofComplex (stage fwd n n z i k)) below
      (one.symm ▸ Nat.one_pos : 0 < n / n)
    rw [one, Nat.one_mul, Nat.zero_add, stage_self positive] at cell
    rw [stageArray, one]
    exact cell

theorem samples_scale (n : Nat) (z : Nat → ℂ) (fct : ℝ) :
    (samples n z).map (·.scale fct) = samples n fun k => z k * fct := by
  rw [samples, map_tabulate]
  exact tabulate_congr fun k _ => ofComplex_scale (z k) fct

/-- A constructed transform of any length computes the transform times the factor. -/
theorem Sound.exec_eq {plan : Cfftp ℝ} (sound : plan.Sound) (z : Nat → ℂ) (fct : ℝ) (fwd : Bool) :
    plan.exec Trig.real (samples plan.length z) fct fwd =
      some (samples plan.length fun k => dft fwd plan.length z k * fct) := by
  rw [exec]
  split
  · rename_i one
    have bin : dft fwd 1 z 0 = z 0 := by rw [dft_zero, Finset.sum_range_one]
    rw [one]
    change storeCell [ofComplex (z 0)] 0 ((ofComplex (z 0)).scale fct) =
      some [ofComplex (dft fwd 1 z 0 * fct)]
    rw [bin, ofComplex_scale]
    rfl
  · rename_i other
    obtain ⟨s, run, result⟩ := passes_eq fwd z sound.positive plan.fact 1
      (List.replicate plan.length 0) (by rw [sound.product other, Nat.one_mul])
      List.length_replicate sound.entries sound.factors
    rw [stageArray_one] at run
    rw [stageArray_self sound.positive] at result
    simp only [run, Option.bind_eq_bind, Option.bind_some, result]
    split
    · rename_i unit
      refine congrArg some (tabulate_congr fun k _ => ?_)
      dsimp only
      rw [unit, Complex.ofReal_one, mul_one]
    · rw [samples_scale]

/-- Without a factor. -/
theorem Sound.exec_one {plan : Cfftp ℝ} (sound : plan.Sound) (z : Nat → ℂ) (fwd : Bool) :
    plan.exec Trig.real (samples plan.length z) 1 fwd =
      some (samples plan.length (dft fwd plan.length z)) := by
  rw [sound.exec_eq]
  refine congrArg some (tabulate_congr fun k _ => ?_)
  dsimp only
  rw [Complex.ofReal_one, mul_one]

/-- For a length whose arrays have an address the constructor succeeds, with an array of twiddle
factors whose byte count is a `size_t` value, and the transform it gives computes the discrete
Fourier transform of every signal, in both directions and with every factor. -/
theorem make_computes (n : Nat) (positive : 0 < n) (addressable : n * 16 < 2 ^ 63) :
    (∃ fact, factorize n = some fact ∧ twsize n fact * 16 < 2 ^ 64) ∧
      ∃ plan, make Trig.real n = some plan ∧ ∀ (z : Nat → ℂ) (fct : ℝ) (fwd : Bool),
        plan.exec Trig.real (samples n z) fct fwd =
          some (samples n fun k => dft fwd n z k * fct) := by
  obtain ⟨fact, factored, product, factors⟩ := factorize_spec positive
  have size := twsize_le positive product factors
  obtain ⟨plan, made, rfl, sound⟩ := exists_make positive
  exact ⟨⟨fact, factored, by omega⟩, plan, made, sound.exec_eq⟩

/-- A length with a factor of eight, one of two, an odd one and a larger prime. -/
theorem make_computes_624 :
    (∃ fact, factorize 624 = some fact ∧ twsize 624 fact * 16 < 2 ^ 64) ∧
      ∃ plan, make Trig.real 624 = some plan ∧ ∀ (z : Nat → ℂ) (fct : ℝ) (fwd : Bool),
        plan.exec Trig.real (samples 624 z) fct fwd =
          some (samples 624 fun k => dft fwd 624 z k * fct) :=
  make_computes 624 (by decide) (by decide)

end Cfftp

end DspDispatch.Pocketfft
