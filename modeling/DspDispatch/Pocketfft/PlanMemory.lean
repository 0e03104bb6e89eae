import DspDispatch.Kit.Throwing
import DspDispatch.Pocketfft.Choice
import DspDispatch.Pocketfft.Rfftp

/-!
# The memory of pocketfft plans

A constructor, and every `exec`, works in arrays of its own, whose byte counts are `size_t`
values. An array that is larger than any object can be is an exception. One whose count has
wrapped around is made, and is then written beyond its end.

What a piece of the library does with memory is a list of steps, in the order of the source.
A run of the list ends with the first step that throws or leaves its array (`endOf`). Below
`2 ^ 50` samples no step does so, unless an allocation fails.
-/

namespace DspDispatch.Pocketfft

open Kit Kit.Throwing

/-! ## Steps -/

/-- A step that matters for memory: an allocation of a few bytes, for a vector or an object; an
`arr` of `num` elements; an access, and whether it stays inside; an exception of the library's
own. -/
inductive MemStep
  | small
  | array (num sizeof : Nat)
  | access (inside : Bool)
  | refusal
deriving DecidableEq, Repr

/-- How a piece of the library ends. -/
inductive Built
  | made
  | throws
  | overruns
deriving DecidableEq, Repr

/-- One piece after the other. -/
def Built.next : Built → Built → Built
  | .made, rest => rest
  | ended, _ => ended

section Steps

variable (align : Nat)

/-- The bytes of an `arr`, for which `aligned_alloc` asks `malloc` for `align` more. -/
def arrayBytes (num sizeof : Nat) : Nat :=
  if mulSize num sizeof + align < 2 ^ 64 then mulSize num sizeof else 0

/-- The first elements of an `arr` are written. -/
def fill (num sizeof upto : Nat) : MemStep := .access (upto * sizeof ≤ arrayBytes align num sizeof)

/-- How a step ends, an allocation being one that fails or not. -/
def MemStep.ends (failing : Bool) : MemStep → Built
  | .small => if failing then .throws else .made
  | .array num sizeof =>
    if num = 0 then .made
    else if failing ∨ maxBytes < addSize (mulSize num sizeof) align then .throws
    else .made
  | .access inside => if inside then .made else .overruns
  | .refusal => .throws

/-- How a list of steps ends under a choice of the failing ones. -/
def endOf (fails : Nat → Bool) : List MemStep → Built
  | [] => .made
  | step :: rest => (step.ends align (fails 0)).next (endOf (fun k => fails (k + 1)) rest)

end Steps

/-! ## Constructors and `exec` -/

section Model

variable (align rb n : Nat)

/-- The constructor of `sincos_2pibyn`, whose entries are `double`s. The search for the shift
does not end for lengths from `2 ^ 63` on; the first entry of either array is always set. -/
def SinCos.steps : List MemStep :=
  let nval := addSize n 2 / 2
  (findShift .size nval).elim [.access false] fun shift =>
    let mask := 2 ^ shift - 1
    let count := addSize nval mask / (mask + 1)
    [.array (mask + 1) 16, fill align (mask + 1) 16 (mask + 1),
      .array count 16, fill align count 16 (max count 1)]

/-- The constructor of `cfftp`, the real numbers having `rb` bytes. The factors come first; the
twiddles are written once the table is there. -/
def Cfftp.steps : List MemStep :=
  if n = 0 then [.refusal]
  else if n = 1 then []
  else (factorize n).elim [.access false] fun fact =>
    let num := twsize n fact % 2 ^ 64
    .small :: .array num (2 * rb) ::
      (SinCos.steps align n ++ [fill align num (2 * rb) (twsize n fact)])

/-- A pass of `pass_all` for vectors of `vlen` lanes; `passg` has an array for the roots of
unity. -/
def Cfftp.passSteps (vlen ip : Nat) : List MemStep :=
  if ip ∈ [4, 8, 2, 3, 5, 7, 11] then [fill align n (vlen * (2 * rb)) n]
  else [.array ip (2 * rb), fill align ip (2 * rb) ip, fill align n (vlen * (2 * rb)) n]

/-- `pass_all`. -/
def Cfftp.execSteps (vlen : Nat) : List MemStep :=
  if n = 1 then []
  else (factorize n).elim [.access false] fun fact =>
    .array n (vlen * (2 * rb)) :: fact.flatMap (Cfftp.passSteps align rb n vlen)

/-- The constructor of `rfftp`. -/
def Rfftp.steps : List MemStep :=
  if n = 0 then [.refusal]
  else if n = 1 then []
  else (Rfftp.factorize n).elim [.access false] fun fact =>
    let num := twsize n fact % 2 ^ 64
    .small :: .array num rb :: (SinCos.steps align n ++ [fill align num rb (twsize n fact)])

/-- `exec` of `rfftp`. -/
def Rfftp.execSteps (vlen : Nat) : List MemStep :=
  if n = 1 then [] else [.array n (vlen * rb), fill align n (vlen * rb) n]

/-- The constructor of `fftblue`: the plan of the padded length, the chirp, and its
transform. -/
def Fftblue.steps : List MemStep :=
  (goodSizeCmplx (subSize (mulSize n 2) 1)).elim [.refusal] fun n2 =>
    let num := addSize (addSize n (n2 / 2)) 1
    Cfftp.steps align rb n2 ++ .array num (2 * rb) :: (SinCos.steps align (mulSize 2 n) ++
      fill align num (2 * rb) n :: .array n2 (2 * rb) :: fill align n2 (2 * rb) n2 ::
        (Cfftp.execSteps align rb n2 1 ++ [fill align num (2 * rb) (n + n2 / 2 + 1)]))

/-- `fft`, with its two transforms of the padded length. -/
def Fftblue.execSteps (vlen : Nat) : List MemStep :=
  (goodSizeCmplx (subSize (mulSize n 2) 1)).elim [.refusal] fun n2 =>
    .array n2 (vlen * (2 * rb)) :: fill align n2 (vlen * (2 * rb)) n2 ::
      (Cfftp.execSteps align rb n2 vlen ++ Cfftp.execSteps align rb n2 vlen)

/-- The constructor of `pocketfft_c`. -/
def PocketfftC.steps : List MemStep :=
  (choice n).elim [.refusal] fun blue =>
    .small :: if blue then Fftblue.steps align rb n else Cfftp.steps align rb n

/-- Its `exec`. -/
def PocketfftC.execSteps (vlen : Nat) : List MemStep :=
  (choice n).elim [.refusal] fun blue =>
    if blue then Fftblue.execSteps align rb n vlen else Cfftp.execSteps align rb n vlen

/-- The constructor of `pocketfft_r`. -/
def PocketfftR.steps : List MemStep :=
  (choice n).elim [.refusal] fun blue =>
    .small :: if blue then Fftblue.steps align rb n else Rfftp.steps align rb n

/-- Its `exec`; `exec_r` makes a complex signal first. -/
def PocketfftR.execSteps (vlen : Nat) : List MemStep :=
  (choice n).elim [.refusal] fun blue =>
    if blue then
      .array n (vlen * (2 * rb)) :: fill align n (vlen * (2 * rb)) n ::
        Fftblue.execSteps align rb n vlen
    else Rfftp.execSteps align rb n vlen

end Model

/-! ## Runs -/

section Runs

variable {align : Nat} {fails : Nat → Bool}

theorem Built.next_eq_overruns {first rest : Built} :
    first.next rest = .overruns ↔ first = .overruns ∨ first = .made ∧ rest = .overruns := by
  cases first with
  | made => simp [Built.next]
  | throws => simp [Built.next]
  | overruns => simp [Built.next]

theorem Built.next_eq_throws {first rest : Built} :
    first.next rest = .throws ↔ first = .throws ∨ first = .made ∧ rest = .throws := by
  cases first with
  | made => simp [Built.next]
  | throws => simp [Built.next]
  | overruns => simp [Built.next]

theorem Built.next_eq_made {first rest : Built} :
    first.next rest = .made ↔ first = .made ∧ rest = .made := by
  cases first with
  | made => simp [Built.next]
  | throws => simp [Built.next]
  | overruns => simp [Built.next]

theorem endOf_append (steps rest : List MemStep) :
    endOf align fails (steps ++ rest) = (endOf align fails steps).next
      (endOf align (fun k => fails (k + steps.length)) rest) := by
  induction steps generalizing fails with
  | nil => rfl
  | cons step steps ih =>
    rw [List.cons_append, endOf, endOf, ih]
    cases step.ends align (fails 0) with
    | made => simp only [Built.next, List.length_cons, Nat.add_assoc]
    | throws => rfl
    | overruns => rfl

/-- A run never leaves its arrays exactly if every access that it comes to stays inside. -/
theorem endOf_ne_overruns (steps : List MemStep) :
    endOf align fails steps ≠ .overruns ↔ ∀ past inside rest,
      steps = past ++ .access inside :: rest → endOf align fails past = .made → inside = true := by
  constructor
  · rintro defined past inside rest rfl passed
    rw [endOf_append, passed, Built.next, endOf] at defined
    by_contra outside
    rw [Bool.not_eq_true] at outside
    rw [outside] at defined
    exact defined rfl
  · intro inside
    induction steps generalizing fails with
    | nil => exact nofun
    | cons step steps ih =>
      rw [endOf, ne_eq, Built.next_eq_overruns, not_or, not_and]
      refine ⟨fun outside => ?_, fun made => ih fun past own rest split passed => ?_⟩
      · cases step with
        | small =>
          rw [MemStep.ends] at outside
          split at outside <;> cases outside
        | array num sizeof =>
          rw [MemStep.ends] at outside
          split at outside
          · cases outside
          · split at outside <;> cases outside
        | access own =>
          rw [MemStep.ends, inside [] own steps rfl rfl] at outside
          cases outside
        | refusal => cases outside
      · refine inside (step :: past) own rest (by rw [split]; rfl) ?_
        rw [endOf, made]
        exact passed

/-- What throws by itself throws whatever allocations fail. -/
theorem endOf_throws {steps : List MemStep}
    (thrown : endOf align (fun _ => false) steps = .throws) : endOf align fails steps = .throws := by
  induction steps generalizing fails with
  | nil => cases thrown
  | cons step steps ih =>
    have same : step.ends align (fails 0) = step.ends align false ∨
        step.ends align (fails 0) = .throws := by
      cases fails 0 with
      | false => exact .inl rfl
      | true =>
        cases step with
        | small => exact .inr rfl
        | array num sizeof =>
          rw [MemStep.ends]
          by_cases empty : num = 0
          · exact .inl (by rw [if_pos empty, MemStep.ends, if_pos empty])
          · exact .inr (by rw [if_neg empty, if_pos (.inl rfl)])
        | access inside => exact .inl rfl
        | refusal => exact .inl rfl
    rw [endOf] at thrown ⊢
    rw [Built.next_eq_throws] at thrown ⊢
    rcases same with same | throws
    · rw [same]
      exact thrown.imp_right (And.imp_right fun later => ih later)
    · exact .inl throws

end Runs

/-! ## Short transforms -/

/-- A step of a short transform: its array is far smaller than an object may be. -/
def MemStep.Modest : MemStep → Prop
  | .small => True
  | .array num sizeof => num * sizeof < 2 ^ 62
  | .access inside => inside = true
  | .refusal => False

section Short

variable {align rb n : Nat}

/-- A list of such steps ends well unless an allocation fails. -/
theorem endOf_of_modest {fails : Nat → Bool} (narrow : align ≤ 64) {steps : List MemStep}
    (modest : ∀ step ∈ steps, step.Modest) : endOf align fails steps ≠ .overruns ∧
      ((∀ k, fails k = false) → endOf align fails steps = .made) := by
  have top : maxBytes = 2 ^ 63 - 1 := rfl
  refine ⟨(endOf_ne_overruns steps).mpr fun past inside rest split _ => ?_, fun none => ?_⟩
  · exact modest (.access inside) (by rw [split]; simp)
  · induction steps generalizing fails with
    | nil => rfl
    | cons step steps ih =>
      obtain ⟨first, others⟩ := List.forall_mem_cons.mp modest
      rw [endOf, Built.next_eq_made, none 0]
      refine ⟨?_, ih others fun k => none (k + 1)⟩
      cases step with
      | small => rfl
      | array num sizeof =>
        have bytes : num * sizeof < 2 ^ 62 := first
        rw [MemStep.ends, mulSize_of_lt (by omega), addSize_of_lt (by omega)]
        split
        · rfl
        · exact if_neg (by simp; omega)
      | access inside => exact if_pos first
      | refusal => exact first.elim

/-- With nothing failing, a list whose steps are modest but for some accesses outside stays
inside exactly if there are none of these. -/
theorem endOf_ne_overruns_of_modest {fails : Nat → Bool} (narrow : align ≤ 64)
    {steps : List MemStep} (modest : ∀ step ∈ steps, step.Modest ∨ step = .access false)
    (nothing : ∀ k, fails k = false) :
    endOf align fails steps ≠ .overruns ↔ ∀ step ∈ steps, step.Modest := by
  refine ⟨fun defined step member => ?_, fun all => (endOf_of_modest narrow all).1⟩
  refine (modest step member).resolve_right ?_
  rintro rfl
  obtain ⟨past, rest, rfl, first⟩ := List.eq_append_cons_of_mem member
  have before : ∀ step ∈ past, step.Modest := fun step earlier =>
    (modest step (List.mem_append_left _ earlier)).resolve_right fun same => first (same ▸ earlier)
  have passed := (endOf_of_modest narrow before).2 nothing
  exact Bool.false_ne_true ((endOf_ne_overruns _).mp defined past false rest rfl passed)

theorem modest_array {num sizeof : Nat} (small : num < 2 ^ 54) (width : sizeof ≤ 256) :
    (MemStep.array num sizeof).Modest := by
  have bytes : num * sizeof ≤ num * 256 := Nat.mul_le_mul_left num width
  rw [MemStep.Modest]
  omega

theorem modest_fill (narrow : align ≤ 64) {num sizeof upto : Nat} (small : num < 2 ^ 54)
    (width : sizeof ≤ 256) (le : upto ≤ num) : (fill align num sizeof upto).Modest := by
  have bytes : num * sizeof < 2 ^ 62 := modest_array small width
  have part : upto * sizeof ≤ num * sizeof := Nat.mul_le_mul_right sizeof le
  rw [fill, MemStep.Modest, decide_eq_true_eq, arrayBytes, mulSize_of_lt (by omega),
    if_pos (by omega)]
  exact part

theorem SinCos.modest (narrow : align ≤ 64) (positive : 0 < n) (small : n < 2 ^ 53) :
    ∀ step ∈ SinCos.steps align n, step.Modest := by
  have agrees := Arith.size_agrees (by omega : 4 * ((n + 2) / 2) < 2 ^ 64)
  obtain ⟨shift, found, bound⟩ := exists_findShift (by omega) agrees
  have one : 0 < 2 ^ shift := Nat.two_pow_pos shift
  have size : 2 ^ shift - 1 + 1 = 2 ^ shift := by omega
  have count : ((n + 2) / 2 + (2 ^ shift - 1)) / 2 ^ shift ≤ (n + 2) / 2 + (2 ^ shift - 1) :=
    Nat.div_le_self _ _
  have some : 0 < ((n + 2) / 2 + (2 ^ shift - 1)) / 2 ^ shift :=
    Nat.div_pos (by omega) one
  rw [SinCos.steps, addSize_of_lt (by omega), found, Option.elim_some]
  dsimp only
  rw [size, addSize_of_lt (by omega), max_eq_left (by omega)]
  simp only [List.forall_mem_cons, List.not_mem_nil, false_implies, implies_true, and_true]
  exact ⟨modest_array (by omega) (by decide), modest_fill narrow (by omega) (by decide) le_rfl,
    modest_array (by omega) (by decide), modest_fill narrow (by omega) (by decide) le_rfl⟩

theorem Cfftp.modest (narrow : align ≤ 64) (width : rb ≤ 8) (positive : 0 < n)
    (small : n < 2 ^ 52) : ∀ step ∈ Cfftp.steps align rb n, step.Modest := by
  obtain ⟨fact, factored, product, factors⟩ := factorize_spec positive
  have size := twsize_le positive product factors
  rw [Cfftp.steps, if_neg positive.ne', factored, Option.elim_some, Nat.mod_eq_of_lt (by omega)]
  split
  · simp
  · simp only [List.forall_mem_cons, List.forall_mem_append, List.not_mem_nil, false_implies,
      implies_true, and_true]
    exact ⟨trivial, modest_array (by omega) (by omega),
      SinCos.modest narrow positive (by omega), modest_fill narrow (by omega) (by omega) le_rfl⟩

theorem Rfftp.modest (narrow : align ≤ 64) (width : rb ≤ 8) (positive : 0 < n)
    (small : n < 2 ^ 52) : ∀ step ∈ Rfftp.steps align rb n, step.Modest := by
  obtain ⟨fact, factored, product, factors⟩ := Rfftp.factorize_spec positive
  have size := Rfftp.twsize_le positive product factors
  rw [Rfftp.steps, if_neg positive.ne', factored, Option.elim_some, Nat.mod_eq_of_lt (by omega)]
  split
  · simp
  · simp only [List.forall_mem_cons, List.forall_mem_append, List.not_mem_nil, false_implies,
      implies_true, and_true]
    exact ⟨trivial, modest_array (by omega) (by omega),
      SinCos.modest narrow positive (by omega), modest_fill narrow (by omega) (by omega) le_rfl⟩

theorem Cfftp.modest_exec (narrow : align ≤ 64) (width : rb ≤ 8) {vlen : Nat} (lanes : vlen ≤ 16)
    (positive : 0 < n) (small : n < 2 ^ 54) :
    ∀ step ∈ Cfftp.execSteps align rb n vlen, step.Modest := by
  obtain ⟨fact, factored, product, factors⟩ := factorize_spec positive
  have element : vlen * (2 * rb) ≤ 256 := (Nat.mul_le_mul lanes (Nat.mul_le_mul_left 2 width)).trans
    (by decide)
  rw [Cfftp.execSteps, factored, Option.elim_some]
  split
  · simp
  · rw [List.forall_mem_cons]
    refine ⟨modest_array small element, fun step member => ?_⟩
    obtain ⟨ip, factor, pass⟩ := List.mem_flatMap.mp member
    have whole := modest_fill narrow small element (Nat.le_refl n)
    have le : ip ≤ n := Nat.le_of_dvd positive (product ▸ List.dvd_prod factor)
    rw [Cfftp.passSteps] at pass
    split at pass
    · rw [List.mem_singleton.mp pass]
      exact whole
    · simp only [List.mem_cons, List.not_mem_nil, or_false] at pass
      rcases pass with rfl | rfl | rfl
      · exact modest_array (by omega) (by omega)
      · exact modest_fill narrow (by omega) (by omega) le_rfl
      · exact whole

theorem Rfftp.modest_exec (narrow : align ≤ 64) (width : rb ≤ 8) {vlen : Nat} (lanes : vlen ≤ 16)
    (small : n < 2 ^ 54) : ∀ step ∈ Rfftp.execSteps align rb n vlen, step.Modest := by
  have element : vlen * rb ≤ 256 := (Nat.mul_le_mul lanes width).trans (by decide)
  rw [Rfftp.execSteps]
  split
  · simp
  · simp only [List.forall_mem_cons, List.not_mem_nil, false_implies, implies_true, and_true]
    exact ⟨modest_array small element, modest_fill narrow small element le_rfl⟩

/-- The padded length is at most four times the length. -/
theorem exists_padded_le (positive : 0 < n) (small : n < 2 ^ 50) :
    ∃ n2, goodSizeCmplx (subSize (mulSize n 2) 1) = some n2 ∧ 0 < n2 ∧ n2 ≤ 4 * n := by
  obtain ⟨n2, found, above, below⟩ :=
    exists_goodSizeCmplx (by omega : 0 < n * 2 - 1) (by omega)
  refine ⟨n2, ?_, by omega, by omega⟩
  rw [mulSize_of_lt (by omega), subSize_of_le (by omega) (by omega), found]

theorem Fftblue.modest (narrow : align ≤ 64) (width : rb ≤ 8) (positive : 0 < n)
    (small : n < 2 ^ 50) : ∀ step ∈ Fftblue.steps align rb n, step.Modest := by
  obtain ⟨n2, found, some, bound⟩ := exists_padded_le positive small
  have half : addSize n (n2 / 2) = n + n2 / 2 := addSize_of_lt (by omega)
  have more : addSize (n + n2 / 2) 1 = n + n2 / 2 + 1 := addSize_of_lt (by omega)
  have twice : mulSize 2 n = 2 * n := mulSize_of_lt (by omega)
  rw [Fftblue.steps, found, Option.elim_some, half, more, twice]
  simp only [List.forall_mem_cons, List.forall_mem_append, List.not_mem_nil, false_implies,
    implies_true, and_true]
  exact ⟨Cfftp.modest narrow width some (by omega), modest_array (by omega) (by omega),
    SinCos.modest narrow (by omega) (by omega), modest_fill narrow (by omega) (by omega) (by omega),
    modest_array (by omega) (by omega), modest_fill narrow (by omega) (by omega) le_rfl,
    Cfftp.modest_exec narrow width (by decide) some (by omega),
    modest_fill narrow (by omega) (by omega) le_rfl⟩

theorem Fftblue.modest_exec (narrow : align ≤ 64) (width : rb ≤ 8) {vlen : Nat}
    (lanes : vlen ≤ 16) (positive : 0 < n) (small : n < 2 ^ 50) :
    ∀ step ∈ Fftblue.execSteps align rb n vlen, step.Modest := by
  obtain ⟨n2, found, some, bound⟩ := exists_padded_le positive small
  have element : vlen * (2 * rb) ≤ 256 := (Nat.mul_le_mul lanes (Nat.mul_le_mul_left 2 width)).trans
    (by decide)
  have transform := Cfftp.modest_exec narrow width lanes some (by omega)
  rw [Fftblue.execSteps, found, Option.elim_some]
  simp only [List.forall_mem_cons, List.forall_mem_append]
  exact ⟨modest_array (by omega) element, modest_fill narrow (by omega) element le_rfl,
    transform, transform⟩

/-- A length below the bound is not refused. -/
theorem PocketfftC.accepted_of_small (positive : 0 < n) (small : n < 2 ^ 50) : ¬ Refused n := by
  rintro (zero | ⟨-, large, -⟩)
  · omega
  · omega

theorem PocketfftC.modest (narrow : align ≤ 64) (width : rb ≤ 8) (positive : 0 < n)
    (small : n < 2 ^ 50) : ∀ step ∈ PocketfftC.steps align rb n, step.Modest := by
  obtain ⟨blue, chosen, -⟩ := choice_of_accepted (accepted_of_small positive small)
  rw [PocketfftC.steps, chosen, Option.elim_some, List.forall_mem_cons]
  refine ⟨trivial, ?_⟩
  split
  · exact Fftblue.modest narrow width positive small
  · exact Cfftp.modest narrow width positive (by omega)

theorem PocketfftC.modest_exec (narrow : align ≤ 64) (width : rb ≤ 8) {vlen : Nat}
    (lanes : vlen ≤ 16) (positive : 0 < n) (small : n < 2 ^ 50) :
    ∀ step ∈ PocketfftC.execSteps align rb n vlen, step.Modest := by
  obtain ⟨blue, chosen, -⟩ := choice_of_accepted (accepted_of_small positive small)
  rw [PocketfftC.execSteps, chosen, Option.elim_some]
  split
  · exact Fftblue.modest_exec narrow width lanes positive small
  · exact Cfftp.modest_exec narrow width lanes positive (by omega)

theorem PocketfftR.modest (narrow : align ≤ 64) (width : rb ≤ 8) (positive : 0 < n)
    (small : n < 2 ^ 50) : ∀ step ∈ PocketfftR.steps align rb n, step.Modest := by
  obtain ⟨blue, chosen, -⟩ := choice_of_accepted (PocketfftC.accepted_of_small positive small)
  rw [PocketfftR.steps, chosen, Option.elim_some, List.forall_mem_cons]
  refine ⟨trivial, ?_⟩
  split
  · exact Fftblue.modest narrow width positive small
  · exact Rfftp.modest narrow width positive (by omega)

theorem PocketfftR.modest_exec (narrow : align ≤ 64) (width : rb ≤ 8) {vlen : Nat}
    (lanes : vlen ≤ 16) (positive : 0 < n) (small : n < 2 ^ 50) :
    ∀ step ∈ PocketfftR.execSteps align rb n vlen, step.Modest := by
  obtain ⟨blue, chosen, -⟩ := choice_of_accepted (PocketfftC.accepted_of_small positive small)
  have element : vlen * (2 * rb) ≤ 256 := (Nat.mul_le_mul lanes (Nat.mul_le_mul_left 2 width)).trans
    (by decide)
  rw [PocketfftR.execSteps, chosen, Option.elim_some]
  split
  · simp only [List.forall_mem_cons]
    exact ⟨modest_array (by omega) element, modest_fill narrow (by omega) element le_rfl,
      Fftblue.modest_exec narrow width lanes positive small⟩
  · exact Rfftp.modest_exec narrow width lanes (by omega)

end Short

end DspDispatch.Pocketfft
