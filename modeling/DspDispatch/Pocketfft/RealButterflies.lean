import DspDispatch.Kit.HalfComplex
import DspDispatch.Pocketfft.Butterflies

/-!
# Real butterflies of pocketfft (`rfftp`, the bodies of `radf2` to `radb5`)

A real pass of the factor `ip` has three bodies: `first` for the bins without a twiddle
factor, `middle` for those halfway between them, which are there if the rows have an even
length, and `rest` for all others. The first two take and give real numbers; in `rest` two
adjacent numbers are the real and the imaginary part of one bin. The factors three and five
have no middle body: their rows always have an odd length.

Each body is the complex butterfly of the same radix, with the results in the order of the
half-complex rows (forward) or the values taken from such rows (backward); these are
identities over every field (`radf4Rest_eq` and the like). Over the real numbers they are
transforms (`FirstRadix` and the others).
-/

namespace DspDispatch.Pocketfft

open Kit

section Bodies

variable {K : Type} [Field K] (t : Trig K)

/-- `2 * x`. -/
def double (x : K) : K := ((2 : ℚ) : K) * x

/-- `MULPM`: `(a + i b) = conj(c + i d) * (e + i f)`. -/
def mulpm (c d e f : K) : K × K := (c * e + d * f, c * f - d * e)

/-- `POCKETFFT_REARRANGE`. -/
def rearrange (x y : Cmplx K) : Cmplx K × Cmplx K := (⟨x.r + y.r, x.i + y.i⟩, ⟨x.i - y.i, y.r - x.r⟩)

/-! ## Forward -/

def radf2First (cc : Nat → K) : List K := [cc 0 + cc 1, cc 0 - cc 1]

def radf2Middle (cc : Nat → K) : List K := [cc 0, -cc 1]

def radf2Rest (d : Nat → Cmplx K) : List (Cmplx K) :=
  let (r0, r1) := pm (d 0).r (d 1).r
  let (i0, i1) := pm (d 1).i (d 0).i
  [⟨r0, i0⟩, ⟨r1, i1⟩]

def radf3First (cc : Nat → K) : List K :=
  let taur : K := (-1 / 2 : ℚ)
  let taui := t.sinOf 1 3
  let cr2 := cc 1 + cc 2
  [cc 0 + cr2, cc 0 + taur * cr2, taui * (cc 2 - cc 1)]

def radf3Rest (d : Nat → Cmplx K) : List (Cmplx K) :=
  let taur : K := (-1 / 2 : ℚ)
  let taui := t.sinOf 1 3
  let (d2, d3) := rearrange (d 1) (d 2)
  let tr2 := (d 0).r + taur * d2.r
  let ti2 := (d 0).i + taur * d2.i
  let tr3 := taui * d3.r
  let ti3 := taui * d3.i
  let (r2, r1) := pm tr2 tr3
  let (i2, i1) := pm ti3 ti2
  [⟨(d 0).r + d2.r, (d 0).i + d2.i⟩, ⟨r1, i1⟩, ⟨r2, i2⟩]

def radf4First (cc : Nat → K) : List K :=
  let (tr1, ch2) := pm (cc 3) (cc 1)
  let (tr2, ch1) := pm (cc 0) (cc 2)
  let (ch0, ch3) := pm tr2 tr1
  [ch0, ch1, ch2, ch3]

def radf4Middle (cc : Nat → K) : List K :=
  let hsqt2 := t.cos (1 / 8)
  let ti1 := -hsqt2 * (cc 1 + cc 3)
  let tr1 := hsqt2 * (cc 1 - cc 3)
  let (ch0, ch2) := pm (cc 0) tr1
  let (ch3, ch1) := pm ti1 (cc 2)
  [ch0, ch1, ch2, ch3]

def radf4Rest (d : Nat → Cmplx K) : List (Cmplx K) :=
  let (tr1, tr4) := pm (d 3).r (d 1).r
  let (ti1, ti4) := pm (d 1).i (d 3).i
  let (tr2, tr3) := pm (d 0).r (d 2).r
  let (ti2, ti3) := pm (d 0).i (d 2).i
  let (r0, r3) := pm tr2 tr1
  let (i0, i3) := pm ti1 ti2
  let (r2, r1) := pm tr3 ti4
  let (i2, i1) := pm tr4 ti3
  [⟨r0, i0⟩, ⟨r1, i1⟩, ⟨r2, i2⟩, ⟨r3, i3⟩]

def radf5First (cc : Nat → K) : List K :=
  let tr11 := t.cosOf 1 5
  let ti11 := t.sinOf 1 5
  let tr12 := t.cosOf 2 5
  let ti12 := t.sinOf 2 5
  let (cr2, ci5) := pm (cc 4) (cc 1)
  let (cr3, ci4) := pm (cc 3) (cc 2)
  [cc 0 + cr2 + cr3, cc 0 + tr11 * cr2 + tr12 * cr3, ti11 * ci5 + ti12 * ci4,
    cc 0 + tr12 * cr2 + tr11 * cr3, ti12 * ci5 - ti11 * ci4]

def radf5Rest (d : Nat → Cmplx K) : List (Cmplx K) :=
  let tr11 := t.cosOf 1 5
  let ti11 := t.sinOf 1 5
  let tr12 := t.cosOf 2 5
  let ti12 := t.sinOf 2 5
  let (d2, d5) := rearrange (d 1) (d 4)
  let (d3, d4) := rearrange (d 2) (d 3)
  let tr2 := (d 0).r + tr11 * d2.r + tr12 * d3.r
  let ti2 := (d 0).i + tr11 * d2.i + tr12 * d3.i
  let tr3 := (d 0).r + tr12 * d2.r + tr11 * d3.r
  let ti3 := (d 0).i + tr12 * d2.i + tr11 * d3.i
  let tr5 := ti11 * d5.r + ti12 * d4.r
  let ti5 := ti11 * d5.i + ti12 * d4.i
  let tr4 := ti12 * d5.r - ti11 * d4.r
  let ti4 := ti12 * d5.i - ti11 * d4.i
  let (r2, r1) := pm tr2 tr5
  let (i2, i1) := pm ti5 ti2
  let (r4, r3) := pm tr3 tr4
  let (i4, i3) := pm ti4 ti3
  [⟨(d 0).r + d2.r + d3.r, (d 0).i + d2.i + d3.i⟩, ⟨r1, i1⟩, ⟨r2, i2⟩, ⟨r3, i3⟩, ⟨r4, i4⟩]

/-! ## Backward -/

def radb2First (cc : Nat → K) : List K := [cc 0 + cc 1, cc 0 - cc 1]

def radb2Middle (cc : Nat → K) : List K := [double (cc 0), -double (cc 1)]

def radb2Rest (d : Nat → Cmplx K) : List (Cmplx K) :=
  let (r0, tr2) := pm (d 0).r (d 1).r
  let (ti2, i0) := pm (d 0).i (d 1).i
  [⟨r0, i0⟩, ⟨tr2, ti2⟩]

def radb3First (cc : Nat → K) : List K :=
  let taur : K := (-1 / 2 : ℚ)
  let taui := t.sinOf 1 3
  let tr2 := double (cc 1)
  let cr2 := cc 0 + taur * tr2
  let ci3 := double taui * cc 2
  let (ch2, ch1) := pm cr2 ci3
  [cc 0 + tr2, ch1, ch2]

def radb3Rest (d : Nat → Cmplx K) : List (Cmplx K) :=
  let taur : K := (-1 / 2 : ℚ)
  let taui := t.sinOf 1 3
  let tr2 := (d 2).r + (d 1).r
  let ti2 := (d 2).i - (d 1).i
  let cr2 := (d 0).r + taur * tr2
  let ci2 := (d 0).i + taur * ti2
  let cr3 := taui * ((d 2).r - (d 1).r)
  let ci3 := taui * ((d 2).i + (d 1).i)
  let (dr3, dr2) := pm cr2 ci3
  let (di2, di3) := pm ci2 cr3
  [⟨(d 0).r + tr2, (d 0).i + ti2⟩, ⟨dr2, di2⟩, ⟨dr3, di3⟩]

def radb4First (cc : Nat → K) : List K :=
  let (tr2, tr1) := pm (cc 0) (cc 3)
  let tr3 := double (cc 1)
  let tr4 := double (cc 2)
  let (ch0, ch2) := pm tr2 tr3
  let (ch3, ch1) := pm tr1 tr4
  [ch0, ch1, ch2, ch3]

/-- `sqrt2` is twice the square root of one half. -/
def radb4Middle (cc : Nat → K) : List K :=
  let sqrt2 := double (t.cos (1 / 8))
  let (ti1, ti2) := pm (cc 3) (cc 1)
  let (tr2, tr1) := pm (cc 0) (cc 2)
  [tr2 + tr2, sqrt2 * (tr1 - ti1), ti2 + ti2, -sqrt2 * (tr1 + ti1)]

def radb4Rest (d : Nat → Cmplx K) : List (Cmplx K) :=
  let (tr2, tr1) := pm (d 0).r (d 3).r
  let (ti1, ti2) := pm (d 0).i (d 3).i
  let (tr4, ti3) := pm (d 2).i (d 1).i
  let (tr3, ti4) := pm (d 2).r (d 1).r
  let (r0, cr3) := pm tr2 tr3
  let (i0, ci3) := pm ti2 ti3
  let (cr4, cr2) := pm tr1 tr4
  let (ci2, ci4) := pm ti1 ti4
  [⟨r0, i0⟩, ⟨cr2, ci2⟩, ⟨cr3, ci3⟩, ⟨cr4, ci4⟩]

def radb5First (cc : Nat → K) : List K :=
  let tr11 := t.cosOf 1 5
  let ti11 := t.sinOf 1 5
  let tr12 := t.cosOf 2 5
  let ti12 := t.sinOf 2 5
  let ti5 := cc 2 + cc 2
  let ti4 := cc 4 + cc 4
  let tr2 := cc 1 + cc 1
  let tr3 := cc 3 + cc 3
  let cr2 := cc 0 + tr11 * tr2 + tr12 * tr3
  let cr3 := cc 0 + tr12 * tr2 + tr11 * tr3
  let (ci5, ci4) := mulpm ti5 ti4 ti11 ti12
  let (ch4, ch1) := pm cr2 ci5
  let (ch3, ch2) := pm cr3 ci4
  [cc 0 + tr2 + tr3, ch1, ch2, ch3, ch4]

def radb5Rest (d : Nat → Cmplx K) : List (Cmplx K) :=
  let tr11 := t.cosOf 1 5
  let ti11 := t.sinOf 1 5
  let tr12 := t.cosOf 2 5
  let ti12 := t.sinOf 2 5
  let (tr2, tr5) := pm (d 2).r (d 1).r
  let (ti5, ti2) := pm (d 2).i (d 1).i
  let (tr3, tr4) := pm (d 4).r (d 3).r
  let (ti4, ti3) := pm (d 4).i (d 3).i
  let cr2 := (d 0).r + tr11 * tr2 + tr12 * tr3
  let ci2 := (d 0).i + tr11 * ti2 + tr12 * ti3
  let cr3 := (d 0).r + tr12 * tr2 + tr11 * tr3
  let ci3 := (d 0).i + tr12 * ti2 + tr11 * ti3
  let (cr5, cr4) := mulpm tr5 tr4 ti11 ti12
  let (ci5, ci4) := mulpm ti5 ti4 ti11 ti12
  let (dr4, dr3) := pm cr3 ci4
  let (di3, di4) := pm ci3 cr4
  let (dr5, dr2) := pm cr2 ci5
  let (di2, di5) := pm ci2 cr5
  [⟨(d 0).r + tr2 + tr3, (d 0).i + ti2 + ti3⟩, ⟨dr2, di2⟩, ⟨dr3, di3⟩, ⟨dr4, di4⟩, ⟨dr5, di5⟩]

end Bodies

/-! ## Folding the complex butterflies -/

section Fold

variable {K : Type} [Field K]

/-- The complex conjugate. -/
def Cmplx.conj (a : Cmplx K) : Cmplx K := ⟨a.r, -a.i⟩

/-- The results of a complex butterfly in the order of the half-complex rows. -/
def foldRow (ip : Nat) (Z : List (Cmplx K)) : List (Cmplx K) :=
  tabulate ip fun b =>
    if b % 2 = 0 then Z.getD (b / 2) 0 else (Z.getD (ip - b / 2 - 1) 0).conj

/-- The half-complex order of a spectrum. -/
def halfRow (ip : Nat) (Z : List (Cmplx K)) : List K :=
  tabulate ip fun b =>
    if b % 2 = 1 then (Z.getD (b / 2 + 1) 0).r
    else if b = 0 then (Z.getD 0 0).r else (Z.getD (b / 2) 0).i

/-- Real and imaginary parts in turn. -/
def midRow (ip : Nat) (Z : List (Cmplx K)) : List K :=
  tabulate ip fun b => if b % 2 = 0 then (Z.getD (b / 2) 0).r else (Z.getD (b / 2) 0).i

/-- The values of a butterfly from half-complex rows. -/
def unfoldRow (ip : Nat) (d : Nat → Cmplx K) (s : Nat) : Cmplx K :=
  if 2 * s < ip then d (2 * s) else (d (2 * (ip - s) - 1)).conj

/-- A spectrum from its half-complex order. -/
def unfoldHalf (ip : Nat) (c : Nat → K) (s : Nat) : Cmplx K :=
  if s = 0 then ⟨c 0, 0⟩
  else if 2 * s < ip then ⟨c (2 * s - 1), c (2 * s)⟩
  else if 2 * s = ip then ⟨c (2 * s - 1), 0⟩
  else ⟨c (2 * (ip - s) - 1), -c (2 * (ip - s))⟩

/-- A spectrum from the real and imaginary parts of its first half; the second half is conjugate. -/
def unfoldMid (ip : Nat) (c : Nat → K) (s : Nat) : Cmplx K :=
  if 2 * s < ip then ⟨c (2 * s), c (2 * s + 1)⟩
  else ⟨c (2 * (ip - s - 1)), -c (2 * (ip - s - 1) + 1)⟩

/-- A real number. -/
def Cmplx.ofReal (x : K) : Cmplx K := ⟨x, 0⟩

@[simp] theorem Cmplx.add_r (a b : Cmplx K) : (a + b).r = a.r + b.r := rfl

@[simp] theorem Cmplx.add_i (a b : Cmplx K) : (a + b).i = a.i + b.i := rfl

@[simp] theorem Cmplx.sub_r (a b : Cmplx K) : (a - b).r = a.r - b.r := rfl

@[simp] theorem Cmplx.sub_i (a b : Cmplx K) : (a - b).i = a.i - b.i := rfl

@[simp] theorem Cmplx.zero_r : (0 : Cmplx K).r = 0 := rfl

@[simp] theorem Cmplx.zero_i : (0 : Cmplx K).i = 0 := rfl

theorem double_eq (x : K) : double x = x + x := by
  rw [double, Rat.cast_ofNat, two_mul]

variable (t : Trig K) (d : Nat → Cmplx K) (c : Nat → K)

theorem radf2Rest_eq : radf2Rest d = foldRow 2 (butterfly2 d) := by
  change [_, _] = [_, _]
  simp [butterfly2, Cmplx.conj, Cmplx.ext_iff]
  ring

theorem radf3Rest_eq : radf3Rest t d = foldRow 3 (butterfly3 t true d) := by
  change [_, _, _] = [_, _, _]
  simp [butterfly3, pm, Cmplx.conj, Cmplx.ext_iff, partstep, Cmplx.scale, dirSign]
  split_ands <;> ring

theorem radf4Rest_eq : radf4Rest d = foldRow 4 (butterfly4 true d) := by
  change [_, _, _, _] = [_, _, _, _]
  simp [butterfly4, pm, Cmplx.conj, Cmplx.ext_iff, Cmplx.rotx90]
  split_ands <;> ring

theorem radf5Rest_eq : radf5Rest t d = foldRow 5 (butterfly5 t true d) := by
  change [_, _, _, _, _] = [_, _, _, _, _]
  simp [butterfly5, pm, Cmplx.conj, Cmplx.ext_iff, partstep, Cmplx.scale, dirSign]
  split_ands <;> ring

theorem radf2First_eq : radf2First c = halfRow 2 (butterfly2 fun j => .ofReal (c j)) := rfl

theorem radf3First_eq : radf3First t c = halfRow 3 (butterfly3 t true fun j => .ofReal (c j)) := by
  change [_, _, _] = [_, _, _]
  simp [butterfly3, pm, partstep, Cmplx.scale, dirSign, Cmplx.ofReal]
  split_ands <;> ring

theorem radf4First_eq : radf4First c = halfRow 4 (butterfly4 true fun j => .ofReal (c j)) := by
  change [_, _, _, _] = [_, _, _, _]
  simp [butterfly4, pm, Cmplx.rotx90, Cmplx.ofReal]
  ring

theorem radf5First_eq : radf5First t c = halfRow 5 (butterfly5 t true fun j => .ofReal (c j)) := by
  change [_, _, _, _, _] = [_, _, _, _, _]
  simp [butterfly5, pm, partstep, Cmplx.scale, dirSign, Cmplx.ofReal]
  split_ands <;> ring

/-- The values of a middle body are turned by multiples of half an angle of the butterfly. -/
def turned2 (fwd : Bool) (d : Nat → Cmplx K) : Nat → Cmplx K
  | 0 => d 0
  | _ => (d 1).rotx90 fwd

def turned4 (fwd : Bool) (d : Nat → Cmplx K) : Nat → Cmplx K
  | 0 => d 0
  | 1 => (d 1).rotx45 t fwd
  | 2 => (d 2).rotx90 fwd
  | _ => (d 3).rotx135 t fwd

theorem radf2Middle_eq :
    radf2Middle c = midRow 2 (butterfly2 (turned2 true fun j => .ofReal (c j))) := by
  change [_, _] = [_, _]
  simp [butterfly2, turned2, Cmplx.rotx90, Cmplx.ofReal]

theorem radf4Middle_eq :
    radf4Middle t c = midRow 4 (butterfly4 true (turned4 t true fun j => .ofReal (c j))) := by
  change [_, _, _, _] = [_, _, _, _]
  simp [butterfly4, pm, turned4, Cmplx.rotx90, Cmplx.rotx45, Cmplx.rotx135, Cmplx.ofReal]
  split_ands <;> ring

theorem radb2Rest_eq : radb2Rest d = butterfly2 (unfoldRow 2 d) := by
  change [_, _] = [_, _]
  simp [unfoldRow, Cmplx.conj, Cmplx.ext_iff]
  ring

theorem radb3Rest_eq : radb3Rest t d = butterfly3 t false (unfoldRow 3 d) := by
  change [_, _, _] = [_, _, _]
  simp [unfoldRow, pm, Cmplx.conj, Cmplx.ext_iff, partstep, Cmplx.scale, dirSign]
  split_ands <;> ring

theorem radb4Rest_eq : radb4Rest d = butterfly4 false (unfoldRow 4 d) := by
  change [_, _, _, _] = [_, _, _, _]
  simp [unfoldRow, Cmplx.conj, Cmplx.ext_iff, Cmplx.rotx90]
  split_ands <;> ring

theorem radb5Rest_eq : radb5Rest t d = butterfly5 t false (unfoldRow 5 d) := by
  change [_, _, _, _, _] = [_, _, _, _, _]
  simp [unfoldRow, pm, Cmplx.conj, Cmplx.ext_iff, partstep, Cmplx.scale, dirSign]
  split_ands <;> ring

theorem radb2First_eq : radb2First c = (butterfly2 (unfoldHalf 2 c)).map Cmplx.r := by
  change [_, _] = [_, _]
  simp [unfoldHalf]

theorem radb3First_eq : radb3First t c = (butterfly3 t false (unfoldHalf 3 c)).map Cmplx.r := by
  change [_, _, _] = [_, _, _]
  simp [unfoldHalf, pm, partstep, Cmplx.scale, dirSign, double_eq]
  split_ands <;> ring

theorem radb4First_eq : radb4First c = (butterfly4 false (unfoldHalf 4 c)).map Cmplx.r := by
  change [_, _, _, _] = [_, _, _, _]
  simp [unfoldHalf, Cmplx.rotx90, double_eq]
  split_ands <;> ring

theorem radb5First_eq : radb5First t c = (butterfly5 t false (unfoldHalf 5 c)).map Cmplx.r := by
  change [_, _, _, _, _] = [_, _, _, _, _]
  simp [unfoldHalf, pm, partstep, Cmplx.scale, dirSign]
  split_ands <;> ring

theorem radb2Middle_eq : radb2Middle c =
    (tabulate 2 (turned2 false fun j => (butterfly2 (unfoldMid 2 c)).getD j 0)).map Cmplx.r := by
  change [_, _] = [_, _]
  simp [unfoldMid, butterfly2, turned2, Cmplx.rotx90, double_eq]

theorem radb4Middle_eq : radb4Middle t c =
    (tabulate 4 (turned4 t false fun j => (butterfly4 false (unfoldMid 4 c)).getD j 0)).map
      Cmplx.r := by
  change [_, _, _, _] = [_, _, _, _]
  simp [unfoldMid, butterfly4, pm, turned4, Cmplx.rotx90, Cmplx.rotx45, Cmplx.rotx135, double_eq]
  split_ands <;> ring

end Fold

/-! ## Over the real numbers -/

/-- The body gives the half-complex order of the transform of `ip` real values. -/
def FirstRadix (ip : Nat) (body : (Nat → ℝ) → List ℝ) : Prop :=
  ∀ c, body c = tabulate ip (halfCell (dft true ip fun j => (c j : ℂ)))

/-- The same for the bins halfway. -/
def MiddleRadix (ip : Nat) (body : (Nat → ℝ) → List ℝ) : Prop :=
  ∀ c, body c = tabulate ip (midPart (dft true ip fun j => c j * twiddle true (2 * ip) j))

/-- The body gives the transform of `ip` complex values in the order of the rows. -/
def RestRadix (ip : Nat) (body : (Nat → Cmplx ℝ) → List (Cmplx ℝ)) : Prop :=
  ∀ (d : Nat → Cmplx ℝ) (z : Nat → ℂ), (∀ j, j < ip → d j = ofComplex (z j)) →
    body d = tabulate ip fun b => ofComplex (folded ip (dft true ip z) b)

/-- The body takes the half-complex order of a spectrum of `ip` bins to its signal. -/
def FirstInverse (ip : Nat) (body : (Nat → ℝ) → List ℝ) : Prop :=
  ∀ (c : Nat → ℝ) (E : Nat → ℂ), Conjugate ip E → (∀ b, b < ip → c b = halfCell E b) →
    body c = tabulate ip fun j => (dft false ip E j).re

/-- The same for the bins halfway. -/
def MiddleInverse (ip : Nat) (body : (Nat → ℝ) → List ℝ) : Prop :=
  ∀ (c : Nat → ℝ) (E : Nat → ℂ), (∀ s, s < ip → E (ip - s - 1) = (starRingEnd ℂ) (E s)) →
    (∀ b, b < ip → c b = midPart E b) →
    body c = tabulate ip fun j => (dft false ip E j * twiddle false (2 * ip) j).re

/-- The body takes values in the order of the rows to their transform. -/
def RestInverse (ip : Nat) (body : (Nat → Cmplx ℝ) → List (Cmplx ℝ)) : Prop :=
  ∀ (d : Nat → Cmplx ℝ) (E : Nat → ℂ), (∀ b, b < ip → d b = ofComplex (folded ip E b)) →
    body d = tabulate ip fun j => ofComplex (dft false ip E j)

section Transfer

variable {ip : Nat} {bf : (Nat → Cmplx ℝ) → List (Cmplx ℝ)}

theorem conj_ofComplex (z : ℂ) : (ofComplex z).conj = ofComplex ((starRingEnd ℂ) z) := rfl

theorem ofReal_eq (x : ℝ) : Cmplx.ofReal x = ofComplex (x : ℂ) := rfl

theorem getD_tabulate {α : Type} {f : Nat → α} {p : Nat} (below : p < ip) (v : α) :
    (tabulate ip f).getD p v = f p := by
  rw [List.getD_eq_getElem?_getD, getElem?_tabulate below, Option.getD_some]

theorem firstRadix_of (radix : Radix true ip bf) {body : (Nat → ℝ) → List ℝ}
    (same : ∀ c, body c = halfRow ip (bf fun j => .ofReal (c j))) : FirstRadix ip body := by
  intro c
  rw [same, radix _ (fun j => (c j : ℂ)) fun j _ => ofReal_eq (c j), halfRow]
  refine tabulate_congr fun b below => ?_
  rw [halfCell]
  split
  · rw [getD_tabulate (by omega)]
    rfl
  · split
    · rw [getD_tabulate (by omega)]
      rfl
    · rw [getD_tabulate (by omega)]
      rfl

theorem restRadix_of (radix : Radix true ip bf) {body : (Nat → Cmplx ℝ) → List (Cmplx ℝ)}
    (same : ∀ d, body d = foldRow ip (bf d)) : RestRadix ip body := by
  intro d z samples
  rw [same, radix d z samples, foldRow]
  refine tabulate_congr fun b below => ?_
  rw [folded]
  split
  · rw [getD_tabulate (by omega)]
  · rw [getD_tabulate (by omega), conj_ofComplex]

/-- Value `j` is multiplied with half the angle of the butterfly `j` times. -/
def Turns (fwd : Bool) (ip : Nat) (turned : (Nat → Cmplx ℝ) → Nat → Cmplx ℝ) : Prop :=
  ∀ (d : Nat → Cmplx ℝ) (z : Nat → ℂ), (∀ j, j < ip → d j = ofComplex (z j)) → ∀ j, j < ip →
    turned d j = ofComplex (z j * twiddle fwd (2 * ip) j)

theorem turns2 (fwd : Bool) : Turns fwd 2 (turned2 fwd) := by
  intro d z samples j below
  rcases j with _ | _ | j
  · rw [twiddle_zero, mul_one]
    exact samples 0 below
  · change (d 1).rotx90 fwd = _
    have turn : twiddle fwd (2 * 2) 1 = twiddle fwd 8 1 ^ 2 := by
      rw [← twiddle_mul, ← twiddle_cancel (by decide : 0 < 2)]
    rw [samples 1 below, rotx90_eq, turn]
  · omega

theorem turns4 (fwd : Bool) : Turns fwd 4 (turned4 Trig.real fwd) := by
  intro d z samples j below
  rcases j with _ | _ | _ | _ | j
  · rw [twiddle_zero, mul_one]
    exact samples 0 below
  · change (d 1).rotx45 Trig.real fwd = _
    rw [samples 1 below, rotx45_eq]
  · change (d 2).rotx90 fwd = _
    have turn : twiddle fwd (2 * 4) 2 = twiddle fwd 8 1 ^ 2 := by rw [← twiddle_mul]
    rw [samples 2 below, rotx90_eq, turn]
  · change (d 3).rotx135 Trig.real fwd = _
    have turn : twiddle fwd (2 * 4) 3 = twiddle fwd 8 1 ^ 3 := by rw [← twiddle_mul]
    rw [samples 3 below, rotx135_eq, turn]
  · omega

theorem middleRadix_of (radix : Radix true ip bf) {body : (Nat → ℝ) → List ℝ}
    {turned : (Nat → Cmplx ℝ) → Nat → Cmplx ℝ} (turns : Turns true ip turned)
    (same : ∀ c, body c = midRow ip (bf (turned fun j => .ofReal (c j)))) :
    MiddleRadix ip body := by
  intro c
  rw [same, radix _ (fun j => c j * twiddle true (2 * ip) j)
    (turns _ (fun j => (c j : ℂ)) fun j _ => ofReal_eq (c j)), midRow]
  refine tabulate_congr fun b below => ?_
  rw [midPart]
  split
  · rw [getD_tabulate (by omega)]
    rfl
  · rw [getD_tabulate (by omega)]
    rfl

theorem restInverse_of (radix : Radix false ip bf) {body : (Nat → Cmplx ℝ) → List (Cmplx ℝ)}
    (same : ∀ d, body d = bf (unfoldRow ip d)) : RestInverse ip body := by
  intro d E rows
  rw [same]
  refine radix _ E fun s below => ?_
  rw [unfoldRow]
  split
  · rename_i first
    rw [rows _ first, folded, if_pos (by omega)]
    congr 2
    omega
  · rw [rows _ (by omega), folded, if_neg (by omega), conj_ofComplex, Complex.conj_conj]
    congr 2
    omega

theorem firstInverse_of (radix : Radix false ip bf) {body : (Nat → ℝ) → List ℝ}
    (same : ∀ c, body c = (bf (unfoldHalf ip c)).map Cmplx.r) : FirstInverse ip body := by
  intro c E conjugate cells
  have samples : ∀ s, s < ip → unfoldHalf ip c s = ofComplex (E s) := by
    intro s below
    rw [unfoldHalf]
    by_cases first : s = 0
    · rw [if_pos first, first, cells 0 (by omega), halfCell_zero]
      exact Cmplx.ext rfl conjugate.real.symm
    rw [if_neg first]
    by_cases low : 2 * s < ip
    · rw [if_pos low, cells _ (by omega), cells _ low, halfCell_re (by omega),
        halfCell_im (by omega)]
      rfl
    rw [if_neg low]
    have flipped := conjugate.flip (ip - s) (by omega)
    have back : ip - (ip - s) = s := by omega
    rw [back] at flipped
    by_cases middle : 2 * s = ip
    · have itself : ip - s = s := by omega
      rw [itself] at flipped
      rw [if_pos middle, cells _ (by omega), halfCell_re (by omega)]
      exact Cmplx.ext rfl (Complex.conj_eq_iff_im.mp flipped.symm).symm
    · rw [if_neg middle, cells _ (by omega), cells _ (by omega), halfCell_re (by omega),
        halfCell_im (by omega), flipped]
      rfl
  rw [same, radix _ E samples, map_tabulate]
  rfl

theorem middleInverse_of (even : ip % 2 = 0) (radix : Radix false ip bf)
    {body : (Nat → ℝ) → List ℝ} {turned : (Nat → Cmplx ℝ) → Nat → Cmplx ℝ}
    (turns : Turns false ip turned)
    (same : ∀ c, body c =
      (tabulate ip (turned fun j => (bf (unfoldMid ip c)).getD j 0)).map Cmplx.r) :
    MiddleInverse ip body := by
  intro c E symmetric cells
  have parts : ∀ s, 2 * s < ip → c (2 * s) = (E s).re ∧ c (2 * s + 1) = (E s).im := by
    intro s below
    have left : 2 * s / 2 = s := by omega
    have right : (2 * s + 1) / 2 = s := by omega
    rw [cells _ below, cells _ (by omega), midPart, midPart, if_pos (by omega),
      if_neg (by omega), left, right]
    exact ⟨rfl, rfl⟩
  have samples : ∀ s, s < ip → unfoldMid ip c s = ofComplex (E s) := by
    intro s below
    rw [unfoldMid]
    split
    · rename_i low
      rw [(parts s low).1, (parts s low).2]
      rfl
    · have flipped := symmetric (ip - s - 1) (by omega)
      have back : ip - (ip - s - 1) - 1 = s := by omega
      rw [back] at flipped
      rw [(parts (ip - s - 1) (by omega)).1, (parts (ip - s - 1) (by omega)).2, flipped]
      rfl
  rw [same, radix _ E samples, map_tabulate]
  refine tabulate_congr fun j below => ?_
  rw [turns _ (dft false ip E) (fun j below => getD_tabulate below _) j below]
  rfl

end Transfer

/-! ## The bodies -/

theorem first2 : FirstRadix 2 radf2First := firstRadix_of (radix2 true) radf2First_eq

theorem first3 : FirstRadix 3 (radf3First Trig.real) :=
  firstRadix_of (radix3 true) (radf3First_eq Trig.real)

theorem first4 : FirstRadix 4 radf4First := firstRadix_of (radix4 true) radf4First_eq

theorem first5 : FirstRadix 5 (radf5First Trig.real) :=
  firstRadix_of (radix5 true) (radf5First_eq Trig.real)

theorem middle2 : MiddleRadix 2 radf2Middle :=
  middleRadix_of (radix2 true) (turns2 true) radf2Middle_eq

theorem middle4 : MiddleRadix 4 (radf4Middle Trig.real) :=
  middleRadix_of (radix4 true) (turns4 true) (radf4Middle_eq Trig.real)

theorem rest2 : RestRadix 2 radf2Rest := restRadix_of (radix2 true) radf2Rest_eq

theorem rest3 : RestRadix 3 (radf3Rest Trig.real) :=
  restRadix_of (radix3 true) (radf3Rest_eq Trig.real)

theorem rest4 : RestRadix 4 radf4Rest := restRadix_of (radix4 true) radf4Rest_eq

theorem rest5 : RestRadix 5 (radf5Rest Trig.real) :=
  restRadix_of (radix5 true) (radf5Rest_eq Trig.real)

theorem firstBack2 : FirstInverse 2 radb2First := firstInverse_of (radix2 false) radb2First_eq

theorem firstBack3 : FirstInverse 3 (radb3First Trig.real) :=
  firstInverse_of (radix3 false) (radb3First_eq Trig.real)

theorem firstBack4 : FirstInverse 4 radb4First := firstInverse_of (radix4 false) radb4First_eq

theorem firstBack5 : FirstInverse 5 (radb5First Trig.real) :=
  firstInverse_of (radix5 false) (radb5First_eq Trig.real)

theorem middleBack2 : MiddleInverse 2 radb2Middle :=
  middleInverse_of rfl (radix2 false) (turns2 false) radb2Middle_eq

theorem middleBack4 : MiddleInverse 4 (radb4Middle Trig.real) :=
  middleInverse_of rfl (radix4 false) (turns4 false) (radb4Middle_eq Trig.real)

theorem restBack2 : RestInverse 2 radb2Rest := restInverse_of (radix2 false) radb2Rest_eq

theorem restBack3 : RestInverse 3 (radb3Rest Trig.real) :=
  restInverse_of (radix3 false) (radb3Rest_eq Trig.real)

theorem restBack4 : RestInverse 4 radb4Rest := restInverse_of (radix4 false) radb4Rest_eq

theorem restBack5 : RestInverse 5 (radb5Rest Trig.real) :=
  restInverse_of (radix5 false) (radb5Rest_eq Trig.real)

end DspDispatch.Pocketfft
