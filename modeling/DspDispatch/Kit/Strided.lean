import DspDispatch.Kit.Memory
import Mathlib.Algebra.Order.Ring.Int

/-!
# Batched operations on strided lanes

Batched numerical libraries describe their data as a number of lanes, each a run
of adjacent cells, a fixed distance apart. `Strided` is such a description for
the input and the output of an operation that maps every input lane to an output
lane. Distances are integers: a negative one places later lanes before the
pointer.

* `Frame` says which cells an operation may change, for any memory and pointers.
* `Maps f` adds what it writes, for operands that `Fits`: all lanes lie inside
  their blocks, output lanes do not meet each other nor the input.
* `Strided.apply f` is an operation with this behaviour (`apply_maps`), and
  `Strided.careless f` one that does no more than it must: operands that do not
  fit and destroyed inputs are spoilt.
* Lanes laid out back to back are one buffer: there `Maps f` leaves exactly one
  memory (`Maps.eq_write`).
-/

namespace Kit

universe u

variable {α : Type u}

/-! ## Signed distances -/

/-- Pointer arithmetic with a signed distance. -/
def Ptr.shift (p : Ptr) (d : Int) : Ptr := ⟨p.block, (p.offset + d).toNat⟩

@[simp] theorem Ptr.shift_block (p : Ptr) (d : Int) : (p.shift d).block = p.block := rfl

theorem Ptr.shift_natCast (p : Ptr) (k : Nat) : p.shift k = p.add k := by
  simp only [Ptr.shift, Ptr.add, Ptr.mk.injEq, true_and]
  omega

/-! ## Strided lanes -/

/-- `count` lanes of `inLen` cells that start `idist` cells apart, and as many
lanes of `outLen` cells that start `odist` cells apart. -/
structure Strided where
  count : Nat
  inLen : Nat
  outLen : Nat
  idist : Int
  odist : Int

namespace Strided

variable (S : Strided)

/-- Input lane `b`. -/
def laneIn (m : Mem α) (p : Ptr) (b : Nat) : List α := m.read (p.shift (b * S.idist)) S.inLen

/-- Output lane `b`. -/
def laneOut (m : Mem α) (q : Ptr) (b : Nat) : List α := m.read (q.shift (b * S.odist)) S.outLen

/-- The cell belongs to input lane `b`. -/
def ReadsAt (p : Ptr) (b block off : Nat) : Prop :=
  block = p.block ∧ (p.offset : Int) + b * S.idist ≤ off ∧
    (off : Int) < p.offset + b * S.idist + S.inLen

/-- The cell belongs to output lane `b`. -/
def WritesAt (q : Ptr) (b block off : Nat) : Prop :=
  block = q.block ∧ (q.offset : Int) + b * S.odist ≤ off ∧
    (off : Int) < q.offset + b * S.odist + S.outLen

/-- The cell belongs to an input lane. -/
def Reads (p : Ptr) (block off : Nat) : Prop := ∃ b, b < S.count ∧ S.ReadsAt p b block off

/-- The cell belongs to an output lane. -/
def Writes (q : Ptr) (block off : Nat) : Prop := ∃ b, b < S.count ∧ S.WritesAt q b block off

variable {S} in
theorem Reads.block_eq {p : Ptr} {block off : Nat} (reads : S.Reads p block off) :
    block = p.block := by
  obtain ⟨b, -, same, -⟩ := reads
  exact same

variable {S} in
theorem Writes.block_eq {q : Ptr} {block off : Nat} (writes : S.Writes q block off) :
    block = q.block := by
  obtain ⟨b, -, same, -⟩ := writes
  exact same

/-- The operation keeps the sizes of all blocks and changes cells of output lanes
only, or also of input lanes if it destroys its input. -/
structure Frame (destroys : Prop) (m : Mem α) (p q : Ptr) (m' : Mem α) : Prop where
  sizes : ∀ block, (m'.cells block).length = (m.cells block).length
  kept : ∀ block off, ¬ S.Writes q block off → ¬ (destroys ∧ S.Reads p block off) →
    (m'.cells block)[off]? = (m.cells block)[off]?

/-- All lanes lie inside their blocks, and the output lanes do not meet each
other nor an input lane. -/
structure Fits (m : Mem α) (p q : Ptr) : Prop where
  input : ∀ b, b < S.count →
    0 ≤ (p.offset : Int) + b * S.idist ∧ m.Holds (p.shift (b * S.idist)) S.inLen
  output : ∀ b, b < S.count →
    0 ≤ (q.offset : Int) + b * S.odist ∧ m.Holds (q.shift (b * S.odist)) S.outLen
  separate : ∀ b c block off, b < S.count → c < S.count →
    S.WritesAt q b block off → S.WritesAt q c block off → b = c
  apart : ∀ block off, S.Writes q block off → ¬ S.Reads p block off

/-- Every output lane is the input lane of the same number, the lanes lie inside
their block and do not meet each other. -/
structure InPlace (m : Mem α) (p : Ptr) : Prop where
  dist_eq : S.idist = S.odist
  len_eq : S.inLen = S.outLen
  output : ∀ b, b < S.count →
    0 ≤ (p.offset : Int) + b * S.odist ∧ m.Holds (p.shift (b * S.odist)) S.outLen
  separate : ∀ b c block off, b < S.count → c < S.count →
    S.WritesAt p b block off → S.WritesAt p c block off → b = c

/-- The operation writes `f` of every input lane to the output lane. -/
structure Maps (f : List α → List α) (destroys : Prop) (m : Mem α) (p q : Ptr) (m' : Mem α) :
    Prop extends S.Frame destroys m p q m' where
  lanes_eq : ∀ b, b < S.count → S.laneOut m' q b = f (S.laneIn m p b)

/-! ## An operation with this behaviour -/

open Classical in
/-- Write `f` of the input lanes to the output lanes, cell by cell. -/
noncomputable def apply (f : List α → List α) (m : Mem α) (p q : Ptr) : Mem α :=
  ⟨fun block => (m.cells block).mapIdx fun off old =>
    if written : S.Writes q block off then
      ((f (S.laneIn m p written.choose))[off - (q.offset + written.choose * S.odist).toNat]?).getD
        old
    else old⟩

theorem apply_frame (f : List α → List α) (destroys : Prop) (m : Mem α) (p q : Ptr) :
    S.Frame destroys m p q (S.apply f m p q) where
  sizes block := List.length_mapIdx
  kept block off outside _ := by
    simp only [apply, List.getElem?_mapIdx, dif_neg outside, Option.map_id']

/-- The lanes written are `f` of the lanes read, whether or not they meet. -/
theorem apply_laneOut {f : List α → List α} {m : Mem α} {p q : Ptr}
    (length : ∀ xs, xs.length = S.inLen → (f xs).length = S.outLen)
    (output : ∀ b, b < S.count →
      0 ≤ (q.offset : Int) + b * S.odist ∧ m.Holds (q.shift (b * S.odist)) S.outLen)
    (separate : ∀ b c block off, b < S.count → c < S.count →
      S.WritesAt q b block off → S.WritesAt q c block off → b = c)
    {b : Nat} (below : b < S.count) (input : m.Holds (p.shift (b * S.idist)) S.inLen) :
    S.laneOut (S.apply f m p q) q b = f (S.laneIn m p b) := by
  obtain ⟨start, holds⟩ := output b below
  have laneLength : (f (S.laneIn m p b)).length = S.outLen := length _ (Mem.length_read input)
  apply List.ext_getElem?
  intro i
  rw [laneOut, Mem.read, getElem?_segment]
  by_cases inLane : i < S.outLen
  · have at_b : S.WritesAt q b q.block ((q.shift (b * S.odist)).offset + i) := by
      refine ⟨rfl, ?_, ?_⟩
      · simp only [Ptr.shift]
        omega
      · simp only [Ptr.shift]
        omega
    have written : S.Writes q q.block ((q.shift (b * S.odist)).offset + i) := ⟨b, below, at_b⟩
    have choice : written.choose = b :=
      separate _ _ _ _ written.choose_spec.1 below written.choose_spec.2 at_b
    have inside : (q.shift (b * S.odist)).offset + i < (m.cells q.block).length := by
      simp only [Mem.Holds, Ptr.shift_block] at holds
      omega
    rw [if_pos inLane]
    simp only [apply, Ptr.shift_block, List.getElem?_mapIdx, List.getElem?_eq_getElem inside,
      Option.map_some, dif_pos written, choice]
    have place : (q.shift (b * S.odist)).offset + i - ((q.offset : Int) + b * S.odist).toNat =
        i := by
      simp only [Ptr.shift]
      omega
    rw [place, List.getElem?_eq_getElem (by omega), Option.getD_some]
  · rw [if_neg inLane, List.getElem?_eq_none (by omega)]

theorem apply_maps {f : List α → List α} (destroys : Prop) {m : Mem α} {p q : Ptr}
    (length : ∀ xs, xs.length = S.inLen → (f xs).length = S.outLen) (fits : S.Fits m p q) :
    S.Maps f destroys m p q (S.apply f m p q) where
  toFrame := S.apply_frame f destroys m p q
  lanes_eq b below :=
    S.apply_laneOut length fits.output fits.separate below (fits.input b below).2

/-- In place every lane becomes `f` of what it was. -/
theorem InPlace.apply_laneOut {S : Strided} {f : List α → List α} {m : Mem α} {p : Ptr}
    (inPlace : S.InPlace m p) (length : ∀ xs, xs.length = S.inLen → (f xs).length = S.outLen)
    {b : Nat} (below : b < S.count) :
    S.laneOut (S.apply f m p p) p b = f (S.laneIn m p b) := by
  refine S.apply_laneOut length inPlace.output inPlace.separate below ?_
  rw [inPlace.dist_eq, inPlace.len_eq]
  exact (inPlace.output b below).2

/-! ## A careless operation with this behaviour -/

open Classical in
/-- Set the cells of a set to `v`. -/
noncomputable def fill (cells : Nat → Nat → Prop) (v : α) (m : Mem α) : Mem α :=
  ⟨fun block => (m.cells block).mapIdx fun off old => if cells block off then v else old⟩

theorem length_fill {cells : Nat → Nat → Prop} {v : α} {m : Mem α} {block : Nat} :
    ((fill cells v m).cells block).length = (m.cells block).length := List.length_mapIdx

theorem getElem?_fill_of_not {cells : Nat → Nat → Prop} {v : α} {m : Mem α} {block off : Nat}
    (outside : ¬ cells block off) :
    ((fill cells v m).cells block)[off]? = (m.cells block)[off]? := by
  simp only [fill, List.getElem?_mapIdx, if_neg outside, Option.map_id']

theorem getElem?_fill_of {cells : Nat → Nat → Prop} {v : α} {m : Mem α} {block off : Nat}
    (inside : cells block off) (below : off < (m.cells block).length) :
    ((fill cells v m).cells block)[off]? = some v := by
  simp only [fill, List.getElem?_mapIdx, if_pos inside, List.getElem?_eq_getElem below,
    Option.map_some]

open Classical in
/-- Operands that fit are mapped; of others the output lanes are set to `v`. A
destroyed input is set to `v`, too. -/
noncomputable def careless (f : List α → List α) (v : α) (destroys : Prop) (m : Mem α) (p q : Ptr) :
    Mem α :=
  if S.Fits m p q then fill (fun block off => destroys ∧ S.Reads p block off) v (S.apply f m p q)
  else fill (fun block off => S.Writes q block off ∨ destroys ∧ S.Reads p block off) v m

variable {f : List α → List α} {v : α} {destroys : Prop} {m : Mem α} {p q : Ptr}

theorem careless_frame : S.Frame destroys m p q (S.careless f v destroys m p q) where
  sizes block := by
    unfold careless
    split
    · rw [length_fill, (S.apply_frame f destroys m p q).sizes]
    · rw [length_fill]
  kept block off outside kept := by
    unfold careless
    split
    · rw [getElem?_fill_of_not kept, (S.apply_frame f destroys m p q).kept _ _ outside kept]
    · rw [getElem?_fill_of_not (by tauto)]

theorem careless_maps (length : ∀ xs, xs.length = S.inLen → (f xs).length = S.outLen)
    (fits : S.Fits m p q) : S.Maps f destroys m p q (S.careless f v destroys m p q) where
  toFrame := S.careless_frame
  lanes_eq b below := by
    have lane := (S.apply_maps destroys length fits).lanes_eq b below
    have start := (fits.output b below).1
    rw [← lane]
    refine segment_eq_segment fun i small => ?_
    rw [careless, if_pos fits]
    refine getElem?_fill_of_not ?_
    intro both
    rcases both with ⟨-, reads⟩
    refine fits.apart _ _ ⟨b, below, rfl, ?_, ?_⟩ reads
    · simp only [Ptr.shift]
      omega
    · simp only [Ptr.shift]
      omega

/-- A destroyed input cell holds `v` afterwards. -/
theorem careless_reads {block off : Nat} (destroyed : destroys) (reads : S.Reads p block off)
    (below : off < (m.cells block).length) :
    ((S.careless f v destroys m p q).cells block)[off]? = some v := by
  unfold careless
  split
  · refine getElem?_fill_of ⟨destroyed, reads⟩ ?_
    rw [(S.apply_frame f destroys m p q).sizes]
    exact below
  · exact getElem?_fill_of (.inr ⟨destroyed, reads⟩) below

/-- An output cell of operands that do not fit holds `v` afterwards. -/
theorem careless_writes {block off : Nat} (unfit : ¬ S.Fits m p q) (writes : S.Writes q block off)
    (below : off < (m.cells block).length) :
    ((S.careless f v destroys m p q).cells block)[off]? = some v := by
  rw [careless, if_neg unfit]
  exact getElem?_fill_of (.inl writes) below

/-! ## Lanes back to back -/

/-- Lanes that fill one input and one output buffer. -/
def contiguous (count inLen outLen : Nat) : Strided := ⟨count, inLen, outLen, inLen, outLen⟩

variable {count inLen outLen : Nat} {m' : Mem α}

theorem contiguous_laneIn (b : Nat) :
    (contiguous count inLen outLen).laneIn m p b = m.read (p.add (b * inLen)) inLen := by
  have distance : (b : Int) * (inLen : Int) = ((b * inLen : Nat) : Int) := by push_cast; rfl
  simp only [laneIn, contiguous, distance, Ptr.shift_natCast]

theorem contiguous_laneOut (b : Nat) :
    (contiguous count inLen outLen).laneOut m q b = m.read (q.add (b * outLen)) outLen := by
  have distance : (b : Int) * (outLen : Int) = ((b * outLen : Nat) : Int) := by push_cast; rfl
  simp only [laneOut, contiguous, distance, Ptr.shift_natCast]

/-- Every position of a buffer of back to back lanes lies in one of them. -/
theorem exists_lane_iff {n len k off : Nat} :
    (∃ b, b < n ∧ k + b * len ≤ off ∧ off < k + b * len + len) ↔
      k ≤ off ∧ off < k + n * len := by
  constructor
  · intro lane
    rcases lane with ⟨b, below, start, stop⟩
    have inside := lane_end_le len below
    omega
  · intro inside
    rcases inside with ⟨start, stop⟩
    have small : off - k < len * n := by
      rw [Nat.mul_comm]
      omega
    have positive : 0 < len := Nat.pos_of_ne_zero (by rintro rfl; simp at small)
    have before := Nat.div_mul_le_self (off - k) len
    have after := Nat.lt_div_mul_add positive (a := off - k)
    exact ⟨(off - k) / len, Nat.div_lt_of_lt_mul small, by omega, by omega⟩

/-- Adjacent input lanes fill a buffer. -/
theorem reads_of_adjacent {S : Strided} (adjacent : S.idist = S.inLen) {p : Ptr} {block off : Nat} :
    S.Reads p block off ↔
      block = p.block ∧ p.offset ≤ off ∧ off < p.offset + S.count * S.inLen := by
  rw [← exists_lane_iff]
  simp only [Reads, ReadsAt, adjacent]
  constructor
  · intro lane
    rcases lane with ⟨b, below, same, start, stop⟩
    exact ⟨same, b, below, by exact_mod_cast start, by exact_mod_cast stop⟩
  · intro lane
    rcases lane with ⟨same, b, below, start, stop⟩
    exact ⟨b, below, same, by exact_mod_cast start, by exact_mod_cast stop⟩

/-- Adjacent output lanes fill a buffer. -/
theorem writes_of_adjacent {S : Strided} (adjacent : S.odist = S.outLen) {q : Ptr}
    {block off : Nat} :
    S.Writes q block off ↔
      block = q.block ∧ q.offset ≤ off ∧ off < q.offset + S.count * S.outLen := by
  rw [← exists_lane_iff]
  simp only [Writes, WritesAt, adjacent]
  constructor
  · intro lane
    rcases lane with ⟨b, below, same, start, stop⟩
    exact ⟨same, b, below, by exact_mod_cast start, by exact_mod_cast stop⟩
  · intro lane
    rcases lane with ⟨same, b, below, start, stop⟩
    exact ⟨b, below, same, by exact_mod_cast start, by exact_mod_cast stop⟩

/-- Shorter and closer output lanes lie inside the buffer of wider ones, unless later
lanes lie in front of the first. -/
theorem writes_inside {S : Strided} {n len : Nat} {q : Ptr} {block off : Nat}
    (count_le : S.count ≤ n) (len_le : S.outLen ≤ len) (dist_le : S.odist ≤ len)
    (forward : 0 ≤ S.odist ∨ S.count ≤ 1) (writes : S.Writes q block off) :
    block = q.block ∧ q.offset ≤ off ∧ off < q.offset + n * len := by
  obtain ⟨b, below, same, start, stop⟩ := writes
  have behind : 0 ≤ (b : Int) * S.odist := by
    rcases forward with nonneg | single
    · exact Int.mul_nonneg (Int.natCast_nonneg b) nonneg
    · have first : b = 0 := by omega
      rw [first, Nat.cast_zero, zero_mul]
  have before : (b : Int) * S.odist ≤ b * len :=
    Int.mul_le_mul_of_nonneg_left dist_le (Int.natCast_nonneg b)
  have inside : (b : Int) * len + len ≤ ((n * len : Nat) : Int) := by
    exact_mod_cast lane_end_le len (below.trans_le count_le)
  exact ⟨same, by omega, by omega⟩

/-- The input lanes fill the buffer. -/
theorem contiguous_reads {block off : Nat} :
    (contiguous count inLen outLen).Reads p block off ↔
      block = p.block ∧ p.offset ≤ off ∧ off < p.offset + count * inLen :=
  reads_of_adjacent rfl

/-- The output lanes fill the buffer. -/
theorem contiguous_writes {block off : Nat} :
    (contiguous count inLen outLen).Writes q block off ↔
      block = q.block ∧ q.offset ≤ off ∧ off < q.offset + count * outLen :=
  writes_of_adjacent rfl

/-- The output lanes lie inside the buffer. -/
theorem contiguous_output (holdsOut : m.Holds q (count * outLen)) {b : Nat} (below : b < count) :
    0 ≤ (q.offset : Int) + b * (contiguous count inLen outLen).odist ∧
      m.Holds (q.shift (b * (contiguous count inLen outLen).odist)) outLen := by
  have distance : (b : Int) * (outLen : Int) = ((b * outLen : Nat) : Int) := by push_cast; rfl
  simp only [contiguous, distance, Ptr.shift_natCast]
  exact ⟨by omega, holdsOut.mono (lane_end_le outLen below)⟩

/-- The output lanes do not meet. -/
theorem contiguous_separate {b c block off : Nat}
    (atB : (contiguous count inLen outLen).WritesAt q b block off)
    (atC : (contiguous count inLen outLen).WritesAt q c block off) : b = c := by
  obtain ⟨-, startB, stopB⟩ := atB
  obtain ⟨-, startC, stopC⟩ := atC
  simp only [contiguous] at startB stopB startC stopC
  norm_cast at startB stopB startC stopC
  rcases Nat.lt_trichotomy b c with before | same | after
  · have := lane_end_le outLen before
    omega
  · exact same
  · have := lane_end_le outLen after
    omega

/-- Two buffers with no cell in common fit. -/
theorem fits_contiguous (holdsIn : m.Holds p (count * inLen)) (holdsOut : m.Holds q (count * outLen))
    (apart : Apart p (count * inLen) q (count * outLen)) :
    (contiguous count inLen outLen).Fits m p q where
  input b below := by
    have distance : (b : Int) * (inLen : Int) = ((b * inLen : Nat) : Int) := by push_cast; rfl
    simp only [contiguous, distance, Ptr.shift_natCast]
    exact ⟨by omega, holdsIn.mono (lane_end_le inLen below)⟩
  output _ below := contiguous_output holdsOut below
  separate _ _ _ _ _ _ atB atC := contiguous_separate atB atC
  apart block off writes reads := by
    rw [contiguous_writes] at writes
    rw [contiguous_reads] at reads
    obtain ⟨sameOut, startOut, stopOut⟩ := writes
    obtain ⟨sameIn, startIn, stopIn⟩ := reads
    rcases apart with blocks | before | after
    · exact blocks (sameIn.symm.trans sameOut)
    · omega
    · omega

/-- One buffer of lanes can be transformed in place. -/
theorem inPlace_contiguous {len : Nat} (holds : m.Holds p (count * len)) :
    (contiguous count len len).InPlace m p where
  dist_eq := rfl
  len_eq := rfl
  output _ below := contiguous_output holds below
  separate _ _ _ _ _ _ atB atC := contiguous_separate atB atC

/-- In place the first cell is spoilt. -/
theorem careless_contiguous_self {len : Nat} (positive : 0 < count * len)
    (holds : m.Holds p (count * len)) :
    (((contiguous count len len).careless f v destroys m p p).cells p.block)[p.offset]? =
      some v := by
  have first : p.offset < (m.cells p.block).length := by
    rw [Mem.Holds] at holds
    omega
  have writes : (contiguous count len len).Writes p p.block p.offset :=
    contiguous_writes.mpr ⟨rfl, Nat.le_refl _, by omega⟩
  have reads : (contiguous count len len).Reads p p.block p.offset :=
    contiguous_reads.mpr ⟨rfl, Nat.le_refl _, by omega⟩
  exact careless_writes _ (fun fits => fits.apart _ _ writes reads) writes first

/-- What the lanes of a buffer hold after the operation. -/
theorem Maps.lanes_contiguous (maps : (contiguous count inLen outLen).Maps f destroys m p q m')
    (holdsOut : m.Holds q (count * outLen)) :
    m'.read q (count * outLen) = lanes count fun b => f (m.read (p.add (b * inLen)) inLen) := by
  have holds' : m'.Holds q (count * outLen) := by
    rw [Mem.Holds, maps.sizes]
    exact holdsOut
  rw [← lanes_segment (Mem.length_read holds')]
  apply lanes_congr
  intro b below
  have lane := maps.lanes_eq b below
  rw [contiguous_laneIn, contiguous_laneOut] at lane
  rw [← lane, Mem.read_add m' q (lane_end_le outLen below)]

/-- On buffers with no cell in common the operation leaves exactly one memory, up
to what it leaves in an input it destroys. -/
theorem Maps.eq_write (maps : (contiguous count inLen outLen).Maps f destroys m p q m')
    (holdsIn : m.Holds p (count * inLen)) (holdsOut : m.Holds q (count * outLen))
    (apart : Apart p (count * inLen) q (count * outLen)) :
    ∃ left, left.length = count * inLen ∧ (¬ destroys → left = m.read p (count * inLen)) ∧
      m' = (m.write p left).write q
        (lanes count fun b => f (m.read (p.add (b * inLen)) inLen)) := by
  have holdsIn' : m'.Holds p (count * inLen) := by
    rw [Mem.Holds, maps.sizes]
    exact holdsIn
  have holdsOut' : m'.Holds q (count * outLen) := by
    rw [Mem.Holds, maps.sizes]
    exact holdsOut
  have leftLength := Mem.length_read holdsIn'
  have outLength := Mem.length_read holdsOut'
  refine ⟨m'.read p (count * inLen), leftLength, ?_, ?_⟩
  · intro keeps
    apply segment_eq_segment
    intro i small
    refine maps.kept p.block (p.offset + i) ?_ (by tauto)
    rw [contiguous_writes]
    intro inside
    rcases inside with ⟨same, start, stop⟩
    rcases apart with blocks | before | after
    · exact blocks same
    · omega
    · omega
  · rw [← maps.lanes_contiguous holdsOut]
    have holdsLeft : m.Holds p (m'.read p (count * inLen)).length := by
      rw [leftLength]
      exact holdsIn
    have holdsRight : (m.write p (m'.read p (count * inLen))).Holds q
        (m'.read q (count * outLen)).length := by
      rw [Mem.holds_write holdsLeft, outLength]
      exact holdsOut
    apply Mem.ext_cells
    intro block off
    rw [Mem.getElem?_cells_write holdsRight, Mem.getElem?_cells_write holdsLeft, outLength,
      leftLength]
    by_cases written : block = q.block ∧ q.offset ≤ off ∧ off < q.offset + count * outLen
    · obtain ⟨rfl, start, stop⟩ := written
      rw [if_pos ⟨rfl, start, stop⟩, Mem.getElem?_read, if_pos (by omega), Mem.load]
      congr 1
      omega
    · rw [if_neg written]
      by_cases reads : block = p.block ∧ p.offset ≤ off ∧ off < p.offset + count * inLen
      · obtain ⟨rfl, start, stop⟩ := reads
        rw [if_pos ⟨rfl, start, stop⟩, Mem.getElem?_read, if_pos (by omega), Mem.load]
        congr 1
        omega
      · rw [if_neg reads]
        refine maps.kept block off ?_ ?_
        · rwa [contiguous_writes]
        · rw [contiguous_reads]
          tauto

end Strided

end Kit
