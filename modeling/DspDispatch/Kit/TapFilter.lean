import Mathlib.Algebra.BigOperators.Fin
import Mathlib.Data.List.OfFn
import Mathlib.Tactic.Common

/-!
# Tapped delay lines

A finite impulse response filter sees, at each stream position, the current
sample and a fixed number of earlier ones, all zero before the stream starts.

* `sampleAt xs j` is the stream `xs` at an integer position, zero outside.
* `delayLine n xs` is the last `n` samples of `xs` after `n` zeros: what a
  filter has to remember of the stream `xs`.
* `tapSum taps x` multiplies and accumulates in tap order, starting from zero.
  No law of addition or multiplication is assumed, so the statements about it
  hold for rounded arithmetic as well; `tapSum_eq_sum` is its value where
  addition is commutative and associative.
* `filterBlock taps h ys` filters the block `ys` behind the remembered samples
  `h`. `filterBlock_delayLine` says it computes the stream's convolution.
-/

namespace Kit

universe u v

variable {S : Type u} {T : Type v}

/-! ## Streams and what a filter remembers of them -/

/-- Push the block `ys` into the remembered samples `h`, keeping their number. -/
def shiftIn (h ys : List S) : List S := (h ++ ys).drop ys.length

theorem length_shiftIn (h ys : List S) : (shiftIn h ys).length = h.length := by
  simp [shiftIn]

section Delay

variable [Zero S]

/-- The stream at an integer position, zero before its first sample. -/
def sampleAt (xs : List S) (j : Int) : S := if 0 ≤ j then xs.getD j.toNat 0 else 0

/-- The last `n` samples of `n` zeros followed by `xs`. -/
def delayLine (n : Nat) (xs : List S) : List S := (List.replicate n 0 ++ xs).drop xs.length

theorem sampleAt_natCast (xs : List S) (n : Nat) : sampleAt xs n = xs.getD n 0 := by
  rw [sampleAt, if_pos (Int.natCast_nonneg n), Int.toNat_natCast]

theorem sampleAt_of_neg (xs : List S) {j : Int} (neg : j < 0) : sampleAt xs j = 0 :=
  if_neg (by omega)

/-- Samples before the end of the stream do not depend on what follows it. -/
theorem sampleAt_append_left (xs ys : List S) {j : Int} (inside : j < xs.length) :
    sampleAt (xs ++ ys) j = sampleAt xs j := by
  unfold sampleAt
  split
  · have small : j.toNat < xs.length := by omega
    simp [List.getD_eq_getElem?_getD, List.getElem?_append_left small]
  · rfl

theorem sampleAt_map {S' : Type u} [Zero S'] {f : S → S'} (zero : f 0 = 0) (xs : List S) (j : Int) :
    sampleAt (xs.map f) j = f (sampleAt xs j) := by
  unfold sampleAt
  split
  · rw [List.getD_eq_getElem?_getD, List.getD_eq_getElem?_getD, List.getElem?_map]
    cases xs[j.toNat]? with
    | none => exact zero.symm
    | some x => rfl
  · exact zero.symm

@[simp] theorem length_delayLine (n : Nat) (xs : List S) : (delayLine n xs).length = n := by
  simp [delayLine]

@[simp] theorem delayLine_nil (n : Nat) : delayLine n ([] : List S) = List.replicate n 0 := by
  simp [delayLine]

theorem delayLine_append_eq_drop (n : Nat) (xs ys : List S) :
    delayLine n xs ++ ys = (List.replicate n 0 ++ (xs ++ ys)).drop xs.length := by
  rw [← List.append_assoc, List.drop_append_of_le_length (by simp)]
  rfl

/-- Remembering a longer stream is pushing the new block into the old memory. -/
theorem delayLine_append (n : Nat) (xs ys : List S) :
    delayLine n (xs ++ ys) = shiftIn (delayLine n xs) ys := by
  rw [shiftIn, delayLine_append_eq_drop, List.drop_drop, delayLine, List.length_append]

/-- The remembered samples followed by a block hold the stream at every
position the block's samples look back to. -/
theorem getD_delayLine_append {n i k : Nat} (xs ys : List S) (back : k ≤ n) :
    (delayLine n xs ++ ys).getD (n + i - k) 0 =
      sampleAt (xs ++ ys) ((xs.length + i : Nat) - k : Int) := by
  rw [delayLine_append_eq_drop, List.getD_eq_getElem?_getD, List.getElem?_drop]
  by_cases early : xs.length + i < k
  · rw [sampleAt_of_neg _ (by omega),
      List.getElem?_append_left (by rw [List.length_replicate]; omega),
      List.getElem?_replicate, if_pos (by omega)]
    rfl
  · have position : ((xs.length + i : Nat) - k : Int) = ((xs.length + i - k : Nat) : Int) := by
      omega
    rw [position, sampleAt_natCast, List.getD_eq_getElem?_getD,
      List.getElem?_append_right (by rw [List.length_replicate]; omega), List.length_replicate]
    congr 2
    omega

end Delay

/-! ## Multiply and accumulate -/

section Accumulate

variable [Zero S] [Add S] [HMul S T S]

/-- `0 + x 0 * t₀ + x 1 * t₁ + …`, added from the left. -/
def tapSum (taps : List T) (x : Nat → S) : S :=
  taps.zipIdx.foldl (fun acc t => acc + x t.2 * t.1) 0

@[simp] theorem tapSum_nil (x : Nat → S) : tapSum ([] : List T) x = 0 := rfl

theorem tapSum_snoc (taps : List T) (t : T) (x : Nat → S) :
    tapSum (taps ++ [t]) x = tapSum taps x + x taps.length * t := by
  simp [tapSum, List.zipIdx_append]

theorem tapSum_congr {taps : List T} {x y : Nat → S} (same : ∀ k, k < taps.length → x k = y k) :
    tapSum taps x = tapSum taps y := by
  induction taps using List.reverseRecOn with
  | nil => rfl
  | append_singleton taps t ih =>
    rw [tapSum_snoc, tapSum_snoc, ih fun k hk => same k (by simp; omega),
      same taps.length (by simp)]

/-- A map that keeps zero, addition and the products with taps keeps the sum. -/
theorem map_tapSum {S' : Type u} [Zero S'] [Add S'] [HMul S' T S'] {f : S → S'} (zero : f 0 = 0)
    (add : ∀ x y, f (x + y) = f x + f y) (mul : ∀ (x : S) (t : T), f (x * t) = f x * t)
    (taps : List T) (x : Nat → S) : f (tapSum taps x) = tapSum taps fun k => f (x k) := by
  induction taps using List.reverseRecOn with
  | nil => exact zero
  | append_singleton taps t ih => rw [tapSum_snoc, tapSum_snoc, add, mul, ih]

/-- The convolution of the taps with the stream, at position `n`. -/
def convolveAt (taps : List T) (xs : List S) (n : Nat) : S :=
  tapSum taps fun k => sampleAt xs ((n : Int) - k)

/-- A sample's convolution does not depend on what follows it in the stream. -/
theorem convolveAt_append_left (taps : List T) (xs ys : List S) {n : Nat} (inside : n < xs.length) :
    convolveAt taps (xs ++ ys) n = convolveAt taps xs n :=
  tapSum_congr fun k _ => sampleAt_append_left xs ys (by omega)

/-- The block `ys` filtered behind the remembered samples `h`. -/
def filterBlock (taps : List T) (h ys : List S) : List S :=
  (List.range ys.length).map fun i =>
    tapSum taps fun k => (h ++ ys).getD (h.length + i - k) 0

@[simp] theorem length_filterBlock (taps : List T) (h ys : List S) :
    (filterBlock taps h ys).length = ys.length := by
  simp [filterBlock]

/-- Filtering behind the delay line of a stream computes the convolution with
the longer stream. -/
theorem filterBlock_delayLine {taps : List T} {n : Nat} (deep : taps.length ≤ n + 1)
    (xs ys : List S) :
    filterBlock taps (delayLine n xs) ys =
      (List.range ys.length).map fun i => convolveAt taps (xs ++ ys) (xs.length + i) := by
  apply List.map_congr_left
  intro i _
  apply tapSum_congr
  intro k small
  rw [length_delayLine]
  exact getD_delayLine_append xs ys (by omega)

end Accumulate

/-! ## Value over a commutative addition -/

section Sum

variable [AddCommMonoid S] [HMul S T S]

theorem tapSum_ofFn {n : Nat} (t : Fin n → T) (x : Nat → S) :
    tapSum (List.ofFn t) x = ∑ k : Fin n, x k * t k := by
  induction n with
  | zero => rfl
  | succ n ih =>
    rw [List.ofFn_succ', List.concat_eq_append, tapSum_snoc, ih, List.length_ofFn,
      Fin.sum_univ_castSucc]
    rfl

theorem tapSum_eq_sum (taps : List T) (x : Nat → S) :
    tapSum taps x = ∑ k : Fin taps.length, x k * taps.get k := by
  conv_lhs => rw [← List.ofFn_get taps]
  rw [tapSum_ofFn]

end Sum

end Kit
