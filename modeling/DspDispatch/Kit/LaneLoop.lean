import DspDispatch.Kit.Loop
import DspDispatch.Kit.Memory

/-!
# Loops over the lanes of a buffer

A batched operation runs a body once for each lane: it reads lane `b` of the
input buffer and writes lane `b` of the output buffer. The lanes of a buffer lie
back to back. Input and output may be the same buffer, as lane `b` is read
before it is written, or have no cell in common.
-/

namespace Kit

universe u v

variable {α : Type u} {σ : Type v} {m : Mem α} {p q : Ptr} {n inLen outLen : Nat}

/-- The outputs of the lanes before `b` leave lane `b` of the input as it was. -/
theorem Mem.read_lane_write {b : Nat} {ys : List α} (below : b < n)
    (holdsOut : m.Holds q (n * outLen))
    (overlap : p = q ∧ inLen = outLen ∨ Apart p (n * inLen) q (n * outLen))
    (before : ys.length = b * outLen) :
    (m.write q ys).read (p.add (b * inLen)) inLen = m.read (p.add (b * inLen)) inLen := by
  have insideIn := lane_end_le inLen below
  have insideOut := lane_end_le outLen below
  have holds : m.Holds q ys.length := by
    rw [before]
    exact Nat.le_trans (by omega) holdsOut
  refine Mem.read_write_of_apart holds ?_
  rw [before]
  rcases overlap with ⟨rfl, rfl⟩ | apart
  · exact .inr (.inr (Nat.le_of_eq rfl))
  · exact apart.mono (j := 0) insideIn (by omega)

/-- If lane `b`, found with its input still intact, writes `out b` into its part
of the output, the loop writes all of `out`. -/
theorem forLoop_lanes (body : Nat → Mem α × σ → Option (Mem α × σ)) {s : σ}
    (out : Nat → List α) (Inv : Nat → σ → Prop) (holdsIn : m.Holds p (n * inLen))
    (holdsOut : m.Holds q (n * outLen))
    (overlap : p = q ∧ inLen = outLen ∨ Apart p (n * inLen) q (n * outLen))
    (width : ∀ b, b < n → (out b).length = outLen) (init : Inv 0 s)
    (lane : ∀ b, b < n → ∀ m' t, Inv b t →
      m'.Holds (p.add (b * inLen)) inLen → m'.Holds (q.add (b * outLen)) outLen →
      m'.read (p.add (b * inLen)) inLen = m.read (p.add (b * inLen)) inLen →
      ∃ t', body b (m', t) = some (m'.write (q.add (b * outLen)) (out b), t') ∧ Inv (b + 1) t') :
    ∃ s', forLoop n body (m, s) = some (m.write q (lanes n out), s') ∧ Inv n s' := by
  obtain ⟨⟨m', s'⟩, run, written, inv⟩ := forLoop_total n body (s := (m, s))
    (fun done ms => ms.1 = m.write q (lanes done out) ∧ Inv done ms.2)
    ⟨by rw [lanes_zero, Mem.write_nil], init⟩
    (by
      intro b below state reached
      rcases state with ⟨m', t⟩
      rcases reached with ⟨done, inv⟩
      dsimp only at done inv
      subst done
      have insideOut := lane_end_le outLen below
      have doneLength : (lanes b out).length = b * outLen :=
        length_lanes fun c earlier => width c (Nat.lt_trans earlier below)
      have holdsDone : m.Holds q (lanes b out).length := by
        rw [doneLength]
        exact Nat.le_trans (by omega) holdsOut
      obtain ⟨t', ran, inv'⟩ := lane b below _ t inv
        ((Mem.holds_write holdsDone).mpr (holdsIn.mono (lane_end_le inLen below)))
        ((Mem.holds_write holdsDone).mpr (holdsOut.mono insideOut))
        (Mem.read_lane_write below holdsOut overlap doneLength)
      have joined : (m.write q (lanes b out)).write (q.add (b * outLen)) (out b) =
          m.write q (lanes (b + 1) out) := by
        rw [lanes_succ, ← doneLength]
        apply Mem.write_write
        rw [doneLength, width b below]
        exact Nat.le_trans (by omega) holdsOut
      exact ⟨_, ran, joined, inv'⟩)
  dsimp only at written
  exact ⟨s', by rw [run, written], inv⟩

end Kit
