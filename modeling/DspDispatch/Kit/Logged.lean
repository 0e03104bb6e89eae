import DspDispatch.Kit.Loop

/-!
# Computations that log their accesses

A computation appends each access it makes to a log, and `none` is a fault.
`Meets P Q m` is the triple of such a computation: `m` does not fault, every
access it logs is one of `P`, and its result is one of `Q`. There is one rule a
construct, and the rule of the loop also compares it with a loop that keeps no
log.
-/

namespace Kit

/-- A computation with a log of accesses `L`. -/
def Logged (L α : Type) : Type := Option (α × List L)

namespace Logged

variable {L α β σ : Type}

instance : Monad (Logged L) where
  pure a := some (a, [])
  bind m k := Option.bind m fun r =>
    Option.map (fun r' => (r'.1, r.2 ++ r'.2)) (k r.1)

/-- The access `l` and what comes of it; `none` is a fault. -/
def access (l : L) (result : Option α) : Logged L α := result.map fun a => (a, [l])

/-- `for (i = 0; i < n; ++i) body`. -/
def loop (n : Nat) (body : Nat → σ → Logged L σ) (s : σ) : Logged L σ :=
  match n with
  | 0 => pure s
  | n + 1 => loop n body s >>= body n

/-- The computation does not fault, logs accesses of `P` only, and its result is
one of `Q`. -/
def Meets (P : L → Prop) (Q : α → Prop) (m : Logged L α) : Prop :=
  ∃ a log, m = some (a, log) ∧ Q a ∧ ∀ l ∈ log, P l

namespace Meets

variable {P : L → Prop} {Q : α → Prop} {Q' : β → Prop}

theorem pure {a : α} (post : Q a) : Meets P Q (Pure.pure a) :=
  ⟨a, [], rfl, post, by simp⟩

theorem bind {m : Logged L α} {k : α → Logged L β} (first : Meets P Q m)
    (later : ∀ a, Q a → Meets P Q' (k a)) : Meets P Q' (m >>= k) := by
  obtain ⟨a, log, run, post, logged⟩ := first
  obtain ⟨b, log', run', post', logged'⟩ := later a post
  refine ⟨b, log ++ log', ?_, post', ?_⟩
  · change Option.bind m _ = _
    rw [run, Option.bind_some, run', Option.map_some]
  · intro l member
    rcases List.mem_append.mp member with earlier | since
    · exact logged l earlier
    · exact logged' l since

theorem access {l : L} {result : Option α} {a : α} (found : result = some a) (post : Q a)
    (allowed : P l) : Meets P Q (Logged.access l result) := by
  refine ⟨a, [l], by rw [Logged.access, found, Option.map_some], post, ?_⟩
  intro l' member
  rw [List.mem_singleton.mp member]
  exact allowed

theorem mono {P' : L → Prop} {R : α → Prop} {m : Logged L α} (meets : Meets P Q m)
    (accesses : ∀ l, P l → P' l) (results : ∀ a, Q a → R a) : Meets P' R m := by
  obtain ⟨a, log, run, post, logged⟩ := meets
  exact ⟨a, log, run, results a post, fun l member => accesses l (logged l member)⟩

/-- The rule of a loop that does the same as one without a log, under an invariant. -/
theorem loop {n : Nat} {body : Nat → σ → Logged L σ} {s : σ} (plain : Nat → σ → Option σ)
    (Inv : Nat → σ → Prop) (init : Inv 0 s)
    (step : ∀ i, i < n → ∀ t, Inv i t →
      Meets P (fun t' => plain i t = some t' ∧ Inv (i + 1) t') (body i t)) :
    Meets P (fun s' => forLoop n plain s = some s' ∧ Inv n s') (Logged.loop n body s) := by
  induction n with
  | zero => exact pure ⟨rfl, init⟩
  | succ n ih =>
    refine bind (ih fun i below => step i (Nat.lt_succ_of_lt below)) ?_
    intro t ⟨ran, inv⟩
    refine (step n (Nat.lt_succ_self n) t inv).mono (fun _ allowed => allowed) ?_
    intro t' ⟨last, inv'⟩
    refine ⟨?_, inv'⟩
    rw [forLoop_succ, ran]
    exact last

end Meets

end Logged

end Kit
