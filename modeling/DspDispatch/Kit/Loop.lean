import Mathlib.Data.Option.Basic
import Mathlib.Data.List.Basic

/-!
# Counted loops and step-by-step runs, with faults

`forLoop n body s` is the loop `for (i = 0; i < n; ++i)` of an imperative
program over an explicit state. The body returns `none` where the program has
no defined behaviour (an index outside its array), so a loop that returns
`some` has made no such access.

`forReturn` is the loop whose body may also end the loop with a value.

`whileLoop` is the loop that a condition ends, run on a number of iterations.

`runSteps` is the run of a state machine on a list of inputs, with one output
an input. `runSteps_history` is its induction rule: an invariant that may
mention the inputs and outputs so far is carried over the whole run, and every
output meets its postcondition.
-/

namespace Kit

universe u v w

variable {σ : Type u} {τ : Type v}

/-- `for (i = 0; i < n; ++i) body`, in order; `none` is a fault. -/
def forLoop (n : Nat) (body : Nat → σ → Option σ) (s : σ) : Option σ :=
  match n with
  | 0 => some s
  | n + 1 => (forLoop n body s).bind (body n)

@[simp] theorem forLoop_zero (body : Nat → σ → Option σ) (s : σ) :
    forLoop 0 body s = some s := rfl

theorem forLoop_succ (n : Nat) (body : Nat → σ → Option σ) (s : σ) :
    forLoop (n + 1) body s = (forLoop n body s).bind (body n) := rfl

/-- A loop whose `i`-th iteration takes `trace i` to `trace (i + 1)` ends in
`trace n`. -/
theorem forLoop_trace (n : Nat) (body : Nat → σ → Option σ) (trace : Nat → σ)
    (step : ∀ i, i < n → body i (trace i) = some (trace (i + 1))) :
    forLoop n body (trace 0) = some (trace n) := by
  induction n with
  | zero => rfl
  | succ n ih =>
    have before := ih fun i hi => step i (Nat.lt_succ_of_lt hi)
    rw [forLoop_succ, before]
    exact step n (Nat.lt_succ_self n)

/-- The total-correctness rule: every iteration finds the invariant, does not
fault, and restores it at the next counter value. -/
theorem forLoop_total (n : Nat) (body : Nat → σ → Option σ) {s : σ}
    (Inv : Nat → σ → Prop) (init : Inv 0 s)
    (step : ∀ i, i < n → ∀ t, Inv i t → ∃ t', body i t = some t' ∧ Inv (i + 1) t') :
    ∃ s', forLoop n body s = some s' ∧ Inv n s' := by
  induction n with
  | zero => exact ⟨s, rfl, init⟩
  | succ n ih =>
    obtain ⟨t, run, inv⟩ := ih fun i hi => step i (Nat.lt_succ_of_lt hi)
    obtain ⟨t', last, inv'⟩ := step n (Nat.lt_succ_self n) t inv
    refine ⟨t', ?_, inv'⟩
    rw [forLoop_succ, run]
    exact last

/-- The partial-correctness rule: iterations that do not fault keep the
invariant. -/
theorem forLoop_partial {n : Nat} {body : Nat → σ → Option σ} {s s' : σ}
    (Inv : Nat → σ → Prop) (init : Inv 0 s)
    (step : ∀ i, i < n → ∀ t t', Inv i t → body i t = some t' → Inv (i + 1) t')
    (run : forLoop n body s = some s') : Inv n s' := by
  induction n generalizing s' with
  | zero =>
    cases run
    exact init
  | succ n ih =>
    rw [forLoop_succ] at run
    obtain ⟨t, before, last⟩ := Option.bind_eq_some_iff.mp run
    have inv := ih (fun i hi => step i (Nat.lt_succ_of_lt hi)) before
    exact step n (Nat.lt_succ_self n) t s' inv last

/-- Every iteration of a loop that does not fault is reached and does not fault. -/
theorem forLoop_eq_some {n : Nat} {body : Nat → σ → Option σ} {s s' : σ}
    (run : forLoop n body s = some s') {i : Nat} (below : i < n) :
    ∃ t t', forLoop i body s = some t ∧ body i t = some t' := by
  induction n generalizing s' with
  | zero => omega
  | succ n ih =>
    rw [forLoop_succ] at run
    obtain ⟨t, before, last⟩ := Option.bind_eq_some_iff.mp run
    rcases Nat.lt_succ_iff_lt_or_eq.mp below with earlier | rfl
    · exact ih before earlier
    · exact ⟨t, s', before, last⟩

/-! ## Counted loops with an early return -/

section Return

variable {ρ : Type w}

/-- A loop whose body may return: `some r` in the second component ends the
loop, and the iterations left are not run. -/
def forReturn (n : Nat) (body : Nat → σ → Option (σ × Option ρ)) (s : σ) :
    Option (σ × Option ρ) :=
  match n with
  | 0 => some (s, none)
  | n + 1 => (forReturn n body s).bind fun t =>
    match t.2 with
    | some r => some (t.1, some r)
    | none => body n t.1

@[simp] theorem forReturn_zero (body : Nat → σ → Option (σ × Option ρ)) (s : σ) :
    forReturn 0 body s = some (s, none) := rfl

theorem forReturn_succ (n : Nat) (body : Nat → σ → Option (σ × Option ρ)) (s : σ) :
    forReturn (n + 1) body s = (forReturn n body s).bind fun t =>
      match t.2 with
      | some r => some (t.1, some r)
      | none => body n t.1 := rfl

/-- The total-correctness rule for a loop that may return: an iteration finds
the invariant and either restores it at the next counter value or returns with
`Exit`. -/
theorem forReturn_total (n : Nat) (body : Nat → σ → Option (σ × Option ρ)) {s : σ}
    (Inv : Nat → σ → Prop) (Exit : σ → ρ → Prop) (init : Inv 0 s)
    (step : ∀ i, i < n → ∀ t, Inv i t →
      (∃ t', body i t = some (t', none) ∧ Inv (i + 1) t') ∨
      (∃ t' r, body i t = some (t', some r) ∧ Exit t' r)) :
    (∃ s', forReturn n body s = some (s', none) ∧ Inv n s') ∨
      (∃ s' r, forReturn n body s = some (s', some r) ∧ Exit s' r) := by
  induction n with
  | zero => exact .inl ⟨s, rfl, init⟩
  | succ n ih =>
    rcases ih fun i hi => step i (Nat.lt_succ_of_lt hi) with ⟨t, run, inv⟩ | ⟨t, r, run, exit⟩
    · rw [forReturn_succ, run]
      exact step n (Nat.lt_succ_self n) t inv
    · exact .inr ⟨t, r, by rw [forReturn_succ, run]; rfl, exit⟩

end Return

/-! ## While loops -/

section While

variable (cond : σ → Bool) (body : σ → σ)

/-- `while (cond) body` with at most `fuel` iterations; `none` if the loop has
not ended by then. -/
def whileLoop : Nat → σ → Option σ
  | 0, s => if cond s then none else some s
  | fuel + 1, s => if cond s then whileLoop fuel (body s) else some s

/-- The rule for a loop with a measure: it ends within the measure, with the
invariant and the negated condition. -/
theorem whileLoop_total (Inv : σ → Prop) (measure : σ → Nat)
    (step : ∀ s, Inv s → cond s = true → Inv (body s) ∧ measure (body s) < measure s) :
    ∀ fuel s, Inv s → measure s ≤ fuel →
      ∃ s', whileLoop cond body fuel s = some s' ∧ Inv s' ∧ cond s' = false := by
  intro fuel
  induction fuel with
  | zero =>
    intro s inv bound
    cases ended : cond s with
    | false => exact ⟨s, by rw [whileLoop, ended]; rfl, inv, ended⟩
    | true =>
      have decreases := (step s inv ended).2
      omega
  | succ fuel ih =>
    intro s inv bound
    cases ended : cond s with
    | false => exact ⟨s, by rw [whileLoop, ended]; rfl, inv, ended⟩
    | true =>
      obtain ⟨inv', decreases⟩ := step s inv ended
      obtain ⟨s', run, found⟩ := ih (body s) inv' (by omega)
      exact ⟨s', by rw [whileLoop, ended]; exact run, found⟩

/-- The same with a body that may fail. -/
def whileSome (cond : σ → Bool) (body : σ → Option σ) : Nat → σ → Option σ
  | 0, s => if cond s then none else some s
  | fuel + 1, s => if cond s then (body s).bind (whileSome cond body fuel) else some s

theorem whileSome_total (cond : σ → Bool) (body : σ → Option σ) (Inv : σ → Prop)
    (measure : σ → Nat)
    (step : ∀ s, Inv s → cond s = true →
      ∃ s', body s = some s' ∧ Inv s' ∧ measure s' < measure s) :
    ∀ fuel s, Inv s → measure s ≤ fuel →
      ∃ s', whileSome cond body fuel s = some s' ∧ Inv s' ∧ cond s' = false := by
  intro fuel
  induction fuel with
  | zero =>
    intro s inv bound
    cases ended : cond s with
    | false => exact ⟨s, by rw [whileSome, ended]; rfl, inv, ended⟩
    | true =>
      obtain ⟨s', -, -, decreases⟩ := step s inv ended
      omega
  | succ fuel ih =>
    intro s inv bound
    cases ended : cond s with
    | false => exact ⟨s, by rw [whileSome, ended]; rfl, inv, ended⟩
    | true =>
      obtain ⟨s', run, inv', decreases⟩ := step s inv ended
      obtain ⟨s'', rest, found⟩ := ih s' inv' (by omega)
      exact ⟨s'', by rw [whileSome, ended, run]; exact rest, found⟩

end While

/-! ## Runs of a state machine -/

variable {ι : Type v} {ω : Type w}

/-- Feed the inputs to `step` one after the other and collect the outputs. -/
def runSteps (step : σ → ι → Option (ω × σ)) (s : σ) : List ι → Option (List ω × σ)
  | [] => some ([], s)
  | i :: rest =>
    (step s i).bind fun first =>
      (runSteps step first.2 rest).map fun later => (first.1 :: later.1, later.2)

@[simp] theorem runSteps_nil (step : σ → ι → Option (ω × σ)) (s : σ) :
    runSteps step s [] = some ([], s) := rfl

theorem runSteps_cons_of {step : σ → ι → Option (ω × σ)} {s s' s'' : σ} {i : ι} {o : ω}
    {rest : List ι} {os : List ω} (first : step s i = some (o, s'))
    (later : runSteps step s' rest = some (os, s'')) :
    runSteps step s (i :: rest) = some (o :: os, s'') := by
  simp [runSteps, first, later]

/-- The run rule. `Inv past s` may mention the inputs consumed before `s` and
the outputs they gave; every step that meets `Ok` does not fault, re-establishes
the invariant and gives an output related by `Post` to that past. -/
theorem runSteps_history {step : σ → ι → Option (ω × σ)} (Inv : List (ι × ω) → σ → Prop)
    (Ok : ι → Prop) (Post : List (ι × ω) → ι → ω → Prop)
    (step_ok : ∀ past s i, Inv past s → Ok i →
      ∃ o s', step s i = some (o, s') ∧ Post past i o ∧ Inv (past ++ [(i, o)]) s') :
    ∀ (is : List ι) (past : List (ι × ω)) (s : σ), Inv past s → (∀ i ∈ is, Ok i) →
      ∃ os s', runSteps step s is = some (os, s') ∧ os.length = is.length ∧
        Inv (past ++ is.zip os) s' ∧
        ∀ k i o, is[k]? = some i → os[k]? = some o → Post (past ++ (is.zip os).take k) i o := by
  intro is
  induction is with
  | nil =>
    intro past s inv _
    exact ⟨[], s, rfl, rfl, by simpa using inv, by simp⟩
  | cons i rest ih =>
    intro past s inv ok
    obtain ⟨o, s', first, post, inv'⟩ := step_ok past s i inv (ok i (by simp))
    obtain ⟨os, s'', later, len, inv'', posts⟩ :=
      ih (past ++ [(i, o)]) s' inv' fun j hj => ok j (by simp [hj])
    refine ⟨o :: os, s'', runSteps_cons_of first later, by simp [len], by simpa using inv'', ?_⟩
    intro k j p input output
    cases k with
    | zero =>
      simp only [List.getElem?_cons_zero, Option.some.injEq] at input output
      subst input output
      simpa using post
    | succ k =>
      simp only [List.getElem?_cons_succ] at input output
      simpa using posts k j p input output

/-- The run rule for an invariant that mentions the consumed inputs only. -/
theorem runSteps_total {step : σ → ι → Option (ω × σ)} (Inv : List ι → σ → Prop)
    (Ok : ι → Prop) (Post : List ι → ι → ω → Prop)
    (step_ok : ∀ past s i, Inv past s → Ok i →
      ∃ o s', step s i = some (o, s') ∧ Post past i o ∧ Inv (past ++ [i]) s')
    (is : List ι) (s : σ) (inv : Inv [] s) (ok : ∀ i ∈ is, Ok i) :
    ∃ os s', runSteps step s is = some (os, s') ∧ os.length = is.length ∧ Inv is s' ∧
      ∀ k i o, is[k]? = some i → os[k]? = some o → Post (is.take k) i o := by
  obtain ⟨os, s', run, length, inv', posts⟩ := runSteps_history
    (fun past s => Inv (past.map Prod.fst) s) Ok (fun past => Post (past.map Prod.fst))
    (fun past s i inv ok => by simpa using step_ok (past.map Prod.fst) s i inv ok)
    is [] s inv ok
  have inputs : (is.zip os).map Prod.fst = is := List.map_fst_zip (Nat.le_of_eq length.symm)
  refine ⟨os, s', run, length, by simpa [inputs] using inv', ?_⟩
  intro k i o input output
  simpa [List.map_take, inputs] using posts k i o input output

/-- The run rule for steps that may fault: on a run without a fault every step
re-establishes the invariant and gives an output related by `Post` to the past. -/
theorem runSteps_partial {step : σ → ι → Option (ω × σ)} (Inv : List ι → σ → Prop)
    (Post : List ι → ι → ω → Prop)
    (step_ok : ∀ past s i o s', Inv past s → step s i = some (o, s') →
      Post past i o ∧ Inv (past ++ [i]) s') :
    ∀ (is past : List ι) (s : σ) (os : List ω) (s' : σ), Inv past s →
      runSteps step s is = some (os, s') →
      Inv (past ++ is) s' ∧
        ∀ k i o, is[k]? = some i → os[k]? = some o → Post (past ++ is.take k) i o := by
  intro is
  induction is with
  | nil =>
    intro past s os s' inv run
    cases run
    exact ⟨by simpa using inv, by simp⟩
  | cons i rest ih =>
    intro past s os s'' inv run
    rw [runSteps, Option.bind_eq_some_iff] at run
    obtain ⟨⟨o, s'⟩, first, later⟩ := run
    rw [Option.map_eq_some_iff] at later
    obtain ⟨⟨os', t⟩, later, result⟩ := later
    cases result
    obtain ⟨post, inv'⟩ := step_ok past s i o s' inv first
    obtain ⟨inv'', posts⟩ := ih (past ++ [i]) s' os' t inv' later
    refine ⟨by simpa using inv'', ?_⟩
    intro k j p input output
    cases k with
    | zero =>
      simp only [List.getElem?_cons_zero, Option.some.injEq] at input output
      subst input output
      simpa using post
    | succ k =>
      simp only [List.getElem?_cons_succ] at input output
      simpa using posts k j p input output

/-- Two machines started in related states and stepping on the same inputs with
equal outputs give the same outputs on every run. -/
theorem runSteps_simulation {step : σ → ι → Option (ω × σ)} {step' : τ → ι → Option (ω × τ)}
    (R : σ → τ → Prop) (Ok : ι → Prop)
    (sim : ∀ s t i, R s t → Ok i →
      ∃ o s' t', step s i = some (o, s') ∧ step' t i = some (o, t') ∧ R s' t') :
    ∀ (is : List ι) (s : σ) (t : τ), R s t → (∀ i ∈ is, Ok i) →
      ∃ os s' t', runSteps step s is = some (os, s') ∧ runSteps step' t is = some (os, t') ∧
        R s' t' := by
  intro is
  induction is with
  | nil =>
    intro s t related _
    exact ⟨[], s, t, rfl, rfl, related⟩
  | cons i rest ih =>
    intro s t related ok
    obtain ⟨o, s', t', left, right, related'⟩ := sim s t i related (ok i (by simp))
    obtain ⟨os, s'', t'', runLeft, runRight, related''⟩ :=
      ih s' t' related' fun j hj => ok j (by simp [hj])
    exact ⟨o :: os, s'', t'', runSteps_cons_of left runLeft, runSteps_cons_of right runRight,
      related''⟩

end Kit
