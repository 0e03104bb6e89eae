import DspDispatch.Fft.Reference
import DspDispatch.Kit.Loop

/-!
# Runs of the PocketFFT backend

A process creates, executes and destroys plans in any order. Every creation and
every execute looks a plan up in the cache of its class, shared by all live plans;
a creation whose length the library refuses leaves the caches as they were, and so
does one whose plan cannot be constructed for want of memory.
An execute finds the plan its creation left there, and so constructs none,
exactly when fewer than sixteen other lengths of the class have been looked up
since the last lookup of its own.
-/

namespace DspDispatch.Fft

open Kit

/-- The lengths whose plans have been looked up in the cache of a class so far, the
latest first. -/
def World.lengths {K : Type} (w : World K) (kind : Pocketfft.PlanKind) : List Nat :=
  (w.requests.filter (·.kind = kind)).map (·.length)

/-- How many pocketfft plans have been constructed so far. -/
def World.built {K : Type} (w : World K) : Nat := w.requests.countP (·.constructed)

namespace Pocketfft

variable {K : Type}

/-! ## The process -/

/-- A creation may throw for want of memory, before or after its plan is looked up. -/
inductive Event
  | create (cfg : FftPlanConfig)
  | createThrows (cfg : FftPlanConfig) (looked : Bool)
  | execute (plan : Nat) (input output : Ptr)
  | destroy (plan : Nat)

/-- The plans created so far, in order; a destroyed one leaves `none`. -/
structure Process (K : Type) where
  world : World K
  plans : List (Option (BackendPlan PocketState (World K)))

/-- What the process is before the first event. -/
def Process.init (mem : Mem K) : Process K := ⟨{ mem := mem, caches := fun _ => {} }, []⟩

/-- The process after an event; a plan that is not live cannot be used. -/
def Process.next [Field K] (lib : FftPrecision → PocketLib K) (p : Process K) :
    Event → Option (Process K)
  | .create cfg =>
    match makeBackendPlan lib cfg p.world with
    | (.ok plan, w) => some ⟨w, p.plans ++ [some plan]⟩
    | (.error _, w) => some ⟨w, p.plans ++ [none]⟩
  | .createThrows cfg looked =>
    some ⟨if looked then (makeBackendPlan lib cfg p.world).2 else p.world, p.plans ++ [none]⟩
  | .execute i input output => do
    let plan ← (p.plans[i]?).join
    let (_, w, s) ← plan.execute plan.state p.world input output
    some ⟨w, p.plans.set i (some { plan with state := s })⟩
  | .destroy i => do
    let _ ← (p.plans[i]?).join
    some { p with plans := p.plans.set i none }

/-- An event of a run: the process it found, and how many pocketfft plans it
constructed. -/
structure Entry (K : Type) where
  before : Process K
  built : Nat

def Process.step [Field K] (lib : FftPrecision → PocketLib K) (p : Process K) (e : Event) :
    Option (Entry K × Process K) :=
  (p.next lib e).map fun p' => (⟨p, p'.world.built - p.world.built⟩, p')

/-- The plan class a state looks up. -/
def PocketState.planKind (s : PocketState) : PlanKind := ⟨s.type ≠ .complex, s.precision⟩

/-- The plan object of live plan `i` is still in its cache, or not needed at all:
fewer than sixteen other lengths of its class have been looked up since its
length was. -/
def Process.Recent (p : Process K) (i : Nat) : Prop :=
  ∀ plan, (p.plans[i]?).join = some plan →
    prod plan.state.shape = 0 ∨
      (LruCache.since plan.state.n (p.world.lengths plan.state.planKind)).card < cacheSize

/-! ## Lookups -/

/-- The caches are least-recently-used caches of the requests so far, none of
whose counters has wrapped. -/
structure Coherent (w : World K) : Prop where
  tracks : ∀ kind, LruCache.Tracks (w.lengths kind) (w.caches kind).toLru
  counter : ∀ kind, (w.caches kind).accessCounter ≤ w.requests.length

theorem init_coherent (mem : Mem K) : Coherent (Process.init mem).world where
  tracks _ := LruCache.empty_tracks
  counter _ := Nat.le_refl 0

section GetPlan

variable {w w' : World K} {kind : PlanKind} {length n : Nat}

theorem lengths_getPlan_self (found : w.getPlan kind length = some (n, w')) :
    w'.lengths kind = length :: w.lengths kind := by
  obtain ⟨lookup, -, result⟩ := Option.map_eq_some_iff.mp found
  cases result
  simp [World.lengths]

theorem lengths_getPlan_of_ne (found : w.getPlan kind length = some (n, w')) (kind' : PlanKind)
    (other : kind' ≠ kind) : w'.lengths kind' = w.lengths kind' := by
  obtain ⟨lookup, -, result⟩ := Option.map_eq_some_iff.mp found
  cases result
  simp [World.lengths, other.symm]

/-- A lookup keeps the caches coherent, and constructs a plan exactly when the
length is no longer, or not yet, in the cache. -/
theorem getPlan_coherent (found : w.getPlan kind length = some (n, w')) (coherent : Coherent w)
    (running : w.requests.length + 1 < 2 ^ 64) :
    Coherent w' ∧ w'.requests.length = w.requests.length + 1 ∧ w.built ≤ w'.built ∧
      (w'.built = w.built ↔ length ∈ w.lengths kind ∧
        (LruCache.since length (w.lengths kind)).card < cacheSize) := by
  have self := lengths_getPlan_self found
  have others := lengths_getPlan_of_ne found
  obtain ⟨lookup, looked, result⟩ := Option.map_eq_some_iff.mp found
  cases result
  have counter := coherent.counter kind
  have access := getPlan_access looked (by omega)
  have advanced := getPlan_accessCounter looked (by omega)
  refine ⟨⟨?_, ?_⟩, rfl, List.Sublist.countP_le (List.sublist_cons_self _ _), ?_⟩
  · intro kind'
    by_cases same : kind' = kind
    · subst same
      rw [self]
      simpa using access.tracks (coherent.tracks kind')
    · rw [others kind' same]
      simpa [same] using coherent.tracks kind'
  · intro kind'
    rw [List.length_cons]
    by_cases same : kind' = kind
    · subst same
      simp only [Function.update_self]
      omega
    · simp only [Function.update_of_ne same]
      exact Nat.le_succ_of_le (coherent.counter kind')
  · rw [← access.hit_iff (coherent.tracks kind)]
    cases lookup.constructed with
    | true => simp [World.built]
    | false => simp [World.built]

end GetPlan

/-- `w'` is `w` after at most one lookup of this length, made if it is needed. -/
structure LooksUp (w w' : World K) (kind : PlanKind) (length : Nat) (needed : Prop) : Prop where
  coherent : Coherent w'
  requests : w'.requests.length ≤ w.requests.length + 1
  lengths : ∀ kind' l, l ∈ w.lengths kind' → l ∈ w'.lengths kind'
  member : needed → length ∈ w'.lengths kind
  built_le : w.built ≤ w'.built
  built : w'.built = w.built ↔ (needed →
    length ∈ w.lengths kind ∧ (LruCache.since length (w.lengths kind)).card < cacheSize)

theorem LooksUp.refl {w : World K} (coherent : Coherent w) (kind : PlanKind) (length : Nat) :
    LooksUp w w kind length False where
  coherent := coherent
  requests := Nat.le_succ _
  lengths _ _ member := member
  member needed := needed.elim
  built_le := Nat.le_refl _
  built := iff_of_true rfl False.elim

/-- The memory does not matter. -/
theorem LooksUp.withMem {w w' : World K} {kind : PlanKind} {length : Nat} {needed : Prop}
    {m : Mem K} (looksUp : LooksUp { w with mem := m } w' kind length needed) (m' : Mem K) :
    LooksUp w { w' with mem := m' } kind length needed where
  coherent := ⟨looksUp.coherent.tracks, looksUp.coherent.counter⟩
  requests := looksUp.requests
  lengths := looksUp.lengths
  member := looksUp.member
  built_le := looksUp.built_le
  built := looksUp.built

/-- A run of a stored state looks its length up, unless the product of its shape
vanishes. -/
theorem pocketRun_looksUp [Field K] (lib : FftPrecision → PocketLib K) {cfg : FftPlanConfig}
    (accepted : Accepted cfg) {w : World K} (coherent : Coherent w)
    (running : w.requests.length + 1 < 2 ^ 64) (input output : Ptr) :
    LooksUp w (pocketRun lib (state cfg cfg.isInverse) w input output).2 (planKindOf cfg)
      cfg.length (prod (state cfg cfg.isInverse).shape ≠ 0) := by
  obtain ⟨w', pass, run⟩ := pocketRun_of_accepted lib w input output accepted
  rw [run]
  dsimp only
  by_cases vanishes : prod (state cfg cfg.isInverse).shape = 0
  · have skipped : prod (state cfg cfg.isInverse).args.shape = 0 := vanishes
    rw [onePass, if_pos skipped] at pass
    cases pass
    exact {
      coherent := coherent
      requests := Nat.le_succ _
      lengths := fun _ _ member => member
      member := fun needed => absurd vanishes needed
      built_le := Nat.le_refl _
      built := iff_of_true rfl fun needed => absurd vanishes needed }
  · have made : ¬ prod (state cfg cfg.isInverse).args.shape = 0 := vanishes
    rw [onePass, if_neg made] at pass
    obtain ⟨⟨n, w₁⟩, found, rfl⟩ := Option.map_eq_some_iff.mp pass
    obtain ⟨coherent', requests, more, built⟩ := getPlan_coherent found coherent running
    exact {
      coherent := ⟨coherent'.tracks, coherent'.counter⟩
      requests := requests.le
      lengths := fun kind' l member => by
        change l ∈ w₁.lengths kind'
        by_cases same : kind' = planKindOf cfg
        · subst same
          rw [lengths_getPlan_self found]
          exact List.mem_cons_of_mem _ member
        · rwa [lengths_getPlan_of_ne found kind' same]
      member := fun _ => by
        change cfg.length ∈ w₁.lengths (planKindOf cfg)
        rw [lengths_getPlan_self found]
        exact List.mem_cons_self
      built_le := more
      built := by
        rw [forall_prop_of_true vanishes]
        exact built }

theorem makeBackendPlan_world [Field K] {lib : FftPrecision → PocketLib K} {cfg : FftPlanConfig}
    {w : World K} {st : Status} (refused : (makeBackendPlan lib cfg w).1 = .error st) :
    (makeBackendPlan lib cfg w).2 = w := by
  by_cases valid : cfg.Valid
  · by_cases accepted : Accepted cfg
    · obtain ⟨plan, made⟩ := exists_plan lib w valid accepted
      rw [made] at refused
      cases refused
    · rw [makeBackendPlan_of_refused lib w valid accepted]
  · cases sizes : checkSizes cfg with
    | error st => simp only [makeBackendPlan, sizes]
    | ok _ =>
      cases resolved : resolveInverse cfg with
      | error st => simp only [makeBackendPlan, sizes, resolved]
      | ok inverse =>
        obtain ⟨rfl, direction⟩ := resolveInverse_eq_ok.mp resolved
        obtain ⟨length_pos, batch_pos⟩ := checkSizes_eq_ok.mp sizes
        exact absurd ⟨length_pos, batch_pos, direction⟩ valid

/-- The factory runs the state once on memory of its own, or looks nothing up. -/
theorem makeBackendPlan_looksUp [Field K] (lib : FftPrecision → PocketLib K) (cfg : FftPlanConfig)
    {w : World K} (coherent : Coherent w) (running : w.requests.length + 1 < 2 ^ 64) :
    ∃ needed, LooksUp w (makeBackendPlan lib cfg w).2 (planKindOf cfg) cfg.length needed ∧
      ∀ plan, (makeBackendPlan lib cfg w).1 = .ok plan →
        prod (state cfg cfg.isInverse).shape ≠ 0 → needed := by
  cases result : (makeBackendPlan lib cfg w).1 with
  | error st =>
    refine ⟨False, ?_, nofun⟩
    rw [makeBackendPlan_world result]
    exact .refl coherent _ _
  | ok plan =>
    refine ⟨prod (state cfg cfg.isInverse).shape ≠ 0, ?_, fun _ _ => id⟩
    obtain ⟨-, -, -, world⟩ := makeBackendPlan_ok result
    have warm : Coherent ({ w with mem := warmMem cfg } : World K) :=
      ⟨coherent.tracks, coherent.counter⟩
    rw [world]
    exact (pocketRun_looksUp lib (accepted_of_made result) warm running ⟨0, 0⟩ ⟨1, 0⟩).withMem w.mem

/-! ## Steps -/

theorem live_append {plans : List (Option (BackendPlan PocketState (World K)))}
    {new : Option (BackendPlan PocketState (World K))} {i : Nat}
    {plan : BackendPlan PocketState (World K)} (found : ((plans ++ [new])[i]?).join = some plan) :
    (plans[i]?).join = some plan ∨ new = some plan := by
  rcases Nat.lt_trichotomy i plans.length with below | last | above
  · rw [List.getElem?_append_left below] at found
    exact .inl found
  · rw [last, List.getElem?_concat_length] at found
    exact .inr found
  · rw [List.getElem?_eq_none (by simp; omega)] at found
    cases found

section Steps

variable [Field K]

/-- A live plan runs the state of a configuration whose length has been looked
up, unless it need not be. -/
structure Tracked (lib : FftPrecision → PocketLib K) (w : World K)
    (plan : BackendPlan PocketState (World K)) (cfg : FftPlanConfig) : Prop where
  execute : plan.execute = pocketExecute lib
  state : plan.state = state cfg cfg.isInverse
  accepted : Accepted cfg
  looked : prod (Pocketfft.state cfg cfg.isInverse).shape ≠ 0 →
    cfg.length ∈ w.lengths (planKindOf cfg)

/-- The caches are coherent after no more requests than events, and every live
plan is tracked. -/
structure Good (lib : FftPrecision → PocketLib K) (past : List Event) (p : Process K) :
    Prop where
  coherent : Coherent p.world
  requests : p.world.requests.length ≤ past.length
  live : ∀ (i : Nat) plan, (p.plans[i]?).join = some plan → ∃ cfg, Tracked lib p.world plan cfg

variable {lib : FftPrecision → PocketLib K} {past : List Event} {p p' : Process K}

theorem init_good (mem : Mem K) : Good lib [] (Process.init mem) where
  coherent := init_coherent mem
  requests := Nat.le_refl 0
  live i plan found := by simp [Process.init] at found

/-- A lookup keeps the process good, if the plans it adds or changes are
tracked. -/
theorem Good.looksUp (good : Good lib past p) {w' : World K}
    {plans : List (Option (BackendPlan PocketState (World K)))} {kind : PlanKind} {length : Nat}
    {needed : Prop} (looksUp : LooksUp p.world w' kind length needed) (e : Event)
    (live : ∀ (i : Nat) plan, (plans[i]?).join = some plan →
      (p.plans[i]?).join = some plan ∨ ∃ cfg, Tracked lib w' plan cfg) :
    Good lib (past ++ [e]) ⟨w', plans⟩ where
  coherent := looksUp.coherent
  requests := by
    have before := good.requests
    have grown := looksUp.requests
    rw [List.length_append, List.length_singleton]
    dsimp only
    omega
  live i plan found := by
    rcases live i plan found with old | new
    · obtain ⟨cfg, execute, state, accepted, looked⟩ := good.live i plan old
      exact ⟨cfg, execute, state, accepted, fun needed => looksUp.lengths _ _ (looked needed)⟩
    · exact new

/-- Creating a plan: its warm-up looks its length up. -/
theorem create_good (good : Good lib past p) (running : past.length + 1 < 2 ^ 64)
    {cfg : FftPlanConfig} (next : p.next lib (.create cfg) = some p') :
    Good lib (past ++ [.create cfg]) p' := by
  have requests := good.requests
  obtain ⟨needed, looksUp, member⟩ := makeBackendPlan_looksUp lib cfg good.coherent (by omega)
  unfold Process.next at next
  dsimp only at next
  split at next
  case h_1 plan w result =>
    cases next
    have made := congrArg Prod.fst result
    obtain ⟨-, stored, execute, -⟩ := makeBackendPlan_ok made
    have accepted := accepted_of_made made
    rw [result] at looksUp
    refine good.looksUp looksUp _ fun i plan' found => (live_append found).imp_right fun same => ?_
    cases same
    exact ⟨cfg, execute, stored, accepted, fun samples => looksUp.member (member plan made samples)⟩
  case h_2 st w result =>
    cases next
    rw [result] at looksUp
    refine good.looksUp looksUp _ fun i plan' found => (live_append found).imp_right fun same => ?_
    cases same

/-- A creation that throws has looked its length up or not, and adds no plan. -/
theorem createThrows_good (good : Good lib past p) (running : past.length + 1 < 2 ^ 64)
    {cfg : FftPlanConfig} {looked : Bool} (next : p.next lib (.createThrows cfg looked) = some p') :
    Good lib (past ++ [.createThrows cfg looked]) p' := by
  have requests := good.requests
  unfold Process.next at next
  cases looked with
  | true =>
    cases next
    obtain ⟨needed, looksUp, -⟩ := makeBackendPlan_looksUp lib cfg good.coherent (by omega)
    refine good.looksUp looksUp _ fun i plan found => (live_append found).imp_right fun same => ?_
    cases same
  | false =>
    cases next
    refine good.looksUp (.refl good.coherent ⟨false, .f32⟩ 0) _ fun i plan found =>
      (live_append found).imp_right fun same => ?_
    cases same

/-- Executing a plan looks its length up. -/
theorem execute_good (good : Good lib past p) (running : past.length + 1 < 2 ^ 64)
    {i : Nat} {input output : Ptr} (next : p.next lib (.execute i input output) = some p') :
    Good lib (past ++ [.execute i input output]) p' ∧
      (p'.world.built - p.world.built = 0 ↔ p.Recent i) := by
  have requests := good.requests
  unfold Process.next at next
  rw [Option.bind_eq_bind, Option.bind_eq_some_iff] at next
  obtain ⟨plan, found, next⟩ := next
  obtain ⟨cfg, execute, stored, accepted, looked⟩ := good.live i plan found
  rw [execute, stored, pocketExecute, Option.bind_eq_bind, Option.bind_some] at next
  cases next
  have looksUp := pocketRun_looksUp lib accepted good.coherent (by omega) input output
  refine ⟨good.looksUp looksUp _ fun j plan' found' => ?_, ?_⟩
  · rw [List.getElem?_set] at found'
    split at found'
    · split at found'
      · cases found'
        exact .inr ⟨cfg, rfl, rfl, accepted, looksUp.member⟩
      · cases found'
    · exact .inl found'
  · have more := looksUp.built_le
    have unchanged : ∀ a b : Nat, b ≤ a → (a - b = 0 ↔ a = b) := by omega
    rw [unchanged _ _ more, looksUp.built, Process.Recent]
    constructor
    · intro recent plan' found'
      rw [found] at found'
      cases found'
      rw [stored]
      exact or_iff_not_imp_left.mpr fun needed => (recent needed).2
    · intro recent needed
      have window := (recent plan found).resolve_left (by rwa [stored])
      rw [stored] at window
      exact ⟨looked needed, window⟩

/-- Destroying a plan looks nothing up. -/
theorem destroy_good (good : Good lib past p) {i : Nat}
    (next : p.next lib (.destroy i) = some p') : Good lib (past ++ [.destroy i]) p' := by
  unfold Process.next at next
  rw [Option.bind_eq_bind, Option.bind_eq_some_iff] at next
  obtain ⟨plan, -, next⟩ := next
  cases next
  refine good.looksUp (.refl good.coherent ⟨false, .f32⟩ 0) _ fun j plan' found' => ?_
  rw [List.getElem?_set] at found'
  split at found'
  · split at found'
    · cases found'
    · cases found'
  · exact .inl found'

/-- One event of a run. -/
theorem step_good (good : Good lib past p) (running : past.length + 1 < 2 ^ 64) {e : Event}
    {entry : Entry K} (step : p.step lib e = some (entry, p')) :
    Good lib (past ++ [e]) p' ∧ ∀ i input output, e = .execute i input output →
      (entry.built = 0 ↔ entry.before.Recent i) := by
  rw [Process.step, Option.map_eq_some_iff] at step
  obtain ⟨p'', next, result⟩ := step
  cases result
  cases e with
  | create cfg => exact ⟨create_good good running next, fun _ _ _ other => by cases other⟩
  | createThrows cfg looked =>
    exact ⟨createThrows_good good running next, fun _ _ _ other => by cases other⟩
  | execute i input output =>
    obtain ⟨good', built⟩ := execute_good good running next
    refine ⟨good', fun _ _ _ same => ?_⟩
    cases same
    exact built
  | destroy i => exact ⟨destroy_good good next, fun _ _ _ other => by cases other⟩

end Steps

/-! ## Runs -/

/-- In a run of fewer than `2^64` events, an execute constructs no pocketfft plan
exactly when its plan is recent: fewer than sixteen other lengths of its class
have been looked up, by whatever plans, since its own length was. A creation whose
plan is not constructed, because the length is refused or memory is short, looks up
nothing. -/
theorem execute_plans_nothing_iff [Field K] {lib : FftPrecision → PocketLib K} {mem : Mem K}
    {events : List Event} {entries : List (Entry K)} {p : Process K}
    (run : runSteps (Process.step lib) (Process.init mem) events = some (entries, p))
    (running : events.length < 2 ^ 64) (k i : Nat) (input output : Ptr) (entry : Entry K)
    (executed : events[k]? = some (.execute i input output)) (logged : entries[k]? = some entry) :
    entry.built = 0 ↔ entry.before.Recent i := by
  obtain ⟨-, posts⟩ := runSteps_partial
    (fun past p => past.length < 2 ^ 64 → Good lib past p)
    (fun past e entry => past.length + 1 < 2 ^ 64 → ∀ i input output, e = .execute i input output →
      (entry.built = 0 ↔ entry.before.Recent i))
    (by
      intro past p e entry p' inv step
      constructor
      · intro running
        exact (step_good (inv (by omega)) running step).2
      · intro running
        rw [List.length_append, List.length_singleton] at running
        exact (step_good (inv (by omega)) running step).1)
    events [] (Process.init mem) entries p (fun _ => init_good mem) run
  have below : k < events.length := (List.getElem?_eq_some_iff.mp executed).1
  refine posts k _ entry executed logged ?_ i input output rfl
  rw [List.nil_append, List.length_take]
  omega

/-- One plan, executed at once. -/
theorem execute_plans_nothing_iff_one_plan :
    ∃ (entries : List (Entry ℝ)) (p : Process ℝ),
      runSteps (Process.step fun _ => exact) (Process.init ⟨fun _ => []⟩)
        [.create { length := 8 }, .execute 0 ⟨0, 0⟩ ⟨1, 0⟩] = some (entries, p) ∧
      ∀ entry, entries[1]? = some entry → (entry.built = 0 ↔ entry.before.Recent 0) := by
  have finished : (runSteps (Process.step fun _ => exact) (Process.init ⟨fun _ => []⟩)
      [.create { length := 8 }, .execute 0 ⟨0, 0⟩ ⟨1, 0⟩]).isSome = true := by decide +kernel
  obtain ⟨⟨entries, p⟩, run⟩ := Option.isSome_iff_exists.mp finished
  exact ⟨entries, p, run, fun entry logged =>
    execute_plans_nothing_iff run (by decide) 1 0 _ _ entry rfl logged⟩

/-- Seventeen complex plans of the lengths 1 to 17. -/
def manyPlans : List Event :=
  (List.finRange 17).map fun n : Fin 17 =>
    .create { sixteen with length := n + 1, length_lt := by omega }

/-- Executing the first of them constructs its plan again: sixteen later warm-ups
have pushed it out. -/
theorem manyPlans_execute_plans :
    ¬ ∀ (lib : FftPrecision → PocketLib ℝ) (mem : Mem ℝ) (events : List Event)
      (entries : List (Entry ℝ)) (p : Process ℝ), PocketLib.Documented lib →
      runSteps (Process.step lib) (Process.init mem) events = some (entries, p) →
      ∀ (k i : Nat) (input output : Ptr) (entry : Entry ℝ),
        events[k]? = some (.execute i input output) → entries[k]? = some entry →
        entry.built = 0 := by
  intro plansNothing
  have built : (runSteps (Process.step fun _ => exact) (Process.init ⟨fun _ => []⟩)
      (manyPlans ++ [Event.execute 0 ⟨0, 0⟩ ⟨1, 0⟩])).map (fun r => r.1.map Entry.built) =
      some (List.replicate 18 1) := by decide +kernel
  obtain ⟨⟨entries, p⟩, run, each⟩ := Option.map_eq_some_iff.mp built
  have last := congrArg (·[17]?) each
  simp only [List.getElem?_map, List.getElem?_replicate, Nat.lt_add_one, if_true] at last
  obtain ⟨entry, logged, once⟩ := Option.map_eq_some_iff.mp last
  have none := plansNothing _ _ _ entries p exact_documented run 17 0 ⟨0, 0⟩ ⟨1, 0⟩ entry rfl logged
  omega

end Pocketfft

end DspDispatch.Fft
