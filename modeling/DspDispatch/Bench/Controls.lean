import DspDispatch.Kit.Dict
import Mathlib.Data.Rat.Defs
import Mathlib.Data.List.Sort
import Mathlib.Data.String.Basic

/-!
# The controls of the dashboard (`docs/assets/dashboard.js`)

The page has groups of buttons for the suite, the architecture, the metric and, in the
suite of the filters, the number of taps. Choosing a suite reconciles the other choices
with it. Choosing an architecture rebuilds the buttons and keeps the number of taps as
it is, also where the new architecture was not measured with it.
-/

namespace DspDispatch.Bench

open Kit

/-! ## The data -/

/-- A measured execution; a missing field is `none`. -/
structure ChartPoint (τ : Type) where
  x : ℚ
  size : String
  taps : Option τ := none
  medianUs : Option ℚ := none
  throughput : Option ℚ := none

structure ArchData (τ : Type) where
  taps : Option (List τ) := none
  backends : Dict String (List (ChartPoint τ)) := Dict.empty

structure SuiteData (τ : Type) where
  label : String
  archLabels : Dict String String := Dict.empty
  archs : Dict String (ArchData τ)

/-- `window.BENCH_DATA`. Keys come in the order of `Object.keys`. -/
structure BenchData (τ : Type) where
  suites : Dict String (SuiteData τ)

/-! ## The page -/

inductive Metric
  | latency
  | throughput
deriving DecidableEq

def Metric.label : Metric → String
  | .latency => "Latency (median)"
  | .throughput => "Throughput"

/-- The selection; `none` is `null` or `undefined`. -/
structure Selection (τ : Type) where
  suite : String
  arch : Option String
  metric : Metric
  taps : Option τ

structure Button (α : Type) where
  value : α
  label : String

/-- The groups of buttons. A hidden group offers none. -/
structure Controls (τ : Type) where
  suite : List (Button String)
  arch : List (Button String)
  metric : List (Button Metric)
  taps : List (Button τ)

/-- The points of a line of the chart. -/
abbrev Line : Type := List (ℚ × ℚ × String)

structure Page (τ : Type) where
  state : Selection τ
  controls : Controls τ
  series : List (String × Line)

inductive Click (τ : Type)
  | suite (value : String)
  | arch (value : String)
  | metric (value : Metric)
  | taps (value : τ)

variable {τ : Type}

/-- The architecture of a suite; `none` is a `TypeError`. -/
def archData (data : BenchData τ) (suite : String) (arch : Option String) :
    Option (ArchData τ) := do
  let suiteData ← data.suites.get? suite
  let arch ← arch
  suiteData.archs.get? arch

/-- The numbers of taps to choose from, which only filters have. -/
def tapsOf (data : BenchData τ) (suite : String) (arch : Option String) : Option (List τ) :=
  if suite = "fir" then (archData data suite arch).map fun arch => arch.taps.getD []
  else some []

theorem archData_eq_some_iff {data : BenchData τ} {suite : String} {arch : Option String}
    {found : ArchData τ} :
    archData data suite arch = some found ↔
      ∃ suiteData a, data.suites.get? suite = some suiteData ∧ arch = some a ∧
        suiteData.archs.get? a = some found := by
  constructor
  · intro placed
    obtain ⟨suiteData, suite, placed⟩ := Option.bind_eq_some_iff.mp placed
    obtain ⟨a, arch, placed⟩ := Option.bind_eq_some_iff.mp placed
    exact ⟨suiteData, a, suite, arch, placed⟩
  · intro keys
    rcases keys with ⟨suiteData, a, suite, rfl, placed⟩
    rw [archData, suite]
    exact placed

theorem exists_tapsOf {data : BenchData τ} {suite : String} {arch : Option String}
    {found : ArchData τ} (placed : archData data suite arch = some found) :
    ∃ taps, tapsOf data suite arch = some taps ∧ (suite = "fir" → taps = found.taps.getD []) := by
  rw [tapsOf]
  split
  · exact ⟨_, by rw [placed, Option.map_some], fun _ => rfl⟩
  · rename_i other
    exact ⟨[], rfl, fun fir => absurd fir other⟩

/-! ## Drawing -/

variable [DecidableEq τ]

def Metric.read : Metric → ChartPoint τ → Option ℚ
  | .latency => ChartPoint.medianUs
  | .throughput => ChartPoint.throughput

/-- `seriesData`. -/
def seriesData (points : List (ChartPoint τ)) (metric : Metric) (suite : String)
    (taps : Option τ) : Line :=
  (points.filterMap fun p =>
    if suite = "fir" ∧ taps ≠ none ∧ p.taps ≠ taps then none
    else ((metric.read p).filter (0 < ·)).map fun y => (p.x, y, p.size)).mergeSort
      fun a b => a.1 ≤ b.1

/-- The series of `render`, without the backends that have no points. -/
def render (data : BenchData τ) (state : Selection τ) : Option (List (String × Line)) :=
  (archData data state.suite state.arch).map fun arch =>
    ((arch.backends.entries.mergeSort fun a b => a.1 ≤ b.1).map fun e =>
      (e.1, seriesData e.2 state.metric state.suite state.taps)).filter fun s => !s.2.isEmpty

theorem exists_render {data : BenchData τ} (state : Selection τ) {found : ArchData τ}
    (placed : archData data state.suite state.arch = some found) :
    ∃ series, render data state = some series := ⟨_, by rw [render, placed, Option.map_some]⟩

/-! ## Controls -/

variable [ToString τ]

def buildControls (data : BenchData τ) (state : Selection τ) : Option (Controls τ) := do
  let suiteData ← data.suites.get? state.suite
  let taps ← tapsOf data state.suite state.arch
  return {
    suite := data.suites.entries.map fun e => ⟨e.1, e.2.label⟩
    arch := suiteData.archs.keys.map fun a =>
      ⟨a, ((suiteData.archLabels.get? a).filter (· ≠ "")).getD a⟩
    metric := [.latency, .throughput].map fun m => ⟨m, m.label⟩
    taps := taps.map fun t => ⟨t, toString t ++ " taps"⟩ }

/-- The buttons rebuilt and the chart drawn for a selection. -/
def redraw (data : BenchData τ) (state : Selection τ) : Option (Page τ) := do
  let controls ← buildControls data state
  let series ← render data state
  return { state, controls, series }

/-- The selected value where it is offered, or else the first one. -/
def keepOrFirst {α : Type} [DecidableEq α] (offered : List α) (selected : Option α) : Option α :=
  if ∃ a ∈ offered, selected = some a then selected else offered.head?

/-- What `onSuiteChange` makes of the selection. -/
def reconcile (data : BenchData τ) (state : Selection τ) : Option (Selection τ) := do
  let suiteData ← data.suites.get? state.suite
  let state := { state with arch := keepOrFirst suiteData.archs.keys state.arch }
  let taps ← tapsOf data state.suite state.arch
  if state.suite = "fir" then return { state with taps := keepOrFirst taps state.taps }
  else return state

def onSuiteChange (data : BenchData τ) (state : Selection τ) : Option (Page τ) :=
  (reconcile data state).bind (redraw data)

/-- What a click on a button does; `none` is a `TypeError`. -/
def click (data : BenchData τ) (page : Page τ) : Click τ → Option (Page τ)
  | .suite value => onSuiteChange data { page.state with suite := value }
  | .arch value => redraw data { page.state with arch := some value }
  | .metric value =>
    let state := { page.state with metric := value }
    (render data state).map fun series => { page with state, series }
  | .taps value =>
    let state := { page.state with taps := some value }
    (render data state).map fun series => { page with state, series }

/-- The selection `init` starts from. -/
def initial (data : BenchData τ) : Option (Selection τ) := do
  let (suite, firstSuite) ← data.suites.entries.head?
  let arch := firstSuite.archs.keys.head?
  let taps ← tapsOf data suite arch
  return { suite, arch, metric := .latency, taps := taps.head? }

/-- `init`; `none` is a page without data. -/
def init (data : BenchData τ) : Option (Page τ) := (initial data).bind (redraw data)

/-! ## Runs -/

/-- The page has a button for the click. -/
def Page.Offers (page : Page τ) : Click τ → Prop
  | .suite value => value ∈ page.controls.suite.map Button.value
  | .arch value => value ∈ page.controls.arch.map Button.value
  | .metric value => value ∈ page.controls.metric.map Button.value
  | .taps value => value ∈ page.controls.taps.map Button.value

/-- Every click is on a button that is there. -/
def Offered (data : BenchData τ) : Page τ → List (Click τ) → Prop
  | _, [] => True
  | page, c :: cs => page.Offers c ∧ ∀ page', click data page c = some page' → Offered data page' cs

/-- The pages a run of clicks goes through, from the first to the last. -/
def visit (data : BenchData τ) : Page τ → List (Click τ) → Option (List (Page τ))
  | page, [] => some [page]
  | page, c :: cs => (click data page c).bind fun page' => (visit data page' cs).map (page :: ·)

/-- There is a suite, every suite has an architecture and every architecture of the
filters has a number of taps. -/
structure BenchData.Complete (data : BenchData τ) : Prop where
  suites : data.suites.entries ≠ []
  archs : ∀ name suite, data.suites.get? name = some suite → suite.archs.entries ≠ []
  taps : ∀ a arch, archData data "fir" a = some arch → arch.taps.getD [] ≠ []

/-- The selected architecture is one of the suite's and, for filters, was measured with
the selected number of taps. -/
def Selection.Valid (data : BenchData τ) (state : Selection τ) : Prop :=
  ∃ arch, archData data state.suite state.arch = some arch ∧
    (state.suite = "fir" → ∃ t ∈ arch.taps.getD [], state.taps = some t)

/-- Among filters the click goes to an architecture measured with the selected taps. -/
def KeepsTaps (data : BenchData τ) (state : Selection τ) : Click τ → Prop
  | .arch value => state.suite = "fir" →
    ∃ arch, archData data "fir" (some value) = some arch ∧
      ∃ t ∈ arch.taps.getD [], state.taps = some t
  | _ => True

def AllKeepTaps (data : BenchData τ) : Page τ → List (Click τ) → Prop
  | _, [] => True
  | page, c :: cs => KeepsTaps data page.state c ∧
    ∀ page', click data page c = some page' → AllKeepTaps data page' cs

/-- The selected architecture exists and the buttons are those of the selection. -/
structure Page.Sound (data : BenchData τ) (page : Page τ) : Prop where
  placed : ∃ arch, archData data page.state.suite page.state.arch = some arch
  fresh : buildControls data page.state = some page.controls

section

variable {data : BenchData τ} {page page' : Page τ} {state : Selection τ} {c : Click τ}

omit [DecidableEq τ] in
/-- Buttons can be built for an architecture that exists. -/
theorem exists_buildControls {found : ArchData τ}
    (placed : archData data state.suite state.arch = some found) :
    ∃ controls, buildControls data state = some controls := by
  obtain ⟨suiteData, a, suite, -, -⟩ := archData_eq_some_iff.mp placed
  obtain ⟨taps, offered, -⟩ := exists_tapsOf placed
  exact ⟨_, by rw [buildControls, suite, offered]; rfl⟩

theorem exists_redraw (state : Selection τ) {found : ArchData τ}
    (placed : archData data state.suite state.arch = some found) :
    ∃ page, redraw data state = some page ∧ page.state = state ∧ page.Sound data := by
  obtain ⟨controls, built⟩ := exists_buildControls placed
  obtain ⟨series, drawn⟩ := exists_render state placed
  refine ⟨{ state, controls, series }, ?_, rfl, ⟨found, placed⟩, built⟩
  rw [redraw, built, drawn]
  rfl

omit [DecidableEq τ] [ToString τ] in
/-- The first architecture of a suite. -/
theorem exists_first_arch (complete : data.Complete) {name : String} {suiteData : SuiteData τ}
    (suite : data.suites.get? name = some suiteData) :
    ∃ found, archData data name suiteData.archs.keys.head? = some found := by
  have nonempty := complete.archs name suiteData suite
  obtain ⟨e, es, entries⟩ := List.exists_cons_of_ne_nil nonempty
  have first : suiteData.archs.get? e.1 = some e.2 := by
    refine Dict.mem_entries_iff.mp ?_
    rw [entries]
    exact List.mem_cons_self
  refine ⟨e.2, archData_eq_some_iff.mpr ⟨suiteData, e.1, suite, ?_, first⟩⟩
  rw [Dict.keys, entries]
  rfl

omit [DecidableEq τ] [ToString τ] in
theorem exists_keepOrFirst_arch (complete : data.Complete) {name : String}
    {suiteData : SuiteData τ} (suite : data.suites.get? name = some suiteData)
    (selected : Option String) :
    ∃ found, archData data name (keepOrFirst suiteData.archs.keys selected) = some found := by
  rw [keepOrFirst]
  split
  · rename_i present
    obtain ⟨a, member, same⟩ := present
    obtain ⟨found, arch⟩ := Dict.mem_keys_iff.mp member
    exact ⟨found, archData_eq_some_iff.mpr ⟨suiteData, a, suite, same, arch⟩⟩
  · exact exists_first_arch complete suite

theorem exists_head? {α : Type} {offered : List α} (nonempty : offered ≠ []) :
    ∃ a ∈ offered, offered.head? = some a := by
  obtain ⟨a, as, rfl⟩ := List.exists_cons_of_ne_nil nonempty
  exact ⟨a, List.mem_cons_self, rfl⟩

theorem exists_keepOrFirst {α : Type} [DecidableEq α] {offered : List α} (nonempty : offered ≠ [])
    (selected : Option α) : ∃ a ∈ offered, keepOrFirst offered selected = some a := by
  rw [keepOrFirst]
  split
  · rename_i present
    exact present
  · exact exists_head? nonempty

omit [ToString τ] in
/-- What a change of the suite reconciles is valid. -/
theorem reconcile_valid (complete : data.Complete) (state : Selection τ) {suiteData : SuiteData τ}
    (suite : data.suites.get? state.suite = some suiteData) :
    ∃ state', reconcile data state = some state' ∧ state'.Valid data := by
  obtain ⟨found, placed⟩ := exists_keepOrFirst_arch complete suite state.arch
  obtain ⟨taps, offered, measured⟩ := exists_tapsOf placed
  have reconciled : reconcile data state = some
      (if state.suite = "fir" then
        { state with
          arch := keepOrFirst suiteData.archs.keys state.arch
          taps := keepOrFirst taps state.taps }
      else { state with arch := keepOrFirst suiteData.archs.keys state.arch }) := by
    simp only [reconcile, suite, Option.bind_eq_bind, Option.bind_some, offered]
    split <;> rfl
  refine ⟨_, reconciled, ?_⟩
  by_cases fir : state.suite = "fir"
  · rw [if_pos fir]
    refine ⟨found, placed, ?_⟩
    intro _
    have nonempty : found.taps.getD [] ≠ [] := complete.taps _ found (fir ▸ placed)
    rw [← measured fir] at nonempty ⊢
    exact exists_keepOrFirst nonempty state.taps
  · rw [if_neg fir]
    exact ⟨found, placed, fun other => absurd other fir⟩

omit [DecidableEq τ] [ToString τ] in
theorem initial_valid (complete : data.Complete) :
    ∃ state, initial data = some state ∧ state.Valid data := by
  obtain ⟨⟨name, suiteData⟩, es, entries⟩ := List.exists_cons_of_ne_nil complete.suites
  have suite : data.suites.get? name = some suiteData := by
    refine Dict.mem_entries_iff.mp ?_
    rw [entries]
    exact List.mem_cons_self
  obtain ⟨found, placed⟩ := exists_first_arch complete suite
  obtain ⟨taps, offered, measured⟩ := exists_tapsOf placed
  have chosen : initial data = some
      { suite := name, arch := suiteData.archs.keys.head?, metric := .latency,
        taps := taps.head? } := by
    simp only [initial, entries, List.head?_cons, Option.bind_eq_bind, Option.bind_some, offered]
    rfl
  refine ⟨_, chosen, found, placed, ?_⟩
  intro fir
  obtain rfl : name = "fir" := fir
  have nonempty := complete.taps _ found placed
  rw [← measured rfl] at nonempty ⊢
  exact exists_head? nonempty

/-! ## One click -/

omit [DecidableEq τ] in
/-- The buttons of a sound page, for the choices that depend on the data. -/
theorem Page.Sound.offers_iff (sound : page.Sound data) {found : ArchData τ}
    (placed : archData data page.state.suite page.state.arch = some found) :
    (∀ value, page.Offers (.suite value) ↔
        ∃ suiteData, data.suites.get? value = some suiteData) ∧
      (∀ value, page.Offers (.arch value) ↔
        ∃ arch, archData data page.state.suite (some value) = some arch) ∧
      ∀ value, page.Offers (.taps value) ↔
        page.state.suite = "fir" ∧ value ∈ found.taps.getD [] := by
  obtain ⟨suiteData, suite, built⟩ := Option.bind_eq_some_iff.mp sound.fresh
  obtain ⟨taps, offered, built⟩ := Option.bind_eq_some_iff.mp built
  have controls := (Option.some.inj built).symm
  have itself : ∀ {α β : Type} (xs : List α) (value : α → β) (label : α → String),
      (xs.map fun a => (⟨value a, label a⟩ : Button β)).map Button.value = xs.map value := by
    intro α β xs value label
    rw [List.map_map]
    rfl
  refine ⟨fun value => ?_, fun value => ?_, fun value => ?_⟩
  · rw [Page.Offers, controls, itself]
    exact Dict.mem_keys_iff
  · rw [Page.Offers, controls, itself, List.map_id', Dict.mem_keys_iff]
    refine exists_congr fun arch => ?_
    rw [archData, suite]
    rfl
  · rw [Page.Offers, controls, itself, List.map_id']
    rw [tapsOf] at offered
    split at offered
    · rename_i fir
      rw [placed] at offered
      cases offered
      exact (and_iff_right fir).symm
    · rename_i other
      cases offered
      exact iff_of_false List.not_mem_nil fun taps => other taps.1

/-- A click on a button leads to a sound page, and from a valid selection to a valid one
exactly if it keeps the taps. -/
theorem click_sound (complete : data.Complete) (sound : page.Sound data) (offers : page.Offers c) :
    ∃ page', click data page c = some page' ∧ page'.Sound data ∧
      (page.state.Valid data → (page'.state.Valid data ↔ KeepsTaps data page.state c)) := by
  obtain ⟨found, placed⟩ := sound.placed
  obtain ⟨suites, archs, numbers⟩ := sound.offers_iff placed
  cases c with
  | suite value =>
    obtain ⟨suiteData, suite⟩ := (suites value).mp offers
    obtain ⟨state', reconciled, valid⟩ :=
      reconcile_valid complete { page.state with suite := value } suite
    have ⟨arch, placed', _⟩ := valid
    obtain ⟨page', drawn, same, sound'⟩ := exists_redraw state' placed'
    refine ⟨page', ?_, sound', ?_⟩
    · rw [click, onSuiteChange, reconciled]
      exact drawn
    · intro _
      rw [same]
      exact iff_of_true valid trivial
  | arch value =>
    obtain ⟨arch, placed'⟩ := (archs value).mp offers
    obtain ⟨page', drawn, same, sound'⟩ :=
      exists_redraw { page.state with arch := some value } placed'
    refine ⟨page', drawn, sound', ?_⟩
    intro _
    rw [same]
    constructor
    · intro valid fir
      rcases valid with ⟨arch', there, measured⟩
      exact ⟨arch', fir ▸ there, measured fir⟩
    · intro keeps
      refine ⟨arch, placed', ?_⟩
      intro fir
      obtain ⟨arch', there, measured⟩ := keeps fir
      have same : arch = arch' := by
        have twice := placed'
        rw [show page.state.suite = "fir" from fir, there] at twice
        exact (Option.some.inj twice).symm
      rw [same]
      exact measured
  | metric value =>
    obtain ⟨series, drawn⟩ := exists_render { page.state with metric := value } placed
    refine ⟨{ page with state := { page.state with metric := value }, series }, ?_,
      ⟨⟨found, placed⟩, sound.fresh⟩, fun valid => iff_of_true valid trivial⟩
    rw [click, drawn, Option.map_some]
  | taps value =>
    obtain ⟨series, drawn⟩ := exists_render { page.state with taps := some value } placed
    refine ⟨{ page with state := { page.state with taps := some value }, series }, ?_,
      ⟨⟨found, placed⟩, sound.fresh⟩, fun _ => iff_of_true ?_ trivial⟩
    · rw [click, drawn, Option.map_some]
    · exact ⟨found, placed, fun _ => ⟨value, ((numbers value).mp offers).2, rfl⟩⟩

/-! ## Every run -/

theorem exists_visit (complete : data.Complete) (sound : page.Sound data) {clicks : List (Click τ)}
    (offered : Offered data page clicks) :
    ∃ pages, visit data page clicks = some pages ∧ page ∈ pages := by
  induction clicks generalizing page with
  | nil => exact ⟨[page], rfl, List.mem_singleton_self page⟩
  | cons c cs ih =>
    obtain ⟨offers, later⟩ := offered
    obtain ⟨page', clicked, sound', -⟩ := click_sound complete sound offers
    obtain ⟨pages, visited, -⟩ := ih sound' (later page' clicked)
    refine ⟨page :: pages, ?_, List.mem_cons_self⟩
    rw [visit, clicked, Option.bind_some, visited, Option.map_some]

theorem visit_valid_iff (complete : data.Complete) (sound : page.Sound data)
    (valid : page.state.Valid data) {clicks : List (Click τ)} (offered : Offered data page clicks)
    {pages : List (Page τ)} (visited : visit data page clicks = some pages) :
    (∀ q ∈ pages, q.state.Valid data) ↔ AllKeepTaps data page clicks := by
  induction clicks generalizing page pages with
  | nil =>
    cases visited
    exact iff_of_true (List.forall_mem_singleton.mpr valid) trivial
  | cons c cs ih =>
    obtain ⟨offers, later⟩ := offered
    obtain ⟨page', clicked, sound', kept⟩ := click_sound complete sound offers
    obtain ⟨pages', visited', first⟩ := exists_visit complete sound' (later page' clicked)
    rw [visit, clicked, Option.bind_some, visited'] at visited
    cases visited
    rw [List.forall_mem_cons, AllKeepTaps]
    constructor
    · intro all
      rcases all with ⟨-, valids⟩
      have valid' := valids page' first
      refine ⟨(kept valid).mp valid', ?_⟩
      intro page'' clicked'
      rw [clicked] at clicked'
      cases clicked'
      exact (ih sound' valid' (later page' clicked) visited').mp valids
    · intro all
      rcases all with ⟨keeps, rest⟩
      have valid' := (kept valid).mpr keeps
      exact ⟨valid, (ih sound' valid' (later page' clicked) visited').mpr (rest page' clicked)⟩

end

/-- Every run of clicks on buttons that are there goes through. All selections along it
are valid exactly if every click on an architecture, made among filters, goes to one that
was measured with the selected number of taps. -/
theorem selection_valid_iff (data : BenchData τ) (complete : data.Complete) :
    ∃ start, init data = some start ∧ ∀ clicks, Offered data start clicks →
      ∃ pages, visit data start clicks = some pages ∧
        ((∀ page ∈ pages, page.state.Valid data) ↔ AllKeepTaps data start clicks) := by
  obtain ⟨state, chosen, valid⟩ := initial_valid complete
  have ⟨found, placed, _⟩ := valid
  obtain ⟨start, drawn, same, sound⟩ := exists_redraw state placed
  refine ⟨start, by rw [init, chosen]; exact drawn, ?_⟩
  intro clicks offered
  obtain ⟨pages, visited, -⟩ := exists_visit complete sound offered
  exact ⟨pages, visited, visit_valid_iff complete sound (same ▸ valid) offered visited⟩

/-! ## All runs -/

/-- All architectures of the filters were measured with the same numbers of taps. -/
def BenchData.SameTaps (data : BenchData τ) : Prop :=
  ∀ a b archA archB, archData data "fir" (some a) = some archA →
    archData data "fir" (some b) = some archB →
    ∀ t ∈ archA.taps.getD [], t ∈ archB.taps.getD []

section

variable {data : BenchData τ} {page page' : Page τ} {c : Click τ}

theorem sound_of_click (complete : data.Complete) (sound : page.Sound data)
    (offers : page.Offers c) (clicked : click data page c = some page') : page'.Sound data := by
  obtain ⟨page'', clicked', sound', -⟩ := click_sound complete sound offers
  rw [clicked'] at clicked
  cases clicked
  exact sound'

theorem state_of_redraw {state : Selection τ} (drawn : redraw data state = some page) :
    page.state = state := by
  obtain ⟨controls, -, drawn⟩ := Option.bind_eq_some_iff.mp drawn
  obtain ⟨series, -, drawn⟩ := Option.bind_eq_some_iff.mp drawn
  cases drawn
  rfl

/-- The suite is the one that was clicked. -/
theorem suite_of_click {value : String} (clicked : click data page (.suite value) = some page') :
    page'.state.suite = value := by
  obtain ⟨state, reconciled, drawn⟩ := Option.bind_eq_some_iff.mp clicked
  obtain ⟨suiteData, -, reconciled⟩ := Option.bind_eq_some_iff.mp reconciled
  obtain ⟨taps, -, reconciled⟩ := Option.bind_eq_some_iff.mp reconciled
  rw [state_of_redraw drawn]
  split at reconciled
  · cases reconciled
    rfl
  · cases reconciled
    rfl

theorem state_of_taps_click {value : τ} (clicked : click data page (.taps value) = some page') :
    page'.state = { page.state with taps := some value } := by
  obtain ⟨series, -, rfl⟩ := Option.map_eq_some_iff.mp clicked
  rfl

/-- With the same numbers of taps everywhere no click loses the selected one. -/
theorem allKeepTaps_of_sameTaps (complete : data.Complete) (same : data.SameTaps)
    {clicks : List (Click τ)} (sound : page.Sound data) (valid : page.state.Valid data)
    (offered : Offered data page clicks) : AllKeepTaps data page clicks := by
  induction clicks generalizing page with
  | nil => trivial
  | cons c cs ih =>
    obtain ⟨offers, later⟩ := offered
    have keeps : KeepsTaps data page.state c := by
      cases c with
      | arch value =>
        intro fir
        obtain ⟨found, placed, measured⟩ := valid
        obtain ⟨arch, placed'⟩ := ((sound.offers_iff placed).2.1 value).mp offers
        obtain ⟨t, member, selected⟩ := measured fir
        rw [fir] at placed placed'
        obtain ⟨-, a, -, here, -⟩ := archData_eq_some_iff.mp placed
        rw [here] at placed
        exact ⟨arch, placed', t, same a value found arch placed placed' t member, selected⟩
      | suite value => trivial
      | metric value => trivial
      | taps value => trivial
    obtain ⟨page', clicked, sound', kept⟩ := click_sound complete sound offers
    refine ⟨keeps, fun page'' clicked' => ?_⟩
    rw [clicked] at clicked'
    cases clicked'
    exact ih sound' ((kept valid).mpr keeps) (later page' clicked)

/-- From any page a visitor can select an architecture of the filters and one of its numbers
of taps, and then click on another architecture. -/
theorem offered_through (complete : data.Complete) (sound : page.Sound data) {a b : String}
    {archA archB : ArchData τ} (placedA : archData data "fir" (some a) = some archA)
    (placedB : archData data "fir" (some b) = some archB) {t : τ}
    (member : t ∈ archA.taps.getD []) :
    Offered data page [.suite "fir", .arch a, .taps t, .arch b] := by
  obtain ⟨suiteData, -, suite, -, -⟩ := archData_eq_some_iff.mp placedA
  obtain ⟨found, placed⟩ := sound.placed
  have fir : page.Offers (.suite "fir") :=
    ((sound.offers_iff placed).1 "fir").mpr ⟨suiteData, suite⟩
  refine ⟨fir, fun page₁ clicked₁ => ?_⟩
  have sound₁ := sound_of_click complete sound fir clicked₁
  have suite₁ := suite_of_click clicked₁
  obtain ⟨found₁, placed₁⟩ := sound₁.placed
  have first : page₁.Offers (.arch a) :=
    ((sound₁.offers_iff placed₁).2.1 a).mpr ⟨archA, by rw [suite₁, placedA]⟩
  refine ⟨first, fun page₂ clicked₂ => ?_⟩
  have sound₂ := sound_of_click complete sound₁ first clicked₂
  have state₂ : page₂.state = { page₁.state with arch := some a } := state_of_redraw clicked₂
  have placed₂ : archData data page₂.state.suite page₂.state.arch = some archA := by
    rw [state₂]
    dsimp only
    rw [suite₁, placedA]
  have number : page₂.Offers (.taps t) :=
    ((sound₂.offers_iff placed₂).2.2 t).mpr ⟨by rw [state₂]; exact suite₁, member⟩
  refine ⟨number, fun page₃ clicked₃ => ?_⟩
  have sound₃ := sound_of_click complete sound₂ number clicked₃
  have state₃ := state_of_taps_click clicked₃
  have placed₃ : archData data page₃.state.suite page₃.state.arch = some archA := by
    rw [state₃]
    exact placed₂
  refine ⟨((sound₃.offers_iff placed₃).2.1 b).mpr ⟨archB, ?_⟩, fun _ _ => trivial⟩
  rw [state₃, state₂]
  dsimp only
  rw [suite₁, placedB]

/-- Every selection a visitor can make is valid exactly if the architectures of the filters
were all measured with the same numbers of taps. -/
theorem all_selections_valid_iff (complete : data.Complete) :
    (∀ start clicks pages, init data = some start → Offered data start clicks →
      visit data start clicks = some pages → ∀ page ∈ pages, page.state.Valid data) ↔
      data.SameTaps := by
  obtain ⟨state, chosen, valid⟩ := initial_valid complete
  have ⟨found, placed, _⟩ := valid
  obtain ⟨start, drawn, same, sound⟩ := exists_redraw state placed
  have began : init data = some start := by rw [init, chosen]; exact drawn
  rw [← same] at valid
  constructor
  · intro all a b archA archB placedA placedB t member
    have offered := offered_through complete sound placedA placedB member
    obtain ⟨pages, visited, -⟩ := exists_visit complete sound offered
    have keeps := (visit_valid_iff complete sound valid offered visited).mp
      (all start _ pages began offered visited)
    obtain ⟨offers₁, later₁⟩ := offered
    obtain ⟨page₁, clicked₁, sound₁, -⟩ := click_sound complete sound offers₁
    obtain ⟨offers₂, later₂⟩ := later₁ page₁ clicked₁
    obtain ⟨page₂, clicked₂, sound₂, -⟩ := click_sound complete sound₁ offers₂
    obtain ⟨offers₃, -⟩ := later₂ page₂ clicked₂
    obtain ⟨page₃, clicked₃, -, -⟩ := click_sound complete sound₂ offers₃
    have last := (((keeps.2 page₁ clicked₁).2 page₂ clicked₂).2 page₃ clicked₃).1
    have state₂ : page₂.state = { page₁.state with arch := some a } := state_of_redraw clicked₂
    rw [state_of_taps_click clicked₃, state₂] at last
    obtain ⟨arch, placed', t', member', selected⟩ := last (suite_of_click clicked₁)
    rw [placedB] at placed'
    cases placed'
    cases selected
    exact member'
  · intro sameTaps start' clicks pages began' offered visited page member
    rw [began] at began'
    cases began'
    exact (visit_valid_iff complete sound valid offered visited).mpr
      (allKeepTaps_of_sameTaps complete sameTaps sound valid offered) page member

end

/-! ## Two architectures -/

/-- Filters on two architectures with their numbers of taps. -/
def twoArchs (arm x86 : List Nat) : BenchData Nat where
  suites := Dict.empty.set "fir"
    { label := "FIR"
      archs := (Dict.empty.set "arm" { taps := some arm }).set "x86" { taps := some x86 } }

theorem complete_twoArchs {arm x86 : List Nat} (some_arm : arm ≠ []) (some_x86 : x86 ≠ []) :
    (twoArchs arm x86).Complete := by
  refine ⟨List.cons_ne_nil _ _, ?_, ?_⟩
  · intro name suite found
    by_cases fir : name = "fir"
    · subst fir
      cases found
      exact List.cons_ne_nil _ _
    · rw [twoArchs, Dict.get?_set_of_ne fir] at found
      cases found
  · intro a arch placed
    obtain ⟨suiteData, name, suite, -, there⟩ := archData_eq_some_iff.mp placed
    cases suite
    by_cases second : name = "x86"
    · subst second
      cases there
      exact some_x86
    · rw [Dict.get?_set_of_ne second] at there
      by_cases first : name = "arm"
      · subst first
        cases there
        exact some_arm
      · rw [Dict.get?_set_of_ne first] at there
        cases there

/-- Both architectures were measured with eight taps. -/
theorem selection_valid_twoArchs :
    ∃ start, init (twoArchs [8, 32] [8, 64]) = some start ∧ ∀ clicks,
      Offered (twoArchs [8, 32] [8, 64]) start clicks →
        ∃ pages, visit (twoArchs [8, 32] [8, 64]) start clicks = some pages ∧
          ((∀ page ∈ pages, page.state.Valid (twoArchs [8, 32] [8, 64])) ↔
            AllKeepTaps (twoArchs [8, 32] [8, 64]) start clicks) :=
  selection_valid_iff (twoArchs [8, 32] [8, 64])
    (complete_twoArchs (List.cons_ne_nil _ _) (List.cons_ne_nil _ _))

/-- One click away from the start, the selected eight taps are none of the second
architecture's. -/
theorem arch_click_stale_taps :
    (twoArchs [8, 32] [16, 64]).Complete ∧
      ∃ start page, init (twoArchs [8, 32] [16, 64]) = some start ∧ start.Offers (.arch "x86") ∧
        click (twoArchs [8, 32] [16, 64]) start (.arch "x86") = some page ∧
        page.state.arch = some "x86" ∧ page.state.taps = some 8 ∧
        ¬ page.state.Valid (twoArchs [8, 32] [16, 64]) := by
  refine ⟨complete_twoArchs (List.cons_ne_nil _ _) (List.cons_ne_nil _ _), _, _, rfl, ?_, rfl, rfl,
    rfl, ?_⟩
  · show "x86" ∈ ["arm", "x86"]
    decide
  · intro valid
    rcases valid with ⟨arch, placed, measured⟩
    obtain ⟨t, member, selected⟩ := measured rfl
    cases placed
    cases selected
    exact absurd member (by decide)

end DspDispatch.Bench
