import DspDispatch.Bench.Controls
import DspDispatch.Bench.Dashboard

/-!
# The published dashboard (`main` of `tools/build_dashboard.py`, read by `dashboard.js`)

`main` collates the results of all architectures and writes them to a file that the page
reads. `Reads` says what the page finds in it: the keys and values, in whatever order the
keys come. From there to the chart: on every page a visitor can reach, the chart is that of
the selection, and each line shows the executions of one file of results.
-/

namespace DspDispatch.Bench

open Kit

/-! ## What is written -/

def Suite.name : Suite → String
  | .fft => "fft"
  | .fir => "fir"

/-- `suite.upper()`. -/
def Suite.label : Suite → String
  | .fft => "FFT"
  | .fir => "FIR"

/-- An `--arch` argument, with the reports of a suite and the CPU named in its markdown; a
path that is no directory has no reports. -/
structure ArchDir where
  key : String
  label : String
  files : Suite → List (String × Report)
  scraped : Suite → Option String

structure SuiteOut where
  label : String
  archLabels : Dict String String
  archs : Dict String Payload

variable (u : Unicode)

/-- The body of the loop over the architectures. -/
def addArch (suite : Suite) (acc : Dict String String × Dict String Payload) (dir : ArchDir) :
    Option (Dict String String × Dict String Payload) :=
  (collateArch u suite (dir.files suite) (dir.scraped suite)).map fun payload =>
    match payload with
    | none => acc
    | some payload => (acc.1.set dir.key dir.label, acc.2.set dir.key payload)

/-- The body of the loop over the suites. -/
def addSuite (dirs : List ArchDir) (out : Dict String SuiteOut) (suite : Suite) :
    Option (Dict String SuiteOut) :=
  (dirs.foldlM (addArch u suite) (Dict.empty, Dict.empty)).map fun acc =>
    if acc.2.entries.isEmpty then out
    else out.set suite.name { label := suite.label, archLabels := acc.1, archs := acc.2 }

/-- `suites_out`; `none` is an exception. -/
def buildSuites (dirs : List ArchDir) (suites : List Suite) : Option (Dict String SuiteOut) :=
  suites.foldlM (addSuite u dirs) Dict.empty

/-! ## What the page reads -/

def ExecutePoint.chart (q : ExecutePoint) : ChartPoint Nat :=
  { x := q.x, size := q.size, taps := q.taps, medianUs := q.medianUs, throughput := q.throughput }

structure ArchData.Reads (a : ArchData Nat) (payload : Payload) : Prop where
  taps : a.taps = payload.taps
  backends : ∀ b, a.backends.get? b =
    (payload.backends.get? b).map fun points => points.execute.map ExecutePoint.chart

structure SuiteData.Reads (s : SuiteData Nat) (out : SuiteOut) : Prop where
  label : s.label = out.label
  archLabels : ∀ key, s.archLabels.get? key = out.archLabels.get? key
  archs : ∀ key, Option.Rel ArchData.Reads (s.archs.get? key) (out.archs.get? key)

/-- The page finds the keys and values that were written. -/
def BenchData.Reads (data : BenchData Nat) (out : Dict String SuiteOut) : Prop :=
  ∀ name, Option.Rel SuiteData.Reads (data.suites.get? name) (out.get? name)

variable {u}

/-! ## The payloads -/

/-- A payload that was collated from a directory with this key. -/
def Collated (u : Unicode) (dirs : List ArchDir) (suite : Suite) (key : String)
    (payload : Payload) : Prop :=
  ∃ dir ∈ dirs, dir.key = key ∧
    collateArch u suite (dir.files suite) (dir.scraped suite) = some (some payload)

theorem collated_of_fold {dirs : List ArchDir} {suite : Suite}
    {acc : Dict String String × Dict String Payload}
    (built : dirs.foldlM (addArch u suite) (Dict.empty, Dict.empty) = some acc) {key : String}
    {payload : Payload} (found : acc.2.get? key = some payload) :
    Collated u dirs suite key payload := by
  refine foldlM_keeps (fun acc : Dict String String × Dict String Payload =>
    ∀ key payload, acc.2.get? key = some payload → Collated u dirs suite key payload) ?_ ?_ built
    key payload found
  · intro acc dir acc' member before run key payload found
    obtain ⟨collated, made, rfl⟩ := Option.map_eq_some_iff.mp run
    cases collated with
    | none => exact before key payload found
    | some new =>
      by_cases same : key = dir.key
      · subst same
        rw [Dict.get?_set_self] at found
        cases found
        exact ⟨dir, member, rfl, made⟩
      · rw [Dict.get?_set_of_ne same] at found
        exact before key payload found
  · intro key payload none
    cases none

/-- Every suite that is written has an architecture, and its payloads are collated. -/
theorem buildSuites_spec {dirs : List ArchDir} {suites : List Suite} {out : Dict String SuiteOut}
    (built : buildSuites u dirs suites = some out) {name : String} {s : SuiteOut}
    (found : out.get? name = some s) :
    ∃ suite ∈ suites, name = suite.name ∧ s.archs.entries ≠ [] ∧
      ∀ key payload, s.archs.get? key = some payload → Collated u dirs suite key payload := by
  refine foldlM_keeps (fun out : Dict String SuiteOut => ∀ name s, out.get? name = some s →
    ∃ suite ∈ suites, name = suite.name ∧ s.archs.entries ≠ [] ∧
      ∀ key payload, s.archs.get? key = some payload → Collated u dirs suite key payload)
    ?_ ?_ built name s found
  · intro out suite out' member before run name s found
    obtain ⟨acc, folded, rfl⟩ := Option.map_eq_some_iff.mp run
    split at found
    · exact before name s found
    · rename_i nonempty
      by_cases same : name = suite.name
      · subst same
        rw [Dict.get?_set_self] at found
        cases found
        refine ⟨suite, member, rfl, ?_, fun key payload held => collated_of_fold folded held⟩
        intro empty
        exact nonempty (List.isEmpty_iff.mpr empty)
      · rw [Dict.get?_set_of_ne same] at found
        exact before name s found
  · intro name s none
    cases none

/-- The reports of a directory as they are loaded. -/
def ArchDir.load (u : Unicode) (suite : Suite) (dir : ArchDir) : Option (List Loaded) :=
  (dir.files suite).mapM fun file => loadResults u file.1 file.2

/-- The points of a backend are those of its file. -/
theorem get?_backends {suite : Suite} {loaded : List Loaded} {scraped : Option String}
    {payload : Payload} (distinct : (loaded.map Loaded.label).Nodup)
    (collated : collateLoaded u suite loaded scraped = some (some payload)) {b : String}
    {points : BackendPoints} :
    payload.backends.get? b = some points ↔
      (∃ l ∈ loaded, l.label = b ∧ collateRows u suite l.rows = some points) ∧
        ¬ (points.execute.isEmpty ∧ points.planCreate.isEmpty) := by
  obtain ⟨all, collected, result⟩ := Option.bind_eq_some_iff.mp collated
  have labels : all.map Prod.fst = loaded.map Loaded.label := by
    refine map_of_mapM ?_ collected
    intro l e made
    obtain ⟨_, -, rfl⟩ := Option.map_eq_some_iff.mp made
    rfl
  have keys : ((all.filter fun e =>
      ¬ (e.2.execute.isEmpty ∧ e.2.planCreate.isEmpty)).map Prod.fst).Nodup := by
    refine List.Nodup.sublist ((List.filter_sublist (l := all)).map Prod.fst) ?_
    rw [labels]
    exact distinct
  have backends : payload.backends = Dict.ofList
      (all.filter fun e => ¬ (e.2.execute.isEmpty ∧ e.2.planCreate.isEmpty)) := by
    have made : payloadOf suite _ _ scraped = some payload := Option.some.inj result
    unfold payloadOf at made
    split at made
    · cases made
    · cases made
      rfl
  rw [backends, Dict.get?_ofList keys, List.mem_filter, mem_of_mapM collected, decide_eq_true_iff]
  refine and_congr_left fun _ => ⟨?_, ?_⟩
  · rintro ⟨l, inside, made⟩
    obtain ⟨found, collated', same⟩ := Option.map_eq_some_iff.mp made
    cases same
    exact ⟨l, inside, rfl, collated'⟩
  · rintro ⟨l, inside, rfl, collated'⟩
    exact ⟨l, inside, by rw [collated', Option.map_some]⟩

/-! ## The chart of a page -/

/-- The buttons and the chart are those of the selection, whose architecture exists. -/
structure Page.Drawn (data : BenchData Nat) (page : Page Nat) : Prop where
  sound : page.Sound data
  series : render data page.state = some page.series

/-- Every suite has an architecture. -/
def BenchData.Stocked (data : BenchData Nat) : Prop :=
  ∀ name suite, data.suites.get? name = some suite → suite.archs.entries ≠ []

section Pages

variable {data : BenchData Nat} {page page' : Page Nat} {state : Selection Nat} {c : Click Nat}

theorem drawn_of_redraw (state : Selection Nat) {found : ArchData Nat}
    (placed : archData data state.suite state.arch = some found) :
    ∃ page, redraw data state = some page ∧ page.Drawn data := by
  obtain ⟨page, drawn, same, sound⟩ := exists_redraw state placed
  refine ⟨page, drawn, sound, ?_⟩
  obtain ⟨controls, -, rest⟩ := Option.bind_eq_some_iff.mp drawn
  obtain ⟨series, made, rest⟩ := Option.bind_eq_some_iff.mp rest
  cases rest
  exact made

/-- The first architecture of a suite, or the selected one. -/
theorem exists_kept_arch (stocked : data.Stocked) {name : String} {suiteData : SuiteData Nat}
    (suite : data.suites.get? name = some suiteData) (selected : Option String) :
    ∃ found, archData data name (keepOrFirst suiteData.archs.keys selected) = some found := by
  have nonempty : suiteData.archs.keys ≠ [] := by
    intro none
    exact stocked name suiteData suite (List.map_eq_nil_iff.mp none)
  obtain ⟨a, member, kept⟩ := exists_keepOrFirst nonempty selected
  obtain ⟨found, held⟩ := Dict.mem_keys_iff.mp member
  exact ⟨found, archData_eq_some_iff.mpr ⟨suiteData, a, suite, kept, held⟩⟩

/-- A change of the suite leads to an architecture that exists. -/
theorem exists_reconcile (stocked : data.Stocked) (state : Selection Nat) {suiteData : SuiteData Nat}
    (suite : data.suites.get? state.suite = some suiteData) :
    ∃ state' found, reconcile data state = some state' ∧
      archData data state'.suite state'.arch = some found := by
  obtain ⟨found, placed⟩ := exists_kept_arch stocked suite state.arch
  obtain ⟨taps, offered, -⟩ := exists_tapsOf placed
  simp only [reconcile, suite, Option.bind_eq_bind, Option.bind_some, offered]
  split
  · exact ⟨_, found, rfl, placed⟩
  · exact ⟨_, found, rfl, placed⟩

theorem click_drawn (stocked : data.Stocked) (drawn : page.Drawn data) (offers : page.Offers c) :
    ∃ page', click data page c = some page' ∧ page'.Drawn data := by
  obtain ⟨found, placed⟩ := drawn.sound.placed
  obtain ⟨suites, archs, -⟩ := drawn.sound.offers_iff placed
  cases c with
  | suite value =>
    obtain ⟨suiteData, suite⟩ := (suites value).mp offers
    obtain ⟨state', found', reconciled, placed'⟩ :=
      exists_reconcile stocked { page.state with suite := value } suite
    obtain ⟨page', redrawn, drawn'⟩ := drawn_of_redraw state' placed'
    refine ⟨page', ?_, drawn'⟩
    rw [click, onSuiteChange, reconciled]
    exact redrawn
  | arch value =>
    obtain ⟨arch, placed'⟩ := (archs value).mp offers
    exact drawn_of_redraw { page.state with arch := some value } placed'
  | metric value =>
    obtain ⟨series, made⟩ := exists_render { page.state with metric := value } placed
    refine ⟨{ page with state := { page.state with metric := value }, series }, ?_,
      ⟨⟨found, placed⟩, drawn.sound.fresh⟩, made⟩
    rw [click, made, Option.map_some]
  | taps value =>
    obtain ⟨series, made⟩ := exists_render { page.state with taps := some value } placed
    refine ⟨{ page with state := { page.state with taps := some value }, series }, ?_,
      ⟨⟨found, placed⟩, drawn.sound.fresh⟩, made⟩
    rw [click, made, Option.map_some]

theorem visit_drawn (stocked : data.Stocked) (clicks : List (Click Nat)) :
    ∀ page : Page Nat, page.Drawn data → Offered data page clicks →
      ∃ pages, visit data page clicks = some pages ∧ ∀ q ∈ pages, q.Drawn data := by
  induction clicks with
  | nil =>
    intro page drawn _
    refine ⟨[page], rfl, fun q member => ?_⟩
    rw [List.mem_singleton.mp member]
    exact drawn
  | cons c cs ih =>
    rintro page drawn ⟨offers, later⟩
    obtain ⟨page', clicked, drawn'⟩ := click_drawn stocked drawn offers
    obtain ⟨pages, visited, all⟩ := ih page' drawn' (later page' clicked)
    refine ⟨page :: pages, ?_, fun q member => ?_⟩
    · rw [visit, clicked, Option.bind_some, visited, Option.map_some]
    · rcases List.mem_cons.mp member with rfl | rest
      · exact drawn
      · exact all q rest

theorem init_drawn (stocked : data.Stocked) (nonempty : data.suites.entries ≠ []) :
    ∃ start, init data = some start ∧ start.Drawn data := by
  obtain ⟨⟨name, suiteData⟩, es, entries⟩ := List.exists_cons_of_ne_nil nonempty
  have suite : data.suites.get? name = some suiteData := by
    refine Dict.mem_entries_iff.mp ?_
    rw [entries]
    exact List.mem_cons_self
  obtain ⟨found, placed⟩ := exists_kept_arch stocked suite none
  have first : keepOrFirst suiteData.archs.keys none = suiteData.archs.keys.head? := by
    rw [keepOrFirst, if_neg]
    rintro ⟨a, -, same⟩
    cases same
  rw [first] at placed
  obtain ⟨taps, offered, -⟩ := exists_tapsOf placed
  let state : Selection Nat :=
    { suite := name, arch := suiteData.archs.keys.head?, metric := .latency, taps := taps.head? }
  have chosen : initial data = some state := by
    simp only [initial, entries, List.head?_cons, Option.bind_eq_bind, Option.bind_some, offered]
    rfl
  obtain ⟨start, redrawn, drawn⟩ := drawn_of_redraw state placed
  exact ⟨start, by rw [init, chosen]; exact redrawn, drawn⟩

end Pages

/-! ## The lines of a chart -/

section Lines

variable {data : BenchData Nat} {state : Selection Nat} {found : ArchData Nat}
  {series : List (String × Line)}

theorem mem_seriesData {points : List (ChartPoint Nat)} {metric : Metric} {suite : String}
    {taps : Option Nat} {x y : ℚ} {size : String} :
    (x, y, size) ∈ seriesData points metric suite taps ↔
      ∃ p ∈ points, (suite = "fir" → taps = none ∨ p.taps = taps) ∧ metric.read p = some y ∧
        0 < y ∧ p.x = x ∧ p.size = size := by
  rw [seriesData, List.mem_mergeSort, List.mem_filterMap]
  refine exists_congr fun p => and_congr_right fun _ => ?_
  by_cases skipped : suite = "fir" ∧ taps ≠ none ∧ p.taps ≠ taps
  · rw [if_pos skipped]
    obtain ⟨fir, some, other⟩ := skipped
    constructor
    · intro none
      cases none
    · rintro ⟨selected, -⟩
      exact (selected fir).elim (fun none => absurd none some) fun same => absurd same other
  · rw [if_neg skipped]
    have selected : suite = "fir" → taps = none ∨ p.taps = taps := by
      intro fir
      by_contra neither
      exact skipped ⟨fir, not_or.mp neither⟩
    simp only [Option.map_eq_some_iff, Option.filter_eq_some_iff, decide_eq_true_iff,
      Prod.mk.injEq]
    constructor
    · rintro ⟨y', ⟨value, positive⟩, here, rfl, named⟩
      exact ⟨selected, value, positive, here, named⟩
    · rintro ⟨-, value, positive, here, named⟩
      exact ⟨y, ⟨value, positive⟩, here, rfl, named⟩

theorem seriesData_sorted (points : List (ChartPoint Nat)) (metric : Metric) (suite : String)
    (taps : Option Nat) :
    ((seriesData points metric suite taps).map Prod.fst).Pairwise (· ≤ ·) := by
  rw [List.pairwise_map]
  refine (List.pairwise_mergeSort (fun a b c first second => ?_) (fun a b => ?_) _).imp
    fun le => of_decide_eq_true le
  · rw [decide_eq_true_iff] at first second ⊢
    exact le_trans first second
  · rw [Bool.or_eq_true, decide_eq_true_iff, decide_eq_true_iff]
    exact le_total a.1 b.1

/-- There is a line for each backend with points to show. -/
theorem mem_render (placed : archData data state.suite state.arch = some found)
    (drawn : render data state = some series) {b : String} {line : Line} :
    (b, line) ∈ series ↔ line ≠ [] ∧ ∃ points, found.backends.get? b = some points ∧
      line = seriesData points state.metric state.suite state.taps := by
  rw [render, placed, Option.map_some] at drawn
  cases drawn
  rw [List.mem_filter, List.mem_map, and_comm]
  refine and_congr ?_ ?_
  · rw [Bool.not_eq_true', List.isEmpty_eq_false_iff]
  · constructor
    · rintro ⟨⟨b', points⟩, member, same⟩
      cases same
      exact ⟨points, Dict.mem_entries_iff.mp (List.mem_mergeSort.mp member), rfl⟩
    · rintro ⟨points, held, rfl⟩
      exact ⟨(b, points), List.mem_mergeSort.mpr (Dict.mem_entries_iff.mpr held), rfl⟩

/-- The lines come in the order of the names of the backends. -/
theorem render_sorted (placed : archData data state.suite state.arch = some found)
    (drawn : render data state = some series) : (series.map Prod.fst).Pairwise (· < ·) := by
  rw [render, placed, Option.map_some] at drawn
  cases drawn
  have order : (found.backends.entries.mergeSort fun a b => a.1 ≤ b.1).Pairwise
      fun a b => a.1 ≤ b.1 := by
    refine (List.pairwise_mergeSort (fun a b c first second => ?_) (fun a b => ?_) _).imp
      fun le => of_decide_eq_true le
    · rw [decide_eq_true_iff] at first second ⊢
      exact le_trans first second
    · rw [Bool.or_eq_true, decide_eq_true_iff, decide_eq_true_iff]
      exact le_total a.1 b.1
  have distinct : (found.backends.entries.mergeSort fun a b => a.1 ≤ b.1).Pairwise
      fun a b => a.1 ≠ b.1 := by
    rw [← List.pairwise_map (R := (· ≠ ·))]
    exact ((List.mergeSort_perm found.backends.entries _).map Prod.fst).nodup_iff.mpr
      found.backends.nodup
  rw [List.pairwise_map]
  refine List.Pairwise.sublist List.filter_sublist ?_
  rw [List.pairwise_map]
  exact (order.and distinct).imp fun both => lt_of_le_of_ne both.1 both.2

end Lines

/-! ## From the files to the chart -/

/-- What a line shows of a file: the executions with a positive value, of filters those with
the selected number of taps. -/
def Loaded.Shows (u : Unicode) (suite : Suite) (metric : Metric) (taps : Option Nat) (l : Loaded)
    (x y : ℚ) (size : String) : Prop :=
  ∃ m q, l.rows.get? ("execute", size) = some m ∧ executePoint u suite size m = some (some q) ∧
    (suite = .fir → taps = none ∨ q.taps = taps) ∧ metric.read q.chart = some y ∧ 0 < y ∧ q.x = x

theorem mem_shown_points {suite : Suite} {metric : Metric} {taps : Option Nat} {l : Loaded}
    {points : BackendPoints} (collated : collateRows u suite l.rows = some points) {x y : ℚ}
    {size : String} :
    (x, y, size) ∈
        seriesData (points.execute.map ExecutePoint.chart) metric suite.name taps ↔
      l.Shows u suite metric taps x y size := by
  have filters : suite.name = "fir" ↔ suite = .fir := by
    cases suite with
    | fft => decide
    | fir => decide
  obtain ⟨execute, collected, rest⟩ := Option.bind_eq_some_iff.mp collated
  obtain ⟨planCreate, -, made⟩ := Option.bind_eq_some_iff.mp rest
  cases made
  rw [mem_seriesData, filters]
  constructor
  · rintro ⟨p, member, selected, value, positive, here, named⟩
    obtain ⟨q, inside, rfl⟩ := List.mem_map.mp member
    obtain ⟨size', m, row, point⟩ := (mem_placed collected).mp inside
    obtain ⟨sized, -⟩ := executePoint_fields point
    obtain rfl : size' = size := sized.symm.trans named
    exact ⟨m, q, row, point, selected, value, positive, here⟩
  · rintro ⟨m, q, row, point, selected, value, positive, here⟩
    obtain ⟨sized, -⟩ := executePoint_fields point
    exact ⟨q.chart, List.mem_map_of_mem ((mem_placed collected).mpr ⟨size, m, row, point⟩),
      selected, value, positive, here, sized⟩

/-- The lines of a drawn page. -/
theorem Page.Drawn.shows {page : Page Nat} {data : BenchData Nat} (drawn : page.Drawn data)
    {suite : Suite} {found : ArchData Nat}
    (placed : archData data page.state.suite page.state.arch = some found)
    (named : page.state.suite = suite.name) {loaded : List Loaded} {scraped : Option String}
    {payload : Payload} (distinct : (loaded.map Loaded.label).Nodup)
    (collated : collateLoaded u suite loaded scraped = some (some payload))
    (reads : found.Reads payload) {b size : String} {x y : ℚ} :
    (∃ line, (b, line) ∈ page.series ∧ (x, y, size) ∈ line) ↔
      ∃ l ∈ loaded, l.label = b ∧ l.Shows u suite page.state.metric page.state.taps x y size := by
  constructor
  · rintro ⟨line, member, point⟩
    obtain ⟨-, charted, held, rfl⟩ := (mem_render placed drawn.series).mp member
    rw [reads.backends] at held
    obtain ⟨points, kept, rfl⟩ := Option.map_eq_some_iff.mp held
    obtain ⟨⟨l, inside, label, rows⟩, -⟩ := (get?_backends distinct collated).mp kept
    rw [named] at point
    exact ⟨l, inside, label, (mem_shown_points rows).mp point⟩
  · rintro ⟨l, inside, label, shows⟩
    obtain ⟨all, collected, -⟩ := Option.bind_eq_some_iff.mp collated
    obtain ⟨points, rows⟩ : ∃ points, collateRows u suite l.rows = some points := by
      obtain ⟨e, made⟩ : ∃ e, (collateRows u suite l.rows).map (fun points => (l.label, points)) =
          some e := by
        have every := mapM_eq_some_iff.mp collected
        have present : (collateRows u suite l.rows).map (fun points => (l.label, points)) ∈
            all.map some := every ▸ List.mem_map_of_mem inside
        obtain ⟨e, -, same⟩ := List.mem_map.mp present
        exact ⟨e, same.symm⟩
      obtain ⟨points, rows, -⟩ := Option.map_eq_some_iff.mp made
      exact ⟨points, rows⟩
    have point := (mem_shown_points rows).mpr shows
    have nonempty : ¬ (points.execute.isEmpty ∧ points.planCreate.isEmpty) := by
      rintro ⟨noExecute, -⟩
      obtain ⟨p, member, -⟩ := mem_seriesData.mp point
      rw [List.isEmpty_iff.mp noExecute] at member
      exact absurd member List.not_mem_nil
    have held := (get?_backends distinct collated).mpr ⟨⟨l, inside, label, rows⟩, nonempty⟩
    rw [← named] at point
    refine ⟨_, (mem_render placed drawn.series).mpr ⟨?_, _, ?_, rfl⟩, point⟩
    · exact List.ne_nil_of_mem point
    · rw [reads.backends, held, Option.map_some]

/-- From the files of results to the chart. If the labels in a directory are distinct, no run
of clicks on buttons of the published page throws, and on all pages along it the chart has a
line for each backend of the selected suite and architecture that has something to show, in
the order of their names, with its points from left to right: exactly the executions in the
backend's file that have a positive value of the selected metric and, among filters, the
selected number of taps. -/
theorem dashboard_shows_files {u : Unicode} {dirs : List ArchDir} {suites : List Suite}
    {out : Dict String SuiteOut} (built : buildSuites u dirs suites = some out)
    (written : out.entries ≠ [])
    (distinct : ∀ dir ∈ dirs, ∀ suite loaded, dir.load u suite = some loaded →
      (loaded.map Loaded.label).Nodup)
    {data : BenchData Nat} (reads : data.Reads out) :
    ∃ start, init data = some start ∧ ∀ clicks, Offered data start clicks →
      ∃ pages, visit data start clicks = some pages ∧ ∀ page ∈ pages,
        ∃ suite ∈ suites, ∃ dir ∈ dirs, ∃ loaded, page.state.suite = suite.name ∧
          page.state.arch = some dir.key ∧ dir.load u suite = some loaded ∧
          (page.series.map Prod.fst).Pairwise (· < ·) ∧
          (∀ line ∈ page.series, (line.2.map Prod.fst).Pairwise (· ≤ ·)) ∧
          ∀ b x y size, (∃ line, (b, line) ∈ page.series ∧ (x, y, size) ∈ line) ↔
            ∃ l ∈ loaded, l.label = b ∧
              l.Shows u suite page.state.metric page.state.taps x y size := by
  have stocked : data.Stocked := by
    intro name s held
    obtain ⟨o, kept, related⟩ := (exists_of_rel (reads name)).1 s held
    obtain ⟨-, -, -, nonempty, -⟩ := buildSuites_spec built kept
    obtain ⟨key, payload, there⟩ := Dict.exists_get? nonempty
    obtain ⟨a, here, -⟩ := (exists_of_rel (related.archs key)).2 payload there
    exact Dict.entries_ne_nil here
  have nonempty : data.suites.entries ≠ [] := by
    obtain ⟨name, o, kept⟩ := Dict.exists_get? written
    obtain ⟨s, held, -⟩ := (exists_of_rel (reads name)).2 o kept
    exact Dict.entries_ne_nil held
  obtain ⟨start, began, drawn⟩ := init_drawn stocked nonempty
  refine ⟨start, began, fun clicks offered => ?_⟩
  obtain ⟨pages, visited, all⟩ := visit_drawn stocked clicks start drawn offered
  refine ⟨pages, visited, fun page member => ?_⟩
  have drawn := all page member
  obtain ⟨found, placed⟩ := drawn.sound.placed
  obtain ⟨s, key, held, selected, arch⟩ := archData_eq_some_iff.mp placed
  obtain ⟨o, kept, related⟩ := (exists_of_rel (reads page.state.suite)).1 s held
  obtain ⟨payload, there, same⟩ := (exists_of_rel (related.archs key)).1 found arch
  obtain ⟨suite, inSuites, named, -, collated⟩ := buildSuites_spec built kept
  obtain ⟨dir, inDirs, rfl, made⟩ := collated key payload there
  obtain ⟨loaded, loads, result⟩ := Option.bind_eq_some_iff.mp made
  refine ⟨suite, inSuites, dir, inDirs, loaded, named, selected, loads,
    render_sorted placed drawn.series, ?_, fun b x y size => ?_⟩
  · rintro ⟨b, line⟩ shown
    obtain ⟨-, points, -, rfl⟩ := (mem_render placed drawn.series).mp shown
    exact seriesData_sorted _ _ _ _
  · exact drawn.shows placed named (distinct dir inDirs suite loaded loads) result same

/-! ## Two filters -/

/-- What the page reads if the keys come in the order in which they were written. -/
def BenchData.ofWritten (out : Dict String SuiteOut) : BenchData Nat where
  suites := out.mapValues fun s =>
    { label := s.label
      archLabels := s.archLabels
      archs := s.archs.mapValues fun payload =>
        { taps := payload.taps
          backends := payload.backends.mapValues fun points =>
            points.execute.map ExecutePoint.chart } }

theorem rel_map {α β : Type} {R : β → α → Prop} {f : α → β} (same : ∀ a, R (f a) a)
    (x : Option α) : Option.Rel R (x.map f) x := by
  cases x with
  | none => exact .none
  | some a => exact .some (same a)

theorem BenchData.ofWritten_reads (out : Dict String SuiteOut) :
    (BenchData.ofWritten out).Reads out := by
  intro name
  rw [BenchData.ofWritten, Dict.get?_mapValues]
  refine rel_map (fun s => ⟨rfl, fun _ => rfl, fun key => ?_⟩) _
  rw [Dict.get?_mapValues]
  exact rel_map (fun payload => ⟨rfl, fun b => Dict.get?_mapValues ..⟩) _

/-- The median of a filter. -/
def filterRow (block taps : Nat) (time : ℚ) : Row where
  name := repeated (firName .execute block taps) 15 "_median"
  runType := some "aggregate"
  aggregateName := some "median"
  realTime := some time
  timeUnit := some "us"

/-- A directory with a report on transforms and two on filters, of which one was measured with
two numbers of taps. -/
def twoFilters : ArchDir where
  key := "x86"
  label := "x86_64"
  files
    | .fft => [("fft_pocketfft", oneThroughput)]
    | .fir => [("fir_portable", ⟨[filterRow 64 8 2, filterRow 64 32 5], Dict.empty⟩),
        ("fir_liquid", ⟨[filterRow 64 8 3], Dict.empty⟩)]
  scraped _ := none

theorem labels_twoFilters (suite : Suite) :
    (twoFilters.load .ascii suite).map (fun loaded => loaded.map Loaded.label) =
      some (match suite with
        | .fft => ["fft_pocketfft"]
        | .fir => ["fir_portable", "fir_liquid"]) := by
  cases suite with
  | fft => decide +kernel
  | fir => decide +kernel

/-- The executions of the filters: backend, taps, median and size. -/
def filterPoints : List (String × Nat × ℚ × String) :=
  [("fir_portable", 8, 2, "64x8"), ("fir_portable", 32, 5, "64x32"), ("fir_liquid", 8, 3, "64x8")]

/-- What a row of a filter shows. -/
theorem firPoint_iff {size : String} {block t : Nat}
    (split : splitFirSize .ascii size = some (some (block, t))) {value : ℚ} {taps : Option Nat}
    {x y : ℚ} :
    (∃ q, executePoint .ascii .fir size { median := some value, unit := some "us" } =
        some (some q) ∧ (taps = none ∨ q.taps = taps) ∧ q.medianUs = some y ∧ 0 < y ∧ q.x = x) ↔
      (taps = none ∨ some t = taps) ∧ value = y ∧ 0 < y ∧ (block : ℚ) = x := by
  have same : us (some value) "us" = some value := congrArg some (mul_one value)
  simp only [executePoint, split, Option.map_some, Option.some.injEq, exists_eq_left',
    Option.getD_some, same]

theorem shows_twoFilters {loaded : List Loaded} (loads : twoFilters.load .ascii .fir = some loaded)
    {taps : Option Nat} {b size : String} {x y : ℚ} :
    (∃ l ∈ loaded, l.label = b ∧ l.Shows .ascii .fir .latency taps x y size) ↔
      x = 64 ∧ ∃ t, (taps = none ∨ some t = taps) ∧ (b, t, y, size) ∈ filterPoints := by
  have entries : (twoFilters.load .ascii .fir).map
      (fun loaded => loaded.map fun l => (l.label, l.rows.entries)) = some
      [("fir_portable", [(("execute", "64x8"), { median := some 2, unit := some "us" }),
          (("execute", "64x32"), { median := some 5, unit := some "us" })]),
        ("fir_liquid", [(("execute", "64x8"), { median := some 3, unit := some "us" })])] := by
    decide +kernel
  rw [loads, Option.map_some, Option.some.injEq] at entries
  have listed : (∃ l ∈ loaded, l.label = b ∧ l.Shows .ascii .fir .latency taps x y size) ↔
      ∃ e ∈ loaded.map fun l => (l.label, l.rows.entries), e.1 = b ∧
        ∃ m, (("execute", size), m) ∈ e.2 ∧ ∃ q, executePoint .ascii .fir size m =
          some (some q) ∧ (taps = none ∨ q.taps = taps) ∧ q.medianUs = some y ∧ 0 < y ∧
            q.x = x := by
    simp only [List.mem_map, exists_exists_and_eq_and, Dict.mem_entries_iff, Loaded.Shows,
      exists_and_left, true_imp_iff]
    rfl
  have eight : splitFirSize .ascii "64x8" = some (some (64, 8)) := by decide
  have more : splitFirSize .ascii "64x32" = some (some (64, 32)) := by decide
  rw [listed, entries]
  simp only [filterPoints, List.mem_cons, List.not_mem_nil, or_false, Prod.mk.injEq]
  constructor
  · rintro ⟨e, rfl | rfl, rfl, m, row, shown⟩
    · simp only [List.mem_cons, List.not_mem_nil, or_false, Prod.mk.injEq, true_and] at row
      rcases row with ⟨rfl, rfl⟩ | ⟨rfl, rfl⟩
      · obtain ⟨selected, rfl, -, here⟩ := (firPoint_iff eight).mp shown
        exact ⟨here.symm, 8, selected, by simp⟩
      · obtain ⟨selected, rfl, -, here⟩ := (firPoint_iff more).mp shown
        exact ⟨here.symm, 32, selected, by simp⟩
    · simp only [List.mem_cons, List.not_mem_nil, or_false, Prod.mk.injEq, true_and] at row
      obtain ⟨rfl, rfl⟩ := row
      obtain ⟨selected, rfl, -, here⟩ := (firPoint_iff eight).mp shown
      exact ⟨here.symm, 8, selected, by simp⟩
  · rintro ⟨rfl, t, selected, ⟨rfl, rfl, rfl, rfl⟩ | ⟨rfl, rfl, rfl, rfl⟩ | ⟨rfl, rfl, rfl, rfl⟩⟩
    · exact ⟨_, .inl rfl, rfl, _, List.mem_cons_self,
        (firPoint_iff eight).mpr ⟨selected, rfl, by norm_num, rfl⟩⟩
    · exact ⟨_, .inl rfl, rfl, _, List.mem_cons_of_mem _ List.mem_cons_self,
        (firPoint_iff more).mpr ⟨selected, rfl, by norm_num, rfl⟩⟩
    · exact ⟨_, .inr rfl, rfl, _, List.mem_cons_self,
        (firPoint_iff eight).mpr ⟨selected, rfl, by norm_num, rfl⟩⟩

/-- On every page among the filters that shows latencies, the lines are those of the selected
number of taps. -/
theorem dashboard_shows_files_twoFilters :
    ∃ out, buildSuites .ascii [twoFilters] [.fft, .fir] = some out ∧
      ∃ start, init (BenchData.ofWritten out) = some start ∧
        ∀ clicks, Offered (BenchData.ofWritten out) start clicks →
          ∃ pages, visit (BenchData.ofWritten out) start clicks = some pages ∧
            ∀ page ∈ pages, page.state.suite = "fir" → page.state.metric = .latency →
              ∀ b x y size, (∃ line, (b, line) ∈ page.series ∧ (x, y, size) ∈ line) ↔
                x = 64 ∧ ∃ t, (page.state.taps = none ∨ some t = page.state.taps) ∧
                  (b, t, y, size) ∈ filterPoints := by
  have transforms : ((addSuite .ascii [twoFilters] Dict.empty .fft).map fun out =>
      out.entries.length) = some 1 := by decide +kernel
  obtain ⟨first, added, one⟩ := Option.map_eq_some_iff.mp transforms
  have filters : (addSuite .ascii [twoFilters] first .fir).isSome = true := by
    rw [addSuite, Option.isSome_map]
    decide +kernel
  obtain ⟨out, added'⟩ := Option.isSome_iff_exists.mp filters
  have built : buildSuites .ascii [twoFilters] [.fft, .fir] = some out := by
    simp only [buildSuites, List.foldlM_cons, List.foldlM_nil, added, added', Option.bind_eq_bind,
      Option.bind_some, Option.pure_def]
  have written : out.entries ≠ [] := by
    obtain ⟨acc, -, rfl⟩ := Option.map_eq_some_iff.mp added'
    split
    · intro empty
      rw [empty] at one
      cases one
    · exact Dict.entries_ne_nil (Dict.get?_set_self ..)
  have distinct : ∀ dir ∈ [twoFilters], ∀ suite loaded, dir.load .ascii suite = some loaded →
      (loaded.map Loaded.label).Nodup := by
    intro dir member suite loaded loads
    obtain rfl := List.mem_singleton.mp member
    have labels := labels_twoFilters suite
    rw [loads, Option.map_some, Option.some.injEq] at labels
    rw [labels]
    cases suite with
    | fft => decide
    | fir => decide
  obtain ⟨start, began, runs⟩ := dashboard_shows_files built written distinct
    (BenchData.ofWritten_reads out)
  refine ⟨out, built, start, began, fun clicks offered => ?_⟩
  obtain ⟨pages, visited, all⟩ := runs clicks offered
  refine ⟨pages, visited, fun page member fir latency b x y size => ?_⟩
  obtain ⟨suite, -, dir, inDirs, loaded, named, -, loads, -, -, shows⟩ := all page member
  obtain rfl := List.mem_singleton.mp inDirs
  obtain rfl : suite = .fir := by
    cases suite with
    | fft => exact absurd (fir.symm.trans named) (by decide)
    | fir => rfl
  rw [shows, latency]
  exact shows_twoFilters loads

end DspDispatch.Bench
