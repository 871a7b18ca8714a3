/-
**What a scrape writes: the text of `pcr_bridge`, metric by metric.**

All metrics that the program meets keep at most one sample: the gauges of the monitor and the
metrics of the process collector have no labels, and the duration of a scrape has one label with
one value.

* `Monitor.PromMetric.Single` — such a metric, and what setting and showing it does;
* `Monitor.ProcessShape`, `Monitor.processShape_ppcNew`, `Monitor.ProcessShape.collect` — the
  process collector;
* `Monitor.Pcr.Shape`, `Monitor.Pcr.Shape.bridge` — **the text of a registry in order**.
-/

import MetricsMonitor.CollectorRegistry

set_option relaxedAutoImplicit false
set_option autoImplicit false

namespace Monitor

/-! ### Metrics with one sample -/

/-- A metric that keeps at most one sample, under the text of these label values. -/
structure PromMetric.Single (m : PromMetric Pms) (type : MetricType) (name help : CString)
    (labelKeys labelValues : List CString) (x : Option Double) : Prop where
  holds : m.Holds fun key =>
    if key = lValueText name none (labelKeys.zip labelValues) then x else none
  type : m.type = type
  name : m.name = name
  help : m.help = some help
  labelKeys : m.labelKeys = labelKeys

/-- What is exposed of such a metric. -/
def exposedSingle (type : MetricType) (name help : CString) (labelKeys labelValues : List CString)
    (x : Option Double) : Exposed :=
  ⟨type, name, help,
    x.toList.map (Pms.mk type (lValueText name none (labelKeys.zip labelValues)))⟩

/-- Such a metric can be exposed when its labels are one line. -/
theorem valid_exposedSingle {pre name help : CString}
    (hname : pcrCheckName false (pre ++ name) = true) (hhelp : '\n' ∉ help)
    {labelKeys labelValues : List CString}
    (hlabels : '\n' ∉ labelsText (labelKeys.zip labelValues)) (type : MetricType)
    (x : Option Double) :
    (exposedSingle type name help labelKeys labelValues x).Valid pre := by
  refine ⟨hname, hhelp, fun s hs => ?_⟩
  obtain ⟨y, -, rfl⟩ := List.mem_map.1 hs
  exact ⟨labelsText (labelKeys.zip labelValues), by simp [lValueText, suffixText, exposedSingle],
    hlabels⟩

/-- What a reader finds of such a metric. -/
theorem family_exposedSingle (pre : CString) (type : MetricType) (name help : CString)
    (labelKeys labelValues : List CString) (x : Option Double) :
    (exposedSingle type name help labelKeys labelValues x).family pre =
      ⟨pre ++ name, some help, some type, x.toList.map fun y =>
        (pre ++ lValueText name none (labelKeys.zip labelValues), y.toSeventeen)⟩ := by
  rw [Exposed.family, exposedSingle, List.map_map]
  rfl

namespace PromMetric.Single

variable {m : PromMetric Pms} {type : MetricType} {name help : CString}
  {labelKeys labelValues : List CString} {x : Option Double}

theorem new (h : promMetricNew type name (some help) labelKeys = some m)
    (labelValues : List CString) : m.Single type name help labelKeys labelValues none := by
  obtain ⟨rfl, hvalid⟩ := PromMetric.valid_new h
  refine ⟨{ hvalid with lookup := fun key => ?_ }, rfl, rfl, rfl, rfl⟩
  rw [hvalid.lookup_eq_none_iff.2 (promMapGet_new key), ite_self]
  rfl

/-- Setting the value. -/
theorem perform (h : m.Single type name help labelKeys labelValues x) (ar : Arithmetic)
    {f : SampleFn} (hf : f.type = type) (hdefined : f.Defined) {works : ℕ → Bool}
    (hworks : ∀ k, works k = true) :
    ∃ ok m', f.perform ar works labelValues m = some (ok, m') ∧
      m'.Single type name help labelKeys labelValues (some (f.apply ar (x.getD (.finite 0)))) := by
  obtain ⟨ok, samples, objects, hperform, hholds⟩ := f.perform_holds ar hworks h.holds
    (fun _ => hdefined) labelValues
  refine ⟨ok, _, hperform, ?_, h.type, h.name, h.help, h.labelKeys⟩
  have hkey : m.lValue labelValues = lValueText name none (labelKeys.zip labelValues) := by
    rw [PromMetric.lValue, h.name, h.labelKeys]
  have hvalue : f.applyAt ar m.type (m.lValue labelValues)
      (fun key => if key = lValueText name none (labelKeys.zip labelValues) then x else none) =
      fun key => if key = lValueText name none (labelKeys.zip labelValues) then
        some (f.apply ar (x.getD (.finite 0))) else none := by
    rw [SampleFn.applyAt, if_pos (h.type.trans hf.symm), hkey, if_pos rfl]
    funext key
    by_cases hkey : key = lValueText name none (labelKeys.zip labelValues)
    · rw [hkey, Function.update_self, if_pos rfl]
    · rw [Function.update_of_ne hkey, if_neg hkey, if_neg hkey]
  rw [hvalue] at hholds
  exact hholds

/-- Writing the metric. -/
theorem shows (h : m.Single type name help labelKeys labelValues x) :
    m.Shows (exposedSingle type name help labelKeys labelValues x) := by
  obtain ⟨l, hl⟩ := Option.isSome_iff_exists.1 h.holds.keys
  have hnodup := h.holds.samples.nodup_keys hl
  have hmem (key : CString) : key ∈ l ↔
      key = lValueText name none (labelKeys.zip labelValues) ∧ x.isSome := by
    have hlookup := h.holds.lookup key
    rw [h.holds.samples.mem_keys_iff hl, Option.isSome_iff_ne_none, Ne,
      ← h.holds.lookup_eq_none_iff, hlookup]
    split <;> cases x <;> simp [*]
  refine ⟨h.type, h.name, h.help, ?_, ?_⟩
  · rw [hl, exposedSingle]
    cases x with
    | none =>
        have hnil : l = [] := List.eq_nil_iff_forall_not_mem.2 fun key hkey => by
          simpa using (hmem key).1 hkey
        rw [hnil]
        rfl
    | some x =>
        have hperm : l.Perm [lValueText name none (labelKeys.zip labelValues)] :=
          (List.perm_ext_iff_of_nodup hnodup (List.nodup_singleton _)).2 fun key => by
            simp [hmem]
        rw [List.perm_singleton.1 hperm]
        rfl
  · intro s hs
    obtain ⟨y, hy, rfl⟩ := List.mem_map.1 hs
    rw [Option.mem_toList] at hy
    rw [h.holds.lookup, if_pos rfl, hy, h.type]
    rfl

end PromMetric.Single

/-- Writing metrics one after another, while memory lasts. -/
theorem loadMetrics_shows {works : ℕ → Bool} (hworks : ∀ k, works k = true) {pre : CString}
    (hpre : pre ≠ []) {ms : List (PromMetric Pms)} {es : List Exposed}
    (h : List.Forall₂ PromMetric.Shows ms es) (k : ℕ) (text : CString) :
    ∃ k', loadMetrics works (some pre) ms k text =
      some (k', text ++ es.flatMap (Exposed.text pre)) := by
  induction h generalizing k text with
  | nil => exact ⟨k, by simp [loadMetrics]⟩
  | @cons m e ms es hm _ ih =>
      obtain ⟨steps, hsteps, hrun⟩ := pmfRun_pmfLoadMetric hworks hpre hm
      obtain ⟨k₁, hk₁⟩ := hrun k text
      obtain ⟨k₂, hk₂⟩ := ih k₁ (text ++ e.text pre)
      refine ⟨k₂, ?_⟩
      rw [loadMetrics, hsteps, Option.bind_some, hk₁]
      dsimp only
      rw [hk₂, List.flatMap_cons, List.append_assoc]

/-! ### The process collector -/

/-- The metrics of the table under their names. -/
def ppcSets : List (CString × ℕ) := ppcTable.zipIdx.map fun p => (p.1.2.1.toList, p.2)

/-- A process collector whose `i`-th metric has the value `value i`. -/
structure ProcessShape (c : PromCollector) (value : ℕ → Option Double) : Prop where
  metrics : c.metrics = setAll ppcSets
  process : ∃ m, c.process = some m ∧ List.Forall₂ (fun (p : (MetricType × String × String) × ℕ)
    (m : PromMetric Pms) =>
      m.Single p.1.1 p.1.2.1.toList p.1.2.2.toList [] [] (value p.2)) ppcTable.zipIdx m

/-- What is exposed of the process collector. -/
def exposedProcess (value : ℕ → Option Double) : List Exposed :=
  ppcTable.zipIdx.map fun p =>
    exposedSingle p.1.1 p.1.2.1.toList p.1.2.2.toList [] [] (value p.2)

theorem nodup_ppcSets : (ppcSets.map Prod.fst).Nodup := by
  have hnames : (ppcTable.map (·.2.1)).Nodup := by decide +kernel
  rw [← List.zipIdx_map_fst 0 ppcTable, List.map_map] at hnames
  have htoList := hnames.map fun _ _ => String.toList_injective
  rw [List.map_map] at htoList
  rw [ppcSets, List.map_map]
  exact htoList

/-- Adding metrics with different names fills the map of a collector. -/
theorem foldl_addMetric {sets : List (CString × ℕ)} (h : (sets.map Prod.fst).Nodup)
    {c : PromCollector} (hc : c.metrics = promMapNew) :
    sets.foldl (fun c s => (promCollectorAddMetric s.1 s.2 c).getD c) c =
      { c with metrics := setAll sets } := by
  induction sets using List.reverseRecOn with
  | nil =>
      rw [List.foldl_nil, setAll, List.foldl_nil, ← hc]
  | append_singleton sets s ih =>
      rw [List.map_append, List.nodup_append] at h
      have hnew : promMapGet (setAll sets) s.1 = none :=
        setAll_get_eq_none_iff.2 fun hs => h.2.2 s.1 hs s.1 (by simp) rfl
      rw [List.foldl_append, ih h.1, setAll_append_singleton]
      simp [promCollectorAddMetric, hnew]

/-- What an iteration over a collector finds, in the order in which the metrics were added. -/
theorem PromCollector.found_eq {c : PromCollector} {sets : List (CString × ℕ)}
    (hc : c.metrics = setAll sets) (hnodup : (sets.map Prod.fst).Nodup) (hlength : sets.length ≤ 17)
    (program : List (PromMetric Pms)) :
    c.found program = some (sets.filterMap fun s => (c.process.getD program)[s.2]?) := by
  rw [PromCollector.found, hc, (setAll_keys_of_nodup hnodup hlength).1, Option.map_some,
    List.filterMap_map]
  refine congrArg some (List.filterMap_congr fun s hs => ?_)
  rw [Function.comp_apply, setAll_get_of_nodup hnodup hs, Option.bind_some]

/-- The entries of a list by their positions. -/
theorem filterMap_zipIdx_getElem? {α β : Type} {l : List α} {m : List β}
    (h : l.length = m.length) : l.zipIdx.filterMap (fun p => m[p.2]?) = m := by
  have hmap : l.zipIdx.map (fun p => m[p.2]?) = m.map some := by
    refine List.ext_getElem? fun i => ?_
    rw [List.getElem?_map, List.getElem?_map, List.getElem?_zipIdx, Nat.zero_add]
    cases hl : l[i]? with
    | none =>
        rw [List.getElem?_eq_none_iff, h, ← List.getElem?_eq_none_iff] at hl
        rw [hl]
        rfl
    | some a =>
        have hi : i < m.length := h ▸ (List.getElem?_eq_some_iff.1 hl).1
        rw [Option.map_some, Option.map_some, List.getElem?_eq_getElem hi]
        rfl
  have := congrArg (List.filterMap id) hmap
  simpa [List.filterMap_map] using this

/-- A new metric of the table. -/
def ppcMetric (t : MetricType × String × String) : PromMetric Pms :=
  ⟨t.1, t.2.1.toList, some t.2.2.toList, [], promMapNew, [], []⟩

theorem promMetricNew_ppcMetric (t : MetricType × String × String) :
    promMetricNew t.1 t.2.1.toList (some t.2.2.toList) [] = some (ppcMetric t) := rfl

/-- **A new process collector.** -/
theorem processShape_ppcNew : ∃ c, ppcNew true = some c ∧ ProcessShape c fun _ => none := by
  have hm (l : List (MetricType × String × String)) :
      l.filterMap (fun t => promMetricNew t.1 t.2.1.toList (some t.2.2.toList) []) =
        l.map ppcMetric := by
    simp only [promMetricNew_ppcMetric]
    exact congrFun List.filterMap_eq_map l
  have hsets (l : List (MetricType × String × String)) (c : PromCollector) :
      (l.map ppcMetric).zipIdx.foldl
          (fun c p => (promCollectorAddMetric p.1.name p.2 c).getD c) c =
        (l.zipIdx.map fun p => (p.1.2.1.toList, p.2)).foldl
          (fun c s => (promCollectorAddMetric s.1 s.2 c).getD c) c := by
    rw [List.zipIdx_map, List.foldl_map, List.foldl_map]
    rfl
  refine ⟨_, if_pos rfl, ?_, ppcTable.map ppcMetric, ?_, ?_⟩
  · dsimp only
    rw [hm, hsets, ← ppcSets, foldl_addMetric nodup_ppcSets rfl]
  · dsimp only
    rw [hm, hsets, ← ppcSets, foldl_addMetric nodup_ppcSets rfl]
  · rw [← List.zipIdx_map_fst 0 ppcTable, List.map_map, List.zipIdx_map_fst,
      List.forall₂_map_right_iff, List.forall₂_same]
    intro p _
    exact PromMetric.Single.new (promMetricNew_ppcMetric p.1) []

/-- Setting a metric of the process collector. -/
theorem ppcSet_single {works : ℕ → Bool} (hworks : ∀ k, works k = true) {reading : Double}
    {m : PromMetric Pms} {type : MetricType} {name help : CString} {x : Option Double}
    (h : m.Single type name help [] [] x)
    (htype : type = .gauge ∨ type = .counter ∧ reading.negative = false) :
    ∃ m', ppcSet works reading m = some m' ∧ m'.Single type name help [] [] (some reading) := by
  unfold ppcSet
  rw [h.type]
  rcases htype with rfl | ⟨rfl, hreading⟩
  · obtain ⟨ok, m', hm', hsingle⟩ := h.perform exactArithmetic
      (show (SampleFn.gaugeSet reading).type = .gauge from rfl) trivial hworks
    refine ⟨m', ?_, hsingle⟩
    rw [if_pos rfl]
    exact congrArg (Option.map Prod.snd) hm'
  · obtain ⟨ok, m', hm', hsingle⟩ := h.perform exactArithmetic
      (show (SampleFn.counterReset reading).type = .counter from rfl) hreading hworks
    refine ⟨m', ?_, hsingle⟩
    rw [if_neg (by decide)]
    exact congrArg (Option.map Prod.snd) hm'

/-- **Asking the process collector for its metrics** sets all of them. -/
theorem ProcessShape.collect {c : PromCollector} {value : ℕ → Option Double}
    (h : ProcessShape c value) {inputs : ScrapeInputs}
    (hworks : ∀ i k, inputs.processWorks i k = true)
    (hreadings : ∀ p ∈ ppcTable.zipIdx, p.1.1 = .counter →
      (inputs.readings p.2).negative = false) :
    ∃ c', ppcCollect inputs c = some c' ∧ ProcessShape c' fun i => some (inputs.readings i) := by
  obtain ⟨m, hm, hsingle⟩ := h.process
  have htypes : ∀ p ∈ ppcTable.zipIdx, p.1.1 = .gauge ∨ p.1.1 = .counter := by decide +kernel
  have hall {l : List (MetricType × String × String)} {n : ℕ} {m : List (PromMetric Pms)}
      (hl : ∀ p ∈ l.zipIdx n, p ∈ ppcTable.zipIdx)
      (hsingle : List.Forall₂ (fun (p : (MetricType × String × String) × ℕ)
        (m : PromMetric Pms) =>
          m.Single p.1.1 p.1.2.1.toList p.1.2.2.toList [] [] (value p.2)) (l.zipIdx n) m) :
      ∃ m', (m.zipIdx n).mapM (fun p =>
          ppcSet (inputs.processWorks p.2) (inputs.readings p.2) p.1) = some m' ∧
        List.Forall₂ (fun (p : (MetricType × String × String) × ℕ) (m : PromMetric Pms) =>
          m.Single p.1.1 p.1.2.1.toList p.1.2.2.toList [] [] (some (inputs.readings p.2)))
          (l.zipIdx n) m' := by
    induction l generalizing n m with
    | nil =>
        rw [List.zipIdx_nil, List.forall₂_nil_left_iff] at hsingle
        exact ⟨[], by rw [hsingle]; rfl, List.Forall₂.nil⟩
    | cons t l ih =>
        rw [List.zipIdx_cons, List.forall₂_cons_left_iff] at hsingle
        obtain ⟨m₀, ms, hm₀, hms, rfl⟩ := hsingle
        have ht : (t, n) ∈ ppcTable.zipIdx := hl _ (by simp [List.zipIdx_cons])
        have hset : t.1 = .gauge ∨ t.1 = .counter ∧ (inputs.readings n).negative = false :=
          (htypes _ ht).imp_right fun hc => ⟨hc, hreadings _ ht hc⟩
        obtain ⟨m₀', hm₀', hsingle'⟩ := ppcSet_single (hworks n) hm₀ hset
        obtain ⟨ms', hms', hrest⟩ := ih (fun p hp => hl p (by simp [List.zipIdx_cons, hp])) hms
        refine ⟨m₀' :: ms', ?_, List.zipIdx_cons ▸ List.Forall₂.cons hsingle' hrest⟩
        rw [List.zipIdx_cons, List.mapM_cons]
        simp only [hm₀', hms', Option.pure_def, Option.bind_eq_bind, Option.bind_some]
  obtain ⟨m', hm', hsingle'⟩ := hall (fun _ hp => hp) hsingle
  refine ⟨{ c with process := some m' }, ?_, h.metrics, m', rfl, hsingle'⟩
  rw [ppcCollect, hm]
  dsimp only
  rw [hm', Option.map_some]

/-- What an iteration over the process collector finds. -/
theorem ProcessShape.found {c : PromCollector} {value : ℕ → Option Double}
    (h : ProcessShape c value) (program : List (PromMetric Pms)) :
    ∃ ms, c.found program = some ms ∧
      List.Forall₂ PromMetric.Shows ms (exposedProcess value) := by
  obtain ⟨m, hm, hsingle⟩ := h.process
  refine ⟨m, ?_, ?_⟩
  · rw [PromCollector.found_eq h.metrics nodup_ppcSets (by decide), hm, Option.getD_some, ppcSets,
      List.filterMap_map]
    refine congrArg some (filterMap_zipIdx_getElem? ?_)
    rw [← hsingle.length_eq, List.length_zipIdx]
  · rw [exposedProcess, List.forall₂_map_right_iff]
    exact (List.Forall₂.imp (fun _ _ hs => hs.shows) hsingle).flip

/-! ### Registries -/

/-- `METRIC_LABEL_SCRAPE "_"`, the prefix that `pcr_default_init` asks for. -/
def defaultPrefix : CString := "libprom_".toList

/-- A name and a help text that are literals. -/
theorem valid_literals {name help : List Char}
    (h : pcrCheckName false (defaultPrefix ++ name) = true ∧ '\n' ∉ help) :
    pcrCheckName false (defaultPrefix ++ (String.ofList name).toList) = true ∧
      '\n' ∉ (String.ofList help).toList := by
  rwa [String.toList_ofList, String.toList_ofList]

theorem valid_ppcTable : ∀ t ∈ ppcTable,
    pcrCheckName false (defaultPrefix ++ t.2.1.toList) = true ∧ '\n' ∉ t.2.2.toList := by
  unfold ppcTable
  repeat refine List.forall_mem_cons.2 ⟨valid_literals (by decide +kernel), ?_⟩
  exact List.forall_mem_nil _

/-- The metrics of the process collector can be exposed. -/
theorem valid_exposedProcess (value : ℕ → Option Double) :
    ∀ e ∈ exposedProcess value, e.Valid defaultPrefix := by
  intro e he
  obtain ⟨p, hp, rfl⟩ := List.mem_map.1 he
  obtain ⟨hname, hhelp⟩ := valid_ppcTable p.1 (List.fst_mem_of_mem_zipIdx hp)
  exact valid_exposedSingle hname hhelp (by simp [labelsText]) _ _

/-- The names of the two collectors. -/
def defaultCollectors : List (CString × ℕ) := [("default".toList, 0), ("process".toList, 1)]

/-- What is exposed of the duration of a scrape. -/
def exposedDuration (x : Option Double) : Exposed :=
  exposedSingle .gauge "scrape_duration_seconds".toList "Duration of a collector scrape".toList
    ["collector".toList] ["libprom".toList] x

theorem valid_exposedDuration (x : Option Double) : (exposedDuration x).Valid defaultPrefix := by
  obtain ⟨hname, hhelp⟩ :
      pcrCheckName false (defaultPrefix ++ "scrape_duration_seconds".toList) = true ∧
        '\n' ∉ "Duration of a collector scrape".toList := valid_literals (by decide +kernel)
  exact valid_exposedSingle hname hhelp (by decide +kernel) _ _

/-- The registry that `pcr_default_init` makes, with these metrics in its default collector. -/
structure Pcr.Shape (r : Pcr) (sets : List (CString × ℕ)) : Prop where
  live : r.live = true
  mprefix : r.mprefix = some defaultPrefix
  collectors : r.collectors = setAll defaultCollectors
  objects : ∃ c p value, r.objects = [c, p] ∧ c.metrics = setAll sets ∧ c.process = none ∧
    ProcessShape p value
  scrapeDuration : ∃ g x, r.scrapeDuration = some g ∧
    g.Single .gauge "scrape_duration_seconds".toList "Duration of a collector scrape".toList
      ["collector".toList] ["libprom".toList] x

/-- Memory lasts during a scrape, and no counter of the process collector is negative. -/
structure ScrapeInputs.Fine (inputs : ScrapeInputs) : Prop where
  processWorks : ∀ i k, inputs.processWorks i k = true
  durationWorks : ∀ k, inputs.durationWorks k = true
  textWorks : ∀ k, inputs.textWorks k = true
  readings : ∀ p ∈ ppcTable.zipIdx, p.1.1 = .counter → (inputs.readings p.2).negative = false

/-- **What a scrape writes**: the metrics of the program in the order of their registration, those
of the process collector, and the duration. -/
theorem Pcr.Shape.bridge {r : Pcr} {sets : List (CString × ℕ)} (h : r.Shape sets)
    (hnodup : (sets.map Prod.fst).Nodup) (hlength : sets.length ≤ 17)
    {program : List (PromMetric Pms)} {es : List Exposed}
    (hes : List.Forall₂ PromMetric.Shows (sets.filterMap fun s => program[s.2]?) es)
    {inputs : ScrapeInputs} (hinputs : inputs.Fine) :
    ∃ r', pcrBridgeText inputs program r = some
        ((es ++ exposedProcess (fun i => some (inputs.readings i)) ++
          [exposedDuration (some inputs.duration)]).flatMap (Exposed.text defaultPrefix), r') ∧
      r'.Shape sets := by
  obtain ⟨c, p, value, hobjects, hc, hnone, hp⟩ := h.objects
  obtain ⟨g, x, hg, hsingle⟩ := h.scrapeDuration
  have hpre : defaultPrefix ≠ [] := by decide
  have hnames : promMapKeys r.collectors = some ["default".toList, "process".toList] := by
    rw [h.collectors, (setAll_keys_of_nodup (by decide) (by decide)).1]
    rfl
  have hdefault : promMapGet r.collectors "default".toList = some 0 := by
    rw [h.collectors]
    exact setAll_get_of_nodup (s := ("default".toList, 0)) (by decide) (by simp [defaultCollectors])
  have hprocess : promMapGet r.collectors "process".toList = some 1 := by
    rw [h.collectors]
    exact setAll_get_of_nodup (s := ("process".toList, 1)) (by decide) (by simp [defaultCollectors])
  have hfound : c.found program = some (sets.filterMap fun s => program[s.2]?) := by
    rw [PromCollector.found_eq hc hnodup hlength, hnone]
    rfl
  have hcollect : ppcCollect inputs c = some c := by rw [ppcCollect, hnone]
  obtain ⟨p', hp', hshape⟩ := hp.collect hinputs.processWorks hinputs.readings
  obtain ⟨ms, hms, hshows⟩ := hshape.found program
  obtain ⟨k₁, hk₁⟩ := loadMetrics_shows hinputs.textWorks hpre hes 0 []
  obtain ⟨k₂, hk₂⟩ := loadMetrics_shows hinputs.textWorks hpre hshows k₁
    ([] ++ es.flatMap (Exposed.text defaultPrefix))
  obtain ⟨ok, g', hg', hsingle'⟩ := hsingle.perform exactArithmetic
    (show (SampleFn.gaugeSet inputs.duration).type = .gauge from rfl) trivial hinputs.durationWorks
  obtain ⟨k₃, hk₃⟩ := loadMetrics_shows hinputs.textWorks hpre
    (List.Forall₂.cons hsingle'.shows List.Forall₂.nil) k₂
    ([] ++ es.flatMap (Exposed.text defaultPrefix) ++
      (exposedProcess fun i => some (inputs.readings i)).flatMap (Exposed.text defaultPrefix))
  have hload : pmfLoadMetrics inputs program r ["default".toList, "process".toList] r.objects 0 [] =
      some ([c, p'], k₂, [] ++ es.flatMap (Exposed.text defaultPrefix) ++
        (exposedProcess fun i => some (inputs.readings i)).flatMap
          (Exposed.text defaultPrefix)) := by
    simp only [pmfLoadMetrics, hobjects, hdefault, hprocess, h.mprefix, Option.bind_some,
      List.getElem?_cons_zero, List.getElem?_cons_succ, Option.map_some, hcollect, hfound, hk₁,
      List.set_cons_zero, List.set_cons_succ, hp', hms, hk₂]
  refine ⟨{ r with objects := [c, p'], scrapeDuration := some g' }, ?_, h.live, h.mprefix,
    h.collectors, ⟨c, p', _, rfl, hc, hnone, hshape⟩, g', _, rfl, hsingle'⟩
  rw [pcrBridgeText, hnames, Option.bind_some, hload, Option.bind_some]
  dsimp only
  rw [hg]
  dsimp only
  rw [show promGaugeSetLabels inputs.duration inputs.durationWorks ["libprom".toList] g =
    some (ok, g') from hg', Option.bind_some]
  dsimp only
  rw [h.mprefix, hk₃, Option.map_some, List.flatMap_append, List.flatMap_append, List.nil_append]
  rfl

end Monitor
