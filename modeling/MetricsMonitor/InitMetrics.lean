/-
**What a successful `init_metrics` leaves behind.**

`init_metrics` creates the gauges of every required group before it registers any of them, and can
fail at each step.  This module follows a call that returns `EXIT_SUCCESS` and describes the state
it ends in: one metric object for each gauge of a required group, in the order of the source, each
stored in its own entry of the arrays and registered once.

* `Monitor.Shape` — the arrays of gauges, the metric objects and the registry of a state, given
  the list of gauges created, their values and the addresses registered;
* `Monitor.Shape.create`, `Monitor.Shape.register` — what creating and registering one more gauge
  does to it;
* `Monitor.Shape.setGauge` — what `prom_gauge_set` does to it;
* `Monitor.Shape.exposed` — what a scrape finds under the name of a gauge;
* `Monitor.initMetrics_shape` — **the state after a successful call**.
-/

import MetricsMonitor.ExposeMetrics

set_option relaxedAutoImplicit false
set_option autoImplicit false

namespace Monitor

/-- The metric object of a gauge that holds a value. -/
def Gauge.metric (value : Gauge → Option ℚ) (q : Gauge) : Metric := ⟨q.name, q.help, value q⟩

/-- The gauges of the list `E` have been created in this order and hold `value`; the addresses
`registered` are in the default registry. -/
structure Shape (E : List Gauge) (value : Gauge → Option ℚ) (registered : List ℕ)
    (s : Globals) : Prop where
  metrics : s.prom.metrics = E.map (Gauge.metric value)
  slots : ∀ q, s.slots q = if q ∈ E then some (E.idxOf q) else none
  registry : s.prom.registry = some 0
  registries : s.prom.registries = [⟨true, registered⟩]

/-! ### Positions in a list without repetitions -/

theorem getElem?_eq_some_iff_idxOf {E : List Gauge} (hE : E.Nodup) {q : Gauge} (hq : q ∈ E)
    {j : ℕ} : E[j]? = some q ↔ E.idxOf q = j := by
  constructor
  · intro h
    obtain ⟨hj, hget⟩ := List.getElem?_eq_some_iff.1 h
    rw [← hget]
    exact List.Nodup.idxOf_getElem hE j hj
  · rintro rfl
    rw [List.getElem?_eq_getElem (List.idxOf_lt_length_iff.2 hq), List.getElem_idxOf]

/-- Modifying the entry of one gauge changes the value of that gauge only. -/
theorem modify_map_metric {E : List Gauge} (hE : E.Nodup) {q : Gauge} (hq : q ∈ E)
    (value : Gauge → Option ℚ) (x : ℚ) :
    (E.map (Gauge.metric value)).modify (E.idxOf q) (fun m => { m with sample := some x }) =
      E.map (Gauge.metric (Function.update value q (some x))) := by
  refine List.ext_getElem? fun j => ?_
  rw [List.getElem?_modify, List.getElem?_map, List.getElem?_map]
  cases hj : E[j]? with
  | none => simp
  | some r =>
      by_cases hr : r = q
      · subst hr
        simp [(getElem?_eq_some_iff_idxOf hE hq).1 hj, Gauge.metric]
      · have hne : E.idxOf q ≠ j := by
          intro h
          have := (getElem?_eq_some_iff_idxOf hE hq).2 h
          rw [hj] at this
          exact hr (Option.some_inj.1 this)
        simp [hne, Gauge.metric, Function.update_of_ne hr]

namespace Shape

variable {E : List Gauge} {value : Gauge → Option ℚ} {registered : List ℕ} {s : Globals}

/-- Setting a gauge replaces its value and nothing else. -/
theorem setGauge (h : Shape E value registered s) (hE : E.Nodup) {q : Gauge} (hq : q ∈ E)
    (x : ℚ) : Shape E (Function.update value q (some x)) registered (setGauge q x s) where
  metrics := by
    simp only [Monitor.setGauge, promGaugeSet, h.slots, if_pos hq, h.metrics]
    exact modify_map_metric hE hq value x
  slots := h.slots
  registry := by simp [Monitor.setGauge, h.registry]
  registries := by simp [Monitor.setGauge, h.registries]

/-- Creating a new gauge appends its metric object and fills its entry. -/
theorem create (h : Shape E (fun _ => none) registered s) {q : Gauge} (hq : q ∉ E) :
    Shape (E ++ [q]) (fun _ => none) registered
      { s with
        prom := (promGaugeNew true q.name q.help s.prom).2
        slots := Function.update s.slots q (promGaugeNew true q.name q.help s.prom).1 } where
  metrics := by simp [promGaugeNew, h.metrics, Gauge.metric]
  slots := by
    intro r
    by_cases hr : r = q
    · subst hr
      simp [promGaugeNew, h.metrics, List.idxOf_append, hq]
    · change Function.update s.slots q _ r = _
      rw [Function.update_of_ne hr, h.slots]
      by_cases hrE : r ∈ E
      · simp [hrE, List.idxOf_append]
      · simp [hrE, hr]
  registry := h.registry
  registries := h.registries

/-- A registration that succeeds appends the address of the gauge to the registry. -/
theorem register (h : Shape E value registered s) {q : Gauge} (hq : q ∈ E) {ok : Bool} {p : Prom}
    (hreg : pcrMustRegisterMetric ok (s.slots q) s.prom = some p) :
    Shape E value (registered ++ [E.idxOf q]) { s with prom := p } := by
  obtain ⟨a, i, r, ha, hi, hget, rfl⟩ := pcrMustRegisterMetric_eq_some hreg
  obtain rfl : 0 = i := Option.some_inj.1 (h.registry.symm.trans hi)
  obtain rfl : E.idxOf q = a := by
    rw [h.slots, if_pos hq, Option.some_inj] at ha
    exact ha
  rw [h.registries, List.getElem?_cons_zero, Option.some_inj] at hget
  subst hget
  exact ⟨h.metrics, h.slots, h.registry, by simp [h.registries]⟩

/-- **What a scrape finds under the name of a registered gauge.** -/
theorem exposed (h : Shape E value (E.map E.idxOf) s) {q : Gauge} (hq : q ∈ E) :
    s.prom.exposed q.name = some (Gauge.metric value q) := by
  have hall : s.prom.metricsOf ⟨true, E.map E.idxOf⟩ = E.map (Gauge.metric value) := by
    rw [Prom.metricsOf, List.filterMap_map, ← List.filterMap_eq_map]
    refine List.filterMap_congr fun r hr => ?_
    simp only [Function.comp_apply]
    rw [h.metrics, List.getElem?_map,
      List.getElem?_eq_getElem (List.idxOf_lt_length_iff.2 hr), List.getElem_idxOf]
    rfl
  have hlive : s.prom.live? s.prom.registry = some ⟨true, E.map E.idxOf⟩ := by
    simp [Prom.live?, h.registry, h.registries]
  rw [Prom.exposed, hlive, Option.bind_some, hall, List.find?_map, Option.map_eq_some_iff]
  refine ⟨q, ?_, rfl⟩
  -- the names are different, so the first gauge with this name is `q` itself
  have hpred : ((fun m : Metric => decide (m.name = q.name)) ∘ Gauge.metric value) =
      fun r => decide (r = q) := by
    funext r
    simp [Gauge.metric, Gauge.name_injective.eq_iff]
  rw [hpred]
  cases hfind : E.find? (fun r => decide (r = q)) with
  | none => simpa using List.find?_eq_none.1 hfind q hq
  | some r => simpa using List.find?_some hfind

/-- No metric object has the name of a gauge that was not created. -/
theorem not_created (h : Shape E value registered s) {q : Gauge} (hq : q ∉ E) :
    (∀ m ∈ s.prom.metrics, m.name ≠ q.name) ∧ s.slots q = none := by
  refine ⟨?_, by rw [h.slots, if_neg hq]⟩
  intro m hm hname
  rw [h.metrics, List.mem_map] at hm
  obtain ⟨r, hr, rfl⟩ := hm
  exact hq (Gauge.name_injective hname ▸ hr)

end Shape

/-! ### Following a successful call -/

section Success

variable {works : InitAction → Bool} {rest : List InitAction} {b b' : Boot}

/-- An action that is followed by a success has let the next one follow. -/
theorem runInit_cons {a : InitAction} (h : runInit works (a :: rest) b = (.success, b'))
    (hne : (a.exec (works a) b).1 ≠ some .success) :
    (a.exec (works a) b).1 = none ∧ runInit works rest (a.exec (works a) b).2 = (.success, b') := by
  rw [runInit] at h
  cases hexec : a.exec (works a) b with
  | mk r b₁ =>
      rw [hexec] at h hne
      cases r with
      | none => exact ⟨rfl, h⟩
      | some r =>
          simp only [Prod.mk.injEq] at h
          exact absurd (congrArg some h.1) hne

/-- After a successful `pcr_default_init` the default registry exists and is empty. -/
theorem runInit_pcr (h : runInit works (.mutexInit :: pcrActions ++ rest) .start = (.success, b')) :
    (works .mutexInit = true ∧ works .pcrNew = true ∧ works .pcrEnableProcess = true ∧
      works .pcrEnableScrape = true) ∧
      ∃ b, Shape [] (fun _ => none) [] b.globals ∧ runInit works rest b = (.success, b') := by
  simp only [pcrActions, List.cons_append, List.nil_append, runInit, InitAction.exec] at h
  cases hmutex : works .mutexInit <;> cases hnew : works .pcrNew <;>
    cases hprocess : works .pcrEnableProcess <;> cases hscrape : works .pcrEnableScrape <;>
    simp [hmutex, hnew, hprocess, hscrape, Boot.start, Globals.boot, Prom.boot, Boot.setProm]
      at h
  exact ⟨⟨rfl, rfl, rfl, rfl⟩, _, ⟨rfl, by simp, rfl, rfl⟩, h⟩

/-- The state after the calls of `prom_gauge_new` for a list of gauges. -/
def createAll (works : InitAction → Bool) (l : List Gauge) (b : Boot) : Boot :=
  l.foldl (fun b q => (InitAction.exec (works (.gaugeNew q)) (.gaugeNew q) b).2) b

/-- Creating gauges never stops `init_metrics` by itself. -/
theorem runInit_gaugeNew (l : List Gauge) :
    runInit works (l.map .gaugeNew ++ rest) b = runInit works rest (createAll works l b) := by
  induction l generalizing b with
  | nil => rfl
  | cons q l ih =>
      simp only [List.map_cons, List.cons_append, runInit, InitAction.exec, createAll,
        List.foldl_cons]
      exact ih

/-- A creation that fails leaves a null pointer, which the later creations do not replace. -/
theorem createAll_slots {l : List Gauge} {q : Gauge} (hworks : works (.gaugeNew q) = false)
    (h : q ∈ l ∨ b.globals.slots q = none) : (createAll works l b).globals.slots q = none := by
  induction l generalizing b with
  | nil => simpa [createAll] using h
  | cons r l ih =>
      simp only [createAll, List.foldl_cons]
      refine ih ?_
      by_cases hr : q = r
      · subst hr
        simp [InitAction.exec, promGaugeNew, hworks]
      · rcases h with h | h
        · exact Or.inl (by simpa [hr] using h)
        · exact Or.inr (by simpa [InitAction.exec, Function.update_of_ne hr] using h)

/-- Creating new gauges, all successfully. -/
theorem createAll_shape {E l : List Gauge} {registered : List ℕ}
    (h : Shape E (fun _ => none) registered b.globals) (hnew : (E ++ l).Nodup)
    (hworks : ∀ q ∈ l, works (.gaugeNew q) = true) :
    Shape (E ++ l) (fun _ => none) registered (createAll works l b).globals := by
  induction l generalizing E b with
  | nil => simpa [createAll] using h
  | cons q l ih =>
      have hq : q ∉ E := fun hqE =>
        (List.nodup_append.1 hnew).2.2 q hqE q (List.mem_cons_self ..) rfl
      have hstep : Shape (E ++ [q]) (fun _ => none) registered
          (InitAction.exec (works (.gaugeNew q)) (.gaugeNew q) b).2.globals := by
        rw [hworks q (List.mem_cons_self ..)]
        exact h.create hq
      rw [List.append_cons] at hnew ⊢
      exact ih hstep hnew fun r hr => hworks r (List.mem_cons_of_mem _ hr)

/-- The groups that are created: all their calls of `prom_gauge_new` have succeeded. -/
theorem runInit_create {E : List Gauge} {registered : List ℕ} (gs : List Group)
    (h : Shape E (fun _ => none) registered b.globals)
    (hnew : (E ++ gs.flatMap Group.gauges).Nodup)
    (hrun : runInit works (gs.flatMap createActions ++ rest) b = (.success, b')) :
    (∀ q ∈ gs.flatMap Group.gauges, works (.gaugeNew q) = true) ∧
      ∃ b₁, Shape (E ++ gs.flatMap Group.gauges) (fun _ => none) registered b₁.globals ∧
        runInit works rest b₁ = (.success, b') := by
  induction gs generalizing E b with
  | nil => exact ⟨by simp, b, by simpa using h, by simpa using hrun⟩
  | cons g gs ih =>
      rw [List.flatMap_cons, createActions, List.append_assoc, List.append_assoc,
        runInit_gaugeNew] at hrun
      obtain ⟨hcheck, hrun⟩ := runInit_cons (a := .gaugeCheck g) hrun
        (by simp only [InitAction.exec]; split <;> simp)
      -- the check that follows the creation of a group has passed, so none of it failed
      have hworks : ∀ q ∈ g.gauges, works (.gaugeNew q) = true := by
        intro q hq
        by_contra hfalse
        have hoff : works (.gaugeNew q) = false := by simpa using hfalse
        have hnone : (createAll works g.gauges b).globals.slots q = none :=
          createAll_slots hoff (Or.inl hq)
        have hany : (g.gauges.any fun q =>
            decide ((createAll works g.gauges b).globals.slots q = none)) = true :=
          List.any_eq_true.2 ⟨q, hq, by simpa using hnone⟩
        simp [InitAction.exec, hany] at hcheck
      rw [List.flatMap_cons, ← List.append_assoc] at hnew ⊢
      have hshape := createAll_shape h (List.Nodup.of_append_left hnew) hworks
      obtain ⟨hrest, hend⟩ := ih hshape hnew hrun
      refine ⟨fun q hq => ?_, hend⟩
      rcases List.mem_append.1 hq with hq | hq
      · exact hworks q hq
      · exact hrest q hq

/-- The gauges that are registered: all their registrations have succeeded. -/
theorem runInit_register {E : List Gauge} {registered : List ℕ} (l : List Gauge)
    (h : Shape E (fun _ => none) registered b.globals) (hl : ∀ q ∈ l, q ∈ E)
    (hrun : runInit works (l.map .register) b = (.success, b')) :
    Shape E (fun _ => none) (registered ++ l.map E.idxOf) b'.globals := by
  induction l generalizing registered b with
  | nil =>
      simp only [List.map_nil, runInit, Prod.mk.injEq, true_and] at hrun
      subst hrun
      simpa using h
  | cons q l ih =>
      rw [List.map_cons] at hrun
      obtain ⟨hnext, hrun⟩ := runInit_cons hrun
        (by simp only [InitAction.exec]; split <;> simp)
      cases hreg : pcrMustRegisterMetric (works (.register q)) (b.globals.slots q)
          b.globals.prom with
      | none => simp [InitAction.exec, hreg] at hnext
      | some p =>
          have hstep := h.register (hl q (List.mem_cons_self ..)) hreg
          simp only [InitAction.exec, hreg, Boot.setProm] at hrun
          have hshape := ih hstep (fun r hr => hl r (List.mem_cons_of_mem _ hr)) hrun
          simpa using hshape

end Success

theorem flatMap_registerActions (gs : List Group) :
    gs.flatMap registerActions = (gs.flatMap Group.gauges).map .register := by
  rw [List.map_flatMap]
  rfl

/-- **The state after a successful `init_metrics`.** -/
theorem initMetrics_shape {works : InitAction → Bool} {config : Config} {s : Globals}
    (h : initMetrics works config = (.success, s)) :
    Shape config.gauges (fun _ => none) (config.gauges.map config.gauges.idxOf) s := by
  simp only [initMetrics] at h
  obtain ⟨b', hb', rfl⟩ : ∃ b', runInit works (initActions config) .start = (.success, b') ∧
      b'.globals = s := by
    cases hrun : runInit works (initActions config) .start with
    | mk r b' =>
        rw [hrun] at h
        simp only [Prod.mk.injEq] at h
        exact ⟨b', by rw [h.1], h.2⟩
  rw [initActions, List.append_assoc] at hb'
  obtain ⟨-, b, hb, hrun⟩ := runInit_pcr hb'
  obtain ⟨-, b₁, hb₁, hrun₁⟩ :=
    runInit_create config.groups hb (by rw [List.nil_append]; exact config.nodup_gauges) hrun
  rw [List.nil_append] at hb₁
  rw [flatMap_registerActions] at hrun₁
  exact runInit_register _ hb₁ (fun q hq => hq) hrun₁

end Monitor
