/-
**The monitor on top of libprom.**

The rest of the development sees libprom through `Monitor.Prom`: a gauge is a name, a help text and
a value.  Here the calls of `init_metrics` and of the update functions are performed on the objects
of libprom itself, on maps, samples and string builders, and the two are compared.

* `Monitor.LibGlobals`, `Monitor.initMetricsLib`, `Monitor.Call.updateLib` — `init_metrics` and the
  update functions on the objects of libprom;
* `Monitor.Sim` — the simulation: the same pointers, the same names, the same values;
* `Monitor.initMetricsLib_sim`, `Monitor.Sim.call` — **the libprom of the model simulates the
  objects**;
* `Monitor.scrape_reports` — **what a reader finds in the answer to a request**, after any calls and
  any requests;
* `Monitor.scrape_value` — looking up one gauge in it.
-/

import MetricsMonitor.ScrapeText
import MetricsMonitor.Sampling
import MetricsMonitor.Startup
import Mathlib.Tactic.FinCases

set_option relaxedAutoImplicit false
set_option autoImplicit false

namespace Monitor

/-! ### The calls of the monitor -/

/-- The global state of `expose_metrics.c` that libprom is concerned with. -/
structure LibGlobals where
  lib : Libprom
  /-- `cpu_usage_metric`, `memory_metrics`, `disk_metrics`, `network_metrics`,
  `processes_count`. -/
  slots : Gauge → Option ℕ

/-- The state of `init_metrics`, as in `Boot`. -/
structure LibBoot where
  globals : LibGlobals
  err : Bool
  self : Option ℕ

/-- The state `init_metrics` starts in. -/
def LibBoot.start : LibBoot := ⟨⟨.boot, fun _ => none⟩, false, none⟩

/-- Replacing the libprom part of the state. -/
def LibBoot.setLib (b : LibBoot) (l : Libprom) : LibBoot :=
  { b with globals := { b.globals with lib := l } }

/-- A function of `pcr_init` on the new registry; the result is whether it fails. -/
def LibBoot.onSelf (f : Pcr → Bool × Pcr) (b : LibBoot) : Bool × LibBoot :=
  match b.self with
  | none => (false, b)
  | some i =>
      match b.globals.lib.registries[i]? with
      | none => (false, b)
      | some r =>
          ((f r).1, b.setLib { b.globals.lib with
            registries := b.globals.lib.registries.set i (f r).2 })

/-- Performing an action of `init_metrics`, as in `InitAction.exec`. -/
def InitAction.execLib (ok : Bool) (a : InitAction) (b : LibBoot) : Option InitResult × LibBoot :=
  let l := b.globals.lib
  match a with
  | .mutexInit => (if ok then none else some .failure, b)
  | .pcrCheck => (if l.registry = none then none else some .failure, b)
  | .pcrNew =>
      if ok then
        (none, { b.setLib { l with registries := l.registries ++ [Monitor.pcrNew],
                                   registry := some l.registries.length } with
                 self := some l.registries.length })
      else (some .failure, b.setLib { l with registry := none })
  | .pcrEnableProcess =>
      let (err, b) := b.onSelf (pcrEnableProcessMetrics ok)
      (none, { b with err := err })
  | .pcrEnableScrape =>
      if b.err then (none, b)
      else
        let (err, b) := b.onSelf (pcrEnableScrapeMetrics ok)
        (none, { b with err := err })
  | .pcrForget => (none, if b.err then b.setLib { l with registry := none } else b)
  | .pcrFree =>
      (none, if b.err then (b.onSelf fun r => (false, { r with live := false })).2 else b)
  | .pcrReset =>
      (none,
        if b.err then b.setLib { l with registry := none }
        else (b.onSelf fun r => (false, { r with mprefix := some defaultPrefix })).2)
  | .pcrReturn => (if b.err then some .failure else none, b)
  | .gaugeNew q =>
      let (gauge, l) := l.gaugeNew ok q.name.toList q.help.toList
      (none, { b with globals :=
        { b.globals with lib := l, slots := Function.update b.globals.slots q gauge } })
  | .gaugeCheck g =>
      (if g.gauges.any fun q => b.globals.slots q = none then some .failure else none, b)
  | .register q =>
      match l.mustRegisterMetric ok (b.globals.slots q) with
      | none => (some .exited, b)
      | some l => (none, b.setLib l)

/-- Performing a list of actions, as in `runInit`. -/
def runInitLib (works : InitAction → Bool) : List InitAction → LibBoot → InitResult × LibBoot
  | [], b => (.success, b)
  | a :: todo, b =>
      match a.execLib (works a) b with
      | (none, b) => runInitLib works todo b
      | (some r, b) => (r, b)

/-- **`init_metrics`** on the objects of libprom. -/
def initMetricsLib (works : InitAction → Bool) (config : Config) : InitResult × LibGlobals :=
  let (r, b) := runInitLib works (initActions config) .start
  (r, b.globals)

/-- An update function on the objects of libprom: nothing happens when its reader failed.  `works`
says when `realloc` works while a gauge is set. -/
def Call.updateLib (works : Gauge → ℕ → Bool) (c : Call) (t : LibGlobals) : Option LibGlobals :=
  match c.result with
  | none => some t
  | some usage =>
      (List.finRange c.group.size).foldlM
        (fun t i => (t.lib.gaugeSet (works ⟨c.group, i⟩) (t.slots ⟨c.group, i⟩)
          (.finite (usage i))).map fun l => { t with lib := l }) t

/-! ### The simulation -/

/-- A gauge of the model and the metric object that stands for it. -/
def GaugeRel (m : Metric) (m' : PromMetric Pms) : Prop :=
  m'.Single .gauge m.name.toList m.help.toList [] [] (m.sample.map Double.finite)

/-- A registered address, and the entry in the map of the default collector. -/
def EntryRel (metrics : List Metric) (a : ℕ) (s : CString × ℕ) : Prop :=
  s.2 = a ∧ ∃ m, metrics[a]? = some m ∧ s.1 = m.name.toList

/-- The model of libprom and its objects, after `pcr_default_init`. -/
structure Sim (s : Globals) (t : LibGlobals) : Prop where
  slots : t.slots = s.slots
  slot_lt : ∀ {q a}, s.slots q = some a → a < s.prom.metrics.length
  metrics : List.Forall₂ GaugeRel s.prom.metrics t.lib.metrics
  registry : s.prom.registry = some 0 ∧ t.lib.registry = some 0
  active : t.lib.active = s.prom.active
  registries : ∃ registered r sets, s.prom.registries = [⟨true, registered⟩] ∧
    t.lib.registries = [r] ∧ r.Shape sets ∧
    List.Forall₂ (EntryRel s.prom.metrics) registered sets

theorem EntryRel.append {metrics : List Metric} {a : ℕ} {e : CString × ℕ}
    (h : EntryRel metrics a e) (m : Metric) : EntryRel (metrics ++ [m]) a e := by
  obtain ⟨haddr, m', hm', hname⟩ := h
  refine ⟨haddr, m', ?_, hname⟩
  rw [List.getElem?_append_left (List.getElem?_eq_some_iff.1 hm').1, hm']

theorem EntryRel.set {metrics : List Metric} {a i : ℕ} {e : CString × ℕ}
    (h : EntryRel metrics a e) {f : Metric → Metric} (hf : ∀ m, (f m).name = m.name) :
    EntryRel (metrics.modify i f) a e := by
  obtain ⟨haddr, m', hm', hname⟩ := h
  by_cases hi : i = a
  · exact ⟨haddr, f m', by simp [hi, hm'], hname.trans (congrArg String.toList (hf m').symm)⟩
  · exact ⟨haddr, m', by simp [hi, hm'], hname⟩

/-- The names of the registered metrics are those in the map. -/
theorem map_name_of_entries {metrics : List Metric} {registered : List ℕ}
    {sets : List (CString × ℕ)} (h : List.Forall₂ (EntryRel metrics) registered sets) :
    (registered.filterMap (metrics[·]?)).map (·.name.toList) = sets.map Prod.fst := by
  induction h with
  | nil => rfl
  | @cons a e registered sets he _ ih =>
      obtain ⟨-, m, hm, hname⟩ := he
      rw [List.filterMap_cons, hm, List.map_cons, List.map_cons, ih, hname]

theorem getElem?_of_forall₂ {α β : Type} {R : α → β → Prop} {l : List α} {l' : List β}
    (h : List.Forall₂ R l l') {i : ℕ} {x : α} (hx : l[i]? = some x) :
    ∃ y, l'[i]? = some y ∧ R x y := by
  induction h generalizing i with
  | nil => simp at hx
  | cons hR _ ih =>
      cases i with
      | zero =>
          obtain rfl := Option.some_inj.1 hx
          exact ⟨_, rfl, hR⟩
      | succ i => exact ih (by simpa using hx)

theorem forall₂_modify_set {α β : Type} {R : α → β → Prop} {l : List α} {l' : List β}
    (h : List.Forall₂ R l l') {i : ℕ} {f : α → α} {y : β}
    (hy : ∀ x, l[i]? = some x → R (f x) y) : List.Forall₂ R (l.modify i f) (l'.set i y) := by
  induction h generalizing i with
  | nil => simp
  | cons hR hrest ih =>
      cases i with
      | zero => exact List.Forall₂.cons (hy _ rfl) hrest
      | succ i => exact List.Forall₂.cons hR (ih fun x hx => hy x (by simpa using hx))

/-- The pointers stay those of metrics when a gauge is created. -/
theorem lt_of_gaugeNew {p : Prom} {slots : Gauge → Option ℕ}
    (h : ∀ {q a}, slots q = some a → a < p.metrics.length) (ok : Bool) (q : Gauge) {q' : Gauge}
    {a : ℕ} (ha : Function.update slots q (promGaugeNew ok q.name q.help p).1 q' = some a) :
    a < (promGaugeNew ok q.name q.help p).2.metrics.length := by
  have hlength : p.metrics.length ≤ (promGaugeNew ok q.name q.help p).2.metrics.length := by
    cases ok <;> simp [promGaugeNew]
  by_cases hq : q' = q
  · subst hq
    rw [Function.update_self] at ha
    cases ok with
    | false => simp [promGaugeNew] at ha
    | true =>
        obtain rfl : p.metrics.length = a := by simpa [promGaugeNew] using ha
        simp [promGaugeNew]
  · rw [Function.update_of_ne hq] at ha
    exact (h ha).trans_le hlength

namespace Sim

variable {s : Globals} {t : LibGlobals}

/-- **Creating a gauge.** -/
theorem gaugeNew (h : Sim s t) (ok : Bool) (q : Gauge) :
    Sim
      { s with
        prom := (promGaugeNew ok q.name q.help s.prom).2
        slots := Function.update s.slots q (promGaugeNew ok q.name q.help s.prom).1 }
      { t with
        lib := (t.lib.gaugeNew ok q.name.toList q.help.toList).2
        slots := Function.update t.slots q (t.lib.gaugeNew ok q.name.toList q.help.toList).1 } := by
  obtain ⟨registered, r, sets, hregistries, hregistries', hshape, hentries⟩ := h.registries
  cases ok with
  | false =>
      exact ⟨by rw [h.slots]; rfl, lt_of_gaugeNew h.slot_lt false q, h.metrics, h.registry, h.active,
        h.registries⟩
  | true =>
      have hnew : promMetricNew .gauge q.name.toList (some q.help.toList) [] =
          some (⟨.gauge, q.name.toList, some q.help.toList, [], promMapNew, [], []⟩ :
            PromMetric Pms) := rfl
      refine ⟨?_, lt_of_gaugeNew h.slot_lt true q, ?_, h.registry, h.active, registered, r, sets,
        hregistries, hregistries', hshape, ?_⟩
      · simp [Libprom.gaugeNew, hnew, promGaugeNew, h.slots, h.metrics.length_eq]
      · exact List.rel_append h.metrics
          (List.Forall₂.cons (PromMetric.Single.new hnew []) List.Forall₂.nil)
      · exact hentries.imp fun _ _ he => he.append _

/-- **Registering a gauge**: the calls end the process for the same gauges. -/
theorem register (h : Sim s t) (ok : Bool) (gauge : Option ℕ) :
    (pcrMustRegisterMetric ok gauge s.prom = none ∧ t.lib.mustRegisterMetric ok gauge = none) ∨
      ∃ p l, pcrMustRegisterMetric ok gauge s.prom = some p ∧
        t.lib.mustRegisterMetric ok gauge = some l ∧
        Sim { s with prom := p } { t with lib := l } := by
  obtain ⟨registered, r, sets, hregistries, hregistries', hshape, hentries⟩ := h.registries
  obtain ⟨c, p, value, hobjects, hc, hnone, hp⟩ := hshape.objects
  cases gauge with
  | none => exact Or.inl ⟨rfl, rfl⟩
  | some a =>
      have hdefault : promMapGet r.collectors "default".toList = some 0 := by
        rw [hshape.collectors]
        exact setAll_get_of_nodup (s := ("default".toList, 0)) (by decide)
          (by simp [defaultCollectors])
      cases ha : s.prom.metrics[a]? with
      | none =>
          have ha' : t.lib.metrics[a]? = none := by
            rw [List.getElem?_eq_none_iff, ← h.metrics.length_eq, ← List.getElem?_eq_none_iff, ha]
          left
          simp [pcrMustRegisterMetric, Libprom.mustRegisterMetric, h.registry, ha, ha']
      | some m =>
          obtain ⟨m', ha', hm'⟩ := getElem?_of_forall₂ h.metrics ha
          have hnames : (s.prom.metricsOf ⟨true, registered⟩).all (·.name ≠ m.name) = true ↔
              promMapGet c.metrics m'.name = none := by
            rw [hc, setAll_get_eq_none_iff, ← map_name_of_entries hentries, hm'.name,
              List.all_eq_true]
            simp only [decide_eq_true_eq, List.mem_map, not_exists, not_and, ne_eq,
              String.toList_inj]
            rfl
          have habstract : pcrMustRegisterMetric ok (some a) s.prom =
              if ok && (s.prom.metricsOf ⟨true, registered⟩).all (·.name ≠ m.name) then
                some { s.prom with registries := [⟨true, registered ++ [a]⟩] }
              else none := by
            simp only [pcrMustRegisterMetric, h.registry.1, ha, hregistries,
              List.getElem?_cons_zero, List.set_cons_zero]
          have hconcrete : t.lib.mustRegisterMetric ok (some a) =
              if ok = true ∧ promMapGet c.metrics m'.name = none then
                some { t.lib with registries := [{ r with
                  objects := [{ c with metrics := promMapSet m'.name a c.metrics }, p] }] }
              else none := by
            simp only [Libprom.mustRegisterMetric, h.registry.2, ha', hregistries',
              List.getElem?_cons_zero, Libprom.pcrRegisterMetric, hdefault, Option.bind_some,
              hobjects]
            cases ok with
            | false => simp
            | true =>
                rw [if_pos rfl]
                by_cases hget : promMapGet c.metrics m'.name = none
                · simp [promCollectorAddMetric, hget]
                · simp [promCollectorAddMetric, hget]
          rw [habstract, hconcrete]
          by_cases hok : ok = true ∧ promMapGet c.metrics m'.name = none
          · right
            rw [if_pos hok, if_pos (Bool.and_eq_true_iff.2 ⟨hok.1, hnames.2 hok.2⟩)]
            refine ⟨_, _, rfl, rfl, h.slots, h.slot_lt, h.metrics, h.registry, h.active,
              registered ++ [a], _, sets ++ [(m'.name, a)], rfl, rfl,
              ⟨hshape.live, hshape.mprefix, hshape.collectors,
              ⟨_, p, value, rfl, ?_, hnone, hp⟩, hshape.scrapeDuration⟩, ?_⟩
            · rw [setAll_append_singleton, ← hc]
            · exact List.rel_append hentries
                (List.Forall₂.cons ⟨rfl, m, ha, hm'.name⟩ List.Forall₂.nil)
          · left
            rw [if_neg hok, if_neg fun hand => hok
              ⟨(Bool.and_eq_true_iff.1 hand).1, hnames.1 (Bool.and_eq_true_iff.1 hand).2⟩]
            exact ⟨rfl, rfl⟩

/-- **Setting a gauge.** -/
theorem setGauge (h : Sim s t) {works : ℕ → Bool} (hworks : ∀ k, works k = true) (q : Gauge)
    (x : ℚ) :
    ∃ l, t.lib.gaugeSet works (t.slots q) (.finite x) = some l ∧
      Sim (Monitor.setGauge q x s) { t with lib := l } := by
  cases hq : s.slots q with
  | none =>
      refine ⟨t.lib, by rw [h.slots, hq]; rfl, ?_⟩
      rw [Monitor.setGauge, hq]
      exact h
  | some a =>
      obtain ⟨m', hm', hrel⟩ := getElem?_of_forall₂ h.metrics
        (List.getElem?_eq_getElem (h.slot_lt hq))
      obtain ⟨ok, m'', hm'', hsingle⟩ := hrel.perform exactArithmetic
        (show (SampleFn.gaugeSet (.finite x)).type = .gauge from rfl) trivial hworks
      have hset : t.lib.gaugeSet works (t.slots q) (.finite x) =
          some { t.lib with metrics := t.lib.metrics.set a m'' } := by
        rw [h.slots, hq, Libprom.gaugeSet, hm', Option.bind_some]
        exact congrArg (Option.map fun r : Bool × PromMetric Pms =>
          { t.lib with metrics := t.lib.metrics.set a r.2 }) hm''
      obtain ⟨registered, r, sets, hregistries, hregistries', hshape, hentries⟩ := h.registries
      refine ⟨_, hset, ?_⟩
      rw [Monitor.setGauge, hq]
      refine ⟨h.slots, fun {q' a'} ha' => ?_, ?_, h.registry, h.active, registered, r, sets,
        hregistries, hregistries', hshape, ?_⟩
      · dsimp only [promGaugeSet]
        rw [List.length_modify]
        exact h.slot_lt ha'
      · refine forall₂_modify_set h.metrics fun m hm => ?_
        rw [List.getElem?_eq_getElem (h.slot_lt hq)] at hm
        obtain rfl := Option.some_inj.1 hm
        exact hsingle
      · exact hentries.imp fun _ _ he => he.set fun _ => rfl

/-- **An update function.** -/
theorem call (h : Sim s t) {works : Gauge → ℕ → Bool} (hworks : ∀ q k, works q k = true)
    (c : Call) : ∃ t', c.updateLib works t = some t' ∧ Sim (c.update s) t' := by
  have hall (l : List (Fin c.group.size)) (usage : Fin c.group.size → ℚ) {s : Globals}
      {t : LibGlobals} (h : Sim s t) :
      ∃ t', l.foldlM (fun t i => (t.lib.gaugeSet (works ⟨c.group, i⟩) (t.slots ⟨c.group, i⟩)
          (.finite (usage i))).map fun l => { t with lib := l }) t = some t' ∧
        Sim (l.foldl (fun s i => Monitor.setGauge ⟨c.group, i⟩ (usage i) s) s) t' := by
    induction l generalizing s t with
    | nil => exact ⟨t, rfl, h⟩
    | cons i l ih =>
        obtain ⟨lib, hlib, hsim⟩ := h.setGauge (hworks ⟨c.group, i⟩) ⟨c.group, i⟩ (usage i)
        obtain ⟨t', ht', hsim'⟩ := ih hsim
        refine ⟨t', ?_, hsim'⟩
        rw [List.foldlM_cons, hlib]
        exact ht'
  rw [Call.update_eq, Call.updateLib]
  unfold updateGauges
  cases hresult : c.result with
  | none => exact ⟨t, rfl, h⟩
  | some usage =>
      -- the status bytes are written first, which libprom does not see
      exact hall _ usage ⟨h.slots, h.slot_lt, h.metrics, h.registry, h.active, h.registries⟩

end Sim

/-! ### `init_metrics` -/

/-- **An action on gauges**: both sides go on or end in the same way. -/
theorem execLib_sim {a : InitAction} (ha : a.OnGauges) (ok : Bool) {b : Boot} {b' : LibBoot}
    (h : Sim b.globals b'.globals) :
    (a.execLib ok b').1 = (a.exec ok b).1 ∧
      Sim (a.exec ok b).2.globals (a.execLib ok b').2.globals := by
  cases a with
  | gaugeNew q => exact ⟨rfl, h.gaugeNew ok q⟩
  | gaugeCheck g =>
      refine ⟨?_, h⟩
      rw [InitAction.execLib, InitAction.exec, h.slots]
  | register q =>
      rcases h.register ok (b.globals.slots q) with ⟨hp, hl⟩ | ⟨p, l, hp, hl, hsim⟩
      · simp only [InitAction.execLib, InitAction.exec, h.slots, hp, hl]
        exact ⟨trivial, h⟩
      · simp only [InitAction.execLib, InitAction.exec, h.slots, hp, hl]
        exact ⟨trivial, hsim⟩
  | mutexInit | pcrCheck | pcrNew | pcrEnableProcess | pcrEnableScrape | pcrForget | pcrFree
  | pcrReset | pcrReturn => exact ha.elim

theorem runInitLib_sim {works : InitAction → Bool} {todo : List InitAction}
    (htodo : ∀ a ∈ todo, a.OnGauges) {b : Boot} {b' : LibBoot} (h : Sim b.globals b'.globals) :
    (runInitLib works todo b').1 = (runInit works todo b).1 ∧
      Sim (runInit works todo b).2.globals (runInitLib works todo b').2.globals := by
  induction todo generalizing b b' with
  | nil => exact ⟨rfl, h⟩
  | cons a todo ih =>
      obtain ⟨hresult, hsim⟩ := execLib_sim (htodo a (List.mem_cons_self ..)) (works a) h
      rw [runInitLib, runInit]
      rcases hexec : a.exec (works a) b with ⟨r, b₁⟩
      rcases hexec' : a.execLib (works a) b' with ⟨r', b₁'⟩
      rw [hexec, hexec'] at hresult hsim
      obtain rfl : r' = r := hresult
      cases r' with
      | none => exact ih (fun a ha => htodo a (List.mem_cons_of_mem _ ha)) hsim
      | some r => exact ⟨rfl, hsim⟩

/-- `pcr_enable_process_metrics` on a new registry. -/
theorem pcrEnableProcessMetrics_pcrNew :
    pcrEnableProcessMetrics false Monitor.pcrNew = (true, Monitor.pcrNew) ∧
      ∃ p, (ProcessShape p fun _ => none) ∧ pcrEnableProcessMetrics true Monitor.pcrNew =
        (false, { Monitor.pcrNew with
          collectors := setAll defaultCollectors
          objects := [promCollectorNew "default".toList, p] }) := by
  have hget : promMapGet Monitor.pcrNew.collectors "process".toList = none := by
    have hnone : promMapGet (setAll [("default".toList, 0)]) "process".toList = none :=
      setAll_get_eq_none_iff.2 (by decide)
    exact hnone
  obtain ⟨p, hp, hshape⟩ := processShape_ppcNew
  refine ⟨?_, p, hshape, ?_⟩
  · rw [pcrEnableProcessMetrics, hget, if_neg (by simp)]
    rfl
  · rw [pcrEnableProcessMetrics, hget, if_neg (by simp), hp]
    rfl

/-- The registry after a successful `pcr_default_init`. -/
def defaultRegistry (p : PromCollector) : Pcr :=
  { Monitor.pcrNew with
    mprefix := some defaultPrefix
    scrapeDuration := promMetricNew .gauge "scrape_duration_seconds".toList
      (some "Duration of a collector scrape".toList) ["collector".toList]
    collectors := setAll defaultCollectors
    objects := [promCollectorNew "default".toList, p] }

theorem shape_defaultRegistry {p : PromCollector} {value : ℕ → Option Double}
    (hp : ProcessShape p value) : (defaultRegistry p).Shape [] := by
  have hnew : promMetricNew .gauge "scrape_duration_seconds".toList
      (some "Duration of a collector scrape".toList) ["collector".toList] =
      some (⟨.gauge, "scrape_duration_seconds".toList,
        some "Duration of a collector scrape".toList, ["collector".toList], promMapNew, [], []⟩ :
        PromMetric Pms) := by
    rw [promMetricNew, if_neg (by decide +kernel)]
  exact ⟨rfl, rfl, rfl, ⟨_, p, value, rfl, rfl, rfl, hp⟩, _, none, hnew,
    PromMetric.Single.new hnew _⟩

/-- **`pcr_default_init`**: both sides fail, or both go on with a registry in order. -/
theorem runInitLib_pcr (works : InitAction → Bool) (rest : List InitAction) :
    (runInit works (.mutexInit :: pcrActions ++ rest) .start).1 = .failure ∧
        (runInitLib works (.mutexInit :: pcrActions ++ rest) .start).1 = .failure ∨
      ∃ b b', Sim b.globals b'.globals ∧
        runInit works (.mutexInit :: pcrActions ++ rest) .start = runInit works rest b ∧
        runInitLib works (.mutexInit :: pcrActions ++ rest) .start = runInitLib works rest b' := by
  obtain ⟨hfalse, p, hp, htrue⟩ := pcrEnableProcessMetrics_pcrNew
  cases hmutex : works .mutexInit with
  | false =>
      left
      simp [runInit, runInitLib, InitAction.exec, InitAction.execLib, hmutex]
  | true =>
      cases hnew : works .pcrNew with
      | false =>
          left
          simp [pcrActions, runInit, runInitLib, InitAction.exec, InitAction.execLib, hmutex, hnew,
            Boot.start, Globals.boot, Prom.boot, LibBoot.start, Libprom.boot]
      | true =>
          cases hprocess : works .pcrEnableProcess with
          | false =>
              left
              simp [pcrActions, runInit, runInitLib, InitAction.exec, InitAction.execLib, hmutex,
                hnew, hprocess, Boot.start, Globals.boot, Prom.boot, LibBoot.start, Libprom.boot,
                LibBoot.onSelf, LibBoot.setLib, Boot.setProm, hfalse]
          | true =>
              cases hscrape : works .pcrEnableScrape with
              | false =>
                  left
                  simp [pcrActions, runInit, runInitLib, InitAction.exec, InitAction.execLib,
                    hmutex, hnew, hprocess, hscrape, Boot.start, Globals.boot, Prom.boot,
                    LibBoot.start, Libprom.boot, LibBoot.onSelf, LibBoot.setLib, Boot.setProm,
                    htrue, pcrEnableScrapeMetrics]
              | true =>
                  right
                  refine ⟨⟨⟨⟨[], [⟨true, []⟩], some 0, none⟩, fun _ => none, fun _ => some 0⟩, false,
                    some 0⟩, ⟨⟨⟨[], [defaultRegistry p], some 0, none⟩, fun _ => none⟩, false,
                    some 0⟩, ?_, ?_, ?_⟩
                  · exact ⟨rfl, by simp, List.Forall₂.nil, ⟨rfl, rfl⟩, rfl, [], _, [], rfl, rfl,
                      shape_defaultRegistry hp, List.Forall₂.nil⟩
                  · simp [pcrActions, runInit, InitAction.exec, hmutex, hnew, hprocess, hscrape,
                      Boot.start, Globals.boot, Prom.boot, Boot.setProm]
                  · simp [pcrActions, runInitLib, InitAction.execLib, hmutex, hnew, hprocess,
                      hscrape, LibBoot.start, Libprom.boot, LibBoot.onSelf, LibBoot.setLib, htrue,
                      pcrEnableScrapeMetrics, defaultRegistry]

/-- **`init_metrics` ends in the same way on the objects of libprom**, and with the same gauges. -/
theorem initMetricsLib_sim (works : InitAction → Bool) (config : Config) :
    (initMetricsLib works config).1 = (initMetrics works config).1 ∧
      ((initMetrics works config).1 = .success →
        Sim (initMetrics works config).2 (initMetricsLib works config).2) := by
  have hactions : initActions config = .mutexInit :: pcrActions ++ gaugeActions config := by
    rw [initActions, gaugeActions, List.append_assoc]
  have hresult : (initMetrics works config) = ((runInit works (initActions config) .start).1,
      (runInit works (initActions config) .start).2.globals) := rfl
  have hresult' : (initMetricsLib works config) = ((runInitLib works (initActions config) .start).1,
      (runInitLib works (initActions config) .start).2.globals) := rfl
  rw [hresult, hresult', hactions]
  rcases runInitLib_pcr works (gaugeActions config) with ⟨h, h'⟩ | ⟨b, b', hsim, h, h'⟩
  · rw [h, h']
    exact ⟨rfl, fun hsuccess => by simp at hsuccess⟩
  · rw [h, h']
    obtain ⟨hr, hs⟩ := runInitLib_sim (fun a ha => onGauges_of_mem_gaugeActions ha) hsim
    exact ⟨hr, fun _ => hs⟩

/-! ### Requests -/

/-- What is exposed of a gauge. -/
def exposedGauge (value : Gauge → Option ℚ) (q : Gauge) : Exposed :=
  exposedSingle .gauge q.name.toList q.help.toList [] [] ((value q).map Double.finite)

theorem forall₂_filterMap {α β γ : Type} {l : List α} {f : α → Option β} {g : α → γ}
    {R : β → γ → Prop} (h : ∀ a ∈ l, ∃ b, f a = some b ∧ R b (g a)) :
    List.Forall₂ R (l.filterMap f) (l.map g) := by
  induction l with
  | nil => exact List.Forall₂.nil
  | cons a l ih =>
      obtain ⟨b, hb, hR⟩ := h a (List.mem_cons_self ..)
      rw [List.filterMap_cons, hb]
      exact List.Forall₂.cons hR (ih fun a ha => h a (List.mem_cons_of_mem _ ha))

/-- There are few gauges: the maps that hold them do not grow. -/
theorem length_gauges_le (config : Config) : config.gauges.length ≤ 17 := by
  have hsub : config.gauges.Subperm allGauges :=
    List.subperm_of_subset config.nodup_gauges fun q _ => mem_allGauges q
  exact hsub.length_le.trans (by decide)

theorem update_active (c : Call) (s : Globals) : (c.update s).prom.active = s.prom.active := by
  have hall (l : List (Fin c.group.size)) (usage : Fin c.group.size → ℚ) (s : Globals) :
      (l.foldl (fun s i => Monitor.setGauge ⟨c.group, i⟩ (usage i) s) s).prom.active =
        s.prom.active := by
    induction l generalizing s with
    | nil => rfl
    | cons i l ih =>
        rw [List.foldl_cons, ih]
        unfold Monitor.setGauge promGaugeSet
        cases s.slots ⟨c.group, i⟩ <;> rfl
  rw [Call.update_eq]
  unfold updateGauges
  cases c.result with
  | none => rfl
  | some usage => exact hall _ usage _

/-- What `init_metrics` and the update functions leave, and the registry the handler answers from. -/
structure Serving (config : Config) (value : Gauge → Option ℚ) (s : Globals) (t : LibGlobals) :
    Prop where
  sim : Sim s t
  shape : Shape config.gauges value (config.gauges.map config.gauges.idxOf) s
  active : s.prom.active = some 0

namespace Serving

variable {config : Config} {value : Gauge → Option ℚ} {s : Globals} {t : LibGlobals}

/-- The entries of the default collector are the gauges in the order of their creation. -/
theorem entries (h : Serving config value s t) :
    ∃ registered r, s.prom.registries = [⟨true, registered⟩] ∧ t.lib.registries = [r] ∧
      r.Shape (config.gauges.map fun q => (q.name.toList, config.gauges.idxOf q)) ∧
      List.Forall₂ (EntryRel s.prom.metrics) registered
        (config.gauges.map fun q => (q.name.toList, config.gauges.idxOf q)) := by
  obtain ⟨registered, r, sets, hregistries, hregistries', hshape, hentries⟩ := h.sim.registries
  obtain rfl : config.gauges.map config.gauges.idxOf = registered := by
    have hboth := h.shape.registries.symm.trans hregistries
    simpa using hboth
  have hsets (l : List Gauge) (hl : ∀ q ∈ l, q ∈ config.gauges) (sets : List (CString × ℕ))
      (hentries : List.Forall₂ (EntryRel (config.gauges.map (Gauge.metric value)))
        (l.map config.gauges.idxOf) sets) :
      sets = l.map fun q => (q.name.toList, config.gauges.idxOf q) := by
    induction l generalizing sets with
    | nil => exact (List.forall₂_nil_left_iff.1 hentries)
    | cons q l ih =>
        rw [List.map_cons, List.forall₂_cons_left_iff] at hentries
        obtain ⟨e, sets, he, hrest, rfl⟩ := hentries
        obtain ⟨haddr, m, hm, hname⟩ := he
        have hq := hl q (List.mem_cons_self ..)
        have hget : (config.gauges.map (Gauge.metric value))[config.gauges.idxOf q]? =
            some (Gauge.metric value q) := by
          rw [List.getElem?_map, (getElem?_eq_some_iff_idxOf config.nodup_gauges hq).2 rfl]
          rfl
        obtain rfl := Option.some_inj.1 (hget.symm.trans hm)
        rw [List.map_cons, ih (fun q hq => hl q (List.mem_cons_of_mem _ hq)) sets hrest]
        exact congrArg (· :: _) (Prod.ext hname haddr)
  have hmetrics := h.shape.metrics
  obtain rfl := hsets config.gauges (fun _ hq => hq) sets (hmetrics ▸ hentries)
  exact ⟨_, r, hregistries, hregistries', hshape, hentries⟩

/-- **A scrape**: the text, and nothing changes for the monitor. -/
theorem scrape (h : Serving config value s t) {inputs : ScrapeInputs} (hinputs : inputs.Fine) :
    ∃ l, promhttpHandler inputs "GET".toList "/metrics".toList t.lib = some (⟨200,
        (config.gauges.map (exposedGauge value) ++
          exposedProcess (fun i => some (inputs.readings i)) ++
          [exposedDuration (some inputs.duration)]).flatMap (Exposed.text defaultPrefix)⟩, l) ∧
      Serving config value s { t with lib := l } := by
  obtain ⟨registered, r, habstract, hregistries, hshape, hentries⟩ := h.entries
  have hnodup : ((config.gauges.map fun q => (q.name.toList, config.gauges.idxOf q)).map
      Prod.fst).Nodup := by
    rw [List.map_map]
    exact config.nodup_gauges.map fun q q' heq => Gauge.name_injective (String.toList_injective heq)
  have hshows : List.Forall₂ PromMetric.Shows
      ((config.gauges.map fun q => (q.name.toList, config.gauges.idxOf q)).filterMap
        fun s => t.lib.metrics[s.2]?) (config.gauges.map (exposedGauge value)) := by
    rw [List.filterMap_map]
    refine forall₂_filterMap fun q hq => ?_
    have hget : s.prom.metrics[config.gauges.idxOf q]? = some (Gauge.metric value q) := by
      rw [h.shape.metrics, List.getElem?_map,
        (getElem?_eq_some_iff_idxOf config.nodup_gauges hq).2 rfl]
      rfl
    obtain ⟨m', hm', hrel⟩ := getElem?_of_forall₂ h.sim.metrics hget
    exact ⟨m', hm', hrel.shows⟩
  obtain ⟨r', hbridge, hshape'⟩ := hshape.bridge hnodup
    (by rw [List.length_map]; exact length_gauges_le config) hshows hinputs
  have hactive : t.lib.active = some 0 := h.sim.active.trans h.active
  refine ⟨{ t.lib with registries := [r'] }, ?_, ⟨h.sim.slots, h.sim.slot_lt, h.sim.metrics,
    h.sim.registry, h.sim.active, registered, r', _, habstract, rfl, hshape', hentries⟩, h.shape,
    h.active⟩
  have hfilter : (some r).filter (·.live) = some r := Option.filter_some_pos hshape.live
  rw [promhttpHandler, if_neg (not_not.2 rfl), if_neg (by decide +kernel), if_pos rfl, hactive,
    Libprom.bridge]
  dsimp only
  rw [hregistries, List.getElem?_cons_zero, hfilter, Option.bind_some, hbridge, Option.map_some,
    Option.map_some]
  rfl

/-- Any request is answered, and nothing changes for the monitor. -/
theorem request (h : Serving config value s t) {inputs : ScrapeInputs} (hinputs : inputs.Fine)
    (method url : CString) :
    ∃ response l, promhttpHandler inputs method url t.lib = some (response, l) ∧
      Serving config value s { t with lib := l } := by
  by_cases hscrape : method = "GET".toList ∧ url = "/metrics".toList
  · obtain ⟨rfl, rfl⟩ := hscrape
    obtain ⟨l, hl, hserving⟩ := h.scrape hinputs
    exact ⟨_, l, hl, hserving⟩
  · unfold promhttpHandler
    split
    · exact ⟨_, _, rfl, h⟩
    · rename_i hmethod
      split
      · exact ⟨_, _, rfl, h⟩
      · rw [if_neg fun hurl => hscrape ⟨not_not.1 hmethod, hurl⟩]
        exact ⟨_, _, rfl, h⟩

/-- An update function of a required group. -/
theorem call {calls : List Call} (h : Serving config (latestValue calls) (updates calls s) t)
    (hinit : Shape config.gauges (fun _ => none) (config.gauges.map config.gauges.idxOf) s)
    {works : Gauge → ℕ → Bool} (hworks : ∀ q k, works q k = true) {c : Call}
    (hcalls : ∀ c' ∈ calls ++ [c], config.enabled c'.group = true) :
    ∃ t', c.updateLib works t = some t' ∧
      Serving config (latestValue (calls ++ [c])) (updates (calls ++ [c]) s) t' := by
  obtain ⟨t', ht', hsim⟩ := h.sim.call hworks c
  refine ⟨t', ht', ?_, shape_updates hinit hcalls, ?_⟩
  · rw [updates_append_singleton]
    exact hsim
  · rw [updates_append_singleton, update_active, h.active]

end Serving

/-- What happens once the server runs: a call of an update function, or a request. -/
inductive LibEvent
  | call (works : Gauge → ℕ → Bool) (c : Call)
  | request (inputs : ScrapeInputs) (method url : CString)

namespace LibEvent

/-- What an event does; `none` is undefined behaviour. -/
def exec (t : LibGlobals) : LibEvent → Option LibGlobals
  | call works c => c.updateLib works t
  | request inputs method url =>
      (promhttpHandler inputs method url t.lib).map fun r => { t with lib := r.2 }

/-- The call an event is. -/
def call? : LibEvent → Option Call
  | call _ c => some c
  | request _ _ _ => none

/-- Memory lasts during an event, and the event is about a required group. -/
def Fine (config : Config) : LibEvent → Prop
  | call works c => (∀ q k, works q k = true) ∧ config.enabled c.group = true
  | request inputs _ _ => inputs.Fine

end LibEvent

/-- **After any calls and any requests** the objects of libprom are those of the model. -/
theorem serving_events {works : InitAction → Bool} {config : Config} {t : LibGlobals}
    (hinit : initMetricsLib works config = (.success, t)) {events : List LibEvent}
    (hevents : ∀ e ∈ events, e.Fine config) :
    ∃ s t', events.foldlM LibEvent.exec
        { t with lib := t.lib.setActiveCollectorRegistry none } = some t' ∧
      Serving config (latestValue (events.filterMap LibEvent.call?))
        (updates (events.filterMap LibEvent.call?) s) t' := by
  obtain ⟨hresult, hsim⟩ := initMetricsLib_sim works config
  rw [hinit] at hresult hsim
  obtain ⟨s, hs⟩ : ∃ s, initMetrics works config = (.success, s) := ⟨_, Prod.ext hresult.symm rfl⟩
  have hsim' : Sim s t := by
    rw [hs] at hsim
    exact hsim rfl
  have hshape := initMetrics_shape hs
  have hactive : Shape config.gauges (fun _ => none) (config.gauges.map config.gauges.idxOf)
      { s with prom := promhttpSetActiveCollectorRegistry none s.prom } :=
    ⟨hshape.metrics, hshape.slots, hshape.registry, hshape.registries⟩
  refine ⟨{ s with prom := promhttpSetActiveCollectorRegistry none s.prom }, ?_⟩
  induction events using List.reverseRecOn with
  | nil =>
      refine ⟨_, rfl, ⟨hsim'.slots, hsim'.slot_lt, hsim'.metrics, hsim'.registry, ?_,
        hsim'.registries⟩, hactive, ?_⟩
      · exact hsim'.registry.2.trans hsim'.registry.1.symm
      · exact hsim'.registry.1
  | append_singleton events e ih =>
      obtain ⟨t₁, ht₁, hserving⟩ := ih fun e he => hevents e (List.mem_append_left _ he)
      have he := hevents e (by simp)
      rw [List.foldlM_append, ht₁, List.filterMap_append]
      cases e with
      | call works c =>
          have hcalls : ∀ c' ∈ events.filterMap LibEvent.call? ++ [c],
              config.enabled c'.group = true := by
            intro c' hc'
            rcases List.mem_append.1 hc' with hc' | hc'
            · obtain ⟨e', he', hcall⟩ := List.mem_filterMap.1 hc'
              cases e' with
              | call works' c'' =>
                  obtain rfl := Option.some_inj.1 hcall
                  exact (hevents _ (List.mem_append_left _ he')).2
              | request => simp [LibEvent.call?] at hcall
            · rw [List.mem_singleton.1 hc']
              exact he.2
          obtain ⟨t₂, ht₂, hserving'⟩ := hserving.call hactive he.1 hcalls
          exact ⟨t₂, by simp [LibEvent.exec, ht₂], hserving'⟩
      | request inputs method url =>
          obtain ⟨response, l, hl, hserving'⟩ := hserving.request he method url
          refine ⟨{ t₁ with lib := l }, by simp [LibEvent.exec, hl], ?_⟩
          rw [show [LibEvent.request inputs method url].filterMap LibEvent.call? = [] from rfl,
            List.append_nil]
          exact hserving'

/-- The family of a gauge that has been handed these values. -/
def gaugeFamily (calls : List Call) (q : Gauge) : Family :=
  ⟨defaultPrefix ++ q.name.toList, some q.help.toList, some .gauge,
    (latestValue calls q).toList.map fun x =>
      (defaultPrefix ++ q.name.toList, (Double.finite x).toSeventeen)⟩

/-- The family of a metric of the process collector. -/
def processFamily (readings : ℕ → Double) (p : (MetricType × String × String) × ℕ) : Family :=
  ⟨defaultPrefix ++ p.1.2.1.toList, some p.1.2.2.toList, some p.1.1,
    [(defaultPrefix ++ p.1.2.1.toList, (readings p.2).toSeventeen)]⟩

/-- The family of the duration of a scrape. -/
def durationFamily (duration : Double) : Family :=
  ⟨defaultPrefix ++ "scrape_duration_seconds".toList, some "Duration of a collector scrape".toList,
    some .gauge,
    [(defaultPrefix ++ lValueText "scrape_duration_seconds".toList none
      [("collector".toList, "libprom".toList)], duration.toSeventeen)]⟩

theorem valid_gaugeTable (g : Group) (i : Fin g.size) :
    pcrCheckName false (defaultPrefix ++ (gaugeTable g i).1.toList) = true ∧
      '\n' ∉ (gaugeTable g i).2.toList := by
  cases g with
  | cpu | memory | disk | network | processes =>
      fin_cases i <;> exact valid_literals (by decide +kernel)

/-- The gauges can be exposed. -/
theorem valid_exposedGauge (value : Gauge → Option ℚ) (q : Gauge) :
    (exposedGauge value q).Valid defaultPrefix := by
  obtain ⟨hname, hhelp⟩ := valid_gaugeTable q.1 q.2
  exact valid_exposedSingle hname hhelp (by simp [labelsText]) _ _

/-- The families of an answer. -/
def reportedFamilies (config : Config) (calls : List Call) (inputs : ScrapeInputs) : List Family :=
  config.gauges.map (gaugeFamily calls) ++
    ppcTable.zipIdx.map (processFamily inputs.readings) ++ [durationFamily inputs.duration]

/-- What a reader finds in the answer to a request. -/
theorem Serving.report {config : Config} {calls : List Call} {s : Globals} {t : LibGlobals}
    (h : Serving config (latestValue calls) s t) {inputs : ScrapeInputs} (hinputs : inputs.Fine) :
    ∃ body l, promhttpHandler inputs "GET".toList "/metrics".toList t.lib =
        some (⟨200, body⟩, l) ∧
      parseExposition body = some (reportedFamilies config calls inputs) := by
  obtain ⟨l, hl, -⟩ := h.scrape hinputs
  refine ⟨_, l, hl, ?_⟩
  rw [parseExposition_text]
  · rw [List.map_append, List.map_append, List.map_map, exposedProcess, List.map_map]
    have hname (name : CString) :
        lValueText name none (([] : List CString).zip ([] : List CString)) = name := by
      simp [lValueText, suffixText, labelsText]
    have hgauge (q : Gauge) : (exposedGauge (latestValue calls) q).family defaultPrefix =
        gaugeFamily calls q := by
      rw [exposedGauge, family_exposedSingle, hname, gaugeFamily]
      cases latestValue calls q <;> rfl
    have hprocess (p : (MetricType × String × String) × ℕ) : (exposedSingle p.1.1 p.1.2.1.toList
        p.1.2.2.toList [] [] (some (inputs.readings p.2))).family defaultPrefix =
          processFamily inputs.readings p := by
      rw [family_exposedSingle, hname, processFamily]
      rfl
    have hduration : (exposedDuration (some inputs.duration)).family defaultPrefix =
        durationFamily inputs.duration := by
      rw [exposedDuration, family_exposedSingle, durationFamily]
      rfl
    simp only [List.map_cons, List.map_nil, hduration, Function.comp_def, hgauge, hprocess,
      reportedFamilies]
  · intro e he
    rcases List.mem_append.1 he with he | he
    · rcases List.mem_append.1 he with he | he
      · obtain ⟨q, -, rfl⟩ := List.mem_map.1 he
        exact valid_exposedGauge _ q
      · exact valid_exposedProcess _ e he
    · rw [List.mem_singleton.1 he]
      exact valid_exposedDuration _

/-- **What a reader finds in the answer to a request.**  After a successful `init_metrics` and any
calls of update functions and requests, `GET /metrics` is answered with status 200 and a text in
which a reader finds one family for each gauge of a required group, with its name, its help text
and the value of the latest successful result of its reader to seventeen digits, and no sample if
there was none; then the metrics of the process collector as they have just been read, and the
duration. -/
theorem scrape_reports {works : InitAction → Bool} {config : Config} {t : LibGlobals}
    (hinit : initMetricsLib works config = (.success, t)) (events : List LibEvent)
    (hevents : ∀ e ∈ events, e.Fine config) {inputs : ScrapeInputs} (hinputs : inputs.Fine) :
    ∃ t' body l, events.foldlM LibEvent.exec
        { t with lib := t.lib.setActiveCollectorRegistry none } = some t' ∧
      promhttpHandler inputs "GET".toList "/metrics".toList t'.lib = some (⟨200, body⟩, l) ∧
      parseExposition body =
        some (reportedFamilies config (events.filterMap LibEvent.call?) inputs) := by
  obtain ⟨s, t', ht', hserving⟩ := serving_events hinit hevents
  obtain ⟨body, l, hl, hparse⟩ := hserving.report hinputs
  exact ⟨t', body, l, ht', hl, hparse⟩

/-- Memory lasts, and every reading is one. -/
def quietInputs : ScrapeInputs :=
  ⟨fun _ => .finite 1, .finite 0, fun _ _ => true, fun _ => true, fun _ => true⟩

theorem fine_quietInputs : quietInputs.Fine :=
  ⟨fun _ _ => rfl, fun _ => rfl, fun _ => rfl, fun _ _ _ => rfl⟩

/-- The CPU is read, a page is asked for, and a reading fails. -/
def oneReading : List LibEvent :=
  [.call (fun _ _ => true) (.cpu 12), .request quietInputs "GET".toList "/".toList,
    .call (fun _ _ => true) (.cpu (-1))]

theorem fine_oneReading : ∀ e ∈ oneReading, e.Fine cpuConfig := by
  intro e he
  simp only [oneReading, List.mem_cons, List.not_mem_nil, or_false] at he
  rcases he with rfl | rfl | rfl
  · exact ⟨fun _ _ => rfl, by decide⟩
  · exact fine_quietInputs
  · exact ⟨fun _ _ => rfl, by decide⟩

theorem initMetricsLib_cpuConfig : (initMetricsLib (fun _ => true) cpuConfig).1 = .success :=
  (initMetricsLib_sim (fun _ => true) cpuConfig).1.trans (by decide +kernel)

theorem scrape_reports_oneReading :
    ∃ t' body l, oneReading.foldlM LibEvent.exec
        { (initMetricsLib (fun _ => true) cpuConfig).2 with
          lib := (initMetricsLib (fun _ => true) cpuConfig).2.lib.setActiveCollectorRegistry none } =
          some t' ∧
      promhttpHandler quietInputs "GET".toList "/metrics".toList t'.lib = some (⟨200, body⟩, l) ∧
      parseExposition body = some (reportedFamilies cpuConfig [.cpu 12, .cpu (-1)] quietInputs) :=
  scrape_reports (Prod.ext initMetricsLib_cpuConfig rfl) oneReading fine_oneReading
    fine_quietInputs

/-! ### Looking up a gauge -/

/-- The value that a reader finds in place of a number. -/
structure Printed (x v : ℚ) : Prop where
  error : |x - v| ≤ |v| * 10 ^ (1 - (17 : ℕ) : ℤ) / 2
  natural : ∀ n : ℕ, n < 10 ^ 17 → x = n → v = n
  unique : FormattedOutput.IsDouble x → ∀ y, FormattedOutput.IsDouble y →
    FormattedOutput.rounded 17 y = v → y = x

theorem printed_rounded (x : ℚ) : Printed x (FormattedOutput.rounded 17 x) where
  error := FormattedOutput.abs_sub_rounded_le (by decide) x
  natural n hn hx := by rw [hx, FormattedOutput.rounded_natCast (by decide) hn]
  unique hx y hy h := FormattedOutput.rounded_injective hy hx h

/-- No other family of an answer has the name of a gauge. -/
theorem name_ne_of_not_gauge {inputs : ScrapeInputs} {f : Family}
    (hf : f ∈ ppcTable.zipIdx.map (processFamily inputs.readings) ++
      [durationFamily inputs.duration]) (q : Gauge) :
    f.name ≠ defaultPrefix ++ q.name.toList := by
  have htable : ∀ q ∈ allGauges, q.name ∉ "scrape_duration_seconds" :: ppcTable.map (·.2.1) := by
    decide +kernel
  have hq := htable q (mem_allGauges q)
  intro hname
  rcases List.mem_append.1 hf with hf | hf
  · obtain ⟨p, hp, rfl⟩ := List.mem_map.1 hf
    have heq := String.toList_injective (List.append_cancel_left hname)
    refine hq (List.mem_cons_of_mem _ (List.mem_map.2 ⟨p.1, List.fst_mem_of_mem_zipIdx hp, heq⟩))
  · rw [List.mem_singleton.1 hf] at hname
    have heq := String.toList_injective (List.append_cancel_left hname)
    exact hq (heq ▸ List.mem_cons_self ..)

/-- **Looking up a gauge in an answer.**  A gauge of a group that is not required is not found.
Any other gauge is found once, without a sample as long as its reader has not succeeded, and
otherwise with a value that is off by half a unit of its seventeenth digit at most, is the value
itself if this is a natural number of seventeen digits, and tells it from all other doubles. -/
theorem scrape_value {works : InitAction → Bool} {config : Config} {t : LibGlobals}
    (hinit : initMetricsLib works config = (.success, t)) (events : List LibEvent)
    (hevents : ∀ e ∈ events, e.Fine config) {inputs : ScrapeInputs} (hinputs : inputs.Fine)
    (q : Gauge) :
    ∃ t' body l families, events.foldlM LibEvent.exec
        { t with lib := t.lib.setActiveCollectorRegistry none } = some t' ∧
      promhttpHandler inputs "GET".toList "/metrics".toList t'.lib = some (⟨200, body⟩, l) ∧
      parseExposition body = some families ∧
      if config.enabled q.1 then
        ∃ f, families.filter (·.name = defaultPrefix ++ q.name.toList) = [f] ∧
          f.type = some .gauge ∧
          match latestValue (events.filterMap LibEvent.call?) q with
          | none => f.samples = []
          | some x => ∃ v, f.samples = [(f.name, .finite v)] ∧ Printed x v
      else families.filter (·.name = defaultPrefix ++ q.name.toList) = [] := by
  obtain ⟨s, t', ht', hserving⟩ := serving_events hinit hevents
  obtain ⟨body, l, hl, hparse⟩ := hserving.report hinputs
  refine ⟨t', body, l, _, ht', hl, hparse, ?_⟩
  set calls := events.filterMap LibEvent.call?
  have hother : (ppcTable.zipIdx.map (processFamily inputs.readings) ++
      [durationFamily inputs.duration]).filter
        (·.name = defaultPrefix ++ q.name.toList) = [] :=
    List.filter_eq_nil_iff.2 fun f hf => by simpa using name_ne_of_not_gauge hf q
  have hname (q' : Gauge) : (gaugeFamily calls q').name = defaultPrefix ++ q.name.toList ↔ q' = q :=
    ⟨fun heq => Gauge.name_injective (String.toList_injective (List.append_cancel_left heq)),
      fun heq => heq ▸ rfl⟩
  have hgauges : (config.gauges.map (gaugeFamily calls)).filter
      (·.name = defaultPrefix ++ q.name.toList) =
        (config.gauges.filter (· = q)).map (gaugeFamily calls) := by
    rw [List.filter_map]
    refine congrArg _ (List.filter_congr fun q' _ => ?_)
    simp only [Function.comp_apply, hname]
  rw [reportedFamilies, List.append_assoc, List.filter_append, hother, List.append_nil, hgauges]
  split
  · rename_i henabled
    have hq := Config.mem_gauges.2 henabled
    have hone : config.gauges.filter (· = q) = [q] := by
      rw [List.filter_eq, List.count_eq_one_of_mem config.nodup_gauges hq, List.replicate_one]
    refine ⟨gaugeFamily calls q, by rw [hone]; rfl, rfl, ?_⟩
    cases hvalue : latestValue calls q with
    | none => simp [gaugeFamily, hvalue]
    | some x => exact ⟨_, by simp [gaugeFamily, hvalue, Double.toSeventeen], printed_rounded x⟩
  · rename_i henabled
    rw [List.filter_eq_nil_iff.2, List.map_nil]
    intro q' hq' heq
    exact henabled (Config.mem_gauges.1 ((of_decide_eq_true heq) ▸ hq'))

theorem scrape_value_oneReading :
    ∃ t' body l families, oneReading.foldlM LibEvent.exec
        { (initMetricsLib (fun _ => true) cpuConfig).2 with
          lib := (initMetricsLib (fun _ => true) cpuConfig).2.lib.setActiveCollectorRegistry none } =
          some t' ∧
      promhttpHandler quietInputs "GET".toList "/metrics".toList t'.lib = some (⟨200, body⟩, l) ∧
      parseExposition body = some families ∧
      ∃ f, families.filter (·.name = defaultPrefix ++ "cpu_usage_percentage".toList) = [f] ∧
        f.type = some .gauge ∧ ∃ v, f.samples = [(f.name, .finite v)] ∧ Printed 12 v := by
  obtain ⟨t', body, l, families, ht', hl, hparse, hfound⟩ := scrape_value
    (Prod.ext initMetricsLib_cpuConfig rfl) oneReading fine_oneReading fine_quietInputs
    ⟨.cpu, ⟨0, by decide⟩⟩
  rw [if_pos (by decide)] at hfound
  exact ⟨t', body, l, families, ht', hl, hparse, hfound⟩

end Monitor
