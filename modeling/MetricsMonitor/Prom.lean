/-
**The part of libprom that the monitor uses.**

Metric objects and registries live in two heaps and are named by their position in them, so a
pointer is `none` (a null pointer) or such a position.  Of a registry the model keeps the metrics
of its default collector, in the order of registration, and whether it has been destroyed.

* `Monitor.Prom` — the heaps and the two global pointers `PROM_COLLECTOR_REGISTRY` and
  `PROM_ACTIVE_REGISTRY`;
* `Monitor.promGaugeNew`, `Monitor.promGaugeSet`, `Monitor.pcrMustRegisterMetric` — creating,
  setting and registering a gauge;
* `Monitor.promhttpSetActiveCollectorRegistry`, `Monitor.pcrBridge` — choosing the registry the
  HTTP handler answers from, and rendering it;
* `Monitor.Prom.exposed` — what a scrape finds under a name.
-/

import Mathlib.Data.Rat.Defs
import Mathlib.Data.List.Basic

set_option relaxedAutoImplicit false
set_option autoImplicit false

namespace Monitor

/-- A gauge without labels: its only sample exists once the gauge has been set. -/
structure Metric where
  name : String
  help : String
  sample : Option ℚ
  deriving DecidableEq

/-- A registry: whether it is still allocated, and the metrics of its default collector. -/
structure Registry where
  live : Bool
  metrics : List ℕ
  deriving DecidableEq

/-- The objects of libprom and its global pointers. -/
structure Prom where
  metrics : List Metric
  registries : List Registry
  /-- `PROM_COLLECTOR_REGISTRY`. -/
  registry : Option ℕ
  /-- `PROM_ACTIVE_REGISTRY`. -/
  active : Option ℕ
  deriving DecidableEq

namespace Prom

/-- libprom before any call. -/
def boot : Prom := ⟨[], [], none, none⟩

/-- The registry behind a pointer, if it is still allocated. -/
def live? (p : Prom) (r : Option ℕ) : Option Registry :=
  (r.bind fun i => p.registries[i]?).filter (·.live)

/-- The metric objects of a registry, in the order of registration. -/
def metricsOf (p : Prom) (r : Registry) : List Metric := r.metrics.filterMap (p.metrics[·]?)

/-- What a scrape of the default registry finds under a name. -/
def exposed (p : Prom) (name : String) : Option Metric :=
  (p.live? p.registry).bind fun r => (p.metricsOf r).find? (·.name = name)

end Prom

/-- `prom_gauge_new` without labels; `ok` says whether its allocations succeed. -/
def promGaugeNew (ok : Bool) (name help : String) (p : Prom) : Option ℕ × Prom :=
  if ok then
    (some p.metrics.length, { p with metrics := p.metrics ++ [⟨name, help, none⟩] })
  else (none, p)

/-- `prom_gauge_set` without labels: a null gauge is refused, otherwise the sample is replaced. -/
def promGaugeSet (gauge : Option ℕ) (value : ℚ) (p : Prom) : Prom :=
  match gauge with
  | none => p
  | some a =>
      { p with metrics := p.metrics.modify a fun m => { m with sample := some value } }

/-- `pcr_must_register_metric`: `none` when the call ends the process, because the name is taken,
the map cannot be extended (`ok`) or one of the pointers it follows is null. -/
def pcrMustRegisterMetric (ok : Bool) (metric : Option ℕ) (p : Prom) : Option Prom :=
  match metric, p.registry with
  | some a, some i =>
      match p.metrics[a]?, p.registries[i]? with
      | some m, some r =>
          if ok && (p.metricsOf r).all (·.name ≠ m.name) then
            some { p with
              registries := p.registries.set i { r with metrics := r.metrics ++ [a] } }
          else none
      | _, _ => none
  | _, _ => none

/-- `promhttp_set_active_collector_registry`. -/
def promhttpSetActiveCollectorRegistry (registry : Option ℕ) (p : Prom) : Prom :=
  { p with active := if registry = none then p.registry else registry }

/-- What a request for `/metrics` is answered with. -/
inductive Body
  /-- The text `# pcr_bridge(NULL)`. -/
  | null
  /-- Memory of a destroyed registry is read. -/
  | destroyed
  /-- The metrics of a live registry. -/
  | metrics (ms : List Metric)
  deriving DecidableEq

/-- `pcr_bridge`. -/
def pcrBridge (registry : Option ℕ) (p : Prom) : Body :=
  match registry with
  | none => .null
  | some _ =>
      match p.live? registry with
      | none => .destroyed
      | some r => .metrics (p.metricsOf r)

/-- A request is answered with metrics exactly when the registry behind the pointer is live. -/
theorem pcrBridge_eq_metrics_iff {p : Prom} {r : Option ℕ} :
    (∃ ms, pcrBridge r p = .metrics ms) ↔ (p.live? r).isSome := by
  cases r with
  | none => simp [pcrBridge, Prom.live?]
  | some i =>
      cases h : p.live? (some i) with
      | none => simp [pcrBridge, h]
      | some r => simp [pcrBridge, h]

/-- What a successful registration finds and does. -/
theorem pcrMustRegisterMetric_eq_some {ok : Bool} {metric : Option ℕ} {p p' : Prom}
    (h : pcrMustRegisterMetric ok metric p = some p') :
    ∃ a i r, metric = some a ∧ p.registry = some i ∧ p.registries[i]? = some r ∧
      p' = { p with registries := p.registries.set i { r with metrics := r.metrics ++ [a] } } := by
  unfold pcrMustRegisterMetric at h
  split at h
  · rename_i a i hregistry
    split at h
    · rename_i m r _ hr
      split at h
      · exact ⟨a, i, r, rfl, hregistry, hr, (Option.some_inj.1 h).symm⟩
      · simp at h
    · simp at h
  · simp at h

@[simp] theorem promGaugeSet_none (value : ℚ) (p : Prom) : promGaugeSet none value p = p := rfl

@[simp] theorem promGaugeSet_registries (gauge : Option ℕ) (value : ℚ) (p : Prom) :
    (promGaugeSet gauge value p).registries = p.registries := by
  cases gauge with
  | none => rfl
  | some a => rfl

@[simp] theorem promGaugeSet_registry (gauge : Option ℕ) (value : ℚ) (p : Prom) :
    (promGaugeSet gauge value p).registry = p.registry := by
  cases gauge with
  | none => rfl
  | some a => rfl

end Monitor
