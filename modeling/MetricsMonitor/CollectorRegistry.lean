/-
**Collectors, registries and the HTTP handler: `prom_collector.c`, `prom_collector_registry.c`,
`prom_process_collector.c` and `promhttp.c`.**

A registry has a map of collectors, a collector a map of metrics.  The default collector holds the
metrics of the program; the process collector makes seventeen metrics of its own and updates them
whenever it is asked for them.  What it reads from the system is an input here.

* `Monitor.Pcr`, `Monitor.PromCollector`, `Monitor.Libprom` — the objects;
* `Monitor.ppcTable`, `Monitor.ppcNew`, `Monitor.ppcCollect` — the process collector;
* `Monitor.pcrNew`, `Monitor.pcrRegisterMetric`, `Monitor.pcrBridgeText` — registries;
* `Monitor.promhttpHandler` — the answer to a request.
-/

import MetricsMonitor.Exposition

set_option relaxedAutoImplicit false
set_option autoImplicit false

namespace Monitor

/-! ### Collectors -/

/-- `prom_collector_t`. -/
structure PromCollector where
  name : CString
  /-- The addresses of the metrics. -/
  metrics : PromMap ℕ
  /-- The array of a process collector, to which its map points; the maps of the others point to
  the metrics of the program. -/
  process : Option (List (PromMetric Pms))

/-- `prom_collector_new`. -/
def promCollectorNew (name : CString) : PromCollector := ⟨name, promMapNew, none⟩

/-- `prom_collector_add_metric`; `none` when the name is taken. -/
def promCollectorAddMetric (name : CString) (address : ℕ) (self : PromCollector) :
    Option PromCollector :=
  if promMapGet self.metrics name ≠ none then none
  else some { self with metrics := promMapSet name address self.metrics }

/-- The metrics of `ppc_fds_new`, `ppc_limits_new` and `ppc_stats_new`, in the order of
`proc_metric_t`. -/
def ppcTable : List (MetricType × String × String) :=
  [(.gauge, "process_open_fds", "Number of open file descriptors"),
    (.gauge, "process_max_fds", "Max. number of open file descriptors (soft limit)"),
    (.counter, "process_minor_pagefaults",
      "Number of minor faults of the process not caused a page load from disk"),
    (.counter, "process_major_pagefaults",
      "Number of major faults of the process caused a page load from disk"),
    (.counter, "process_children_minor_pagefaults",
      "Number of minor faults of the process waited-for children not caused a page load from disk"),
    (.counter, "process_children_major_pagefaults",
      "Number of major faults of the process's waited-for children caused a page load from disk"),
    (.counter, "process_user_cpu_seconds",
      "Total CPU time the process spent in user mode in seconds"),
    (.counter, "process_system_cpu_seconds",
      "Total CPU time the process spent in kernel mode in seconds"),
    (.counter, "process_total_cpu_seconds",
      "Total CPU time the process spent in user and kernel mode in seconds"),
    (.counter, "process_children_user_cpu_seconds",
      "Total CPU time the process's waited-for children spent in user mode in seconds"),
    (.counter, "process_children_system_cpu_seconds",
      "Total CPU time the process's waited-for children spent in kernel mode in seconds"),
    (.counter, "process_children_total_cpu_seconds",
    "Total CPU time the process's waited-for children spent in user and in kernel mode in seconds"),
    (.gauge, "process_threads_total", "Number of threads in this process"),
    (.counter, "process_start_time_seconds",
      "The time the process has been started in seconds elapsed since Epoch"),
    (.gauge, "process_virtual_memory_bytes", "Virtual memory size in bytes"),
    (.gauge, "process_resident_memory_bytes", "Resident set size of memory in bytes"),
    (.counter, "process_delayacct_blkio_ticks",
      "Aggregated block I/O delays, measured in clock ticks (centiseconds)")]

/-- `ppc_new`; `ok` says whether memory lasts and the file under `/proc` can be opened.  That a
metric was not added is not looked at. -/
def ppcNew (ok : Bool) : Option PromCollector :=
  if ok then
    let m := ppcTable.filterMap fun t => promMetricNew t.1 t.2.1.toList (some t.2.2.toList) []
    some (m.zipIdx.foldl (fun c p => (promCollectorAddMetric p.1.name p.2 c).getD c)
      { promCollectorNew "process".toList with process := some m })
  else none

/-- What a scrape takes from outside: the values for the metrics of the process collector, the
duration, and when `realloc` works. -/
structure ScrapeInputs where
  readings : ℕ → Double
  duration : Double
  /-- While the `i`-th metric of the process collector is set. -/
  processWorks : ℕ → ℕ → Bool
  /-- While the duration is set. -/
  durationWorks : ℕ → Bool
  /-- While the text is written. -/
  textWorks : ℕ → Bool

/-- The macros `gup` and `cup`. -/
def ppcSet (works : ℕ → Bool) (reading : Double) (m : PromMetric Pms) : Option (PromMetric Pms) :=
  let set := if m.type = .gauge then promGaugeSetLabels reading else promCounterReset reading
  (set works [] m).map Prod.snd

/-- `ppc_collect`, for a process collector, and `prom_collector_metrics_get`, for any other. -/
def ppcCollect (inputs : ScrapeInputs) (self : PromCollector) : Option PromCollector :=
  match self.process with
  | none => some self
  | some m =>
      (m.zipIdx.mapM fun p => ppcSet (inputs.processWorks p.2) (inputs.readings p.2) p.1).map
        fun m => { self with process := some m }

/-- The metrics an iteration over a collector finds; `none` is a read of freed memory. -/
def PromCollector.found (program : List (PromMetric Pms)) (self : PromCollector) :
    Option (List (PromMetric Pms)) :=
  (promMapKeys self.metrics).map fun keys => keys.filterMap fun name =>
    (promMapGet self.metrics name).bind fun a => (self.process.getD program)[a]?

/-! ### Registries -/

/-- `pcr_t`. -/
structure Pcr where
  live : Bool
  mprefix : Option CString
  scrapeDuration : Option (PromMetric Pms)
  /-- The addresses of the collectors. -/
  collectors : PromMap ℕ
  /-- The collectors, by address. -/
  objects : List PromCollector

/-- `pcr_new`. -/
def pcrNew : Pcr :=
  { live := true
    mprefix := none
    scrapeDuration := none
    collectors := promMapSet "default".toList 0 promMapNew
    objects := [promCollectorNew "default".toList] }

/-- `pcr_enable_process_metrics`; the result is whether it fails, and the registry. -/
def pcrEnableProcessMetrics (ok : Bool) (self : Pcr) : Bool × Pcr :=
  if promMapGet self.collectors "process".toList ≠ none then (true, self)
  else
    match ppcNew ok with
    | none => (true, self)
    | some c =>
        (false, { self with
          collectors := promMapSet "process".toList self.objects.length self.collectors
          objects := self.objects ++ [c] })

/-- `pcr_enable_scrape_metrics`. -/
def pcrEnableScrapeMetrics (ok : Bool) (self : Pcr) : Bool × Pcr :=
  if ok then
    (false, { self with
      scrapeDuration := promMetricNew .gauge "scrape_duration_seconds".toList
        (some "Duration of a collector scrape".toList) ["collector".toList] })
  else (true, self)

/-- The loop of `pmf_load_metrics` over the metrics of a collector: the number of the next call and
the text.  That a metric was not written in full is not looked at. -/
def loadMetrics (works : ℕ → Bool) (pre : Option CString) :
    List (PromMetric Pms) → ℕ → CString → Option (ℕ × CString)
  | [], k, text => some (k, text)
  | m :: ms, k, text =>
      (pmfLoadMetric pre false m).bind fun steps =>
        let (_, k, text) := pmfRun works steps k text
        loadMetrics works pre ms k text

/-- `pmf_load_metrics`: the collectors of these names, one after another. -/
def pmfLoadMetrics (inputs : ScrapeInputs) (program : List (PromMetric Pms)) (self : Pcr) :
    List CString → List PromCollector → ℕ → CString → Option (List PromCollector × ℕ × CString)
  | [], objects, k, text => some (objects, k, text)
  | name :: names, objects, k, text =>
      match (promMapGet self.collectors name).bind fun a => objects[a]?.map (a, ·) with
      | none => pmfLoadMetrics inputs program self names objects k text
      | some (a, c) =>
          (ppcCollect inputs c).bind fun c =>
            (c.found program).bind fun ms =>
              (loadMetrics inputs.textWorks self.mprefix ms k text).bind fun (k, text) =>
                pmfLoadMetrics inputs program self names (objects.set a c) k text

/-- `pcr_bridge` on a registry: the text, and the registry; `none` is undefined behaviour. -/
def pcrBridgeText (inputs : ScrapeInputs) (program : List (PromMetric Pms)) (self : Pcr) :
    Option (CString × Pcr) :=
  (promMapKeys self.collectors).bind fun names =>
    (pmfLoadMetrics inputs program self names self.objects 0 []).bind fun (objects, k, text) =>
      match self.scrapeDuration with
      | none => some (text, { self with objects := objects })
      | some gauge =>
          (promGaugeSetLabels inputs.duration inputs.durationWorks ["libprom".toList] gauge).bind
            fun (_, gauge) =>
              (loadMetrics inputs.textWorks self.mprefix [gauge] k text).map fun (_, text) =>
                (text, { self with objects := objects, scrapeDuration := some gauge })

/-! ### libprom -/

/-- The objects of libprom and its global pointers. -/
structure Libprom where
  /-- The metrics of the program. -/
  metrics : List (PromMetric Pms)
  registries : List Pcr
  /-- `PROM_COLLECTOR_REGISTRY`. -/
  registry : Option ℕ
  /-- `PROM_ACTIVE_REGISTRY`. -/
  active : Option ℕ

namespace Libprom

/-- libprom before any call. -/
def boot : Libprom := ⟨[], [], none, none⟩

/-- `prom_gauge_new` without labels. -/
def gaugeNew (ok : Bool) (name help : CString) (l : Libprom) : Option ℕ × Libprom :=
  match if ok then promMetricNew .gauge name (some help) [] else none with
  | none => (none, l)
  | some m => (some l.metrics.length, { l with metrics := l.metrics ++ [m] })

/-- `prom_gauge_set` without labels. -/
def gaugeSet (works : ℕ → Bool) (gauge : Option ℕ) (value : Double) (l : Libprom) :
    Option Libprom :=
  match gauge with
  | none => some l
  | some a =>
      (l.metrics[a]?.bind (promGaugeSetLabels value works [])).map fun r =>
        { l with metrics := l.metrics.set a r.2 }

/-- `pcr_register_metric`, for a registry; `none` when it fails. -/
def pcrRegisterMetric (ok : Bool) (name : CString) (address : ℕ) (self : Pcr) : Option Pcr :=
  (promMapGet self.collectors "default".toList).bind fun j => self.objects[j]?.bind fun c =>
    if ok then
      (promCollectorAddMetric name address c).map fun c =>
        { self with objects := self.objects.set j c }
    else none

/-- `pcr_must_register_metric`: `none` when the call ends the process. -/
def mustRegisterMetric (ok : Bool) (metric : Option ℕ) (l : Libprom) : Option Libprom :=
  match metric, l.registry with
  | some a, some i =>
      match l.metrics[a]?, l.registries[i]? with
      | some m, some r =>
          (pcrRegisterMetric ok m.name a r).map fun r =>
            { l with registries := l.registries.set i r }
      | _, _ => none
  | _, _ => none

/-- `promhttp_set_active_collector_registry`. -/
def setActiveCollectorRegistry (registry : Option ℕ) (l : Libprom) : Libprom :=
  { l with active := if registry = none then l.registry else registry }

/-- `pcr_bridge`; a registry that has been destroyed is not defined. -/
def bridge (inputs : ScrapeInputs) (registry : Option ℕ) (l : Libprom) :
    Option (CString × Libprom) :=
  match registry with
  | none => some ("# pcr_bridge(NULL)".toList, l)
  | some i =>
      ((l.registries[i]?).filter (·.live)).bind fun r =>
        (pcrBridgeText inputs l.metrics r).map fun (text, r) =>
          (text, { l with registries := l.registries.set i r })

end Libprom

/-- The status and the body of an answer. -/
structure Response where
  status : ℕ
  body : CString
  deriving DecidableEq

/-- `promhttp_handler`; `none` is undefined behaviour. -/
def promhttpHandler (inputs : ScrapeInputs) (method url : CString) (l : Libprom) :
    Option (Response × Libprom) :=
  if method ≠ "GET".toList then some (⟨400, "Invalid HTTP Method\n".toList⟩, l)
  else if url = "/".toList then
    some (⟨200, "<html><body>See <a href='/metrics'>/metrics</a>.\r\n".toList⟩, l)
  else if url = "/metrics".toList then
    (l.bridge inputs l.active).map fun (body, l) => (⟨200, body⟩, l)
  else some (⟨400, "Bad Request\n".toList⟩, l)

end Monitor
