/-
**The gauges of `expose_metrics.c`: their creation, registration and update.**

The five groups of gauges are written and published in the same way, so each of the near-identical
functions of the source is one definition with the group as a parameter, and each member keeps its
own name.  `init_metrics` is a list of actions performed one after another: what another thread can
see between two of them is what `MetricsMonitor/Startup.lean` needs, and performing all of them is
`Monitor.initMetrics`.

* `Monitor.Group`, `Monitor.Gauge`, `Monitor.gaugeTable` — the fifteen gauges, their names and help
  texts;
* `Monitor.updateGauges` and its five instances — publishing the result of a reader;
* `Monitor.InitAction`, `Monitor.initActions`, `Monitor.initMetrics` — `init_metrics`.
-/

import MetricsMonitor.Metrics
import MetricsMonitor.Prom
import Mathlib.Data.Fin.VecNotation
import Mathlib.Data.List.Nodup
import Mathlib.Data.List.FinRange
import Mathlib.Algebra.Order.Field.Rat
import Mathlib.Data.Rat.Floor

set_option relaxedAutoImplicit false
set_option autoImplicit false

namespace Monitor

/-! ### Groups and gauges -/

/-- The groups of gauges, one per reader, in the order of the main loop. -/
inductive Group
  | cpu
  | memory
  | disk
  | network
  | processes
  deriving DecidableEq, Repr

/-- `N_MEM_METRICS`, `N_DISK_METRICS`, `N_NET_METRICS`, `N_PROC_COUNT`. -/
def Group.size : Group → ℕ
  | .cpu => 1
  | .memory => 4
  | .disk => 2
  | .network => 6
  | .processes => 2

/-- The groups in the order of the source. -/
def groups : List Group := [.cpu, .memory, .disk, .network, .processes]

/-- `config`, set from the JSON file: the interval, then one switch per group. -/
abbrev Config := Fin 6 → UInt8

/-- The entry of `config` that switches a group on. -/
def Group.entry : Group → Fin 6
  | .cpu => 1
  | .memory => 2
  | .disk => 3
  | .network => 4
  | .processes => 5

/-- `JSON_ENTRIES_DEF_VAL`. -/
def defaultConfig : Config := ![1, 1, 1, 1, 1, 1]

/-- The CPU only. -/
def cpuConfig : Config := ![1, 1, 0, 0, 0, 0]

/-- The memory only. -/
def memoryConfig : Config := ![1, 0, 1, 0, 0, 0]

/-- The processes only. -/
def processesConfig : Config := ![1, 0, 0, 0, 0, 1]

/-- Whether a group is required. -/
def Config.enabled (config : Config) (g : Group) : Bool := config g.entry != 0

/-- The required groups, in the order of the source. -/
def Config.groups (config : Config) : List Group := Monitor.groups.filter config.enabled

/-- A gauge is an entry of the array of its group. -/
abbrev Gauge := (g : Group) × Fin g.size

/-- The name and the help text of every gauge. -/
def gaugeTable : (g : Group) → Fin g.size → String × String
  | .cpu => ![("cpu_usage_percentage", "Porcentaje de uso de CPU")]
  | .memory =>
      ![("memory_total", "Memoria total"), ("memory_used", "Memoria en uso"),
        ("memory_free", "Memoria libre"),
        ("memory_used_percentage", "Porcentaje de memoria en uso")]
  | .disk =>
      ![("sectors_read_rate", "Sectores (512 KB c/u) de HDD leidos p/s"),
        ("sectors_written_rate", "Sectores (512 KB c/u) de HDD escritos p/s")]
  | .network =>
      ![("rx_bytes", "RX Bytes"), ("rx_errors", "RX packets with errors"),
        ("rx_packets_dropped", "RX packets dropped"), ("tx_bytes", "TX Bytes"),
        ("tx_errors", "TX packets with errors"), ("tx_packets_dropped", "TX packets dropped")]
  | .processes =>
      ![("existing_processes", "Procesos existentes en el sistema"),
        ("running_processes", "Procesos actualmente corriendo en el sistema")]

/-- The name of a gauge. -/
def Gauge.name (q : Gauge) : String := (gaugeTable q.1 q.2).1

/-- The help text of a gauge. -/
def Gauge.help (q : Gauge) : String := (gaugeTable q.1 q.2).2

/-- The gauges of a group, in the order of its array. -/
def Group.gauges (g : Group) : List Gauge := (List.finRange g.size).map fun i => ⟨g, i⟩

/-- The gauges of the required groups, in the order of the source. -/
def Config.gauges (config : Config) : List Gauge := config.groups.flatMap Group.gauges

/-- All fifteen gauges. -/
def allGauges : List Gauge := groups.flatMap Group.gauges

theorem mem_groups (g : Group) : g ∈ groups := by
  cases g <;> simp [groups]

theorem Config.mem_groups {config : Config} {g : Group} :
    g ∈ config.groups ↔ config.enabled g = true := by
  simp [Config.groups, Monitor.mem_groups]

theorem Group.mem_gauges {g : Group} {q : Gauge} : q ∈ g.gauges ↔ q.1 = g := by
  simp only [Group.gauges, List.mem_map, List.mem_finRange, true_and]
  constructor
  · rintro ⟨i, rfl⟩
    rfl
  · rintro rfl
    exact ⟨q.2, rfl⟩

/-- A gauge is created exactly when its group is required. -/
theorem Config.mem_gauges {config : Config} {q : Gauge} :
    q ∈ config.gauges ↔ config.enabled q.1 = true := by
  simp only [Config.gauges, List.mem_flatMap, Group.mem_gauges, Config.mem_groups]
  constructor
  · rintro ⟨g, hg, rfl⟩
    exact hg
  · intro h
    exact ⟨q.1, h, rfl⟩

theorem mem_allGauges (q : Gauge) : q ∈ allGauges := by
  simp only [allGauges, List.mem_flatMap, Group.mem_gauges]
  exact ⟨q.1, mem_groups q.1, rfl⟩

/-- **The fifteen names are different.** -/
theorem nodup_names : (allGauges.map Gauge.name).Nodup := by decide +kernel

theorem Gauge.name_injective : Function.Injective Gauge.name := by
  intro q r h
  exact List.inj_on_of_nodup_map nodup_names (mem_allGauges q) (mem_allGauges r) h

theorem Config.nodup_gauges (config : Config) : config.gauges.Nodup := by
  have hgroups : config.groups.Nodup := List.Nodup.filter _ (by decide)
  refine List.nodup_flatMap.2 ⟨?_, hgroups.imp ?_⟩
  · intro g _
    exact (List.nodup_finRange g.size).map fun i j h => by simpa using h
  · intro g g' hne q hq hq'
    exact hne ((Group.mem_gauges.1 hq).symm.trans (Group.mem_gauges.1 hq'))

/-! ### Publishing the results of the readers -/

/-- `(unsigned char) x`: truncation, which C defines only when the result fits in eight bits;
`none` is an indeterminate byte. -/
def toUChar (x : ℚ) : Option UInt8 :=
  if -1 < x ∧ x < 256 then some (UInt8.ofNat ⌊x⌋₊) else none

/-- `x >= 255 ? 255 : (unsigned char) x`. -/
def toUCharClamped (x : ℚ) : Option UInt8 := if 255 ≤ x then some 255 else toUChar x

/-- `g_status`; `none` is a byte left indeterminate by a conversion out of range. -/
abbrev Status := Fin 4 → Option UInt8

/-- The global state of `expose_metrics.c`: libprom, the arrays of gauge pointers and
`g_status`. -/
structure Globals where
  prom : Prom
  /-- `cpu_usage_metric`, `memory_metrics`, `disk_metrics`, `network_metrics`,
  `processes_count`. -/
  slots : Gauge → Option ℕ
  /-- `g_status`. -/
  gStatus : Status

/-- The state the process starts in: null pointers and a zero status. -/
def Globals.boot : Globals := ⟨.boot, fun _ => none, fun _ => some 0⟩

/-- `prom_gauge_set` on an entry of an array of gauges. -/
def setGauge (q : Gauge) (value : ℚ) (s : Globals) : Globals :=
  { s with prom := promGaugeSet (s.slots q) value s.prom }

/-- The loop over the array of a group. -/
def setGauges (g : Group) (usage : Fin g.size → ℚ) (s : Globals) : Globals :=
  (List.finRange g.size).foldl (fun s i => setGauge ⟨g, i⟩ (usage i) s) s

/-- What the update functions have in common: nothing happens when the reader failed; otherwise
the status is written (`track`), then the gauges of the group in the order of their array. -/
def updateGauges (g : Group) (track : (Fin g.size → ℚ) → Status → Status)
    (usage : Option (Fin g.size → ℚ)) (s : Globals) : Globals :=
  match usage with
  | none => s
  | some usage => setGauges g usage { s with gStatus := track usage s.gStatus }

/-- The status bytes a group writes before its gauges. -/
def Group.track : (g : Group) → (Fin g.size → ℚ) → Status → Status
  | .cpu => fun usage st => Function.update st 0 (toUChar (usage ⟨0, by decide⟩))
  | .memory => fun usage st => Function.update st 1 (toUChar (usage ⟨3, by decide⟩))
  | .disk => fun usage st =>
      Function.update (Function.update st 2 (toUCharClamped (usage ⟨0, by decide⟩))) 3
        (toUCharClamped (usage ⟨1, by decide⟩))
  | .network => fun _ st => st
  | .processes => fun _ st => st

/-- The success test of `update_cpu_gauge`: `get_cpu_usage` reports an error by a negative
number. -/
def cpuResult (usage : ℚ) : Option (Fin 1 → ℚ) := if 0 ≤ usage then some ![usage] else none

/-- `update_cpu_gauge`, on the value `get_cpu_usage` returned. -/
def updateCpuGauge (usage : ℚ) : Globals → Globals :=
  updateGauges .cpu (Group.track .cpu) (cpuResult usage)

/-- `update_memory_gauges`, on the array `get_memory_usage` returned. -/
def updateMemoryGauges (usage : Option (Fin 4 → ℚ)) : Globals → Globals :=
  updateGauges .memory (Group.track .memory) usage

/-- `update_disk_gauges`, on the array `get_disk_usage` returned. -/
def updateDiskGauges (usage : Option (Fin 2 → ℚ)) : Globals → Globals :=
  updateGauges .disk (Group.track .disk) usage

/-- `update_network_gauges`, on the array `get_network_usage` returned. -/
def updateNetworkGauges (usage : Option (Fin 6 → ℚ)) : Globals → Globals :=
  updateGauges .network (Group.track .network) usage

/-- `update_processes_gauge`, on the array `get_processes_usage` returned. -/
def updateProcessesGauge (usage : Option (Fin 2 → ℚ)) : Globals → Globals :=
  updateGauges .processes (Group.track .processes) usage

/-! ### `init_metrics` -/

/-- The actions of `init_metrics`, those of `pcr_init` one by one. -/
inductive InitAction
  | mutexInit
  /-- `if (PROM_COLLECTOR_REGISTRY != NULL) return 1`. -/
  | pcrCheck
  /-- `PROM_COLLECTOR_REGISTRY = pcr_new(cname)`, and the test for a null pointer. -/
  | pcrNew
  | pcrEnableProcess
  | pcrEnableScrape
  /-- In `pcr_destroy`, when `err`: the default registry is forgotten. -/
  | pcrForget
  /-- In `pcr_destroy`, when `err`: the registry is freed. -/
  | pcrFree
  /-- `PROM_COLLECTOR_REGISTRY = NULL`, when `err`. -/
  | pcrReset
  /-- `return err`. -/
  | pcrReturn
  /-- `prom_gauge_new` into an entry of an array. -/
  | gaugeNew (q : Gauge)
  /-- The loop that looks for a null pointer in the array of a group. -/
  | gaugeCheck (g : Group)
  /-- `pcr_must_register_metric` on an entry of an array. -/
  | register (q : Gauge)
  deriving DecidableEq

/-- The state of `init_metrics`: the globals, and of `pcr_init` the local `err` and the registry
it works on. -/
structure Boot where
  globals : Globals
  err : Bool
  self : Option ℕ

/-- The state `init_metrics` starts in. -/
def Boot.start : Boot := ⟨.boot, false, none⟩

/-- How a call of `init_metrics` ends. -/
inductive InitResult
  /-- It returns `EXIT_SUCCESS`. -/
  | success
  /-- It returns `EXIT_FAILURE`. -/
  | failure
  /-- `pcr_must_register_metric` ended the process. -/
  | exited
  deriving DecidableEq, Repr

/-- Replacing the libprom part of the state. -/
def Boot.setProm (b : Boot) (p : Prom) : Boot := { b with globals := { b.globals with prom := p } }

/-- Performing an action; `ok` is whether the call it makes to code outside succeeds.  The result
is `none` when the next action follows, and how `init_metrics` ends otherwise. -/
def InitAction.exec (ok : Bool) (a : InitAction) (b : Boot) : Option InitResult × Boot :=
  let p := b.globals.prom
  match a with
  | .mutexInit => (if ok then none else some .failure, b)
  | .pcrCheck => (if p.registry = none then none else some .failure, b)
  | .pcrNew =>
      if ok then
        (none, { b.setProm { p with registries := p.registries ++ [⟨true, []⟩],
                                    registry := some p.registries.length } with
                 self := some p.registries.length })
      else (some .failure, b.setProm { p with registry := none })
  | .pcrEnableProcess => (none, { b with err := !ok })
  | .pcrEnableScrape => (none, { b with err := b.err || !ok })
  | .pcrForget => (none, if b.err then b.setProm { p with registry := none } else b)
  | .pcrFree =>
      (none,
        if b.err then
          match b.self with
          | none => b
          | some i =>
              b.setProm { p with registries := p.registries.modify i ({ · with live := false }) }
        else b)
  | .pcrReset => (none, if b.err then b.setProm { p with registry := none } else b)
  | .pcrReturn => (if b.err then some .failure else none, b)
  | .gaugeNew q =>
      let (gauge, p) := promGaugeNew ok q.name q.help p
      (none, { b with globals :=
        { b.globals with prom := p, slots := Function.update b.globals.slots q gauge } })
  | .gaugeCheck g =>
      (if g.gauges.any fun q => b.globals.slots q = none then some .failure else none, b)
  | .register q =>
      match pcrMustRegisterMetric ok (b.globals.slots q) p with
      | none => (some .exited, b)
      | some p => (none, b.setProm p)

/-- No action of `init_metrics` touches the active registry or the status. -/
theorem InitAction.exec_untouched (ok : Bool) (a : InitAction) (b : Boot) :
    (a.exec ok b).2.globals.prom.active = b.globals.prom.active ∧
      (a.exec ok b).2.globals.gStatus = b.globals.gStatus := by
  cases a with
  | mutexInit | pcrCheck | pcrEnableProcess | pcrEnableScrape | pcrReturn | gaugeCheck =>
      exact ⟨rfl, rfl⟩
  | pcrNew => cases ok <;> exact ⟨rfl, rfl⟩
  | pcrForget | pcrReset =>
      simp only [InitAction.exec]
      split <;> exact ⟨rfl, rfl⟩
  | pcrFree =>
      simp only [InitAction.exec]
      split
      · split <;> exact ⟨rfl, rfl⟩
      · exact ⟨rfl, rfl⟩
  | gaugeNew q => cases ok <;> exact ⟨rfl, rfl⟩
  | register q =>
      simp only [InitAction.exec]
      cases h : pcrMustRegisterMetric ok (b.globals.slots q) b.globals.prom with
      | none => exact ⟨rfl, rfl⟩
      | some p =>
          obtain ⟨a, i, r, -, -, -, rfl⟩ := pcrMustRegisterMetric_eq_some h
          exact ⟨rfl, rfl⟩

/-- The actions of `pcr_default_init`. -/
def pcrActions : List InitAction :=
  [.pcrCheck, .pcrNew, .pcrEnableProcess, .pcrEnableScrape, .pcrForget, .pcrFree, .pcrReset,
    .pcrReturn]

/-- The creation of the gauges of a group. -/
def createActions (g : Group) : List InitAction := g.gauges.map .gaugeNew ++ [.gaugeCheck g]

/-- The registration of the gauges of a group. -/
def registerActions (g : Group) : List InitAction := g.gauges.map .register

/-- The actions of `init_metrics`. -/
def initActions (config : Config) : List InitAction :=
  .mutexInit :: pcrActions ++ config.groups.flatMap createActions ++
    config.groups.flatMap registerActions

/-- Performing a list of actions; `works a` is whether the call that `a` makes succeeds. -/
def runInit (works : InitAction → Bool) : List InitAction → Boot → InitResult × Boot
  | [], b => (.success, b)
  | a :: todo, b =>
      match a.exec (works a) b with
      | (none, b) => runInit works todo b
      | (some r, b) => (r, b)

/-- **`init_metrics`**, called once from the initial state of the process. -/
def initMetrics (works : InitAction → Bool) (config : Config) : InitResult × Globals :=
  let (r, b) := runInit works (initActions config) .start
  (r, b.globals)

end Monitor
