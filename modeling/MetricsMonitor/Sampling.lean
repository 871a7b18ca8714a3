/-
**The main loop and the gauges.**

The main loop calls the update functions of the required groups, one after another and cycle after
cycle.  Here a call is known by what its reader returned, so this module is about every pattern of
success and failure of the readers and about all the values they can return.

* `Monitor.Call`, `Monitor.mainLoop` — the update calls, and the sequence the main loop makes;
* `Monitor.latest` — the latest successful result of a reader;
* `Monitor.shape_updates` — **every gauge holds its component of the latest successful result**;
* `Monitor.exposed_updates` — what a scrape finds under a name;
* `Monitor.gauges_track_readers` — the whole law, for complete and incomplete cycles and for pairs
  of configurations.
-/

import MetricsMonitor.InitMetrics
import MetricsMonitor.Metrics

set_option relaxedAutoImplicit false
set_option autoImplicit false

namespace Monitor

/-! ### Update calls -/

/-- A call of an update function, with what its reader returned. -/
inductive Call
  | cpu (usage : ℚ)
  | memory (usage : Option (Fin 4 → ℚ))
  | disk (usage : Option (Fin 2 → ℚ))
  | network (usage : Option (Fin 6 → ℚ))
  | processes (usage : Option (Fin 2 → ℚ))

/-- The effect of a call on the globals. -/
def Call.update : Call → Globals → Globals
  | .cpu usage => updateCpuGauge usage
  | .memory usage => updateMemoryGauges usage
  | .disk usage => updateDiskGauges usage
  | .network usage => updateNetworkGauges usage
  | .processes usage => updateProcessesGauge usage

/-- The group a call is about. -/
def Call.group : Call → Group
  | .cpu _ => .cpu
  | .memory _ => .memory
  | .disk _ => .disk
  | .network _ => .network
  | .processes _ => .processes

/-- The result of the reader, if the caller takes it for a success. -/
def Call.result : (c : Call) → Option (Fin c.group.size → ℚ)
  | .cpu usage => cpuResult usage
  | .memory usage => usage
  | .disk usage => usage
  | .network usage => usage
  | .processes usage => usage

/-- The five update functions are one. -/
theorem Call.update_eq (c : Call) : c.update = updateGauges c.group c.group.track c.result := by
  cases c with
  | cpu | memory | disk | network | processes => rfl

/-- The result of a call as a result of the group `g`: there is none when the call is about
another group. -/
def Call.resultOf (g : Group) (c : Call) : Option (Fin g.size → ℚ) :=
  if h : c.group = g then h ▸ c.result else none

/-- What the readers return in one cycle. -/
structure Results where
  cpu : ℚ
  memory : Option (Fin 4 → ℚ)
  disk : Option (Fin 2 → ℚ)
  network : Option (Fin 6 → ℚ)
  processes : Option (Fin 2 → ℚ)

/-- The call for a group in a cycle. -/
def Results.call (r : Results) : Group → Call
  | .cpu => .cpu r.cpu
  | .memory => .memory r.memory
  | .disk => .disk r.disk
  | .network => .network r.network
  | .processes => .processes r.processes

@[simp] theorem Results.group_call (r : Results) (g : Group) : (r.call g).group = g := by
  cases g with
  | cpu | memory | disk | network | processes => rfl

/-- The calls of the main loop: in each cycle those of the required groups, in order. -/
def mainLoop (config : Config) (cycles : List Results) : List Call :=
  cycles.flatMap fun r => config.groups.map r.call

/-- Performing calls one after another. -/
def updates (calls : List Call) (s : Globals) : Globals := calls.foldl (fun s c => c.update s) s

/-- **The latest successful result of the reader of a group.** -/
def latest (g : Group) (calls : List Call) : Option (Fin g.size → ℚ) :=
  (calls.filterMap (Call.resultOf g)).getLast?

theorem updates_append_singleton (calls : List Call) (c : Call) (s : Globals) :
    updates (calls ++ [c]) s = c.update (updates calls s) := by
  rw [updates, List.foldl_append]
  rfl

/-- A successful call replaces the latest result, any other call keeps it. -/
theorem latest_append_singleton (g : Group) (calls : List Call) (c : Call) :
    latest g (calls ++ [c]) = (c.resultOf g).or (latest g calls) := by
  rw [latest, List.filterMap_append]
  cases hc : c.resultOf g with
  | none => simp [hc, latest]
  | some usage => simp [hc]

theorem Call.resultOf_group (c : Call) : c.resultOf c.group = c.result := by
  rw [Call.resultOf, dif_pos rfl]

theorem Call.resultOf_of_ne {g : Group} {c : Call} (h : c.group ≠ g) : c.resultOf g = none :=
  dif_neg h

/-- The calls of the main loop are about required groups. -/
theorem enabled_of_mem_mainLoop {config : Config} {cycles : List Results} {c : Call}
    (h : c ∈ mainLoop config cycles) : config.enabled c.group = true := by
  simp only [mainLoop, List.mem_flatMap, List.mem_map] at h
  obtain ⟨r, -, g, hg, rfl⟩ := h
  rw [Results.group_call]
  exact Config.mem_groups.1 hg

/-! ### Setting the gauges of a group -/

/-- The values of the gauges after the loop of an update function over some entries. -/
def publish (g : Group) (usage : Fin g.size → ℚ) (entries : List (Fin g.size))
    (value : Gauge → Option ℚ) : Gauge → Option ℚ :=
  entries.foldl (fun value i => Function.update value ⟨g, i⟩ (some (usage i))) value

theorem publish_of_ne {g : Group} (usage : Fin g.size → ℚ) (entries : List (Fin g.size))
    (value : Gauge → Option ℚ) {q : Gauge} (hq : q.1 ≠ g) :
    publish g usage entries value q = value q := by
  induction entries generalizing value with
  | nil => rfl
  | cons i entries ih =>
      have hne : q ≠ ⟨g, i⟩ := fun h => hq (congrArg Sigma.fst h)
      rw [publish, List.foldl_cons, ← publish, ih, Function.update_of_ne hne]

theorem publish_entry {g : Group} (usage : Fin g.size → ℚ) (entries : List (Fin g.size))
    (value : Gauge → Option ℚ) (j : Fin g.size) :
    publish g usage entries value ⟨g, j⟩ =
      if j ∈ entries then some (usage j) else value ⟨g, j⟩ := by
  induction entries generalizing value with
  | nil => rfl
  | cons i entries ih =>
      rw [publish, List.foldl_cons, ← publish, ih]
      by_cases hj : j ∈ entries
      · rw [if_pos hj, if_pos (List.mem_cons_of_mem i hj)]
      · by_cases hij : j = i
        · subst hij
          rw [if_neg hj, if_pos (List.mem_cons_self ..), Function.update_self]
        · have hne : (⟨g, j⟩ : Gauge) ≠ ⟨g, i⟩ := by simpa using hij
          rw [if_neg hj, if_neg (by simp [hij, hj]), Function.update_of_ne hne]

/-- The loop over the array of a group sets the gauges one by one. -/
theorem Shape.publish {E : List Gauge} {value : Gauge → Option ℚ} {registered : List ℕ}
    {s : Globals} (h : Shape E value registered s) (hE : E.Nodup) {g : Group}
    (hg : ∀ q ∈ g.gauges, q ∈ E) (usage : Fin g.size → ℚ) (entries : List (Fin g.size)) :
    Shape E (Monitor.publish g usage entries value) registered
      (entries.foldl (fun s i => Monitor.setGauge ⟨g, i⟩ (usage i) s) s) := by
  induction entries generalizing value s with
  | nil => exact h
  | cons i entries ih => exact ih (h.setGauge hE (hg ⟨g, i⟩ (Group.mem_gauges.2 rfl)) (usage i))

/-- The steps of an update function on the gauges of its group. -/
inductive WriterAction
  | lock
  | set (q : Gauge) (value : ℚ)
  | unlock
  deriving DecidableEq

/-- The loop of an update function over the array of its group. -/
def writerActions (g : Group) (usage : Fin g.size → ℚ) : List WriterAction :=
  (List.finRange g.size).flatMap fun i => [.lock, .set ⟨g, i⟩ (usage i), .unlock]

/-- What a step does to the globals. -/
def WriterAction.exec (s : Globals) : WriterAction → Globals
  | .lock => s
  | .set q value => setGauge q value s
  | .unlock => s

/-- **The steps of an update function, performed one after another, are the update function.** -/
theorem updateGauges_eq_actions (g : Group) (usage : Fin g.size → ℚ) (s : Globals) :
    updateGauges g g.track (some usage) s =
      (writerActions g usage).foldl WriterAction.exec
        { s with gStatus := g.track usage s.gStatus } := by
  rw [updateGauges, setGauges, writerActions, List.foldl_flatMap]
  rfl

/-- The component of the latest successful result that a gauge is about. -/
def latestValue (calls : List Call) (q : Gauge) : Option ℚ := (latest q.1 calls).map (· q.2)

/-- The value a call hands to a gauge. -/
def Call.value (q : Gauge) (c : Call) : Option ℚ := (c.resultOf q.1).map (· q.2)

/-- What a call hands to a gauge, when its reader succeeds. -/
theorem Call.value_eq_of_some {c : Call} {usage : Fin c.group.size → ℚ}
    (h : c.result = some usage) (q : Gauge) :
    c.value q = if hg : c.group = q.1 then some ((hg ▸ usage) q.2) else none := by
  obtain ⟨g, j⟩ := q
  by_cases hg : c.group = g
  · subst hg
    rw [Call.value, Call.resultOf_group, h, dif_pos rfl]
    rfl
  · rw [Call.value, Call.resultOf_of_ne hg, dif_neg hg]
    rfl

/-- A call whose reader fails hands no value to any gauge. -/
theorem Call.value_eq_none {c : Call} (h : c.result = none) (q : Gauge) : c.value q = none := by
  obtain ⟨g, j⟩ := q
  by_cases hg : c.group = g
  · subst hg
    rw [Call.value, Call.resultOf_group, h]
    rfl
  · rw [Call.value, Call.resultOf_of_ne hg]
    rfl

/-- A call hands values to the gauges of its group only. -/
theorem Call.group_of_value {c : Call} {q : Gauge} {x : ℚ} (h : c.value q = some x) :
    c.group = q.1 := by
  by_contra hg
  rw [Call.value, Call.resultOf_of_ne hg] at h
  exact absurd h (by simp)

theorem latestValue_append_singleton (calls : List Call) (c : Call) (q : Gauge) :
    latestValue (calls ++ [c]) q = (c.value q).or (latestValue calls q) := by
  rw [latestValue, latest_append_singleton, Call.value]
  cases c.resultOf q.1 with
  | none => rfl
  | some usage => rfl

/-- The latest value of a gauge is one that a call handed to it. -/
theorem exists_value_of_latestValue {calls : List Call} {q : Gauge} {x : ℚ}
    (h : latestValue calls q = some x) : ∃ c ∈ calls, c.value q = some x := by
  obtain ⟨usage, husage, hx⟩ := Option.map_eq_some_iff.1 h
  obtain ⟨c, hc, hres⟩ := List.mem_filterMap.1 (List.mem_of_getLast? husage)
  exact ⟨c, hc, by rw [Call.value, hres, Option.map_some, hx]⟩

/-- A successful call publishes its result, and the other groups keep theirs. -/
theorem latestValue_append_some {calls : List Call} {c : Call} {usage : Fin c.group.size → ℚ}
    (h : c.result = some usage) :
    latestValue (calls ++ [c]) =
      publish c.group usage (List.finRange c.group.size) (latestValue calls) := by
  funext q
  obtain ⟨g, j⟩ := q
  by_cases hg : c.group = g
  · subst hg
    rw [publish_entry, if_pos (List.mem_finRange j), latestValue_append_singleton,
      Call.value_eq_of_some h, dif_pos rfl]
    rfl
  · rw [publish_of_ne _ _ _ (Ne.symm hg), latestValue_append_singleton,
      Call.value_eq_of_some h, dif_neg hg, Option.none_or]

/-- A failed call leaves every latest result as it was. -/
theorem latestValue_append_none {calls : List Call} {c : Call} (h : c.result = none) :
    latestValue (calls ++ [c]) = latestValue calls := by
  funext q
  rw [latestValue_append_singleton, Call.value_eq_none h, Option.none_or]

/-- **A failed reader changes nothing.** -/
theorem update_of_failure {c : Call} (h : c.result = none) (s : Globals) : c.update s = s := by
  rw [Call.update_eq, h]
  rfl

/-! ### Runs of the main loop -/

/-- **Every gauge holds its component of the latest successful result.**  The induction follows
the calls; one call either publishes its result or changes nothing. -/
theorem shape_updates {config : Config} {registered : List ℕ} {s : Globals} {calls : List Call}
    (h : Shape config.gauges (fun _ => none) registered s)
    (hcalls : ∀ c ∈ calls, config.enabled c.group = true) :
    Shape config.gauges (latestValue calls) registered (updates calls s) := by
  induction calls using List.reverseRecOn with
  | nil => exact h
  | append_singleton calls c ih =>
      have hih := ih fun c hc => hcalls c (List.mem_append_left _ hc)
      have hc : config.enabled c.group = true := hcalls c (by simp)
      rw [updates_append_singleton]
      cases hres : c.result with
      | none =>
          rw [update_of_failure hres, latestValue_append_none hres]
          exact hih
      | some usage =>
          rw [Call.update_eq, hres, latestValue_append_some hres]
          have hg : ∀ q ∈ c.group.gauges, q ∈ config.gauges := by
            intro q hq
            rw [Config.mem_gauges, Group.mem_gauges.1 hq]
            exact hc
          -- the status bytes are written first, which the shape does not see
          have htracked : Shape config.gauges (latestValue calls) registered
              { updates calls s with gStatus := c.group.track usage (updates calls s).gStatus } :=
            ⟨hih.metrics, hih.slots, hih.registry, hih.registries⟩
          exact htracked.publish config.nodup_gauges hg usage _

section AfterInit

variable {works : InitAction → Bool} {config : Config} {s : Globals}

/-- The shape of the state between two calls of the main loop. -/
theorem shape_mainLoop (hinit : initMetrics works config = (.success, s)) {calls : List Call}
    (hcalls : ∀ c ∈ calls, config.enabled c.group = true) :
    Shape config.gauges (latestValue calls) (config.gauges.map config.gauges.idxOf)
      (updates calls s) :=
  shape_updates (initMetrics_shape hinit) hcalls

/-- **What a scrape finds under the name of a gauge** between two calls of the main loop. -/
theorem exposed_updates (hinit : initMetrics works config = (.success, s)) {calls : List Call}
    (hcalls : ∀ c ∈ calls, config.enabled c.group = true) (q : Gauge) :
    (updates calls s).prom.exposed q.name =
      if config.enabled q.1 then some ⟨q.name, q.help, latestValue calls q⟩ else none := by
  have hshape := shape_mainLoop hinit hcalls
  by_cases hq : config.enabled q.1 = true
  · rw [if_pos hq]
    exact hshape.exposed (Config.mem_gauges.2 hq)
  · rw [if_neg hq]
    have hnot := hshape.not_created fun h => hq (Config.mem_gauges.1 h)
    rw [Prom.exposed, Option.bind_eq_none_iff]
    intro r _
    refine List.find?_eq_none.2 fun m hm => ?_
    obtain ⟨a, -, ha⟩ := List.mem_filterMap.1 hm
    simpa using hnot.1 m (List.mem_of_getElem? ha)

end AfterInit

/-- In complete cycles the results of a required group are those its reader returned. -/
theorem latest_mainLoop (config : Config) (g : Group) (cycles : List Results) :
    latest g (mainLoop config cycles) =
      if config.enabled g then (cycles.filterMap fun r => (r.call g).resultOf g).getLast?
      else none := by
  have hcycle (r : Results) : (config.groups.map r.call).filterMap (Call.resultOf g) =
      if config.enabled g then ((r.call g).resultOf g).toList else [] := by
    simp only [Config.groups, groups, List.filter_cons, List.filter_nil]
    cases g <;> cases config.enabled .cpu <;> cases config.enabled .memory <;>
      cases config.enabled .disk <;> cases config.enabled .network <;>
      cases config.enabled .processes <;> rfl
  rw [latest, mainLoop, List.filterMap_flatMap]
  simp only [hcycle]
  by_cases hg : config.enabled g = true
  · simp only [if_pos hg]
    rw [List.filterMap_eq_flatMap_toList]
  · simp [hg]

/-! ### The documented components -/

/-- What `metrics.h` documents: which entry of which array stands under a name. -/
def documented : List (String × Gauge) :=
  [("cpu_usage_percentage", ⟨.cpu, (0 : Fin 1)⟩),
    ("memory_total", ⟨.memory, (0 : Fin 4)⟩),
    ("memory_used", ⟨.memory, (1 : Fin 4)⟩),
    ("memory_free", ⟨.memory, (2 : Fin 4)⟩),
    ("memory_used_percentage", ⟨.memory, (3 : Fin 4)⟩),
    ("sectors_read_rate", ⟨.disk, (0 : Fin 2)⟩),
    ("sectors_written_rate", ⟨.disk, (1 : Fin 2)⟩),
    ("rx_bytes", ⟨.network, (0 : Fin 6)⟩),
    ("rx_errors", ⟨.network, (1 : Fin 6)⟩),
    ("rx_packets_dropped", ⟨.network, (2 : Fin 6)⟩),
    ("tx_bytes", ⟨.network, (3 : Fin 6)⟩),
    ("tx_errors", ⟨.network, (4 : Fin 6)⟩),
    ("tx_packets_dropped", ⟨.network, (5 : Fin 6)⟩),
    ("existing_processes", ⟨.processes, (0 : Fin 2)⟩),
    ("running_processes", ⟨.processes, (1 : Fin 2)⟩)]

/-- The gauges are created under the names the header documents. -/
theorem documented_eq : documented = allGauges.map fun q => (q.name, q) := by decide +kernel

theorem name_of_mem_documented {name : String} {q : Gauge} (h : (name, q) ∈ documented) :
    q.name = name := by
  rw [documented_eq, List.mem_map] at h
  obtain ⟨r, -, hr⟩ := h
  simp only [Prod.mk.injEq] at hr
  obtain ⟨rfl, rfl⟩ := hr
  rfl

/-- **The gauges track their readers.**  After a successful `init_metrics` and any number of calls
of the main loop, a gauge of a required group is exposed under its documented name with its
component of the latest successful result of its reader, unset if there is none, and a gauge of
any other group does not exist.  A failed reader changes nothing; what a group exposes depends on
nothing but its switch and its own reader; and the memory gauges are the total, the total less the
available memory, the available memory and the share used. -/
theorem gauges_track_readers (works : InitAction → Bool) (config : Config) (s : Globals)
    (hinit : initMetrics works config = (.success, s)) (cycles : List Results) :
    (∀ calls, calls <+: mainLoop config cycles → ∀ name q, (name, q) ∈ documented →
      if config.enabled q.1 then
        (updates calls s).prom.exposed name =
          some ⟨name, q.help, (latest q.1 calls).map (· q.2)⟩
      else
        (updates calls s).prom.exposed name = none ∧ (updates calls s).slots q = none ∧
          ∀ m ∈ (updates calls s).prom.metrics, m.name ≠ name) ∧
    (∀ calls c, calls ++ [c] <+: mainLoop config cycles → c.result = none →
      updates (calls ++ [c]) s = updates calls s) ∧
    (∀ works' config' s' cycles' g, initMetrics works' config' = (.success, s') →
      config'.enabled g = config.enabled g →
      cycles'.map (fun r => (r.call g).resultOf g) = cycles.map (fun r => (r.call g).resultOf g) →
      ∀ q ∈ g.gauges, (updates (mainLoop config' cycles') s').prom.exposed q.name =
        (updates (mainLoop config cycles) s).prom.exposed q.name) ∧
    ∀ content usage, getMemoryUsage (some content) = some usage →
      usage = memoryMetrics (meminfo content).1 (meminfo content).2 := by
  refine ⟨?_, ?_, ?_, ?_⟩
  · intro calls hinitial name q hq
    have hcalls : ∀ c ∈ calls, config.enabled c.group = true := fun c hc =>
      enabled_of_mem_mainLoop (hinitial.subset hc)
    have hexposed := exposed_updates hinit hcalls q
    rw [name_of_mem_documented hq] at hexposed
    by_cases hon : config.enabled q.1 = true
    · rw [if_pos hon] at hexposed ⊢
      exact hexposed
    · rw [if_neg hon] at hexposed ⊢
      have hnot := (shape_mainLoop hinit hcalls).not_created fun h => hon (Config.mem_gauges.1 h)
      rw [name_of_mem_documented hq] at hnot
      exact ⟨hexposed, hnot.2, hnot.1⟩
  · intro calls c _ hc
    rw [updates_append_singleton, update_of_failure hc]
  · intro works' config' s' cycles' g hinit' hswitch hresults q hq
    obtain rfl := Group.mem_gauges.1 hq
    have hlatest : latest q.1 (mainLoop config' cycles') = latest q.1 (mainLoop config cycles) := by
      have hmap (l : List Results) : (l.filterMap fun r => (r.call q.1).resultOf q.1) =
          (l.map fun r => (r.call q.1).resultOf q.1).filterMap id := by
        rw [List.filterMap_map]
        rfl
      rw [latest_mainLoop, latest_mainLoop, hswitch, hmap, hmap, hresults]
    rw [exposed_updates hinit' fun _ => enabled_of_mem_mainLoop,
      exposed_updates hinit fun _ => enabled_of_mem_mainLoop, hswitch, latestValue,
      latestValue, hlatest]
  · intro content usage h
    obtain ⟨content', hcontent, -, -, rfl⟩ := getMemoryUsage_eq_some_iff.1 h
    rw [Option.some_inj.1 hcontent]

/-- A cycle in which every reader succeeds. -/
def goodCycle : Results :=
  ⟨12, some ![16, 10, 6, 125 / 2], some ![3, 4], some ![1, 2, 3, 4, 5, 6], some ![200, 2]⟩

/-- A cycle in which every reader fails. -/
def failedCycle : Results := ⟨-1, none, none, none, none⟩

/-- The default configuration over a good and a failed cycle. -/
theorem gauges_track_readers_default :
    (updates (mainLoop defaultConfig [goodCycle, failedCycle])
        (initMetrics (fun _ => true) defaultConfig).2).prom.exposed "memory_used" =
      some ⟨"memory_used", "Memoria en uso", some 10⟩ := by
  have hinit : (initMetrics (fun _ => true) defaultConfig).1 = .success := by decide +kernel
  have h := (gauges_track_readers (fun _ => true) defaultConfig _ (Prod.ext hinit rfl)
    [goodCycle, failedCycle]).1 _ List.prefix_rfl "memory_used" ⟨.memory, (1 : Fin 4)⟩
    (by decide +kernel)
  exact h

end Monitor
