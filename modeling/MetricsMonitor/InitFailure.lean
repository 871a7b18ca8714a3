/-
**What the main loop does after an initialisation that has failed.**

`init_metrics` returns `EXIT_FAILURE` when the mutex, the registry or a gauge cannot be created,
and `main` does not look at the result.  Gauges are registered after all of them have been created,
so a failure leaves nothing registered; the main loop samples all the same.

* `Monitor.InitAction.creates`, `Monitor.AllCreated` — the calls whose failure is reported;
* `Monitor.initMetrics_failure_iff` — **when `init_metrics` fails**;
* `Monitor.nothingRegistered_of_failure` — what it has registered then;
* `Monitor.aboutEnabled_step`, `Monitor.registeredGauges_step` — what every step of the monitor
  keeps;
* `Monitor.sampled_registered_iff` — **when the main loop sets registered gauges only**.
-/

import MetricsMonitor.UpdateRuns
import MetricsMonitor.InitMetrics

set_option relaxedAutoImplicit false
set_option autoImplicit false

namespace Monitor

/-! ### When `init_metrics` fails -/

/-- The actions whose call makes `init_metrics` return `EXIT_FAILURE` when it fails. -/
def InitAction.creates : InitAction → Bool
  | .mutexInit | .pcrNew | .pcrEnableProcess | .pcrEnableScrape | .gaugeNew _ => true
  | .pcrCheck | .pcrForget | .pcrFree | .pcrReset | .pcrReturn | .gaugeCheck _ | .register _ =>
      false

/-- The mutex, the registry and all required gauges can be created. -/
def AllCreated (works : InitAction → Bool) (config : Config) : Prop :=
  ∀ a ∈ initActions config, a.creates = true → works a = true

/-- The actions of `init_metrics` before the registrations. -/
def createPart (config : Config) : List InitAction :=
  .mutexInit :: pcrActions ++ config.groups.flatMap createActions

variable {works : InitAction → Bool} {config : Config}

/-- A gauge is registered in the default registry, which is live. -/
def Registered (s : Globals) (q : Gauge) : Prop :=
  ∃ a r, s.slots q = some a ∧ s.prom.live? s.prom.registry = some r ∧ a ∈ r.metrics

/-- Nothing is registered anywhere. -/
def NothingRegistered (s : Globals) : Prop := ∀ r ∈ s.prom.registries, r.metrics = []

theorem NothingRegistered.not_registered {s : Globals} (h : NothingRegistered s) (q : Gauge) :
    ¬ Registered s q := by
  rintro ⟨a, r, -, hr, ha⟩
  obtain ⟨i, -, hi⟩ := Option.bind_eq_some_iff.1 (Option.filter_eq_some_iff.1 hr).1
  rw [h r (List.mem_of_getElem? hi)] at ha
  simp at ha

/-- Only a registration registers. -/
theorem nothingRegistered_exec {a : InitAction} (ha : ∀ q, a ≠ .register q) {b : Boot} (ok : Bool)
    (h : NothingRegistered b.globals) : NothingRegistered (a.exec ok b).2.globals := by
  cases a with
  | mutexInit | pcrCheck | pcrEnableProcess | pcrEnableScrape | pcrReturn | gaugeCheck => exact h
  | pcrNew =>
      cases ok with
      | false => exact h
      | true =>
          intro r hr
          rcases List.mem_append.1 hr with hr | hr
          · exact h r hr
          · rw [List.mem_singleton.1 hr]
  | pcrForget | pcrReset =>
      simp only [InitAction.exec]
      split
      · exact h
      · exact h
  | pcrFree =>
      simp only [InitAction.exec]
      split
      · split
        · exact h
        · rename_i i _
          intro r hr
          obtain ⟨j, hj⟩ := List.mem_iff_getElem?.1 hr
          simp only [Boot.setProm] at hj
          rw [List.getElem?_modify] at hj
          obtain ⟨r', hr', rfl⟩ := Option.map_eq_some_iff.1 hj
          have hempty := h r' (List.mem_of_getElem? hr')
          split
          · exact hempty
          · exact hempty
      · exact h
  | gaugeNew q => cases ok <;> exact h
  | register q => exact absurd rfl (ha q)

/-- How an action ends `init_metrics`: registrations exit, all others report a failure. -/
theorem exec_eq_some {a : InitAction} {ok : Bool} {b : Boot} {r : InitResult}
    (h : (a.exec ok b).1 = some r) :
    r = .exited ∧ (∃ q, a = .register q) ∨ r = .failure ∧ ∀ q, a ≠ .register q := by
  cases a with
  | mutexInit | pcrCheck | pcrReturn | gaugeCheck =>
      simp only [InitAction.exec, Option.ite_none_left_eq_some, Option.ite_none_right_eq_some,
        Option.some_inj] at h
      exact Or.inr ⟨h.2.symm, by simp⟩
  | pcrNew =>
      cases ok with
      | false => exact Or.inr ⟨(Option.some_inj.1 h).symm, by simp⟩
      | true => simp [InitAction.exec] at h
  | pcrEnableProcess | pcrEnableScrape | pcrForget | pcrFree | pcrReset | gaugeNew =>
      simp [InitAction.exec] at h
  | register q =>
      simp only [InitAction.exec] at h
      split at h
      · exact Or.inl ⟨(Option.some_inj.1 h).symm, q, rfl⟩
      · simp at h

/-- The actions after a part that has succeeded. -/
theorem runInit_append (l₁ l₂ : List InitAction) (b : Boot) :
    runInit works (l₁ ++ l₂) b =
      match runInit works l₁ b with
      | (.success, b') => runInit works l₂ b'
      | p => p := by
  induction l₁ generalizing b with
  | nil => rfl
  | cons a l₁ ih =>
      simp only [List.cons_append, runInit]
      cases hexec : a.exec (works a) b with
      | mk r b₁ =>
          cases r with
          | none => exact ih b₁
          | some r =>
              rcases exec_eq_some (congrArg Prod.fst hexec) with ⟨rfl, -⟩ | ⟨rfl, -⟩
              · rfl
              · rfl

/-- Actions other than registrations register nothing and do not end the process. -/
theorem runInit_of_not_register (works : InitAction → Bool) {l : List InitAction}
    (hl : ∀ a ∈ l, ∀ q, a ≠ .register q) (b : Boot) (h : NothingRegistered b.globals) :
    (runInit works l b).1 ≠ .exited ∧ NothingRegistered (runInit works l b).2.globals := by
  induction l generalizing b with
  | nil => exact ⟨by simp [runInit], h⟩
  | cons a l ih =>
      have ha := hl a (List.mem_cons_self ..)
      have hnext := nothingRegistered_exec ha (works a) h
      simp only [runInit]
      cases hexec : a.exec (works a) b with
      | mk r b₁ =>
          rw [hexec] at hnext
          cases r with
          | none => exact ih (fun a' ha' => hl a' (List.mem_cons_of_mem a ha')) b₁ hnext
          | some r =>
              rcases exec_eq_some (congrArg Prod.fst hexec) with ⟨-, q, hq⟩ | ⟨rfl, -⟩
              · exact absurd hq (ha q)
              · exact ⟨by simp, hnext⟩

/-- Registrations do not make `init_metrics` report a failure. -/
theorem runInit_register_ne_failure (works : InitAction → Bool) (l : List Gauge) (b : Boot) :
    (runInit works (l.map .register) b).1 ≠ .failure := by
  induction l generalizing b with
  | nil => simp [runInit]
  | cons q l ih =>
      simp only [List.map_cons, runInit]
      cases hexec : (InitAction.register q).exec (works (.register q)) b with
      | mk r b₁ =>
          cases r with
          | none => exact ih b₁
          | some r =>
              rcases exec_eq_some (congrArg Prod.fst hexec) with ⟨rfl, -⟩ | ⟨-, hne⟩
              · simp
              · exact absurd rfl (hne q)

/-- With all calls of `pcr_default_init` successful the creations follow. -/
theorem runInit_pcr_of_works (rest : List InitAction) (hmutex : works .mutexInit = true)
    (hnew : works .pcrNew = true) (hprocess : works .pcrEnableProcess = true)
    (hscrape : works .pcrEnableScrape = true) :
    ∃ b, Shape [] (fun _ => none) [] b.globals ∧
      runInit works (.mutexInit :: pcrActions ++ rest) .start = runInit works rest b := by
  refine ⟨⟨⟨⟨[], [⟨true, []⟩], some 0, none⟩, fun _ => none, fun _ => some 0⟩, false, some 0⟩,
    ⟨rfl, by simp, rfl, rfl⟩, ?_⟩
  simp [pcrActions, runInit, InitAction.exec, hmutex, hnew, hprocess, hscrape, Boot.start,
    Globals.boot, Prom.boot, Boot.setProm]

/-- With all calls of `prom_gauge_new` successful the checks pass. -/
theorem runInit_create_of_works {E : List Gauge} {registered : List ℕ} {b : Boot}
    (gs : List Group) (h : Shape E (fun _ => none) registered b.globals)
    (hnew : (E ++ gs.flatMap Group.gauges).Nodup)
    (hworks : ∀ q ∈ gs.flatMap Group.gauges, works (.gaugeNew q) = true) :
    (runInit works (gs.flatMap createActions) b).1 = .success := by
  induction gs generalizing E b with
  | nil => rfl
  | cons g gs ih =>
      rw [List.flatMap_cons, ← List.append_assoc] at hnew
      have hgauges : ∀ q ∈ g.gauges, works (.gaugeNew q) = true :=
        fun q hq => hworks q (List.mem_append_left _ hq)
      have hshape := createAll_shape h (List.Nodup.of_append_left hnew) hgauges
      have hcheck : (g.gauges.any fun q =>
          decide ((createAll works g.gauges b).globals.slots q = none)) = false := by
        rw [List.any_eq_false]
        intro q hq
        simp [hshape.slots, hq]
      rw [List.flatMap_cons, createActions, List.append_assoc, runInit_gaugeNew]
      simp only [List.singleton_append, runInit, InitAction.exec, hcheck, Bool.false_eq_true,
        if_false]
      exact ih hshape hnew fun q hq => hworks q (List.mem_append_right _ hq)

theorem createPart_not_register (config : Config) :
    ∀ a ∈ createPart config, ∀ q, a ≠ .register q := by
  intro a ha q
  rintro rfl
  simp [createPart, pcrActions, createActions] at ha

/-- **When the creations succeed.** -/
theorem createPart_success_iff (works : InitAction → Bool) (config : Config) :
    (runInit works (createPart config) .start).1 = .success ↔ AllCreated works config := by
  constructor
  · intro h a ha hcreates
    cases hrun : runInit works (createPart config) .start with
    | mk r b' =>
        rw [hrun] at h
        obtain rfl : r = .success := h
        obtain ⟨⟨hmutex, hnew, hprocess, hscrape⟩, b, hb, hrest⟩ := runInit_pcr hrun
        rw [← List.append_nil (config.groups.flatMap createActions)] at hrest
        obtain ⟨hgauges, -⟩ :=
          runInit_create config.groups hb (by rw [List.nil_append]; exact config.nodup_gauges) hrest
        cases a with
        | mutexInit => exact hmutex
        | pcrNew => exact hnew
        | pcrEnableProcess => exact hprocess
        | pcrEnableScrape => exact hscrape
        | gaugeNew q =>
            refine hgauges q ?_
            simpa [initActions, pcrActions, createActions, registerActions] using ha
        | pcrCheck | pcrForget | pcrFree | pcrReset | pcrReturn | gaugeCheck | register =>
            simp [InitAction.creates] at hcreates
  · intro h
    have hcall (a : InitAction) (ha : a ∈ pcrActions ∨ a = .mutexInit) (hcreates : a.creates) :
        works a = true := by
      refine h a ?_ hcreates
      rcases ha with ha | rfl
      · simp [initActions, ha]
      · simp [initActions]
    obtain ⟨b, hb, hrun⟩ := runInit_pcr_of_works (config.groups.flatMap createActions)
      (hcall .mutexInit (by simp) rfl) (hcall .pcrNew (by simp [pcrActions]) rfl)
      (hcall .pcrEnableProcess (by simp [pcrActions]) rfl)
      (hcall .pcrEnableScrape (by simp [pcrActions]) rfl)
    rw [createPart, hrun]
    refine runInit_create_of_works config.groups hb
      (by rw [List.nil_append]; exact config.nodup_gauges) fun q hq => h _ ?_ rfl
    obtain ⟨g, hg, hq⟩ := List.mem_flatMap.1 hq
    have hcreate : .gaugeNew q ∈ createActions g :=
      List.mem_append_left _ (List.mem_map.2 ⟨q, hq, rfl⟩)
    exact List.mem_append_left _ (List.mem_append_right _ (List.mem_flatMap.2 ⟨g, hg, hcreate⟩))

theorem nothingRegistered_boot : NothingRegistered Globals.boot := by
  intro r hr
  simp [Globals.boot, Prom.boot] at hr

/-- **When `init_metrics` fails**, and what it has registered then. -/
theorem initMetrics_failure_iff (works : InitAction → Bool) (config : Config) :
    ((initMetrics works config).1 = .failure ↔ ¬ AllCreated works config) ∧
      ((initMetrics works config).1 = .failure →
        NothingRegistered (initMetrics works config).2) := by
  have hactions : initActions config =
      createPart config ++ config.gauges.map .register := by
    rw [initActions, flatMap_registerActions]
    rfl
  have hpart := createPart_success_iff works config
  obtain ⟨hexited, hnothing⟩ :=
    runInit_of_not_register works (createPart_not_register config) .start nothingRegistered_boot
  simp only [initMetrics, hactions, runInit_append]
  cases hrun : runInit works (createPart config) .start with
  | mk r b =>
      rw [hrun] at hpart hexited hnothing
      cases r with
      | exited => exact absurd rfl hexited
      | failure => exact ⟨by simpa using hpart, fun _ => hnothing⟩
      | success =>
          have hne := runInit_register_ne_failure works config.gauges b
          exact ⟨by simp [hne, hpart.1 rfl], fun h => absurd h hne⟩

/-! ### What every step of the monitor keeps -/

/-- The pointers to the gauges and the registries are those of `globals`. -/
structure RegistryOf (globals : Globals) (s : Process) : Prop where
  slots : s.globals.slots = globals.slots
  registry : s.globals.prom.registry = globals.prom.registry
  registries : s.globals.prom.registries = globals.prom.registries

theorem RegistryOf.registered_iff {globals : Globals} {s : Process} (h : RegistryOf globals s)
    (q : Gauge) : Registered s.globals q ↔ Registered globals q := by
  simp only [Registered, Prom.live?, h.slots, h.registry, h.registries]

theorem registryOf_finish {globals : Globals} {s : Process} (h : RegistryOf globals s) (c : Call)
    (todo : List Action) : RegistryOf globals (s.finish c todo) := by
  rw [Process.finish]
  cases c.result with
  | none => exact ⟨h.slots, h.registry, h.registries⟩
  | some usage => exact ⟨h.slots, h.registry, h.registries⟩

/-- After `init_metrics` no step of the monitor creates or registers a gauge. -/
theorem registryOf_step {globals : Globals} {s t : Process} {l : ProcessLabel}
    (hI : RegistryOf globals s) (h : (process config).step s l = some t) :
    RegistryOf globals t := by
  cases process_move h with
  | loop _ _ hloop =>
      cases mainStep_move hloop with
      | cycle | fork | reap | block | lock | unlock | sleep =>
          exact ⟨hI.slots, hI.registry, hI.registries⟩
      | @returned a todo c prev =>
          exact registryOf_finish (s := { s with prev := prev })
            ⟨hI.slots, hI.registry, hI.registries⟩ c todo
      | set =>
          exact ⟨hI.slots, (promGaugeSet_registry ..).trans hI.registry,
            (promGaugeSet_registries ..).trans hI.registries⟩
  | server => exact ⟨hI.slots, hI.registry, hI.registries⟩
  | @handler u env f rest t _ _ _ hstep =>
      obtain ⟨-, hglobals, -, -, -⟩ := hstep ▸ s.handlerStep_loop u f rest
      exact ⟨hglobals ▸ hI.slots, hglobals ▸ hI.registry, hglobals ▸ hI.registries⟩
  | @usr1 u =>
      have hanswer : RegistryOf globals s.answer := ⟨hI.slots, hI.registry, hI.registries⟩
      rcases Process.usr1_eq u s with ⟨todo, -, -, heq⟩ | ⟨-, heq⟩
      · exact heq ▸ registryOf_finish hanswer _ todo
      · exact heq ▸ hanswer
  | deliver => exact ⟨hI.slots, hI.registry, hI.registries⟩
  | child => exact ⟨hI.slots, hI.registry, hI.registries⟩

/-- What every run keeps. -/
theorem registryOf_run {globals : Globals} {temp : TempFile} {server : ServerState}
    {ls : List ProcessLabel} {s : Process}
    (h : (process config).run (.start globals temp server) ls = some s) : RegistryOf globals s :=
  Machine.run_invariant (p := fun _ _ => True) (fun _ _ _ hI _ => registryOf_step hI)
    ⟨rfl, rfl, rfl⟩ (Machine.along_true _ ls) h

/-- The group an action of the main loop is about. -/
def Action.group? : Action → Option Group
  | .update g => some g
  | .waitpid _ | .waiting _ | .scan _ => some .processes
  | .writer (.set q _) => some q.1
  | .writer .lock | .writer .unlock | .sleep => none

/-- What is left of the current cycle is about required groups only. -/
def AboutEnabled (config : Config) (todo : List Action) : Prop :=
  ∀ a ∈ todo, ∀ g, a.group? = some g → config.enabled g = true

theorem AboutEnabled.cons {a : Action} {todo : List Action}
    (ha : ∀ g, a.group? = some g → config.enabled g = true) (h : AboutEnabled config todo) :
    AboutEnabled config (a :: todo) :=
  List.forall_mem_cons.2 ⟨ha, h⟩

theorem aboutEnabled_cycleActions (config : Config) :
    AboutEnabled config (cycleActions config) := by
  intro a ha g hg
  simp only [cycleActions, List.mem_append, List.mem_map, List.mem_singleton] at ha
  rcases ha with ⟨g', hg', rfl⟩ | rfl
  · obtain rfl : g' = g := by simpa [Action.group?] using hg
    exact Config.mem_groups.1 hg'
  · simp [Action.group?] at hg

/-- The gauges to be set are those of the group that has been read. -/
theorem aboutEnabled_finish {todo : List Action} (h : AboutEnabled config todo) {c : Call}
    (hc : config.enabled c.group = true) (s : Process) :
    AboutEnabled config (s.finish c todo).todo := by
  rw [Process.finish]
  cases c.result with
  | none => exact h
  | some usage =>
      intro a ha g hg
      rcases List.mem_append.1 ha with ha | ha
      · obtain ⟨w, hw, rfl⟩ := List.mem_map.1 ha
        simp only [writerActions, List.mem_flatMap, List.mem_cons, List.not_mem_nil, or_false] at hw
        obtain ⟨i, -, rfl | rfl | rfl⟩ := hw
        · simp [Action.group?] at hg
        · obtain rfl : c.group = g := by simpa [Action.group?] using hg
          exact hc
        · simp [Action.group?] at hg
      · exact h a ha g hg

theorem aboutEnabled_mainStep {env : Env} {s t : Process} (hI : AboutEnabled config s.todo)
    (h : s.mainStep config env = some t) : AboutEnabled config t.todo := by
  have htail {a : Action} {todo : List Action} (htodo : s.todo = a :: todo) :
      (∀ g, a.group? = some g → config.enabled g = true) ∧ AboutEnabled config todo :=
    List.forall_mem_cons.1 (htodo ▸ hI)
  unfold Process.mainStep at h
  split at h
  · obtain rfl := Option.some_inj.1 h
    exact aboutEnabled_cycleActions config
  · rename_i g todo htodo
    obtain ⟨hg, htodo⟩ := htail htodo
    split at h
    · rename_i i hi
      obtain rfl := Option.some_inj.1 h
      have hgroup := group_read_input FloatingPoint.toDouble s.prev ⟨env.proc, none⟩ g
      rw [Inputs.input, hi, Option.getD_some] at hgroup
      exact aboutEnabled_finish htodo (hgroup ▸ hg g rfl) _
    · have hprocesses : config.enabled .processes = true := by
        rename_i hi
        cases g with
        | processes => exact hg .processes rfl
        | cpu | memory | disk | network => simp [Proc.input] at hi
      split at h
      · obtain rfl := Option.some_inj.1 h
        exact htodo.cons fun g hg' => Option.some_inj.1 hg' ▸ hprocesses
      · obtain rfl := Option.some_inj.1 h
        exact aboutEnabled_finish htodo (c := .processes none) hprocesses s
  · rename_i k todo htodo
    obtain ⟨hg, htodo⟩ := htail htodo
    split at h
    · obtain rfl := Option.some_inj.1 h
      exact htodo.cons hg
    · obtain rfl := Option.some_inj.1 h
      exact htodo.cons hg
  · rename_i k todo htodo
    obtain ⟨hg, htodo⟩ := htail htodo
    split at h
    · obtain rfl := Option.some_inj.1 h
      exact htodo.cons hg
    · simp at h
  · rename_i status todo htodo
    obtain ⟨hg, htodo⟩ := htail htodo
    obtain rfl := Option.some_inj.1 h
    exact aboutEnabled_finish htodo (c := .processes _) (hg .processes rfl) s
  · rename_i todo htodo
    split at h
    · simp at h
    · obtain rfl := Option.some_inj.1 h
      exact (htail htodo).2
  · rename_i q value todo htodo
    obtain rfl := Option.some_inj.1 h
    exact (htail htodo).2
  · rename_i todo htodo
    obtain rfl := Option.some_inj.1 h
    exact (htail htodo).2
  · rename_i todo htodo
    obtain rfl := Option.some_inj.1 h
    exact (htail htodo).2

theorem aboutEnabled_step {s t : Process} {l : ProcessLabel} (hI : AboutEnabled config s.todo)
    (h : (process config).step s l = some t) : AboutEnabled config t.todo := by
  cases process_move h with
  | loop _ _ hloop => exact aboutEnabled_mainStep hI hloop
  | server | deliver | child => exact hI
  | @handler u env f rest t _ _ _ hstep =>
      obtain ⟨htodo, -, -, -, -⟩ := hstep ▸ s.handlerStep_loop u f rest
      exact htodo ▸ hI
  | @usr1 u =>
      rcases Process.usr1_eq u s with ⟨todo, -, hblocked, heq⟩ | ⟨-, heq⟩
      · -- the interrupted call was about the processes
        obtain ⟨-, k, htodo, -⟩ := Process.blocked_eq_some.1 hblocked
        obtain ⟨hg, hrest⟩ := List.forall_mem_cons.1 (htodo ▸ hI)
        exact heq ▸ aboutEnabled_finish hrest (c := .processes none) (hg .processes rfl) s.answer
      · exact heq ▸ hI

/-! ### The gauges that the main loop sets -/

/-- The next step passes this gauge to `prom_gauge_set`. -/
def Passes (s : Process) (l : ProcessLabel) (q : Gauge) : Prop :=
  (∃ env, l = .run .main env) ∧ s.exited = false ∧ s.frames .main = [] ∧
    ∃ value todo, s.todo = .writer (.set q value) :: todo

/-- A main loop with a required group comes to a gauge. -/
theorem exists_run_passes (config : Config) (hgroups : config.groups ≠ []) (globals : Globals) :
    ∃ ls s q, (process config).run (.start globals .absent .serving) ls = some s ∧
      Passes s (.advance .main) q := by
  obtain ⟨g, gs, heq⟩ := List.exists_cons_of_ne_nil hgroups
  let start : Process := .start globals .absent .serving
  let cycle : Process := { start with todo := cycleActions config }
  have hcycle : (process config).step start (.advance .main) = some cycle := rfl
  have htodo : cycle.todo = .update g :: (gs.map .update ++ [.sleep]) := by
    simp [cycle, cycleActions, heq]
  obtain ⟨ls, c, t, hrun, hsome, -, hsame⟩ :=
    exists_run_update (s := cycle) rfl rfl htodo
  obtain ⟨usage, husage⟩ := Option.isSome_iff_exists.1 hsome
  obtain ⟨q, value, ws, hws⟩ := writerActions_eq_cons c.group usage
  let finished : Process := t.finish c (gs.map .update ++ [.sleep])
  have hkept : cycle.SameLock finished := hsame.trans (t.finish_sameLock c _)
  have hfinished : finished.todo = .writer .lock :: .writer (.set q value) ::
      (ws.map .writer ++ (gs.map .update ++ [.sleep])) := by
    simp [finished, Process.finish, husage, hws]
  let locked : Process :=
    { finished with
      held := true
      todo := .writer (.set q value) :: (ws.map .writer ++ (gs.map .update ++ [.sleep])) }
  have hlock : (process config).step finished (.advance .main) = some locked := by
    rw [ProcessLabel.advance, step_run_main hkept.exited (by rw [hkept.frames]; rfl),
      Process.mainStep, hfinished]
    simp [hkept.held, cycle, start, Process.start, locked]
  refine ⟨.advance .main :: (ls ++ [.advance .main]), locked, q, ?_, ⟨.blank, rfl⟩,
    hkept.exited, congrFun hkept.frames .main, value, _, rfl⟩
  rw [Machine.run_cons hcycle, Machine.run_append hrun, Machine.run_singleton, hlock]

/-- After a success every required gauge is registered. -/
theorem Shape.registered {s : Globals}
    (h : Shape config.gauges (fun _ => none) (config.gauges.map config.gauges.idxOf) s)
    {q : Gauge} (hq : q ∈ config.gauges) : Registered s q := by
  refine ⟨config.gauges.idxOf q, ⟨true, config.gauges.map config.gauges.idxOf⟩, ?_, ?_,
    List.mem_map_of_mem hq⟩
  · rw [h.slots, if_pos hq]
  · simp [Prom.live?, h.registry, h.registries]

/-- **When the main loop sets registered gauges only.**  Unless a registration has ended the
process, every gauge that is ever passed to `prom_gauge_set` is registered exactly when no group is
required or the mutex, the registry and all required gauges could be created. -/
theorem sampled_registered_iff (works : InitAction → Bool) (config : Config)
    (h : (initMetrics works config).1 ≠ .exited) :
    (∀ temp server ls, (process config).Along (fun s l => ∀ q, Passes s l q →
        Registered s.globals q) (.start (initMetrics works config).2 temp server) ls) ↔
      config.groups = [] ∨ AllCreated works config := by
  obtain ⟨hfailure, hnothing⟩ := initMetrics_failure_iff works config
  constructor
  · intro hall
    by_contra hnot
    obtain ⟨hgroups, hcreated⟩ := not_or.1 hnot
    obtain ⟨ls, s, q, hrun, hpasses⟩ :=
      exists_run_passes config hgroups (initMetrics works config).2
    have hlast := ((Machine.along_append hrun).1
      (hall .absent .serving (ls ++ [.advance .main]))).2.1 q hpasses
    exact (hnothing (hfailure.2 hcreated)).not_registered q
      (((registryOf_run hrun).registered_iff q).1 hlast)
  · intro hcond temp server ls
    refine Machine.along_of_invariant (p := fun _ _ => True)
      (I := fun s => RegistryOf (initMetrics works config).2 s ∧ AboutEnabled config s.todo)
      (fun s l t hI _ hstep => ⟨registryOf_step hI.1 hstep, aboutEnabled_step hI.2 hstep⟩) ?_
      ⟨⟨rfl, rfl, rfl⟩, by simp [AboutEnabled, Process.start]⟩ (Machine.along_true _ ls)
    rintro s l ⟨hregistry, habout⟩ - q ⟨-, -, -, value, todo, htodo⟩
    have hq : config.enabled q.1 = true :=
      habout (.writer (.set q value)) (by rw [htodo]; exact List.mem_cons_self ..) q.1 rfl
    rcases hcond with hgroups | hcreated
    · have hmem := Config.mem_groups.2 hq
      simp [hgroups] at hmem
    · -- neither a failure nor an exit, so everything is registered
      have hsuccess : (initMetrics works config).1 = .success := by
        cases hresult : (initMetrics works config).1 with
        | success => rfl
        | failure => exact absurd hcreated (hfailure.1 hresult)
        | exited => exact absurd hresult h
      have hrun : initMetrics works config = (.success, (initMetrics works config).2) := by
        rw [← hsuccess]
      have hshape := initMetrics_shape hrun
      exact (hregistry.registered_iff q).2 (hshape.registered (Config.mem_gauges.2 hq))

/-- The mutex cannot be created. -/
def mutexFails : InitAction → Bool := fun a => a ≠ .mutexInit

theorem sampled_registered_mutexFails :
    (∀ temp server ls, (process cpuConfig).Along (fun s l => ∀ q, Passes s l q →
        Registered s.globals q) (.start (initMetrics mutexFails cpuConfig).2 temp server) ls) ↔
      cpuConfig.groups = [] ∨ AllCreated mutexFails cpuConfig :=
  sampled_registered_iff mutexFails cpuConfig (by decide +kernel)

/-- The main loop samples the CPU although nothing has been registered. -/
theorem sampled_not_registered :
    ¬ ∀ works config, (initMetrics works config).1 ≠ .exited → ∀ temp server ls,
      (process config).Along (fun s l => ∀ q, Passes s l q → Registered s.globals q)
        (.start (initMetrics works config).2 temp server) ls := by
  intro h
  obtain ⟨ls, s, q, hrun, hpasses⟩ := exists_run_passes cpuConfig (by decide)
    (initMetrics mutexFails cpuConfig).2
  have hlast := ((Machine.along_append hrun).1 (h mutexFails cpuConfig (by decide +kernel) .absent
    .serving (ls ++ [.advance .main]))).2.1 q hpasses
  have hnothing : NothingRegistered (initMetrics mutexFails cpuConfig).2 :=
    nothingRegistered_boot
  exact hnothing.not_registered q (((registryOf_run hrun).registered_iff q).1 hlast)

end Monitor
