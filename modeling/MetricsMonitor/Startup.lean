/-
**Starting up: the server thread against `init_metrics`.**

`main` creates the server thread and then calls `init_metrics`; the server thread copies
`PROM_COLLECTOR_REGISTRY` into `PROM_ACTIVE_REGISTRY` once and serves requests from the copy.
Nothing orders the copy after the assignment in `pcr_init`.  The machine of this module
interleaves the actions of `init_metrics` with the steps of the server thread in every way.

* `Monitor.startup` — the machine;
* `Monitor.Phase` — what the registry looks like at each point of `init_metrics`;
* `Monitor.startupInv_step` — the invariant of the machine;
* `Monitor.activeRegistry_live_iff` — **once `init_metrics` has succeeded, the active registry is
  the live default registry exactly when the copy was made while the default registry existed**;
* `Monitor.activeRegistry_null` — a run in which every request is answered from a null registry.
-/

import MetricsMonitor.Machine
import MetricsMonitor.ExposeMetrics

set_option relaxedAutoImplicit false
set_option autoImplicit false

namespace Monitor

/-! ### The machine -/

/-- Where `main` is. -/
inductive MainPc
  /-- Before `pthread_create`. -/
  | create
  /-- In `init_metrics`, with these actions left. -/
  | init (todo : List InitAction)
  /-- `init_metrics` has returned; its result is ignored and the main loop follows. -/
  | returned (r : InitResult)
  /-- The process has ended. -/
  | ended
  deriving DecidableEq

/-- Where the server thread is, in `expose_metrics`. -/
inductive ServerPc
  | absent
  /-- Before `promhttp_set_active_collector_registry(NULL)`. -/
  | setActive
  /-- Before `promhttp_start_daemon`. -/
  | startDaemon
  | serving
  /-- The daemon did not start and the thread has returned. -/
  | returned
  deriving DecidableEq

/-- Whether the set-active step has been executed. -/
def ServerPc.pastSetActive : ServerPc → Bool
  | .absent | .setActive => false
  | .startDaemon | .serving | .returned => true

/-- The state of the process while it starts. -/
structure Startup where
  main : MainPc
  server : ServerPc
  boot : Boot
  /-- The bodies of the requests served so far, the latest first. -/
  bodies : List Body

/-- The state `main` starts in, after the configuration has been read. -/
def Startup.start : Startup := ⟨.create, .absent, .start, []⟩

/-- libprom in a state. -/
abbrev Startup.prom (s : Startup) : Prom := s.boot.globals.prom

/-- What a request for `/metrics` is answered with in a state, in `promhttp_handler`. -/
def Startup.respond (s : Startup) : Body := pcrBridge s.prom.active s.prom

/-- Who moves, and whether the outside call it makes succeeds. -/
inductive StartupLabel
  | main (ok : Bool)
  | server (ok : Bool)
  | get
  deriving DecidableEq

/-- The next step of `main`. -/
def Startup.mainStep (config : Config) (ok : Bool) (s : Startup) : Option Startup :=
  match s.main with
  | .create =>
      if ok then some { s with main := .init (initActions config), server := .setActive }
      else some { s with main := .ended }
  | .init [] => some { s with main := .returned .success }
  | .init (a :: todo) =>
      match a.exec ok s.boot with
      | (none, b) => some { s with main := .init todo, boot := b }
      | (some .exited, b) => some { s with main := .ended, boot := b }
      | (some r, b) => some { s with main := .returned r, boot := b }
  | .returned _ | .ended => none

/-- The next step of the server thread. -/
def Startup.serverStep (ok : Bool) (s : Startup) : Option Startup :=
  match s.server with
  | .setActive =>
      some { s with
        server := .startDaemon
        boot := s.boot.setProm (promhttpSetActiveCollectorRegistry none s.prom) }
  | .startDaemon => some { s with server := if ok then .serving else .returned }
  | .absent | .serving | .returned => none

/-- The process while it starts: `main`, the server thread, and requests once it serves. -/
def startup (config : Config) : Machine Startup StartupLabel where
  init s := s = .start
  step s l :=
    if s.main = .ended then none
    else
      match l with
      | .main ok => s.mainStep config ok
      | .server ok => s.serverStep ok
      | .get =>
          if s.server = .serving then some { s with bodies := s.respond :: s.bodies } else none

/-! ### The registry during `init_metrics` -/

/-- No registry has been created yet. -/
def Fresh (p : Prom) : Prop := p.registries = [] ∧ p.registry = none

/-- The default registry exists and is live. -/
def Made (p : Prom) : Prop := (∃ ms, p.registries = [⟨true, ms⟩]) ∧ p.registry = some 0

/-- In the error path of `pcr_init`: untouched without an error, forgotten with one. -/
def Torn (b : Boot) : Prop :=
  b.err = false ∧ Made b.globals.prom ∨ b.err = true ∧ b.globals.prom.registry = none

/-- The actions of `init_metrics` that follow those of `pcr_default_init`. -/
def gaugeActions (config : Config) : List InitAction :=
  config.groups.flatMap createActions ++ config.groups.flatMap registerActions

/-- **The registry at each point of `init_metrics`**, given by the actions left. -/
inductive Phase (config : Config) : List InitAction → Boot → Prop
  | mutexInit {b} (h : Fresh b.globals.prom) :
      Phase config (.mutexInit :: pcrActions ++ gaugeActions config) b
  | pcrCheck {b} (h : Fresh b.globals.prom) : Phase config (pcrActions ++ gaugeActions config) b
  | pcrNew {b} (h : Fresh b.globals.prom) :
      Phase config (pcrActions.drop 1 ++ gaugeActions config) b
  | pcrEnableProcess {b} (h : Made b.globals.prom) :
      Phase config (pcrActions.drop 2 ++ gaugeActions config) b
  | pcrEnableScrape {b} (h : Made b.globals.prom) :
      Phase config (pcrActions.drop 3 ++ gaugeActions config) b
  | pcrForget {b} (h : Made b.globals.prom) :
      Phase config (pcrActions.drop 4 ++ gaugeActions config) b
  | pcrFree {b} (h : Torn b) : Phase config (pcrActions.drop 5 ++ gaugeActions config) b
  | pcrReset {b} (h : Torn b) : Phase config (pcrActions.drop 6 ++ gaugeActions config) b
  | pcrReturn {b} (h : Torn b) : Phase config (pcrActions.drop 7 ++ gaugeActions config) b
  | gauges {todo b} (htodo : todo <:+ gaugeActions config) (h : Made b.globals.prom) :
      Phase config todo b

/-- An action on gauges: creation, check or registration. -/
def InitAction.OnGauges : InitAction → Prop
  | .gaugeNew _ | .gaugeCheck _ | .register _ => True
  | _ => False

theorem onGauges_of_mem_gaugeActions {config : Config} {a : InitAction}
    (h : a ∈ gaugeActions config) : a.OnGauges := by
  simp only [gaugeActions, createActions, registerActions, List.mem_append, List.mem_flatMap,
    List.mem_map, List.mem_singleton] at h
  rcases h with ⟨g, -, ⟨q, -, rfl⟩ | rfl⟩ | ⟨g, -, q, -, rfl⟩ <;> trivial

theorem made_promGaugeNew {p : Prom} (h : Made p) (ok : Bool) (name help : String) :
    Made (promGaugeNew ok name help p).2 := by
  unfold promGaugeNew
  split
  · exact h
  · exact h

theorem made_pcrMustRegisterMetric {p p' : Prom} (h : Made p) {ok : Bool} {metric : Option ℕ}
    (hreg : pcrMustRegisterMetric ok metric p = some p') : Made p' := by
  obtain ⟨⟨ms, hms⟩, hr⟩ := h
  obtain ⟨a, i, r, -, hi, hget, rfl⟩ := pcrMustRegisterMetric_eq_some hreg
  obtain rfl : i = 0 := Option.some_inj.1 (hi.symm.trans hr)
  rw [hms, List.getElem?_cons_zero, Option.some_inj] at hget
  subst hget
  exact ⟨⟨ms ++ [a], by simp [hms]⟩, hr⟩

/-- The actions on gauges keep the registry. -/
theorem made_exec {a : InitAction} (ha : a.OnGauges) {ok : Bool} {b b' : Boot}
    {r : Option InitResult} (h : Made b.globals.prom) (hexec : a.exec ok b = (r, b')) :
    Made b'.globals.prom := by
  cases a with
  | gaugeNew q =>
      simp only [InitAction.exec, Prod.mk.injEq] at hexec
      obtain ⟨-, rfl⟩ := hexec
      exact made_promGaugeNew h _ _ _
  | gaugeCheck g =>
      simp only [InitAction.exec, Prod.mk.injEq] at hexec
      exact hexec.2 ▸ h
  | register q =>
      simp only [InitAction.exec] at hexec
      cases hreg : pcrMustRegisterMetric ok (b.globals.slots q) b.globals.prom with
      | none =>
          simp only [hreg, Prod.mk.injEq] at hexec
          exact hexec.2 ▸ h
      | some p =>
          simp only [hreg, Prod.mk.injEq] at hexec
          obtain ⟨-, rfl⟩ := hexec
          exact made_pcrMustRegisterMetric h hreg
  | _ => exact ha.elim

/-- Every action leads from the phase it is performed in to the next one. -/
theorem Phase.exec {config : Config} {a : InitAction} {todo : List InitAction} {b b' : Boot}
    {ok : Bool} (h : Phase config (a :: todo) b) (hexec : a.exec ok b = (none, b')) :
    Phase config todo b' := by
  generalize hl : a :: todo = l at h
  cases h with
  | mutexInit h =>
      obtain ⟨rfl, rfl⟩ := List.cons.inj hl
      simp only [InitAction.exec, Prod.mk.injEq] at hexec
      exact hexec.2 ▸ .pcrCheck h
  | pcrCheck h =>
      obtain ⟨rfl, rfl⟩ := List.cons.inj hl
      simp only [InitAction.exec, Prod.mk.injEq] at hexec
      exact hexec.2 ▸ .pcrNew h
  | pcrNew h =>
      obtain ⟨rfl, rfl⟩ := List.cons.inj hl
      cases ok with
      | false => simp [InitAction.exec] at hexec
      | true =>
          simp only [InitAction.exec, if_true, Prod.mk.injEq, true_and] at hexec
          subst hexec
          exact .pcrEnableProcess ⟨⟨[], by simp [Boot.setProm, h.1]⟩, by simp [Boot.setProm, h.1]⟩
  | pcrEnableProcess h =>
      obtain ⟨rfl, rfl⟩ := List.cons.inj hl
      simp only [InitAction.exec, Prod.mk.injEq, true_and] at hexec
      exact hexec ▸ .pcrEnableScrape h
  | pcrEnableScrape h =>
      obtain ⟨rfl, rfl⟩ := List.cons.inj hl
      simp only [InitAction.exec, Prod.mk.injEq, true_and] at hexec
      exact hexec ▸ .pcrForget h
  | pcrForget h =>
      obtain ⟨rfl, rfl⟩ := List.cons.inj hl
      simp only [InitAction.exec, Prod.mk.injEq, true_and] at hexec
      subst hexec
      refine .pcrFree ?_
      cases herr : b.err with
      | false => exact Or.inl ⟨by simp [herr], by simpa [herr] using h⟩
      | true => exact Or.inr ⟨by simp [herr, Boot.setProm], by simp [herr, Boot.setProm]⟩
  | pcrFree h =>
      obtain ⟨rfl, rfl⟩ := List.cons.inj hl
      simp only [InitAction.exec, Prod.mk.injEq, true_and] at hexec
      subst hexec
      refine .pcrReset ?_
      rcases h with ⟨herr, h⟩ | ⟨herr, h⟩
      · exact Or.inl ⟨by simp [herr], by simpa [herr] using h⟩
      · refine Or.inr ?_
        cases hself : b.self with
        | none => simp [herr, h]
        | some i => simp [herr, h, Boot.setProm]
  | pcrReset h =>
      obtain ⟨rfl, rfl⟩ := List.cons.inj hl
      simp only [InitAction.exec, Prod.mk.injEq, true_and] at hexec
      subst hexec
      refine .pcrReturn ?_
      rcases h with ⟨herr, h⟩ | ⟨herr, h⟩
      · exact Or.inl ⟨by simp [herr], by simpa [herr] using h⟩
      · exact Or.inr ⟨by simp [herr, Boot.setProm], by simp [herr, Boot.setProm]⟩
  | pcrReturn h =>
      obtain ⟨rfl, rfl⟩ := List.cons.inj hl
      simp only [InitAction.exec, Prod.mk.injEq] at hexec
      obtain ⟨hret, rfl⟩ := hexec
      rcases h with ⟨herr, h⟩ | ⟨herr, h⟩
      · exact .gauges (List.suffix_refl _) h
      · simp [herr] at hret
  | gauges htodo h =>
      subst hl
      have ha : a.OnGauges := onGauges_of_mem_gaugeActions (htodo.subset (List.mem_cons_self ..))
      exact .gauges ((List.suffix_cons _ _).trans htodo) (made_exec ha h hexec)

/-- While the default registry is not null, it is the only registry there is. -/
theorem Phase.registry_eq {config : Config} {todo : List InitAction} {b : Boot}
    (h : Phase config todo b) (hne : b.globals.prom.registry ≠ none) :
    b.globals.prom.registry = some 0 := by
  cases h with
  | mutexInit h | pcrCheck h | pcrNew h => exact absurd h.2 hne
  | pcrEnableProcess h | pcrEnableScrape h | pcrForget h => exact h.2
  | pcrFree h | pcrReset h | pcrReturn h =>
      rcases h with ⟨-, h⟩ | ⟨-, h⟩
      · exact h.2
      · exact absurd h hne
  | gauges _ h => exact h.2

theorem Phase.nil {config : Config} {b : Boot} (h : Phase config [] b) :
    Made b.globals.prom := by
  generalize hl : ([] : List InitAction) = l at h
  cases h with
  | gauges _ h => exact h
  | _ => simp [pcrActions] at hl

/-! ### The invariant of the machine -/

/-- The main thread is where its actions left the registry, and the active registry is null until
the server thread has set it. -/
structure StartupInv (config : Config) (s : Startup) : Prop where
  create : s.main = .create → Fresh s.prom ∧ s.server = .absent
  init : ∀ todo, s.main = .init todo → Phase config todo s.boot
  success : s.main = .returned .success → Made s.prom
  active : s.server.pastSetActive = false → s.prom.active = none

theorem startupInv_start (config : Config) : StartupInv config .start where
  create _ := ⟨⟨rfl, rfl⟩, rfl⟩
  init _ h := by simp [Startup.start] at h
  success h := by simp [Startup.start] at h
  active _ := rfl

/-- No action ends `init_metrics` in success; running out of actions does. -/
theorem exec_ne_success (ok : Bool) (a : InitAction) (b : Boot) :
    (a.exec ok b).1 ≠ some .success := by
  cases a with
  | mutexInit | pcrCheck | pcrReturn | gaugeCheck =>
      simp only [InitAction.exec]
      split <;> simp
  | pcrNew => cases ok <;> simp [InitAction.exec]
  | pcrEnableProcess | pcrEnableScrape | pcrForget | pcrFree | pcrReset | gaugeNew =>
      simp [InitAction.exec]
  | register q =>
      simp only [InitAction.exec]
      split <;> simp

/-- **What a step can do.** -/
inductive Startup.Move (config : Config) (s : Startup) : StartupLabel → Startup → Prop
  | create {ok} (hmain : s.main = .create) :
      Move config s (.main ok) { s with main := .init (initActions config), server := .setActive }
  | stop {ok} : Move config s (.main ok) { s with main := .ended }
  | success {ok} (hmain : s.main = .init []) :
      Move config s (.main ok) { s with main := .returned .success }
  | next {ok a todo} (hmain : s.main = .init (a :: todo)) (hnext : (a.exec ok s.boot).1 = none) :
      Move config s (.main ok) { s with main := .init todo, boot := (a.exec ok s.boot).2 }
  | abort {ok a todo pc} (hmain : s.main = .init (a :: todo))
      (hpc : pc = .returned .failure ∨ pc = .ended) :
      Move config s (.main ok) { s with main := pc, boot := (a.exec ok s.boot).2 }
  | setActive {ok} (hserver : s.server = .setActive) :
      Move config s (.server ok) { s with
        server := .startDaemon
        boot := s.boot.setProm (promhttpSetActiveCollectorRegistry none s.prom) }
  | startDaemon {ok pc} (hserver : s.server = .startDaemon) (hpc : pc.pastSetActive = true) :
      Move config s (.server ok) { s with server := pc }
  | get (hserver : s.server = .serving) :
      Move config s .get { s with bodies := s.respond :: s.bodies }

theorem startup_mainStep_move {config : Config} {ok : Bool} {s t : Startup}
    (h : s.mainStep config ok = some t) : s.Move config (.main ok) t := by
  unfold Startup.mainStep at h
  split at h
  · split at h
    · exact Option.some_inj.1 h ▸ .create ‹_›
    · exact Option.some_inj.1 h ▸ .stop
  · exact Option.some_inj.1 h ▸ .success ‹_›
  · rename_i a todo hmain
    have hne := exec_ne_success ok a s.boot
    have hnext : (a.exec ok s.boot).1 = none →
        s.Move config (.main ok) { s with main := .init todo, boot := (a.exec ok s.boot).2 } :=
      fun hnone => .next hmain hnone
    have habort : ∀ pc, pc = .returned .failure ∨ pc = .ended →
        s.Move config (.main ok) { s with main := pc, boot := (a.exec ok s.boot).2 } :=
      fun pc hpc => .abort hmain hpc
    cases hexec : a.exec ok s.boot with
    | mk r b =>
        simp only [hexec] at h hne hnext habort
        cases r with
        | none => exact Option.some_inj.1 h ▸ hnext rfl
        | some r =>
            cases r with
            | success => exact absurd rfl hne
            | failure => exact Option.some_inj.1 h ▸ habort _ (Or.inl rfl)
            | exited => exact Option.some_inj.1 h ▸ habort _ (Or.inr rfl)
  · simp at h
  · simp at h

theorem startup_serverStep_move {config : Config} {ok : Bool} {s t : Startup}
    (h : s.serverStep ok = some t) : s.Move config (.server ok) t := by
  unfold Startup.serverStep at h
  split at h
  · exact Option.some_inj.1 h ▸ .setActive ‹_›
  · refine Option.some_inj.1 h ▸ .startDaemon ‹_› ?_
    cases ok <;> rfl
  · simp at h
  · simp at h
  · simp at h

theorem startup_move {config : Config} {s t : Startup} {l : StartupLabel}
    (h : (startup config).step s l = some t) : s.Move config l t := by
  simp only [startup] at h
  split at h
  · simp at h
  · cases l with
    | main ok => exact startup_mainStep_move h
    | server ok => exact startup_serverStep_move h
    | get =>
        simp only at h
        split at h
        · exact Option.some_inj.1 h ▸ .get ‹_›
        · simp at h

/-- What a phase says does not depend on the active registry. -/
theorem Phase.setActive {config : Config} {todo : List InitAction} {b : Boot}
    (h : Phase config todo b) (active : Option ℕ) :
    Phase config todo (b.setProm { b.globals.prom with active := active }) := by
  cases h with
  | mutexInit h => exact .mutexInit h
  | pcrCheck h => exact .pcrCheck h
  | pcrNew h => exact .pcrNew h
  | pcrEnableProcess h => exact .pcrEnableProcess h
  | pcrEnableScrape h => exact .pcrEnableScrape h
  | pcrForget h => exact .pcrForget h
  | pcrFree h => exact .pcrFree h
  | pcrReset h => exact .pcrReset h
  | pcrReturn h => exact .pcrReturn h
  | gauges htodo h => exact .gauges htodo h

/-- **Every step keeps the invariant.** -/
theorem startupInv_step {config : Config} {s t : Startup} {l : StartupLabel}
    (hI : StartupInv config s) (h : (startup config).step s l = some t) : StartupInv config t := by
  -- the server thread exists only after `pthread_create`
  have hpast : ∀ pc, s.server = pc → pc ≠ .absent → s.main ≠ .create := by
    rintro pc hserver hpc hmain
    exact hpc (hserver.symm.trans (hI.create hmain).2)
  cases startup_move h with
  | create hmain =>
      obtain ⟨hfresh, hserver⟩ := hI.create hmain
      refine ⟨by simp, ?_, by simp, fun _ => hI.active (by rw [hserver]; rfl)⟩
      rintro todo ⟨⟩
      exact .mutexInit hfresh
  | stop => exact ⟨by simp, by simp, by simp, hI.active⟩
  | success hmain => exact ⟨by simp, by simp, fun _ => (hI.init _ hmain).nil, hI.active⟩
  | @next ok a todo hmain hnext =>
      refine ⟨by simp, ?_, by simp, fun hs => (a.exec_untouched ok s.boot).1.trans (hI.active hs)⟩
      rintro todo' ⟨⟩
      exact (hI.init _ hmain).exec (Prod.ext hnext rfl)
  | @abort ok a todo pc hmain hpc =>
      have hactive := fun hs => (a.exec_untouched ok s.boot).1.trans (hI.active hs)
      rcases hpc with rfl | rfl
      · exact ⟨by simp, by simp, by simp, hactive⟩
      · exact ⟨by simp, by simp, by simp, hactive⟩
  | setActive hserver =>
      refine ⟨fun hmain => absurd hmain (hpast _ hserver (by simp)),
        fun todo hmain => (hI.init todo hmain).setActive _, hI.success, ?_⟩
      intro hs
      simp [ServerPc.pastSetActive] at hs
  | startDaemon hserver hpc =>
      refine ⟨fun hmain => absurd hmain (hpast _ hserver (by simp)), hI.init, hI.success, ?_⟩
      intro hs
      simp [hpc] at hs
  | get _ => exact ⟨hI.create, hI.init, hI.success, hI.active⟩

/-! ### The copy of the default registry -/

/-- The set-active step is executed in a state in which the default registry exists. -/
def CopiesRegistry (s : Startup) (l : StartupLabel) : Prop :=
  (∃ ok, l = .server ok) → s.server = .setActive → s.prom.registry ≠ none

/-- The handler answers from the live default registry. -/
def ActiveIsDefault (p : Prom) : Prop := p.active = p.registry ∧ (p.live? p.active).isSome

/-- Whether `init_metrics` is still on its way to success, or has succeeded. -/
def MainPc.MaySucceed (pc : MainPc) : Prop :=
  pc = .create ∨ (∃ todo, pc = .init todo) ∨ pc = .returned .success

/-- A step that leads to a state that may succeed comes from one that may. -/
theorem maySucceed_of_step {config : Config} {s t : Startup} {l : StartupLabel}
    (h : (startup config).step s l = some t) (ht : t.main.MaySucceed) : s.main.MaySucceed := by
  cases startup_move h with
  | create hmain => exact Or.inl hmain
  | stop => simp [MainPc.MaySucceed] at ht
  | success hmain | next hmain | abort hmain => exact Or.inr (Or.inl ⟨_, hmain⟩)
  | setActive | startDaemon | get => exact ht

/-- The active registry after a step, once the copy has been made: it changes only when the copy
is made. -/
theorem active_of_step {config : Config} {s t : Startup} {l : StartupLabel}
    (h : (startup config).step s l = some t) (ht : t.server.pastSetActive = true) :
    (s.server = .setActive ∧ (∃ ok, l = .server ok) ∧ t.prom.active = s.prom.registry) ∨
      (s.server.pastSetActive = true ∧ t.prom.active = s.prom.active) := by
  cases startup_move h with
  | create => simp [ServerPc.pastSetActive] at ht
  | stop | success | get => exact Or.inr ⟨ht, rfl⟩
  | @next ok a | @abort ok a => exact Or.inr ⟨ht, (a.exec_untouched ok s.boot).1⟩
  | setActive hserver => exact Or.inl ⟨hserver, ⟨_, rfl⟩, rfl⟩
  | startDaemon hserver => exact Or.inr ⟨by rw [hserver]; rfl, rfl⟩

/-- When the copy is made from an existing registry, the active registry is the first one. -/
theorem active_eq_zero {config : Config} {ls : List StartupLabel} {s t : Startup}
    (hI : StartupInv config s)
    (hs : s.main.MaySucceed → s.server.pastSetActive = true → s.prom.active = some 0)
    (hp : (startup config).Along CopiesRegistry s ls) (hrun : (startup config).run s ls = some t) :
    t.main.MaySucceed → t.server.pastSetActive = true → t.prom.active = some 0 := by
  refine (Machine.run_invariant (m := startup config) (p := CopiesRegistry)
    (I := fun s => StartupInv config s ∧
      (s.main.MaySucceed → s.server.pastSetActive = true → s.prom.active = some 0))
    ?_ ⟨hI, hs⟩ hp hrun).2
  rintro s l t ⟨hI, hs⟩ hp h
  refine ⟨startupInv_step hI h, fun hmay hpast => ?_⟩
  have hmay' := maySucceed_of_step h hmay
  rcases active_of_step h hpast with ⟨hserver, hl, hactive⟩ | ⟨hpast', hactive⟩
  · -- the copy: what `main` is doing says which registry there is to copy
    have hne := hp hl hserver
    rw [hactive]
    rcases hmay' with hmain | ⟨todo, hmain⟩ | hmain
    · exact absurd (hI.create hmain).1.2 hne
    · exact (hI.init todo hmain).registry_eq hne
    · exact (hI.success hmain).2
  · rw [hactive]
    exact hs hmay' hpast'

/-- Once a null pointer has been copied, the active registry stays null. -/
theorem active_eq_none {config : Config} {ls : List StartupLabel} {s t : Startup}
    (hI : StartupInv config s) (hpast : s.server.pastSetActive = true)
    (hs : s.prom.active = none) (hrun : (startup config).run s ls = some t) :
    t.prom.active = none := by
  refine (Machine.run_invariant (m := startup config) (p := fun _ _ => True)
    (I := fun s => StartupInv config s ∧ s.server.pastSetActive = true ∧ s.prom.active = none)
    ?_ ⟨hI, hpast, hs⟩ (Machine.along_true s ls) hrun).2.2
  rintro s l t ⟨hI, hpast, hs⟩ - h
  have hserver : t.server.pastSetActive = true := by
    cases startup_move h with
    | create hmain => simp [(hI.create hmain).2, ServerPc.pastSetActive] at hpast
    | stop | success | next | abort | get => exact hpast
    | setActive => rfl
    | startDaemon _ hpc => exact hpc
  refine ⟨startupInv_step hI h, hserver, ?_⟩
  rcases active_of_step h hserver with ⟨hset, -, -⟩ | ⟨-, hactive⟩
  · simp [hset, ServerPc.pastSetActive] at hpast
  · rw [hactive, hs]

/-- **When the handler answers from the default registry.**  In every run in which `init_metrics`
has succeeded and the server thread has executed its set-active step, the active registry is the
live default registry, and a request is answered with its metrics, if and only if the set-active
step was executed in a state in which the default registry existed. -/
theorem activeRegistry_live_iff (config : Config) (ls : List StartupLabel) (s : Startup)
    (hrun : (startup config).run .start ls = some s) (hmain : s.main = .returned .success)
    (hserver : s.server.pastSetActive = true) :
    (ActiveIsDefault s.prom ∧ ∃ ms, s.respond = .metrics ms) ↔
      (startup config).Along CopiesRegistry .start ls := by
  have hI : StartupInv config s :=
    Machine.run_invariant (p := fun _ _ => True) (fun _ _ _ hI _ h => startupInv_step hI h)
      (startupInv_start config) (Machine.along_true _ ls) hrun
  obtain ⟨⟨ms, hms⟩, hregistry⟩ := hI.success hmain
  constructor
  · rintro ⟨⟨hactive, -⟩, -⟩
    by_contra hcond
    obtain ⟨ls₁, l, ls₂, t, t', rfl, ht, hstep, hrun', hn⟩ :=
      Machine.exists_of_not_along hcond hrun
    have hIt : StartupInv config t :=
      Machine.run_invariant (p := fun _ _ => True) (fun _ _ _ hI _ h => startupInv_step hI h)
        (startupInv_start config) (Machine.along_true _ ls₁) ht
    -- the step that violates the condition copies a null pointer
    simp only [CopiesRegistry, not_forall, not_not] at hn
    obtain ⟨⟨ok, rfl⟩, hset, hnull⟩ := hn
    have hnone : s.prom.active = none := by
      refine active_eq_none (startupInv_step hIt hstep) ?_ ?_ hrun'
      · cases startup_move hstep with
        | setActive => rfl
        | startDaemon _ hpc => exact hpc
      · cases startup_move hstep with
        | setActive => exact hnull
        | startDaemon hstart => simp [hset] at hstart
    rw [hnone, hregistry] at hactive
    simp at hactive
  · intro hcond
    have hactive : s.prom.active = some 0 := by
      refine active_eq_zero (startupInv_start config) ?_ hcond hrun (Or.inr (Or.inr hmain)) hserver
      intro _ h
      simp [Startup.start, ServerPc.pastSetActive] at h
    have hlive : (s.prom.live? s.prom.active).isSome := by
      simp [Prom.live?, hactive, hms]
    exact ⟨⟨hactive.trans hregistry.symm, hlive⟩, pcrBridge_eq_metrics_iff.2 hlive⟩

/-- The server thread copies the registry after `init_metrics` has returned. -/
def lateCopy : List StartupLabel := List.replicate 46 (.main true) ++ [.server true, .server true]

/-- The server thread copies the registry as soon as it is created. -/
def earlyCopy : List StartupLabel := .main true :: .server true :: .server true ::
  List.replicate 45 (.main true)

/-- With the late copy the condition is met, and requests are answered from the registry. -/
theorem activeRegistry_live_lateCopy :
    ∃ s, (startup defaultConfig).run .start lateCopy = some s ∧
      ((ActiveIsDefault s.prom ∧ ∃ ms, s.respond = .metrics ms) ↔
        (startup defaultConfig).Along CopiesRegistry .start lateCopy) ∧
      s.prom.active = some 0 := by
  have hview : ((startup defaultConfig).run .start lateCopy).map
      (fun s => (s.main, s.server, s.prom.active)) =
      some (.returned .success, .serving, some 0) := by decide +kernel
  obtain ⟨s, hs, hv⟩ := Option.map_eq_some_iff.1 hview
  simp only [Prod.mk.injEq] at hv
  exact ⟨s, hs, activeRegistry_live_iff defaultConfig lateCopy s hs hv.1 (by rw [hv.2.1]; rfl),
    hv.2.2⟩

/-- **The early copy is permanent**: `init_metrics` succeeds afterwards, the daemon serves, and
every request is answered from a null registry. -/
theorem activeRegistry_null :
    ¬ ∀ (config : Config) (s : Startup), (startup config).Reachable s →
      s.main = .returned .success → s.server.pastSetActive = true →
      ActiveIsDefault s.prom ∧ ∃ ms, s.respond = .metrics ms := by
  intro h
  have hview : ((startup defaultConfig).run .start earlyCopy).map
      (fun s => (s.main, s.server, s.respond)) =
      some (.returned .success, .serving, .null) := by decide +kernel
  obtain ⟨s, hs, hv⟩ := Option.map_eq_some_iff.1 hview
  simp only [Prod.mk.injEq] at hv
  obtain ⟨-, ms, hms⟩ := h defaultConfig s ⟨.start, earlyCopy, rfl, hs⟩ hv.1 (by rw [hv.2.1]; rfl)
  rw [hv.2.2] at hms
  simp at hms

end Monitor
