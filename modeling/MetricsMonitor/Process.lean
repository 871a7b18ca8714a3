/-
**The monitor process after `register_signal_handlers`.**

One machine holds everything that can happen from then on: the main loop of `main.c` with the
update functions, the children it forks, the server thread, deliveries of `SIGUSR1`, and
deliveries of `SIGINT` and `SIGTERM` with the steps of their handler on the thread they interrupt.

* a handler of `SIGINT` or `SIGTERM` is a frame on the thread that executes it; a signal is blocked
  while its own handler runs, so at most one frame for each of the two is on a thread;
* `SIGUSR1` is handled at once; it makes a `waitpid` in which the main thread is blocked return
  `-1`, since its handler is installed without `SA_RESTART`;
* a cancelled thread ends at its next cancellation point: `sleep` in `expose_metrics` and `usleep`
  in the handler.

Main definitions and results:

* `Monitor.Process`, `Monitor.process` — the states and the machine;
* `Monitor.Process.Move` — **what a step can do**;
* `Monitor.process_refines_updates` — the main loop of the machine performs the update calls of
  `MetricsMonitor/Sampling.lean`.
-/

import MetricsMonitor.Machine
import MetricsMonitor.StatusReply
import MetricsMonitor.Child
import MetricsMonitor.FloatingPoint

set_option relaxedAutoImplicit false
set_option autoImplicit false

namespace Monitor

open FloatingPoint

/-! ### Threads and handlers -/

/-- The threads of the monitor: the main thread and `tid`. -/
inductive Thread
  | main
  | server
  deriving DecidableEq, Repr

/-- The signals that end the monitor. -/
inductive TermSignal
  | int
  | term
  deriving DecidableEq, Repr

/-- Where a thread is in `handle_sigint_and_sigterm`. -/
inductive HandlerPc
  | access
  | remove
  | destroyMutex
  | cancel
  | usleep
  | exit
  deriving DecidableEq, Repr

/-- A run of `handle_sigint_and_sigterm`. -/
structure Frame where
  signal : TermSignal
  pc : HandlerPc
  deriving DecidableEq

/-- The temporary file has been looked for, and removed if it was there. -/
def HandlerPc.pastRemoval : HandlerPc → Bool
  | .access | .remove => false
  | .destroyMutex | .cancel | .usleep | .exit => true

/-- The server thread. -/
inductive ServerState
  /-- Before `promhttp_start_daemon` has returned. -/
  | starting
  /-- In the loop of `sleep(1)`. -/
  | serving
  /-- `expose_metrics` has returned, since the daemon did not start. -/
  | returned
  /-- The thread has been cancelled. -/
  | ended
  deriving DecidableEq, Repr

/-! ### The main loop -/

/-- The actions of the main thread. -/
inductive Action
  /-- Calling the update function of a group, up to the return of its reader; for the processes,
  up to `fork`. -/
  | update (g : Group)
  /-- Calling `waitpid`. -/
  | waitpid (k : ℕ)
  /-- Being blocked in it. -/
  | waiting (k : ℕ)
  /-- The rest of `get_processes_usage`. -/
  | scan (status : ℕ)
  /-- A step of an update function on its gauges. -/
  | writer (a : WriterAction)
  | sleep
  deriving DecidableEq

/-- What the main thread does that can be observed. -/
inductive Event
  /-- A reader has returned. -/
  | returned (c : Call)
  /-- `g_status` has been written. -/
  | status (st : Status)
  /-- A gauge has been set. -/
  | gauge (q : Gauge) (value : ℚ)

/-- What a thread finds outside: the files of `/proc`, and whether the call it makes (`fork`,
`promhttp_start_daemon`) succeeds. -/
structure Env where
  proc : Proc
  ok : Bool

/-- The state of the process and of its children. -/
structure Process where
  globals : Globals
  /-- The static variables of `get_cpu_usage`. -/
  prev : CpuTimes
  /-- What is left of the current cycle of the main loop. -/
  todo : List Action
  /-- Whether the main thread holds `lock`. -/
  held : Bool
  /-- Whether `destroy_mutex` has been executed. -/
  destroyed : Bool
  children : List Child
  temp : TempFile
  /-- The handlers a thread is executing, the innermost first. -/
  frames : Thread → List Frame
  server : ServerState
  /-- Whether `pthread_cancel(tid)` has been executed. -/
  cancelled : Bool
  exited : Bool
  trace : List Event
  /-- The replies of `handle_sigusr1`. -/
  replies : List (Option (BitVec 32))

/-- The labels: a thread takes its next step, a child does, or a signal is delivered. -/
inductive ProcessLabel
  | run (t : Thread) (env : Env)
  | child (k : ℕ) (o : ChildStep)
  | usr1 (t : Thread)
  | deliver (signal : TermSignal) (t : Thread)

/-- No file of `/proc` can be opened; the other calls succeed. -/
def Env.blank : Env := ⟨⟨none, none, none, none⟩, true⟩

/-- A thread takes a step without reading anything. -/
def ProcessLabel.advance (t : Thread) : ProcessLabel := .run t .blank

/-- The actions of one cycle of the main loop. -/
def cycleActions (config : Config) : List Action := config.groups.map .update ++ [.sleep]

namespace Process

/-- The state right after `register_signal_handlers`. -/
def start (globals : Globals) (temp : TempFile) (server : ServerState) : Process where
  globals := globals
  prev := .zero
  todo := []
  held := false
  destroyed := false
  children := []
  temp := temp
  frames := fun _ => []
  server := server
  cancelled := false
  exited := false
  trace := []
  replies := []

/-- The same before any cycle, with the daemon running and no temporary file. -/
def serving : Process := .start .boot .absent .serving

/-- Whether a thread has not ended. -/
def alive (s : Process) : Thread → Bool
  | .main => true
  | .server => s.server = .starting || s.server = .serving

/-- The word for `waitpid` of a child that has ended. -/
def exitStatus (s : Process) (k : ℕ) : Option ℕ := s.children[k]?.bind Child.status

/-- A reader returns: after a success the status is written and the gauges are to be set. -/
def finish (c : Call) (todo : List Action) (s : Process) : Process :=
  match c.result with
  | none => { s with trace := s.trace ++ [.returned c], todo := todo }
  | some usage =>
      { s with
        trace := s.trace ++ [.returned c, .status (c.group.track usage s.globals.gStatus)]
        globals := { s.globals with gStatus := c.group.track usage s.globals.gStatus }
        todo := (writerActions c.group usage).map .writer ++ todo }

/-- `waitpid` returns the word of a child. -/
def reap (k status : ℕ) (todo : List Action) (s : Process) : Process :=
  { s with
    children := s.children.modify k fun c => { c with reaped := true }
    todo := .scan status :: todo }

/-- The next step of the main loop. -/
def mainStep (config : Config) (env : Env) (s : Process) : Option Process :=
  match s.todo with
  | [] => some { s with todo := cycleActions config }
  | .update g :: todo =>
      match env.proc.input g with
      | some i =>
          some (finish (i.read toDouble s.prev).1 todo
            { s with prev := (i.read toDouble s.prev).2 })
      | none =>
          if env.ok then
            some { s with
              children := s.children ++ [.forked]
              todo := .waitpid s.children.length :: todo }
          else some (s.finish (.processes none) todo)
  | .waitpid k :: todo =>
      match s.exitStatus k with
      | some status => some (s.reap k status todo)
      | none => some { s with todo := .waiting k :: todo }
  | .waiting k :: todo =>
      match s.exitStatus k with
      | some status => some (s.reap k status todo)
      | none => none
  | .scan status :: todo =>
      some (s.finish (.processes (scrapeProcesses status s.temp.content)) todo)
  | .writer .lock :: todo => if s.held then none else some { s with held := true, todo := todo }
  | .writer (.set q value) :: todo =>
      some { s with
        globals := setGauge q value s.globals
        trace := s.trace ++ [.gauge q value]
        todo := todo }
  | .writer .unlock :: todo => some { s with held := false, todo := todo }
  | .sleep :: todo => some { s with todo := todo }

/-- A handler moves on. -/
def goto (t : Thread) (f : Frame) (rest : List Frame) (pc : HandlerPc) (s : Process) : Process :=
  { s with frames := Function.update s.frames t ({ f with pc := pc } :: rest) }

/-- The next step of a thread in `handle_sigint_and_sigterm`. -/
def handlerStep (t : Thread) (f : Frame) (rest : List Frame) (s : Process) : Process :=
  match f.pc with
  | .access => s.goto t f rest (if s.temp.name.isSome then .remove else .destroyMutex)
  | .remove => { s.goto t f rest .destroyMutex with temp := s.temp.remove }
  | .destroyMutex => { s.goto t f rest .cancel with destroyed := true }
  | .cancel => { s.goto t f rest .usleep with cancelled := true }
  | .usleep =>
      if t = .server ∧ s.cancelled then { s with server := .ended } else s.goto t f rest .exit
  | .exit => { s with exited := true }

/-- The next step of `expose_metrics`. -/
def serverStep (ok : Bool) (s : Process) : Process :=
  if s.cancelled then { s with server := .ended }
  else
    match s.server with
    | .starting => { s with server := if ok then .serving else .returned }
    | _ => s

/-- `handle_sigusr1` sends its reply. -/
def answer (s : Process) : Process :=
  { s with replies := s.replies ++ [handleSigusr1 s.globals.gStatus] }

/-- When the main thread is blocked in `waitpid`: what follows the call of `get_processes_usage`. -/
def blocked (s : Process) : Option (List Action) :=
  match s.frames .main, s.todo with
  | [], .waiting k :: todo => if s.exitStatus k = none then some todo else none
  | _, _ => none

/-- `handle_sigusr1` on a thread.  When it interrupts `waitpid`, `get_processes_usage` returns a
null pointer. -/
def usr1 (t : Thread) (s : Process) : Process :=
  match t, s.blocked with
  | .main, some todo => s.answer.finish (.processes none) todo
  | _, _ => s.answer

/-- A handler of `SIGINT` or `SIGTERM` starts. -/
def enter (signal : TermSignal) (t : Thread) (s : Process) : Process :=
  { s with frames := Function.update s.frames t (⟨signal, .access⟩ :: s.frames t) }

@[simp] theorem enter_frames (signal : TermSignal) (t : Thread) (s : Process) :
    (s.enter signal t).frames = Function.update s.frames t (⟨signal, .access⟩ :: s.frames t) :=
  rfl

/-- The steps of the monitor, as long as it has not exited, and of its children. -/
def step (config : Config) (s : Process) (l : ProcessLabel) : Option Process :=
  match l with
  | .child k o =>
      match s.children[k]? with
      | none => none
      | some c =>
          match c.step s.temp o with
          | none => none
          | some (d, temp) => some { s with children := s.children.set k d, temp := temp }
  | .run t env =>
      if s.exited || !s.alive t then none
      else
        match s.frames t, t with
        | f :: rest, t => some (s.handlerStep t f rest)
        | [], .main => s.mainStep config env
        | [], .server => some (s.serverStep env.ok)
  | .usr1 t => if s.exited || !s.alive t then none else some (s.usr1 t)
  | .deliver signal t =>
      if s.exited || !s.alive t || (s.frames t).any (·.signal = signal) then none
      else some (s.enter signal t)

end Process

/-- The monitor process and its children, for any state that `init_metrics` leaves. -/
def process (config : Config) : Machine Process ProcessLabel where
  init s := ∃ globals temp server, s = .start globals temp server
  step := Process.step config

/-- A step of the main loop. -/
theorem step_run_main {config : Config} {s : Process} (hexited : s.exited = false)
    (hframes : s.frames .main = []) (env : Env) :
    (process config).step s (.run .main env) = s.mainStep config env := by
  simp [process, Process.step, Process.alive, hexited, hframes]

/-! ### What a step can do -/

/-- **What a step can do.** -/
inductive Process.Move (config : Config) (s : Process) : ProcessLabel → Process → Prop
  /-- The main loop takes a step. -/
  | loop {env t} (hexited : s.exited = false) (hframes : s.frames .main = [])
      (h : s.mainStep config env = some t) : Move config s (.run .main env) t
  /-- `expose_metrics` takes a step. -/
  | server {env server} (hexited : s.exited = false) (halive : s.alive .server = true)
      (hframes : s.frames .server = []) (h : s.serverStep env.ok = { s with server := server }) :
      Move config s (.run .server env) { s with server := server }
  /-- A thread takes a step in its innermost handler. -/
  | handler {u env f rest t} (hexited : s.exited = false) (halive : s.alive u = true)
      (hframes : s.frames u = f :: rest) (h : s.handlerStep u f rest = t) :
      Move config s (.run u env) t
  /-- `SIGUSR1` is handled. -/
  | usr1 {u} (hexited : s.exited = false) (halive : s.alive u = true) :
      Move config s (.usr1 u) (s.usr1 u)
  /-- `SIGINT` or `SIGTERM` is delivered. -/
  | deliver {signal u} (hexited : s.exited = false) (halive : s.alive u = true)
      (hfree : ∀ f ∈ s.frames u, f.signal ≠ signal) :
      Move config s (.deliver signal u) (s.enter signal u)
  /-- A child takes a step. -/
  | child {k o c d temp} (hc : s.children[k]? = some c) (hstep : c.step s.temp o = some (d, temp)) :
      Move config s (.child k o) { s with children := s.children.set k d, temp := temp }

/-- `expose_metrics` touches its own thread only. -/
theorem Process.serverStep_eq (ok : Bool) (s : Process) :
    ∃ server, s.serverStep ok = { s with server := server } := by
  unfold Process.serverStep
  split
  · exact ⟨_, rfl⟩
  · split
    · exact ⟨_, rfl⟩
    · exact ⟨s.server, rfl⟩

theorem process_move {config : Config} {s t : Process} {l : ProcessLabel}
    (h : (process config).step s l = some t) : s.Move config l t := by
  cases l with
  | run u env =>
      simp only [process, Process.step] at h
      split at h
      · simp at h
      · rename_i hguard
        simp only [Bool.or_eq_true, Bool.not_eq_true', not_or, Bool.not_eq_true,
          Bool.not_eq_false] at hguard
        cases hframes : s.frames u with
        | cons f rest =>
            simp only [hframes, Option.some_inj] at h
            exact .handler hguard.1 hguard.2 hframes h
        | nil =>
            cases u with
            | main =>
                simp only [hframes] at h
                exact .loop hguard.1 hframes h
            | server =>
                simp only [hframes, Option.some_inj] at h
                obtain ⟨server, heq⟩ := s.serverStep_eq env.ok
                exact h ▸ heq ▸ .server hguard.1 hguard.2 hframes heq
  | child k o =>
      simp only [process, Process.step] at h
      cases hc : s.children[k]? with
      | none => simp [hc] at h
      | some c =>
          cases hstep : c.step s.temp o with
          | none => simp [hc, hstep] at h
          | some p =>
              simp only [hc, hstep, Option.some_inj] at h
              exact h ▸ .child hc hstep
  | usr1 u =>
      simp only [process, Process.step] at h
      split at h
      · simp at h
      · rename_i hguard
        simp only [Bool.or_eq_true, Bool.not_eq_true', not_or, Bool.not_eq_true,
          Bool.not_eq_false] at hguard
        exact Option.some_inj.1 h ▸ .usr1 hguard.1 hguard.2
  | deliver signal u =>
      simp only [process, Process.step] at h
      split at h
      · simp at h
      · rename_i hguard
        simp only [Bool.or_eq_true, Bool.not_eq_true', not_or, Bool.not_eq_true,
          Bool.not_eq_false] at hguard
        refine Option.some_inj.1 h ▸ .deliver hguard.1.1 hguard.1.2 fun f hf => ?_
        have hfree := List.any_eq_false.1 hguard.2 f hf
        simpa using hfree

/-- The child a `waitpid` is about. -/
def Action.awaits : Action → Option ℕ
  | .waitpid k | .waiting k => some k
  | _ => none

/-- The step on a gauge that an action is. -/
def Action.writer? : Action → Option WriterAction
  | .writer a => some a
  | _ => none

/-- **What the main loop can do.** -/
inductive Process.MainMove (config : Config) (s : Process) : Process → Prop
  | cycle (htodo : s.todo = []) : MainMove config s { s with todo := cycleActions config }
  /-- A reader returns. -/
  | returned {a todo c prev} (htodo : s.todo = a :: todo) (ha : a.awaits = none)
      (hwriter : a.writer? = none) (hsleep : a ≠ .sleep) :
      MainMove config s (finish c todo { s with prev := prev })
  | fork {g todo} (htodo : s.todo = .update g :: todo) :
      MainMove config s { s with
        children := s.children ++ [.forked]
        todo := .waitpid s.children.length :: todo }
  | reap {a todo k status} (htodo : s.todo = a :: todo) (ha : a.awaits = some k)
      (hstatus : s.exitStatus k = some status) : MainMove config s (s.reap k status todo)
  | block {k todo} (htodo : s.todo = .waitpid k :: todo) (hrunning : s.exitStatus k = none) :
      MainMove config s { s with todo := .waiting k :: todo }
  | lock {todo} (htodo : s.todo = .writer .lock :: todo) (hheld : s.held = false) :
      MainMove config s { s with held := true, todo := todo }
  | set {q value todo} (htodo : s.todo = .writer (.set q value) :: todo) :
      MainMove config s { s with
        globals := setGauge q value s.globals
        trace := s.trace ++ [.gauge q value]
        todo := todo }
  | unlock {todo} (htodo : s.todo = .writer .unlock :: todo) :
      MainMove config s { s with held := false, todo := todo }
  | sleep {todo} (htodo : s.todo = .sleep :: todo) : MainMove config s { s with todo := todo }

theorem mainStep_move {config : Config} {env : Env} {s t : Process}
    (h : s.mainStep config env = some t) : s.MainMove config t := by
  unfold Process.mainStep at h
  split at h
  · exact Option.some_inj.1 h ▸ .cycle ‹_›
  · rename_i g todo htodo
    split at h
    · exact Option.some_inj.1 h ▸ .returned htodo rfl rfl (by simp)
    · split at h
      · exact Option.some_inj.1 h ▸ .fork htodo
      · exact Option.some_inj.1 h ▸ .returned htodo rfl rfl (by simp)
  · rename_i k todo htodo
    split at h
    · exact Option.some_inj.1 h ▸ .reap htodo rfl ‹_›
    · exact Option.some_inj.1 h ▸ .block htodo ‹_›
  · rename_i k todo htodo
    split at h
    · exact Option.some_inj.1 h ▸ .reap htodo rfl ‹_›
    · simp at h
  · exact Option.some_inj.1 h ▸ .returned ‹_› rfl rfl (by simp)
  · split at h
    · simp at h
    · rename_i hheld
      exact Option.some_inj.1 h ▸ .lock ‹_› (by simpa using hheld)
  · exact Option.some_inj.1 h ▸ .set ‹_›
  · exact Option.some_inj.1 h ▸ .unlock ‹_›
  · exact Option.some_inj.1 h ▸ .sleep ‹_›

/-! ### What the main loop leaves alone -/

/-- The main loop and `handle_sigusr1` leave the handlers, the server thread, the temporary file
and the end of the process alone. -/
structure Process.Untouched (s t : Process) : Prop where
  frames : t.frames = s.frames
  server : t.server = s.server
  cancelled : t.cancelled = s.cancelled
  destroyed : t.destroyed = s.destroyed
  exited : t.exited = s.exited
  temp : t.temp = s.temp

namespace Process

theorem finish_untouched (c : Call) (todo : List Action) (s : Process) :
    s.Untouched (s.finish c todo) := by
  rw [finish]
  cases c.result with
  | none => exact ⟨rfl, rfl, rfl, rfl, rfl, rfl⟩
  | some usage => exact ⟨rfl, rfl, rfl, rfl, rfl, rfl⟩

theorem finish_children (c : Call) (todo : List Action) (s : Process) :
    (s.finish c todo).children = s.children := by
  rw [finish]
  cases c.result with
  | none => rfl
  | some usage => rfl

theorem finish_held (c : Call) (todo : List Action) (s : Process) :
    (s.finish c todo).held = s.held := by
  rw [finish]
  cases c.result with
  | none => rfl
  | some usage => rfl

theorem reap_untouched (k status : ℕ) (todo : List Action) (s : Process) :
    s.Untouched (s.reap k status todo) := ⟨rfl, rfl, rfl, rfl, rfl, rfl⟩

theorem mainStep_untouched {config : Config} {env : Env} {s t : Process}
    (h : s.mainStep config env = some t) : s.Untouched t := by
  cases mainStep_move h with
  | cycle | fork | block | lock | set | unlock | sleep => exact ⟨rfl, rfl, rfl, rfl, rfl, rfl⟩
  | @returned a todo c prev =>
      have hfinish := finish_untouched c todo { s with prev := prev }
      exact ⟨hfinish.frames, hfinish.server, hfinish.cancelled, hfinish.destroyed,
        hfinish.exited, hfinish.temp⟩
  | reap => exact reap_untouched ..

theorem blocked_eq_some {s : Process} {todo : List Action} :
    s.blocked = some todo ↔
      s.frames .main = [] ∧ ∃ k, s.todo = .waiting k :: todo ∧ s.exitStatus k = none := by
  unfold blocked
  split
  · rename_i k todo' hframes htodo
    simp only [hframes, htodo, true_and, List.cons.injEq, Action.waiting.injEq]
    by_cases hexit : s.exitStatus k = none
    · simp [hexit]
    · simp [hexit]
  · rename_i hne
    simp only [reduceCtorEq, false_iff, not_and, not_exists]
    intro hframes k htodo
    exact absurd htodo (hne k todo hframes)

/-- What `SIGUSR1` does: it only sends the reply, unless it interrupts `waitpid`. -/
theorem usr1_eq (u : Thread) (s : Process) :
    (∃ todo, u = .main ∧ s.blocked = some todo ∧
        s.usr1 u = s.answer.finish (.processes none) todo) ∨
      ¬ (u = .main ∧ s.blocked.isSome) ∧ s.usr1 u = s.answer := by
  unfold usr1
  cases hblocked : s.blocked with
  | none => exact Or.inr ⟨by simp, by cases u <;> rfl⟩
  | some todo =>
      cases u with
      | main => exact Or.inl ⟨todo, rfl, rfl, rfl⟩
      | server => exact Or.inr ⟨by simp, rfl⟩

theorem usr1_untouched (u : Thread) (s : Process) : s.Untouched (s.usr1 u) := by
  rcases usr1_eq u s with ⟨todo, -, -, heq⟩ | ⟨-, heq⟩
  · have hfinish := finish_untouched (.processes none) todo s.answer
    exact heq ▸ ⟨hfinish.frames, hfinish.server, hfinish.cancelled, hfinish.destroyed,
      hfinish.exited, hfinish.temp⟩
  · exact heq ▸ ⟨rfl, rfl, rfl, rfl, rfl, rfl⟩

theorem usr1_held (u : Thread) (s : Process) : (s.usr1 u).held = s.held := by
  rcases usr1_eq u s with ⟨todo, -, -, heq⟩ | ⟨-, heq⟩
  · rw [heq, finish_held]
    rfl
  · rw [heq]
    rfl

end Process

/-! ### The update calls of the main loop -/

/-- The calls of update functions whose readers have returned. -/
def returnedCalls (trace : List Event) : List Call :=
  trace.filterMap fun
    | .returned c => some c
    | _ => none

/-- **The main loop performs update calls**: what is left of the last one leads to the globals
after all of them. -/
def PerformsUpdates (globals : Globals) (s : Process) : Prop :=
  ∃ (ws : List WriterAction) (rest : List Action), s.todo = ws.map .writer ++ rest ∧
    (∀ a ∈ rest, a.writer? = none) ∧
    ws.foldl WriterAction.exec s.globals = updates (returnedCalls s.trace) globals

/-- When the next action is not one on a gauge, no call is unfinished. -/
theorem PerformsUpdates.of_head {globals : Globals} {s : Process} (h : PerformsUpdates globals s)
    {a : Action} {todo : List Action} (htodo : s.todo = a :: todo) (ha : a.writer? = none) :
    (∀ b ∈ todo, b.writer? = none) ∧ s.globals = updates (returnedCalls s.trace) globals := by
  obtain ⟨ws, rest, htodo', hrest, hglobals⟩ := h
  cases ws with
  | nil =>
      rw [htodo, List.map_nil, List.nil_append] at htodo'
      subst htodo'
      exact ⟨fun b hb => hrest b (List.mem_cons_of_mem a hb), hglobals⟩
  | cons w ws =>
      rw [htodo, List.map_cons, List.cons_append, List.cons.injEq] at htodo'
      rw [htodo'.1] at ha
      exact absurd ha (by simp [Action.writer?])

/-- When the next action is one on a gauge, it is the next one of the last call. -/
theorem PerformsUpdates.of_writer {globals : Globals} {s : Process} (h : PerformsUpdates globals s)
    {w : WriterAction} {todo : List Action} (htodo : s.todo = .writer w :: todo) :
    ∃ (ws : List WriterAction) (rest : List Action), todo = ws.map .writer ++ rest ∧
      (∀ a ∈ rest, a.writer? = none) ∧
      ws.foldl WriterAction.exec (w.exec s.globals) = updates (returnedCalls s.trace) globals := by
  obtain ⟨ws, rest, htodo', hrest, hglobals⟩ := h
  cases ws with
  | nil =>
      rw [htodo, List.map_nil, List.nil_append] at htodo'
      have hw := hrest (.writer w) (by rw [← htodo']; exact List.mem_cons_self ..)
      exact absurd hw (by simp [Action.writer?])
  | cons w' ws =>
      rw [htodo, List.map_cons, List.cons_append, List.cons.injEq] at htodo'
      obtain ⟨hw, rfl⟩ := htodo'
      obtain rfl : w = w' := by simpa using hw
      exact ⟨ws, rest, rfl, hrest, hglobals⟩

theorem returnedCalls_append (trace : List Event) (c : Call) (events : List Event)
    (h : returnedCalls events = []) :
    returnedCalls (trace ++ .returned c :: events) = returnedCalls trace ++ [c] := by
  simp only [returnedCalls, List.filterMap_append, List.filterMap_cons] at h ⊢
  rw [h]

/-- A reader that returns adds its call. -/
theorem performsUpdates_finish {globals : Globals} {s : Process} (c : Call) {todo : List Action}
    (hglobals : s.globals = updates (returnedCalls s.trace) globals)
    (htodo : ∀ a ∈ todo, a.writer? = none) : PerformsUpdates globals (s.finish c todo) := by
  rw [Process.finish]
  cases hres : c.result with
  | none =>
      refine ⟨[], todo, rfl, htodo, ?_⟩
      rw [returnedCalls_append _ _ _ rfl, updates_append_singleton, update_of_failure hres]
      exact hglobals
  | some usage =>
      refine ⟨writerActions c.group usage, todo, rfl, htodo, ?_⟩
      rw [returnedCalls_append _ _ _ rfl, updates_append_singleton, Call.update_eq, hres,
        updateGauges_eq_actions, ← hglobals]

theorem performsUpdates_mainMove {config : Config} {globals : Globals} {s t : Process}
    (hI : PerformsUpdates globals s) (h : s.MainMove config t) : PerformsUpdates globals t := by
  cases h with
  | cycle htodo =>
      -- nothing was left to do, so no gauge was left to set
      obtain ⟨ws, rest, htodo', -, hglobals⟩ := hI
      rw [htodo, eq_comm, List.append_eq_nil_iff, List.map_eq_nil_iff] at htodo'
      refine ⟨[], cycleActions config, rfl, ?_, by rw [← hglobals, htodo'.1]⟩
      intro a ha
      simp only [cycleActions, List.mem_append, List.mem_map, List.mem_singleton] at ha
      rcases ha with ⟨g, -, rfl⟩ | rfl
      · rfl
      · rfl
  | returned htodo _ hwriter =>
      obtain ⟨hrest, hglobals⟩ := hI.of_head htodo hwriter
      exact performsUpdates_finish _ hglobals hrest
  | @fork g todo htodo =>
      obtain ⟨hrest, hglobals⟩ := hI.of_head htodo rfl
      exact ⟨[], _, rfl, List.forall_mem_cons.2 ⟨rfl, hrest⟩, hglobals⟩
  | @reap a todo k status htodo ha _ =>
      have hwriter : a.writer? = none := by
        cases a with
        | writer w => simp [Action.awaits] at ha
        | _ => rfl
      obtain ⟨hrest, hglobals⟩ := hI.of_head htodo hwriter
      exact ⟨[], _, rfl, List.forall_mem_cons.2 ⟨rfl, hrest⟩, hglobals⟩
  | block htodo =>
      obtain ⟨hrest, hglobals⟩ := hI.of_head htodo rfl
      exact ⟨[], _, rfl, List.forall_mem_cons.2 ⟨rfl, hrest⟩, hglobals⟩
  | lock htodo => exact hI.of_writer htodo
  | set htodo =>
      obtain ⟨ws, rest, htodo', hrest, hglobals⟩ := hI.of_writer htodo
      refine ⟨ws, rest, htodo', hrest, hglobals.trans ?_⟩
      simp [returnedCalls]
  | unlock htodo => exact hI.of_writer htodo
  | sleep htodo =>
      obtain ⟨hrest, hglobals⟩ := hI.of_head htodo rfl
      exact ⟨[], _, rfl, hrest, hglobals⟩

/-- A handler does not touch the main loop. -/
theorem Process.handlerStep_loop (u : Thread) (f : Frame) (rest : List Frame) (s : Process) :
    (s.handlerStep u f rest).todo = s.todo ∧ (s.handlerStep u f rest).globals = s.globals ∧
      (s.handlerStep u f rest).trace = s.trace ∧
      (s.handlerStep u f rest).children = s.children ∧
      (s.handlerStep u f rest).held = s.held := by
  obtain ⟨signal, pc⟩ := f
  cases pc with
  | usleep =>
      simp only [Process.handlerStep]
      split
      · exact ⟨rfl, rfl, rfl, rfl, rfl⟩
      · exact ⟨rfl, rfl, rfl, rfl, rfl⟩
  | access | remove | destroyMutex | cancel | exit => exact ⟨rfl, rfl, rfl, rfl, rfl⟩

/-- **The machine refines the update calls of the main loop.**  Along every run, the globals are
those after the update calls whose readers have returned, up to the gauges the last of them has
still to set. -/
theorem process_refines_updates (config : Config) (globals : Globals) (temp : TempFile)
    (server : ServerState) (ls : List ProcessLabel) (s : Process)
    (hrun : (process config).run (.start globals temp server) ls = some s) :
    PerformsUpdates globals s := by
  refine Machine.run_invariant (m := process config) (p := fun _ _ => True) ?_
    ⟨[], [], rfl, by simp, rfl⟩ (Machine.along_true _ ls) hrun
  rintro s l t hI - h
  cases process_move h with
  | loop _ _ hloop => exact performsUpdates_mainMove hI (mainStep_move hloop)
  | server => exact hI
  | @handler u env f rest t _ _ _ hstep =>
      obtain ⟨htodo, hglobals, htrace, -, -⟩ := hstep ▸ s.handlerStep_loop u f rest
      obtain ⟨ws, rest, h⟩ := hI
      exact ⟨ws, rest, by rw [htodo, hglobals, htrace]; exact h⟩
  | @usr1 u =>
      rcases Process.usr1_eq u s with ⟨todo, -, hblocked, heq⟩ | ⟨-, heq⟩
      · obtain ⟨-, k, htodo, -⟩ := Process.blocked_eq_some.1 hblocked
        obtain ⟨hrest, hglobals⟩ := hI.of_head htodo rfl
        exact heq ▸ performsUpdates_finish _ hglobals hrest
      · exact heq ▸ hI
  | deliver => exact hI
  | child => exact hI

end Monitor
