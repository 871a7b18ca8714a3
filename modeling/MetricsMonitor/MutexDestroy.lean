/-
**The mutex at the end of the monitor.**

`handle_sigint_and_sigterm` calls `destroy_mutex` at whatever point of the main loop it has
interrupted, or on the server thread while the main loop goes on.  Destroying a mutex that is
locked, and using one that has been destroyed, are undefined.

* `Monitor.MutexSafe` — what a step may do with `lock`;
* `Monitor.Unlocked` — when a delivery does no harm: the mutex is free, and it stays so because the
  main loop has been interrupted for good;
* `Monitor.tailComes` — a main loop that goes on comes to the mutex;
* `Monitor.destroyMutex_safe` — **the mutex is destroyed free and for good exactly when every
  delivery meets the condition**;
* `Monitor.destroyMutex_held` — a run in which it is destroyed while it is held.
-/

import MetricsMonitor.UpdateRuns

set_option relaxedAutoImplicit false
set_option autoImplicit false

namespace Monitor

/-! ### What a step does with the mutex -/

/-- A thread executes `destroy_mutex`. -/
def Destroys (s : Process) : ProcessLabel → Bool
  | .run u _ =>
      match s.frames u with
      | ⟨_, .destroyMutex⟩ :: _ => true
      | _ => false
  | _ => false

/-- The main loop locks or unlocks `lock`. -/
def Touches (s : Process) : ProcessLabel → Bool
  | .run .main _ =>
      match s.frames .main, s.todo with
      | [], .writer .lock :: _ => true
      | [], .writer .unlock :: _ => true
      | _, _ => false
  | _ => false

/-- `destroy_mutex` is executed only while no thread holds `lock`, and `lock` is not used after
it. -/
def MutexSafe (s : Process) (l : ProcessLabel) : Prop :=
  (Destroys s l = true → s.held = false) ∧ (Touches s l = true → s.destroyed = false)

/-- A signal is delivered only while the mutex is free, and to the server thread only once a
handler has interrupted the main loop; with no group required there is nothing to interrupt. -/
def Unlocked (config : Config) (s : Process) : ProcessLabel → Prop
  | .deliver _ u => config.groups = [] ∨ s.held = false ∧ (u = .main ∨ s.frames .main ≠ [])
  | _ => True

instance (s : Process) (l : ProcessLabel) : Decidable (MutexSafe s l) :=
  inferInstanceAs (Decidable (_ ∧ _))

instance (config : Config) (s : Process) : (l : ProcessLabel) → Decidable (Unlocked config s l)
  | .deliver _ u => inferInstanceAs (Decidable (config.groups = [] ∨
      s.held = false ∧ (u = .main ∨ s.frames .main ≠ [])))
  | .run _ _ | .child _ _ | .usr1 _ => isTrue trivial

theorem frames_ne_nil_of_destroys {s : Process} {l : ProcessLabel} (h : Destroys s l = true) :
    ∃ u, s.frames u ≠ [] := by
  cases l with
  | run u env =>
      refine ⟨u, fun hnil => ?_⟩
      simp [Destroys, hnil] at h
  | child | usr1 | deliver => simp [Destroys] at h

theorem frames_eq_nil_of_touches {s : Process} {l : ProcessLabel} (h : Touches s l = true) :
    s.frames .main = [] := by
  cases l with
  | run u env =>
      cases u with
      | server => simp [Touches] at h
      | main =>
          cases hframes : s.frames .main with
          | nil => rfl
          | cons f rest => simp [Touches, hframes] at h
  | child | usr1 | deliver => simp [Touches] at h

theorem exists_writer_of_touches {s : Process} {l : ProcessLabel} (h : Touches s l = true) :
    ∃ w, Action.writer w ∈ s.todo := by
  cases l with
  | run u env =>
      cases u with
      | server => simp [Touches] at h
      | main =>
          simp only [Touches] at h
          split at h
          · rename_i htodo
            exact ⟨_, htodo ▸ List.mem_cons_self ..⟩
          · rename_i htodo
            exact ⟨_, htodo ▸ List.mem_cons_self ..⟩
          · simp at h
  | child | usr1 | deliver => simp [Touches] at h

/-! ### No group is required -/

/-- The main loop only sleeps. -/
def OnlySleeps (s : Process) : Prop := s.held = false ∧ ∀ a ∈ s.todo, a = .sleep

theorem onlySleeps_step {config : Config} (hgroups : config.groups = []) {s t : Process}
    {l : ProcessLabel} (hI : OnlySleeps s) (h : (process config).step s l = some t) :
    OnlySleeps t := by
  obtain ⟨hheld, htodo⟩ := hI
  have hhead {a : Action} {todo : List Action} (heq : s.todo = a :: todo) :
      a = .sleep ∧ ∀ b ∈ todo, b = .sleep := by
    rw [heq, List.forall_mem_cons] at htodo
    exact htodo
  cases process_move h with
  | loop _ _ hloop =>
      cases mainStep_move hloop with
      | cycle =>
          refine ⟨hheld, fun a ha => ?_⟩
          simpa [cycleActions, hgroups] using ha
      | returned heq _ _ hsleep => exact absurd (hhead heq).1 hsleep
      | fork heq | block heq | lock heq | set heq | unlock heq =>
          exact absurd (hhead heq).1 (by simp)
      | reap heq ha =>
          rw [(hhead heq).1] at ha
          exact absurd ha (by simp [Action.awaits])
      | sleep heq => exact ⟨hheld, (hhead heq).2⟩
  | server => exact ⟨hheld, htodo⟩
  | @handler u env f rest t _ _ _ hstep =>
      obtain ⟨htodo', -, -, -, hheld'⟩ := hstep ▸ s.handlerStep_loop u f rest
      exact ⟨hheld'.trans hheld, by rw [htodo']; exact htodo⟩
  | @usr1 u =>
      rcases Process.usr1_eq u s with ⟨todo, -, hblocked, -⟩ | ⟨-, heq⟩
      · obtain ⟨-, k, hwaiting, -⟩ := Process.blocked_eq_some.1 hblocked
        exact absurd (hhead hwaiting).1 (by simp)
      · exact heq ▸ ⟨hheld, htodo⟩
  | deliver => exact ⟨hheld, htodo⟩
  | child => exact ⟨hheld, htodo⟩

theorem OnlySleeps.mutexSafe {s : Process} (h : OnlySleeps s) (l : ProcessLabel) :
    MutexSafe s l := by
  refine ⟨fun _ => h.1, fun htouches => ?_⟩
  obtain ⟨w, hw⟩ := exists_writer_of_touches htouches
  exact absurd (h.2 _ hw) (by simp)

/-! ### The main loop is interrupted for good -/

/-- A handler that has interrupted the main loop found the mutex free, and there is one before
there is a handler on the server thread. -/
structure Stopped (s : Process) : Prop where
  free : s.frames .main ≠ [] → s.held = false
  main : s.frames .server ≠ [] ∨ s.destroyed = true → s.frames .main ≠ []

theorem Stopped.congr {s t : Process} (h : Stopped s) (hframes : t.frames = s.frames)
    (hheld : t.held = s.held) (hdestroyed : t.destroyed = s.destroyed) : Stopped t where
  free := by
    rw [hframes, hheld]
    exact h.free
  main := by
    rw [hframes, hdestroyed]
    exact h.main

/-- Once a handler runs on the main thread, the mutex stays free. -/
theorem Stopped.of_main {s : Process} (hframes : s.frames .main ≠ []) (hheld : s.held = false) :
    Stopped s := ⟨fun _ => hheld, fun _ => hframes⟩

theorem Stopped.frames_ne_nil {s : Process} (h : Stopped s) {u : Thread} (hu : s.frames u ≠ []) :
    s.frames .main ≠ [] := by
  cases u with
  | main => exact hu
  | server => exact h.main (Or.inl hu)

theorem stopped_step {config : Config} (hgroups : config.groups ≠ []) {s t : Process}
    {l : ProcessLabel} (hI : Stopped s) (hl : Unlocked config s l)
    (h : (process config).step s l = some t) : Stopped t := by
  cases process_move h with
  | loop _ hframes hloop =>
      have hsame := Process.mainStep_untouched hloop
      refine ⟨fun hne => absurd hframes ?_, ?_⟩
      · rwa [hsame.frames] at hne
      · rw [hsame.frames, hsame.destroyed]
        exact hI.main
  | server => exact hI.congr rfl rfl rfl
  | @handler u env f rest t _ _ hframes hstep =>
      obtain ⟨-, -, -, -, hheld⟩ := hstep ▸ s.handlerStep_loop u f rest
      -- also a handler on the server thread runs only while the main loop is interrupted
      have hmain : s.frames .main ≠ [] := hI.frames_ne_nil (u := u) (by rw [hframes]; simp)
      exact .of_main (frames_ne_nil_step hmain h) (hheld.trans (hI.free hmain))
  | @usr1 u =>
      have hsame := Process.usr1_untouched u s
      exact hI.congr hsame.frames (Process.usr1_held u s) hsame.destroyed
  | @deliver signal u =>
      obtain ⟨hheld, hmain⟩ := hl.resolve_left hgroups
      refine .of_main ?_ hheld
      rcases hmain with rfl | hmain
      · simp
      · exact frames_ne_nil_step hmain h
  | child => exact hI.congr rfl rfl rfl

theorem Stopped.mutexSafe {s : Process} (h : Stopped s) (l : ProcessLabel) : MutexSafe s l := by
  constructor
  · intro hdestroys
    obtain ⟨u, hu⟩ := frames_ne_nil_of_destroys hdestroys
    exact h.free (h.frames_ne_nil hu)
  · intro htouches
    by_contra hdestroyed
    exact h.main (Or.inr (by simpa using hdestroyed)) (frames_eq_nil_of_touches htouches)

/-- **Deliveries that meet the condition do no harm**, in any run. -/
theorem mutexSafe_along {config : Config} {globals : Globals} {temp : TempFile}
    {server : ServerState} {ls : List ProcessLabel}
    (h : (process config).Along (Unlocked config) (.start globals temp server) ls) :
    (process config).Along MutexSafe (.start globals temp server) ls := by
  by_cases hgroups : config.groups = []
  · exact Machine.along_of_invariant (I := OnlySleeps)
      (fun _ _ _ hI _ hstep => onlySleeps_step hgroups hI hstep) (fun _ l hI _ => hI.mutexSafe l)
      ⟨rfl, by simp [Process.start]⟩ h
  · exact Machine.along_of_invariant (I := Stopped)
      (fun _ _ _ hI hl hstep => stopped_step hgroups hI hl hstep) (fun _ l hI _ => hI.mutexSafe l)
      ⟨fun _ => rfl, by simp [Process.start]⟩ h

/-! ### A main loop that goes on comes to the mutex -/

/-- A run without deliveries in which the main loop comes to the mutex. -/
def ComesToMutex (config : Config) (s : Process) : Prop :=
  ∃ ls t, (process config).run s ls = some t ∧ (∀ l ∈ ls, l.isDelivery = false) ∧ s.SameLock t ∧
    ∃ w todo, (w = .lock ∨ w = .unlock) ∧ t.todo = .writer w :: todo

section Comes

variable {config : Config} {s t : Process}

theorem ComesToMutex.of_todo {w : WriterAction} {todo : List Action} (hw : w = .lock ∨ w = .unlock)
    (htodo : s.todo = .writer w :: todo) : ComesToMutex config s :=
  ⟨[], s, rfl, by simp, ⟨rfl, rfl, rfl, rfl⟩, w, todo, hw, htodo⟩

theorem ComesToMutex.of_run (h : ComesToMutex config t) (ls : List ProcessLabel)
    (hrun : (process config).run s ls = some t) (hls : ∀ l ∈ ls, l.isDelivery = false)
    (hsame : s.SameLock t) : ComesToMutex config s := by
  obtain ⟨ls', u, hu, hls', hsame', htodo⟩ := h
  refine ⟨ls ++ ls', u, (Machine.run_append hrun _).trans hu, fun l hl => ?_,
    hsame.trans hsame', htodo⟩
  rcases List.mem_append.1 hl with hl | hl
  · exact hls l hl
  · exact hls' l hl

theorem ComesToMutex.of_mainStep (env : Env) (hexited : s.exited = false)
    (hframes : s.frames .main = []) (hstep : s.mainStep config env = some t) (hsame : s.SameLock t)
    (h : ComesToMutex config t) : ComesToMutex config s := by
  refine h.of_run [.run .main env] ?_ (by simp [ProcessLabel.isDelivery]) hsame
  rw [Machine.run_singleton, step_run_main hexited hframes, hstep]

/-- When a reader has returned, either its gauges are next or the rest of the cycle is. -/
theorem ComesToMutex.finish {c : Call} {todo : List Action}
    (h : c.result = none → ComesToMutex config (s.finish c todo)) :
    ComesToMutex config (s.finish c todo) := by
  cases hres : c.result with
  | none => exact h hres
  | some usage =>
      obtain ⟨q, value, ws, hws⟩ := writerActions_eq_cons c.group usage
      have htodo : (s.finish c todo).todo =
          .writer .lock :: .writer (.set q value) :: (ws.map .writer ++ todo) := by
        rw [Process.finish, hres]
        simp [hws]
      exact .of_todo (Or.inl rfl) htodo

/-- The rest of the cycle comes to the mutex. -/
def TailComes (config : Config) (todo : List Action) : Prop :=
  ∀ s : Process, s.exited = false → s.frames .main = [] → s.todo = todo → ComesToMutex config s

theorem TailComes.finish {todo : List Action} (h : TailComes config todo) (c : Call)
    (hexited : s.exited = false) (hframes : s.frames .main = []) :
    ComesToMutex config (s.finish c todo) := by
  have hsame := s.finish_sameLock c todo
  refine .finish fun hres => h _ (hsame.exited.trans hexited) ?_ ?_
  · rw [hsame.frames, hframes]
  · rw [Process.finish, hres]

theorem TailComes.scan {todo : List Action} (h : TailComes config todo) (status : ℕ) :
    TailComes config (.scan status :: todo) := by
  intro s hexited hframes htodo
  refine .of_mainStep .blank hexited hframes
    (by rw [Process.mainStep, htodo]) (s.finish_sameLock _ _) (h.finish _ hexited hframes)

theorem TailComes.waiting {todo : List Action} (h : TailComes config todo) (k : ℕ) :
    TailComes config (.waiting k :: todo) := by
  intro s hexited hframes htodo
  cases hstatus : s.exitStatus k with
  | some status =>
      exact .of_mainStep .blank (t := s.reap k status todo)
        hexited hframes (by rw [Process.mainStep, htodo]; simp [hstatus]) ⟨rfl, rfl, rfl, rfl⟩
        (h.scan status _ hexited hframes rfl)
  | none =>
      -- a status request ends the wait
      have hblocked : s.blocked = some todo :=
        Process.blocked_eq_some.2 ⟨hframes, k, htodo, hstatus⟩
      refine (h.finish (s := s.answer) (.processes none) hexited hframes).of_run
        [.usr1 .main] ?_ (by simp [ProcessLabel.isDelivery])
        (.trans (t := s.answer) ⟨rfl, rfl, rfl, rfl⟩ (s.answer.finish_sameLock _ todo))
      rw [Machine.run_singleton]
      simp [process, Process.step, Process.alive, hexited, Process.usr1, hblocked]

theorem TailComes.waitpid {todo : List Action} (h : TailComes config todo) (k : ℕ) :
    TailComes config (.waitpid k :: todo) := by
  intro s hexited hframes htodo
  cases hstatus : s.exitStatus k with
  | some status =>
      exact .of_mainStep .blank (t := s.reap k status todo)
        hexited hframes (by rw [Process.mainStep, htodo]; simp [hstatus]) ⟨rfl, rfl, rfl, rfl⟩
        (h.scan status _ hexited hframes rfl)
  | none =>
      exact .of_mainStep .blank
        (t := { s with todo := .waiting k :: todo })
        hexited hframes (by rw [Process.mainStep, htodo]; simp [hstatus]) ⟨rfl, rfl, rfl, rfl⟩
        (h.waiting k _ hexited hframes rfl)

theorem comes_update (g : Group) (todo : List Action) : TailComes config (.update g :: todo) := by
  intro s hexited hframes htodo
  obtain ⟨ls, c, t, hrun, hsome, hls, hsame⟩ := exists_run_update hexited hframes htodo
  refine .of_run (.finish fun hnone => ?_) ls hrun hls (hsame.trans (Process.finish_sameLock ..))
  rw [hnone] at hsome
  exact absurd hsome (by simp)

/-- **A main loop that goes on comes to the mutex**: the induction is on what is left of the
current cycle, and the next one starts with a group. -/
theorem tailComes (hgroups : config.groups ≠ []) (todo : List Action) :
    TailComes config todo := by
  induction todo with
  | nil =>
      intro s hexited hframes htodo
      obtain ⟨g, gs, heq⟩ := List.exists_cons_of_ne_nil hgroups
      refine .of_mainStep .blank
        (t := { s with todo := cycleActions config }) hexited hframes
        (by rw [Process.mainStep, htodo]) ⟨rfl, rfl, rfl, rfl⟩ ?_
      exact comes_update g _ _ hexited hframes (by simp only [cycleActions, heq]; rfl)
  | cons a todo ih =>
      cases a with
      | update g => exact comes_update g todo
      | waitpid k => exact ih.waitpid k
      | waiting k => exact ih.waiting k
      | scan status => exact ih.scan status
      | writer w =>
          intro s hexited hframes htodo
          cases w with
          | lock => exact .of_todo (Or.inl rfl) htodo
          | unlock => exact .of_todo (Or.inr rfl) htodo
          | set q value =>
              let next : Process :=
                { s with
                  globals := setGauge q value s.globals
                  trace := s.trace ++ [.gauge q value]
                  todo := todo }
              refine .of_mainStep .blank (t := next) hexited hframes
                (by rw [Process.mainStep, htodo]) ⟨rfl, rfl, rfl, rfl⟩ ?_
              exact ih next hexited hframes rfl
      | sleep =>
          intro s hexited hframes htodo
          refine .of_mainStep .blank (t := { s with todo := todo })
            hexited hframes (by rw [Process.mainStep, htodo]) ⟨rfl, rfl, rfl, rfl⟩ ?_
          exact ih _ hexited hframes rfl

end Comes

/-! ### Every delivery -/

/-- The steps of a handler are no deliveries. -/
theorem isDelivery_replicate (n : ℕ) (u : Thread) :
    ∀ l ∈ List.replicate n (.advance u) ++ [.advance u],
      ProcessLabel.isDelivery l = false := by
  simp only [List.mem_append, List.mem_replicate, List.mem_singleton]
  rintro l (⟨-, rfl⟩ | rfl)
  · rfl
  · rfl

/-- A handler that starts while the mutex is held destroys it. -/
theorem exists_unsafe_of_held {config : Config} {s : Process} (signal : TermSignal) {u : Thread}
    (hexited : s.exited = false) (halive : s.alive u = true) (hheld : s.held = true) :
    ∃ ls t, (process config).run (s.enter signal u) ls = some t ∧
      (∀ l ∈ ls, l.isDelivery = false) ∧
      ¬ (process config).Along MutexSafe (s.enter signal u) ls := by
  obtain ⟨n, t, hrun, haside, hdestroy⟩ := exists_run_enter config signal hexited halive
  have hstep := step_advance config (haside.exited.trans hexited)
    (haside.alive.trans halive) hdestroy
  refine ⟨_, _, (Machine.run_append hrun _).trans ((Machine.run_singleton _ _).trans hstep),
    isDelivery_replicate n u, fun hsafe => ?_⟩
  have hlast := ((Machine.along_append hrun).1 hsafe).2.1.1 (by
    simp [Destroys, ProcessLabel.advance, hdestroy])
  rw [haside.held, hheld] at hlast
  exact absurd hlast (by simp)

/-- A handler that starts on the server thread while the main loop goes on destroys a mutex that
the main loop comes to. -/
theorem exists_unsafe_of_server {config : Config} {s : Process} (signal : TermSignal)
    (hexited : s.exited = false) (halive : s.alive .server = true) (hheld : s.held = false)
    (hmain : s.frames .main = []) (hgroups : config.groups ≠ []) :
    ∃ ls t, (process config).run (s.enter signal .server) ls = some t ∧
      (∀ l ∈ ls, l.isDelivery = false) ∧
      ¬ (process config).Along MutexSafe (s.enter signal .server) ls := by
  obtain ⟨n, t, hrun, haside, hdestroy⟩ := exists_run_enter config signal hexited halive
  have hstep := step_advance config (haside.exited.trans hexited)
    (haside.alive.trans halive) hdestroy
  let next := t.handlerStep .server ⟨signal, .destroyMutex⟩ (s.frames .server)
  have hnext : next.frames .main = [] := by
    simp [next, Process.handlerStep, Process.goto, haside.frames .main, hmain]
  obtain ⟨ls, v, hv, hls, hsame, w, todo, hw, htodo⟩ :=
    tailComes hgroups _ next (haside.exited.trans hexited) hnext rfl
  have hvframes : v.frames .main = [] := by rw [hsame.frames, hnext]
  have hvheld : v.held = false := hsame.held.trans (haside.held.trans hheld)
  have hlast : ((process config).step v (.advance .main)).isSome = true := by
    rw [ProcessLabel.advance, step_run_main (hsame.exited.trans (haside.exited.trans hexited))
      hvframes]
    rcases hw with rfl | rfl
    · simp [Process.mainStep, htodo, hvheld]
    · simp [Process.mainStep, htodo]
  have htouches : Touches v (.advance .main) = true := by
    rcases hw with rfl | rfl
    · simp [Touches, ProcessLabel.advance, hvframes, htodo]
    · simp [Touches, ProcessLabel.advance, hvframes, htodo]
  obtain ⟨v', hv'⟩ := Option.isSome_iff_exists.1 hlast
  -- the server thread up to `destroy_mutex`, then the main loop up to the mutex
  have hdestroyed : (process config).run (s.enter signal .server)
      (List.replicate n (.advance .server) ++ [.advance .server]) = some next := by
    rw [Machine.run_append hrun, Machine.run_singleton, hstep]
  refine ⟨List.replicate n (.advance .server) ++ [.advance .server] ++ (ls ++ [.advance .main]),
    v', ?_, ?_, fun hsafe => ?_⟩
  · rw [Machine.run_append hdestroyed, Machine.run_append hv, Machine.run_singleton, hv']
  · intro l hl
    rcases List.mem_append.1 hl with hl | hl
    · exact isDelivery_replicate n .server l hl
    · rcases List.mem_append.1 hl with hl | hl
      · exact hls l hl
      · rw [List.mem_singleton.1 hl]
        rfl
  · have hlater := ((Machine.along_append hdestroyed).1 hsafe).2
    have hfree := ((Machine.along_append hv).1 hlater).2.1.2 htouches
    rw [hsame.destroyed] at hfree
    exact absurd hfree (by simp [next, Process.handlerStep])

/-- **A delivery that does not meet the condition can do harm**, without any other delivery. -/
theorem exists_unsafe {config : Config} {s : Process} (signal : TermSignal) {u : Thread}
    (hexited : s.exited = false) (halive : s.alive u = true)
    (hl : ¬ Unlocked config s (.deliver signal u)) :
    ∃ ls t, (process config).run (s.enter signal u) ls = some t ∧
      (∀ l ∈ ls, l.isDelivery = false) ∧
      ¬ (process config).Along MutexSafe (s.enter signal u) ls := by
  cases hheld : s.held with
  | true => exact exists_unsafe_of_held signal hexited halive hheld
  | false =>
      simp only [Unlocked, hheld, true_and, not_or, not_not] at hl
      obtain ⟨hgroups, hserver, hmain⟩ := hl
      cases u with
      | main => exact absurd rfl hserver
      | server => exact exists_unsafe_of_server signal hexited halive hheld hmain hgroups

/-- **What a delivery may interrupt.**  As long as every delivery meets the condition, the mutex is
destroyed only while it is free and never used after that; and a delivery that comes next keeps it
so, in all continuations whose deliveries meet the condition, if and only if it meets the condition
itself. -/
theorem destroyMutex_safe (config : Config) (globals : Globals) (temp : TempFile)
    (server : ServerState) (ls : List ProcessLabel) (s : Process)
    (hrun : (process config).run (.start globals temp server) ls = some s)
    (hunlocked : (process config).Along (Unlocked config) (.start globals temp server) ls) :
    (process config).Along MutexSafe (.start globals temp server) ls ∧
      ∀ signal u t, (process config).step s (.deliver signal u) = some t →
        ((∀ ls' s', (process config).run t ls' = some s' →
            (process config).Along (Unlocked config) t ls' →
            (process config).Along MutexSafe t ls') ↔
          Unlocked config s (.deliver signal u)) := by
  refine ⟨mutexSafe_along hunlocked, fun signal u t hdeliver => ⟨fun hsafe => ?_, ?_⟩⟩
  · by_contra hl
    cases process_move hdeliver with
    | deliver hexited halive _ =>
        obtain ⟨ls', s', hrun', hquiet, hunsafe⟩ := exists_unsafe signal hexited halive hl
        have hunlocked' : (process config).Along (Unlocked config) (s.enter signal u) ls' := by
          refine (Machine.along_of_forall hquiet).mono fun v l hl => ?_
          cases l with
          | deliver => exact absurd hl (by simp [ProcessLabel.isDelivery])
          | run | child | usr1 => trivial
        exact hunsafe (hsafe ls' s' hrun' hunlocked')
  · intro hl ls' s' _ hunlocked'
    -- the run, the delivery and the continuation are one run that meets the condition
    have hall : (process config).Along (Unlocked config) (.start globals temp server)
        (ls ++ .deliver signal u :: ls') :=
      (Machine.along_append hrun).2 ⟨hunlocked, (Machine.along_cons hdeliver).2 ⟨hl, hunlocked'⟩⟩
    have hsafe := (Machine.along_append hrun).1 (mutexSafe_along hall)
    exact ((Machine.along_cons hdeliver).1 hsafe.2).2

/-- `SIGINT` interrupts the main loop between two cycles, and `SIGTERM` the server thread. -/
def twoHandlers : List ProcessLabel :=
  List.replicate 2 (.advance .main) ++ [.deliver .int .main, .deliver .term .server] ++
    List.replicate 3 (.advance .server)

theorem destroyMutex_safe_twoHandlers :
    ∃ s, (process memoryConfig).run .serving twoHandlers = some s ∧
      (process memoryConfig).Along MutexSafe .serving twoHandlers := by
  have hsome : ((process memoryConfig).run .serving twoHandlers).isSome = true := by
    decide +kernel
  obtain ⟨s, hs⟩ := Option.isSome_iff_exists.1 hsome
  exact ⟨s, hs, (destroyMutex_safe memoryConfig .boot .absent .serving twoHandlers s hs
    (by decide +kernel)).1⟩

/-- `SIGTERM` arrives when the first gauge of the memory is about to be set. -/
def heldHandler : List ProcessLabel :=
  [.advance .main,
    .run .main ⟨⟨none, some "MemTotal: 16 kB\nMemAvailable: 6 kB\n".toList, none, none⟩, true⟩,
    .advance .main, .deliver .term .main, .advance .main, .advance .main]

/-- **The mutex is destroyed while it is held.** -/
theorem destroyMutex_held :
    ¬ ∀ (config : Config) (globals : Globals) (temp : TempFile) (server : ServerState)
      (ls : List ProcessLabel) (s : Process),
      (process config).run (.start globals temp server) ls = some s →
      (process config).Along MutexSafe (.start globals temp server) ls := by
  intro h
  have hsome : ((process memoryConfig).run .serving heldHandler).isSome = true := by
    decide +kernel
  obtain ⟨s, hs⟩ := Option.isSome_iff_exists.1 hsome
  have hunsafe : ¬ (process memoryConfig).Along MutexSafe .serving heldHandler := by
    decide +kernel
  exact hunsafe (h memoryConfig .boot .absent .serving heldHandler s hs)

end Monitor
