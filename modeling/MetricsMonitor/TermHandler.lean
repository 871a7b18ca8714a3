/-
**Ending the monitor.**

`handle_sigint_and_sigterm` removes the temporary file, destroys the mutex, cancels the server
thread, waits half a second and exits.  On the main thread that is what happens.  On the server
thread it is not: the handler cancels the thread it runs on, and its own `usleep` is the
cancellation point at which that thread ends, so `exit` is never called.

* `Monitor.Process.HandlerMove` — what a step of the handler can do;
* `Monitor.frames_step` — what a step of the process does to the handlers of a thread;
* `Monitor.handlerRank` — how far the main thread is from `exit`;
* `Monitor.termHandler_exits` — **the handler exits exactly on the main thread**;
* `Monitor.termHandler_lost` — a run in which the handler ends with its thread.
-/

import MetricsMonitor.Process

set_option relaxedAutoImplicit false
set_option autoImplicit false

namespace Monitor

/-- A delivery of `SIGINT` or `SIGTERM`. -/
def ProcessLabel.isDelivery : ProcessLabel → Bool
  | .deliver _ _ => true
  | _ => false

/-! ### The steps of a handler -/

/-- The steps a handler has still to take, at most. -/
def HandlerPc.rank : HandlerPc → ℕ
  | .access => 6
  | .remove => 5
  | .destroyMutex => 4
  | .cancel => 3
  | .usleep => 2
  | .exit => 1

/-- **What a handler can do**: go on to a later step, end with the cancelled thread, or exit. -/
inductive Process.HandlerMove (s : Process) (u : Thread) (f : Frame) (rest : List Frame) :
    Process → Prop
  | next (pc : HandlerPc) {t} (hrank : pc.rank < f.pc.rank)
      (hframes : t.frames = Function.update s.frames u ({ f with pc := pc } :: rest))
      (hserver : t.server = s.server) (hexited : t.exited = s.exited)
      (hdestroyed : t.destroyed = s.destroyed ∨ f.pc = .destroyMutex)
      (htemp : t.temp.name = s.temp.name ∨ t.temp.name = none)
      (hremoved : pc.pastRemoval = true → f.pc.pastRemoval = true ∨ t.temp.name = none)
      (hkept : f.pc.pastRemoval = true → pc.pastRemoval = true ∧ t.temp = s.temp) :
      HandlerMove s u f rest t
  | ended (hserver : u = .server) (hpc : f.pc = .usleep) :
      HandlerMove s u f rest { s with server := .ended }
  | exit (hpc : f.pc = .exit) : HandlerMove s u f rest { s with exited := true }

theorem handlerStep_move {s t : Process} {u : Thread} {f : Frame} {rest : List Frame}
    (h : s.handlerStep u f rest = t) : s.HandlerMove u f rest t := by
  subst h
  obtain ⟨signal, pc⟩ := f
  cases pc with
  | access =>
      cases hname : s.temp.name with
      | none =>
          refine .next .destroyMutex (Nat.lt_succ_of_lt (Nat.lt_succ_self _)) ?_ rfl rfl
            (Or.inl rfl) (Or.inl rfl) (fun _ => Or.inr hname) (by simp [HandlerPc.pastRemoval])
          simp [Process.handlerStep, Process.goto, hname]
      | some i =>
          refine .next .remove (Nat.lt_succ_self _) ?_ rfl rfl (Or.inl rfl) (Or.inl rfl)
            (by simp [HandlerPc.pastRemoval]) (by simp [HandlerPc.pastRemoval])
          simp [Process.handlerStep, Process.goto, hname]
  | remove =>
      exact .next .destroyMutex (Nat.lt_succ_self _) rfl rfl rfl (Or.inl rfl) (Or.inr rfl)
        (fun _ => Or.inr rfl) (by simp [HandlerPc.pastRemoval])
  | destroyMutex =>
      exact .next .cancel (Nat.lt_succ_self _) rfl rfl rfl (Or.inr rfl) (Or.inl rfl)
        (fun _ => Or.inl rfl) (fun _ => ⟨rfl, rfl⟩)
  | cancel =>
      exact .next .usleep (Nat.lt_succ_self _) rfl rfl rfl (Or.inl rfl) (Or.inl rfl)
        (fun _ => Or.inl rfl) (fun _ => ⟨rfl, rfl⟩)
  | usleep =>
      by_cases hself : u = .server ∧ s.cancelled = true
      · rw [Process.handlerStep, if_pos hself]
        exact .ended hself.1 rfl
      · rw [Process.handlerStep, if_neg hself]
        exact .next .exit (Nat.lt_succ_self _) rfl rfl rfl (Or.inl rfl) (Or.inl rfl)
          (fun _ => Or.inl rfl) (fun _ => ⟨rfl, rfl⟩)
  | exit => exact .exit rfl

/-- **What a step does to the handlers of a thread**: nothing, it moves the innermost one on, or it
starts one for a signal that has none. -/
theorem frames_step {config : Config} {s t : Process} {l : ProcessLabel}
    (h : (process config).step s l = some t) (u : Thread) :
    t.frames u = s.frames u ∨
      (∃ f rest pc, s.frames u = f :: rest ∧ t.frames u = { f with pc := pc } :: rest) ∨
      ∃ signal, l = .deliver signal u ∧ (∀ f ∈ s.frames u, f.signal ≠ signal) ∧
        t.frames u = ⟨signal, .access⟩ :: s.frames u := by
  cases process_move h with
  | loop _ _ hloop => exact Or.inl (congrFun (Process.mainStep_untouched hloop).frames u)
  | server => exact Or.inl rfl
  | @handler v env f rest t _ _ hframes hstep =>
      cases handlerStep_move hstep with
      | @next pc _ _ hnext =>
          by_cases huv : u = v
          · subst huv
            exact Or.inr (Or.inl ⟨f, rest, pc, hframes, by rw [hnext, Function.update_self]⟩)
          · exact Or.inl (by rw [hnext, Function.update_of_ne huv])
      | ended | exit => exact Or.inl rfl
  | @usr1 v => exact Or.inl (congrFun (Process.usr1_untouched v s).frames u)
  | @deliver signal v _ _ hfree =>
      by_cases huv : u = v
      · subst huv
        exact Or.inr (Or.inr ⟨signal, rfl, hfree, Function.update_self ..⟩)
      · exact Or.inl (Function.update_of_ne huv ..)
  | child => exact Or.inl rfl

/-- A handler never returns. -/
theorem frames_ne_nil_step {config : Config} {s t : Process} {l : ProcessLabel} {u : Thread}
    (hs : s.frames u ≠ []) (h : (process config).step s l = some t) : t.frames u ≠ [] := by
  rcases frames_step h u with heq | ⟨f, rest, pc, -, heq⟩ | ⟨signal, -, -, heq⟩
  · rwa [heq]
  · simp [heq]
  · simp [heq]

/-- The handlers of a thread are of different signals. -/
theorem signals_nodup_step {config : Config} {s t : Process} {l : ProcessLabel} {u : Thread}
    (hs : ((s.frames u).map Frame.signal).Nodup) (h : (process config).step s l = some t) :
    ((t.frames u).map Frame.signal).Nodup := by
  rcases frames_step h u with heq | ⟨f, rest, pc, hframes, heq⟩ | ⟨signal, -, hfree, heq⟩
  · rwa [heq]
  · rw [hframes] at hs
    rw [heq]
    exact hs
  · rw [heq, List.map_cons, List.nodup_cons]
    refine ⟨fun hmem => ?_, hs⟩
    obtain ⟨f, hf, hsignal⟩ := List.mem_map.1 hmem
    exact hfree f hf hsignal

theorem exited_step {config : Config} {s t : Process} {l : ProcessLabel} (hs : s.exited = true)
    (h : (process config).step s l = some t) : t.exited = true := by
  cases process_move h with
  | loop hexited | server hexited | handler hexited | usr1 hexited | deliver hexited =>
      rw [hs] at hexited
      exact absurd hexited (by simp)
  | child => exact hs

/-! ### On the main thread -/

/-- The steps the main thread has still to take before the process has exited, at most; a second
handler can start on top of the first. -/
def handlerRank (s : Process) : ℕ :=
  if s.exited then 0
  else
    match s.frames .main with
    | [] => 0
    | f :: rest => f.pc.rank + 6 * (1 - rest.length)

/-- The main thread is in a handler, unless the process has exited. -/
structure Ending (s : Process) : Prop where
  frames : s.frames .main ≠ []
  signals : ((s.frames .main).map Frame.signal).Nodup

theorem ending_step {config : Config} {s t : Process} {l : ProcessLabel} (hI : Ending s)
    (h : (process config).step s l = some t) : Ending t :=
  ⟨frames_ne_nil_step hI.frames h, signals_nodup_step hI.signals h⟩

/-- A step of the main thread. -/
def ProcessLabel.runs (u : Thread) : ProcessLabel → Bool
  | .run v _ => v = u
  | _ => false

theorem handlerRank_congr {s t : Process} (hexited : t.exited = s.exited)
    (hframes : t.frames .main = s.frames .main) : handlerRank t = handlerRank s := by
  rw [handlerRank, handlerRank, hexited, hframes]

theorem handlerRank_of_exited {s : Process} (h : s.exited = true) : handlerRank s = 0 := by
  rw [handlerRank, if_pos h]

theorem handlerRank_of_frames {s : Process} {f : Frame} {rest : List Frame}
    (hexited : s.exited = false) (hframes : s.frames .main = f :: rest) :
    handlerRank s = f.pc.rank + 6 * (1 - rest.length) := by
  rw [handlerRank, hexited, hframes]
  rfl

theorem HandlerPc.rank_pos (pc : HandlerPc) : 0 < pc.rank := by cases pc <;> decide

/-- There are two signals only. -/
theorem TermSignal.eq_of_ne {a b c : TermSignal} (ha : a ≠ c) (hb : b ≠ c) : a = b := by
  cases a <;> cases b <;> cases c <;> simp_all

/-- **Every step of the main thread brings it closer to `exit`, and no other step takes it back.**
A second handler can start only while the first is the only one. -/
theorem handlerRank_step {config : Config} {s t : Process} {l : ProcessLabel} (hI : Ending s)
    (h : (process config).step s l = some t) :
    handlerRank t + (l.runs .main).toNat ≤ handlerRank s := by
  cases process_move h with
  | loop _ hframes => exact absurd hframes hI.frames
  | server => exact Nat.le_refl _
  | @handler v env f rest t hexited _ hframes hstep =>
      cases v with
      | main =>
          -- its own step: the innermost handler moves on, or the process exits
          have hrank := handlerRank_of_frames hexited hframes
          cases handlerStep_move hstep with
          | @next pc _ hlt hnext _ hexited' =>
              have hrank' : handlerRank t = pc.rank + 6 * (1 - rest.length) :=
                handlerRank_of_frames (hexited'.trans hexited)
                  (by rw [hnext, Function.update_self])
              simp only [ProcessLabel.runs, decide_true, Bool.toNat_true]
              omega
          | ended hserver => exact absurd hserver (by simp)
          | exit =>
              have hpos := f.pc.rank_pos
              rw [handlerRank_of_exited rfl]
              simp only [ProcessLabel.runs, decide_true, Bool.toNat_true]
              omega
      | server =>
          cases handlerStep_move hstep with
          | next _ _ hnext _ hexited' =>
              exact Nat.le_of_eq (handlerRank_congr hexited' (by
                rw [hnext, Function.update_of_ne (by simp)]))
          | ended => exact Nat.le_refl _
          | exit =>
              rw [handlerRank_of_exited rfl]
              exact Nat.zero_le _
  | @usr1 v =>
      have hsame := Process.usr1_untouched v s
      exact Nat.le_of_eq (handlerRank_congr hsame.exited (congrFun hsame.frames .main))
  | @deliver signal v hexited _ hfree =>
      cases v with
      | server =>
          have hother : (s.enter signal .server).frames .main = s.frames .main := by
            rw [Process.enter_frames, Function.update_of_ne (by simp)]
          exact Nat.le_of_eq (handlerRank_congr rfl hother)
      | main =>
          obtain ⟨f, rest, hframes⟩ := List.exists_cons_of_ne_nil hI.frames
          have hsignals := hI.signals
          rw [hframes, List.map_cons, List.nodup_cons] at hsignals
          rw [hframes] at hfree
          -- a third handler would be of a signal that one of the two is handling
          have hrest : rest = [] := by
            refine List.eq_nil_iff_forall_not_mem.2 fun g hg => ?_
            have hne := hfree f (List.mem_cons_self ..)
            have hne' := hfree g (List.mem_cons_of_mem f hg)
            exact hsignals.1 (List.mem_map.2 ⟨g, hg, TermSignal.eq_of_ne hne' hne⟩)
          subst hrest
          have hrank := handlerRank_of_frames hexited hframes
          have hentered : (s.enter signal .main).frames .main = [⟨signal, .access⟩, f] := by
            rw [Process.enter_frames, Function.update_self, hframes]
          have hrank' := handlerRank_of_frames (s := s.enter signal .main) hexited hentered
          have hpos := f.pc.rank_pos
          simp only [HandlerPc.rank, List.length_nil, List.length_singleton] at hrank hrank'
          simp only [ProcessLabel.runs, Bool.toNat_false]
          omega
  | child => exact Nat.le_refl _

/-- The next step of a thread in a handler. -/
theorem step_advance (config : Config) {s : Process} {u : Thread} {f : Frame} {rest : List Frame}
    (hexited : s.exited = false) (halive : s.alive u = true) (hframes : s.frames u = f :: rest) :
    (process config).step s (.advance u) = some (s.handlerStep u f rest) := by
  simp [process, Process.step, ProcessLabel.advance, hexited, halive, hframes]

/-- **The handler that has just started on `u` exits**: whatever else happens, `u` can take its
next step until the process has exited, which it has after fewer than twelve. -/
def HandlerExits (config : Config) (u : Thread) (t : Process) : Prop :=
  ∀ ls s, (process config).run t ls = some s →
    s.exited = true ∨
      ((process config).step s (.advance u)).isSome = true ∧ ls.countP (·.runs u) < 12

/-- **On the main thread the handler exits.** -/
theorem handlerExits_of_ending {config : Config} {s : Process} (hI : Ending s)
    (hrank : handlerRank s ≤ 12) : HandlerExits config .main s := by
  intro ls t hrun
  have hcount := Machine.rank_add_countP_le (fun _ _ _ hI h => ending_step hI h)
    (fun _ _ _ hI h => handlerRank_step hI h) hI hrun
  have hending : Ending t := Machine.run_invariant (p := fun _ _ => True)
    (fun _ _ _ hI _ h => ending_step hI h) hI (Machine.along_true _ ls) hrun
  cases hexited : t.exited with
  | true => exact Or.inl rfl
  | false =>
      obtain ⟨f, rest, hframes⟩ := List.exists_cons_of_ne_nil hending.frames
      have hrank' := handlerRank_of_frames hexited hframes
      have hpos := f.pc.rank_pos
      refine Or.inr ⟨by rw [step_advance config hexited rfl hframes]; rfl, ?_⟩
      omega

/-! ### On the server thread -/

/-- What the handler on `u` leaves alone on its way to `destroy_mutex`. -/
structure Process.Aside (u : Thread) (s t : Process) : Prop where
  exited : t.exited = s.exited
  server : t.server = s.server
  todo : t.todo = s.todo
  held : t.held = s.held
  frames : ∀ v, v ≠ u → t.frames v = s.frames v

theorem Process.Aside.alive {u v : Thread} {s t : Process} (h : s.Aside u t) :
    t.alive v = s.alive v := by
  cases v with
  | main => rfl
  | server => rw [Process.alive, Process.alive, h.server]

/-- The handler that has just started reaches `destroy_mutex` by its own steps. -/
theorem exists_run_destroyMutex (config : Config) {s : Process} {u : Thread}
    {signal : TermSignal} {rest : List Frame} (hexited : s.exited = false)
    (halive : s.alive u = true) (hframes : s.frames u = ⟨signal, .access⟩ :: rest) :
    ∃ n t, (process config).run s (List.replicate n (.advance u)) = some t ∧ s.Aside u t ∧
      t.frames u = ⟨signal, .destroyMutex⟩ :: rest := by
  have hstep := step_advance config hexited halive hframes
  cases hname : s.temp.name with
  | none =>
      refine ⟨1, _, (Machine.run_singleton _ _).trans hstep,
        ⟨rfl, rfl, rfl, rfl, ?_⟩, ?_⟩
      · intro v hv
        exact Function.update_of_ne hv _ _
      · simp [Process.handlerStep, Process.goto, hname]
  | some i =>
      -- the file is there, so it is removed first
      have hnext : (s.handlerStep u ⟨signal, .access⟩ rest).frames u =
          ⟨signal, .remove⟩ :: rest := by
        simp [Process.handlerStep, Process.goto, hname]
      have hstep' := step_advance config
        (s := s.handlerStep u ⟨signal, .access⟩ rest) hexited
        (by cases u with
          | main => rfl
          | server => exact halive) hnext
      refine ⟨2, _,
        (Machine.run_cons hstep _).trans ((Machine.run_singleton _ _).trans hstep'),
        ⟨rfl, rfl, rfl, rfl, ?_⟩, Function.update_self ..⟩
      intro v hv
      exact (Function.update_of_ne hv _ _).trans (Function.update_of_ne hv _ _)

/-- A handler that starts reaches `destroy_mutex` with the mutex and the main loop as they were. -/
theorem exists_run_enter (config : Config) {s : Process} {u : Thread} (signal : TermSignal)
    (hexited : s.exited = false) (halive : s.alive u = true) :
    ∃ n t, (process config).run (s.enter signal u) (List.replicate n (.advance u)) = some t ∧
      s.Aside u t ∧ t.frames u = ⟨signal, .destroyMutex⟩ :: s.frames u := by
  have halive' : (s.enter signal u).alive u = true := by
    cases u with
    | main => rfl
    | server => exact halive
  have hstarted : (s.enter signal u).frames u = ⟨signal, .access⟩ :: s.frames u := by simp
  obtain ⟨n, t, hrun, haside, hdestroy⟩ := exists_run_destroyMutex config
    (s := s.enter signal u) hexited halive' hstarted
  refine ⟨n, t, hrun, ⟨haside.exited, haside.server, haside.todo, haside.held, ?_⟩, hdestroy⟩
  intro v hv
  rw [haside.frames v hv, Process.enter_frames, Function.update_of_ne hv]

/-- The thread is in the handler and has ended, and the process has not exited. -/
def Process.Lost (s : Process) (u : Thread) : Prop :=
  s.alive u = false ∧ s.frames u ≠ [] ∧ s.exited = false

/-- **On the server thread the handler cancels itself.** -/
theorem exists_run_lost (config : Config) {s : Process} (signal : TermSignal)
    (hexited : s.exited = false) (halive : s.alive .server = true) :
    ∃ ls t, (process config).run (s.enter signal .server) ls = some t ∧ t.Lost .server := by
  obtain ⟨n, t, hrun, haside, hdestroy⟩ := exists_run_enter config signal hexited halive
  have hexited' : t.exited = false := haside.exited.trans hexited
  have halive' : t.alive .server = true := haside.alive.trans halive
  -- `destroy_mutex`, then `pthread_cancel` of the thread itself, then `usleep`
  let t₁ := t.handlerStep .server ⟨signal, .destroyMutex⟩ (s.frames .server)
  let t₂ := t₁.handlerStep .server ⟨signal, .cancel⟩ (s.frames .server)
  let t₃ := t₂.handlerStep .server ⟨signal, .usleep⟩ (s.frames .server)
  have hcancel : t₁.frames .server = ⟨signal, .cancel⟩ :: s.frames .server := by
    simp [t₁, Process.handlerStep, Process.goto]
  have husleep : t₂.frames .server = ⟨signal, .usleep⟩ :: s.frames .server := by
    simp [t₂, Process.handlerStep, Process.goto]
  have hended : t₃ = { t₂ with server := .ended } := by
    simp [t₃, t₂, Process.handlerStep]
  have hlast : (process config).run t [.advance .server, .advance .server, .advance .server] =
      some t₃ := by
    rw [Machine.run_cons (step_advance config hexited' halive' hdestroy),
      Machine.run_cons (step_advance config (show t₁.exited = false from hexited')
        (show t₁.alive .server = true from halive') hcancel), Machine.run_singleton]
    exact step_advance config (show t₂.exited = false from hexited')
      (show t₂.alive .server = true from halive') husleep
  refine ⟨_, t₃, (Machine.run_append hrun _).trans hlast, ?_⟩
  rw [hended]
  exact ⟨rfl, by rw [husleep]; exact List.cons_ne_nil _ _, hexited'⟩

/-! ### Every delivery -/

/-- No handler starts on the server thread. -/
def ProcessLabel.OnMain : ProcessLabel → Prop
  | .deliver _ u => u = .main
  | _ => True

theorem server_frames_step {config : Config} {s t : Process} {l : ProcessLabel}
    (hs : s.frames .server = []) (hl : l.OnMain) (h : (process config).step s l = some t) :
    t.frames .server = [] := by
  rcases frames_step h .server with heq | ⟨f, rest, pc, hframes, -⟩ | ⟨signal, rfl, -, -⟩
  · rw [heq, hs]
  · rw [hs] at hframes
    exact absurd hframes (by simp)
  · exact absurd hl (by simp [ProcessLabel.OnMain])

/-- A thread that is lost takes no step. -/
theorem not_lost_of_handlerExits {config : Config} {u : Thread} {t : Process}
    (h : HandlerExits config u t) {ls : List ProcessLabel} {s : Process}
    (hrun : (process config).run t ls = some s) : ¬ s.Lost u := by
  rintro ⟨halive, -, hexited⟩
  rcases h ls s hrun with hexited' | ⟨hsome, -⟩
  · rw [hexited] at hexited'
    exact absurd hexited' (by simp)
  · simp [process, Process.step, ProcessLabel.advance, halive] at hsome

/-- **When the handler exits.**  In a run whose deliveries are all on the main thread, no thread
ever ends in the handler while the process goes on.  Wherever a run has got to, the handler that a
delivery starts exits if the delivery is on the main thread, and if it is on the server thread
there is a continuation in which the thread ends in the handler and the process has not exited. -/
theorem termHandler_exits (config : Config) (globals : Globals) (temp : TempFile)
    (server : ServerState) (ls : List ProcessLabel) (s : Process)
    (hrun : (process config).run (.start globals temp server) ls = some s) :
    ((∀ l ∈ ls, l.OnMain) → ∀ u, ¬ s.Lost u) ∧
      ∀ signal u t, (process config).step s (.deliver signal u) = some t →
        (HandlerExits config u t ↔ u = .main) ∧
          ((∃ ls' s', (process config).run t ls' = some s' ∧ s'.Lost u) ↔ u = .server) := by
  constructor
  · intro honMain u hlost
    have hserver : s.frames .server = [] := Machine.run_invariant
      (I := fun s => s.frames .server = []) (p := fun _ l => l.OnMain)
      (fun _ _ _ hI hl h => server_frames_step hI hl h) rfl
      (Machine.along_of_forall honMain) hrun
    cases u with
    | main => exact absurd hlost.1 (by simp [Process.alive])
    | server => exact hlost.2.1 hserver
  · intro signal u t hdeliver
    have hnodup : ((s.frames .main).map Frame.signal).Nodup := Machine.run_invariant
      (I := fun s => ((s.frames .main).map Frame.signal).Nodup) (p := fun _ _ => True)
      (fun _ _ _ hI _ h => signals_nodup_step hI h) List.nodup_nil (Machine.along_true _ ls) hrun
    have hnodup' := signals_nodup_step hnodup hdeliver
    cases process_move hdeliver with
    | deliver hexited halive _ =>
        cases u with
        | main =>
            -- a first handler has rank 12, one on top of another has rank 6
            have hexits : HandlerExits config .main (s.enter signal .main) := by
              refine handlerExits_of_ending ⟨by simp, hnodup'⟩ ?_
              rw [handlerRank_of_frames (s := s.enter signal .main) hexited
                ((congrFun (Process.enter_frames ..) _).trans (Function.update_self ..))]
              simp only [HandlerPc.rank]
              omega
            refine ⟨⟨fun _ => rfl, fun _ => hexits⟩, ⟨?_, fun h => absurd h (by simp)⟩⟩
            rintro ⟨ls', s', hrun', hlost⟩
            exact absurd hlost (not_lost_of_handlerExits hexits hrun')
        | server =>
            obtain ⟨ls', s', hrun', hlost⟩ := exists_run_lost config signal hexited halive
            refine ⟨⟨fun h => ?_, fun h => absurd h (by simp)⟩,
              ⟨fun _ => rfl, fun _ => ⟨ls', s', hrun', hlost⟩⟩⟩
            exact absurd hlost (not_lost_of_handlerExits h hrun')

/-- A handler of `SIGINT` that is interrupted by `SIGTERM`. -/
def interruptedHandler : List ProcessLabel :=
  [.advance .main, .deliver .int .main, .advance .main, .advance .server]

theorem termHandler_exits_interruptedHandler :
    ∃ s, (process defaultConfig).run .serving interruptedHandler = some s ∧
      (∀ u, ¬ s.Lost u) ∧ HandlerExits defaultConfig .main (s.enter .term .main) := by
  have hview : ((process defaultConfig).run .serving interruptedHandler).map
      (fun s => (s.exited, s.frames .main)) =
        some (false, [⟨.int, .destroyMutex⟩]) := by decide +kernel
  obtain ⟨s, hs, hv⟩ := Option.map_eq_some_iff.1 hview
  simp only [Prod.mk.injEq] at hv
  have hdeliver : (process defaultConfig).step s (.deliver .term .main) =
      some (s.enter .term .main) := by
    simp [process, Process.step, Process.alive, hv]
  obtain ⟨hnever, hexits⟩ := termHandler_exits defaultConfig .boot .absent .serving
    interruptedHandler s hs
  exact ⟨s, hs, hnever (by simp [interruptedHandler, ProcessLabel.OnMain, ProcessLabel.advance]),
    (hexits .term .main _ hdeliver).1.2 rfl⟩

/-- `SIGTERM` is delivered to the server thread, which handles it. -/
def serverHandler : List ProcessLabel :=
  .deliver .term .server :: List.replicate 4 (.advance .server)

/-- **The handler ends with its thread**, and the monitor goes on. -/
theorem termHandler_lost :
    ¬ ∀ (config : Config) (globals : Globals) (temp : TempFile) (server : ServerState)
      (ls : List ProcessLabel) (s : Process),
      (process config).run (.start globals temp server) ls = some s → ∀ u, ¬ s.Lost u := by
  intro h
  have hview : ((process defaultConfig).run .serving serverHandler).map
      (fun s => (s.alive .server, s.frames .server, s.exited)) =
        some (false, [⟨.term, .usleep⟩], false) := by decide +kernel
  obtain ⟨s, hs, hv⟩ := Option.map_eq_some_iff.1 hview
  simp only [Prod.mk.injEq] at hv
  refine h defaultConfig .boot .absent .serving serverHandler s hs .server ⟨hv.1, ?_, hv.2.2⟩
  rw [hv.2.1]
  exact List.cons_ne_nil _ _

end Monitor
