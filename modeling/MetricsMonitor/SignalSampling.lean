/-
**Status requests against sampling.**

`handle_sigusr1` only reads `g_status`, so a status request should not be noticed by the main loop.
Its handler is installed without `SA_RESTART`, however, and the main thread spends most of its time
blocked: a `waitpid` that is interrupted returns `-1`, `get_processes_usage` gives up, and its
child goes on without a parent that waits for it.

* `Monitor.step_withReplies` — nothing but the replies depends on the replies;
* `Monitor.waitInv_step` — a `waitpid` is always the next action of the main loop, and its child
  has not been reaped;
* `Monitor.reaped_step` — every other child has been;
* `Monitor.usr1_transparent_iff` — **a run is the run without its status requests, and reaps its
  children, exactly when no request arrives while `waitpid` is blocked**;
* `Monitor.usr1_interrupts` — a run in which one does.
-/

import MetricsMonitor.Process

set_option relaxedAutoImplicit false
set_option autoImplicit false

namespace Monitor

open FloatingPoint

/-! ### The replies are write-only -/

/-- The same state with other replies. -/
def Process.withReplies (replies : List (Option (BitVec 32))) (s : Process) : Process :=
  { s with replies := replies }

/-- A delivery of `SIGUSR1`. -/
def ProcessLabel.isRequest : ProcessLabel → Bool
  | .usr1 _ => true
  | _ => false

section Replies

variable (replies : List (Option (BitVec 32)))

theorem finish_withReplies (c : Call) (todo : List Action) (s : Process) :
    (s.withReplies replies).finish c todo = (s.finish c todo).withReplies replies := by
  unfold Process.finish
  cases c.result with
  | none => rfl
  | some usage => rfl

theorem mainStep_withReplies (config : Config) (env : Env) (s : Process) :
    (s.withReplies replies).mainStep config env =
      (s.mainStep config env).map (Process.withReplies replies) := by
  obtain ⟨globals, prev, todo, held, destroyed, children, temp, frames, server, cancelled, exited,
    trace, old⟩ := s
  cases todo with
  | nil => rfl
  | cons a todo =>
      cases a with
      | update g =>
          simp only [Process.mainStep, Process.withReplies]
          cases env.proc.input g with
          | none =>
              cases env.ok with
              | true => rfl
              | false =>
                  exact congrArg some (finish_withReplies replies (.processes none) todo
                    ⟨globals, prev, .update g :: todo, held, destroyed, children, temp, frames,
                      server, cancelled, exited, trace, old⟩)
          | some i =>
              exact congrArg some (finish_withReplies replies (i.read toDouble prev).1 todo
                ⟨globals, (i.read toDouble prev).2, .update g :: todo, held, destroyed, children,
                  temp, frames, server, cancelled, exited, trace, old⟩)
      | waitpid k =>
          simp only [Process.mainStep, Process.withReplies, Process.exitStatus]
          cases children[k]?.bind Child.status with
          | none => rfl
          | some status => rfl
      | waiting k =>
          simp only [Process.mainStep, Process.withReplies, Process.exitStatus]
          cases children[k]?.bind Child.status with
          | none => rfl
          | some status => rfl
      | scan status => exact congrArg some (finish_withReplies replies _ _ _)
      | writer w =>
          cases w with
          | lock => cases held <;> rfl
          | set q value => rfl
          | unlock => rfl
      | sleep => rfl

theorem handlerStep_withReplies (u : Thread) (f : Frame) (rest : List Frame) (s : Process) :
    (s.withReplies replies).handlerStep u f rest =
      (s.handlerStep u f rest).withReplies replies := by
  obtain ⟨signal, pc⟩ := f
  cases pc with
  | usleep =>
      cases u with
      | main => simp [Process.handlerStep, Process.withReplies, Process.goto]
      | server =>
          cases hcancelled : s.cancelled with
          | true => simp [Process.handlerStep, Process.withReplies, hcancelled]
          | false => simp [Process.handlerStep, Process.withReplies, Process.goto, hcancelled]
  | access | remove | destroyMutex | cancel | exit => rfl

theorem serverStep_withReplies (ok : Bool) (s : Process) :
    (s.withReplies replies).serverStep ok = (s.serverStep ok).withReplies replies := by
  obtain ⟨globals, prev, todo, held, destroyed, children, temp, frames, server, cancelled, exited,
    trace, old⟩ := s
  cases cancelled with
  | true => rfl
  | false =>
      cases server with
      | starting | serving | returned | ended => rfl

theorem step_withReplies {config : Config} {l : ProcessLabel} (hl : l.isRequest = false)
    (s : Process) : (process config).step (s.withReplies replies) l =
      ((process config).step s l).map (Process.withReplies replies) := by
  have halive (u : Thread) : (s.withReplies replies).alive u = s.alive u := by cases u <;> rfl
  have hexited : (s.withReplies replies).exited = s.exited := rfl
  have hframes : (s.withReplies replies).frames = s.frames := rfl
  cases l with
  | run u env =>
      simp only [process, Process.step, halive, hexited, hframes]
      by_cases hguard : (s.exited || !s.alive u) = true
      · rw [if_pos hguard, if_pos hguard]
        rfl
      · rw [if_neg hguard, if_neg hguard]
        cases s.frames u with
        | cons f rest => exact congrArg some (handlerStep_withReplies replies u f rest s)
        | nil =>
            cases u with
            | main => exact mainStep_withReplies replies config env s
            | server => exact congrArg some (serverStep_withReplies replies env.ok s)
  | usr1 u => simp [ProcessLabel.isRequest] at hl
  | deliver signal u =>
      simp only [process, Process.step, halive, hexited, hframes]
      by_cases hguard : (s.exited || !s.alive u || (s.frames u).any (·.signal = signal)) = true
      · rw [if_pos hguard, if_pos hguard]
        rfl
      · rw [if_neg hguard, if_neg hguard]
        rfl
  | child k o =>
      simp only [process, Process.step, Process.withReplies]
      cases s.children[k]? with
      | none => rfl
      | some c =>
          dsimp only
          cases c.step s.temp o with
          | none => rfl
          | some p => rfl

end Replies

/-! ### Waiting for a child -/

/-- `waitpid` is only called next or not at all, and for a child that has not been reaped. -/
structure WaitInv (s : Process) : Prop where
  tail : ∀ a ∈ s.todo.tail, a.awaits = none
  unreaped : ∀ k, s.todo.head?.bind Action.awaits = some k →
    ∃ c, s.children[k]? = some c ∧ c.reaped = false

/-- **Every child has been reaped when the call that forked it returns.** -/
def Reaped (s : Process) : Prop :=
  ∀ k c, s.children[k]? = some c → c.reaped = false → s.todo.head?.bind Action.awaits = some k

/-- An action list in which nothing waits. -/
def Settled (todo : List Action) : Prop := ∀ a ∈ todo, a.awaits = none

theorem Settled.head {todo : List Action} (h : Settled todo) :
    todo.head?.bind Action.awaits = none := by
  cases todo with
  | nil => rfl
  | cons a todo => exact h a (List.mem_cons_self ..)

theorem Settled.waitInv {s : Process} (h : Settled s.todo) : WaitInv s where
  tail a ha := h a (List.mem_of_mem_tail ha)
  unreaped k hk := by
    rw [h.head] at hk
    exact absurd hk (by simp)

theorem settled_cycleActions (config : Config) : Settled (cycleActions config) := by
  intro a ha
  simp only [cycleActions, List.mem_append, List.mem_map, List.mem_singleton] at ha
  rcases ha with ⟨g, -, rfl⟩ | rfl
  · rfl
  · rfl

theorem settled_finish {todo : List Action} (h : Settled todo) (c : Call) (s : Process) :
    Settled (s.finish c todo).todo := by
  rw [Process.finish]
  cases c.result with
  | none => exact h
  | some usage =>
      intro a ha
      rcases List.mem_append.1 ha with ha | ha
      · obtain ⟨w, -, rfl⟩ := List.mem_map.1 ha
        rfl
      · exact h a ha

/-- When the next action does not wait, no action does. -/
theorem WaitInv.settled {s : Process} (h : WaitInv s) {a : Action} {todo : List Action}
    (htodo : s.todo = a :: todo) : Settled todo := by
  have htail := h.tail
  rw [htodo] at htail
  exact htail

theorem settled_mainMove {config : Config} {s t : Process} (hI : WaitInv s)
    (h : s.MainMove config t) :
    (Settled t.todo ∧ t.children = s.children ∧ s.todo.head?.bind Action.awaits = none) ∨
      (∃ todo, t.todo = .waitpid s.children.length :: todo ∧ Settled todo ∧
        t.children = s.children ++ [.forked] ∧ s.todo.head?.bind Action.awaits = none) ∨
      (∃ k todo, t.todo = .waiting k :: todo ∧ Settled todo ∧ t.children = s.children ∧
        s.todo.head?.bind Action.awaits = some k) ∨
      (∃ k, Settled t.todo ∧
        t.children = s.children.modify k (fun c => { c with reaped := true }) ∧
        s.todo.head?.bind Action.awaits = some k) := by
  cases h with
  | cycle htodo =>
      refine Or.inl ⟨settled_cycleActions config, rfl, ?_⟩
      rw [htodo]
      rfl
  | @returned a todo c prev htodo ha =>
      refine Or.inl ⟨settled_finish (hI.settled htodo) _ _, ?_, ?_⟩
      · exact Process.finish_children _ _ _
      · rw [htodo]
        exact ha
  | @fork g todo htodo =>
      refine Or.inr (Or.inl ⟨todo, rfl, hI.settled htodo, rfl, ?_⟩)
      rw [htodo]
      rfl
  | @reap a todo k status htodo ha _ =>
      refine Or.inr (Or.inr (Or.inr ⟨k, ?_, rfl, ?_⟩))
      · exact List.forall_mem_cons.2 ⟨rfl, hI.settled htodo⟩
      · rw [htodo]
        exact ha
  | @block k todo htodo _ =>
      refine Or.inr (Or.inr (Or.inl ⟨k, todo, rfl, hI.settled htodo, rfl, ?_⟩))
      rw [htodo]
      rfl
  | lock htodo | set htodo | unlock htodo | sleep htodo =>
      refine Or.inl ⟨hI.settled htodo, rfl, ?_⟩
      rw [htodo]
      rfl

/-- A step that neither forks nor reaps nor moves the main loop. -/
theorem WaitInv.congr {s t : Process} (h : WaitInv s) (htodo : t.todo = s.todo)
    (hchildren : t.children = s.children) : WaitInv t where
  tail := by
    rw [htodo]
    exact h.tail
  unreaped := by
    rw [htodo, hchildren]
    exact h.unreaped

theorem Reaped.congr {s t : Process} (h : Reaped s) (htodo : t.todo = s.todo)
    (hchildren : t.children = s.children) : Reaped t := by
  intro k c
  rw [hchildren, htodo]
  exact h k c

/-- What a step of a child does to the list of children. -/
theorem getElem?_set_child {children : List Child} {k : ℕ} {c d : Child} {j : ℕ} {e : Child}
    (hc : children[k]? = some c) (hreaped : d.reaped = c.reaped) :
    (children.set k d)[j]? = some e → ∃ e', children[j]? = some e' ∧ e'.reaped = e.reaped := by
  intro h
  by_cases hj : k = j
  · subst hj
    rw [List.getElem?_set_self (List.getElem?_eq_some_iff.1 hc).1, Option.some_inj] at h
    exact ⟨c, hc, by rw [← h, hreaped]⟩
  · rw [List.getElem?_set_ne hj] at h
    exact ⟨e, h, rfl⟩

/-- **The place of `waitpid` in the main loop is kept by every step.** -/
theorem waitInv_step {config : Config} {s t : Process} {l : ProcessLabel} (hI : WaitInv s)
    (h : (process config).step s l = some t) : WaitInv t := by
  cases process_move h with
  | loop _ _ hloop =>
      rcases settled_mainMove hI (mainStep_move hloop) with ⟨hsettled, -, -⟩ |
        ⟨todo, htodo, hsettled, hchildren, -⟩ | ⟨k, todo, htodo, hsettled, hchildren, hk⟩ |
        ⟨k, hsettled, -, -⟩
      · exact hsettled.waitInv
      · refine ⟨by rw [htodo]; exact hsettled, fun k hk => ?_⟩
        rw [htodo] at hk
        obtain rfl : s.children.length = k := Option.some_inj.1 hk
        exact ⟨.forked, by rw [hchildren]; simp, rfl⟩
      · refine ⟨by rw [htodo]; exact hsettled, fun j hj => ?_⟩
        rw [htodo] at hj
        obtain rfl : k = j := Option.some_inj.1 hj
        rw [hchildren]
        exact hI.unreaped k hk
      · exact hsettled.waitInv
  | server => exact hI.congr rfl rfl
  | @handler u env f rest t _ _ _ hstep =>
      obtain ⟨htodo, -, -, hchildren, -⟩ := hstep ▸ s.handlerStep_loop u f rest
      exact hI.congr htodo hchildren
  | @usr1 u =>
      rcases Process.usr1_eq u s with ⟨todo, -, hblocked, heq⟩ | ⟨-, heq⟩
      · obtain ⟨-, k, htodo, -⟩ := Process.blocked_eq_some.1 hblocked
        exact heq ▸ (settled_finish (hI.settled htodo) _ _).waitInv
      · exact heq ▸ hI.congr rfl rfl
  | deliver => exact hI.congr rfl rfl
  | @child k o c d temp hc hstep =>
      refine ⟨hI.tail, fun j hj => ?_⟩
      obtain ⟨e, he, hreaped⟩ := hI.unreaped j hj
      by_cases hkj : k = j
      · subst hkj
        refine ⟨d, List.getElem?_set_self (List.getElem?_eq_some_iff.1 hc).1, ?_⟩
        obtain rfl := Option.some_inj.1 (hc.symm.trans he)
        rw [(Child.step_spec hstep).1, hreaped]
      · exact ⟨e, (List.getElem?_set_ne hkj).trans he, hreaped⟩

/-! ### Requests that arrive while `waitpid` is blocked -/

/-- No request interrupts `waitpid`: `SIGUSR1` is delivered to the main thread only while it is not
blocked there. -/
def QuietWait (s : Process) : ProcessLabel → Prop
  | .usr1 .main => s.blocked = none
  | _ => True

instance (s : Process) : (l : ProcessLabel) → Decidable (QuietWait s l)
  | .usr1 .main => inferInstanceAs (Decidable (s.blocked = none))
  | .usr1 .server | .run _ _ | .child _ _ | .deliver _ _ => isTrue trivial

/-- Away from a blocked `waitpid` a request only adds a reply. -/
theorem usr1_eq_answer {s : Process} {u : Thread} (h : QuietWait s (.usr1 u)) :
    s.usr1 u = s.answer := by
  rcases Process.usr1_eq u s with ⟨todo, rfl, hblocked, -⟩ | ⟨-, heq⟩
  · have hnone : s.blocked = none := h
    rw [hnone] at hblocked
    exact absurd hblocked (by simp)
  · exact heq

/-- **The children are reaped, as long as no request interrupts `waitpid`.** -/
theorem reaped_step {config : Config} {s t : Process} {l : ProcessLabel} (hI : WaitInv s)
    (hreaped : Reaped s) (hl : QuietWait s l) (h : (process config).step s l = some t) :
    Reaped t := by
  cases process_move h with
  | loop _ _ hloop =>
      rcases settled_mainMove hI (mainStep_move hloop) with ⟨-, hchildren, hhead⟩ |
        ⟨todo, htodo, -, hchildren, hhead⟩ | ⟨k, todo, htodo, -, hchildren, hhead⟩ |
        ⟨k, -, hchildren, hhead⟩
      · intro j c hc hj
        rw [hchildren] at hc
        have hwaits := hreaped j c hc hj
        rw [hhead] at hwaits
        exact absurd hwaits (by simp)
      · intro j c hc hj
        rw [hchildren, List.getElem?_append] at hc
        split at hc
        · have hwaits := hreaped j c hc hj
          rw [hhead] at hwaits
          exact absurd hwaits (by simp)
        · -- the new child is the one `waitpid` is called for next
          have hlast : j = s.children.length := by
            have hlt := (List.getElem?_eq_some_iff.1 hc).1
            rw [List.length_singleton] at hlt
            omega
          rw [htodo, hlast]
          rfl
      · intro j c hc hj
        rw [hchildren] at hc
        have hwaits := hreaped j c hc hj
        rw [hhead] at hwaits
        rw [htodo]
        exact hwaits
      · intro j c hc hj
        rw [hchildren, List.getElem?_modify] at hc
        -- the child that is reaped was the only one that had not been
        by_cases hkj : k = j
        · simp only [if_pos hkj, Option.map_eq_map] at hc
          obtain ⟨e, -, he⟩ := Option.map_eq_some_iff.1 hc
          rw [← he] at hj
          exact absurd hj (by simp)
        · simp only [if_neg hkj, Option.map_eq_map, Option.map_id'] at hc
          have hwaits := hreaped j c hc hj
          rw [hhead] at hwaits
          exact absurd (Option.some_inj.1 hwaits) hkj
  | server => exact hreaped.congr rfl rfl
  | @handler u env f rest t _ _ _ hstep =>
      obtain ⟨htodo, -, -, hchildren, -⟩ := hstep ▸ s.handlerStep_loop u f rest
      exact hreaped.congr htodo hchildren
  | @usr1 u => exact usr1_eq_answer hl ▸ hreaped.congr rfl rfl
  | deliver => exact hreaped.congr rfl rfl
  | child hc hstep =>
      intro j e he hj
      obtain ⟨e', he', hsame⟩ := getElem?_set_child hc (Child.step_spec hstep).1 he
      exact hreaped j e' he' (hsame.trans hj)

/-- **A request that interrupts `waitpid` leaves a child that nobody waits for.** -/
theorem not_reaped_of_step {config : Config} {s t : Process} {l : ProcessLabel} (hI : WaitInv s)
    (hl : ¬ QuietWait s l) (h : (process config).step s l = some t) : ¬ Reaped t := by
  cases process_move h with
  | loop | server | handler | deliver | child => exact absurd trivial hl
  | @usr1 u =>
      cases u with
      | server => exact absurd trivial hl
      | main =>
          rcases Process.usr1_eq .main s with ⟨todo, -, hblocked, heq⟩ | ⟨hne, -⟩
          · obtain ⟨-, k, htodo, -⟩ := Process.blocked_eq_some.1 hblocked
            obtain ⟨c, hc, hunreaped⟩ := hI.unreaped k (by rw [htodo]; rfl)
            intro hreaped
            have hwaits := hreaped k c (by rw [heq, Process.finish_children]; exact hc) hunreaped
            rw [heq, (settled_finish (hI.settled htodo) _ _).head] at hwaits
            exact absurd hwaits (by simp)
          · refine absurd ?_ hl
            have hnone : s.blocked = none := by
              rw [← Option.not_isSome_iff_eq_none]
              exact fun hsome => hne ⟨rfl, hsome⟩
            exact hnone

/-! ### Erasing the requests -/

/-- **Requests away from a blocked `waitpid` can be erased.** -/
theorem run_erase_requests {config : Config} {s t : Process} {ls : List ProcessLabel}
    (hquiet : (process config).Along QuietWait s ls) (hrun : (process config).run s ls = some t) :
    ∃ v, (process config).run s (ls.filter fun l => !l.isRequest) = some v ∧
      v.withReplies [] = t.withReplies [] := by
  refine Machine.run_erase (m := process config) (p := QuietWait) ?_ ?_ rfl hquiet hrun
  · intro s t l s' hkeep hview hstep
    -- the two states differ in their replies only, which the step does not read
    have ht : t = s.withReplies t.replies := by
      rw [← show (s.withReplies []).withReplies t.replies = s.withReplies t.replies from rfl, hview]
      rfl
    have hnot : l.isRequest = false := by simpa using hkeep
    refine ⟨s'.withReplies t.replies, ?_, rfl⟩
    rw [ht, step_withReplies t.replies hnot, hstep]
    rfl
  · intro s l s' hdrop hl hstep
    have hrequest : l.isRequest = true := by simpa using hdrop
    cases process_move hstep with
    | loop | server | handler | deliver | child => simp [ProcessLabel.isRequest] at hrequest
    | @usr1 u =>
        rw [usr1_eq_answer hl]
        rfl

/-- **When status requests do not disturb sampling.**  A run reads, publishes and tracks the same
as the run without its deliveries of `SIGUSR1`, and has reaped every child when the call that
forked it returns, if and only if no `SIGUSR1` is delivered to the main thread while it is blocked
in `waitpid`. -/
theorem usr1_transparent_iff (config : Config) (globals : Globals) (temp : TempFile)
    (server : ServerState) (ls : List ProcessLabel) (s : Process)
    (hrun : (process config).run (.start globals temp server) ls = some s) :
    ((∃ v, (process config).run (.start globals temp server)
          (ls.filter fun l => !l.isRequest) = some v ∧ v.trace = s.trace) ∧
        (process config).Throughout Reaped (.start globals temp server) ls) ↔
      (process config).Along QuietWait (.start globals temp server) ls := by
  have hwait : WaitInv (.start globals temp server) := Settled.waitInv fun a ha =>
    absurd ha List.not_mem_nil
  have hreaped : Reaped (.start globals temp server) := by
    intro k c hc
    exact absurd hc (by simp [Process.start])
  constructor
  · -- the first request that interrupts `waitpid` leaves a child behind
    rintro ⟨-, hthroughout⟩
    by_contra hcond
    obtain ⟨ls₁, l, ls₂, t, t', rfl, ht, hl, -, hn⟩ := Machine.exists_of_not_along hcond hrun
    have hI : WaitInv t := Machine.run_invariant (p := fun _ _ => True)
      (fun _ _ _ hI _ h => waitInv_step hI h) hwait (Machine.along_true _ ls₁) ht
    refine not_reaped_of_step hI hn hl (hthroughout (ls₁ ++ [l]) ls₂ t' (by simp) ?_)
    rw [Machine.run_append ht, Machine.run_singleton, hl]
  · intro hquiet
    obtain ⟨v, hv, hview⟩ := run_erase_requests hquiet hrun
    have htrace : (v.withReplies []).trace = (s.withReplies []).trace := by rw [hview]
    refine ⟨⟨v, hv, htrace⟩, ?_⟩
    have hstep : ∀ s l t, WaitInv s ∧ Reaped s → QuietWait s l →
        (process config).step s l = some t → WaitInv t ∧ Reaped t :=
      fun s l t hI hl h => ⟨waitInv_step hI.1 h, reaped_step hI.1 hI.2 hl h⟩
    intro ls₁ ls₂ t heq ht
    exact (Machine.throughout_of_along hstep ⟨hwait, hreaped⟩ hquiet hrun ls₁ ls₂ t heq ht).2

/-- A cycle with status requests before the fork, on the server thread during the wait and after
the child has ended. -/
def quietCycle : List ProcessLabel :=
  [.advance .main, .usr1 .main, .advance .main, .advance .main, .usr1 .server, .child 0 .ok,
    .child 0 .ok, .child 0 .ok, .child 0 (.write "Tasks: 212 total,   3 running\n".toList),
    .child 0 (.exit 0), .usr1 .main, .advance .main, .advance .main]

/-- The quiet cycle is the cycle without its requests. -/
theorem usr1_transparent_quietCycle :
    ∃ s, (process processesConfig).run .serving quietCycle = some s ∧
      (∃ v, (process processesConfig).run .serving (quietCycle.filter fun l => !l.isRequest) =
        some v ∧ v.trace = s.trace) ∧
      (process processesConfig).Throughout Reaped .serving quietCycle := by
  have hsome : ((process processesConfig).run .serving quietCycle).isSome = true := by
    decide +kernel
  obtain ⟨s, hs⟩ := Option.isSome_iff_exists.1 hsome
  exact ⟨s, hs, (usr1_transparent_iff processesConfig .boot .absent .serving quietCycle s hs).2
    (by decide +kernel)⟩

/-- A status request that arrives while the main thread waits for `top`. -/
def interruptedWait : List ProcessLabel := List.replicate 3 (.advance .main) ++ [.usr1 .main]

/-- **An interrupted wait.**  `get_processes_usage` fails, which it does not without the request,
and its child is not reaped. -/
theorem usr1_interrupts :
    ¬ ∀ (config : Config) (globals : Globals) (temp : TempFile) (server : ServerState)
      (ls : List ProcessLabel) (s : Process),
      (process config).run (.start globals temp server) ls = some s →
      (∃ v, (process config).run (.start globals temp server)
          (ls.filter fun l => !l.isRequest) = some v ∧ v.trace = s.trace) ∧ Reaped s := by
  intro h
  have hview : ((process processesConfig).run .serving interruptedWait).map
      (fun s => (s.children, s.todo)) = some ([.forked], [.sleep]) := by decide +kernel
  obtain ⟨s, hs, hv⟩ := Option.map_eq_some_iff.1 hview
  simp only [Prod.mk.injEq] at hv
  obtain ⟨-, hreaped⟩ := h processesConfig .boot .absent .serving interruptedWait s hs
  have hwaits := hreaped 0 .forked (by rw [hv.1]; rfl) rfl
  rw [hv.2] at hwaits
  exact absurd hwaits (by simp [Action.awaits])

end Monitor
