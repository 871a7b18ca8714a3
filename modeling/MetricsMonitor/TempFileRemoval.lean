/-
**The temporary file at the end of the monitor.**

`handle_sigint_and_sigterm` removes `TEMP_PROC_METRICS_FILE` if it is there, and does nothing about
the child that `get_processes_usage` may have forked just before.  The child opens the file with
`O_CREAT` whenever it comes to it, so the file is there in the end when it comes to it late.

* `Monitor.CreatedInTime` — no child creates the file once a handler has looked for it;
* `Monitor.removed_step` — **a handler that has looked for the file leaves none behind**;
* `Monitor.kept_step` — a file that is created later stays;
* `Monitor.tempFile_removed_iff` — **when the file is gone in the end**;
* `Monitor.tempFile_left` — a run that leaves it.
-/

import MetricsMonitor.TermHandler

set_option relaxedAutoImplicit false
set_option autoImplicit false

namespace Monitor

/-! ### Creation and removal -/

/-- A child creates the temporary file, or opens the one there is. -/
def Creates (s : Process) : ProcessLabel → Bool
  | .child k .ok => s.children[k]?.any (·.pc = .opening)
  | _ => false

/-- The process has exited, or a thread in a handler has looked for the temporary file. -/
def Process.pastRemoval (s : Process) : Prop :=
  s.exited = true ∨ ∃ u, s.alive u = true ∧ ∃ f ∈ s.frames u, f.pc.pastRemoval = true

/-- No child creates the temporary file once a handler has looked for it. -/
def CreatedInTime (s : Process) (l : ProcessLabel) : Prop :=
  Creates s l = true → ¬ s.pastRemoval

instance : Fintype Thread := ⟨{.main, .server}, fun u => by cases u <;> decide⟩

instance (s : Process) : Decidable s.pastRemoval := inferInstanceAs (Decidable (_ ∨ _))

instance (s : Process) (l : ProcessLabel) : Decidable (CreatedInTime s l) :=
  inferInstanceAs (Decidable (_ → _))

theorem creates_child {s : Process} {k : ℕ} {o : ChildStep} {c : Child}
    (hc : s.children[k]? = some c) :
    Creates s (.child k o) = true ↔ c.pc = .opening ∧ o = .ok := by
  cases o with
  | ok => simp [Creates, hc]
  | fail | write | exit | kill => simp [Creates]

theorem alive_congr {s t : Process} (h : t.server = s.server) {u : Thread}
    (hu : t.alive u = true) : s.alive u = true := by
  cases u with
  | main => rfl
  | server => rwa [Process.alive, h] at hu

/-- A thread that has ended stays so. -/
theorem alive_step {config : Config} {s t : Process} {l : ProcessLabel} {u : Thread}
    (h : (process config).step s l = some t) (hu : t.alive u = true) : s.alive u = true := by
  cases process_move h with
  | loop _ _ hloop => exact alive_congr (Process.mainStep_untouched hloop).server hu
  | server _ halive =>
      cases u with
      | main => rfl
      | server => exact halive
  | handler _ halive _ hstep =>
      cases handlerStep_move hstep with
      | next _ _ _ hserver => exact alive_congr hserver hu
      | ended hself =>
          cases u with
          | main => rfl
          | server => exact hself ▸ halive
      | exit => exact alive_congr rfl hu
  | usr1 => exact alive_congr (Process.usr1_untouched ..).server hu
  | deliver | child => exact alive_congr rfl hu

theorem Process.pastRemoval_congr {s t : Process} (h : t.pastRemoval)
    (hexited : t.exited = s.exited) (hframes : t.frames = s.frames)
    (halive : ∀ u, t.alive u = true → s.alive u = true) : s.pastRemoval := by
  rcases h with h | ⟨u, hu, f, hf, hpc⟩
  · exact Or.inl (hexited ▸ h)
  · exact Or.inr ⟨u, halive u hu, f, hframes ▸ hf, hpc⟩

/-- **A handler that has looked for the file leaves none behind**, as long as no child creates one
after it. -/
theorem removed_step {config : Config} {s t : Process} {l : ProcessLabel}
    (hI : s.pastRemoval → s.temp.name = none) (hl : CreatedInTime s l)
    (h : (process config).step s l = some t) (ht : t.pastRemoval) : t.temp.name = none := by
  have halive (u : Thread) : t.alive u = true → s.alive u = true := alive_step h
  cases process_move h with
  | loop _ _ hloop =>
      have hsame := Process.mainStep_untouched hloop
      rw [hsame.temp]
      exact hI (Process.pastRemoval_congr ht hsame.exited hsame.frames halive)
  | server => exact hI (Process.pastRemoval_congr ht rfl rfl halive)
  | @handler u env f rest t _ hu hframes hstep =>
      have hf : f ∈ s.frames u := hframes ▸ List.mem_cons_self ..
      cases handlerStep_move hstep with
      | @next pc _ _ hnext _ hexited _ htemp hremoved =>
          rcases htemp with hsame | hnone
          · rw [hsame]
            rcases ht with ht | ⟨v, hv, g, hg, hpc⟩
            · exact hI (Or.inl (hexited ▸ ht))
            · by_cases huv : v = u
              · subst huv
                rw [hnext, Function.update_self, List.mem_cons] at hg
                rcases hg with rfl | hg
                · -- the innermost handler, which may just have found no file
                  rcases hremoved hpc with hf' | hnone
                  · exact hI (Or.inr ⟨v, hu, f, hf, hf'⟩)
                  · exact hsame ▸ hnone
                · exact hI (Or.inr ⟨v, hu, g, hframes ▸ List.mem_cons_of_mem f hg, hpc⟩)
              · rw [hnext, Function.update_of_ne huv] at hg
                exact hI (Or.inr ⟨v, halive v hv, g, hg, hpc⟩)
          · exact hnone
      | ended => exact hI (Process.pastRemoval_congr ht rfl rfl halive)
      | exit hpc => exact hI (Or.inr ⟨u, hu, f, hf, by rw [hpc]; rfl⟩)
  | @usr1 u =>
      have hsame := Process.usr1_untouched u s
      rw [hsame.temp]
      exact hI (Process.pastRemoval_congr ht hsame.exited hsame.frames halive)
  | @deliver signal u =>
      rcases ht with ht | ⟨v, hv, g, hg, hpc⟩
      · exact hI (Or.inl ht)
      · refine hI (Or.inr ⟨v, halive v hv, g, ?_, hpc⟩)
        by_cases huv : v = u
        · subst huv
          rw [Process.enter_frames, Function.update_self, List.mem_cons] at hg
          rcases hg with rfl | hg
          · exact absurd hpc (by simp [HandlerPc.pastRemoval])
          · exact hg
        · rwa [Process.enter_frames, Function.update_of_ne huv] at hg
  | @child k o c d temp hc hstep =>
      have hpast : s.pastRemoval := Process.pastRemoval_congr ht rfl rfl halive
      rcases (Child.step_spec hstep).2 with ⟨hopening, ho, -⟩ | ⟨-, hname⟩
      · exact absurd hpast (hl ((creates_child hc).2 ⟨hopening, ho⟩))
      · exact hname.trans (hI hpast)

/-! ### A file that is created later -/

/-- The file is there, and no handler will look for it any more. -/
structure Kept (s : Process) : Prop where
  name : s.temp.name.isSome = true
  past : s.exited = true ∨ ∀ u, ∀ f ∈ s.frames u, f.pc.pastRemoval = true

theorem Kept.congr {s t : Process} (h : Kept s) (htemp : t.temp = s.temp)
    (hexited : t.exited = s.exited) (hframes : t.frames = s.frames) : Kept t where
  name := by
    rw [htemp]
    exact h.name
  past := by
    rw [hexited, hframes]
    exact h.past

/-- **A file that is created after a handler has looked for it stays**, unless another handler
starts. -/
theorem kept_step {config : Config} {s t : Process} {l : ProcessLabel} (hI : Kept s)
    (hl : s.exited = true ∨ l.isDelivery = false) (h : (process config).step s l = some t) :
    Kept t := by
  cases process_move h with
  | loop _ _ hloop =>
      have hsame := Process.mainStep_untouched hloop
      exact hI.congr hsame.temp hsame.exited hsame.frames
  | server => exact hI.congr rfl rfl rfl
  | @handler u env f rest t hrunning _ hframes hstep =>
      have hpast := hI.past.resolve_left (by rw [hrunning]; simp)
      cases handlerStep_move hstep with
      | @next pc _ _ hnext _ _ _ _ _ hkept =>
          obtain ⟨hpc, htemp⟩ := hkept (hpast u f (hframes ▸ List.mem_cons_self ..))
          refine ⟨by rw [htemp]; exact hI.name, Or.inr fun v g hg => ?_⟩
          by_cases huv : v = u
          · subst huv
            rw [hnext, Function.update_self, List.mem_cons] at hg
            rcases hg with rfl | hg
            · exact hpc
            · exact hpast v g (hframes ▸ List.mem_cons_of_mem f hg)
          · rw [hnext, Function.update_of_ne huv] at hg
            exact hpast v g hg
      | ended => exact ⟨hI.name, Or.inr hpast⟩
      | exit => exact ⟨hI.name, Or.inl rfl⟩
  | @usr1 u =>
      have hsame := Process.usr1_untouched u s
      exact hI.congr hsame.temp hsame.exited hsame.frames
  | deliver hrunning =>
      rcases hl with hexited | hl
      · exact absurd (hrunning.symm.trans hexited) (by simp)
      · exact absurd hl (by simp [ProcessLabel.isDelivery])
  | child hc hstep =>
      refine ⟨?_, hI.past⟩
      rcases (Child.step_spec hstep).2 with ⟨-, -, hname⟩ | ⟨-, hname⟩
      · exact hname
      · rw [hname]
        exact hI.name

/-! ### Counting the handlers -/

/-- The handlers that have started. -/
def handlers (s : Process) : ℕ := (s.frames .main).length + (s.frames .server).length

theorem length_update (frames : Thread → List Frame) (u : Thread) (l : List Frame) :
    (Function.update frames u l .main).length + (Function.update frames u l .server).length +
        (frames u).length =
      (frames .main).length + (frames .server).length + l.length := by
  cases u with
  | main =>
      rw [Function.update_self, Function.update_of_ne (by simp)]
      omega
  | server =>
      rw [Function.update_self, Function.update_of_ne (by simp)]
      omega

/-- A handler never returns, so there are as many as there were deliveries. -/
theorem handlers_step {config : Config} (s : Process) (l : ProcessLabel) (t : Process)
    (h : (process config).step s l = some t) :
    handlers t = handlers s + l.isDelivery.toNat := by
  cases process_move h with
  | loop _ _ hloop => rw [handlers, (Process.mainStep_untouched hloop).frames]; rfl
  | server => rfl
  | @handler u env f rest t _ _ hframes hstep =>
      cases handlerStep_move hstep with
      | @next pc _ _ hnext =>
          have hlength := length_update s.frames u ({ f with pc := pc } :: rest)
          rw [← hnext, hframes] at hlength
          simp only [handlers, ProcessLabel.isDelivery, Bool.toNat_false]
          simp only [List.length_cons] at hlength
          omega
      | ended | exit => rfl
  | usr1 => rw [handlers, (Process.usr1_untouched ..).frames]; rfl
  | @deliver signal u =>
      have hlength := length_update s.frames u (⟨signal, .access⟩ :: s.frames u)
      simp only [handlers, Process.enter_frames, ProcessLabel.isDelivery, Bool.toNat_true]
      simp only [List.length_cons] at hlength
      omega
  | child => rfl

theorem handlers_run {config : Config} {globals : Globals} {temp : TempFile}
    {server : ServerState} {ls : List ProcessLabel} {s : Process}
    (hrun : (process config).run (.start globals temp server) ls = some s) :
    handlers s = ls.countP ProcessLabel.isDelivery := by
  have hcount := Machine.balance_tally (f := handlers) (p := fun _ l => l.isDelivery)
    handlers_step hrun
  rw [Machine.tally_eq_countP hrun] at hcount
  rw [hcount]
  exact Nat.zero_add _

theorem length_le_handlers (s : Process) (u : Thread) : (s.frames u).length ≤ handlers s := by
  cases u with
  | main => exact Nat.le_add_right _ _
  | server => exact Nat.le_add_left _ _

/-- The only handler there is. -/
theorem eq_of_handlers_le_one {s : Process} (h : handlers s ≤ 1) {u v : Thread} {f g : Frame}
    (hf : f ∈ s.frames u) (hg : g ∈ s.frames v) : f = g := by
  have hlu := List.length_pos_of_mem hf
  have hlv := List.length_pos_of_mem hg
  rw [handlers] at h
  obtain rfl : u = v := by
    cases u <;> cases v <;> first | rfl | omega
  have hlength : (s.frames u).length = 1 := by
    cases u <;> omega
  obtain ⟨a, ha⟩ := List.length_eq_one_iff.1 hlength
  rw [ha, List.mem_singleton] at hf hg
  rw [hf, hg]

/-! ### The end of the monitor -/

/-- Creating the file puts it there and changes nothing else in the monitor. -/
theorem creates_step {config : Config} {s t : Process} {l : ProcessLabel}
    (hcreates : Creates s l = true) (h : (process config).step s l = some t) :
    t.temp.name.isSome = true ∧ t.exited = s.exited ∧ t.frames = s.frames := by
  cases process_move h with
  | loop | server | handler | usr1 | deliver => simp [Creates] at hcreates
  | child hc hchild =>
      refine ⟨?_, rfl, rfl⟩
      rcases (Child.step_spec hchild).2 with ⟨-, -, hname⟩ | ⟨hne, -⟩
      · exact hname
      · exact absurd ((creates_child hc).1 hcreates) hne

/-- With one delivery, a file that is created after the handler has looked for it is there in the
end. -/
theorem kept_of_late {config : Config} {globals : Globals} {temp : TempFile} {server : ServerState}
    {ls₁ ls₂ : List ProcessLabel} {l : ProcessLabel} {s t u : Process}
    (hcount : (ls₁ ++ l :: ls₂).countP ProcessLabel.isDelivery ≤ 1)
    (hs : (process config).run (.start globals temp server) ls₁ = some s)
    (hstep : (process config).step s l = some t) (hlate : ¬ CreatedInTime s l)
    (hu : (process config).run t ls₂ = some u) : Kept u := by
  rw [CreatedInTime, Classical.not_imp, not_not] at hlate
  obtain ⟨hcreates, hpast⟩ := hlate
  obtain ⟨hname, hexited, hframes⟩ := creates_step hcreates hstep
  rcases hpast with hgone | ⟨v, -, f, hf, hpc⟩
  · -- the process has exited, so no thread takes a step
    have hgone' : t.exited = true := hexited.trans hgone
    have hboth : Kept u ∧ u.exited = true := Machine.run_invariant
      (I := fun s => Kept s ∧ s.exited = true) (p := fun _ _ => True)
      (fun _ _ _ hI _ h => ⟨kept_step hI.1 (Or.inl hI.2) h, exited_step hI.2 h⟩)
      ⟨⟨hname, Or.inl hgone'⟩, hgone'⟩ (Machine.along_true _ ls₂) hu
    exact hboth.1
  · -- the handler is the only one, and no other will start
    have hhandlers := handlers_run hs
    have hlength := length_le_handlers s v
    have hpos := List.length_pos_of_mem hf
    rw [List.countP_append, List.countP_cons] at hcount
    have hone : handlers s ≤ 1 := by omega
    have hnone : ls₂.countP ProcessLabel.isDelivery = 0 := by omega
    have hquiet : ∀ l ∈ ls₂, l.isDelivery = false := fun l hl =>
      Bool.eq_false_iff.2 (List.countP_eq_zero.1 hnone l hl)
    have hkept : Kept t := by
      refine ⟨hname, Or.inr fun w g hg => ?_⟩
      rw [hframes] at hg
      exact eq_of_handlers_le_one hone hf hg ▸ hpc
    exact Machine.run_invariant (I := Kept) (p := fun _ l => l.isDelivery = false)
      (fun _ _ _ hI hl h => kept_step hI (Or.inr hl) h) hkept (Machine.along_of_forall hquiet) hu

/-- **When the temporary file is gone in the end.**  When the process has exited, the file does not
exist if no child has created it after a handler had looked for it, and with a single delivery of
`SIGINT` or `SIGTERM` only then. -/
theorem tempFile_removed_iff (config : Config) (globals : Globals) (temp : TempFile)
    (server : ServerState) (ls : List ProcessLabel) (s : Process)
    (hrun : (process config).run (.start globals temp server) ls = some s)
    (hexited : s.exited = true) :
    ((process config).Along CreatedInTime (.start globals temp server) ls →
        s.temp.name = none) ∧
      (ls.countP ProcessLabel.isDelivery ≤ 1 →
        (s.temp.name = none ↔
          (process config).Along CreatedInTime (.start globals temp server) ls)) := by
  have hremoved : (process config).Along CreatedInTime (.start globals temp server) ls →
      s.temp.name = none := fun hintime =>
    Machine.run_invariant (I := fun s => s.pastRemoval → s.temp.name = none)
      (fun _ _ _ hI hl h => removed_step hI hl h)
      (fun h => absurd h (by simp [Process.pastRemoval, Process.start])) hintime hrun
      (Or.inl hexited)
  refine ⟨hremoved, fun hcount => ⟨fun hnone => ?_, hremoved⟩⟩
  by_contra hlate
  -- the first child that is late creates a file that stays
  obtain ⟨ls₁, l, ls₂, t, t', rfl, ht, hl, hs, hn⟩ := Machine.exists_of_not_along hlate hrun
  have hkept := (kept_of_late hcount ht hl hn hs).name
  rw [hnone] at hkept
  exact absurd hkept (by simp)

/-- A child that has the temporary file open when `SIGTERM` arrives, and goes on after the monitor
has exited. -/
def openedInTime : List ProcessLabel :=
  List.replicate 2 (.advance .main) ++ [.child 0 .ok, .deliver .term .main] ++
    List.replicate 6 (.advance .main) ++
    [.child 0 .ok, .child 0 .ok, .child 0 (.write "Tasks:".toList), .child 0 (.exit 0)]

theorem tempFile_removed_openedInTime :
    ∃ s, (process processesConfig).run .serving openedInTime = some s ∧ s.exited = true ∧
      (∀ c ∈ s.children, c.status.isSome = true) ∧ s.temp.name = none := by
  have hview : ((process processesConfig).run .serving openedInTime).map
      (fun s => (s.exited, s.children)) = some (true, [⟨.exited 0, false⟩]) := by decide +kernel
  obtain ⟨s, hs, hv⟩ := Option.map_eq_some_iff.1 hview
  simp only [Prod.mk.injEq] at hv
  refine ⟨s, hs, hv.1, by rw [hv.2]; decide, ?_⟩
  exact ((tempFile_removed_iff processesConfig .boot .absent .serving openedInTime s hs hv.1).2
    (by decide)).2 (by decide +kernel)

/-- A child that opens the temporary file only after the handler has looked for it. -/
def openedLate : List ProcessLabel :=
  List.replicate 2 (.advance .main) ++ [.deliver .term .main, .advance .main, .child 0 .ok] ++
    List.replicate 4 (.advance .main) ++
    [.child 0 .ok, .child 0 .ok, .child 0 (.write "Tasks:".toList), .child 0 (.exit 0)]

/-- **The file is left behind.** -/
theorem tempFile_left :
    ¬ ∀ (config : Config) (globals : Globals) (temp : TempFile) (server : ServerState)
      (ls : List ProcessLabel) (s : Process),
      (process config).run (.start globals temp server) ls = some s →
      ls.countP ProcessLabel.isDelivery ≤ 1 → s.exited = true →
      (∀ c ∈ s.children, c.status.isSome = true) → s.temp.name = none := by
  intro h
  have hview : ((process processesConfig).run .serving openedLate).map
      (fun s => (s.exited, s.children, s.temp.name)) =
        some (true, [⟨.exited 0, false⟩], some 0) := by decide +kernel
  obtain ⟨s, hs, hv⟩ := Option.map_eq_some_iff.1 hview
  simp only [Prod.mk.injEq] at hv
  have hnone := h processesConfig .boot .absent .serving openedLate s hs (by decide) hv.1
    (by rw [hv.2.1]; decide)
  rw [hv.2.2] at hnone
  exact absurd hnone (by simp)

end Monitor
