/-
**Runs in which a reader succeeds.**

Every reader can succeed, whatever has happened before: the main loop, left alone with the right
files, comes from the call of an update function to its loop over the gauges.

* `Monitor.Process.SameLock` — what the main loop leaves alone on its way there;
* `Monitor.exists_reading` — every reader of `/proc` can succeed;
* `Monitor.exists_run_update` — **a run from the call of an update function to its gauges**.
-/

import MetricsMonitor.ProcessCounts
import MetricsMonitor.TermHandler

set_option relaxedAutoImplicit false
set_option autoImplicit false

namespace Monitor

open FloatingPoint

/-- What the main loop leaves alone on its way to the gauges. -/
structure Process.SameLock (s t : Process) : Prop where
  exited : t.exited = s.exited
  frames : t.frames = s.frames
  held : t.held = s.held
  destroyed : t.destroyed = s.destroyed

theorem Process.SameLock.trans {s t u : Process} (hst : s.SameLock t) (htu : t.SameLock u) :
    s.SameLock u :=
  ⟨htu.exited.trans hst.exited, htu.frames.trans hst.frames, htu.held.trans hst.held,
    htu.destroyed.trans hst.destroyed⟩

theorem Process.finish_sameLock (c : Call) (todo : List Action) (s : Process) :
    s.SameLock (s.finish c todo) :=
  have h := s.finish_untouched c todo
  ⟨h.exited, h.frames, s.finish_held c todo, h.destroyed⟩

/-- The loop of an update function starts with the mutex and a gauge. -/
theorem writerActions_eq_cons (g : Group) (usage : Fin g.size → ℚ) :
    ∃ q value ws, writerActions g usage = .lock :: .set q value :: ws := by
  cases g with
  | cpu | memory | disk | network | processes => exact ⟨_, _, _, rfl⟩

/-- Whatever the static variables of `get_cpu_usage` are, there are counters it accepts. -/
theorem exists_cpu_usage (prev : CpuTimes) : ∃ stat, 0 ≤ (getCpuUsage stat prev).1 := by
  have haccepted (content : String) (t : CpuTimes)
      (hread : cpuReading (some content.toList) = some t) (hne : t.total ≠ prev.total) :
      0 ≤ (getCpuUsage (some content.toList) prev).1 := by
    have hsub : t.total - prev.total ≠ 0 := by grind
    rw [getCpuUsage_eq, cpuAccepted, hread, Option.filter_some, if_pos (by simpa using hsub)]
    exact t.usageSince_nonneg prev
  by_cases hone : prev.total = 1
  · exact ⟨_, haccepted "cpu  2 0 0 0 0 0 0 0" ⟨2, 0, 0, 0, 0, 0, 0, 0⟩
      (by decide +kernel) (by rw [hone]; decide)⟩
  · exact ⟨_, haccepted "cpu  1 0 0 0 0 0 0 0" ⟨1, 0, 0, 0, 0, 0, 0, 0⟩
      (by decide +kernel) (Ne.symm hone)⟩

/-- A child takes some steps while nothing else happens. -/
theorem run_child {config : Config} {s : Process} {k : ℕ} {c d : Child} {temp : TempFile}
    {os : List ChildStep} (hc : s.children[k]? = some c) (h : c.run s.temp os = some (d, temp)) :
    (process config).run s (os.map (.child k)) =
      some { s with children := s.children.set k d, temp := temp } := by
  induction os generalizing s c with
  | nil =>
      simp only [Child.run, List.foldlM_nil, Option.pure_def, Option.some_inj, Prod.mk.injEq] at h
      obtain ⟨rfl, rfl⟩ := h
      have hset : s.children.set k c = s.children := by
        obtain ⟨hk, rfl⟩ := List.getElem?_eq_some_iff.1 hc
        exact List.set_getElem_self hk
      rw [hset]
      rfl
  | cons o os ih =>
      obtain ⟨e, temp', hstep, htail⟩ := Child.run_cons_eq_some.1 h
      have hfirst : (process config).step s (.child k o) =
          some { s with children := s.children.set k e, temp := temp' } := by
        simp [process, Process.step, hc, hstep]
      rw [List.map_cons, Machine.run_cons hfirst, ih (c := e) ?_ htail, List.set_set]
      exact List.getElem?_set_self (List.getElem?_eq_some_iff.1 hc).1

/-- What happens while the main loop makes a call: `fork`, the steps of the child, which has the
number `k`, `waitpid` and the scan. -/
def callLabels (k : ℕ) (os : List ChildStep) : List ProcessLabel :=
  .advance .main :: (os.map (.child k) ++ [.advance .main, .advance .main])

/-- **A call with the child undisturbed**: its result is what the scan finds in the file that the
child leaves. -/
theorem run_processesCall {config : Config} {s : Process} {todo : List Action}
    {os : List ChildStep} {d : Child} {g : TempFile} {status : ℕ}
    (hexited : s.exited = false) (hframes : s.frames .main = [])
    (htodo : s.todo = .update .processes :: todo)
    (hchild : Child.forked.run s.temp os = some (d, g)) (hd : d.status = some status) :
    ∃ c, (process config).run s (callLabels s.children.length os) =
      some (Process.finish (.processes (scrapeProcesses status g.content)) todo
        { s with children := s.children ++ [c], temp := g }) := by
  let k := s.children.length
  let forked : Process :=
    { s with children := s.children ++ [.forked], todo := .waitpid k :: todo }
  let ended : Process :=
    { forked with children := forked.children.set k d, temp := g }
  have hset : forked.children.set k d = s.children ++ [d] := by simp [forked, k]
  have hexit : ended.exitStatus k = some status := by
    simp [ended, hset, k, Process.exitStatus, hd]
  have hfork : (process config).step s (.advance .main) = some forked := by
    rw [ProcessLabel.advance, step_run_main hexited hframes, Process.mainStep, htodo]
    rfl
  have hsteps : (process config).run forked (os.map (.child k)) = some ended :=
    run_child (c := .forked) (by simp [forked, k]) hchild
  have hreap : (process config).step ended (.advance .main) = some (ended.reap k status todo) := by
    have htodo' : ended.todo = .waitpid k :: todo := rfl
    refine (step_run_main (s := ended) hexited hframes .blank).trans ?_
    rw [Process.mainStep, htodo']
    dsimp only
    rw [hexit]
  have hscan : (process config).step (ended.reap k status todo) (.advance .main) =
      some ((ended.reap k status todo).finish (.processes (scrapeProcesses status g.content))
        todo) :=
    step_run_main (s := ended.reap k status todo) hexited hframes .blank
  refine ⟨{ d with reaped := true }, ?_⟩
  rw [callLabels, Machine.run_cons hfork, Machine.run_append hsteps, Machine.run_cons hreap,
    Machine.run_singleton, hscan]
  -- the child is the last one, and `waitpid` has marked it
  have hchildren : (ended.reap k status todo).children =
      s.children ++ [{ d with reaped := true }] := by
    change (forked.children.set k d).modify k (fun c => { c with reaped := true }) = _
    rw [hset, List.modify_eq_take_cons_drop (by simp [k])]
    simp [k]
  have hreaped : ended.reap k status todo = { s with
      children := s.children ++ [{ d with reaped := true }], temp := g,
      todo := .scan status :: todo } := by
    rw [← hchildren]
    rfl
  rw [hreaped]
  unfold Process.finish
  rfl

/-- Every reader of `/proc` can succeed. -/
theorem exists_reading (g : Group) (hg : g ≠ .processes) (prev : CpuTimes) :
    ∃ (proc : Proc) (i : Input), proc.input g = some i ∧
      (i.read toDouble prev).1.result.isSome = true := by
  cases g with
  | cpu =>
      obtain ⟨stat, hstat⟩ := exists_cpu_usage prev
      have hsome : (cpuResult (getCpuUsage stat prev).1).isSome = true := by
        rw [cpuResult, if_pos hstat]
        rfl
      exact ⟨⟨stat, none, none, none⟩, .cpu stat, rfl, hsome⟩
  | memory =>
      obtain ⟨meminfo, hsome⟩ : ∃ meminfo, (getMemoryUsage meminfo).isSome = true :=
        ⟨some "MemTotal: 16 kB\nMemAvailable: 6 kB\n".toList, by decide +kernel⟩
      exact ⟨⟨none, meminfo, none, none⟩, .memory meminfo, rfl, hsome⟩
  | disk =>
      obtain ⟨diskstats, hsome⟩ : ∃ diskstats, (getDiskUsage toDouble diskstats).isSome = true :=
        ⟨some "   8       0 sda 1 0 3 4 5 0 7 8\n".toList, by decide +kernel⟩
      exact ⟨⟨none, none, diskstats, none⟩, .disk diskstats, rfl, hsome⟩
  | network =>
      obtain ⟨netDev, hsome⟩ : ∃ netDev, (getNetworkUsage toDouble netDev).isSome = true :=
        ⟨some "en0: 1 2 3 4 0 0 0 0 5 6 7 8\n".toList, by decide +kernel⟩
      exact ⟨⟨none, none, none, netDev⟩, .network netDev, rfl, hsome⟩
  | processes => exact absurd rfl hg

/-- **The call of an update function can come to its gauges.** -/
theorem exists_run_update {config : Config} {s : Process} {g : Group} {todo : List Action}
    (hexited : s.exited = false) (hframes : s.frames .main = [])
    (htodo : s.todo = .update g :: todo) :
    ∃ ls c t, (process config).run s ls = some (t.finish c todo) ∧ c.result.isSome = true ∧
      (∀ l ∈ ls, l.isDelivery = false) ∧ s.SameLock t := by
  by_cases hg : g = .processes
  · subst hg
    let temp := s.temp.create.2.write s.temp.create.1 0 topOutput
    have hcall : Child.forked.run s.temp countingChild = some (⟨.exited 0, false⟩, temp) := rfl
    have hresult : (scrapeProcesses 0 temp.content).isSome = true := by
      rw [TempFile.content_write_create]
      decide +kernel
    obtain ⟨c, hrun⟩ := run_processesCall hexited hframes htodo hcall rfl
    refine ⟨_, _, _, hrun, hresult, fun l hl => ?_, ⟨rfl, rfl, rfl, rfl⟩⟩
    simp only [callLabels, List.mem_cons, List.mem_append, List.mem_map, List.not_mem_nil,
      or_false] at hl
    rcases hl with rfl | ⟨o, -, rfl⟩ | rfl | rfl
    · rfl
    · rfl
    · rfl
    · rfl
  · obtain ⟨proc, i, hi, hsome⟩ := exists_reading g hg s.prev
    refine ⟨[.run .main ⟨proc, true⟩], (i.read toDouble s.prev).1,
      { s with prev := (i.read toDouble s.prev).2 }, ?_,
      hsome, by simp [ProcessLabel.isDelivery], ⟨rfl, rfl, rfl, rfl⟩⟩
    rw [Machine.run_singleton, step_run_main hexited hframes, Process.mainStep, htodo]
    simp [hi]

end Monitor
