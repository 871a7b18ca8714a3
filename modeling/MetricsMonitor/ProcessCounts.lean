/-
**Calls of `get_processes_usage` one after another.**

A call forks a child, waits for its end, tests its exit status and scans the temporary file.  The
file stays from call to call, and a child that ends before its `open` has succeeded leaves in it
what an earlier call has written.  The status test is made to catch this, but `WEXITSTATUS` is
between 0 and 255 and never equal to `-1`.  When `waitpid` is interrupted the call returns at once,
and its child lives on beside those of later calls.

* `Monitor.Counting`, `Monitor.counting` — the calls, the children and the file as a machine;
* `Monitor.process_refines_counting` — **the main loop performs such calls**;
* `Monitor.Counting.Undisturbed` — nothing but the child of a call determines what the call scans;
* `Monitor.processesUsage_iff` — **when every result is counted in the output of its own child**.
-/

import MetricsMonitor.Process

set_option relaxedAutoImplicit false
set_option autoImplicit false

namespace Monitor

open FormattedInput FloatingPoint

/-! ### The calls -/

/-- Where the caller of `get_processes_usage` is. -/
inductive CountingPc
  /-- Between two calls. -/
  | idle
  /-- In `waitpid` for this child. -/
  | waiting (k : ℕ)
  /-- Behind `waitpid`, with the word of this child. -/
  | scanning (k status : ℕ)
  deriving DecidableEq

/-- The caller, the children, the file and what has happened so far. -/
structure Counting where
  pc : CountingPc
  children : List Child
  temp : TempFile
  /-- The steps that each child has taken. -/
  done : ℕ → List ChildStep
  /-- The child of each call that has returned, unless `fork` failed, and the result. -/
  returned : List (Option ℕ × Option (Fin 2 → ℚ))

/-- What happens next. -/
inductive CountingLabel
  /-- A call starts; `fork` succeeds or fails. -/
  | fork (ok : Bool)
  | child (k : ℕ) (o : ChildStep)
  /-- `waitpid` returns the word of the child. -/
  | reap
  /-- `waitpid` returns `-1`. -/
  | interrupt
  /-- The rest of the call. -/
  | scan
  /-- The file is removed, by the handler that ends the monitor. -/
  | remove
  deriving DecidableEq

namespace Counting

/-- Before the first call, with this file. -/
def start (temp : TempFile) : Counting := ⟨.idle, [], temp, fun _ => [], []⟩

/-- The call in progress returns. -/
def finish (k : ℕ) (result : Option (Fin 2 → ℚ)) (s : Counting) : Counting :=
  { s with pc := .idle, returned := s.returned ++ [(some k, result)] }

/-- `get_processes_usage` up to `waitpid`, its exits behind it, and the steps of the children. -/
def step (s : Counting) : CountingLabel → Option Counting
  | .fork ok =>
      match s.pc with
      | .idle =>
          if ok then
            some { s with children := s.children ++ [.forked], pc := .waiting s.children.length }
          else some { s with returned := s.returned ++ [(none, none)] }
      | _ => none
  | .child k o =>
      match s.children[k]? with
      | none => none
      | some c =>
          match c.step s.temp o with
          | none => none
          | some (d, temp) =>
              some { s with
                children := s.children.set k d
                temp := temp
                done := Function.update s.done k (s.done k ++ [o]) }
  | .reap =>
      match s.pc with
      | .waiting k =>
          match s.children[k]?.bind Child.status with
          | none => none
          | some status =>
              some { s with
                children := s.children.modify k fun c => { c with reaped := true }
                pc := .scanning k status }
      | _ => none
  | .interrupt =>
      match s.pc with
      | .waiting k => some (s.finish k none)
      | _ => none
  | .scan =>
      match s.pc with
      | .scanning k status => some (s.finish k (scrapeProcesses status s.temp.content))
      | _ => none
  | .remove => some { s with temp := s.temp.remove }

end Counting

/-- The machine of the calls, whatever stands in the file before them. -/
def counting : Machine Counting CountingLabel where
  init s := ∃ temp, s = .start temp
  step := Counting.step

/-- **What a step can do.** -/
inductive Counting.Move (s : Counting) : CountingLabel → Counting → Prop
  | fork (hpc : s.pc = .idle) : Move s (.fork true)
      { s with children := s.children ++ [.forked], pc := .waiting s.children.length }
  | forkFails (hpc : s.pc = .idle) :
      Move s (.fork false) { s with returned := s.returned ++ [(none, none)] }
  | child {k o c d temp} (hc : s.children[k]? = some c) (hstep : c.step s.temp o = some (d, temp)) :
      Move s (.child k o) { s with
        children := s.children.set k d
        temp := temp
        done := Function.update s.done k (s.done k ++ [o]) }
  | reap {k c status} (hpc : s.pc = .waiting k) (hc : s.children[k]? = some c)
      (hstatus : c.pc = .exited status) : Move s .reap { s with
        children := s.children.modify k fun c => { c with reaped := true }
        pc := .scanning k status }
  | interrupt {k} (hpc : s.pc = .waiting k) : Move s .interrupt (s.finish k none)
  | scan {k status} (hpc : s.pc = .scanning k status) :
      Move s .scan (s.finish k (scrapeProcesses status s.temp.content))
  | remove : Move s .remove { s with temp := s.temp.remove }

theorem counting_move {s t : Counting} {l : CountingLabel} (h : counting.step s l = some t) :
    s.Move l t := by
  obtain ⟨pc, children, temp, done, returned⟩ := s
  cases l with
  | fork ok =>
      cases pc with
      | idle =>
          cases ok with
          | true => exact Option.some_inj.1 h ▸ .fork rfl
          | false => exact Option.some_inj.1 h ▸ .forkFails rfl
      | waiting k | scanning k status => exact absurd h (by simp [counting, Counting.step])
  | child k o =>
      simp only [counting, Counting.step] at h
      split at h
      · simp at h
      · rename_i c hc
        split at h
        · simp at h
        · rename_i d temp' hstep
          exact Option.some_inj.1 h ▸ .child hc hstep
  | reap =>
      cases pc with
      | waiting k =>
          simp only [counting, Counting.step] at h
          split at h
          · simp at h
          · rename_i status hstatus
            obtain ⟨c, hc, hexited⟩ := Option.bind_eq_some_iff.1 hstatus
            exact Option.some_inj.1 h ▸ .reap rfl hc (Child.status_eq_some.1 hexited)
      | idle | scanning k status => exact absurd h (by simp [counting, Counting.step])
  | interrupt =>
      cases pc with
      | waiting k => exact Option.some_inj.1 h ▸ .interrupt rfl
      | idle | scanning k status => exact absurd h (by simp [counting, Counting.step])
  | scan =>
      cases pc with
      | scanning k status => exact Option.some_inj.1 h ▸ .scan rfl
      | idle | waiting k => exact absurd h (by simp [counting, Counting.step])
  | remove => exact Option.some_inj.1 h ▸ .remove

/-! ### The children of a machine -/

/-- Where a child is. -/
def pcAt (children : List Child) (k : ℕ) : Option ChildPc := children[k]?.map Child.pc

theorem pcAt_append_forked (children : List Child) (k : ℕ) :
    pcAt (children ++ [.forked]) k =
      if k = children.length then some .opening else pcAt children k := by
  unfold pcAt
  split
  · rename_i hk
    simp [hk, Child.forked]
  · rename_i hk
    rcases Nat.lt_or_gt_of_ne hk with hlt | hgt
    · rw [List.getElem?_append_left hlt]
    · rw [List.getElem?_eq_none (by simpa using Nat.succ_le_of_lt hgt),
        List.getElem?_eq_none (Nat.le_of_lt hgt)]

theorem pcAt_set {children : List Child} {k : ℕ} {c : Child} (hc : children[k]? = some c)
    (d : Child) (j : ℕ) :
    pcAt (children.set k d) j = if j = k then some d.pc else pcAt children j := by
  have hk := (List.getElem?_eq_some_iff.1 hc).1
  unfold pcAt
  split
  · rename_i hj
    rw [hj, List.getElem?_set_self hk, Option.map_some]
  · rename_i hj
    rw [List.getElem?_set_ne (Ne.symm hj)]

theorem pcAt_reap (children : List Child) (k j : ℕ) :
    pcAt (children.modify k fun c => { c with reaped := true }) j = pcAt children j := by
  unfold pcAt
  rw [List.getElem?_modify]
  cases children[j]? with
  | none => rfl
  | some c =>
      simp only [Option.map_eq_map, Option.map_some]
      split
      · rfl
      · rfl

theorem pcAt_of_getElem? {children : List Child} {k : ℕ} {c : Child}
    (hc : children[k]? = some c) : pcAt children k = some c.pc := by
  rw [pcAt, hc, Option.map_some]

/-- A child that has ended takes no step. -/
theorem ne_of_exited {children : List Child} {j k status : ℕ} {c : Child} {o : ChildStep}
    {f : TempFile} {r : Child × TempFile} (hc : children[k]? = some c) (h : c.step f o = some r)
    (hat : pcAt children j = some (.exited status)) : j ≠ k := by
  rintro rfl
  rw [pcAt_of_getElem? hc, Option.some_inj] at hat
  rw [Child.step_of_exited hat] at h
  simp at h

/-! ### What the status test is worth -/

/-- What the scan finds in a file. -/
def countsOf (content : List Char) : Option (Fin 2 → ℚ) := scrapeProcesses 0 (some content)

/-- `WEXITSTATUS` is an unsigned byte. -/
theorem wexitstatus_ne (status : ℕ) : wexitstatus status ≠ -1 := by
  unfold wexitstatus
  omega

/-- **The status test never fails**: the scan is made whatever the child has done. -/
theorem scrapeProcesses_eq (status : ℕ) (file : File) :
    scrapeProcesses status file = file.bind countsOf := by
  cases file with
  | none => exact if_neg (wexitstatus_ne status)
  | some content =>
      rw [Option.bind_some]
      unfold countsOf scrapeProcesses
      rw [if_neg (wexitstatus_ne status), if_neg (wexitstatus_ne 0)]

/-- Something can be counted in the file. -/
def Counts (file : File) : Prop := file.bind countsOf ≠ none

theorem not_counts_none : ¬ Counts none := fun h => h rfl

/-- Nothing is counted in an empty file. -/
theorem not_counts_nil : ¬ Counts (some []) := fun h => h rfl

instance (file : File) : Decidable (Counts file) := inferInstanceAs (Decidable (_ ≠ _))

/-! ### Results of their own child -/

/-- A child that executes `exit(-1)` gives no result, and a result is counted in the output of the
child of the same call. -/
structure OwnResult (child : Option (List ChildStep)) (result : Option (Fin 2 → ℚ)) : Prop where
  failed : ∀ os, child = some os → .fail ∈ os → result = none
  own : ∀ u, result = some u →
    ∃ os, child = some os ∧ os.head? = some .ok ∧ countsOf (outputOf os) = some u

namespace Counting

/-- The child of the call in progress. -/
def current (s : Counting) : Option ℕ :=
  match s.pc with
  | .idle => none
  | .waiting k | .scanning k _ => some k

/-- Every call that has returned has a result of its own child. -/
def OwnResults (s : Counting) : Prop :=
  ∀ p ∈ s.returned, OwnResult (p.1.map s.done) p.2

/-- **The condition on a step.**  The child of the call in progress does not end before it has
opened the file, while something can be counted in it; and once this child has opened the file or
ended, no child of an earlier call changes what stands in the file. -/
def Undisturbed (s : Counting) : CountingLabel → Prop
  | .child k o =>
      (s.current = some k → pcAt s.children k = some .opening → o ≠ .ok →
        ¬ Counts s.temp.content) ∧
      (s.current ≠ some k → (s.current.any fun j => pcAt s.children j ≠ some .opening) = true →
        ((s.children[k]?.bind (·.step s.temp o)).all (·.2.content = s.temp.content)) = true)
  | _ => True

instance (s : Counting) (l : CountingLabel) : Decidable (s.Undisturbed l) :=
  match l with
  | .child _ _ => inferInstanceAs (Decidable ((_ → _) ∧ (_ → _)))
  | .fork _ | .reap | .interrupt | .scan | .remove => isTrue trivial

/-- A child that has not been forked or has not come to its `open` has done nothing, and the child
whose word `waitpid` has returned has ended. -/
structure Shape (s : Counting) : Prop where
  fresh : ∀ k, pcAt s.children k = none → s.done k = []
  opening : ∀ k, pcAt s.children k = some .opening → s.done k = []
  scanning : ∀ k status, s.pc = .scanning k status → pcAt s.children k = some (.exited status)

theorem shape_start (temp : TempFile) : (start temp).Shape where
  fresh _ _ := rfl
  opening _ _ := rfl
  scanning _ _ h := by simp [start] at h

theorem shape_step {s t : Counting} {l : CountingLabel} (h : s.Shape)
    (hstep : counting.step s l = some t) : t.Shape := by
  cases counting_move hstep with
  | fork hpc =>
      have hnew : pcAt s.children s.children.length = none := by simp [pcAt]
      refine ⟨fun k hk => ?_, fun k hk => ?_, by simp⟩
      · rw [pcAt_append_forked] at hk
        split at hk
        · simp at hk
        · exact h.fresh k hk
      · rw [pcAt_append_forked] at hk
        split at hk
        · rename_i heq
          exact h.fresh k (heq ▸ hnew)
        · exact h.opening k hk
  | forkFails hpc => exact ⟨h.fresh, h.opening, h.scanning⟩
  | @child k o c d temp hc hchild =>
      refine ⟨fun j hj => ?_, fun j hj => ?_, fun j status hj => ?_⟩
      · rw [pcAt_set hc] at hj
        split at hj
        · simp at hj
        · rename_i hne
          exact (Function.update_of_ne hne ..).trans (h.fresh j hj)
      · rw [pcAt_set hc] at hj
        split at hj
        · exact absurd (Option.some_inj.1 hj) (Child.step_ne_opening hchild)
        · rename_i hne
          exact (Function.update_of_ne hne ..).trans (h.opening j hj)
      · have hexited := h.scanning j status hj
        rw [pcAt_set hc, if_neg (ne_of_exited hc hchild hexited)]
        exact hexited
  | @reap k c status hpc hc hstatus =>
      refine ⟨fun j hj => ?_, fun j hj => ?_, fun j status' hj => ?_⟩
      · rw [pcAt_reap] at hj
        exact h.fresh j hj
      · rw [pcAt_reap] at hj
        exact h.opening j hj
      · obtain ⟨rfl, rfl⟩ := CountingPc.scanning.inj hj
        rw [pcAt_reap, pcAt_of_getElem? hc, hstatus]
  | interrupt hpc | scan hpc => exact ⟨h.fresh, h.opening, by simp [finish]⟩
  | remove => exact ⟨h.fresh, h.opening, h.scanning⟩

/-- **The invariant of undisturbed calls**: what the file holds comes from the child of the call in
progress, and results come from their own children, which have ended. -/
structure Own (s : Counting) : Prop extends s.Shape where
  file : ∀ k, s.current = some k →
    ∃ pc, pcAt s.children k = some pc ∧ LeavesIn Counts s.temp (s.done k) pc
  results : ∀ p ∈ s.returned, p.2 = none ∨ ∃ k u status, p = (some k, some u) ∧
    pcAt s.children k = some (.exited status) ∧ (s.done k).head? = some .ok ∧
      .fail ∉ s.done k ∧ countsOf (outputOf (s.done k)) = some u

theorem own_start (temp : TempFile) : (start temp).Own where
  toShape := shape_start temp
  file _ h := by simp [start, current] at h
  results _ h := by simp [start] at h

/-- The scan of a call. -/
theorem Own.scan {s : Counting} (h : s.Own) {k status : ℕ} (hpc : s.pc = .scanning k status) :
    (s.finish k (scrapeProcesses status s.temp.content)).Own := by
  have hexited := h.scanning k status hpc
  obtain ⟨pc, hat, hleaves⟩ := h.file k (by rw [current, hpc])
  obtain rfl : .exited status = pc := Option.some_inj.1 (hexited.symm.trans hat)
  refine ⟨⟨h.fresh, h.opening, by simp [finish]⟩, by simp [finish, current], fun p hp => ?_⟩
  rcases List.mem_append.1 hp with hp | hp
  · exact h.results p hp
  · rw [List.mem_singleton.1 hp, scrapeProcesses_eq]
    rcases hleaves with hnothing | ⟨hhead, hfail, hcontent⟩
    · exact Or.inl (not_not.1 hnothing)
    · rw [hcontent, Option.bind_some]
      cases hcounts : countsOf (outputOf (s.done k)) with
      | none => exact Or.inl rfl
      | some u => exact Or.inr ⟨k, u, status, rfl, hexited, hhead, hfail, hcounts⟩

/-- A step of a child. -/
theorem Own.child {s t : Counting} (h : s.Own) {k : ℕ} {o : ChildStep} {c d : Child}
    {temp : TempFile} (hc : s.children[k]? = some c) (hchild : c.step s.temp o = some (d, temp))
    (ht : t = { s with
      children := s.children.set k d, temp := temp,
      done := Function.update s.done k (s.done k ++ [o]) })
    (hshape : t.Shape) (hl : s.Undisturbed (.child k o)) : t.Own := by
  subst ht
  refine ⟨hshape, fun j hj => ?_, fun p hp => ?_⟩
  · change s.current = some j at hj
    obtain ⟨pc, hat, hleaves⟩ := h.file j hj
    by_cases hjk : j = k
    · -- the child of the call itself
      subst hjk
      obtain rfl : c.pc = pc := Option.some_inj.1 ((pcAt_of_getElem? hc).symm.trans hat)
      refine ⟨d.pc, by rw [pcAt_set hc, if_pos rfl], ?_⟩
      dsimp only
      rw [Function.update_self]
      exact Child.step_leavesIn not_counts_none not_counts_nil hchild hleaves fun hopening ho =>
        hl.1 hj (by rw [hat, hopening]) ho
    · refine ⟨pc, by rw [pcAt_set hc, if_neg hjk]; exact hat, ?_⟩
      dsimp only
      rw [Function.update_of_ne hjk]
      by_cases hopening : pc = .opening
      · subst hopening
        exact hleaves
      · have hkept := hl.2 (by rw [hj]; simpa using hjk)
        rw [hj, hc] at hkept
        have hcontent : temp.content = s.temp.content := by
          simpa [hat, hopening, hchild] using hkept
        exact hleaves.congr (Child.step_name hchild hcontent) hcontent
  · rcases h.results p hp with hnone | ⟨j, u, status, heq, hat, hown⟩
    · exact Or.inl hnone
    · have hjk : j ≠ k := ne_of_exited hc hchild hat
      refine Or.inr ⟨j, u, status, heq, by rw [pcAt_set hc, if_neg hjk]; exact hat, ?_⟩
      dsimp only
      rw [Function.update_of_ne hjk]
      exact hown

theorem own_step {s t : Counting} {l : CountingLabel} (h : s.Own) (hl : s.Undisturbed l)
    (hstep : counting.step s l = some t) : t.Own := by
  have hshape := shape_step h.toShape hstep
  cases counting_move hstep with
  | fork hpc =>
      have hnew : pcAt s.children s.children.length = none := by simp [pcAt]
      refine ⟨hshape, fun k hk => ?_, fun p hp => ?_⟩
      · obtain rfl : s.children.length = k := Option.some_inj.1 hk
        exact ⟨.opening, by rw [pcAt_append_forked, if_pos rfl], h.fresh _ hnew⟩
      · rcases h.results p hp with hnone | ⟨k, u, status, heq, hat, hown⟩
        · exact Or.inl hnone
        · refine Or.inr ⟨k, u, status, heq, ?_, hown⟩
          rw [pcAt_append_forked, if_neg]
          · exact hat
          · rintro rfl
            rw [hnew] at hat
            simp at hat
  | forkFails hpc =>
      refine ⟨hshape, h.file, fun p hp => ?_⟩
      rcases List.mem_append.1 hp with hp | hp
      · exact h.results p hp
      · exact Or.inl (by rw [List.mem_singleton.1 hp])
  | child hc hchild => exact h.child hc hchild rfl hshape hl
  | @reap k c status hpc hc hstatus =>
      refine ⟨hshape, fun j hj => ?_, fun p hp => ?_⟩
      · obtain ⟨pc, hat, hleaves⟩ := h.file j (by rw [current, hpc]; exact hj)
        exact ⟨pc, by rw [pcAt_reap]; exact hat, hleaves⟩
      · rcases h.results p hp with hnone | ⟨j, u, status', heq, hat, hown⟩
        · exact Or.inl hnone
        · exact Or.inr ⟨j, u, status', heq, by rw [pcAt_reap]; exact hat, hown⟩
  | interrupt hpc =>
      refine ⟨hshape, by simp [finish, current], fun p hp => ?_⟩
      rcases List.mem_append.1 hp with hp | hp
      · exact h.results p hp
      · exact Or.inl (by rw [List.mem_singleton.1 hp])
  | scan hpc => exact h.scan hpc
  | remove =>
      refine ⟨hshape, fun k hk => ?_, h.results⟩
      obtain ⟨pc, hat, hleaves⟩ := h.file k hk
      exact ⟨pc, hat, hleaves.remove not_counts_none⟩

/-- **Undisturbed calls have results of their own children.** -/
theorem Own.ownResults {s : Counting} (h : s.Own) : s.OwnResults := by
  intro p hp
  rcases h.results p hp with hnone | ⟨k, u, status, rfl, -, hhead, hfail, hcounts⟩
  · refine ⟨fun _ _ _ => hnone, fun u hu => ?_⟩
    rw [hnone] at hu
    simp at hu
  · refine ⟨fun os hos hmem => ?_, fun v hv => ⟨s.done k, rfl, hhead, hcounts.trans hv⟩⟩
    obtain rfl := Option.some_inj.1 hos
    exact absurd hmem hfail

/-! ### Calls that are not interrupted -/

/-- All children have ended, but for the one of the call in progress. -/
def Settled (s : Counting) : Prop :=
  ∀ k pc, pcAt s.children k = some pc → s.current ≠ some k → ∃ status, pc = .exited status

theorem Settled.not_step {s : Counting} (h : s.Settled) {k : ℕ} {o : ChildStep} {c : Child}
    (hc : s.children[k]? = some c) (hcurrent : s.current ≠ some k) : c.step s.temp o = none := by
  obtain ⟨status, hexited⟩ := h k c.pc (pcAt_of_getElem? hc) hcurrent
  exact Child.step_of_exited hexited _ _

theorem settled_step {s t : Counting} {l : CountingLabel} (hshape : s.Shape) (h : s.Settled)
    (hl : l ≠ .interrupt) (hstep : counting.step s l = some t) : t.Settled := by
  cases counting_move hstep with
  | fork hpc =>
      intro k pc hat hne
      rw [pcAt_append_forked] at hat
      split at hat
      · rename_i heq
        exact absurd (by rw [heq]; rfl) hne
      · exact h k pc hat (by simp [current, hpc])
  | forkFails hpc => exact h
  | @child k o c d temp hc hchild =>
      intro j pc hat hne
      rw [pcAt_set hc] at hat
      split at hat
      · rename_i hjk
        subst hjk
        rw [h.not_step hc hne] at hchild
        simp at hchild
      · exact h j pc hat hne
  | @reap k c status hpc hc hstatus =>
      intro j pc hat hne
      rw [pcAt_reap] at hat
      exact h j pc hat (by rw [current, hpc]; exact hne)
  | interrupt => exact absurd rfl hl
  | @scan k status hpc =>
      intro j pc hat _
      by_cases hjk : j = k
      · subst hjk
        exact ⟨status, Option.some_inj.1 (hat.symm.trans (hshape.scanning j status hpc))⟩
      · exact h j pc hat (by rw [current, hpc]; simpa using Ne.symm hjk)
  | remove => exact h

/-- A call has a result, or is about to have one, whose child has ended before it has opened the
file. -/
def Spoilt (s : Counting) : Prop :=
  ∃ k o, (s.done k).head? = some o ∧ o ≠ .ok ∧
    (s.current = some k ∧ (∃ status, pcAt s.children k = some (.exited status)) ∧
        Counts s.temp.content ∨
      ∃ u, (some k, some u) ∈ s.returned)

/-- **A call that is spoilt stays so.** -/
theorem spoilt_step {s t : Counting} {l : CountingLabel} (hsettled : s.Settled)
    (h : s.Spoilt) (hinterrupt : l ≠ .interrupt) (hremove : l ≠ .remove)
    (hstep : counting.step s l = some t) : t.Spoilt := by
  obtain ⟨k, o, hhead, ho, hcase⟩ := h
  cases counting_move hstep with
  | fork hpc =>
      rcases hcase with ⟨hcurrent, -⟩ | hreturned
      · simp [current, hpc] at hcurrent
      · exact ⟨k, o, hhead, ho, Or.inr hreturned⟩
  | forkFails hpc =>
      rcases hcase with ⟨hcurrent, -⟩ | ⟨u, hu⟩
      · simp [current, hpc] at hcurrent
      · exact ⟨k, o, hhead, ho, Or.inr ⟨u, List.mem_append_left _ hu⟩⟩
  | @child j p c d temp hc hchild =>
      have hhead' : (Function.update s.done j (s.done j ++ [p]) k).head? = some o := by
        by_cases hjk : k = j
        · subst hjk
          rw [Function.update_self, List.head?_append, hhead]
          rfl
        · rwa [Function.update_of_ne hjk]
      refine ⟨k, o, hhead', ho, ?_⟩
      rcases hcase with ⟨hcurrent, ⟨status, hat⟩, -⟩ | hreturned
      · -- no child is left that could take the step
        have hjk : k ≠ j := ne_of_exited hc hchild hat
        rw [hsettled.not_step hc (by rw [hcurrent]; simpa using hjk)] at hchild
        simp at hchild
      · exact Or.inr hreturned
  | @reap j c status hpc hc hstatus =>
      refine ⟨k, o, hhead, ho, ?_⟩
      rcases hcase with ⟨hcurrent, ⟨status', hat⟩, hcounts⟩ | hreturned
      · refine Or.inl ⟨?_, ⟨status', by rw [pcAt_reap]; exact hat⟩, hcounts⟩
        rw [current, hpc] at hcurrent
        exact hcurrent
      · exact Or.inr hreturned
  | interrupt => exact absurd rfl hinterrupt
  | @scan j status hpc =>
      refine ⟨k, o, hhead, ho, Or.inr ?_⟩
      rcases hcase with ⟨hcurrent, -, hcounts⟩ | ⟨u, hu⟩
      · obtain rfl : j = k := by
          rw [current, hpc] at hcurrent
          exact Option.some_inj.1 hcurrent
        obtain ⟨u, hu⟩ := Option.ne_none_iff_exists'.1 hcounts
        refine ⟨u, List.mem_append_right _ ?_⟩
        rw [scrapeProcesses_eq, hu]
        exact List.mem_singleton.2 rfl
      · exact ⟨u, List.mem_append_left _ hu⟩
  | remove => exact absurd rfl hremove

/-- **A step that does not meet the condition spoils the call.** -/
theorem spoilt_of_not_undisturbed {s t : Counting} {l : CountingLabel} (hshape : s.Shape)
    (hsettled : s.Settled) (hl : ¬ s.Undisturbed l) (hstep : counting.step s l = some t) :
    t.Spoilt := by
  cases counting_move hstep with
  | @child k o c d temp hc hchild =>
      by_cases hcurrent : s.current = some k
      · have hviolated : ¬ (pcAt s.children k = some .opening → o ≠ .ok →
            ¬ Counts s.temp.content) := fun hmet =>
          hl ⟨fun _ => hmet, fun hne => absurd hcurrent hne⟩
        push Not at hviolated
        obtain ⟨hopening, ho, hcounts⟩ := hviolated
        have hpc : c.pc = .opening :=
          Option.some_inj.1 ((pcAt_of_getElem? hc).symm.trans hopening)
        obtain ⟨⟨status, hexited⟩, rfl⟩ := Child.step_opening hpc ho hchild
        refine ⟨k, o, ?_, ho, Or.inl ⟨hcurrent, ⟨status, ?_⟩, hcounts⟩⟩
        · simp [hshape.opening k hopening]
        · rw [pcAt_set hc, if_pos rfl, hexited]
      · rw [hsettled.not_step hc hcurrent] at hchild
        simp at hchild
  | fork | forkFails | reap | interrupt | scan | remove => exact absurd trivial hl

theorem Spoilt.not_ownResults {s : Counting} (h : s.Spoilt) (hidle : s.pc = .idle) :
    ¬ s.OwnResults := by
  intro hown
  obtain ⟨k, o, hhead, ho, ⟨hcurrent, -⟩ | ⟨u, hu⟩⟩ := h
  · simp [current, hidle] at hcurrent
  · obtain ⟨os, hos, hok, -⟩ := (hown _ hu).own u rfl
    obtain rfl : s.done k = os := Option.some_inj.1 hos
    exact ho (Option.some_inj.1 (hhead.symm.trans hok))

end Counting

/-! ### The calls of the main loop -/

/-- The result of a call of `get_processes_usage`. -/
def Call.processes? : Call → Option (Option (Fin 2 → ℚ))
  | .processes usage => some usage
  | _ => none

/-- What the calls of `get_processes_usage` have returned. -/
def processesResults (trace : List Event) : List (Option (Fin 2 → ℚ)) :=
  (returnedCalls trace).filterMap Call.processes?

/-- No call of `get_processes_usage` is in progress. -/
def Calm (todo : List Action) : Prop :=
  ∀ a ∈ todo, a.awaits = none ∧ ∀ status, a ≠ .scan status

/-- Where the caller is when the main loop has this left to do. -/
inductive CallerAt : List Action → CountingPc → Prop
  | idle {todo} (h : Calm todo) : CallerAt todo .idle
  | waitpid {k todo} (h : Calm todo) : CallerAt (.waitpid k :: todo) (.waiting k)
  | waiting {k todo} (h : Calm todo) : CallerAt (.waiting k :: todo) (.waiting k)
  | scan {k status todo} (h : Calm todo) : CallerAt (.scan status :: todo) (.scanning k status)

/-- The calls as the process makes them. -/
structure Simulates (t : Counting) (s : Process) : Prop where
  children : t.children = s.children
  temp : t.temp = s.temp
  results : t.returned.map Prod.snd = processesResults s.trace
  caller : CallerAt s.todo t.pc

theorem CallerAt.of_nil {pc : CountingPc} (h : CallerAt [] pc) : pc = .idle := by
  cases h with
  | idle => rfl

theorem CallerAt.of_calm {a : Action} {todo : List Action} {pc : CountingPc}
    (h : CallerAt (a :: todo) pc) (hawaits : a.awaits = none) (hscan : ∀ status, a ≠ .scan status) :
    Calm todo ∧ pc = .idle := by
  cases h with
  | idle hcalm => exact ⟨fun b hb => hcalm b (List.mem_cons_of_mem a hb), rfl⟩
  | waitpid | waiting => simp [Action.awaits] at hawaits
  | scan => exact absurd rfl (hscan _)

theorem CallerAt.of_awaits {a : Action} {todo : List Action} {pc : CountingPc} {k : ℕ}
    (h : CallerAt (a :: todo) pc) (hawaits : a.awaits = some k) : Calm todo ∧ pc = .waiting k := by
  cases h with
  | idle hcalm =>
      rw [(hcalm a (List.mem_cons_self ..)).1] at hawaits
      simp at hawaits
  | waitpid hcalm | waiting hcalm => exact ⟨hcalm, congrArg _ (Option.some_inj.1 hawaits)⟩
  | scan => simp [Action.awaits] at hawaits

theorem CallerAt.of_scan {status : ℕ} {todo : List Action} {pc : CountingPc}
    (h : CallerAt (.scan status :: todo) pc) : Calm todo ∧ ∃ k, pc = .scanning k status := by
  cases h with
  | idle hcalm => exact absurd rfl ((hcalm _ (List.mem_cons_self ..)).2 status)
  | scan hcalm => exact ⟨hcalm, _, rfl⟩

theorem returnedCalls_finish (c : Call) (todo : List Action) (s : Process) :
    returnedCalls (s.finish c todo).trace = returnedCalls s.trace ++ [c] := by
  rw [Process.finish]
  cases c.result with
  | none => exact returnedCalls_append _ _ _ rfl
  | some usage => exact returnedCalls_append _ _ _ rfl

theorem calm_finish {todo : List Action} (h : Calm todo) (c : Call) (s : Process) :
    Calm (s.finish c todo).todo := by
  rw [Process.finish]
  cases c.result with
  | none => exact h
  | some usage =>
      intro a ha
      rcases List.mem_append.1 ha with ha | ha
      · obtain ⟨w, -, rfl⟩ := List.mem_map.1 ha
        exact ⟨rfl, by simp⟩
      · exact h a ha

/-- A reader returns. -/
theorem Simulates.finish {t : Counting} {s : Process} {c : Call} {todo : List Action}
    (hchildren : t.children = s.children) (htemp : t.temp = s.temp)
    (hresults : t.returned.map Prod.snd = processesResults s.trace ++ c.processes?.toList)
    (hidle : t.pc = .idle) (htodo : Calm todo) : Simulates t (s.finish c todo) where
  children := by rw [Process.finish_children, hchildren]
  temp := by rw [(s.finish_untouched c todo).temp, htemp]
  results := by
    rw [hresults, processesResults, processesResults, returnedCalls_finish, List.filterMap_append]
    cases c with
    | cpu | memory | disk | network | processes => rfl
  caller := hidle ▸ .idle (calm_finish htodo c s)

/-- `waitpid` returns the word of the child. -/
theorem Simulates.reap {t : Counting} {s : Process} (h : Simulates t s) {a : Action}
    {todo : List Action} {k status : ℕ} (htodo : s.todo = a :: todo) (ha : a.awaits = some k)
    (hstatus : s.exitStatus k = some status) :
    ∃ t', counting.run t [.reap] = some t' ∧ Simulates t' (s.reap k status todo) := by
  obtain ⟨hcalm, hpc⟩ := (htodo ▸ h.caller).of_awaits ha
  have hstep : counting.step t .reap = some { t with
      children := t.children.modify k fun c => { c with reaped := true }
      pc := .scanning k status } := by
    have hat : t.children[k]?.bind Child.status = some status := by
      rw [h.children]
      exact hstatus
    simp only [counting, Counting.step, hpc, hat]
  refine ⟨_, (Machine.run_singleton ..).trans hstep, ?_⟩
  exact ⟨by rw [h.children]; rfl, h.temp, h.results, .scan hcalm⟩

/-- **A step of the main loop.** -/
theorem simulates_mainStep {config : Config} {env : Env} {t : Counting} {s s' : Process}
    (h : Simulates t s) (hstep : s.mainStep config env = some s') :
    ∃ ls t', counting.run t ls = some t' ∧ Simulates t' s' := by
  have hcaller := h.caller
  unfold Process.mainStep at hstep
  split at hstep
  · -- a new cycle
    rename_i htodo
    obtain rfl := Option.some_inj.1 hstep
    rw [htodo] at hcaller
    refine ⟨[], t, rfl, h.children, h.temp, h.results, hcaller.of_nil ▸ .idle fun a ha => ?_⟩
    simp only [cycleActions, List.mem_append, List.mem_map, List.mem_singleton] at ha
    rcases ha with ⟨g, -, rfl⟩ | rfl
    · exact ⟨rfl, by simp⟩
    · exact ⟨rfl, by simp⟩
  · rename_i g todo htodo
    rw [htodo] at hcaller
    obtain ⟨hcalm, hpc⟩ := hcaller.of_calm rfl (by simp)
    split at hstep
    · -- a reader of `/proc` is no call of `get_processes_usage`
      rename_i i hi
      obtain rfl := Option.some_inj.1 hstep
      have hnone : (i.read toDouble s.prev).1.processes? = none := by
        cases g with
        | cpu | memory | disk | network =>
            obtain rfl := Option.some_inj.1 hi
            rfl
        | processes => simp [Proc.input] at hi
      refine ⟨[], t, rfl, .finish h.children h.temp ?_ hpc hcalm⟩
      rw [hnone]
      simpa using h.results
    · split at hstep
      · obtain rfl := Option.some_inj.1 hstep
        have hfork : counting.step t (.fork true) = some { t with
            children := t.children ++ [.forked], pc := .waiting t.children.length } := by
          simp only [counting, Counting.step, hpc]
          rfl
        refine ⟨[.fork true], _, (Machine.run_singleton ..).trans hfork, ?_, h.temp, h.results, ?_⟩
        · rw [h.children]
        · rw [h.children]
          exact .waitpid hcalm
      · obtain rfl := Option.some_inj.1 hstep
        have hfails : counting.step t (.fork false) =
            some { t with returned := t.returned ++ [(none, none)] } := by
          simp only [counting, Counting.step, hpc]
          rfl
        refine ⟨[.fork false], _, (Machine.run_singleton ..).trans hfails,
          .finish h.children h.temp ?_ hpc hcalm⟩
        rw [List.map_append, h.results]
        rfl
  · rename_i k todo htodo
    split at hstep
    · rename_i status hstatus
      obtain rfl := Option.some_inj.1 hstep
      obtain ⟨t', hrun, hsim⟩ := h.reap htodo rfl hstatus
      exact ⟨_, t', hrun, hsim⟩
    · obtain rfl := Option.some_inj.1 hstep
      rw [htodo] at hcaller
      obtain ⟨hcalm, hpc⟩ := hcaller.of_awaits rfl
      exact ⟨[], t, rfl, h.children, h.temp, h.results, hpc ▸ .waiting hcalm⟩
  · rename_i k todo htodo
    split at hstep
    · rename_i status hstatus
      obtain rfl := Option.some_inj.1 hstep
      obtain ⟨t', hrun, hsim⟩ := h.reap htodo rfl hstatus
      exact ⟨_, t', hrun, hsim⟩
    · simp at hstep
  · rename_i status todo htodo
    obtain rfl := Option.some_inj.1 hstep
    rw [htodo] at hcaller
    obtain ⟨hcalm, k, hpc⟩ := hcaller.of_scan
    have hscan : counting.step t .scan =
        some (t.finish k (scrapeProcesses status t.temp.content)) := by
      simp only [counting, Counting.step, hpc]
    refine ⟨[.scan], _, (Machine.run_singleton ..).trans hscan,
      .finish h.children h.temp ?_ rfl hcalm⟩
    rw [Counting.finish, List.map_append, h.results, h.temp]
    rfl
  · rename_i todo htodo
    split at hstep
    · simp at hstep
    · obtain rfl := Option.some_inj.1 hstep
      rw [htodo] at hcaller
      obtain ⟨hcalm, hpc⟩ := hcaller.of_calm rfl (by simp)
      exact ⟨[], t, rfl, h.children, h.temp, h.results, hpc ▸ .idle hcalm⟩
  · rename_i q value todo htodo
    obtain rfl := Option.some_inj.1 hstep
    rw [htodo] at hcaller
    obtain ⟨hcalm, hpc⟩ := hcaller.of_calm rfl (by simp)
    refine ⟨[], t, rfl, h.children, h.temp, ?_, hpc ▸ .idle hcalm⟩
    rw [h.results, processesResults, processesResults, returnedCalls, returnedCalls,
      List.filterMap_append, List.filterMap_cons_none rfl, List.filterMap_nil, List.append_nil]
  · rename_i todo htodo
    obtain rfl := Option.some_inj.1 hstep
    rw [htodo] at hcaller
    obtain ⟨hcalm, hpc⟩ := hcaller.of_calm rfl (by simp)
    exact ⟨[], t, rfl, h.children, h.temp, h.results, hpc ▸ .idle hcalm⟩
  · rename_i todo htodo
    obtain rfl := Option.some_inj.1 hstep
    rw [htodo] at hcaller
    obtain ⟨hcalm, hpc⟩ := hcaller.of_calm rfl (by simp)
    exact ⟨[], t, rfl, h.children, h.temp, h.results, hpc ▸ .idle hcalm⟩

/-- A handler touches nothing of the calls, unless it removes the file. -/
theorem simulates_handlerStep {t : Counting} {s : Process} (h : Simulates t s) (u : Thread)
    (f : Frame) (rest : List Frame) :
    ∃ ls t', counting.run t ls = some t' ∧ Simulates t' (s.handlerStep u f rest) := by
  unfold Process.handlerStep
  split
  · exact ⟨[], t, rfl, h.children, h.temp, h.results, h.caller⟩
  · refine ⟨[.remove], _, Machine.run_singleton .., h.children, ?_, h.results, h.caller⟩
    exact congrArg TempFile.remove h.temp
  · exact ⟨[], t, rfl, h.children, h.temp, h.results, h.caller⟩
  · exact ⟨[], t, rfl, h.children, h.temp, h.results, h.caller⟩
  · split
    · exact ⟨[], t, rfl, h.children, h.temp, h.results, h.caller⟩
    · exact ⟨[], t, rfl, h.children, h.temp, h.results, h.caller⟩
  · exact ⟨[], t, rfl, h.children, h.temp, h.results, h.caller⟩

/-- `SIGUSR1` may interrupt `waitpid`. -/
theorem simulates_usr1 {t : Counting} {s : Process} (h : Simulates t s) (u : Thread) :
    ∃ ls t', counting.run t ls = some t' ∧ Simulates t' (s.usr1 u) := by
  rcases Process.usr1_eq u s with ⟨todo, -, hblocked, heq⟩ | ⟨-, heq⟩
  · obtain ⟨-, k, htodo, -⟩ := Process.blocked_eq_some.1 hblocked
    obtain ⟨hcalm, hpc⟩ := (htodo ▸ h.caller).of_awaits rfl
    have hinterrupt : counting.step t .interrupt = some (t.finish k none) := by
      simp only [counting, Counting.step, hpc]
    refine ⟨[.interrupt], _, (Machine.run_singleton ..).trans hinterrupt, ?_⟩
    rw [heq]
    refine .finish h.children h.temp ?_ rfl hcalm
    rw [Counting.finish, List.map_append, h.results]
    rfl
  · rw [heq]
    exact ⟨[], t, rfl, h.children, h.temp, h.results, h.caller⟩

/-- **The monitor makes such calls.**  For every run of the process there is a run of the calls with
the same children, the same file and the same results. -/
theorem process_refines_counting {config : Config} {globals : Globals} {temp : TempFile}
    {server : ServerState} {ls : List ProcessLabel} {s : Process}
    (h : (process config).run (.start globals temp server) ls = some s) :
    ∃ ls' t, counting.run (.start temp) ls' = some t ∧ Simulates t s := by
  refine Machine.run_simulates (R := fun s t => Simulates t s) (fun s l s' t hR hstep => ?_)
    ⟨rfl, rfl, rfl, .idle (by simp [Calm, Process.start])⟩ h
  cases process_move hstep with
  | loop _ _ hloop => exact simulates_mainStep hR hloop
  | server => exact ⟨[], t, rfl, hR.children, hR.temp, hR.results, hR.caller⟩
  | @handler u env f rest _ _ _ _ hhandler => exact hhandler ▸ simulates_handlerStep hR u f rest
  | usr1 => exact simulates_usr1 hR _
  | deliver => exact ⟨[], t, rfl, hR.children, hR.temp, hR.results, hR.caller⟩
  | @child k o c d temp hc hchild =>
      have hstep : counting.step t (.child k o) = some { t with
          children := t.children.set k d
          temp := temp
          done := Function.update t.done k (t.done k ++ [o]) } := by
        simp only [counting, Counting.step, hR.children, hR.temp, hc, hchild]
      refine ⟨[.child k o], _, (Machine.run_singleton ..).trans hstep, ?_, rfl, hR.results,
        hR.caller⟩
      rw [hR.children]

/-! ### Results of all calls -/

/-- **When every result is counted in the output of its own child, and every `exit(-1)` gives
none.**  In every run whose steps meet the condition it is so.  When `waitpid` is never interrupted
and the file is not removed, it is so after the last call exactly when the steps do. -/
theorem processesUsage_iff (first : TempFile) (ls : List CountingLabel) (s : Counting)
    (h : counting.run (.start first) ls = some s) :
    (counting.Along Counting.Undisturbed (.start first) ls → s.OwnResults) ∧
    ((∀ l ∈ ls, l ≠ .interrupt ∧ l ≠ .remove) → s.pc = .idle →
      (s.OwnResults ↔ counting.Along Counting.Undisturbed (.start first) ls)) := by
  have hforward (hl : counting.Along Counting.Undisturbed (.start first) ls) : s.OwnResults :=
    (Machine.run_invariant (fun _ _ _ hI hp hstep => Counting.own_step hI hp hstep)
      (Counting.own_start first) hl h).ownResults
  refine ⟨hforward, fun hlabels hidle => ⟨fun hown => ?_, hforward⟩⟩
  by_contra hl
  obtain ⟨ls₁, l, ls₂, t, t', rfl, ht, hstep, hrest, hviolated⟩ :=
    Machine.exists_of_not_along hl h
  -- up to the step that violates the condition all other children have ended
  have hbefore : t.Shape ∧ t.Settled := by
    refine Machine.run_invariant (I := fun s => s.Shape ∧ s.Settled)
      (p := fun _ l => l ≠ .interrupt) (fun _ _ _ hI hp hstep =>
        ⟨Counting.shape_step hI.1 hstep, Counting.settled_step hI.1 hI.2 hp hstep⟩)
      ⟨Counting.shape_start first, fun k pc hat => by simp [Counting.start, pcAt] at hat⟩
      (Machine.along_of_forall fun l hmem => (hlabels l (List.mem_append_left _ hmem)).1) ht
  have hlater : ∀ l' ∈ l :: ls₂, l' ≠ .interrupt ∧ l' ≠ .remove := fun l' hmem =>
    hlabels l' (List.mem_append_right _ hmem)
  have hspoilt' := Counting.spoilt_of_not_undisturbed hbefore.1 hbefore.2 hviolated hstep
  have hend : (s.Shape ∧ s.Settled) ∧ s.Spoilt := by
    refine Machine.run_invariant (I := fun s => (s.Shape ∧ s.Settled) ∧ s.Spoilt)
      (p := fun _ l => l ≠ .interrupt ∧ l ≠ .remove) (fun _ _ _ hI hp hstep =>
        ⟨⟨Counting.shape_step hI.1.1 hstep, Counting.settled_step hI.1.1 hI.1.2 hp.1 hstep⟩,
          Counting.spoilt_step hI.1.2 hI.2 hp.1 hp.2 hstep⟩)
      ⟨⟨Counting.shape_step hbefore.1 hstep, Counting.settled_step hbefore.1 hbefore.2
        (hlater l (List.mem_cons_self ..)).1 hstep⟩, hspoilt'⟩
      (Machine.along_of_forall fun l' hmem => hlater l' (List.mem_cons_of_mem l hmem)) hrest
  exact hend.2.not_ownResults hidle hown

/-- What `top` prints when all goes well. -/
def topOutput : List Char := "Tasks: 212 total,   3 running\n".toList

/-- A child that counts the processes and exits. -/
def countingChild : List ChildStep := [.ok, .ok, .ok, .write topOutput, .exit 0]

/-- A call in which the child takes these steps and `waitpid` is not interrupted. -/
def wholeCall (k : ℕ) (os : List ChildStep) : List CountingLabel :=
  .fork true :: (os.map (.child k) ++ [.reap, .scan])

/-- A call whose `waitpid` is interrupted, and another one beside its child: both results are
right. -/
theorem processesUsage_counting : ∃ s,
    counting.run (.start .absent) ([.fork true, .child 0 .ok, .interrupt, .child 0 .ok] ++
      wholeCall 1 countingChild) = some s ∧
    s.returned.map Prod.snd = [none, some ![212, 3]] ∧ s.OwnResults := by
  obtain ⟨s, hs⟩ := Option.isSome_iff_exists.1 (show (counting.run (.start .absent)
    ([.fork true, .child 0 .ok, .interrupt, .child 0 .ok] ++ wholeCall 1 countingChild)).isSome =
      true by decide +kernel)
  have hreturned : (counting.run (.start .absent) ([.fork true, .child 0 .ok, .interrupt,
      .child 0 .ok] ++ wholeCall 1 countingChild)).map (fun s => s.returned.map Prod.snd) =
      some [none, some ![212, 3]] := by decide +kernel
  rw [hs] at hreturned
  exact ⟨s, hs, Option.some_inj.1 hreturned,
    (processesUsage_iff .absent _ s hs).1 (by decide +kernel)⟩

/-- The `open` of the second child fails. -/
def openFails : List CountingLabel := wholeCall 0 countingChild ++ wholeCall 1 [.fail]

/-- The second call reports the counts of the first. -/
theorem processesUsage_openFails :
    ¬ ∀ first ls s, counting.run (.start first) ls = some s → s.OwnResults := by
  intro h
  obtain ⟨s, hs⟩ := Option.isSome_iff_exists.1 (show (counting.run (.start .absent)
    openFails).isSome = true by decide +kernel)
  have hseen : (counting.run (.start .absent) openFails).map (fun s => (s.done 1, s.returned)) =
      some ([.fail], [(some 0, some ![212, 3]), (some 1, some ![212, 3])]) := by decide +kernel
  rw [hs, Option.map_some, Option.some_inj, Prod.mk.injEq] at hseen
  have hown := h _ _ s hs (some 1, some ![212, 3]) (by rw [hseen.2]; simp)
  exact absurd (hown.failed [.fail] (by simp [hseen.1]) (by simp)) (by simp)

end Monitor
