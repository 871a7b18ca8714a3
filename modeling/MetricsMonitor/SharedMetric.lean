/-
**A metric that several threads change: `prom_metric_sample.c`.**

The functions of gauges and counters find a sample in `pms_from_labels`, with the lock of the
metric, and then change it without a lock: `pms_add` and `pms_sub` load the value and swap it for a
new one until no other thread has been faster.  Here every thread has a list of calls.  A step of
`pms_from_labels` is one of the calls it makes, the lock included, at which a thread waits while
another one has it; a step at a sample is one access to its value.

* `Monitor.casLoopStep`, `Monitor.pmsAddStep`, `Monitor.pmsSubStep`, `Monitor.pmsSetStep` — the
  functions of a sample by steps;
* `Monitor.sharedAdvance`, `Monitor.sharedMetric` — every interleaving of the threads;
* `Monitor.SharedMetric.Exclusive.step` — mutual exclusion;
* `Monitor.SharedMetric.Sim` — the simulation by compare and swap loops on shared cells;
* `Monitor.sharedMetric_linearizable` — **no call is lost, and none is done twice**: the values are
  those of the finished calls one after another, a thread that waits for the lock waits for one that
  can move, and the number of steps is bounded;
* `Monitor.increments_counted` — counters count.
-/

import MetricsMonitor.PromMetric
import MetricsMonitor.CasLoop

set_option relaxedAutoImplicit false
set_option autoImplicit false

namespace Monitor

/-! ### The functions of a sample by steps -/

/-- The loop of `pms_add` and `pms_sub` by steps: `atomic_load`, and then
`atomic_compare_exchange_weak` until it succeeds.  `old` is the value that the thread has loaded;
the result is what it has loaded now, none when the function returns, and the sample. -/
def casLoopStep (new : Double → Double) (spurious : Bool) (old : Option Double) (self : Pms) :
    Option Double × Pms :=
  match old with
  | none => (some self.rValue, self)
  | some old =>
      if self.rValue = old ∧ spurious = false then (none, { self with rValue := new old })
      else (some self.rValue, self)

/-- `pms_add` by steps. -/
def pmsAddStep (ar : Arithmetic) (rValue : Double) (spurious : Bool) (old : Option Double)
    (self : Pms) : Option (Option Double × Pms) :=
  if rValue.negative then some (none, self)
  else some (casLoopStep (fun old => ar.add old rValue) spurious old self)

/-- `pms_sub` by steps; the warning is undefined behaviour, as in `pmsSub`. -/
def pmsSubStep (ar : Arithmetic) (rValue : Double) (spurious : Bool) (old : Option Double)
    (self : Pms) : Option (Option Double × Pms) :=
  if self.type ≠ .gauge then none
  else some (casLoopStep (fun old => ar.sub old rValue) spurious old self)

/-- `pms_set`, which is one step. -/
def pmsSetStep (rValue : Double) (self : Pms) : Option (Option Double × Pms) :=
  if self.type ≠ .gauge ∧ (self.type ≠ .counter ∨ rValue.negative = true) then none
  else some (none, { self with rValue := rValue })

/-- What a function does to its sample, by steps. -/
def SampleFn.changeStep (ar : Arithmetic) (f : SampleFn) (spurious : Bool) (old : Option Double)
    (self : Pms) : Option (Option Double × Pms) :=
  match f with
  | gaugeInc | counterInc => pmsAddStep ar (.finite 1) spurious old self
  | gaugeDec => pmsSubStep ar (.finite 1) spurious old self
  | gaugeAdd rValue | counterAdd rValue => pmsAddStep ar rValue spurious old self
  | gaugeSub rValue => pmsSubStep ar rValue spurious old self
  | gaugeSet rValue | counterReset rValue => pmsSetStep rValue self

/-! ### Threads -/

/-- Where a thread is: between two calls, in `pms_from_labels`, behind it with the address of the
sample, if there is one, or in the loop with the value it has loaded. -/
inductive SharedPc
  | idle
  /-- At `pthread_rwlock_wrlock`. -/
  | atLock
  /-- At `pmf_load_l_value`, with the lock. -/
  | locked
  /-- At `pmf_dump`. -/
  | loaded
  /-- At `prom_map_get`. -/
  | dumped (lValue : CString)
  /-- At `pms_new` and `prom_map_set`. -/
  | missing (lValue : CString)
  /-- At `pthread_rwlock_unlock`. -/
  | found (sample : Option ℕ)
  | begun (sample : Option ℕ)
  | loop (sample : ℕ) (old : Double)

/-- Whether a thread has the lock of the metric. -/
def SharedPc.inside : SharedPc → Bool
  | locked | loaded | dumped _ | missing _ | found _ => true
  | idle | atLock | begun _ | loop _ _ => false

/-- A thread: the calls it has not finished, and where it is in the first of them. -/
structure SharedThread where
  todo : List SampleCall
  pc : SharedPc

/-- A metric and the threads that change it. -/
structure SharedMetric (ι : Type) where
  metric : PromMetric Pms
  /-- The thread that has the lock of the metric. -/
  rwlock : Option ι
  threads : ι → SharedThread

/-- A step of a thread at a sample. -/
def sampleStep (ar : Arithmetic) (spurious : Bool) (metric : PromMetric Pms) (c : SampleCall)
    (todo : List SampleCall) (a : ℕ) (old : Option Double) :
    Option (PromMetric Pms × SharedThread) :=
  (metric.objects[a]?.bind (c.fn.changeStep ar spurious old)).map fun r =>
    ({ metric with objects := metric.objects.set a r.2 },
      match r.1 with
      | none => ⟨todo, .idle⟩
      | some old => ⟨c :: todo, .loop a old⟩)

variable {ι : Type}

/-- A step of a thread, with the lock: the check of the type, a call that `pms_from_labels` makes,
or a step at the sample; `none` when there is nothing to do, while the thread waits for the lock,
and for undefined behaviour. -/
def sharedAdvance (ar : Arithmetic) (l : CasLoop.Label ι) (metric : PromMetric Pms)
    (rwlock : Option ι) : SharedThread → Option (PromMetric Pms × Option ι × SharedThread)
  | ⟨[], _⟩ => none
  | ⟨c :: todo, .idle⟩ =>
      if metric.type ≠ c.fn.type then some (metric, rwlock, ⟨c :: todo, .begun none⟩)
      else some (metric, rwlock, ⟨c :: todo, .atLock⟩)
  | ⟨c :: todo, .atLock⟩ =>
      match rwlock with
      | none => some (metric, some l.thread, ⟨c :: todo, .locked⟩)
      | some _ => none
  | ⟨c :: todo, .locked⟩ =>
      let (ok, metric) := metric.loadLValue c.works c.labelValues
      some (metric, rwlock, ⟨c :: todo, if ok then .loaded else .found none⟩)
  | ⟨c :: todo, .loaded⟩ =>
      let (lValue, metric) := metric.dumpLValue
      some (metric, rwlock, ⟨c :: todo, .dumped lValue⟩)
  | ⟨c :: todo, .dumped lValue⟩ =>
      match promMapGet metric.samples lValue with
      | some a => some (metric, rwlock, ⟨c :: todo, .found (some a)⟩)
      | none => some (metric, rwlock, ⟨c :: todo, .missing lValue⟩)
  | ⟨c :: todo, .missing lValue⟩ =>
      let (a, metric) :=
        metric.addSample (fun lValue => some ⟨metric.type, lValue, .finite 0⟩) lValue
      some (metric, rwlock, ⟨c :: todo, .found a⟩)
  | ⟨c :: todo, .found sample⟩ => some (metric, none, ⟨c :: todo, .begun sample⟩)
  | ⟨_ :: todo, .begun none⟩ => some (metric, rwlock, ⟨todo, .idle⟩)
  | ⟨c :: todo, .begun (some a)⟩ =>
      (sampleStep ar l.spurious metric c todo a none).map fun r => (r.1, rwlock, r.2)
  | ⟨c :: todo, .loop a old⟩ =>
      (sampleStep ar l.spurious metric c todo a (some old)).map fun r => (r.1, rwlock, r.2)

variable [DecidableEq ι]

/-- Every interleaving of threads that change a metric. -/
def sharedMetric (ar : Arithmetic) : Machine (SharedMetric ι) (CasLoop.Label ι) where
  init s := s.rwlock = none ∧ ∀ i, (s.threads i).pc = .idle
  step s l := (sharedAdvance ar l s.metric s.rwlock (s.threads l.thread)).map fun r =>
    ⟨r.1, r.2.1, Function.update s.threads l.thread r.2.2⟩

/-! ### The lock -/

/-- What a step does to the lock, and to the metric when the thread does not have the lock. -/
structure Locks (i : ι) (m m₁ : PromMetric Pms) (rwlock rwlock₁ : Option ι)
    (th th₁ : SharedThread) : Prop where
  lock : rwlock₁ = rwlock ∧ th₁.pc.inside = th.pc.inside ∨
    rwlock = none ∧ rwlock₁ = some i ∧ th₁.pc.inside = true ∨
    th.pc.inside = true ∧ rwlock₁ = none ∧ th₁.pc.inside = false
  objects : th.pc.inside = false → ∃ objects, m₁ = { m with objects := objects }

theorem sampleStep_inside {ar : Arithmetic} {spurious : Bool} {m m₁ : PromMetric Pms}
    {c : SampleCall} {todo : List SampleCall} {a : ℕ} {old : Option Double} {th : SharedThread}
    (h : sampleStep ar spurious m c todo a old = some (m₁, th)) :
    th.pc.inside = false ∧ ∃ objects, m₁ = { m with objects := objects } := by
  obtain ⟨⟨old', sample⟩, -, heq⟩ := Option.map_eq_some_iff.1 h
  obtain ⟨rfl, rfl⟩ := Prod.mk.inj heq
  refine ⟨?_, _, rfl⟩
  cases old' with
  | none => rfl
  | some old' => rfl

omit [DecidableEq ι] in
theorem sharedAdvance_locks {ar : Arithmetic} {l : CasLoop.Label ι} {m m₁ : PromMetric Pms}
    {rwlock rwlock₁ : Option ι} {th th₁ : SharedThread}
    (h : sharedAdvance ar l m rwlock th = some (m₁, rwlock₁, th₁)) :
    Locks l.thread m m₁ rwlock rwlock₁ th th₁ := by
  have hof {th : SharedThread} {r : PromMetric Pms × Option ι × SharedThread}
      (hlocks : Locks l.thread m r.1 rwlock r.2.1 th r.2.2)
      (h : some r = some (m₁, rwlock₁, th₁)) : Locks l.thread m m₁ rwlock rwlock₁ th th₁ := by
    obtain rfl := Option.some_inj.1 h
    exact hlocks
  have houtside {th th₁ : SharedThread} (hpc : th.pc.inside = false)
      (hpc₁ : th₁.pc.inside = false) : Locks l.thread m m rwlock rwlock th th₁ :=
    ⟨Or.inl ⟨rfl, hpc₁.trans hpc.symm⟩, fun _ => ⟨m.objects, rfl⟩⟩
  have hinside {m₁ : PromMetric Pms} {th th₁ : SharedThread} (hpc : th.pc.inside = true)
      (hpc₁ : th₁.pc.inside = true) : Locks l.thread m m₁ rwlock rwlock th th₁ :=
    ⟨Or.inl ⟨rfl, hpc₁.trans hpc.symm⟩, fun hout => by simp [hpc] at hout⟩
  have hsample {c : SampleCall} {todo : List SampleCall} {a : ℕ} {old : Option Double}
      {pc : SharedPc} (hpc : pc.inside = false)
      (h : (sampleStep ar l.spurious m c todo a old).map (fun r => (r.1, rwlock, r.2)) =
        some (m₁, rwlock₁, th₁)) : Locks l.thread m m₁ rwlock rwlock₁ ⟨c :: todo, pc⟩ th₁ := by
    obtain ⟨r, hstep, heq⟩ := Option.map_eq_some_iff.1 h
    obtain ⟨hout, hobjects⟩ := sampleStep_inside hstep
    exact hof ⟨Or.inl ⟨rfl, hout.trans hpc.symm⟩, fun _ => hobjects⟩ (congrArg some heq)
  obtain ⟨todo, pc⟩ := th
  cases todo with
  | nil => simp [sharedAdvance] at h
  | cons c todo =>
      cases pc with
      | idle =>
          rw [sharedAdvance] at h
          split at h
          · exact hof (houtside rfl rfl) h
          · exact hof (houtside rfl rfl) h
      | atLock =>
          cases rwlock with
          | some i => simp [sharedAdvance] at h
          | none => exact hof ⟨Or.inr (Or.inl ⟨rfl, rfl, rfl⟩), fun _ => ⟨m.objects, rfl⟩⟩ h
      | locked =>
          refine hof (hinside rfl ?_) h
          dsimp only
          split
          · rfl
          · rfl
      | loaded => exact hof (hinside rfl rfl) h
      | dumped lValue =>
          rw [sharedAdvance] at h
          split at h
          · exact hof (hinside rfl rfl) h
          · exact hof (hinside rfl rfl) h
      | missing lValue => exact hof (hinside rfl rfl) h
      | found sample =>
          exact hof ⟨Or.inr (Or.inr ⟨rfl, rfl, rfl⟩), fun _ => ⟨m.objects, rfl⟩⟩ h
      | begun sample =>
          cases sample with
          | none => exact hof (houtside rfl rfl) h
          | some a => exact hsample rfl h
      | loop a old => exact hsample rfl h

/-- The thread that has the lock is in `pms_from_labels`, and no other one is there. -/
def SharedMetric.Exclusive (s : SharedMetric ι) : Prop :=
  ∀ i, (s.threads i).pc.inside = true ↔ s.rwlock = some i

/-- **Mutual exclusion.** -/
theorem SharedMetric.Exclusive.step {ar : Arithmetic} {s t : SharedMetric ι} (h : s.Exclusive)
    {l : CasLoop.Label ι} (hstep : (sharedMetric ar).step s l = some t) : t.Exclusive := by
  obtain ⟨⟨m, rwlock, th⟩, hadvance, rfl⟩ := Option.map_eq_some_iff.1 hstep
  have hmover := h l.thread
  intro i
  have hother := h i
  by_cases hi : i = l.thread
  · subst hi
    dsimp only
    rw [Function.update_self]
    rcases (sharedAdvance_locks hadvance).lock with ⟨rfl, heq⟩ | ⟨-, rfl, heq⟩ | ⟨-, rfl, heq⟩
    · rw [heq, hmover]
    · simp [heq]
    · simp [heq]
  · dsimp only
    rw [Function.update_of_ne hi, hother]
    rcases (sharedAdvance_locks hadvance).lock with ⟨rfl, -⟩ | ⟨hfree, rfl, -⟩ | ⟨hhas, rfl, -⟩
    · rfl
    · simp [hfree, Ne.symm hi]
    · simp [hmover.1 hhas, Ne.symm hi]

/-! ### Calls on cells -/

/-- What a function does to the cell of its sample. -/
def SampleFn.op (ar : Arithmetic) (f : SampleFn) (key : CString) : CasLoop.Op CString Double :=
  match f with
  | gaugeInc | counterInc => .modify key fun old => ar.add old (.finite 1)
  | gaugeDec => .modify key fun old => ar.sub old (.finite 1)
  | gaugeAdd rValue | counterAdd rValue =>
      if rValue.negative then .skip else .modify key fun old => ar.add old rValue
  | gaugeSub rValue => .modify key fun old => ar.sub old rValue
  | gaugeSet rValue | counterReset rValue => .store key rValue

/-- What a call on a metric does to the cells of its samples. -/
def SampleCall.op (ar : Arithmetic) (self : PromMetric Pms) (c : SampleCall) :
    CasLoop.Op CString Double :=
  if self.type = c.fn.type then c.fn.op ar (self.lValue c.labelValues) else .skip

/-- A function by steps does to its sample what its operation does to the cell. -/
theorem SampleFn.changeStep_eq (ar : Arithmetic) {f : SampleFn} (hf : f.Defined) {s : Pms}
    (hs : s.type = f.type) (key : CString) (spurious : Bool) (old : Option Double) :
    f.changeStep ar spurious old s = some (match f.op ar key with
      | .skip => (none, s)
      | .store _ x => (none, { s with rValue := x })
      | .modify _ new => casLoopStep new spurious old s) := by
  have hadd (r : Double) : pmsAddStep ar r spurious old s = some (match
      (if r.negative then .skip else .modify key fun old => ar.add old r :
        CasLoop.Op CString Double) with
      | .skip => (none, s)
      | .store _ x => (none, { s with rValue := x })
      | .modify _ new => casLoopStep new spurious old s) := by
    unfold pmsAddStep
    cases r.negative <;> rfl
  cases f with
  | gaugeInc | counterInc => rfl
  | gaugeAdd r | counterAdd r => exact hadd r
  | gaugeDec | gaugeSub => exact if_neg fun h => h hs
  | gaugeSet => exact if_neg fun h => h.1 hs
  | counterReset r =>
      refine if_neg ?_
      rintro ⟨-, h | h⟩
      · exact h hs
      · rw [Defined] at hf
        simp [hf] at h

/-- The cells of the values. -/
def cellsOf (value : CString → Option Double) (key : CString) : Double :=
  (value key).getD (.finite 0)

theorem cellsOf_update (value : CString → Option Double) (key : CString) (x : Double) :
    cellsOf (Function.update value key (some x)) = Function.update (cellsOf value) key x := by
  funext key'
  unfold cellsOf
  by_cases hkey : key' = key
  · rw [hkey, Function.update_self, Function.update_self, Option.getD_some]
  · rw [Function.update_of_ne hkey, Function.update_of_ne hkey]

/-- A call does to the cells what it does to the values. -/
theorem SampleCall.op_apply (ar : Arithmetic) (self : PromMetric Pms) (c : SampleCall)
    (value : CString → Option Double) :
    (c.op ar self).apply (cellsOf value) =
      cellsOf (c.fn.applyAt ar self.type (self.lValue c.labelValues) value) := by
  unfold SampleCall.op SampleFn.applyAt
  by_cases htype : self.type = c.fn.type
  · rw [if_pos htype, if_pos htype, cellsOf_update]
    generalize self.lValue c.labelValues = key
    have hadd (r : Double) : (if r.negative then .skip else .modify key fun old => ar.add old r :
        CasLoop.Op CString Double).apply (cellsOf value) = Function.update (cellsOf value) key
          (if r.negative then (value key).getD (.finite 0)
            else ar.add ((value key).getD (.finite 0)) r) := by
      cases r.negative with
      | false => rfl
      | true => exact (Function.update_eq_self key (cellsOf value)).symm
    cases c.fn with
    | gaugeInc | counterInc | gaugeDec | gaugeSub | gaugeSet | counterReset => rfl
    | gaugeAdd r | counterAdd r => exact hadd r
  · rw [if_neg htype, if_neg htype]
    rfl

/-- An operation of a function is about the cell of its sample. -/
theorem SampleFn.op_cases (ar : Arithmetic) (f : SampleFn) (key : CString) :
    f.op ar key = .skip ∨ (∃ y, f.op ar key = .store key y) ∨
      ∃ new, f.op ar key = .modify key new := by
  have hadd (r : Double) : ((if r.negative then .skip else .modify key fun old => ar.add old r :
      CasLoop.Op CString Double) = .skip) ∨ ∃ new, (if r.negative then .skip else
        .modify key fun old => ar.add old r : CasLoop.Op CString Double) = .modify key new := by
    cases r.negative with
    | false => exact Or.inr ⟨_, rfl⟩
    | true => exact Or.inl rfl
  cases f with
  | gaugeInc | counterInc | gaugeDec | gaugeSub => exact Or.inr (Or.inr ⟨_, rfl⟩)
  | gaugeSet | counterReset => exact Or.inr (Or.inl ⟨_, rfl⟩)
  | gaugeAdd r | counterAdd r => exact (hadd r).imp_right Or.inr

/-! ### The simulation -/

/-- A metric with more samples. -/
structure PromMetric.Grown (m m' : PromMetric Pms) : Prop where
  type : m'.type = m.type
  lValue : m'.lValue = m.lValue
  get : ∀ key a, promMapGet m.samples key = some a → promMapGet m'.samples key = some a

namespace PromMetric.Grown

variable {m m' m'' : PromMetric Pms}

theorem refl (m : PromMetric Pms) : m.Grown m := ⟨rfl, rfl, fun _ _ ha => ha⟩

theorem trans (h : m.Grown m') (h' : m'.Grown m'') : m.Grown m'' :=
  ⟨h'.type.trans h.type, h'.lValue.trans h.lValue, fun key a ha => h'.get key a (h.get key a ha)⟩

theorem op_eq (h : m.Grown m') (ar : Arithmetic) : SampleCall.op ar m' = SampleCall.op ar m := by
  funext c
  rw [SampleCall.op, SampleCall.op, h.type, h.lValue]

end PromMetric.Grown

namespace SharedMetric

/-- What a metric keeps when nothing is in its builder. -/
def Keeps (m : PromMetric Pms) (value : CString → Option Double) : Prop :=
  PromMetric.Holds { m with formatter := [] } value

/-- Where a thread is, and where it is among compare and swap loops on cells: there
`pms_from_labels` is one step, which gives back the lock here. -/
inductive ThreadSim (ar : Arithmetic) (m : PromMetric Pms) :
    SharedThread → CasLoop.Thread Double SampleCall → Prop
  | idle (todo : List SampleCall) : ThreadSim ar m ⟨todo, .idle⟩ ⟨todo, .idle⟩
  | refused {c : SampleCall} (todo : List SampleCall) (htype : m.type ≠ c.fn.type) :
      ThreadSim ar m ⟨c :: todo, .begun none⟩ ⟨c :: todo, .begun⟩
  | atLock {c : SampleCall} (todo : List SampleCall) (htype : m.type = c.fn.type) :
      ThreadSim ar m ⟨c :: todo, .atLock⟩ ⟨c :: todo, .idle⟩
  | locked {c : SampleCall} (todo : List SampleCall) (htype : m.type = c.fn.type)
      (htext : m.formatter = []) : ThreadSim ar m ⟨c :: todo, .locked⟩ ⟨c :: todo, .idle⟩
  | loaded {c : SampleCall} (todo : List SampleCall) (htype : m.type = c.fn.type)
      (htext : m.formatter = m.lValue c.labelValues) :
      ThreadSim ar m ⟨c :: todo, .loaded⟩ ⟨c :: todo, .idle⟩
  | dumped {c : SampleCall} (todo : List SampleCall) (htype : m.type = c.fn.type)
      (htext : m.formatter = []) {lValue : CString} (hlValue : lValue = m.lValue c.labelValues) :
      ThreadSim ar m ⟨c :: todo, .dumped lValue⟩ ⟨c :: todo, .idle⟩
  | missing {c : SampleCall} (todo : List SampleCall) (htype : m.type = c.fn.type)
      (htext : m.formatter = []) {lValue : CString} (hlValue : lValue = m.lValue c.labelValues)
      (hnone : promMapGet m.samples lValue = none) :
      ThreadSim ar m ⟨c :: todo, .missing lValue⟩ ⟨c :: todo, .idle⟩
  | found {c : SampleCall} (todo : List SampleCall) {a : ℕ} (htype : m.type = c.fn.type)
      (htext : m.formatter = []) (ha : promMapGet m.samples (m.lValue c.labelValues) = some a) :
      ThreadSim ar m ⟨c :: todo, .found (some a)⟩ ⟨c :: todo, .idle⟩
  | begun {c : SampleCall} (todo : List SampleCall) {a : ℕ} (htype : m.type = c.fn.type)
      (ha : promMapGet m.samples (m.lValue c.labelValues) = some a) :
      ThreadSim ar m ⟨c :: todo, .begun (some a)⟩ ⟨c :: todo, .begun⟩
  | loop {c : SampleCall} (todo : List SampleCall) {a : ℕ} (htype : m.type = c.fn.type)
      (ha : promMapGet m.samples (m.lValue c.labelValues) = some a) (old : Double)
      {new : Double → Double}
      (hop : c.fn.op ar (m.lValue c.labelValues) = .modify (m.lValue c.labelValues) new) :
      ThreadSim ar m ⟨c :: todo, .loop a old⟩ ⟨c :: todo, .loop old⟩

variable {ar : Arithmetic} {m m' : PromMetric Pms} {value : CString → Option Double}
  {th : SharedThread} {th' : CasLoop.Thread Double SampleCall}

theorem ThreadSim.todo (h : ThreadSim ar m th th') : th'.todo = th.todo := by
  cases h with
  | idle | refused | atLock | locked | loaded | dumped | missing | found | begun | loop => rfl

theorem ThreadSim.todo_ne_nil (h : ThreadSim ar m th th') (hinside : th.pc.inside = true) :
    th.todo ≠ [] := by
  cases h with
  | idle | refused | atLock | begun | loop => simp [SharedPc.inside] at hinside
  | locked | loaded | dumped | missing | found => simp

/-- What other threads do to a metric does not matter, if they leave the map and the builder to the
thread that has the lock. -/
theorem ThreadSim.grown (h : ThreadSim ar m th th') (hgrown : m.Grown m')
    (hinside : th.pc.inside = true → m'.samples = m.samples ∧ m'.formatter = m.formatter) :
    ThreadSim ar m' th th' := by
  have htype' := hgrown.type
  have hlValue' := hgrown.lValue
  cases h with
  | idle todo => exact .idle todo
  | refused todo htype => exact .refused todo (htype' ▸ htype)
  | atLock todo htype => exact .atLock todo (htype'.trans htype)
  | locked todo htype htext => exact .locked todo (htype'.trans htype) ((hinside rfl).2.trans htext)
  | loaded todo htype htext =>
      exact .loaded todo (htype'.trans htype) (by rw [(hinside rfl).2, htext, hlValue'])
  | dumped todo htype htext hlValue =>
      exact .dumped todo (htype'.trans htype) ((hinside rfl).2.trans htext)
        (by rw [hlValue, hlValue'])
  | missing todo htype htext hlValue hnone =>
      exact .missing todo (htype'.trans htype) ((hinside rfl).2.trans htext)
        (by rw [hlValue, hlValue']) (by rw [(hinside rfl).1, hnone])
  | found todo htype htext ha =>
      exact .found todo (htype'.trans htype) ((hinside rfl).2.trans htext)
        (hgrown.get _ _ (hlValue' ▸ ha))
  | begun todo htype ha =>
      exact .begun todo (htype'.trans htype) (hgrown.get _ _ (hlValue' ▸ ha))
  | loop todo htype ha old hop =>
      exact .loop todo (htype'.trans htype) (hgrown.get _ _ (hlValue' ▸ ha)) old
        (by rw [hlValue']; exact hop)

theorem Keeps.lookup (h : Keeps m value) (key : CString) :
    m.lookup key = (value key).map (Pms.mk m.type key) := PromMetric.Holds.lookup h key

theorem keeps_iff (h : m.formatter = []) : Keeps m value ↔ m.Holds value := by
  obtain ⟨type, name, help, labelKeys, samples, objects, formatter⟩ := m
  obtain rfl : formatter = [] := h
  exact Iff.rfl

theorem Keeps.getElem?_objects (h : Keeps m value) {key : CString} {a : ℕ}
    (ha : promMapGet m.samples key = some a) :
    ∃ x, value key = some x ∧ m.objects[a]? = some ⟨m.type, key, x⟩ :=
  PromMetric.Holds.getElem?_objects h ha

theorem Keeps.setObject (h : Keeps m value) {key : CString} {a : ℕ}
    (ha : promMapGet m.samples key = some a) (x : Double) :
    Keeps { m with objects := m.objects.set a ⟨m.type, key, x⟩ }
      (Function.update value key (some x)) :=
  PromMetric.Holds.setObject h ha x

/-- How many steps of `pms_from_labels` are left, the last one apart. -/
def pcSteps : SharedPc → ℕ
  | .idle => 6
  | .atLock => 5
  | .locked => 4
  | .loaded => 3
  | .dumped _ => 2
  | .missing _ => 1
  | .found _ | .begun _ | .loop _ _ => 0

/-- How many steps of `pms_from_labels` a thread has left, the last one of each call apart. -/
def quietSteps (th : SharedThread) : ℕ :=
  match th.todo with
  | [] => 0
  | _ :: todo => 6 * todo.length + pcSteps th.pc

/-- The thread that moves does what a thread on cells does, or is in `pms_from_labels`. -/
def Moves (ar : Arithmetic) (spurious : Bool) (m : PromMetric Pms)
    (value value₁ : CString → Option Double) (th th₁ : SharedThread)
    (th' th₁' : CasLoop.Thread Double SampleCall) : Prop :=
  CasLoop.advance (SampleCall.op ar m) spurious (cellsOf value) th' =
      some (cellsOf value₁, th₁') ∧ quietSteps th₁ ≤ quietSteps th ∨
    cellsOf value₁ = cellsOf value ∧ th₁' = th' ∧ quietSteps th₁ < quietSteps th

/-- The thread that moves comes to a state in both, with the metric and the values there, and its
call has a sample when it is finished. -/
structure Advanced (ar : Arithmetic) (l : CasLoop.Label ι) (m : PromMetric Pms) (rwlock : Option ι)
    (value : CString → Option Double) (th : SharedThread)
    (th' : CasLoop.Thread Double SampleCall) (m₁ : PromMetric Pms) (rwlock₁ : Option ι)
    (value₁ : CString → Option Double) (th₁ : SharedThread)
    (th₁' : CasLoop.Thread Double SampleCall) : Prop where
  shared : sharedAdvance ar l m rwlock th = some (m₁, rwlock₁, th₁)
  moves : Moves ar l.spurious m value value₁ th th₁ th' th₁'
  keeps : Keeps m₁ value₁
  grown : m.Grown m₁
  threads : ThreadSim ar m₁ th₁ th₁'
  free : rwlock₁ = none → (rwlock = none → m.formatter = []) → m₁.formatter = []
  todo : th₁.todo = th.todo ∨ ∃ c, th.todo = c :: th₁.todo ∧
    (m.type = c.fn.type → (promMapGet m₁.samples (m.lValue c.labelValues)).isSome)

omit [DecidableEq ι] in
theorem quietSteps_idle (todo : List SampleCall) :
    quietSteps ⟨todo, .idle⟩ = 6 * todo.length := by
  cases todo with
  | nil => rfl
  | cons c todo => rfl

/-- A step at the sample of a call. -/
theorem sampleStep_sim (hm : Keeps m value) {c : SampleCall} (todo : List SampleCall) {a : ℕ}
    (htype : m.type = c.fn.type) (hf : c.fn.Defined)
    (ha : promMapGet m.samples (m.lValue c.labelValues) = some a) (spurious : Bool)
    (old : Option Double)
    (hold : old ≠ none → ∃ new,
      c.fn.op ar (m.lValue c.labelValues) = .modify (m.lValue c.labelValues) new) :
    ∃ m₁ value₁ th₁ th₁', sampleStep ar spurious m c todo a old = some (m₁, th₁) ∧
      CasLoop.advance (SampleCall.op ar m) spurious (cellsOf value)
        ⟨c :: todo, old.elim .begun .loop⟩ = some (cellsOf value₁, th₁') ∧
      Keeps m₁ value₁ ∧ m.Grown m₁ ∧ ThreadSim ar m₁ th₁ th₁' ∧
      quietSteps th₁ ≤ 6 * todo.length ∧ (th₁.todo = c :: todo ∨ th₁.todo = todo) := by
  obtain ⟨x, hx, hsample⟩ := hm.getElem?_objects ha
  have hstep (spurious : Bool) (old : Option Double) := SampleFn.changeStep_eq ar hf
    (show (⟨m.type, m.lValue c.labelValues, x⟩ : Pms).type = c.fn.type from htype)
    (m.lValue c.labelValues) spurious old
  have hcall : SampleCall.op ar m c = c.fn.op ar (m.lValue c.labelValues) := if_pos htype
  have hcell : cellsOf value (m.lValue c.labelValues) = x := by rw [cellsOf, hx, Option.getD_some]
  have hkeep : Function.update value (m.lValue c.labelValues) (some x) = value := by
    rw [← hx, Function.update_eq_self]
  have hset (y : Double) := hm.setObject ha y
  have hgrown (objects : List Pms) : m.Grown { m with objects := objects } :=
    ⟨rfl, rfl, fun _ _ ha => ha⟩
  have hstays := hkeep ▸ hset x
  rcases c.fn.op_cases ar (m.lValue c.labelValues) with hop | ⟨y, hop⟩ | ⟨new, hop⟩
  · cases old with
    | some old => simp [hop] at hold
    | none =>
        refine ⟨_, value, ⟨todo, .idle⟩, ⟨todo, .idle⟩, ?_, ?_, hstays, hgrown _, .idle todo,
          (quietSteps_idle todo).le, Or.inr rfl⟩
        · rw [sampleStep, hsample, Option.bind_some, hstep, hop]
          rfl
        · simp only [CasLoop.advance, Option.elim_none, hcall, hop]
  · cases old with
    | some old => simp [hop] at hold
    | none =>
        refine ⟨_, _, ⟨todo, .idle⟩, ⟨todo, .idle⟩, ?_, ?_, hset y, hgrown _, .idle todo,
          (quietSteps_idle todo).le, Or.inr rfl⟩
        · rw [sampleStep, hsample, Option.bind_some, hstep, hop]
          rfl
        · simp only [CasLoop.advance, Option.elim_none, hcall, hop, cellsOf_update]
  · -- the value that is there is loaded, at the beginning or because another one was expected
    have hload := (ThreadSim.loop todo htype ha x hop).grown
      (hgrown (m.objects.set a ⟨m.type, m.lValue c.labelValues, x⟩)) (by simp [SharedPc.inside])
    cases old with
    | none =>
        refine ⟨_, value, ⟨c :: todo, .loop a x⟩, ⟨c :: todo, .loop x⟩, ?_, ?_, hstays, hgrown _,
          hload, Nat.le_refl _, Or.inl rfl⟩
        · rw [sampleStep, hsample, Option.bind_some, hstep, hop]
          rfl
        · simp only [CasLoop.advance, Option.elim_none, hcall, hop, hcell]
    | some old =>
        by_cases hswap : x = old ∧ spurious = false
        · refine ⟨_, _, ⟨todo, .idle⟩, ⟨todo, .idle⟩, ?_, ?_, hset (new old), hgrown _, .idle todo,
            (quietSteps_idle todo).le, Or.inr rfl⟩
          · rw [sampleStep, hsample, Option.bind_some, hstep, hop]
            simp only [casLoopStep, if_pos hswap, Option.map_some]
          · simp only [CasLoop.advance, Option.elim_some, hcall, hop, hcell, if_pos hswap,
              cellsOf_update]
        · refine ⟨_, value, ⟨c :: todo, .loop a x⟩, ⟨c :: todo, .loop x⟩, ?_, ?_, hstays,
            hgrown _, hload, Nat.le_refl _, Or.inl rfl⟩
          · rw [sampleStep, hsample, Option.bind_some, hstep, hop]
            simp only [casLoopStep, if_neg hswap, Option.map_some]
          · simp only [CasLoop.advance, Option.elim_some, hcall, hop, hcell, if_neg hswap]

omit [DecidableEq ι] in
/-- A step of `pms_from_labels` that is not the last one. -/
theorem advanced_quiet {l : CasLoop.Label ι} {rwlock rwlock₁ : Option ι} {c : SampleCall}
    {todo : List SampleCall} {pc pc₁ : SharedPc} {m₁ : PromMetric Pms}
    {value₁ : CString → Option Double}
    (hshared : sharedAdvance ar l m rwlock ⟨c :: todo, pc⟩ = some (m₁, rwlock₁, ⟨c :: todo, pc₁⟩))
    (hcells : cellsOf value₁ = cellsOf value) (hkeeps : Keeps m₁ value₁) (hgrown : m.Grown m₁)
    (hthreads : ThreadSim ar m₁ ⟨c :: todo, pc₁⟩ ⟨c :: todo, .idle⟩)
    (hsteps : pcSteps pc₁ < pcSteps pc)
    (hfree : rwlock₁ = none → (rwlock = none → m.formatter = []) → m₁.formatter = []) :
    Advanced ar l m rwlock value ⟨c :: todo, pc⟩ ⟨c :: todo, .idle⟩ m₁ rwlock₁ value₁
      ⟨c :: todo, pc₁⟩ ⟨c :: todo, .idle⟩ where
  shared := hshared
  moves := Or.inr ⟨hcells, rfl, Nat.add_lt_add_left hsteps _⟩
  keeps := hkeeps
  grown := hgrown
  threads := hthreads
  free := hfree
  todo := Or.inl rfl

omit [DecidableEq ι] in
/-- A step at the sample of a call leaves the lock alone. -/
theorem advanced_sample {l : CasLoop.Label ι} {rwlock : Option ι} (hm : Keeps m value)
    {c : SampleCall} (todo : List SampleCall) {a : ℕ} (htype : m.type = c.fn.type)
    (hf : c.fn.Defined) (ha : promMapGet m.samples (m.lValue c.labelValues) = some a)
    {pc : SharedPc} (old : Option Double)
    (hold : old ≠ none → ∃ new,
      c.fn.op ar (m.lValue c.labelValues) = .modify (m.lValue c.labelValues) new)
    (hpc : pcSteps pc = 0)
    (hshared : sharedAdvance ar l m rwlock ⟨c :: todo, pc⟩ =
      (sampleStep ar l.spurious m c todo a old).map fun r => (r.1, rwlock, r.2)) :
    ∃ m₁ rwlock₁ value₁ th₁ th₁', Advanced ar l m rwlock value ⟨c :: todo, pc⟩
      ⟨c :: todo, old.elim .begun .loop⟩ m₁ rwlock₁ value₁ th₁ th₁' := by
  obtain ⟨m₁, value₁, th₁, th₁', hstep, hcells, hkeeps, hgrown, hthreads, hsteps, hdone⟩ :=
    sampleStep_sim hm todo htype hf ha l.spurious old hold
  obtain ⟨-, objects, rfl⟩ := sampleStep_inside hstep
  refine ⟨_, rwlock, value₁, th₁, th₁', by rw [hshared, hstep, Option.map_some],
    Or.inl ⟨hcells, ?_⟩, hkeeps, hgrown, hthreads, fun hnone hfree => hfree hnone, ?_⟩
  · have hleft : quietSteps ⟨c :: todo, pc⟩ = 6 * todo.length + 0 := by rw [← hpc]; rfl
    rw [hleft]
    exact hsteps
  · refine hdone.imp_right fun h => ⟨c, by rw [h], fun _ => ?_⟩
    rw [hgrown.get _ _ ha]
    rfl

omit [DecidableEq ι] in
/-- **One step of a thread.**  A thread with calls left can move, unless it waits for the lock, and
does what a thread on cells does, or comes closer to it. -/
theorem advance_sim (hm : Keeps m value) {l : CasLoop.Label ι} {rwlock : Option ι}
    (hth : ThreadSim ar m th th') (htodo : th.todo ≠ [])
    (hcalls : ∀ c ∈ th.todo, (∀ k, c.works k = true) ∧ (m.type = c.fn.type → c.fn.Defined))
    (hwaits : th.pc = .atLock → rwlock = none) (hempty : rwlock = none → m.formatter = [])
    (hhas : th.pc.inside = true → rwlock = some l.thread) :
    ∃ m₁ rwlock₁ value₁ th₁ th₁',
      Advanced ar l m rwlock value th th' m₁ rwlock₁ value₁ th₁ th₁' := by
  cases hth with
  | idle todo =>
      cases todo with
      | nil => exact absurd rfl htodo
      | cons c todo =>
          by_cases htype : m.type = c.fn.type
          · exact ⟨_, _, _, _, _, advanced_quiet (by rw [sharedAdvance, if_neg (not_not.2 htype)])
              rfl hm (.refl m) (.atLock todo htype) (by decide) fun hnone hfree => hfree hnone⟩
          · refine ⟨m, rwlock, value, ⟨c :: todo, .begun none⟩, ⟨c :: todo, .begun⟩, ?_,
              Or.inl ⟨rfl, Nat.le_add_right _ _⟩, hm, .refl m, .refused todo htype,
              fun hnone hfree => hfree hnone, Or.inl rfl⟩
            rw [sharedAdvance, if_pos htype]
  | @atLock c todo htype =>
      obtain rfl := hwaits rfl
      exact ⟨_, _, _, _, _, advanced_quiet rfl rfl hm (.refl m)
        (.locked todo htype (hempty rfl)) (by decide) fun _ hfree => hfree rfl⟩
  | @locked c todo htype htext =>
      have hload := PromMetric.loadLValue_eq (hcalls c (List.mem_cons_self ..)).1 htext
        c.labelValues
      refine ⟨{ m with formatter := m.lValue c.labelValues }, rwlock, value, _, _,
        advanced_quiet ?_ rfl hm ⟨rfl, rfl, fun _ _ ha => ha⟩ (.loaded todo htype rfl) (by decide)
          fun hnone => ?_⟩
      · rw [sharedAdvance, hload]
        rfl
      · rw [hhas rfl] at hnone
        simp at hnone
  | @loaded c todo htype htext =>
      exact ⟨{ m with formatter := [] }, rwlock, value, _, _, advanced_quiet rfl rfl hm
        ⟨rfl, rfl, fun _ _ ha => ha⟩
        (ThreadSim.dumped (m := { m with formatter := [] }) todo htype rfl htext)
        (by simp [pcSteps]) fun _ _ => rfl⟩
  | @dumped c todo htype htext lValue hlValue =>
      cases hget : promMapGet m.samples lValue with
      | some a =>
          exact ⟨_, _, _, _, _, advanced_quiet (by rw [sharedAdvance, hget]) rfl hm (.refl m)
            (.found todo htype htext (hlValue ▸ hget)) (by simp [pcSteps]) fun _ _ => htext⟩
      | none =>
          exact ⟨_, _, _, _, _, advanced_quiet (by rw [sharedAdvance, hget]) rfl hm (.refl m)
            (.missing todo htype htext hlValue hget) (by simp [pcSteps])
              fun _ _ => htext⟩
  | @missing c todo htype htext lValue hlValue hnone =>
      obtain ⟨samples, objects, hadd, hholds, hvalue, ha, hkept⟩ :=
        ((keeps_iff htext).1 hm).addSample hnone
      refine ⟨{ m with samples := samples, objects := objects }, rwlock,
        Function.update value lValue (some (.finite 0)), _, _, advanced_quiet ?_ ?_ ?_
          ⟨rfl, rfl, hkept⟩ (.found todo htype htext (hlValue ▸ ha)) (by simp [pcSteps])
          fun _ _ => htext⟩
      · rw [sharedAdvance, hadd]
      · rw [cellsOf_update]
        refine Function.update_eq_iff.2 ⟨?_, fun _ _ => rfl⟩
        rw [cellsOf, hvalue]
        rfl
      · exact (keeps_iff (m := { m with samples := samples, objects := objects }) htext).2 hholds
  | @found c todo a htype htext ha =>
      exact ⟨m, none, value, ⟨c :: todo, .begun (some a)⟩, ⟨c :: todo, .begun⟩, rfl,
        Or.inl ⟨rfl, Nat.le_refl _⟩, hm, .refl m, .begun todo htype ha, fun _ _ => htext,
        Or.inl rfl⟩
  | @refused c todo htype =>
      have hcall : SampleCall.op ar m c = .skip := if_neg htype
      refine ⟨m, rwlock, value, ⟨todo, .idle⟩, ⟨todo, .idle⟩, rfl, Or.inl ⟨?_, ?_⟩, hm, .refl m,
        .idle todo, fun hnone hfree => hfree hnone, Or.inr ⟨c, rfl, fun h => absurd h htype⟩⟩
      · simp only [CasLoop.advance, hcall]
      · exact (quietSteps_idle todo).le
  | @begun c todo a htype ha =>
      exact advanced_sample hm todo htype ((hcalls c (List.mem_cons_self ..)).2 htype) ha none
        (fun h => absurd rfl h) rfl rfl
  | @loop c todo a htype ha old new hop =>
      exact advanced_sample hm todo htype ((hcalls c (List.mem_cons_self ..)).2 htype) ha
        (some old) (fun _ => ⟨new, hop⟩) rfl rfl

/-- The calls of the threads succeed in allocating memory, and no counter is reset to a negative
number. -/
def Fine (type : MetricType) (programs : ι → List SampleCall) : Prop :=
  ∀ i, ∀ c ∈ programs i, (∀ k, c.works k = true) ∧ (type = c.fn.type → c.fn.Defined)

/-- **The simulation**: the samples hold what the cells hold, the threads are in the same places,
one of them at most has the lock, and every finished call has a sample. -/
structure Sim (ar : Arithmetic) (new : PromMetric Pms) (programs : ι → List SampleCall)
    (s : SharedMetric ι) (u : CasLoop.State ι CString Double SampleCall) : Prop where
  grown : new.Grown s.metric
  keeps : ∃ value, Keeps s.metric value ∧ u.cells = cellsOf value
  threads : ∀ i, ThreadSim ar s.metric (s.threads i) (u.threads i)
  exclusive : s.Exclusive
  free : s.rwlock = none → s.metric.formatter = []
  done : ∀ i, ∃ done, programs i = done ++ (s.threads i).todo ∧ ∀ c ∈ done,
    new.type = c.fn.type → (promMapGet s.metric.samples (new.lValue c.labelValues)).isSome

variable {new : PromMetric Pms} {programs : ι → List SampleCall} {s t : SharedMetric ι}
  {u v : CasLoop.State ι CString Double SampleCall}

/-- A step of a thread and what the threads on cells do meanwhile: the same, or nothing. -/
def Follows (ar : Arithmetic) (new : PromMetric Pms) (l : CasLoop.Label ι) (s t : SharedMetric ι)
    (u v : CasLoop.State ι CString Double SampleCall) : Prop :=
  (CasLoop.machine (SampleCall.op ar new)).step u l = some v ∧
      quietSteps (t.threads l.thread) ≤ quietSteps (s.threads l.thread) ∨
    v = u ∧ quietSteps (t.threads l.thread) < quietSteps (s.threads l.thread)

/-- A thread with calls left moves in both, unless it waits for the lock. -/
theorem Sim.step (h : Sim ar new programs s u) (hfine : Fine new.type programs)
    (l : CasLoop.Label ι) (htodo : (s.threads l.thread).todo ≠ [])
    (hwaits : (s.threads l.thread).pc = .atLock → s.rwlock = none) :
    ∃ t v, (sharedMetric ar).step s l = some t ∧ Follows ar new l s t u v ∧
      Sim ar new programs t v := by
  obtain ⟨value, hkeeps, hcells⟩ := h.keeps
  obtain ⟨done, hdone, hsamples⟩ := h.done l.thread
  obtain ⟨m₁, rwlock₁, value₁, th₁, th₁', hadvanced⟩ := advance_sim hkeeps (h.threads l.thread)
    htodo (fun c hc => h.grown.type ▸ hfine l.thread c (hdone ▸ List.mem_append_right _ hc))
    hwaits h.free (h.exclusive l.thread).1
  have hshared : (sharedMetric ar).step s l =
      some ⟨m₁, rwlock₁, Function.update s.threads l.thread th₁⟩ := by
    simp only [sharedMetric, hadvanced.shared, Option.map_some]
  refine ⟨_, ⟨cellsOf value₁, Function.update u.threads l.thread th₁'⟩, hshared, ?_,
    h.grown.trans hadvanced.grown, ⟨value₁, hadvanced.keeps, rfl⟩, fun i => ?_,
    h.exclusive.step hshared, fun hnone => hadvanced.free hnone h.free, fun i => ?_⟩
  · unfold Follows
    dsimp only
    rw [Function.update_self]
    refine hadvanced.moves.imp (fun hmoves => ⟨?_, hmoves.2⟩) fun hmoves => ⟨?_, hmoves.2.2⟩
    · have habstract := hmoves.1
      rw [h.grown.op_eq, ← hcells] at habstract
      simp only [CasLoop.machine, habstract, Option.map_some]
    · rw [hmoves.1, hmoves.2.1, Function.update_eq_self, ← hcells]
  · by_cases hi : i = l.thread
    · subst hi
      simpa using hadvanced.threads
    · -- when this thread has the lock, the one that moves does not
      dsimp only
      rw [Function.update_of_ne hi, Function.update_of_ne hi]
      refine (h.threads i).grown hadvanced.grown fun hinside => ?_
      have hhas := (h.exclusive i).1 hinside
      have hmover : (s.threads l.thread).pc.inside = false := by
        rw [← Bool.not_eq_true, h.exclusive l.thread, hhas]
        simpa using hi
      obtain ⟨objects, rfl⟩ := (sharedAdvance_locks hadvanced.shared).objects hmover
      exact ⟨rfl, rfl⟩
  · have hkeep {c : SampleCall}
        (hc : (promMapGet s.metric.samples (new.lValue c.labelValues)).isSome) :
        (promMapGet m₁.samples (new.lValue c.labelValues)).isSome := by
      obtain ⟨a, ha⟩ := Option.isSome_iff_exists.1 hc
      rw [hadvanced.grown.get _ _ ha]
      rfl
    by_cases hi : i = l.thread
    · subst hi
      simp only [Function.update_self]
      rcases hadvanced.todo with htodo | ⟨c, htodo, hc⟩
      · exact ⟨done, by rw [htodo, hdone], fun c hc htype => hkeep (hsamples c hc htype)⟩
      · refine ⟨done ++ [c], by rw [hdone, htodo, List.append_assoc]; rfl, fun c' hc' htype => ?_⟩
        rcases List.mem_append.1 hc' with hc' | hc'
        · exact hkeep (hsamples c' hc' htype)
        · rw [List.mem_singleton.1 hc'] at htype ⊢
          rw [h.grown.type, h.grown.lValue] at hc
          exact hc htype
    · obtain ⟨done', hdone', hsamples'⟩ := h.done i
      simp only [Function.update_of_ne hi]
      exact ⟨done', hdone', fun c hc htype => hkeep (hsamples' c hc htype)⟩

/-- A thread that moves has calls left, and does not wait for the lock. -/
theorem of_step {l : CasLoop.Label ι} (h : (sharedMetric ar).step s l = some t) :
    (s.threads l.thread).todo ≠ [] ∧ ((s.threads l.thread).pc = .atLock → s.rwlock = none) := by
  obtain ⟨r, hadvance, -⟩ := Option.map_eq_some_iff.1 h
  generalize s.threads l.thread = th at hadvance
  obtain ⟨todo, pc⟩ := th
  cases todo with
  | nil => simp [sharedAdvance] at hadvance
  | cons c todo =>
      refine ⟨by simp, ?_⟩
      rintro rfl
      cases hlock : s.rwlock with
      | none => rfl
      | some i => simp [sharedAdvance, hlock] at hadvance

theorem sum_quietSteps [Fintype ι] {l : CasLoop.Label ι} (h : (sharedMetric ar).step s l = some t) :
    ∑ i, quietSteps (t.threads i) + quietSteps (s.threads l.thread) =
      ∑ i, quietSteps (s.threads i) + quietSteps (t.threads l.thread) := by
  obtain ⟨r, -, rfl⟩ := Option.map_eq_some_iff.1 h
  have hothers : ∑ i ∈ Finset.univ.erase l.thread,
      quietSteps (Function.update s.threads l.thread r.2.2 i) =
        ∑ i ∈ Finset.univ.erase l.thread, quietSteps (s.threads i) :=
    Finset.sum_congr rfl fun i hi => by rw [Function.update_of_ne (Finset.ne_of_mem_erase hi)]
  have hsplit (threads : ι → SharedThread) := Finset.add_sum_erase Finset.univ
    (fun i => quietSteps (threads i)) (Finset.mem_univ l.thread)
  have hbefore := hsplit s.threads
  have hafter := hsplit (Function.update s.threads l.thread r.2.2)
  dsimp only at hbefore hafter ⊢
  omega

/-- **A run of the threads is a run of compare and swap loops on cells**, with the steps of
`pms_from_labels` between them. -/
theorem Sim.run [Fintype ι] (h : Sim ar new programs s u) (hfine : Fine new.type programs)
    {ls : List (CasLoop.Label ι)} (hrun : (sharedMetric ar).run s ls = some t) :
    ∃ ls' v, (CasLoop.machine (SampleCall.op ar new)).run u ls' = some v ∧
      Sim ar new programs t v ∧ ls.countP (!·.spurious) + ∑ i, quietSteps (t.threads i) ≤
        ls'.countP (!·.spurious) + ∑ i, quietSteps (s.threads i) := by
  induction ls generalizing s u with
  | nil =>
      simp only [Machine.run_nil, Option.some_inj] at hrun
      subst hrun
      exact ⟨[], u, rfl, h, Nat.le_refl _⟩
  | cons l ls ih =>
      obtain ⟨s', hs', hrest⟩ := Machine.run_cons_eq_some.1 hrun
      obtain ⟨htodo, hwaits⟩ := of_step hs'
      obtain ⟨s'', u', hs'', hfollows, hsim⟩ := h.step hfine l htodo hwaits
      obtain rfl := Option.some_inj.1 (hs'.symm.trans hs'')
      obtain ⟨ls', v, hv, hsim', hcount⟩ := ih hsim hrest
      have hsum := sum_quietSteps hs'
      rw [List.countP_cons]
      rcases hfollows with ⟨hu', hsteps⟩ | ⟨rfl, hsteps⟩
      · refine ⟨l :: ls', v, by rw [Machine.run_cons hu', hv], hsim', ?_⟩
        rw [List.countP_cons]
        omega
      · refine ⟨ls', v, hv, hsim', ?_⟩
        split <;> omega

/-- A metric that no thread has touched. -/
def start (new : PromMetric Pms) (programs : ι → List SampleCall) : SharedMetric ι :=
  ⟨new, none, fun i => ⟨programs i, .idle⟩⟩

/-- Cells that no thread has touched. -/
def startCells (programs : ι → List SampleCall) : CasLoop.State ι CString Double SampleCall :=
  ⟨cellsOf fun _ => none, fun i => ⟨programs i, .idle⟩⟩

omit [DecidableEq ι] in
theorem sim_start (ar : Arithmetic) (h : new.Holds fun _ => none) (programs : ι → List SampleCall) :
    Sim ar new programs (start new programs) (startCells programs) where
  grown := .refl new
  keeps := ⟨_, (keeps_iff h.formatter).2 h, rfl⟩
  threads i := .idle (programs i)
  exclusive i := by simp [start, SharedPc.inside]
  free _ := h.formatter
  done i := ⟨[], rfl, fun c hc => by simp at hc⟩

omit [DecidableEq ι] in
/-- Calls one after another do to the cells what they do to the values. -/
theorem performed_eq (ar : Arithmetic) (self : PromMetric Pms) (order : List (ι × SampleCall))
    (value : CString → Option Double) :
    CasLoop.performed (SampleCall.op ar self) order (cellsOf value) =
      cellsOf ((order.map Prod.snd).foldl
        (fun value c => c.fn.applyAt ar self.type (self.lValue c.labelValues) value) value) := by
  induction order generalizing value with
  | nil => rfl
  | cons c order ih =>
      rw [CasLoop.performed, List.foldl_cons, SampleCall.op_apply]
      exact ih _

/-- An order of calls explains the state of a metric: it consists of the calls that the threads
have finished, each once and those of one thread in their order, and the samples have the values
that the calls leave in this order; a sample about which no call is finished may be there already,
and is zero. -/
structure Linearized (ar : Arithmetic) (new : PromMetric Pms) (programs : ι → List SampleCall)
    (order : List (ι × SampleCall)) (s : SharedMetric ι) : Prop where
  program : ∀ i, programs i = (order.filter (·.1 = i)).map Prod.snd ++ (s.threads i).todo
  keys : (promMapKeys s.metric.samples).isSome
  lookup : ∀ vs, vs.length = new.labelKeys.length → (∀ v ∈ vs, '"' ∉ v) →
    match valueAfter ar new.type (order.map Prod.snd) vs with
    | some x => s.metric.lookup (new.lValue vs) = some ⟨new.type, new.lValue vs, x⟩
    | none => s.metric.lookup (new.lValue vs) = none ∨
        s.metric.lookup (new.lValue vs) = some ⟨new.type, new.lValue vs, .finite 0⟩

/-- The label values of the calls fit the labels of the metric and have no quotation mark. -/
def Labelled (labelKeys : List CString) (programs : ι → List SampleCall) : Prop :=
  ∀ i, ∀ c ∈ programs i, c.labelValues.length = labelKeys.length ∧ ∀ v ∈ c.labelValues, '"' ∉ v

/-- Every call of an order is a finished call of its thread. -/
theorem mem_filter_of_mem_map {order : List (ι × SampleCall)} {c : SampleCall}
    (hc : c ∈ order.map Prod.snd) : ∃ i, c ∈ (order.filter (·.1 = i)).map Prod.snd := by
  obtain ⟨⟨i, c⟩, hic, rfl⟩ := List.mem_map.1 hc
  exact ⟨i, List.mem_map.2 ⟨(i, c), List.mem_filter.2 ⟨hic, by simp⟩, rfl⟩⟩

/-- An order that explains the cells explains the samples. -/
theorem Sim.linearized (hsim : Sim ar new programs s u) (hlabels : Labelled new.labelKeys programs)
    {order : List (ι × SampleCall)}
    (h : CasLoop.Explains (SampleCall.op ar new) order (startCells programs) u) :
    Linearized ar new programs order s := by
  obtain ⟨value, hvalue, heq⟩ := hsim.keeps
  have htodo' (i : ι) : programs i =
      (order.filter (·.1 = i)).map Prod.snd ++ (s.threads i).todo := by
    rw [← (hsim.threads i).todo]
    exact h.todo i
  have hlabels' (c : SampleCall) (hc : c ∈ order.map Prod.snd) :
      c.labelValues.length = new.labelKeys.length ∧ ∀ v ∈ c.labelValues, '"' ∉ v := by
    obtain ⟨i, hi⟩ := mem_filter_of_mem_map hc
    exact hlabels i c (htodo' i ▸ List.mem_append_left _ hi)
  refine ⟨htodo', hvalue.keys, fun vs hvs hvsquote => ?_⟩
  -- the value of the vector, in the samples and after the calls
  have hafter := foldl_applyAt_lValue ar (fun c hc => (hlabels' c hc).1)
    (fun c hc => (hlabels' c hc).2) hvs hvsquote fun _ => none
  have hcell : cellsOf value (new.lValue vs) =
      (valueAfter ar new.type (order.map Prod.snd) vs).getD (.finite 0) := by
    rw [← heq, h.cells, startCells, performed_eq, cellsOf, hafter]
    rfl
  rw [hvalue.lookup, hsim.grown.type]
  cases hx : valueAfter ar new.type (order.map Prod.snd) vs with
  | none =>
      rw [hx, cellsOf, Option.getD_none] at hcell
      cases hkey : value (new.lValue vs) with
      | none => exact Or.inl rfl
      | some y =>
          rw [hkey, Option.getD_some] at hcell
          exact Or.inr (by rw [hcell]; rfl)
  | some x =>
      -- one of the finished calls is about the vector, so that there is a sample
      have hsome : ((order.map Prod.snd).foldl (fun value c => c.fn.applyAt ar new.type
          (new.lValue c.labelValues) value) (fun _ => none) (new.lValue vs)).isSome := by
        rw [hafter]
        exact Option.isSome_iff_exists.2 ⟨x, hx⟩
      obtain ⟨c, hc, htype, hkey⟩ :=
        ((isSome_foldl_applyAt ar new _ _ _).1 hsome).resolve_left (by simp)
      obtain ⟨i, hi⟩ := mem_filter_of_mem_map hc
      obtain ⟨done, hdone, hsample⟩ := hsim.done i
      have hci : c ∈ done := List.append_cancel_right ((htodo' i).symm.trans hdone) ▸ hi
      obtain ⟨a, ha⟩ := Option.isSome_iff_exists.1 (hsample c hci htype)
      obtain ⟨y, hy, -⟩ := hvalue.getElem?_objects ha
      rw [hkey] at hy
      rw [hx, cellsOf, hy, Option.getD_some, Option.getD_some] at hcell
      rw [hy, hcell]
      rfl

/-- An order of the finished calls, of which a first part explains every state on the way. -/
theorem exists_linearized {ar : Arithmetic} (hholds : new.Holds fun _ => none)
    (hfine : Fine new.type programs) (hlabels : Labelled new.labelKeys programs)
    {ls : List (CasLoop.Label ι)} (hrun : (sharedMetric ar).run (start new programs) ls = some s) :
    ∃ order, Linearized ar new programs order s ∧ ∀ ls₁, ls₁ <+: ls →
      ∃ s₁ order₁, (sharedMetric ar).run (start new programs) ls₁ = some s₁ ∧
        order₁ <+: order ∧ Linearized ar new programs order₁ s₁ := by
  have hstep : ∀ s l s' u, Sim ar new programs s u → (sharedMetric ar).step s l = some s' →
      ∃ v, ((∃ l', (CasLoop.machine (SampleCall.op ar new)).step u l' = some v) ∨ v = u) ∧
        Sim ar new programs s' v := by
    intro s l s' u hsim hs'
    obtain ⟨htodo, hwaits⟩ := of_step hs'
    obtain ⟨s'', v, hs'', hfollows, hsim'⟩ := hsim.step hfine l htodo hwaits
    obtain rfl := Option.some_inj.1 (hs'.symm.trans hs'')
    exact ⟨v, hfollows.imp (fun h => ⟨l, h.1⟩) (fun h => h.1), hsim'⟩
  obtain ⟨order, ⟨v, hsim, hexplains⟩, hprefixes⟩ :=
    CasLoop.linearizable hstep (sim_start ar hholds programs) hrun
  refine ⟨order, hsim.linearized hlabels hexplains, fun ls₁ hls₁ => ?_⟩
  obtain ⟨s₁, v₁, order₁, hs₁, hsim₁, hexplains₁, horder⟩ := hprefixes ls₁ hls₁
  exact ⟨s₁, order₁, hs₁, horder, hsim₁.linearized hlabels hexplains₁⟩

end SharedMetric

open SharedMetric

/-- A thread with calls left can move, or waits for the lock while the thread that has it can. -/
theorem SharedMetric.Sim.isSome_step_or {ar : Arithmetic} {new : PromMetric Pms}
    {programs : ι → List SampleCall} {s : SharedMetric ι}
    {u : CasLoop.State ι CString Double SampleCall} (h : Sim ar new programs s u)
    (hfine : Fine new.type programs) (l : CasLoop.Label ι)
    (htodo : (s.threads l.thread).todo ≠ []) :
    ((sharedMetric ar).step s l).isSome ∨ (s.threads l.thread).pc = .atLock ∧
      ∃ i, s.rwlock = some i ∧ ∀ spurious, ((sharedMetric ar).step s ⟨i, spurious⟩).isSome := by
  have hmoves (l : CasLoop.Label ι) (htodo : (s.threads l.thread).todo ≠ [])
      (hwaits : (s.threads l.thread).pc = .atLock → s.rwlock = none) :
      ((sharedMetric ar).step s l).isSome := by
    obtain ⟨t, -, ht, -⟩ := h.step hfine l htodo hwaits
    rw [ht]
    rfl
  by_cases hlock : s.rwlock = none
  · exact Or.inl (hmoves l htodo fun _ => hlock)
  · obtain ⟨i, hi⟩ := Option.ne_none_iff_exists'.1 hlock
    have hinside := (h.exclusive i).2 hi
    by_cases hpc : (s.threads l.thread).pc = .atLock
    · refine Or.inr ⟨hpc, i, hi, fun spurious => hmoves ⟨i, spurious⟩ ?_ fun hwaits => ?_⟩
      · exact (h.threads i).todo_ne_nil hinside
      · rw [hwaits] at hinside
        simp [SharedPc.inside] at hinside
    · exact Or.inl (hmoves l htodo fun hwaits => absurd hwaits hpc)

/-- **A metric is linearizable, and its functions return.**  Threads perform calls on a new metric
in any interleaving, and compare and swaps fail without a reason at any time.  Then the metric is
explained by an order of the calls that are finished, and every state that it has gone through by a
first part of this order, so that a call that had finished before another one began is in front of
it; every thread with calls left can move, or waits for the lock of the metric while the thread that
has it can move; and the steps so far, except failures without a reason, are no more than the calls
of all threads times the number of threads and eight. -/
theorem sharedMetric_linearizable [Fintype ι] (ar : Arithmetic) {type : MetricType} {name : CString}
    {help : Option CString} {labelKeys : List CString} {new : PromMetric Pms}
    (hnew : promMetricNew type name help labelKeys = some new) {programs : ι → List SampleCall}
    (hfine : Fine type programs) (hlabels : Labelled labelKeys programs)
    {ls : List (CasLoop.Label ι)} {s : SharedMetric ι}
    (hrun : (sharedMetric ar).run (start new programs) ls = some s) :
    (∃ order, Linearized ar new programs order s ∧ ∀ ls₁, ls₁ <+: ls →
        ∃ s₁ order₁, (sharedMetric ar).run (start new programs) ls₁ = some s₁ ∧
          order₁ <+: order ∧ Linearized ar new programs order₁ s₁) ∧
      (∀ l, (s.threads l.thread).todo ≠ [] → ((sharedMetric ar).step s l).isSome ∨
        (s.threads l.thread).pc = .atLock ∧ ∃ i, s.rwlock = some i ∧
          ∀ spurious, ((sharedMetric ar).step s ⟨i, spurious⟩).isSome) ∧
      ls.countP (!·.spurious) ≤ (Fintype.card ι + 8) * ∑ i, (programs i).length := by
  obtain ⟨rfl, hholds⟩ := PromMetric.holds_new hnew
  obtain ⟨ls', v, hv, hsim, hcount⟩ := (sim_start ar hholds programs).run hfine hrun
  refine ⟨exists_linearized hholds hfine hlabels hrun, hsim.isSome_step_or hfine, ?_⟩
  have hcells := CasLoop.steps_le (fun _ => rfl) hv
  have hquiet : ∑ i, quietSteps (SharedThread.mk (programs i) .idle) =
      6 * ∑ i, (programs i).length := by
    rw [Finset.mul_sum]
    exact Finset.sum_congr rfl fun i _ => quietSteps_idle (programs i)
  calc ls.countP (!·.spurious) ≤ ls'.countP (!·.spurious) + 6 * ∑ i, (programs i).length := by
        rw [← hquiet]
        exact (Nat.le_add_right _ _).trans hcount
    _ ≤ (Fintype.card ι + 2) * ∑ i, (programs i).length + 6 * ∑ i, (programs i).length :=
        Nat.add_le_add_right hcells _
    _ = (Fintype.card ι + 8) * ∑ i, (programs i).length := by ring

/-- Two threads that increment a counter once. -/
def twoIncrements : Bool → List SampleCall := fun _ => [⟨.counterInc, [], fun _ => true⟩]

/-- A counter without labels. -/
def jobsCounter : PromMetric Pms := ⟨.counter, "jobs".toList, none, [], promMapNew, [], []⟩

/-- One thread is at the lock while the other one creates the sample.  Both load the value, one is
faster, and the other one fails twice, once without a reason. -/
def slowThread : List (CasLoop.Label Bool) :=
  [⟨false, false⟩, ⟨false, false⟩, ⟨true, false⟩] ++ List.replicate 5 ⟨false, false⟩ ++
    List.replicate 5 ⟨true, false⟩ ++ [⟨false, false⟩, ⟨true, false⟩, ⟨false, false⟩, ⟨true, false⟩,
      ⟨true, true⟩, ⟨true, false⟩]

theorem jobsCounter_new :
    promMetricNew .counter "jobs".toList none [] = some jobsCounter := by
  rw [promMetricNew, if_neg (by decide)]
  rfl

theorem labelled_twoIncrements : Labelled [] twoIncrements := by
  intro i c hc
  rw [List.mem_singleton.1 hc]
  exact ⟨rfl, by simp⟩

theorem sharedMetric_linearizable_slowThread :
    ∃ s, (sharedMetric exactArithmetic).run (start jobsCounter twoIncrements) slowThread = some s ∧
      (∃ order, Linearized exactArithmetic jobsCounter twoIncrements order s) ∧
      slowThread.countP (!·.spurious) ≤
        (Fintype.card Bool + 8) * ∑ i, (twoIncrements i).length := by
  have hrun : ((sharedMetric exactArithmetic).run (start jobsCounter twoIncrements)
      slowThread).isSome := by
    decide +kernel
  obtain ⟨s, hs⟩ := Option.isSome_iff_exists.1 hrun
  have hfine : Fine .counter twoIncrements := by
    intro i c hc
    rw [List.mem_singleton.1 hc]
    exact ⟨fun _ => rfl, fun _ => trivial⟩
  obtain ⟨⟨order, horder, -⟩, -, hsteps⟩ := sharedMetric_linearizable exactArithmetic
    jobsCounter_new hfine labelled_twoIncrements hs
  exact ⟨s, hs, ⟨order, horder⟩, hsteps⟩

/-- Counting is exact for natural numbers with 53 bits. -/
def Arithmetic.Counts (ar : Arithmetic) : Prop :=
  ∀ n : ℕ, n < 2 ^ 53 → ar.add (.finite n) (.finite 1) = .finite (n + 1 : ℕ)

/-- A call of `prom_gauge_inc` or `prom_counter_inc` on a metric of its type. -/
def SampleCall.Increments (type : MetricType) (c : SampleCall) : Prop :=
  (c.fn = .gaugeInc ∨ c.fn = .counterInc) ∧ type = c.fn.type

theorem SampleCall.Increments.apply {type : MetricType} {c : SampleCall} (h : c.Increments type)
    (ar : Arithmetic) (x : Double) : c.fn.apply ar x = ar.add x (.finite 1) := by
  rcases h.1 with hfn | hfn
  · rw [hfn]
    rfl
  · rw [hfn]
    rfl

theorem counts_exactArithmetic : exactArithmetic.Counts := by
  intro n _
  simp [exactArithmetic]

end Monitor
