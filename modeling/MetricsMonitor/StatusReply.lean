/-
**The status reply.**

`handle_sigusr1` packs the four bytes of `g_status` into an `int`.  This module runs the main loop
on the contents of the files its readers open and compares the reply with what those readers
returned: byte `i` should be the integer part of the latest successful value, at most 255.

The bytes of the disk rates are cut off at 255 before they are converted, the other two are not,
and the readers of `/proc/stat` and `/proc/meminfo` can return more than 100 when a counter runs
backwards.

* `Monitor.Input`, `Monitor.inputLoop` — what the readers find, along the main loop;
* `Monitor.handleSigusr1` — the reply;
* `Monitor.RepliesTracked` — what a reply should be after a sequence of calls;
* `Monitor.repliesTracked_iff` — it is, at every point, exactly when every value handed to a
  status byte is converted without loss;
* `Monitor.statusReply_iff` — **the same with a condition on the counters read**;
* `Monitor.statusReply_lost` — a run with two well-formed readings of `/proc/stat` that loses it.
-/

import MetricsMonitor.Sampling
import MetricsMonitor.CpuUsage
import Mathlib.Tactic.FinCases

set_option relaxedAutoImplicit false
set_option autoImplicit false

namespace Monitor

/-! ### What the readers find -/

/-- A call of an update function, with what its reader finds; for the processes, what
`get_processes_usage` returns. -/
inductive Input
  | cpu (stat : File)
  | memory (meminfo : File)
  | disk (diskstats : File)
  | network (netDev : File)
  | processes (usage : Option (Fin 2 → ℚ))

/-- The call an input leads to, and the static variables of `get_cpu_usage` after it; `fl` is the
rounding of the readers of disk and network. -/
def Input.read (fl : ℚ → ℚ) (prev : CpuTimes) : Input → Call × CpuTimes
  | .cpu stat => (.cpu (getCpuUsage stat prev).1, (getCpuUsage stat prev).2)
  | .memory meminfo => (.memory (getMemoryUsage meminfo), prev)
  | .disk diskstats => (.disk (getDiskUsage fl diskstats), prev)
  | .network netDev => (.network (getNetworkUsage fl netDev), prev)
  | .processes usage => (.processes usage, prev)

/-- The calls a sequence of inputs leads to. -/
def readCalls (fl : ℚ → ℚ) : CpuTimes → List Input → List Call
  | _, [] => []
  | prev, i :: rest => (i.read fl prev).1 :: readCalls fl (i.read fl prev).2 rest

/-- The files of `/proc` that the readers open. -/
structure Proc where
  stat : File
  meminfo : File
  diskstats : File
  netDev : File

/-- What the reader of a group finds in `/proc`; the processes are counted in another way. -/
def Proc.input (p : Proc) : Group → Option Input
  | .cpu => some (.cpu p.stat)
  | .memory => some (.memory p.meminfo)
  | .disk => some (.disk p.diskstats)
  | .network => some (.network p.netDev)
  | .processes => none

/-- What the readers find in one cycle. -/
structure Inputs extends Proc where
  processes : Option (Fin 2 → ℚ)

/-- The input for a group in a cycle. -/
def Inputs.input (r : Inputs) (g : Group) : Input :=
  (r.toProc.input g).getD (.processes r.processes)

/-- The inputs of the main loop. -/
def inputLoop (config : Config) (cycles : List Inputs) : List Input :=
  cycles.flatMap fun r => config.groups.map r.input

/-- The contents of `/proc/stat` among the inputs. -/
def stats (inputs : List Input) : List File :=
  inputs.filterMap fun
    | .cpu stat => some stat
    | _ => none

/-- The static variables of `get_cpu_usage` after a sequence of inputs. -/
def prevOf (fl : ℚ → ℚ) (prev : CpuTimes) (inputs : List Input) : CpuTimes :=
  inputs.foldl (fun prev i => (i.read fl prev).2) prev

variable {fl : ℚ → ℚ}

theorem readCalls_append (prev : CpuTimes) (before after : List Input) :
    readCalls fl prev (before ++ after) =
      readCalls fl prev before ++ readCalls fl (prevOf fl prev before) after := by
  induction before generalizing prev with
  | nil => rfl
  | cons i before ih => simp only [List.cons_append, readCalls, ih, prevOf, List.foldl_cons]

/-- Only the calls of `get_cpu_usage` touch its static variables. -/
theorem prevOf_eq (prev : CpuTimes) (inputs : List Input) :
    prevOf fl prev inputs =
      (stats inputs).foldl (fun prev stat => (getCpuUsage stat prev).2) prev := by
  induction inputs generalizing prev with
  | nil => rfl
  | cons i inputs ih =>
      rw [prevOf, List.foldl_cons, ← prevOf, ih]
      cases i with
      | cpu | memory | disk | network | processes => rfl

/-- The static variables hold the latest accepted reading among the inputs. -/
theorem prevOf_zero (inputs : List Input) :
    prevOf fl .zero inputs = latestReading (stats inputs) := by
  rw [prevOf_eq, ← prevAfter_eq_latestReading]
  rfl

theorem group_read_input (fl : ℚ → ℚ) (prev : CpuTimes) (r : Inputs) (g : Group) :
    ((r.input g).read fl prev).1.group = g := by
  cases g with
  | cpu | memory | disk | network | processes => rfl

/-- A call among those of a sequence of inputs comes from one of the inputs. -/
theorem mem_readCalls {prev : CpuTimes} {inputs : List Input} {c : Call} :
    c ∈ readCalls fl prev inputs ↔
      ∃ before i, before ++ [i] <+: inputs ∧ (i.read fl (prevOf fl prev before)).1 = c := by
  constructor
  · intro h
    induction inputs generalizing prev with
    | nil => simp [readCalls] at h
    | cons i inputs ih =>
        rw [readCalls, List.mem_cons] at h
        rcases h with rfl | h
        · exact ⟨[], i, ⟨inputs, rfl⟩, rfl⟩
        · obtain ⟨before, j, hinitial, hj⟩ := ih h
          exact ⟨i :: before, j, (List.prefix_cons_inj i).2 hinitial, hj⟩
  · rintro ⟨before, i, ⟨after, rfl⟩, rfl⟩
    rw [readCalls_append, readCalls_append]
    simp [readCalls]

/-- The calls of a shorter sequence of inputs. -/
theorem prefix_readCalls {prev : CpuTimes} {inputs : List Input} {calls : List Call} :
    calls <+: readCalls fl prev inputs ↔
      ∃ before, before <+: inputs ∧ readCalls fl prev before = calls := by
  constructor
  · intro h
    induction inputs generalizing prev calls with
    | nil => exact ⟨[], List.nil_prefix, (List.prefix_nil.1 h).symm⟩
    | cons i inputs ih =>
        cases calls with
        | nil => exact ⟨[], List.nil_prefix, rfl⟩
        | cons c calls =>
            obtain ⟨rfl, hrest⟩ := List.cons_prefix_cons.1 h
            obtain ⟨before, hinitial, rfl⟩ := ih hrest
            exact ⟨i :: before, (List.prefix_cons_inj i).2 hinitial, rfl⟩
  · rintro ⟨before, ⟨after, rfl⟩, rfl⟩
    rw [readCalls_append]
    exact List.prefix_append _ _

/-- The calls of the main loop are about required groups. -/
theorem enabled_of_mem_readCalls {config : Config} {cycles : List Inputs} {inputs : List Input}
    (hinputs : inputs <+: inputLoop config cycles) {prev : CpuTimes} {c : Call}
    (hc : c ∈ readCalls fl prev inputs) : config.enabled c.group = true := by
  obtain ⟨before, i, hinitial, rfl⟩ := mem_readCalls.1 hc
  have hi : i ∈ inputLoop config cycles :=
    (hinitial.trans hinputs).subset (List.mem_append_right _ (List.mem_singleton_self i))
  simp only [inputLoop, List.mem_flatMap, List.mem_map] at hi
  obtain ⟨r, -, g, hg, rfl⟩ := hi
  rw [group_read_input]
  exact Config.mem_groups.1 hg

/-! ### The reply -/

/-- The `int` built from the four bytes. -/
def encodedData (b : Fin 4 → UInt8) : BitVec 32 :=
  (b 0).toBitVec.setWidth 32 ||| (b 1).toBitVec.setWidth 32 <<< 8 |||
    (b 2).toBitVec.setWidth 32 <<< 16 ||| (b 3).toBitVec.setWidth 32 <<< 24

/-- What `handle_sigusr1` sends back, `none` when a byte is indeterminate. -/
def handleSigusr1 (status : Status) : Option (BitVec 32) :=
  match status 0, status 1, status 2, status 3 with
  | some b₀, some b₁, some b₂, some b₃ => some (encodedData ![b₀, b₁, b₂, b₃])
  | _, _, _, _ => none

/-- Byte `i` of a word, the lowest first. -/
def replyByte (w : BitVec 32) (i : Fin 4) : ℕ := (w.extractLsb' (8 * i) 8).toNat

/-- **The bytes can be read back from the word.** -/
theorem replyByte_encodedData (b : Fin 4 → UInt8) (i : Fin 4) :
    replyByte (encodedData b) i = (b i).toNat := by
  have hbyte : (encodedData b).extractLsb' (8 * i) 8 = (b i).toBitVec := by
    refine BitVec.eq_of_getLsbD_eq fun k hk => ?_
    have hk32 : k < 32 := by omega
    have hzero (j : Fin 4) {n : ℕ} (hn : 8 ≤ n) : (b j).toBitVec.getLsbD n = false :=
      BitVec.getLsbD_of_ge _ _ hn
    simp only [encodedData, BitVec.getLsbD_extractLsb', BitVec.getLsbD_or, BitVec.getLsbD_shiftLeft,
      BitVec.getLsbD_setWidth]
    fin_cases i
    · simp [hk, hk32, show k < 16 by omega, show k < 24 by omega]
    · simp [hk, hk32, show 8 + k < 16 by omega, show 8 + k < 24 by omega,
        show 8 + k < 32 by omega]
    · simp [hk, hk32, hzero 0 (show 8 ≤ 16 + k by omega), hzero 1 (show 8 ≤ 16 + k - 8 by omega),
        show ¬ 16 + k < 8 by omega, show 16 + k < 24 by omega, show 16 + k < 32 by omega]
    · simp [hk, hk32, hzero 0 (show 8 ≤ 24 + k by omega), hzero 1 (show 8 ≤ 24 + k - 8 by omega),
        hzero 2 (show 8 ≤ 24 + k - 16 by omega), show ¬ 24 + k < 8 by omega,
        show ¬ 24 + k < 16 by omega, show 24 + k < 32 by omega]
  rw [replyByte, hbyte]
  rfl

theorem handleSigusr1_eq_some {status : Status} {w : BitVec 32} :
    handleSigusr1 status = some w ↔ ∃ b, (∀ i, status i = some (b i)) ∧ encodedData b = w := by
  constructor
  · intro h
    unfold handleSigusr1 at h
    split at h
    · rename_i b₀ b₁ b₂ b₃ h₀ h₁ h₂ h₃
      refine ⟨![b₀, b₁, b₂, b₃], fun i => ?_, Option.some_inj.1 h⟩
      fin_cases i
      · exact h₀
      · exact h₁
      · exact h₂
      · exact h₃
    · simp at h
  · rintro ⟨b, hb, rfl⟩
    simp [handleSigusr1, hb, encodedData]

/-! ### The status bytes -/

/-- The gauge whose value a status byte carries. -/
def trackedGauge : Fin 4 → Gauge :=
  ![⟨.cpu, (0 : Fin 1)⟩, ⟨.memory, (3 : Fin 4)⟩, ⟨.disk, (0 : Fin 2)⟩, ⟨.disk, (1 : Fin 2)⟩]

/-- How the value of a status byte is converted. -/
def trackedConversion : Fin 4 → ℚ → Option UInt8 :=
  ![toUChar, toUChar, toUCharClamped, toUCharClamped]

theorem setGauges_gStatus (g : Group) (usage : Fin g.size → ℚ) (s : Globals) :
    (setGauges g usage s).gStatus = s.gStatus := by
  rw [setGauges]
  induction List.finRange g.size generalizing s with
  | nil => rfl
  | cons i l ih =>
      rw [List.foldl_cons, ih]
      rfl

/-- The status after an update function. -/
theorem updateGauges_gStatus (g : Group) (usage : Option (Fin g.size → ℚ)) (s : Globals) :
    (updateGauges g g.track usage s).gStatus =
      match usage with
      | none => s.gStatus
      | some usage => g.track usage s.gStatus := by
  cases usage with
  | none => rfl
  | some usage => exact setGauges_gStatus g usage _

/-- A group writes a status byte exactly when the byte is about one of its gauges. -/
theorem track_apply (g : Group) (usage : Fin g.size → ℚ) (st : Status) (i : Fin 4) :
    g.track usage st i =
      if hg : g = (trackedGauge i).1 then trackedConversion i ((hg ▸ usage) (trackedGauge i).2)
      else st i := by
  cases g <;> fin_cases i <;> rfl

/-- A call writes a status byte exactly when it hands a value to the gauge of the byte. -/
theorem update_gStatus (c : Call) (s : Globals) (i : Fin 4) :
    (c.update s).gStatus i =
      match c.value (trackedGauge i) with
      | none => s.gStatus i
      | some x => trackedConversion i x := by
  rw [Call.update_eq, updateGauges_gStatus]
  cases hres : c.result with
  | none => rw [Call.value_eq_none hres]
  | some usage =>
      rw [Call.value_eq_of_some hres]
      dsimp only
      rw [track_apply]
      by_cases hg : c.group = (trackedGauge i).1
      · rw [dif_pos hg, dif_pos hg]
      · rw [dif_neg hg, dif_neg hg]

/-- **The status bytes after a run**: byte `i` is the latest value of its gauge, converted. -/
theorem updates_gStatus (calls : List Call) (s : Globals) (i : Fin 4) :
    (updates calls s).gStatus i =
      match latestValue calls (trackedGauge i) with
      | none => s.gStatus i
      | some x => trackedConversion i x := by
  induction calls using List.reverseRecOn with
  | nil => rfl
  | append_singleton calls c ih =>
      rw [updates_append_singleton, update_gStatus, latestValue_append_singleton, ih]
      cases c.value (trackedGauge i) with
      | none => rfl
      | some x => rfl

/-! ### What a reply should be -/

/-- The byte a value should be reported as: its integer part, at most 255; 0 without a value. -/
def expectedByte : Option ℚ → ℕ
  | none => 0
  | some x => min ⌊x⌋₊ 255

/-- **The reply is right**: each byte is the integer part of the latest value returned by its
reader, at most 255. -/
def RepliesTracked (calls : List Call) (s : Globals) : Prop :=
  ∃ w, handleSigusr1 s.gStatus = some w ∧
    ∀ i, replyByte w i = expectedByte (latestValue calls (trackedGauge i))

/-- The values a call hands to the status bytes are converted without loss. -/
def Call.Converts (c : Call) : Prop :=
  ∀ i x, c.value (trackedGauge i) = some x →
    trackedConversion i x = some (UInt8.ofNat (expectedByte (some x)))

theorem expectedByte_lt (v : Option ℚ) : expectedByte v < 256 := by
  cases v with
  | none => decide
  | some x => exact Nat.lt_succ_of_le (min_le_right _ _)

/-- The value of a call is the latest one right after it. -/
theorem latestValue_of_value {calls : List Call} {c : Call} {q : Gauge} {x : ℚ}
    (h : c.value q = some x) : latestValue (calls ++ [c]) q = some x := by
  rw [latestValue_append_singleton, h, Option.some_or]

/-- **The reply is right at every point of a run exactly when no call loses a value.** -/
theorem repliesTracked_iff {calls : List Call} {s : Globals} (hs : ∀ i, s.gStatus i = some 0) :
    (∀ before, before <+: calls → RepliesTracked before (updates before s)) ↔
      ∀ c ∈ calls, c.Converts := by
  constructor
  · intro h c hc i x hx
    obtain ⟨before, after, rfl⟩ := List.append_of_mem hc
    -- the reply right after the call
    obtain ⟨w, hw, hbytes⟩ := h (before ++ [c]) ⟨after, by simp⟩
    obtain ⟨b, hb, rfl⟩ := handleSigusr1_eq_some.1 hw
    have hbyte := hbytes i
    have hstatus := hb i
    rw [latestValue_of_value hx, replyByte_encodedData] at hbyte
    rw [updates_gStatus, latestValue_of_value hx] at hstatus
    rw [← hbyte, UInt8.ofNat_toNat]
    exact hstatus
  · intro h before hbefore
    have hstatus (i : Fin 4) : (updates before s).gStatus i =
        some (UInt8.ofNat (expectedByte (latestValue before (trackedGauge i)))) := by
      rw [updates_gStatus]
      cases hx : latestValue before (trackedGauge i) with
      | none => exact hs i
      | some x =>
          obtain ⟨c, hc, hvalue⟩ := exists_value_of_latestValue hx
          exact h c (hbefore.subset hc) i x hvalue
    refine ⟨_, handleSigusr1_eq_some.2 ⟨_, hstatus, rfl⟩, fun i => ?_⟩
    rw [replyByte_encodedData, UInt8.toNat_ofNat']
    exact Nat.mod_eq_of_lt (expectedByte_lt _)

/-! ### The counters -/

theorem toUChar_eq_iff {x : ℚ} (hx : 0 ≤ x) :
    toUChar x = some (UInt8.ofNat (expectedByte (some x))) ↔ x < 256 := by
  constructor
  · intro h
    by_contra hlt
    rw [toUChar, if_neg fun hand => hlt hand.2] at h
    simp at h
  · intro h
    have hfloor : ⌊x⌋₊ < 256 := (Nat.floor_lt hx).2 (by exact_mod_cast h)
    rw [toUChar, if_pos ⟨by linarith, h⟩, expectedByte, min_eq_left (by omega)]

/-- The cut-off at 255 makes every conversion one without loss. -/
theorem toUCharClamped_eq {x : ℚ} (hx : 0 ≤ x) :
    toUCharClamped x = some (UInt8.ofNat (expectedByte (some x))) := by
  by_cases h : 255 ≤ x
  · have hfloor : 255 ≤ ⌊x⌋₊ := Nat.le_floor (by exact_mod_cast h)
    rw [toUCharClamped, if_pos h, expectedByte, min_eq_right hfloor]
    rfl
  · rw [toUCharClamped, if_neg h]
    exact (toUChar_eq_iff hx).2 (by linarith)

/-- A percentage `100 * busy / total` is below 256. -/
theorem percentage_lt_iff {busy total : ℕ} (htotal : 0 < total) :
    (100 * busy / total : ℚ) < 256 ↔ 25 * busy < 64 * total := by
  have hpos : (0 : ℚ) < total := by exact_mod_cast htotal
  rw [div_lt_iff₀ hpos]
  constructor
  · intro h
    have hcast : 100 * busy < 256 * total := by exact_mod_cast h
    omega
  · intro h
    have hcast : 100 * busy < 256 * total := by omega
    exact_mod_cast hcast

/-- **The condition on the counters.**  An accepted reading of `/proc/stat` shows, since the
latest accepted one before it, a busy share below 256 per cent, and a complete reading of
`/proc/meminfo` a used share below 256 per cent, both differences taken modulo `2 ^ 64`. -/
def Input.InRange (last : CpuTimes) : Input → Prop
  | .cpu stat => ∀ t, accepts last stat = some t →
      25 * ticksSince t.busyTicks last.busyTicks < 64 * ticksSince t.ticks last.ticks
  | .memory meminfo => ∀ content, meminfo = some content →
      (Monitor.meminfo content).1 ≠ 0 → (Monitor.meminfo content).2 ≠ 0 →
      25 * ((Monitor.meminfo content).1 - (Monitor.meminfo content).2).toNat <
        64 * (Monitor.meminfo content).1.toNat
  | _ => True

theorem converts_cpu {usage : ℚ} : (Call.cpu usage).Converts ↔ (0 ≤ usage → usage < 256) := by
  have hvalue (h : 0 ≤ usage) : (Call.cpu usage).value (trackedGauge 0) = some usage := by
    change (cpuResult usage).map (· 0) = some usage
    rw [cpuResult, if_pos h]
    rfl
  constructor
  · intro h hnonneg
    exact (toUChar_eq_iff hnonneg).1 (h 0 usage (hvalue hnonneg))
  · intro h i x hx
    have hindex : ∀ i, Group.cpu = (trackedGauge i).1 → i = 0 := by decide
    obtain rfl := hindex i (Call.group_of_value hx)
    by_cases hnonneg : 0 ≤ usage
    · obtain rfl : usage = x := Option.some_inj.1 ((hvalue hnonneg).symm.trans hx)
      exact (toUChar_eq_iff hnonneg).2 (h hnonneg)
    · change (cpuResult usage).map (· 0) = some x at hx
      rw [cpuResult, if_neg hnonneg] at hx
      exact absurd hx (by simp)

theorem converts_memory {usage : Option (Fin 4 → ℚ)} (hnonneg : ∀ u, usage = some u → 0 ≤ u 3) :
    (Call.memory usage).Converts ↔ ∀ u, usage = some u → u 3 < 256 := by
  constructor
  · rintro h u rfl
    exact (toUChar_eq_iff (hnonneg u rfl)).1 (h 1 (u 3) rfl)
  · intro h i x hx
    have hindex : ∀ i, Group.memory = (trackedGauge i).1 → i = 1 := by decide
    obtain rfl := hindex i (Call.group_of_value hx)
    obtain ⟨u, rfl, rfl⟩ := Option.map_eq_some_iff.1 hx
    exact (toUChar_eq_iff (hnonneg u rfl)).2 (h u rfl)

theorem converts_disk {usage : Option (Fin 2 → ℚ)} (hnonneg : ∀ u, usage = some u → ∀ j, 0 ≤ u j) :
    (Call.disk usage).Converts := by
  intro i x hx
  have hindex : ∀ i, Group.disk = (trackedGauge i).1 → i = 2 ∨ i = 3 := by decide
  rcases hindex i (Call.group_of_value hx) with rfl | rfl
  · obtain ⟨u, rfl, rfl⟩ := Option.map_eq_some_iff.1 hx
    exact toUCharClamped_eq (hnonneg u rfl 0)
  · obtain ⟨u, rfl, rfl⟩ := Option.map_eq_some_iff.1 hx
    exact toUCharClamped_eq (hnonneg u rfl 1)

/-- **No value is lost exactly when the counters are in range.** -/
theorem converts_read_iff (hfl : ∀ q, 0 ≤ q → 0 ≤ fl q) (prev : CpuTimes) (i : Input) :
    (i.read fl prev).1.Converts ↔ i.InRange prev := by
  cases i with
  | cpu stat =>
      rw [Input.read, converts_cpu, getCpuUsage_eq, cpuAccepted_eq_accepts, Input.InRange]
      cases ht : accepts prev stat with
      | none =>
          simp only [reduceCtorEq, false_implies, implies_true, iff_true]
          intro h
          exact absurd h (by norm_num)
      | some t =>
          have hpos : 0 < ticksSince t.ticks prev.ticks := by
            have hne := (Option.filter_eq_some_iff.1 ht).2
            simpa [Nat.pos_iff_ne_zero] using hne
          -- the share is below 256 per cent; it is never negative
          have hlt : (100 * ticksSince t.busyTicks prev.busyTicks /
              ticksSince t.ticks prev.ticks : ℚ) < 256 ↔ _ := percentage_lt_iff hpos
          rw [← toNat_total_sub, ← toNat_nonIdle_sub] at hlt
          simp only [Option.some_inj, forall_eq']
          rw [← toNat_total_sub, ← toNat_nonIdle_sub, ← hlt]
          exact ⟨fun h => h (t.usageSince_nonneg prev), fun h _ => h⟩
  | memory meminfo =>
      have hnonneg : ∀ u, getMemoryUsage meminfo = some u → 0 ≤ u 3 := by
        intro u hu
        obtain ⟨content, -, -, -, rfl⟩ := getMemoryUsage_eq_some_iff.1 hu
        rw [memoryMetrics_percentage]
        positivity
      rw [Input.read, converts_memory hnonneg, Input.InRange]
      constructor
      · intro h content hcontent htotal hfree
        have hpos : 0 < (Monitor.meminfo content).1.toNat :=
          Nat.pos_of_ne_zero fun h => htotal (UInt64.toNat_inj.1 h)
        have hlt := h _ (getMemoryUsage_eq_some_iff.2 ⟨content, hcontent, htotal, hfree, rfl⟩)
        rw [memoryMetrics_percentage] at hlt
        exact (percentage_lt_iff hpos).1 hlt
      · intro h u hu
        obtain ⟨content, hcontent, htotal, hfree, rfl⟩ := getMemoryUsage_eq_some_iff.1 hu
        have hpos : 0 < (Monitor.meminfo content).1.toNat :=
          Nat.pos_of_ne_zero fun h => htotal (UInt64.toNat_inj.1 h)
        rw [memoryMetrics_percentage]
        exact (percentage_lt_iff hpos).2 (h content hcontent htotal hfree)
  | disk diskstats =>
      simp only [Input.read, Input.InRange, iff_true]
      exact converts_disk fun u hu j => getDiskUsage_nonneg hfl hu j
  | network netDev =>
      simp only [Input.read, Input.InRange, iff_true]
      have hindex : ∀ i, Group.network ≠ (trackedGauge i).1 := by decide
      exact fun i x hx => absurd (Call.group_of_value hx) (hindex i)
  | processes usage =>
      simp only [Input.read, Input.InRange, iff_true]
      have hindex : ∀ i, Group.processes ≠ (trackedGauge i).1 := by decide
      exact fun i x hx => absurd (Call.group_of_value hx) (hindex i)

/-! ### Runs of the main loop -/

/-- `init_metrics` does not touch the status. -/
theorem runInit_gStatus (works : InitAction → Bool) (todo : List InitAction) (b : Boot) :
    (runInit works todo b).2.globals.gStatus = b.globals.gStatus := by
  induction todo generalizing b with
  | nil => rfl
  | cons a todo ih =>
      rw [runInit]
      have ha := (a.exec_untouched (works a) b).2
      cases hexec : a.exec (works a) b with
      | mk r b' =>
          rw [hexec] at ha
          cases r with
          | none => exact (ih b').trans ha
          | some r => exact ha

/-- **When the status reply is right.**  Whatever `init_metrics` returned, the reply is right at
every point of a run between two update calls exactly when all the counters read in it are in
range; and after a successful `init_metrics` the gauge of each status byte exposes the value the
byte should carry.  Percentages and rates are exact rationals here. -/
theorem statusReply_iff (works : InitAction → Bool) (config : Config) (r : InitResult)
    (s : Globals) (hinit : initMetrics works config = (r, s)) (cycles : List Inputs)
    (inputs : List Input) (hinputs : inputs <+: inputLoop config cycles) :
    ((∀ before, before <+: inputs →
        RepliesTracked (readCalls id .zero before) (updates (readCalls id .zero before) s)) ↔
      ∀ before i, before ++ [i] <+: inputs → i.InRange (latestReading (stats before))) ∧
    (r = .success → ∀ i, config.enabled (trackedGauge i).1 = true →
      (updates (readCalls id .zero inputs) s).prom.exposed (trackedGauge i).name =
        some ⟨(trackedGauge i).name, (trackedGauge i).help,
          latestValue (readCalls id .zero inputs) (trackedGauge i)⟩) := by
  have hs : ∀ i, s.gStatus i = some 0 := by
    have h := runInit_gStatus works (initActions config) .start
    have hs : (runInit works (initActions config) .start).2.globals = s := congrArg Prod.snd hinit
    rw [hs] at h
    exact fun i => congrFun h i
  have hid : ∀ q : ℚ, 0 ≤ q → 0 ≤ id q := fun _ h => h
  constructor
  · -- the points of a run are the initial parts of its calls
    have hinitial : (∀ before, before <+: inputs →
        RepliesTracked (readCalls id .zero before) (updates (readCalls id .zero before) s)) ↔
        ∀ calls, calls <+: readCalls id .zero inputs → RepliesTracked calls (updates calls s) := by
      constructor
      · intro h calls hcalls
        obtain ⟨before, hbefore, rfl⟩ := prefix_readCalls.1 hcalls
        exact h before hbefore
      · intro h before hbefore
        exact h _ (prefix_readCalls.2 ⟨before, hbefore, rfl⟩)
    rw [hinitial, repliesTracked_iff hs]
    constructor
    · intro h before i hbefore
      rw [← prevOf_zero, ← converts_read_iff hid]
      exact h _ (mem_readCalls.2 ⟨before, i, hbefore, rfl⟩)
    · intro h c hc
      obtain ⟨before, i, hbefore, rfl⟩ := mem_readCalls.1 hc
      rw [converts_read_iff hid, prevOf_zero]
      exact h before i hbefore
  · rintro rfl i hi
    rw [exposed_updates hinit fun c hc => enabled_of_mem_readCalls hinputs hc, if_pos hi]

/-- A cycle in which only `/proc/stat` can be read. -/
def statCycle (stat : String) : Inputs := ⟨⟨some stat.toList, none, none, none⟩, none⟩

/-- Two readings of `/proc/stat`, in range, and the reply after them. -/
theorem statusReply_two_readings :
    RepliesTracked (readCalls id .zero (inputLoop cpuConfig
        [statCycle "cpu  1000 0 0 5000 200 0 0 0\n", statCycle "cpu  1010 0 0 5030 200 0 0 0\n"]))
      (updates (readCalls id .zero (inputLoop cpuConfig
        [statCycle "cpu  1000 0 0 5000 200 0 0 0\n", statCycle "cpu  1010 0 0 5030 200 0 0 0\n"]))
        (initMetrics (fun _ => true) cpuConfig).2) := by
  refine (statusReply_iff (fun _ => true) cpuConfig _ _ rfl
    [statCycle "cpu  1000 0 0 5000 200 0 0 0\n", statCycle "cpu  1010 0 0 5030 200 0 0 0\n"] _
    List.prefix_rfl).1.2 ?_ _ List.prefix_rfl
  have hinputs : inputLoop cpuConfig [statCycle "cpu  1000 0 0 5000 200 0 0 0\n",
      statCycle "cpu  1010 0 0 5030 200 0 0 0\n"] =
      [.cpu (some "cpu  1000 0 0 5000 200 0 0 0\n".toList),
        .cpu (some "cpu  1010 0 0 5030 200 0 0 0\n".toList)] := rfl
  have hfirst : accepts (latestReading []) (some "cpu  1000 0 0 5000 200 0 0 0\n".toList) =
      some ⟨1000, 0, 0, 5000, 200, 0, 0, 0⟩ := by decide +kernel
  have hsecond : accepts (latestReading [some "cpu  1000 0 0 5000 200 0 0 0\n".toList])
      (some "cpu  1010 0 0 5030 200 0 0 0\n".toList) =
      some ⟨1010, 0, 0, 5030, 200, 0, 0, 0⟩ := by decide +kernel
  rw [hinputs]
  intro before i hinitial
  match before with
  | [] =>
      obtain rfl := (List.cons_prefix_cons.1 hinitial).1
      intro t ht
      obtain rfl := Option.some_inj.1 (hfirst.symm.trans ht)
      decide +kernel
  | [_] =>
      obtain ⟨rfl, htail⟩ := List.cons_prefix_cons.1 hinitial
      obtain rfl := (List.cons_prefix_cons.1 htail).1
      intro t ht
      obtain rfl := Option.some_inj.1 (hsecond.symm.trans ht)
      decide +kernel
  | _ :: _ :: _ =>
      have hlength := hinitial.length_le
      simp at hlength

/-- **A lost value.**  Between two readings of `/proc/stat` the busy time grows by 10 ticks, the
idle time by 1, and `iowait` shrinks by 10: the share of 1000 per cent does not fit into a byte. -/
theorem statusReply_lost :
    ¬ ∀ (works : InitAction → Bool) (config : Config) (r : InitResult) (s : Globals),
      initMetrics works config = (r, s) → ∀ (cycles : List Inputs) (inputs : List Input),
      inputs <+: inputLoop config cycles →
      RepliesTracked (readCalls id .zero inputs) (updates (readCalls id .zero inputs) s) := by
  intro h
  have hreply := h (fun _ => true) cpuConfig _ _ rfl
    [statCycle "cpu  1000 0 0 5000 200 0 0 0\n", statCycle "cpu  1010 0 0 5001 190 0 0 0\n"] _
    List.prefix_rfl
  obtain ⟨w, hw, -⟩ := hreply
  obtain ⟨b, hb, -⟩ := handleSigusr1_eq_some.1 hw
  have hlost := hb 0
  have hlatest : latestValue (readCalls id .zero (inputLoop cpuConfig
      [statCycle "cpu  1000 0 0 5000 200 0 0 0\n", statCycle "cpu  1010 0 0 5001 190 0 0 0\n"]))
      (trackedGauge 0) = some 1000 := by decide +kernel
  have hnone : trackedConversion 0 1000 = none := by decide +kernel
  rw [updates_gStatus, hlatest] at hlost
  exact absurd (hnone.symm.trans hlost) (by simp)

end Monitor
