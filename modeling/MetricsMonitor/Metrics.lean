/-
**The readers of `/proc`.**

The four readers of `metrics.c` that take their numbers from files of the kernel, as functions of
what the file holds when it is opened; `get_processes_usage`, which forks a child, is split between
`MetricsMonitor/Child.lean` and the end of this module.  A file is `none` when it cannot be opened.
Counters are `unsigned long long`, so their sums and differences wrap.  The final conversions to
`double` and the divisions are exact rationals in the first two readers; those of disk and network
take the rounding as a parameter, which is `id` or that of the machine.

* `Monitor.getMemoryUsage`, `Monitor.getDiskUsage`, `Monitor.getNetworkUsage` — the readers
  without memory;
* `Monitor.CpuTimes`, `Monitor.getCpuUsage` — the reader that keeps the eight counters of its
  last accepted reading in static variables;
* `Monitor.scrapeProcesses` — what `get_processes_usage` does once `waitpid` has returned;
* `Monitor.getCpuUsage_eq` — **the specification of `get_cpu_usage`**: an accepted reading gives
  the percentage and replaces the static counters, anything else gives `-1` and keeps them;
* `Monitor.getNetworkUsage_eq` — **the specification of `get_network_usage`**: the first line that
  matches decides.
-/

import MetricsMonitor.FormattedInput
import Mathlib.Algebra.GroupWithZero.Nat
import Mathlib.Data.Rat.Defs
import Mathlib.Data.Fin.VecNotation
import Mathlib.Algebra.Order.Field.Rat
import Mathlib.Tactic.Positivity
import Mathlib.Tactic.Ring
import Mathlib.Tactic.FinCases

set_option relaxedAutoImplicit false
set_option autoImplicit false

namespace Monitor

open FormattedInput

/-! ### Arrays

`config`, `g_status` and the arrays that the readers return have fixed lengths.  A literal index
such as `(3 : Fin 4)` rests on the fact that the length is not zero. -/

/-- `cpu_usage_metric`. -/
instance neZero_one : NeZero 1 := ⟨Nat.one_ne_zero⟩

/-- `N_DISK_METRICS` and `N_PROC_COUNT`. -/
instance neZero_two : NeZero 2 := ⟨Nat.succ_ne_zero 1⟩

/-- `N_MEM_METRICS` and `G_STATUS_N_METRICS_TRACKED`. -/
instance neZero_four : NeZero 4 := ⟨Nat.succ_ne_zero 3⟩

/-- `N_JSON_ENTRIES` and `N_NET_METRICS`. -/
instance neZero_six : NeZero 6 := ⟨Nat.succ_ne_zero 5⟩

/-! ### Files -/

/-- `BUFFER_SIZE`. -/
def bufferSize : ℕ := 256

/-- What opening and reading a file gives: `none` when `fopen` fails, its bytes otherwise.  A read
that fails half-way is the file cut at that place. -/
abbrev File := Option (List Char)

/-! ### Memory -/

/-- The read loop of `get_memory_usage` on `total_mem` and `free_mem`: a `MemTotal` line
continues, a `MemAvailable` line breaks. -/
def meminfoLoop : ℕ → ℕ → List (List Char) → ℕ × ℕ
  | totalMem, freeMem, [] => (totalMem, freeMem)
  | totalMem, freeMem, buffer :: rest =>
      let r := sscanf buffer "MemTotal: %llu kB"
      let totalMem := assign (fun _ : Fin 1 => totalMem) r.stored 0
      if r.ret = 1 then meminfoLoop totalMem freeMem rest
      else
        let r := sscanf buffer "MemAvailable: %llu kB"
        let freeMem := assign (fun _ : Fin 1 => freeMem) r.stored 0
        if r.ret = 1 then (totalMem, freeMem) else meminfoLoop totalMem freeMem rest

/-- `total_mem` and `free_mem` after the read loop over `/proc/meminfo`. -/
def meminfo (content : List Char) : UInt64 × UInt64 :=
  let (totalMem, freeMem) := meminfoLoop 0 0 (fgetsAll bufferSize content)
  (.ofNat totalMem, .ofNat freeMem)

/-- The array that `get_memory_usage` returns: total, used, available, percentage used. -/
def memoryMetrics (totalMem freeMem : UInt64) : Fin 4 → ℚ :=
  let usedMem := totalMem - freeMem
  ![totalMem.toNat, usedMem.toNat, freeMem.toNat, usedMem.toNat / totalMem.toNat * 100]

/-- `get_memory_usage`. -/
def getMemoryUsage : File → Option (Fin 4 → ℚ)
  | none => none
  | some content =>
      let (totalMem, freeMem) := meminfo content
      if totalMem = 0 ∨ freeMem = 0 then none else some (memoryMetrics totalMem freeMem)

/-- When `get_memory_usage` succeeds. -/
theorem getMemoryUsage_eq_some_iff {meminfo : File} {u : Fin 4 → ℚ} :
    getMemoryUsage meminfo = some u ↔ ∃ content, meminfo = some content ∧
      (Monitor.meminfo content).1 ≠ 0 ∧ (Monitor.meminfo content).2 ≠ 0 ∧
      memoryMetrics (Monitor.meminfo content).1 (Monitor.meminfo content).2 = u := by
  cases meminfo with
  | none => simp [getMemoryUsage]
  | some content =>
      simp only [getMemoryUsage, Option.some_inj, exists_eq_left']
      split
      · rename_i h
        simp only [reduceCtorEq, false_iff, not_and]
        intro htotal hfree
        exact absurd h (by simp [htotal, hfree])
      · rename_i h
        rw [not_or] at h
        simp [h.1, h.2]

theorem memoryMetrics_percentage (total free : UInt64) :
    memoryMetrics total free 3 = (100 * (total - free).toNat / total.toNat : ℚ) := by
  change ((total - free).toNat / total.toNat * 100 : ℚ) = _
  ring

/-! ### CPU -/

/-- The eight counters of the first line of `/proc/stat`; also the static variables `prev_*` of
`get_cpu_usage`. -/
structure CpuTimes where
  user : UInt64
  nice : UInt64
  system : UInt64
  idle : UInt64
  iowait : UInt64
  irq : UInt64
  softirq : UInt64
  steal : UInt64
  deriving DecidableEq, Repr

namespace CpuTimes

/-- The initial values of the static variables. -/
def zero : CpuTimes := ⟨0, 0, 0, 0, 0, 0, 0, 0⟩

/-- `idle_total`. -/
def idleTotal (t : CpuTimes) : UInt64 := t.idle + t.iowait

/-- `non_idle`. -/
def nonIdle (t : CpuTimes) : UInt64 :=
  t.user + t.nice + t.system + t.irq + t.softirq + t.steal

/-- `total`. -/
def total (t : CpuTimes) : UInt64 := t.idleTotal + t.nonIdle

end CpuTimes

/-- The counters `sscanf` finds in the first chunk of `/proc/stat`, when it performs all eight
conversions. -/
def cpuFields (buffer : List Char) : Option CpuTimes :=
  let r := sscanf buffer "cpu  %llu %llu %llu %llu %llu %llu %llu %llu"
  if r.ret < 8 then none
  else
    let v := assign (fun _ : Fin 8 => 0) r.stored
    some ⟨.ofNat (v 0), .ofNat (v 1), .ofNat (v 2), .ofNat (v 3), .ofNat (v 4), .ofNat (v 5),
      .ofNat (v 6), .ofNat (v 7)⟩

/-- `get_cpu_usage`: the returned value and the static variables afterwards. -/
def getCpuUsage (stat : File) (prev : CpuTimes) : ℚ × CpuTimes :=
  match stat with
  | none => (-1, prev)
  | some content =>
      match fgetsAll (bufferSize * 4) content with
      | [] => (-1, prev)
      | buffer :: _ =>
          match cpuFields buffer with
          | none => (-1, prev)
          | some t =>
              let totald := t.total - prev.total
              let idled := t.idleTotal - prev.idleTotal
              if totald = 0 then (-1, prev)
              else ((totald - idled).toNat / totald.toNat * 100, t)

/-- The counters of a reading, whatever the previous ones were: `none` when the file cannot be
opened, the first read fails or the first line does not parse. -/
def cpuReading (stat : File) : Option CpuTimes :=
  stat.bind fun content => (fgetsAll (bufferSize * 4) content).head?.bind cpuFields

/-- **A call is accepted** when it parses eight fields and its total differs from the total of the
last accepted call. -/
def cpuAccepted (stat : File) (prev : CpuTimes) : Option CpuTimes :=
  (cpuReading stat).filter fun t => t.total - prev.total ≠ 0

/-- The percentage between two readings. -/
def CpuTimes.usageSince (t prev : CpuTimes) : ℚ :=
  100 * (t.nonIdle - prev.nonIdle).toNat / (t.total - prev.total).toNat

/-- The busy difference of the code, `totald - idled`, is the difference of the non-idle sums. -/
theorem CpuTimes.busy_eq (t prev : CpuTimes) :
    t.total - prev.total - (t.idleTotal - prev.idleTotal) = t.nonIdle - prev.nonIdle := by
  simp only [CpuTimes.total]
  grind

/-- **The specification of `get_cpu_usage`.** -/
theorem getCpuUsage_eq (stat : File) (prev : CpuTimes) :
    getCpuUsage stat prev =
      match cpuAccepted stat prev with
      | none => (-1, prev)
      | some t => (t.usageSince prev, t) := by
  cases stat with
  | none => rfl
  | some content =>
      simp only [getCpuUsage, cpuAccepted, cpuReading, Option.bind_some]
      cases fgetsAll (bufferSize * 4) content with
      | nil => rfl
      | cons buffer rest =>
          simp only [List.head?_cons, Option.bind_some]
          cases cpuFields buffer with
          | none => rfl
          | some t =>
              by_cases h : t.total - prev.total = 0
              · simp [h, Option.filter]
              · simp only [h, if_false, Option.filter, ne_eq, not_false_eq_true, decide_true,
                  if_true, CpuTimes.busy_eq, CpuTimes.usageSince]
                congr 1
                ring

/-- An accepted call returns a percentage, never a negative value. -/
theorem CpuTimes.usageSince_nonneg (t prev : CpuTimes) : 0 ≤ t.usageSince prev := by
  unfold CpuTimes.usageSince
  positivity

/-! ### Disk and network -/

/-- `get_disk_usage`.  Both numbers of a quotient are converted to `double` and the quotient is one:
`fl` rounds to it. -/
def getDiskUsage (fl : ℚ → ℚ) : File → Option (Fin 2 → ℚ)
  | none => none
  | some content =>
      let v := (scanLoop "%*u       %*u sda %*u %*u %llu %llu %*u %*u %llu %llu" 4 (fun _ => 0)
        (fgetsAll bufferSize content)).2
      if v 0 = 0 ∨ v 1 = 0 ∨ v 2 = 0 ∨ v 3 = 0 then none
      else some ![fl (fl (v 0) / fl (v 1)), fl (fl (v 2) / fl (v 3))]

theorem getDiskUsage_nonneg {fl : ℚ → ℚ} (hfl : ∀ q, 0 ≤ q → 0 ≤ fl q) {diskstats : File}
    {u : Fin 2 → ℚ} (h : getDiskUsage fl diskstats = some u) (j : Fin 2) : 0 ≤ u j := by
  have hquotient (m n : ℕ) : 0 ≤ fl (fl m / fl n) :=
    hfl _ (div_nonneg (hfl _ (Nat.cast_nonneg m)) (hfl _ (Nat.cast_nonneg n)))
  cases diskstats with
  | none => simp [getDiskUsage] at h
  | some content =>
      simp only [getDiskUsage] at h
      split at h
      · simp at h
      · obtain rfl := Option.some_inj.1 h
        fin_cases j
        · exact hquotient _ _
        · exact hquotient _ _

/-- The format of the line of an Ethernet interface in `/proc/net/dev`. -/
def networkFormat : String := "en%*s %llu %*u %llu %llu %*u %*u %*u %*u %llu %*u %llu %llu"

/-- `get_network_usage`.  The counters are converted to `double`: `fl` rounds to it. -/
def getNetworkUsage (fl : ℚ → ℚ) : File → Option (Fin 6 → ℚ)
  | none => none
  | some content =>
      let (dataRead, v) := scanLoop networkFormat 6 (fun _ => 0) (fgetsAll bufferSize content)
      if dataRead then some fun i => fl (v i) else none

/-- **The specification of `get_network_usage`**: the counters are those of the first chunk that
matches the whole format. -/
theorem getNetworkUsage_eq (fl : ℚ → ℚ) (content : List Char) :
    getNetworkUsage fl (some content) =
      ((fgetsAll bufferSize content).find? fun b => (sscanf b networkFormat).ret = 6).map
        fun b i => fl (assign (fun _ : Fin 6 => 0) (sscanf b networkFormat).stored i) := by
  have hloop := scanLoop_of_complete networkFormat (n := 6) (by decide) (by decide +kernel)
    (fun _ => 0) (fgetsAll bufferSize content)
  simp only [getNetworkUsage]
  split at hloop
  · rename_i b hb
    simp only [Nat.cast_ofNat] at hb
    simp [hb, hloop]
  · rename_i hnone
    simp only [Nat.cast_ofNat] at hnone
    simp [hnone, hloop]

/-! ### Processes -/

/-- `WEXITSTATUS`: the exit code in the word that `waitpid` stores. -/
def wexitstatus (status : ℕ) : ℤ := ((status &&& 0xff00) >>> 8 : ℕ)

/-- The rest of `get_processes_usage`, once `waitpid` has stored `status`: the check of the exit
status, then the scan of `TEMP_PROC_METRICS_FILE`. -/
def scrapeProcesses (status : ℕ) (tempFile : File) : Option (Fin 2 → ℚ) :=
  if wexitstatus status = -1 then none
  else
    match tempFile with
    | none => none
    | some content =>
        let v := (scanLoop "Tasks: %u total, %u" 2 (fun _ => 0) (fgetsAll bufferSize content)).2
        if v 0 = 0 ∨ v 1 = 0 then none else some fun i => v i

end Monitor
