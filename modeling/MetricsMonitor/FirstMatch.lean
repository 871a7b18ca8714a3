/-
**The scan loops of `get_disk_usage`, `get_network_usage` and `get_processes_usage`.**

The three readers scan chunk after chunk into variables that start at zero, and two of them have no
other sign of failure than a variable that is zero.  Numbers that a partly matching chunk has left
in the variables do not reach the result all the same: only a complete match stores the last
variable, and it stores all others too.

* `Monitor.diskLoop`, `Monitor.networkLoop`, `Monitor.processesLoop` — the loops with the tests
  behind them, on any chunks;
* `Monitor.firstMatch_decides` — **the result is that of the first chunk that matches
  completely**.
-/

import MetricsMonitor.DiskStats
import MetricsMonitor.NetDev
import MetricsMonitor.ProcessCounts

set_option relaxedAutoImplicit false
set_option autoImplicit false

namespace Monitor

open FormattedInput

/-! ### The loops -/

/-- The scan loop of `get_disk_usage` and what follows it. -/
def diskLoop (fl : ℚ → ℚ) (chunks : List (List Char)) : Option (Fin 2 → ℚ) :=
  diskQuotients fl (scanLoop diskFormat 4 (fun _ => 0) chunks).2

/-- The result that six numbers give. -/
def networkCounters (fl : ℚ → ℚ) (v : Fin 6 → ℕ) : Option (Fin 6 → ℚ) := some fun i => fl (v i)

/-- The scan loop of `get_network_usage` and what follows it: `data_read` is tested, not the
variables. -/
def networkLoop (fl : ℚ → ℚ) (chunks : List (List Char)) : Option (Fin 6 → ℚ) :=
  let (dataRead, v) := scanLoop networkFormat 6 (fun _ => 0) chunks
  if dataRead then networkCounters fl v else none

/-- The format of the first line that `top` prints about processes. -/
def processesFormat : String := "Tasks: %u total, %u"

/-- The result that two counts give. -/
def processesCounts (v : Fin 2 → ℕ) : Option (Fin 2 → ℚ) :=
  if v 0 = 0 ∨ v 1 = 0 then none else some fun i => v i

/-- The scan loop of `get_processes_usage` and what follows it. -/
def processesLoop (chunks : List (List Char)) : Option (Fin 2 → ℚ) :=
  processesCounts (scanLoop processesFormat 2 (fun _ => 0) chunks).2

theorem processesLoopFormat : LoopFormat processesFormat 2 where
  numeric := by decide +kernel
  count := by decide +kernel
  last := ⟨(parseFormat processesFormat).dropLast, .unsigned 32, by decide +kernel⟩

/-! ### The results -/

theorem diskQuotients_eq_none_iff (fl : ℚ → ℚ) (v : Fin 4 → ℕ) :
    diskQuotients fl v = none ↔ ∃ i, v i = 0 := by
  have hzero : (∃ i, v i = 0) ↔ v 0 = 0 ∨ v 1 = 0 ∨ v 2 = 0 ∨ v 3 = 0 := by
    simp [Fin.exists_fin_succ]
  rw [hzero, diskQuotients]
  split
  · rename_i h
    exact iff_of_true rfl h
  · rename_i h
    exact iff_of_false (Option.some_ne_none _) h

theorem processesCounts_eq_none_iff (v : Fin 2 → ℕ) :
    processesCounts v = none ↔ ∃ i, v i = 0 := by
  have hzero : (∃ i, v i = 0) ↔ v 0 = 0 ∨ v 1 = 0 := Fin.exists_fin_two
  rw [hzero, processesCounts]
  split
  · rename_i h
    exact iff_of_true rfl h
  · rename_i h
    exact iff_of_false (Option.some_ne_none _) h

/-- A reader runs a loop over the chunks of its file, and the loop is decided by the first complete
match. -/
structure ReadsFirstMatch {n m : ℕ} (fmt : String) (result : (Fin n → ℕ) → Option (Fin m → ℚ))
    (loop : List (List Char) → Option (Fin m → ℚ)) (reader : List Char → Option (Fin m → ℚ)) :
    Prop where
  decided : DecidedByFirst fmt result loop
  reader_eq : ∀ content, reader content = loop (fgetsAll bufferSize content)

theorem disk_readsFirstMatch (fl : ℚ → ℚ) :
    ReadsFirstMatch diskFormat (diskQuotients fl) (diskLoop fl) fun content =>
      getDiskUsage fl (some content) where
  decided := diskLoopFormat.decidedByFirst (fun _ => diskQuotients fl) fun i v _ hv =>
    (diskQuotients_eq_none_iff fl v).2 ⟨i, hv⟩
  reader_eq _ := rfl

theorem network_readsFirstMatch (fl : ℚ → ℚ) :
    ReadsFirstMatch networkFormat (networkCounters fl) (networkLoop fl) fun content =>
      getNetworkUsage fl (some content) where
  decided := networkLoopFormat.decidedByFirst
    (fun dataRead v => if dataRead then networkCounters fl v else none) fun _ _ _ _ => rfl
  reader_eq _ := rfl

theorem processes_readsFirstMatch (status : ℕ) :
    ReadsFirstMatch processesFormat processesCounts processesLoop fun content =>
      scrapeProcesses status (some content) where
  decided := processesLoopFormat.decidedByFirst (fun _ => processesCounts) fun i v _ hv =>
    (processesCounts_eq_none_iff v).2 ⟨i, hv⟩
  reader_eq _ := if_neg (wexitstatus_ne status)

/-- **The first complete match decides.**  For disk and processes it gives no result exactly when
one of its numbers is zero, and for the network it always gives one.  This does not depend on the
rounding. -/
theorem firstMatch_decides (fl : ℚ → ℚ) :
    (ReadsFirstMatch diskFormat (diskQuotients fl) (diskLoop fl)
        (fun content => getDiskUsage fl (some content)) ∧
      ∀ v, diskQuotients fl v = none ↔ ∃ i, v i = 0) ∧
    (ReadsFirstMatch networkFormat (networkCounters fl) (networkLoop fl)
        (fun content => getNetworkUsage fl (some content)) ∧
      ∀ v, networkCounters fl v ≠ none) ∧
    (∀ status, ReadsFirstMatch processesFormat processesCounts processesLoop
        fun content => scrapeProcesses status (some content)) ∧
      ∀ v, processesCounts v = none ↔ ∃ i, v i = 0 :=
  ⟨⟨disk_readsFirstMatch fl, diskQuotients_eq_none_iff fl⟩,
    ⟨network_readsFirstMatch fl, fun _ => Option.some_ne_none _⟩,
    processes_readsFirstMatch, processesCounts_eq_none_iff⟩

end Monitor
