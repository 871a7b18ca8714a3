/-
**The admission test of `get_memory_usage`.**

`get_memory_usage` keeps the last `MemTotal` number it reads, stops at the first `MemAvailable`
number and subtracts the second from the first.  It tests only that neither is zero, so the
difference wraps when more memory is available than there is.

The specification does not mention the read loop: `Monitor.availableIn` is the first
`MemAvailable` number of the file, `Monitor.totalIn` the last `MemTotal` number before it.

* `Monitor.meminfoLoop_eq` — **what the read loop finds**;
* `Monitor.memoryUsage_sound_iff` — **when used and available memory add up to the total and the
  percentage is one**.
-/

import MetricsMonitor.CpuUsage
import MetricsMonitor.FormatMatching

set_option relaxedAutoImplicit false
set_option autoImplicit false

namespace Monitor

open FormattedInput

/-! ### The numbers of a file -/

/-- The number that a chunk gives under a format with one conversion. -/
def lineValue (fmt : String) (buffer : List Char) : Option ℕ :=
  match (sscanf buffer fmt).stored with
  | [.number n] => some n
  | _ => none

/-- The number of a `MemTotal` line. -/
def memTotal (buffer : List Char) : Option ℕ := lineValue "MemTotal: %llu kB" buffer

/-- The number of a `MemAvailable` line. -/
def memAvailable (buffer : List Char) : Option ℕ := lineValue "MemAvailable: %llu kB" buffer

/-- The first `MemAvailable` number of a file. -/
def availableIn (content : List Char) : Option ℕ :=
  (fgetsAll bufferSize content).findSome? memAvailable

/-- The last `MemTotal` number of a file before its first `MemAvailable` number. -/
def totalIn (content : List Char) : Option ℕ :=
  (((fgetsAll bufferSize content).takeWhile (memAvailable · = none)).filterMap memTotal).getLast?

/-! ### One line -/

/-- A format with one numeric conversion in front of which the literal text `key` stands. -/
structure LineFormat (fmt key : String) : Prop where
  numeric : NumericFormat (parseFormat fmt)
  count : conversions (parseFormat fmt) = 1
  wide : ∀ b, .conv false (.unsigned b) ∈ parseFormat fmt → b ≤ 64
  begins : ∃ rest, parseFormat fmt = key.toList.map .literal ++ rest

theorem totalFormat : LineFormat "MemTotal: %llu kB" "MemTotal:" where
  numeric := by decide +kernel
  count := by decide +kernel
  wide := by simp [parseFormat, parseDirectives, isSpace]
  begins := ⟨_, rfl⟩

theorem availableFormat : LineFormat "MemAvailable: %llu kB" "MemAvailable:" where
  numeric := by decide +kernel
  count := by decide +kernel
  wide := by simp [parseFormat, parseDirectives, isSpace]
  begins := ⟨_, rfl⟩

variable {fmt key : String}

/-- One call of `sscanf` with such a format: it returns `1` and assigns the number, or leaves the
variable alone. -/
theorem LineFormat.sscanf_eq (h : LineFormat fmt key) (buffer : List Char) (old : ℕ) :
    match lineValue fmt buffer with
    | some n => (sscanf buffer fmt).ret = 1 ∧
        assign (fun _ : Fin 1 => old) (sscanf buffer fmt).stored 0 = n ∧ n < 2 ^ 64
    | none => (sscanf buffer fmt).ret ≠ 1 ∧
        assign (fun _ : Fin 1 => old) (sscanf buffer fmt).stored 0 = old := by
  have hle : (sscanf buffer fmt).stored.length ≤ 1 := h.count ▸ length_stored_le _ _
  have hnum : AllNumbers (sscanf buffer fmt).stored := allNumbers_scan h.numeric _
  have hret := ret_eq_length (r := sscanf buffer fmt) (n := 1) (by simp)
  have hlt (n : ℕ) : .number n ∈ (sscanf buffer fmt).stored → n < 2 ^ 64 :=
    lt_of_mem_stored h.wide
  unfold lineValue
  rw [Nat.cast_one] at hret
  cases hstored : (sscanf buffer fmt).stored with
  | nil => simp [hret, hstored, assign]
  | cons v vs =>
      obtain rfl : vs = [] := by
        rw [hstored, List.length_cons] at hle
        exact List.length_eq_zero_iff.1 (by omega)
      rw [hstored] at hnum hlt
      obtain ⟨n, rfl⟩ := hnum v (by simp)
      exact ⟨by rw [hret, hstored]; rfl, rfl, hlt n (by simp)⟩

/-- A line that gives a number starts with the key. -/
theorem LineFormat.key_of_lineValue (h : LineFormat fmt key) {buffer : List Char} {n : ℕ}
    (hn : lineValue fmt buffer = some n) : key.toList <+: buffer.takeWhile (·.toNat != 0) := by
  obtain ⟨rest, hfmt⟩ := h.begins
  by_contra hkey
  have hnone : perform (key.toList.map .literal) (buffer.takeWhile (·.toNat != 0)) = none := by
    rw [perform_literals, if_neg hkey]
  have hzero : conversions (key.toList.map .literal) = 0 := by
    rw [conversions, List.countP_map, List.countP_eq_zero]
    intro c _
    simp [Directive.stores]
  rw [lineValue, sscanf, hfmt, scan_append_of_eq_none hnone, stored_eq_nil hzero] at hn
  simp at hn

/-- No line gives both numbers. -/
theorem memAvailable_of_memTotal {buffer : List Char} {n : ℕ} (h : memTotal buffer = some n) :
    memAvailable buffer = none := by
  rw [Option.eq_none_iff_forall_ne_some]
  intro m hm
  have htotal := totalFormat.key_of_lineValue h
  have havailable := availableFormat.key_of_lineValue hm
  exact absurd (List.prefix_of_prefix_length_le htotal havailable (by decide)) (by decide)

/-! ### The read loop -/

/-- **What the read loop finds**: the last `MemTotal` number before the first `MemAvailable`
number, and that one.  The induction is on the chunks; `total` is what earlier ones left. -/
theorem meminfoLoop_eq (total free : ℕ) (buffers : List (List Char)) :
    meminfoLoop total free buffers =
      (((buffers.takeWhile (memAvailable · = none)).filterMap memTotal).getLastD total,
        (buffers.findSome? memAvailable).getD free) := by
  induction buffers generalizing total with
  | nil => rfl
  | cons buffer rest ih =>
      have hline := totalFormat.sscanf_eq buffer total
      have hline' := availableFormat.sscanf_eq buffer free
      cases htotal : memTotal buffer with
      | some n =>
          rw [show lineValue "MemTotal: %llu kB" buffer = some n from htotal] at hline
          have havailable := memAvailable_of_memTotal htotal
          simp only [meminfoLoop, hline.1, if_true, hline.2.1, ih, List.takeWhile_cons, havailable,
            decide_true, List.filterMap_cons, htotal, getLastD_cons_getLastD,
            List.findSome?_cons]
      | none =>
          rw [show lineValue "MemTotal: %llu kB" buffer = none from htotal] at hline
          cases havailable : memAvailable buffer with
          | some n =>
              rw [show lineValue "MemAvailable: %llu kB" buffer = some n from havailable] at hline'
              simp [meminfoLoop, hline, hline', havailable]
          | none =>
              rw [show lineValue "MemAvailable: %llu kB" buffer = none from havailable] at hline'
              simp [meminfoLoop, hline, hline', havailable, htotal, ih]

/-- The numbers found fit in the variables. -/
theorem lt_of_totalIn {content : List Char} {n : ℕ} (h : totalIn content = some n) :
    n < 2 ^ 64 := by
  obtain ⟨buffer, -, hbuffer⟩ := List.mem_filterMap.1 (List.mem_of_getLast? h)
  have hline := totalFormat.sscanf_eq buffer 0
  rw [show lineValue "MemTotal: %llu kB" buffer = some n from hbuffer] at hline
  exact hline.2.2

theorem lt_of_availableIn {content : List Char} {n : ℕ} (h : availableIn content = some n) :
    n < 2 ^ 64 := by
  obtain ⟨buffer, -, hbuffer⟩ := List.exists_of_findSome?_eq_some h
  have hline := availableFormat.sscanf_eq buffer 0
  rw [show lineValue "MemAvailable: %llu kB" buffer = some n from hbuffer] at hline
  exact hline.2.2

/-- The two variables after the read loop; a number that is not found is zero. -/
theorem meminfo_eq (content : List Char) :
    (meminfo content).1.toNat = (totalIn content).getD 0 ∧
      (meminfo content).2.toNat = (availableIn content).getD 0 := by
  have htotal : (totalIn content).getD 0 < 2 ^ 64 := by
    cases h : totalIn content with
    | none => simp
    | some n => exact lt_of_totalIn h
  have havailable : (availableIn content).getD 0 < 2 ^ 64 := by
    cases h : availableIn content with
    | none => simp
    | some n => exact lt_of_availableIn h
  simp only [meminfo, meminfoLoop_eq, UInt64.toNat_ofNat', List.getLastD_eq_getLast?]
  exact ⟨Nat.mod_eq_of_lt htotal, Nat.mod_eq_of_lt havailable⟩

/-! ### The results -/

/-- What the four numbers of `get_memory_usage` are meant to be: total, used and available memory,
and a percentage. -/
structure SoundMemory (u : Fin 4 → ℚ) : Prop where
  adds_up : u 1 + u 2 = u 0
  nonneg : 0 ≤ u 3
  le_hundred : u 3 ≤ 100

/-- The numbers are sound exactly when the subtraction does not wrap. -/
theorem soundMemory_iff {total free : UInt64} (htotal : total ≠ 0) :
    SoundMemory (memoryMetrics total free) ↔ free.toNat ≤ total.toNat := by
  have hpos : (0 : ℚ) < total.toNat := by
    exact_mod_cast Nat.pos_of_ne_zero fun h => htotal (UInt64.toNat_inj.1 h)
  constructor
  · intro h
    have hadds : ((total - free).toNat : ℚ) + free.toNat = total.toNat := h.adds_up
    have hnat : (total - free).toNat + free.toNat = total.toNat := by exact_mod_cast hadds
    omega
  · intro h
    have hused : (total - free).toNat + free.toNat = total.toNat := by
      rw [UInt64.toNat_sub_of_le _ _ (UInt64.le_iff_toNat_le.2 h)]
      omega
    have hle : ((total - free).toNat : ℚ) ≤ total.toNat := by
      exact_mod_cast (by omega : (total - free).toNat ≤ total.toNat)
    refine ⟨?_, ?_, ?_⟩
    · change ((total - free).toNat : ℚ) + free.toNat = total.toNat
      exact_mod_cast hused
    · rw [memoryMetrics_percentage]
      positivity
    · rw [memoryMetrics_percentage, div_le_iff₀ hpos]
      linarith

/-- A variable that is not zero holds a number of the file. -/
theorem eq_some_of_ne_zero {x : UInt64} {o : Option ℕ} (h : x.toNat = o.getD 0) (hx : x ≠ 0) :
    o = some x.toNat := by
  cases o with
  | none => exact absurd (UInt64.toNat_inj.1 h) hx
  | some n => rw [h, Option.getD_some]

/-- A number of the file that is not zero is admitted. -/
theorem ne_zero_of_eq_some {x : UInt64} {o : Option ℕ} {n : ℕ} (h : x.toNat = o.getD 0)
    (ho : o = some n) (hn : n ≠ 0) : x ≠ 0 ∧ x.toNat = n := by
  rw [ho, Option.getD_some] at h
  refine ⟨?_, h⟩
  rintro rfl
  exact hn h.symm

/-- **When the result of `get_memory_usage` is sound**: exactly when the file does not give more
available memory than total memory. -/
theorem memoryUsage_sound_iff (meminfo : File) :
    (∀ u, getMemoryUsage meminfo = some u → SoundMemory u) ↔
      ∀ content total available, meminfo = some content → totalIn content = some total →
        availableIn content = some available → total ≠ 0 → available ≤ total := by
  cases meminfo with
  | none => simp [getMemoryUsage]
  | some content =>
      obtain ⟨htotal, havailable⟩ := meminfo_eq content
      constructor
      · intro hsound content' total available hcontent ht ha hne
        obtain rfl := Option.some_inj.1 hcontent
        by_cases hzero : available = 0
        · omega
        · obtain ⟨htotal', heq⟩ := ne_zero_of_eq_some htotal ht hne
          obtain ⟨havailable', heq'⟩ := ne_zero_of_eq_some havailable ha hzero
          have hu := hsound _ (getMemoryUsage_eq_some_iff.2
            ⟨content, rfl, htotal', havailable', rfl⟩)
          have hle := (soundMemory_iff htotal').1 hu
          omega
      · intro hle u hu
        obtain ⟨content', hcontent, htotal', havailable', rfl⟩ :=
          getMemoryUsage_eq_some_iff.1 hu
        obtain rfl := Option.some_inj.1 hcontent
        rw [soundMemory_iff htotal']
        -- a number that is not found is zero, and zero is not admitted
        refine hle content _ _ rfl (eq_some_of_ne_zero htotal htotal')
          (eq_some_of_ne_zero havailable havailable') fun hzero => ?_
        exact htotal' (UInt64.toNat_inj.1 hzero)

/-- More memory is available than there is. -/
def shrunkMeminfo : File := some "MemTotal: 5 kB\nMemAvailable: 6 kB\n".toList

/-- The used memory wraps. -/
theorem memoryUsage_shrunkMeminfo :
    ¬ ∀ u, getMemoryUsage shrunkMeminfo = some u → SoundMemory u := by
  intro h
  have hu : getMemoryUsage shrunkMeminfo = some (memoryMetrics 5 6) := by decide +kernel
  exact absurd (h _ hu).le_hundred (by decide +kernel)

end Monitor
