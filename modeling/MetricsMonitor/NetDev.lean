/-
**`get_network_usage` on `/proc/net/dev`.**

The kernel prints two header lines and a line for each interface: the name, right-aligned to six
columns, a colon, and sixteen counters, each after a blank and padded to its minimum width.  The
format of `get_network_usage` starts with the literal `en`, which skips no blanks, so the line of an
interface with a shorter name never matches; and the line is scanned in chunks of 255 characters.
The counters are returned as doubles: one that needs more than 53 bits is rounded.

The specification looks at the interfaces, not at the text: `Interface.ethernet` is what the
documentation speaks of, `Interface.recognised` what the format accepts.

* `Monitor.netDev` — the file;
* `Monitor.Interface.chunk_of_recognised`, `Monitor.Interface.chunk_of_not_recognised` — which
  lines match, and what they store;
* `Monitor.getNetworkUsage_netDev` — **the result on the file of any interfaces**;
* `Monitor.networkUsage_iff` — **when it is that of the first Ethernet interface**.
-/

import MetricsMonitor.Metrics
import MetricsMonitor.Columns
import MetricsMonitor.ScanLoop
import MetricsMonitor.FloatingPoint

set_option relaxedAutoImplicit false
set_option autoImplicit false

namespace Monitor

open FormattedInput FloatingPoint
open FormattedOutput (IsDouble)

/-! ### The file -/

/-- A network interface.  The kernel allows names of up to 15 bytes, none of them white space. -/
structure Interface where
  name : List Char
  counters : Fin 16 → UInt64
  length_le : name.length ≤ 15
  no_space : ∀ c ∈ name, isSpace c = false
  no_null : ∀ c ∈ name, c.toNat ≠ 0

/-- The minimum widths of the counters. -/
def counterWidths : Fin 16 → ℕ := ![7, 7, 4, 4, 4, 5, 10, 9, 8, 7, 4, 4, 4, 5, 7, 10]

namespace Interface

/-- A counter as a number. -/
def counter (i : Interface) (k : Fin 16) : ℕ := (i.counters k).toNat

/-- The counters with their widths. -/
def cells (i : Interface) : List (ℕ × ℕ) := List.ofFn fun k => (counterWidths k, i.counter k)

/-- The name, right-aligned to six columns, and the colon. -/
def label (i : Interface) : List Char := i.name.leftpad 6 ' ' ++ [':']

/-- The line of an interface. -/
def line (i : Interface) : List Char := i.label ++ (columns i.cells ++ ['\n'])

end Interface

/-- The two header lines. -/
def netDevHeader : List (List Char) :=
  ["Inter-|   Receive                                                |  Transmit".toList ++ ['\n'],
    " face |bytes    packets errs drop fifo frame compressed multicast".toList ++
      "|bytes    packets errs drop fifo colls carrier compressed".toList ++ ['\n']]

/-- `/proc/net/dev`. -/
def netDev (interfaces : List Interface) : List Char :=
  (netDevHeader ++ interfaces.map Interface.line).flatten

/-! ### What the documentation and the format are about -/

namespace Interface

/-- The name starts with `en`. -/
def ethernet (i : Interface) : Bool := "en".toList.isPrefixOf i.name

/-- The six counters: bytes, errors and drops received, and transmitted. -/
def numbers (i : Interface) : Fin 6 → ℕ :=
  ![i.counter 0, i.counter 2, i.counter 3, i.counter 8, i.counter 10, i.counter 11]

/-- The part of the line in front of the digits of the transmit drops, the twelfth counter. -/
def beforeDrops (i : Interface) : List Char :=
  i.label ++ (columns (i.cells.take 11) ++ columnBlanks (counterWidths 11) (i.counter 11))

/-- The transmit drops as far as their digits stand in the first 255 characters of the line. -/
def visibleDrops (i : Interface) : ℕ :=
  digitsValue ((decimal (i.counter 11)).take (255 - i.beforeDrops.length))

/-- The format matches the line: the name starts with `en` and is not padded, and a digit of the
transmit drops stands in the first 255 characters. -/
def recognised (i : Interface) : Bool :=
  i.ethernet && decide (6 ≤ i.name.length) && decide (i.beforeDrops.length < 255)

/-- The name is not padded, and all digits of the first twelve counters stand in the first 255
characters of the line. -/
def legible (i : Interface) : Bool :=
  decide (6 ≤ i.name.length) &&
    decide (i.beforeDrops.length + (decimal (i.counter 11)).length ≤ 255)

/-- The six counters that can be seen in the first 255 characters of the line. -/
def visibleNumbers (i : Interface) : Fin 6 → ℕ :=
  ![i.counter 0, i.counter 2, i.counter 3, i.counter 8, i.counter 10, i.visibleDrops]

/-! ### The line -/

variable (i : Interface)

theorem counter_lt (k : Fin 16) : i.counter k < 2 ^ 64 := (i.counters k).toNat_lt

theorem length_label : i.label.length ≤ 16 := by
  have hname := i.length_le
  simp only [label, List.length_append, List.length_leftpad, List.length_singleton]
  omega

theorem mem_label {c : Char} (h : c ∈ i.label) : c ∈ i.name ∨ c = ' ' ∨ c = ':' := by
  simp only [label, List.leftpad, List.mem_append, List.mem_replicate, List.mem_singleton] at h
  rcases h with (h | h) | h
  · exact Or.inr (Or.inl h.2)
  · exact Or.inl h
  · exact Or.inr (Or.inr h)

theorem isLine_line : IsLine i.line := by
  refine isLine_row (fun h => ?_) i.cells
  rcases i.mem_label h with h | h | h
  · have hspace := i.no_space _ h
    simp [isSpace] at hspace
  · simp at h
  · simp at h

theorem no_null_line {c : Char} (h : c ∈ i.line) : c.toNat ≠ 0 := by
  rcases List.mem_append.1 h with h | h
  · rcases i.mem_label h with h | rfl | rfl
    · exact i.no_null c h
    · simp
    · simp
  · rcases mem_row h with h | rfl | rfl
    · exact toNat_ne_zero_of_isDigit h
    · simp
    · simp

/-- What does not fit in the first chunk is digits and white space. -/
theorem mem_drop_line {c : Char} (h : c ∈ i.line.drop 255) : c ≠ 'e' := by
  have hlabel := i.length_label
  rcases mem_drop_row (by omega) h with h | rfl | rfl
  · rintro rfl
    simp at h
  · simp
  · simp

theorem line_eq : i.line = i.beforeDrops ++
    (decimal (i.counter 11) ++ (columns (i.cells.drop 12) ++ ['\n'])) := by
  have hlength : i.cells.length = 16 := List.length_ofFn
  have hcells : columns i.cells = columns (i.cells.take 11) ++
      (column (counterWidths 11) (i.counter 11) ++ columns (i.cells.drop 12)) := by
    conv_lhs => rw [← List.take_append_drop 11 i.cells,
      List.drop_eq_getElem_cons (by omega : 11 < i.cells.length)]
    simp [columns, cells]
  simp [line, beforeDrops, hcells, column]

/-- A name of six or more characters is not padded. -/
theorem label_eq (h : 6 ≤ i.name.length) : i.label = i.name ++ [':'] := by
  simp [label, List.leftpad, Nat.sub_eq_zero_of_le h]

/-- The line starts with `en` exactly when the name does and is not padded. -/
theorem en_prefix_iff :
    "en".toList <+: i.line.take 255 ↔ i.ethernet = true ∧ 6 ≤ i.name.length := by
  by_cases hpad : 6 ≤ i.name.length
  · have hname : i.name <+: i.line.take 255 := by
      refine List.prefix_take_iff.2 ⟨?_, i.length_le.trans (by simp)⟩
      rw [line, i.label_eq hpad, List.append_assoc]
      exact List.prefix_append ..
    simp only [ethernet, List.isPrefixOf_iff_prefix, hpad, and_true]
    constructor
    · exact fun h => List.prefix_of_prefix_length_le h hname (le_trans (by simp) hpad)
    · exact fun h => h.trans hname
  · -- a padded name has a blank in front of it
    simp only [hpad, and_false, iff_false]
    have hblank : i.line.take 255 = ' ' :: (i.line.take 255).tail := by
      obtain ⟨k, hk⟩ : ∃ k, 6 - i.name.length = k + 1 := ⟨5 - i.name.length, by omega⟩
      simp [line, label, List.leftpad, hk, List.replicate_succ]
    rw [hblank]
    intro h
    exact absurd (List.cons_prefix_cons.1 h).1 (by decide)

/-! ### Which lines match -/

end Interface

/-- The numeric conversions of the format. -/
def networkFields : List (Bool × ℕ) :=
  [(false, 64), (true, 32), (false, 64), (false, 64), (true, 32), (true, 32), (true, 32),
    (true, 32), (false, 64), (true, 32), (false, 64), (false, 64)]

theorem parse_networkFormat : parseFormat networkFormat =
    "en".toList.map .literal ++ .conv true .word :: fields networkFields := by
  decide +kernel

theorem networkLoopFormat : LoopFormat networkFormat 6 where
  numeric := by
    rw [parse_networkFormat]
    decide
  count := by
    rw [parse_networkFormat]
    rfl
  last := by
    refine ⟨(parseFormat networkFormat).dropLast, .unsigned 64, ?_⟩
    rw [parse_networkFormat]
    rfl

/-- A chunk that is taken starts with `en`. -/
theorem prefix_of_network_ret {chunk : List Char} (h : (sscanf chunk networkFormat).ret = 6) :
    "en".toList <+: chunk := by
  by_contra hstart
  have hnone : perform (parseFormat networkFormat) (chunk.takeWhile (·.toNat != 0)) = none := by
    rw [parse_networkFormat, perform_append, perform_literals, if_neg]
    · rfl
    · exact fun hen => hstart (hen.trans (List.takeWhile_prefix _))
  have hmatch := (networkLoopFormat.ret_iff_isSome chunk).1 h
  rw [hnone] at hmatch
  simp at hmatch

namespace Interface

variable (i : Interface)

/-- `%*s` skips the rest of the name and the colon. -/
theorem perform_label {row : List Char} (hen : i.ethernet = true) (hpad : 6 ≤ i.name.length)
    (hrow : row.head? = some ' ') :
    perform (parseFormat networkFormat) (i.label ++ row) = perform (fields networkFields) row := by
  obtain ⟨s, hs⟩ : "en".toList <+: i.name := List.isPrefixOf_iff_prefix.1 hen
  have hlabel : i.label = "en".toList ++ (s ++ [':']) := by
    rw [i.label_eq hpad, ← hs, List.append_assoc]
  have hword : ∀ c ∈ s ++ [':'], isSpace c = false := by
    intro c hc
    rcases List.mem_append.1 hc with hc | hc
    · exact i.no_space c (hs ▸ List.mem_append_right _ hc)
    · rw [List.mem_singleton.1 hc]
      rfl
  have hskip : (s ++ [':'] ++ row).dropWhile isSpace = s ++ [':'] ++ row := by
    cases s with
    | nil => simp [isSpace]
    | cons c s => simp [hword c (by simp)]
  have hspan := span_append (p := (!isSpace ·)) (s ++ [':']) row
    (by simp [hrow, isSpace])
  have hall : (s ++ [':']).dropWhile (!isSpace ·) = [] :=
    List.dropWhile_eq_nil_iff.2 fun c hc => by simp [hword c hc]
  have hconv : convert .word (s ++ [':'] ++ row) =
      .ok (.text ((s ++ [':']).takeWhile (!isSpace ·)), row) := by
    rw [convert_word_eq, hskip, if_neg (by simp), hspan.1, hspan.2, hall, List.nil_append]
  rw [parse_networkFormat, hlabel, List.append_assoc, perform_append, perform_literals,
    if_pos (List.prefix_append ..), Option.bind_some, List.drop_left, perform, hconv]
  cases h : perform (fields networkFields) row with
  | none => simp [h]
  | some r => simp [h]

theorem length_eleven : (i.cells.take 11).length = 11 := by
  simp [cells]

theorem head?_eleven (rest : List Char) :
    (columns (i.cells.take 11) ++ rest).head? = some ' ' := by
  have hne : i.cells.take 11 ≠ [] := by
    rw [← List.length_pos_iff, i.length_eleven]
    omega
  rw [List.head?_append, head?_columns hne, Option.some_or]

/-- **A line that matches**: the first eleven counters are read, and of the twelfth what can be
seen. -/
theorem chunk_of_recognised (h : i.recognised = true) :
    ∃ rest, perform (parseFormat networkFormat) (i.line.take 255) =
      some (storedFields networkFields
        ((i.cells.take 11).map (fun c => (c.2 : ℤ)) ++ [(i.visibleDrops : ℤ)]), rest) := by
  simp only [recognised, Bool.and_eq_true, decide_eq_true_eq] at h
  obtain ⟨⟨hen, hpad⟩, hlt⟩ := h
  let after : List Char := columns (i.cells.drop 12) ++ ['\n']
  let ds : List Char := (decimal (i.counter 11)).take (255 - i.beforeDrops.length)
  have hafter : EndsNumber after := endsNumber_columns _ (by simp [EndsNumber])
  have hds : ∀ c ∈ ds, c.isDigit = true := fun c hc =>
    isDigit_of_mem_decimal (List.mem_of_mem_take hc)
  have hne : ds ≠ [] := by
    intro hnil
    rcases List.take_eq_nil_iff.1 hnil with h | h
    · omega
    · exact absurd h (decimal_ne_nil _)
  obtain ⟨rest, hrest, hchunk⟩ : ∃ rest, EndsNumber rest ∧ i.line.take 255 =
      i.label ++ (columns (i.cells.take 11) ++
        (columnBlanks (counterWidths 11) (i.counter 11) ++ ds ++ rest)) := by
    refine ⟨after.take (255 - i.beforeDrops.length - (decimal (i.counter 11)).length),
      hafter.take _, ?_⟩
    rw [line_eq, List.take_append, List.take_of_length_le (by omega), List.take_append]
    simp [beforeDrops, ds, after]
  have hlength : networkFields.length = (i.cells.take 11).length + 1 := by
    rw [i.length_eleven]
    rfl
  refine ⟨rest, ?_⟩
  rw [hchunk, i.perform_label hen hpad (i.head?_eleven _), perform_fields, hlength,
    integersAt_columns, integersAt_digits 0 isSpace_of_mem_columnBlanks hne hds hrest]
  · rfl
  · intro c hc
    obtain rfl : ' ' = c := by simpa [columnBlanks] using hc
    rfl

/-- **A line that does not match.** -/
theorem chunk_of_not_recognised (h : i.recognised = false) :
    perform (parseFormat networkFormat) (i.line.take 255) = none := by
  by_cases hen : i.ethernet = true ∧ 6 ≤ i.name.length
  · have hlong : 255 ≤ i.beforeDrops.length := by
      by_contra hlt
      simp only [recognised, hen, Bool.true_and, decide_true, decide_eq_false_iff_not] at h
      exact h (by omega)
    have hlabel := i.length_label
    obtain ⟨m, hm⟩ : ∃ m, 255 - i.label.length = m + 1 := ⟨254 - i.label.length, by omega⟩
    have hchunk : i.line.take 255 = i.label ++ (columns (i.cells.take 11) ++
        columnBlanks (counterWidths 11) (i.counter 11)).take (m + 1) := by
      rw [line_eq, List.take_append_of_le_length hlong, beforeDrops, List.take_append, hm,
        List.take_of_length_le (by omega)]
    have hhead : ((columns (i.cells.take 11) ++
        columnBlanks (counterWidths 11) (i.counter 11)).take (m + 1)).head? = some ' ' := by
      rw [List.head?_take, if_neg (by omega), i.head?_eleven]
    have hlength : networkFields.length = (i.cells.take 11).length + 1 := by
      rw [i.length_eleven]
      rfl
    rw [hchunk, i.perform_label hen.1 hen.2 hhead, perform_fields, hlength,
      integersAt_cut _ isSpace_of_mem_columnBlanks]
    rfl
  · have hstart := (not_congr i.en_prefix_iff).2 hen
    rw [parse_networkFormat, perform_append, perform_literals, if_neg hstart]
    rfl

theorem visibleDrops_lt : i.visibleDrops < 2 ^ 64 := by
  have hle := digitsValue_take_le (decimal (i.counter 11)) (255 - i.beforeDrops.length)
  rw [digitsValue_decimal] at hle
  exact hle.trans_lt (i.counter_lt 11)

/-- What the loop stores when it takes a line. -/
theorem assign_of_recognised (h : i.recognised = true) (k : Fin 6) :
    assign (fun _ : Fin 6 => 0) (sscanf (i.line.take 255) networkFormat).stored k =
      i.visibleNumbers k := by
  obtain ⟨rest, hperform⟩ := i.chunk_of_recognised h
  have hcounter (k : Fin 16) : wrapped 64 (i.counter k) = i.counter k :=
    wrapped_of_lt (i.counter_lt k)
  have hdrops : wrapped 64 i.visibleDrops = i.visibleDrops := wrapped_of_lt i.visibleDrops_lt
  have hstored : (sscanf (i.line.take 255) networkFormat).stored =
      [.number (i.counter 0), .number (i.counter 2), .number (i.counter 3), .number (i.counter 8),
        .number (i.counter 10), .number i.visibleDrops] := by
    rw [sscanf, takeWhile_no_null fun c hc => i.no_null_line (List.mem_of_mem_take hc),
      scan_of_perform hperform]
    simp [cells, List.ofFn_succ, storedFields, networkFields, hcounter, hdrops]
  rw [hstored]
  fin_cases k <;> rfl

/-- The loop takes the first chunk of a line exactly when the interface is recognised. -/
theorem ret_iff : (sscanf (i.line.take 255) networkFormat).ret = 6 ↔ i.recognised = true := by
  refine (networkLoopFormat.ret_iff_isSome _).trans ?_
  rw [takeWhile_no_null fun c hc => i.no_null_line (List.mem_of_mem_take hc)]
  cases h : i.recognised with
  | true =>
      obtain ⟨rest, hperform⟩ := i.chunk_of_recognised h
      simp [hperform]
  | false => simp [i.chunk_of_not_recognised h]

/-- All numbers of a legible line can be seen. -/
theorem visibleNumbers_of_legible (h : i.legible = true) : i.visibleNumbers = i.numbers := by
  simp only [legible, Bool.and_eq_true, decide_eq_true_eq] at h
  have hdrops : i.visibleDrops = i.counter 11 := by
    rw [visibleDrops, List.take_of_length_le (by omega), digitsValue_decimal]
  rw [visibleNumbers, numbers, hdrops]

/-- **The numbers of a line that matches arrive exactly** when it is legible and they are doubles. -/
theorem toDouble_visibleNumbers_iff (h : i.recognised = true) :
    (∀ k, toDouble (i.visibleNumbers k) = i.numbers k) ↔
      i.legible = true ∧ ∀ k, IsDouble (i.numbers k) := by
  constructor
  · intro heq
    simp only [recognised, Bool.and_eq_true, decide_eq_true_eq] at h
    -- rounding does not make up for a digit that is missing
    have hlegible : i.legible = true := by
      have htwo : (i.counter 11 : ℚ) ≤ 2 * i.visibleDrops :=
        (heq 5).symm.trans_le (toDouble_le_two_mul (Nat.cast_nonneg _))
      have hlength := length_decimal_le_of_le (Nat.sub_pos_of_lt h.2) (by exact_mod_cast htwo)
      simp only [legible, h.1.2, decide_true, Bool.true_and, decide_eq_true_eq]
      omega
    rw [i.visibleNumbers_of_legible hlegible] at heq
    exact ⟨hlegible, fun k => (toDouble_eq_self_iff (Nat.cast_nonneg _)).1 (heq k)⟩
  · rintro ⟨hlegible, hdouble⟩ k
    rw [i.visibleNumbers_of_legible hlegible]
    exact toDouble_of_isDouble (hdouble k) (Nat.cast_nonneg _)

theorem recognised_of_legible (hen : i.ethernet = true) (h : i.legible = true) :
    i.recognised = true := by
  simp only [legible, Bool.and_eq_true, decide_eq_true_eq] at h
  have hdigits := List.length_pos_iff.2 (decimal_ne_nil (i.counter 11))
  have hlt : i.beforeDrops.length < 255 := by omega
  simp [recognised, hen, h.1, hlt]

theorem ethernet_of_recognised (h : i.recognised = true) : i.ethernet = true := by
  simp only [recognised, Bool.and_eq_true] at h
  exact h.1.1

end Interface

/-! ### The result -/

/-- A header line is short and does not start with `e`. -/
theorem netDevHeader_short : (netDevHeader.all fun line =>
    line.length ≤ 255 && line.head? != some 'e' && !line.dropLast.contains '\n') = true := by
  decide +kernel

theorem header_spec {line : List Char} (h : line ∈ netDevHeader) :
    IsLine line ∧ line.length ≤ 255 ∧ ¬ "en".toList <+: line := by
  have hshort := List.all_eq_true.1 netDevHeader_short line h
  simp only [Bool.and_eq_true, decide_eq_true_eq, bne_iff_ne, ne_eq, Bool.not_eq_true',
    List.contains_eq_mem, decide_eq_false_iff_not] at hshort
  obtain ⟨⟨hlength, hhead⟩, hnewline⟩ := hshort
  refine ⟨⟨line.dropLast, hnewline, ?_⟩, hlength, ?_⟩
  · rcases List.mem_cons.1 h with rfl | h
    · exact (congrArg (· ++ ['\n']) List.dropLast_concat).symm
    · rw [List.mem_singleton.1 h]
      exact (congrArg (· ++ ['\n']) List.dropLast_concat).symm
  · rintro ⟨rest, rfl⟩
    exact hhead rfl

/-- **The result of `get_network_usage` on the file of any interfaces**: what can be seen of the
first interface that the format matches. -/
theorem getNetworkUsage_netDev (fl : ℚ → ℚ) (interfaces : List Interface) :
    getNetworkUsage fl (some (netDev interfaces)) =
      (interfaces.find? Interface.recognised).map fun i k => fl (i.visibleNumbers k) := by
  let taken : List Char → Bool := fun b => (sscanf b networkFormat).ret = 6
  have hlines : ∀ line ∈ netDevHeader ++ interfaces.map Interface.line, IsLine line := by
    intro line hline
    rcases List.mem_append.1 hline with hline | hline
    · exact (header_spec hline).1
    · obtain ⟨i, -, rfl⟩ := List.mem_map.1 hline
      exact i.isLine_line
  -- no further chunk of a line starts with a letter
  have hrest : ∀ line ∈ netDevHeader ++ interfaces.map Interface.line, ∀ chunk,
      (∀ c ∈ chunk, c ∈ line.drop 255) → taken chunk = false := by
    intro line hline chunk hchunk
    refine decide_eq_false fun hret => ?_
    have he : 'e' ∈ chunk := (prefix_of_network_ret hret).subset (by simp)
    rcases List.mem_append.1 hline with hline | hline
    · have hmem := hchunk 'e' he
      rw [List.drop_eq_nil_of_le (header_spec hline).2.1] at hmem
      simp at hmem
    · obtain ⟨i, -, rfl⟩ := List.mem_map.1 hline
      exact i.mem_drop_line (hchunk 'e' he) rfl
  have hheader : (netDevHeader.map (List.take 255)).find? taken = none := by
    rw [List.find?_eq_none]
    intro chunk hchunk htaken
    obtain ⟨line, hline, rfl⟩ := List.mem_map.1 hchunk
    have hstart := prefix_of_network_ret (of_decide_eq_true htaken)
    exact (header_spec hline).2.2 (hstart.trans (List.take_prefix _ _))
  have htaken : taken ∘ List.take 255 ∘ Interface.line = Interface.recognised := by
    funext i
    exact Bool.eq_iff_iff.2 (decide_eq_true_iff.trans i.ret_iff)
  have hfind := find?_fgetsAll 254 taken hlines hrest
  rw [List.map_append, List.find?_append, hheader, Option.none_or, List.map_map,
    List.find?_map, htaken] at hfind
  rw [getNetworkUsage_eq, netDev]
  refine (congrArg _ hfind).trans ?_
  rw [Option.map_map]
  refine Option.map_congr fun i hi => ?_
  funext k
  exact congrArg (fun n : ℕ => fl n) (i.assign_of_recognised (List.find?_some hi) k)

/-- The result that is meant: the six counters of the first Ethernet interface. -/
def ethernetUsage (interfaces : List Interface) : Option (Fin 6 → ℚ) :=
  (interfaces.find? Interface.ethernet).map fun i k => i.numbers k

/-- **When the result is that of the first Ethernet interface**: exactly when there is none, or its
line is legible and its six counters are doubles, or its line does not match and the first one that
does happens to show the same six numbers, up to rounding. -/
theorem networkUsage_iff (interfaces : List Interface) :
    getNetworkUsage toDouble (some (netDev interfaces)) = ethernetUsage interfaces ↔
      ∀ i, interfaces.find? Interface.ethernet = some i →
        i.legible = true ∧ (∀ k, IsDouble (i.numbers k)) ∨
        i.recognised = false ∧ ∃ j, interfaces.find? Interface.recognised = some j ∧
          ∀ k, toDouble (j.visibleNumbers k) = i.numbers k := by
  rw [getNetworkUsage_netDev, ethernetUsage]
  cases hethernet : interfaces.find? Interface.ethernet with
  | none =>
      have hnone : interfaces.find? Interface.recognised = none := by
        rw [List.find?_eq_none] at hethernet ⊢
        exact fun i hi hrecognised => hethernet i hi (i.ethernet_of_recognised hrecognised)
      simp [hnone]
  | some i =>
      cases hrecognised : i.recognised with
      | true =>
          have hfirst : interfaces.find? Interface.recognised = some i :=
            find?_of_imp (fun j => j.ethernet_of_recognised) hethernet hrecognised
          simp [hfirst, hrecognised, ← i.toDouble_visibleNumbers_iff hrecognised, funext_iff]
      | false =>
          have hillegible : i.legible = false := by
            by_contra hlegible
            rw [Bool.not_eq_false] at hlegible
            rw [i.recognised_of_legible (List.find?_some hethernet) hlegible] at hrecognised
            simp at hrecognised
          simp [hrecognised, hillegible, Option.map_eq_some_iff, funext_iff]

/-- An on-board interface that has transmitted nothing so far. -/
def eno1 : Interface where
  name := "eno1".toList
  counters := ![52, 1, 0, 0, 0, 0, 0, 0, 0, 0, 0, 0, 0, 0, 0, 0]
  length_le := by simp
  no_space := by simp [isSpace]
  no_null := by simp

/-- Its name is padded, so it is not found. -/
theorem networkUsage_eno1 :
    ¬ ∀ interfaces, getNetworkUsage toDouble (some (netDev interfaces)) =
      ethernetUsage interfaces := by
  intro h
  have hrecognised : eno1.recognised = false := rfl
  have hethernet : eno1.ethernet = true := rfl
  have heq := h [eno1]
  rw [getNetworkUsage_netDev, ethernetUsage] at heq
  simp [hrecognised, hethernet] at heq

end Monitor
