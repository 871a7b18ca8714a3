/-
**`get_disk_usage` on `/proc/diskstats`.**

The kernel prints a row for each block device and partition: major and minor number, the name and
the counters.  The format of `get_disk_usage` names the device with the literal `sda`, and the
blank after it may match nothing: in the row of `sda1` the digit of the name is read as the first
counter, and every later counter as the one before it.

* `Monitor.diskstats` — the file;
* `Monitor.Device.recognised`, `Monitor.Device.readNumbers` — **which rows match**, and the four
  numbers that are read from them;
* `Monitor.getDiskUsage_eq` — **the specification of `get_disk_usage`**: the first chunk that
  matches decides;
* `Monitor.getDiskUsage_diskstats` — the result on the file of any devices;
* `Monitor.diskUsage_iff` — **when the numbers are those of `sda`**.
-/

import MetricsMonitor.Metrics
import MetricsMonitor.Columns
import MetricsMonitor.ScanLoop
import MetricsMonitor.FloatingPoint

set_option relaxedAutoImplicit false
set_option autoImplicit false

namespace Monitor

open FormattedInput FloatingPoint

/-! ### The file -/

/-- A block device or partition.  The kernel allows names of up to 31 bytes; it prints eleven
counters or more. -/
structure Device where
  major : UInt32
  minor : UInt32
  name : List Char
  counters : List UInt64
  name_ne_nil : name ≠ []
  length_le : name.length ≤ 31
  no_space : ∀ c ∈ name, isSpace c = false
  no_null : ∀ c ∈ name, c.toNat ≠ 0
  eight_le : 8 ≤ counters.length

namespace Device

/-- The numbers in front of the name, and the blank after them. -/
def head (d : Device) : List Char :=
  (decimal d.major.toNat).leftpad 4 ' ' ++ (column 7 d.minor.toNat ++ [' '])

/-- The counters, printed without a minimum width. -/
def cells (d : Device) : List (ℕ × ℕ) := d.counters.map fun c => (0, c.toNat)

/-- The row of a device. -/
def line (d : Device) : List Char := d.head ++ (d.name ++ (columns d.cells ++ ['\n']))

end Device

/-- `/proc/diskstats`. -/
def diskstats (devices : List Device) : List Char := (devices.map Device.line).flatten

/-! ### What the documentation and the format are about -/

/-- The columns of sectors read, time spent reading, sectors written, time spent writing. -/
def diskColumn : Fin 4 → ℕ := ![2, 3, 6, 7]

/-- The two quotients, rounded as `fl` says, unless one of the four numbers is zero. -/
def diskQuotients (fl : ℚ → ℚ) (v : Fin 4 → ℕ) : Option (Fin 2 → ℚ) :=
  if v 0 = 0 ∨ v 1 = 0 ∨ v 2 = 0 ∨ v 3 = 0 then none
  else some ![fl (fl (v 0) / fl (v 1)), fl (fl (v 2) / fl (v 3))]

namespace Device

/-- The disk of the laptop. -/
def isSda (d : Device) : Bool := d.name == "sda".toList

/-- The four numbers of a device. -/
def numbers (d : Device) (k : Fin 4) : ℕ := (d.counters.map UInt64.toNat).getD (diskColumn k) 0

/-- The integers that follow `sda` in a name, up to eight of them. -/
def nameIntegers (d : Device) : Option (List ℤ) := integersOf 8 (d.name.drop 3)

/-- The format matches the row: the name is `sda` and numbers. -/
def recognised (d : Device) : Bool := "sda".toList.isPrefixOf d.name && d.nameIntegers.isSome

/-- The numbers that are read from the row: those of the name come first. -/
def readNumbers (d : Device) (k : Fin 4) : ℕ :=
  wrapped 64 ((d.nameIntegers.getD [] ++ d.counters.map fun c => (c.toNat : ℤ)).getD
    (diskColumn k) 0)

end Device

/-- The result that is meant: the quotients of the row named `sda`. -/
def sdaUsage (fl : ℚ → ℚ) (devices : List Device) : Option (Fin 2 → ℚ) :=
  (devices.find? Device.isSda).bind fun d => diskQuotients fl d.numbers

/-! ### The loop -/

/-- The format of a row. -/
def diskFormat : String := "%*u       %*u sda %*u %*u %llu %llu %*u %*u %llu %llu"

/-- The beginning of the format: major and minor number. -/
def diskHead : List Directive :=
  .conv true (.unsigned 32) :: (List.replicate 7 .space ++ [.conv true (.unsigned 32), .space])

/-- The numeric conversions of the format. -/
def diskFields : List (Bool × ℕ) :=
  [(true, 32), (true, 32), (false, 64), (false, 64), (true, 32), (true, 32), (false, 64),
    (false, 64)]

theorem parse_diskFormat :
    parseFormat diskFormat = diskHead ++ ("sda".toList.map .literal ++ fields diskFields) := by
  decide +kernel

theorem diskLoopFormat : LoopFormat diskFormat 4 where
  numeric := by
    rw [parse_diskFormat]
    decide
  count := by
    rw [parse_diskFormat]
    rfl
  last := by
    refine ⟨(parseFormat diskFormat).dropLast, .unsigned 64, ?_⟩
    rw [parse_diskFormat]
    rfl

/-- The chunk at which the loop ends, if it does so before the end of the file. -/
def diskChunk (content : List Char) : Option (List Char) :=
  (fgetsAll bufferSize content).find? fun b => (sscanf b diskFormat).ret = 4

/-- **The specification of `get_disk_usage`**: the numbers are those of the first chunk that
matches the whole format.  Without one the last variable is still zero. -/
theorem getDiskUsage_eq (fl : ℚ → ℚ) (content : List Char) :
    getDiskUsage fl (some content) =
      (diskChunk content).bind fun b =>
        diskQuotients fl (assign (fun _ => 0) (sscanf b diskFormat).stored) := by
  have hloop := scanLoop_of_complete diskFormat diskLoopFormat.pos diskLoopFormat.numeric
    (fun _ => 0) (fgetsAll bufferSize content)
  have hchunk : ((fgetsAll bufferSize content).find? fun b => (sscanf b diskFormat).ret = (4 : ℕ)) =
      diskChunk content := rfl
  have husage : getDiskUsage fl (some content) =
      diskQuotients fl (scanLoop diskFormat 4 (fun _ => 0) (fgetsAll bufferSize content)).2 := rfl
  rw [hchunk] at hloop
  rw [husage]
  cases hb : diskChunk content with
  | some b =>
      rw [hb] at hloop
      rw [hloop]
      rfl
  | none =>
      have hret : ∀ b ∈ fgetsAll bufferSize content, (sscanf b diskFormat).ret ≠ (4 : ℕ) :=
        fun b hmem heq => List.find?_eq_none.1 hb b hmem (decide_eq_true heq)
      have hlast := diskLoopFormat.scanLoop_last (i := 3) rfl (fun _ => 0) hret
      exact if_pos (Or.inr (Or.inr (Or.inr hlast)))

/-! ### The row -/

namespace Device

variable (d : Device)

theorem length_head : d.head.length ≤ 22 := by
  have hmajor : (decimal d.major.toNat).length ≤ 10 :=
    length_decimal_le (by simp) (d.major.toNat_lt.trans (by norm_num))
  have hminor : (column 7 d.minor.toNat).length ≤ max 7 10 + 1 :=
    length_column_le (by simp) (d.minor.toNat_lt.trans (by norm_num))
  simp only [head, List.length_append, List.length_leftpad, List.length_singleton]
  omega

theorem mem_head {c : Char} (h : c ∈ d.head) : c.isDigit = true ∨ c = ' ' := by
  simp only [head, List.leftpad, column, List.mem_append, List.mem_replicate,
    List.mem_singleton] at h
  rcases h with (h | h) | (h | h) | h
  · exact Or.inr h.2
  · exact Or.inl (isDigit_of_mem_decimal h)
  · exact Or.inr (mem_columnBlanks h)
  · exact Or.inl (isDigit_of_mem_decimal h)
  · exact Or.inr h

theorem line_eq : d.line = (d.head ++ d.name) ++ (columns d.cells ++ ['\n']) :=
  (List.append_assoc ..).symm

theorem isLine_line : IsLine d.line := by
  rw [line_eq]
  refine isLine_row (fun h => ?_) d.cells
  rcases List.mem_append.1 h with h | h
  · rcases d.mem_head h with h | h
    · simp at h
    · simp at h
  · have hspace := d.no_space _ h
    simp [isSpace] at hspace

theorem no_null_line {c : Char} (h : c ∈ d.line) : c.toNat ≠ 0 := by
  rw [line_eq] at h
  rcases List.mem_append.1 h with h | h
  · rcases List.mem_append.1 h with h | h
    · rcases d.mem_head h with h | rfl
      · exact toNat_ne_zero_of_isDigit h
      · simp
    · exact d.no_null c h
  · rcases mem_row h with h | rfl | rfl
    · exact toNat_ne_zero_of_isDigit h
    · simp
    · simp

/-- What does not fit in the first chunk is digits and white space. -/
theorem mem_drop_line {c : Char} (h : c ∈ d.line.drop 255) : c ≠ 's' := by
  have hhead := d.length_head
  have hname := d.length_le
  rw [line_eq] at h
  rcases mem_drop_row (by rw [List.length_append]; omega) h with h | rfl | rfl
  · rintro rfl
    simp at h
  · simp
  · simp

/-- **The first eight counters stand in the first chunk of a row.** -/
theorem take_line : ∃ rest, EndsNumber rest ∧
    d.line.take 255 = d.head ++ (d.name ++ (columns (d.cells.take 8) ++ rest)) := by
  let after : List Char := columns (d.cells.drop 8) ++ ['\n']
  have hafter : EndsNumber after := endsNumber_columns _ (by simp [EndsNumber])
  have hline : d.line = (d.head ++ (d.name ++ columns (d.cells.take 8))) ++ after := by
    simp only [line, after, List.append_assoc]
    rw [← List.append_assoc (columns _) (columns _), ← columns_append, List.take_append_drop]
  have hcell : ∀ c ∈ d.cells.take 8, (column c.1 c.2).length ≤ 21 := by
    intro c hc
    obtain ⟨n, -, rfl⟩ := List.mem_map.1 (List.mem_of_mem_take hc)
    exact length_column_le (k := 20) (by simp) (n.toNat_lt.trans (by norm_num))
  have hcolumns := length_columns_le hcell
  have height : (d.cells.take 8).length ≤ 8 := List.length_take_le ..
  have hhead := d.length_head
  have hname := d.length_le
  refine ⟨after.take (255 - (d.head ++ (d.name ++ columns (d.cells.take 8))).length),
    hafter.take _, ?_⟩
  rw [hline, List.take_append, List.take_of_length_le]
  · simp
  · simp only [List.length_append]
    omega

end Device

/-! ### Which rows match -/

namespace Device

variable (d : Device)

/-- The beginning of the format skips everything in front of the name. -/
theorem perform_head {text : List Char} (htext : ∀ c ∈ text.head?, isSpace c = false) :
    perform diskHead (d.head ++ text) = some ([], text) := by
  let pad : List Char := List.replicate (4 - (decimal d.major.toNat).length) ' '
  let minor : List Char := columnBlanks 7 d.minor.toNat ++ decimal d.minor.toNat ++ ' ' :: text
  have hpad : ∀ c ∈ pad, isSpace c = true := fun c hc => by
    rw [List.eq_of_mem_replicate hc]
    rfl
  have hmajor : convert (.unsigned 32) (pad ++ decimal d.major.toNat ++ minor) = .ok (_, minor) :=
    convert_decimal 32 _ hpad (by simp [EndsNumber, minor, columnBlanks])
  have hminor : convert (.unsigned 32) minor = .ok (_, ' ' :: text) :=
    convert_decimal 32 _ isSpace_of_mem_columnBlanks (by simp [EndsNumber])
  have hskip : (' ' :: text).dropWhile isSpace = text := by
    rw [List.dropWhile_cons_of_pos (by simp [isSpace])]
    exact dropWhile_blanks (List.forall_mem_nil _) htext
  have hhead : d.head ++ text = pad ++ decimal d.major.toNat ++ minor := by
    simp [head, List.leftpad, column, pad, minor]
  rw [hhead, diskHead, perform, hmajor]
  simp only [List.replicate, List.cons_append, List.nil_append, perform,
    List.dropWhile_idempotent, convert_unsigned_dropWhile, hminor, hskip]
  rfl

/-- The integers of the row: those of the name, if there are any, and the counters. -/
theorem integersAt_row {rest : List Char} (hrest : EndsNumber rest) :
    (integersAt 8 (d.name.drop 3 ++ (columns (d.cells.take 8) ++ rest))).map Prod.fst =
      d.nameIntegers.map fun zs => (zs ++ d.counters.map fun c => (c.toNat : ℤ)).take 8 := by
  have hword : ∀ c ∈ d.name.drop 3, isSpace c = false :=
    fun c hc => d.no_space c (List.mem_of_mem_drop hc)
  have height : 8 ≤ (d.cells.take 8).length := by
    have hlength := d.eight_le
    simp only [cells, List.length_take, List.length_map]
    omega
  have hcells : (d.cells.take 8).map (fun c => (c.2 : ℤ)) =
      (d.counters.map fun c => (c.toNat : ℤ)).take 8 := by
    simp [cells, List.map_take, Function.comp_def]
  rw [integersAt_attached 8 hword height hrest, hcells, nameIntegers]
  congr 1
  funext zs
  rw [List.take_append, List.take_append, List.take_take, Nat.min_eq_left (Nat.sub_le _ _)]

theorem head?_name (text : List Char) : ∀ c ∈ (d.name ++ text).head?, isSpace c = false := by
  obtain ⟨a, s, hname⟩ := List.exists_cons_of_ne_nil d.name_ne_nil
  intro c hc
  obtain rfl : a = c := by simpa [hname] using hc
  exact d.no_space a (hname ▸ List.mem_cons_self ..)

theorem head?_row (rest : List Char) :
    (columns (d.cells.take 8) ++ rest).head? = some ' ' := by
  have hne : d.cells.take 8 ≠ [] := by
    have hlength := d.eight_le
    rw [← List.length_pos_iff]
    simp only [cells, List.length_take, List.length_map]
    omega
  rw [List.head?_append, head?_columns hne, Option.some_or]

/-- **What is read from a row.** -/
theorem perform_row :
    (perform (parseFormat diskFormat) (d.line.take 255)).map Prod.fst =
      if "sda".toList.isPrefixOf d.name then
        d.nameIntegers.map fun zs => storedFields diskFields
          ((zs ++ d.counters.map fun c => (c.toNat : ℤ)).take 8)
      else none := by
  obtain ⟨rest, hrest, hchunk⟩ := d.take_line
  have hstart := prefix_append_iff (s := "sda".toList) (t := d.name) (by simp [isSpace])
    (d.head?_row rest)
  rw [parse_diskFormat, hchunk, perform_append, d.perform_head (d.head?_name _),
    Option.bind_some,
    perform_append, perform_literals]
  by_cases hsda : "sda".toList <+: d.name
  · have hthree : (d.name ++ (columns (d.cells.take 8) ++ rest)).drop "sda".toList.length =
        d.name.drop 3 ++ (columns (d.cells.take 8) ++ rest) :=
      List.drop_append_of_le_length hsda.length_le
    have hread := d.integersAt_row hrest
    have hlength : diskFields.length = 8 := rfl
    rw [if_pos (hstart.2 hsda), Option.bind_some, hthree, perform_fields, hlength,
      if_pos (List.isPrefixOf_iff_prefix.2 hsda)]
    have hstored := congrArg (Option.map (storedFields diskFields)) hread
    simpa [Function.comp_def] using hstored
  · rw [if_neg (hstart.not.2 hsda), if_neg (List.isPrefixOf_iff_prefix.not.2 hsda)]
    rfl

/-- The loop takes the first chunk of a row exactly when it is recognised. -/
theorem ret_iff : (sscanf (d.line.take 255) diskFormat).ret = 4 ↔ d.recognised = true := by
  refine (diskLoopFormat.ret_iff_isSome _).trans ?_
  rw [takeWhile_no_null fun c hc => d.no_null_line (List.mem_of_mem_take hc),
    ← Option.isSome_map (f := Prod.fst), d.perform_row, recognised]
  cases "sda".toList.isPrefixOf d.name with
  | true => simp
  | false => simp

/-- What the loop stores when it takes a row. -/
theorem assign_of_recognised (h : d.recognised = true) :
    assign (fun _ : Fin 4 => 0) (sscanf (d.line.take 255) diskFormat).stored = d.readNumbers := by
  obtain ⟨hsda, hsome⟩ := Bool.and_eq_true_iff.1 h
  obtain ⟨zs, hzs⟩ := Option.isSome_iff_exists.1 hsome
  have hrow := d.perform_row
  rw [if_pos hsda, hzs, Option.map_some] at hrow
  obtain ⟨⟨vs, rest⟩, hperform, hvs⟩ := Option.map_eq_some_iff.1 hrow
  obtain rfl : vs = _ := hvs
  have hstored : (sscanf (d.line.take 255) diskFormat).stored = storedFields diskFields
      ((zs ++ d.counters.map fun c => (c.toNat : ℤ)).take 8) := by
    rw [sscanf, takeWhile_no_null fun c hc => d.no_null_line (List.mem_of_mem_take hc),
      scan_of_perform hperform]
  -- at least eight integers stand in the row
  have hlength : 8 ≤ (zs ++ d.counters.map fun c => (c.toNat : ℤ)).length := by
    have height := d.eight_le
    simp only [List.length_append, List.length_map]
    omega
  rw [hstored, take_eq_ofFn hlength 0]
  funext k
  rw [readNumbers, hzs, Option.getD_some]
  fin_cases k <;> rfl

theorem recognised_of_isSda (h : d.isSda = true) : d.recognised = true := by
  have hname : d.name = "sda".toList := eq_of_beq h
  simp [recognised, nameIntegers, hname, integersOf]

/-- Nothing is shifted in the row of `sda`. -/
theorem readNumbers_of_isSda (h : d.isSda = true) : d.readNumbers = d.numbers := by
  have hname : d.name = "sda".toList := eq_of_beq h
  have hintegers : d.nameIntegers = some [] := by
    simp [nameIntegers, hname, integersOf]
  funext k
  simp only [readNumbers, numbers, hintegers, Option.getD_some, List.nil_append,
    List.getD_eq_getElem?_getD, List.getElem?_map]
  cases d.counters[diskColumn k]? with
  | none => rfl
  | some c => exact wrapped_of_lt c.toNat_lt

variable {d}

/-- The name of a device can be read off the first chunk of its row. -/
theorem name_eq_of_take_line {e : Device} (h : d.line.take 255 = e.line.take 255) :
    d.name = e.name := by
  have hread (a : Device) : ∃ row, row.head? = some ' ' ∧
      perform diskHead (a.line.take 255) = some ([], a.name ++ row) := by
    obtain ⟨rest, hrest, hchunk⟩ := a.take_line
    exact ⟨_, a.head?_row rest, hchunk ▸ a.perform_head (a.head?_name _)⟩
  have hspan (a : Device) {row : List Char} (hrow : row.head? = some ' ') :
      (a.name ++ row).takeWhile (!isSpace ·) = a.name := by
    rw [(span_append a.name row (by simp [hrow, isSpace])).1]
    exact List.takeWhile_eq_self_iff.2 fun c hc => by simp [a.no_space c hc]
  obtain ⟨row, hrow, hd⟩ := hread d
  obtain ⟨row', hrow', he⟩ := hread e
  rw [h, he] at hd
  have htext : e.name ++ row' = d.name ++ row := congrArg Prod.snd (Option.some_inj.1 hd)
  rw [← hspan d hrow, ← htext, hspan e hrow']

end Device

/-! ### The result -/

/-- **Where the loop ends**: at the row of the first device that the format matches. -/
theorem diskChunk_diskstats (devices : List Device) :
    diskChunk (diskstats devices) =
      (devices.find? Device.recognised).map fun d => d.line.take 255 := by
  let taken : List Char → Bool := fun b => (sscanf b diskFormat).ret = 4
  have hlines : ∀ line ∈ devices.map Device.line, IsLine line := by
    intro line hline
    obtain ⟨d, -, rfl⟩ := List.mem_map.1 hline
    exact d.isLine_line
  -- the literal `sda` does not stand in the further chunks of a row
  have hrest : ∀ line ∈ devices.map Device.line, ∀ chunk, (∀ c ∈ chunk, c ∈ line.drop 255) →
      taken chunk = false := by
    intro line hline chunk hchunk
    obtain ⟨d, -, rfl⟩ := List.mem_map.1 hline
    refine decide_eq_false fun hret => ?_
    have hs : .literal 's' ∈ parseFormat diskFormat := by
      rw [parse_diskFormat]
      simp
    have hmatch := (diskLoopFormat.ret_iff_isSome chunk).1 hret
    have hmem := (List.takeWhile_prefix _).subset (mem_of_perform hs hmatch)
    exact d.mem_drop_line (hchunk 's' hmem) rfl
  have htaken : taken ∘ List.take 255 ∘ Device.line = Device.recognised := by
    funext d
    exact Bool.eq_iff_iff.2 (decide_eq_true_iff.trans d.ret_iff)
  have hfind := find?_fgetsAll 254 taken hlines hrest
  rw [List.map_map, List.find?_map, htaken] at hfind
  exact hfind

/-- **The result of `get_disk_usage` on the file of any devices.** -/
theorem getDiskUsage_diskstats (fl : ℚ → ℚ) (devices : List Device) :
    getDiskUsage fl (some (diskstats devices)) =
      (devices.find? Device.recognised).bind fun d => diskQuotients fl d.readNumbers := by
  rw [getDiskUsage_eq, diskChunk_diskstats]
  cases hfind : devices.find? Device.recognised with
  | none => rfl
  | some d =>
      have hassign := d.assign_of_recognised (List.find?_some hfind)
      simp only [Option.map_some, Option.bind_some, hassign]

/-- Without a row that matches there is no row of `sda`. -/
theorem sdaUsage_of_not_recognised (fl : ℚ → ℚ) {devices : List Device}
    (h : devices.find? Device.recognised = none) : sdaUsage fl devices = none := by
  have hnone : devices.find? Device.isSda = none := by
    rw [List.find?_eq_none] at h ⊢
    exact fun d hd hsda => h d hd (d.recognised_of_isSda hsda)
  rw [sdaUsage, hnone]
  rfl

/-- A row of `sda` that is the first to match is the first row of `sda`, and nothing is shifted in
it. -/
theorem sdaUsage_of_recognised (fl : ℚ → ℚ) {devices : List Device} {d : Device}
    (h : devices.find? Device.recognised = some d) (hsda : d.isSda = true) :
    sdaUsage fl devices = diskQuotients fl d.readNumbers := by
  have hfirst : devices.find? Device.isSda = some d :=
    find?_of_imp (fun e => e.recognised_of_isSda) h hsda
  rw [sdaUsage, hfirst, Option.bind_some, d.readNumbers_of_isSda hsda]

/-- The result is the one that is meant, and when it is not an error, the row its numbers are from
is named `sda`. -/
structure OnlySda (fl : ℚ → ℚ) (devices : List Device) : Prop where
  result : getDiskUsage fl (some (diskstats devices)) = sdaUsage fl devices
  source : ∀ u chunk, getDiskUsage fl (some (diskstats devices)) = some u →
    diskChunk (diskstats devices) = some chunk →
      ∃ d ∈ devices, d.isSda = true ∧ chunk = d.line.take 255

/-- **When the numbers are those of `sda`**: exactly when the first row that the format matches is
named `sda`, or neither it nor the row of `sda`, if there is one, has four numbers other than
zero.  This does not depend on the rounding. -/
theorem diskUsage_iff (fl : ℚ → ℚ) (devices : List Device) :
    OnlySda fl devices ↔ ∀ d, devices.find? Device.recognised = some d →
      d.isSda = true ∨ diskQuotients fl d.readNumbers = none ∧ sdaUsage fl devices = none := by
  have hresult := getDiskUsage_diskstats fl devices
  have hchunk := diskChunk_diskstats devices
  constructor
  · rintro ⟨heq, hsource⟩ d hfind
    rw [hfind, Option.bind_some] at hresult
    rw [hfind, Option.map_some] at hchunk
    cases hquotients : diskQuotients fl d.readNumbers with
    | none =>
        rw [hquotients] at hresult
        exact Or.inr ⟨rfl, heq.symm.trans hresult⟩
    | some u =>
        obtain ⟨e, -, hsda, hline⟩ := hsource u _ (hresult.trans hquotients) hchunk
        have hname := Device.name_eq_of_take_line hline
        left
        rw [Device.isSda, hname]
        exact hsda
  · intro hcond
    cases hfind : devices.find? Device.recognised with
    | none =>
        rw [hfind] at hresult
        refine ⟨hresult.trans (sdaUsage_of_not_recognised fl hfind).symm, fun u chunk hu => ?_⟩
        rw [hresult] at hu
        simp at hu
    | some d =>
        rw [hfind, Option.bind_some] at hresult
        rw [hfind, Option.map_some] at hchunk
        rcases hcond d hfind with hsda | ⟨hquotients, hnone⟩
        · refine ⟨hresult.trans (sdaUsage_of_recognised fl hfind hsda).symm, fun u chunk _ hc => ?_⟩
          exact ⟨d, List.mem_of_find?_eq_some hfind, hsda,
            (Option.some_inj.1 (hchunk.symm.trans hc)).symm⟩
        · refine ⟨hresult.trans (hquotients.trans hnone.symm), fun u chunk hu => ?_⟩
          rw [hresult, hquotients] at hu
          simp at hu

/-- A partition without the row of its disk. -/
def sda1 : Device where
  major := 8
  minor := 1
  name := "sda1".toList
  counters := [100, 5, 800, 40, 60, 3, 480, 30, 0, 70, 70]
  name_ne_nil := by simp
  length_le := by simp
  no_space := by simp [isSpace]
  no_null := by simp
  eight_le := by simp

/-- Its numbers are returned, shifted by one column. -/
theorem diskUsage_sda1 : ¬ ∀ devices, OnlySda toDouble devices := by
  intro h
  have hresult := (h [sda1]).result
  rw [getDiskUsage_diskstats] at hresult
  have hread : (([sda1].find? Device.recognised).bind fun d =>
      diskQuotients toDouble d.readNumbers).isSome = true := by decide +kernel
  have hmeant : sdaUsage toDouble [sda1] = none := by decide +kernel
  rw [hresult, hmeant] at hread
  simp at hread

end Monitor
