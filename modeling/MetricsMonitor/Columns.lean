/-
**Files made of lines, and numbers in columns.**

The tables of the kernel are files of lines; a line ends in a newline and holds decimal numbers
padded to a minimum width.  `fgets` delivers the beginning of a line as one chunk and what does not
fit in the buffer as further chunks, and a number that stands across the end of a chunk is cut.

Main definitions:

* `FormattedInput.IsLine` — a text whose only newline is its last character;
* `FormattedInput.column`, `FormattedInput.columns` — a number, and a row of numbers, as printed;
* `FormattedInput.fields` — a row of numeric conversions in a format;
* `FormattedInput.integersAt` — the integers a text starts with.

Main results:

* `FormattedInput.find?_fgetsAll` — **searching the chunks of a file of lines**, when nothing is
  found in the chunks that continue a line;
* `FormattedInput.mem_of_perform` — a literal character of a format stands in every text that
  matches;
* `FormattedInput.perform_fields` — a row of conversions reads the integers of a text;
* `FormattedInput.integersAt_columns`, `FormattedInput.integersAt_cut` — **a row of numbers is read
  back**, and a row that is cut before the digits of its last number is not;
* `FormattedInput.integersAt_attached` — reading begins inside a word that ends in front of a row.
-/

import MetricsMonitor.FormatMatching

set_option relaxedAutoImplicit false
set_option autoImplicit false

namespace FormattedInput

/-! ### Lines -/

/-- A line: the only newline is the last character. -/
def IsLine (line : List Char) : Prop := ∃ body, '\n' ∉ body ∧ line = body ++ ['\n']

theorem fgetsFrom_append (size room : ℕ) (acc text rest : List Char) :
    fgetsFrom size room acc (text ++ '\n' :: rest) =
      fgetsFrom size room acc (text ++ ['\n']) ++ fgetsAll size rest := by
  induction text generalizing room acc with
  | nil => simp [fgetsFrom, fgetsAll]
  | cons c text ih =>
      simp only [List.cons_append, fgetsFrom]
      split
      · rw [ih, List.cons_append]
      · exact ih ..

/-- The chunks of a line and of what follows it. -/
theorem fgetsAll_append (size : ℕ) {line : List Char} (hline : IsLine line) (rest : List Char) :
    fgetsAll size (line ++ rest) = fgetsAll size line ++ fgetsAll size rest := by
  obtain ⟨body, -, rfl⟩ := hline
  rw [List.append_assoc, List.singleton_append]
  exact fgetsFrom_append ..

theorem fgetsFrom_line (size room : ℕ) (acc : List Char) {body : List Char}
    (hbody : '\n' ∉ body) :
    fgetsFrom size (room + 1) acc (body ++ ['\n']) =
      (acc.reverse ++ (body ++ ['\n']).take (room + 1)) ::
        fgetsAll size ((body ++ ['\n']).drop (room + 1)) := by
  induction body generalizing room acc with
  | nil => simp [fgetsFrom, fgetsAll]
  | cons c body ih =>
      obtain ⟨hc, hbody⟩ := not_or.1 (List.mem_cons.not.1 hbody)
      cases room with
      | zero => simp [fgetsFrom, fgetsAll]
      | succ room =>
          have hne : ¬ (c = '\n' ∨ room + 1 + 1 ≤ 1) := by
            rintro (h | h)
            · exact hc h.symm
            · omega
          simp only [List.cons_append, fgetsFrom, if_neg hne, Nat.add_sub_cancel]
          rw [ih room (c :: acc) hbody]
          simp

/-- The first chunk of a line, and those that continue it. -/
theorem fgetsAll_line (size : ℕ) {line : List Char} (hline : IsLine line) :
    fgetsAll (size + 2) line =
      line.take (size + 1) :: fgetsAll (size + 2) (line.drop (size + 1)) := by
  obtain ⟨body, hbody, rfl⟩ := hline
  exact fgetsFrom_line (size + 2) size [] hbody

theorem mem_fgetsFrom {size room : ℕ} {acc content chunk : List Char} {c : Char}
    (hchunk : chunk ∈ fgetsFrom size room acc content) (hc : c ∈ chunk) :
    c ∈ acc ∨ c ∈ content := by
  induction content generalizing room acc with
  | nil =>
      simp only [fgetsFrom] at hchunk
      split at hchunk
      · simp at hchunk
      · rw [List.mem_singleton.1 hchunk] at hc
        exact Or.inl (List.mem_reverse.1 hc)
  | cons d content ih =>
      simp only [fgetsFrom] at hchunk
      split at hchunk
      · rcases List.mem_cons.1 hchunk with rfl | hchunk
        · rcases List.mem_cons.1 (List.mem_reverse.1 hc) with rfl | hc
          · exact Or.inr (List.mem_cons_self ..)
          · exact Or.inl hc
        · rcases ih hchunk with h | h
          · simp at h
          · exact Or.inr (List.mem_cons_of_mem d h)
      · rcases ih hchunk with h | h
        · rcases List.mem_cons.1 h with rfl | h
          · exact Or.inr (List.mem_cons_self ..)
          · exact Or.inl h
        · exact Or.inr (List.mem_cons_of_mem d h)

/-- Every character of a chunk is one of the file. -/
theorem mem_of_mem_fgetsAll {size : ℕ} {content chunk : List Char} {c : Char}
    (hchunk : chunk ∈ fgetsAll size content) (hc : c ∈ chunk) : c ∈ content := by
  rcases mem_fgetsFrom hchunk hc with h | h
  · simp at h
  · exact h

/-- **Searching the chunks of a file of lines**: when nothing is found in the chunks that continue
a line, the first chunks of the lines are searched. -/
theorem find?_fgetsAll (size : ℕ) (p : List Char → Bool) {lines : List (List Char)}
    (hlines : ∀ line ∈ lines, IsLine line)
    (hrest : ∀ line ∈ lines, ∀ chunk, (∀ c ∈ chunk, c ∈ line.drop (size + 1)) →
      p chunk = false) :
    (fgetsAll (size + 2) lines.flatten).find? p =
      (lines.map (List.take (size + 1))).find? p := by
  induction lines with
  | nil => rfl
  | cons line lines ih =>
      have hline := hlines line (List.mem_cons_self ..)
      have hnone : (fgetsAll (size + 2) (line.drop (size + 1))).find? p = none := by
        rw [List.find?_eq_none]
        intro chunk hchunk
        rw [hrest line (List.mem_cons_self ..) chunk fun c hc => mem_of_mem_fgetsAll hchunk hc]
        simp
      have htail := ih (fun l hl => hlines l (List.mem_cons_of_mem line hl))
        (fun l hl => hrest l (List.mem_cons_of_mem line hl))
      rw [List.flatten_cons, fgetsAll_append _ hline, fgetsAll_line _ hline, List.cons_append,
        List.find?_cons, List.find?_append, hnone, Option.none_or, htail, List.map_cons,
        List.find?_cons]

/-- The first element with a property is the first one with a stronger property that it has. -/
theorem find?_of_imp {α : Type} {p q : α → Bool} (hpq : ∀ a, p a = true → q a = true)
    {xs : List α} {x : α} (hfind : xs.find? q = some x) (hx : p x = true) :
    xs.find? p = some x := by
  obtain ⟨-, before, after, rfl, hbefore⟩ := List.find?_eq_some_iff_append.1 hfind
  refine List.find?_eq_some_iff_append.2 ⟨hx, before, after, rfl, fun a ha => ?_⟩
  cases hp : p a with
  | false => rfl
  | true =>
      have hnot := hbefore a ha
      rw [hpq a hp] at hnot
      simp at hnot

/-! ### Literal characters of a format -/

theorem takeSign_suffix (s : List Char) : (takeSign s).2 <:+ s := by
  unfold takeSign
  split
  · exact List.suffix_cons ..
  · exact List.suffix_cons ..
  · exact List.suffix_rfl

/-- A conversion leaves an end of its input. -/
theorem suffix_of_convert {k : Conv} {input rest : List Char} {v : Value}
    (h : convert k input = .ok (v, rest)) : rest <:+ input := by
  cases k with
  | unsigned bits =>
      rw [convert_unsigned_eq] at h
      split at h
      · obtain rfl : afterInteger (input.dropWhile isSpace) = rest :=
          congrArg Prod.snd (Except.ok.inj h)
        exact ((List.dropWhile_suffix _).trans (takeSign_suffix _)).trans (List.dropWhile_suffix _)
      · simp at h
  | word =>
      rw [convert_word_eq] at h
      split at h
      · simp at h
      · obtain rfl := congrArg Prod.snd (Except.ok.inj h)
        exact (List.dropWhile_suffix _).trans (List.dropWhile_suffix _)
  | scanset set =>
      rw [convert_scanset_eq] at h
      split at h
      · simp at h
      · obtain rfl := congrArg Prod.snd (Except.ok.inj h)
        exact List.dropWhile_suffix _

/-- **A literal character of a format stands in every text that matches.** -/
theorem mem_of_perform {c : Char} {fmt : List Directive} (hc : .literal c ∈ fmt)
    {input : List Char} (h : (perform fmt input).isSome = true) : c ∈ input := by
  induction fmt generalizing input with
  | nil => simp at hc
  | cons d fmt ih =>
      cases d with
      | space =>
          have hmem : c ∈ input.dropWhile isSpace := ih (by simpa using hc) h
          exact (List.dropWhile_sublist _).subset hmem
      | literal e =>
          cases input with
          | nil => simp [perform] at h
          | cons a input =>
              by_cases ha : a = e
              · rcases List.mem_cons.1 hc with hc | hc
                · obtain rfl : c = e := by simpa using hc
                  rw [ha]
                  exact List.mem_cons_self ..
                · exact List.mem_cons_of_mem a (ih hc (by simpa [perform, ha] using h))
              · simp [perform, ha] at h
      | conv suppress k =>
          cases hk : convert k input with
          | error e => simp [perform, hk] at h
          | ok p =>
              have hmem : c ∈ p.2 := ih (by simpa using hc) (by simpa [perform, hk] using h)
              exact (suffix_of_convert hk).subset hmem

/-- A buffer without a null byte is scanned as a whole. -/
theorem takeWhile_no_null {buffer : List Char} (h : ∀ c ∈ buffer, c.toNat ≠ 0) :
    buffer.takeWhile (·.toNat != 0) = buffer :=
  List.takeWhile_eq_self_iff.2 fun c hc => by simpa using h c hc

/-! ### Rows of numeric conversions -/

/-- The first `k` integers of a text, each after any amount of white space, and what follows. -/
def integersAt : ℕ → List Char → Option (List ℤ × List Char)
  | 0, s => some ([], s)
  | k + 1, s =>
      match integerAt (s.dropWhile isSpace) with
      | none => none
      | some z => (integersAt k (afterInteger (s.dropWhile isSpace))).map fun r => (z :: r.1, r.2)

/-- Numeric conversions with white space in front of each: whether it discards its value, and its
bits. -/
def fields (fs : List (Bool × ℕ)) : List Directive :=
  fs.flatMap fun f => [.space, .conv f.1 (.unsigned f.2)]

/-- The values that a row of conversions stores. -/
def storedFields : List (Bool × ℕ) → List ℤ → List Value
  | f :: fs, z :: zs =>
      if f.1 then storedFields fs zs else .number (wrapped f.2 z) :: storedFields fs zs
  | _, _ => []

/-- The first integers of a row, by their columns. -/
theorem take_eq_ofFn {zs : List ℤ} {n : ℕ} (h : n ≤ zs.length) (z : ℤ) :
    zs.take n = List.ofFn fun i : Fin n => zs.getD i z := by
  apply List.ext_getElem
  · simp [h]
  · intro i hi _
    rw [List.length_take] at hi
    have hlt : i < zs.length := by omega
    simp [hlt]

/-- **A row of conversions reads the integers of a text.** -/
theorem perform_fields (fs : List (Bool × ℕ)) (s : List Char) :
    perform (fields fs) s =
      (integersAt fs.length s).map fun r => (storedFields fs r.1, r.2) := by
  induction fs generalizing s with
  | nil => rfl
  | cons f fs ih =>
      have hfields : fields (f :: fs) = .space :: .conv f.1 (.unsigned f.2) :: fields fs := rfl
      simp only [hfields, perform, convert_unsigned_eq, List.dropWhile_idempotent, List.length_cons,
        integersAt]
      cases integerAt (s.dropWhile isSpace) with
      | none => rfl
      | some z => simp [ih, storedFields, Function.comp_def]

/-- An integer in front of others. -/
theorem integersAt_digits (k : ℕ) {blanks ds rest : List Char}
    (hblanks : ∀ c ∈ blanks, isSpace c = true) (hne : ds ≠ [])
    (hds : ∀ c ∈ ds, c.isDigit = true) (hrest : EndsNumber rest) :
    integersAt (k + 1) (blanks ++ ds ++ rest) =
      (integersAt k rest).map fun r => ((digitsValue ds : ℤ) :: r.1, r.2) := by
  obtain ⟨hint, hafter⟩ := integerAt_digits hne hds hrest
  have hhead : ∀ c ∈ (ds ++ rest).head?, isSpace c = false := by
    obtain ⟨d, ds, rfl⟩ := List.exists_cons_of_ne_nil hne
    intro c hc
    obtain rfl : d = c := by simpa using hc
    exact isSpace_of_isDigit (hds d (List.mem_cons_self ..))
  simp only [integersAt, List.append_assoc, dropWhile_blanks hblanks hhead, hint, hafter]

/-- No integer in white space. -/
theorem integersAt_blanks (k : ℕ) {blanks : List Char}
    (hblanks : ∀ c ∈ blanks, isSpace c = true) : integersAt (k + 1) blanks = none := by
  have hnil : blanks.dropWhile isSpace = [] := List.dropWhile_eq_nil_iff.2 hblanks
  simp [integersAt, hnil, integerAt, takeSign]

/-! ### Printed rows -/

/-- The blanks in front of a number that is printed after a blank, padded to `width`. -/
def columnBlanks (width n : ℕ) : List Char :=
  ' ' :: List.replicate (width - (decimal n).length) ' '

/-- A number printed after a blank, padded to a minimum width. -/
def column (width n : ℕ) : List Char := columnBlanks width n ++ decimal n

/-- A row of numbers, each with its minimum width. -/
def columns (cells : List (ℕ × ℕ)) : List Char := cells.flatMap fun c => column c.1 c.2

theorem mem_columnBlanks {width n : ℕ} {c : Char} (h : c ∈ columnBlanks width n) : c = ' ' := by
  rcases List.mem_cons.1 h with h | h
  · exact h
  · exact List.eq_of_mem_replicate h

theorem isSpace_of_mem_columnBlanks {width n : ℕ} : ∀ c ∈ columnBlanks width n,
    isSpace c = true := by
  intro c hc
  obtain rfl := mem_columnBlanks hc
  rfl

/-- A row consists of digits and blanks. -/
theorem mem_columns {cells : List (ℕ × ℕ)} {c : Char} (h : c ∈ columns cells) :
    c.isDigit = true ∨ c = ' ' := by
  obtain ⟨cell, -, hc⟩ := List.mem_flatMap.1 h
  rcases List.mem_append.1 hc with hc | hc
  · exact Or.inr (mem_columnBlanks hc)
  · exact Or.inl (isDigit_of_mem_decimal hc)

theorem length_column_le {width n k : ℕ} (hk : 0 < k) (h : n < 10 ^ k) :
    (column width n).length ≤ max width k + 1 := by
  have hdigits := length_decimal_le hk h
  simp only [column, columnBlanks, List.length_append, List.length_cons, List.length_replicate]
  omega

/-- The length of a row. -/
theorem length_columns_le {cells : List (ℕ × ℕ)} {b : ℕ}
    (h : ∀ c ∈ cells, (column c.1 c.2).length ≤ b) : (columns cells).length ≤ b * cells.length := by
  induction cells with
  | nil => simp [columns]
  | cons cell cells ih =>
      have hcell := h cell (List.mem_cons_self ..)
      have htail := ih fun c hc => h c (List.mem_cons_of_mem cell hc)
      have hlength : (columns (cell :: cells)).length =
          (column cell.1 cell.2).length + (columns cells).length := List.length_append
      rw [hlength, List.length_cons, Nat.mul_succ]
      omega

theorem columns_append (a b : List (ℕ × ℕ)) : columns (a ++ b) = columns a ++ columns b :=
  List.flatMap_append

theorem head?_columns {cells : List (ℕ × ℕ)} (h : cells ≠ []) :
    (columns cells).head? = some ' ' := by
  obtain ⟨cell, cells, rfl⟩ := List.exists_cons_of_ne_nil h
  rfl

/-- A row that ends its line. -/
theorem mem_row {cells : List (ℕ × ℕ)} {c : Char} (h : c ∈ columns cells ++ ['\n']) :
    c.isDigit = true ∨ c = ' ' ∨ c = '\n' := by
  rcases List.mem_append.1 h with h | h
  · rcases mem_columns h with h | h
    · exact Or.inl h
    · exact Or.inr (Or.inl h)
  · exact Or.inr (Or.inr (List.mem_singleton.1 h))

/-- A text and a row in one line. -/
theorem isLine_row {text : List Char} (htext : '\n' ∉ text) (cells : List (ℕ × ℕ)) :
    IsLine (text ++ (columns cells ++ ['\n'])) := by
  refine ⟨text ++ columns cells, ?_, (List.append_assoc ..).symm⟩
  intro h
  rcases List.mem_append.1 h with h | h
  · exact htext h
  · rcases mem_columns h with h | h
    · simp at h
    · simp at h

/-- Behind the text of a line there are only digits and white space. -/
theorem mem_drop_row {text : List Char} {cells : List (ℕ × ℕ)} {m : ℕ} (htext : text.length ≤ m)
    {c : Char} (h : c ∈ (text ++ (columns cells ++ ['\n'])).drop m) :
    c.isDigit = true ∨ c = ' ' ∨ c = '\n' := by
  rw [List.drop_append, List.drop_eq_nil_of_le htext, List.nil_append] at h
  exact mem_row (List.mem_of_mem_drop h)

theorem endsNumber_columns (cells : List (ℕ × ℕ)) {rest : List Char} (hrest : EndsNumber rest) :
    EndsNumber (columns cells ++ rest) := by
  cases cells with
  | nil => exact hrest
  | cons cell cells =>
      intro c hc
      obtain rfl : ' ' = c := by simpa [columns, column, columnBlanks] using hc
      rfl

theorem EndsNumber.take {s : List Char} (h : EndsNumber s) (m : ℕ) : EndsNumber (s.take m) := by
  cases m with
  | zero => simp [EndsNumber]
  | succ m =>
      cases s with
      | nil => exact h
      | cons c s => exact h

/-- **A row of numbers is read back.** -/
theorem integersAt_columns (k : ℕ) (cells : List (ℕ × ℕ)) {rest : List Char}
    (hrest : EndsNumber rest) :
    integersAt (cells.length + k) (columns cells ++ rest) =
      (integersAt k rest).map fun r => (cells.map (fun c => (c.2 : ℤ)) ++ r.1, r.2) := by
  induction cells with
  | nil => simp [columns]
  | cons cell cells ih =>
      have hlength : (cell :: cells).length + k = cells.length + k + 1 := by
        rw [List.length_cons]
        omega
      have hcolumns : columns (cell :: cells) ++ rest =
          columnBlanks cell.1 cell.2 ++ decimal cell.2 ++ (columns cells ++ rest) := by
        simp [columns, column]
      rw [hlength, hcolumns, integersAt_digits _ isSpace_of_mem_columnBlanks (decimal_ne_nil _)
        (fun c => isDigit_of_mem_decimal) (endsNumber_columns cells hrest), ih,
        digitsValue_decimal]
      simp [Function.comp_def]

/-- **A row that is cut before the digits of its last number is not read.**  The induction is on
the numbers in front of that one. -/
theorem integersAt_cut (cells : List (ℕ × ℕ)) {blanks : List Char}
    (hblanks : ∀ c ∈ blanks, isSpace c = true) (m : ℕ) :
    integersAt (cells.length + 1) ((columns cells ++ blanks).take m) = none := by
  induction cells generalizing m with
  | nil => exact integersAt_blanks 0 fun c hc => hblanks c (List.mem_of_mem_take hc)
  | cons cell cells ih =>
      have hends : EndsNumber (columns cells ++ blanks) := by
        refine endsNumber_columns cells fun c hc => ?_
        have hspace := hblanks c (List.mem_of_mem_head? hc)
        by_contra hdigit
        rw [isSpace_of_isDigit (by simpa using hdigit)] at hspace
        simp at hspace
      have hcolumns : columns (cell :: cells) ++ blanks =
          columnBlanks cell.1 cell.2 ++ decimal cell.2 ++ (columns cells ++ blanks) := by
        simp [columns, column]
      rw [hcolumns, List.length_cons, List.append_assoc, List.take_append, List.take_append]
      generalize hd : m - (columnBlanks cell.1 cell.2).length = d
      cases hds : (decimal cell.2).take d with
      | nil =>
          -- no digit is left of this number, so nothing after it
          have hd0 : d = 0 := by
            rcases List.take_eq_nil_iff.1 hds with h | h
            · exact h
            · exact absurd h (decimal_ne_nil _)
          rw [hd0, Nat.zero_sub, List.take_zero, List.nil_append, List.append_nil]
          exact integersAt_blanks _ fun c hc =>
            isSpace_of_mem_columnBlanks c (List.mem_of_mem_take hc)
      | cons e ds =>
          have hfull : (columnBlanks cell.1 cell.2).take m = columnBlanks cell.1 cell.2 := by
            refine List.take_of_length_le ?_
            by_contra hlt
            obtain rfl : d = 0 := by omega
            simp at hds
          have hdigits : ∀ c ∈ e :: ds, c.isDigit = true := by
            intro c hc
            rw [← hds] at hc
            exact isDigit_of_mem_decimal (List.mem_of_mem_take hc)
          rw [hfull, ← List.append_assoc, integersAt_digits _ isSpace_of_mem_columnBlanks
            (List.cons_ne_nil e ds) hdigits (hends.take _), ih]
          rfl

/-! ### A word in front of a row -/

theorem span_append {p : Char → Bool} (s rest : List Char)
    (hrest : ∀ c ∈ rest.head?, p c = false) :
    (s ++ rest).takeWhile p = s.takeWhile p ∧ (s ++ rest).dropWhile p = s.dropWhile p ++ rest := by
  induction s with
  | nil =>
      cases rest with
      | nil => simp
      | cons c rest => simp [hrest c rfl]
  | cons c s ih =>
      cases hc : p c with
      | true => simpa [hc] using ih
      | false => simp [hc]

/-- A word without white space does not go on after a blank. -/
theorem prefix_append_iff {s t rest : List Char} (hs : ∀ c ∈ s, isSpace c = false)
    (hrest : rest.head? = some ' ') : s <+: t ++ rest ↔ s <+: t := by
  constructor
  · intro h
    by_cases hle : s.length ≤ t.length
    · exact List.prefix_of_prefix_length_le h (List.prefix_append ..) hle
    · -- otherwise the blank is a character of `s`
      obtain ⟨u, rfl⟩ := List.prefix_of_prefix_length_le (List.prefix_append ..) h (by omega)
      have hu := (List.prefix_append_right_inj t).1 h
      cases u with
      | nil => simp at hle
      | cons c u =>
          obtain ⟨v, rfl⟩ := hu
          obtain rfl : c = ' ' := by simpa using hrest
          exact absurd (hs ' ' (by simp)) (by simp [isSpace])
  · exact fun h => h.trans (List.prefix_append ..)

/-- The integer at the beginning of a word does not go on after the word. -/
theorem integerAt_append {s rest : List Char} (hs : s ≠ []) (hrest : EndsNumber rest) :
    integerAt (s ++ rest) = integerAt s ∧ afterInteger (s ++ rest) = afterInteger s ++ rest := by
  have hsign : takeSign (s ++ rest) = ((takeSign s).1, (takeSign s).2 ++ rest) := by
    obtain ⟨c, s, rfl⟩ := List.exists_cons_of_ne_nil hs
    by_cases hminus : c = '-'
    · rw [hminus]
      rfl
    · by_cases hplus : c = '+'
      · rw [hplus]
        rfl
      · simp [takeSign, hminus, hplus]
  obtain ⟨htake, hdrop⟩ := span_append (takeSign s).2 rest hrest
  simp only [integerAt, afterInteger, hsign, htake, hdrop, and_self]

/-- The integers that a word consists of, or the first `k` of them when there are more; `none` when
it does not begin with them. -/
def integersOf : ℕ → List Char → Option (List ℤ)
  | 0, _ => some []
  | _ + 1, [] => some []
  | k + 1, c :: s =>
      match integerAt (c :: s) with
      | none => none
      | some z => (integersOf k (afterInteger (c :: s))).map (z :: ·)

theorem afterInteger_suffix (s : List Char) : afterInteger s <:+ s :=
  (List.dropWhile_suffix _).trans (takeSign_suffix s)

/-- **Reading begins inside a word that ends in front of a row**: first come the integers of the
word, then those of the row.  The induction is on the number of integers to be read. -/
theorem integersAt_attached (k : ℕ) {s : List Char} (hs : ∀ c ∈ s, isSpace c = false)
    {cells : List (ℕ × ℕ)} (hk : k ≤ cells.length) {rest : List Char} (hrest : EndsNumber rest) :
    (integersAt k (s ++ (columns cells ++ rest))).map Prod.fst =
      (integersOf k s).map fun zs => (zs ++ cells.map fun c => (c.2 : ℤ)).take k := by
  induction k generalizing s with
  | zero => simp [integersAt, integersOf]
  | succ k ih =>
      cases s with
      | nil =>
          have hlength : (cells.take (k + 1)).length + 0 = k + 1 := by
            rw [List.length_take]
            omega
          have hsplit : columns cells ++ rest =
              columns (cells.take (k + 1)) ++ (columns (cells.drop (k + 1)) ++ rest) := by
            rw [← List.append_assoc, ← columns_append, List.take_append_drop]
          have hread := integersAt_columns 0 (cells.take (k + 1))
            (endsNumber_columns (cells.drop (k + 1)) hrest)
          rw [hlength, ← hsplit] at hread
          rw [List.nil_append, hread]
          simp [integersOf, integersAt, List.map_take]
      | cons c s =>
          have hends : EndsNumber (columns cells ++ rest) := endsNumber_columns cells hrest
          obtain ⟨hint, hafter⟩ := integerAt_append (List.cons_ne_nil c s) hends
          have hdrop : ((c :: s) ++ (columns cells ++ rest)).dropWhile isSpace =
              (c :: s) ++ (columns cells ++ rest) := by
            simp [hs c (List.mem_cons_self ..)]
          have htail := ih (s := afterInteger (c :: s))
            (fun d hd => hs d ((afterInteger_suffix _).subset hd)) (by omega)
          rw [integersAt, hdrop, hint, hafter, integersOf]
          cases integerAt (c :: s) with
          | none => rfl
          | some z =>
              have hcons := congrArg (Option.map (z :: ·)) htail
              simpa [Function.comp_def] using hcons

end FormattedInput
