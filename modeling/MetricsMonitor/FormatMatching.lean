/-
**What it takes for a text to match a format.**

`MetricsMonitor/FormattedInput.lean` says how a scan goes; this module says which texts pass which
directives.  A format is cut into parts, and each part is described by the texts it accepts: a scan
under `f ++ g` is a scan under `g` of what `f` has left.

Main definitions:

* `FormattedInput.perform` — performing directives that all match;
* `FormattedInput.conversions` — how many values a format stores;
* `FormattedInput.integerAt` — the integer a text starts with.

Main results:

* `FormattedInput.perform_append`, `FormattedInput.scan_append`,
  `FormattedInput.scan_append_of_eq_none` — a format in two parts;
* `FormattedInput.perform_literals` — literal characters match only themselves;
* `FormattedInput.length_stored_eq_iff` — **a format that ends in a conversion stores all its
  values exactly when every directive matches**;
* `FormattedInput.convert_unsigned_eq` — what a numeric conversion does to an integer.
-/

import MetricsMonitor.FormattedInput
import Mathlib.Data.List.DropRight
import Mathlib.Data.List.TakeWhile

set_option relaxedAutoImplicit false
set_option autoImplicit false

namespace FormattedInput

/-! ### Performing directives -/

/-- Performing directives that all match: the values stored and the remaining input. -/
def perform : List Directive → List Char → Option (List Value × List Char)
  | [], input => some ([], input)
  | .space :: fmt, input => perform fmt (input.dropWhile isSpace)
  | .literal c :: fmt, input =>
      match input with
      | [] => none
      | d :: rest => if d = c then perform fmt rest else none
  | .conv suppress k :: fmt, input =>
      match convert k input with
      | .error _ => none
      | .ok (v, rest) =>
          (perform fmt rest).map fun r => (if suppress then r.1 else v :: r.1, r.2)

/-- A format in two parts, both of which match. -/
theorem perform_append (f g : List Directive) (input : List Char) :
    perform (f ++ g) input =
      (perform f input).bind fun r => (perform g r.2).map fun q => (r.1 ++ q.1, q.2) := by
  induction f generalizing input with
  | nil => simp [perform]
  | cons d f ih =>
      cases d with
      | space => exact ih _
      | literal c =>
          cases input with
          | nil => rfl
          | cons e rest =>
              by_cases h : e = c
              · simpa [perform, h] using ih rest
              · simp [perform, h]
      | conv suppress k =>
          cases h : convert k input with
          | error e => simp [perform, h]
          | ok p =>
              simp only [List.cons_append, perform, h, ih p.2, Option.map_bind, Option.bind_map]
              congr 1
              funext r
              cases suppress with
              | true => simp
              | false => simp [Function.comp_def]

/-- Once the first part has matched, the scan goes on with the second. -/
theorem scan_append {f : List Directive} {input rest : List Char} {vs : List Value}
    (h : perform f input = some (vs, rest)) (g : List Directive) :
    scan (f ++ g) input = { scan g rest with stored := vs ++ (scan g rest).stored } := by
  induction f generalizing input vs with
  | nil =>
      obtain ⟨rfl, rfl⟩ : vs = [] ∧ rest = input := by simpa [perform, eq_comm] using h
      rfl
  | cons d f ih =>
      cases d with
      | space => exact ih h
      | literal c =>
          cases input with
          | nil => simp [perform] at h
          | cons e input =>
              by_cases he : e = c
              · simpa [scan, he] using ih (by simpa [perform, he] using h)
              · simp [perform, he] at h
      | conv suppress k =>
          cases hk : convert k input with
          | error e => simp [perform, hk] at h
          | ok p =>
              simp only [perform, hk, Option.map_eq_some_iff, Prod.mk.injEq] at h
              obtain ⟨⟨ws, rest⟩, hr, hvs, rfl⟩ := h
              have hscan := ih hr
              cases suppress with
              | true =>
                  simp only [if_true] at hvs
                  simpa [scan, hk, hvs] using hscan
              | false =>
                  simp only [Bool.false_eq_true, if_false] at hvs
                  simp [scan, hk, hscan, Scan.store, ← hvs]

/-- A scan that stops in the first part does not see the second. -/
theorem scan_append_of_eq_none {f : List Directive} {input : List Char}
    (h : perform f input = none) (g : List Directive) : scan (f ++ g) input = scan f input := by
  induction f generalizing input with
  | nil => simp [perform] at h
  | cons d f ih =>
      cases d with
      | space => exact ih h
      | literal c =>
          cases input with
          | nil => rfl
          | cons e input =>
              by_cases he : e = c
              · simpa [scan, he] using ih (by simpa [perform, he] using h)
              · simp [scan, he]
      | conv suppress k =>
          cases hk : convert k input with
          | error e => simp [scan, hk]
          | ok p =>
              simp only [perform, hk, Option.map_eq_none_iff] at h
              simp [scan, hk, ih h]

/-- A scan under directives that all match. -/
theorem scan_of_perform {f : List Directive} {input rest : List Char} {vs : List Value}
    (h : perform f input = some (vs, rest)) : scan f input = ⟨vs, none⟩ := by
  simpa [scan] using scan_append h []

/-! ### Texts -/

/-- **What `%[set]` does**: it takes all bytes of the set, and there has to be one. -/
theorem convert_scanset_eq (set input : List Char) :
    convert (.scanset set) input =
      if input.takeWhile set.contains = [] then
        .error (if input = [] then .input else .matching)
      else .ok (.text (input.takeWhile set.contains), input.dropWhile set.contains) := by
  cases input with
  | nil => simp [convert]
  | cons c s =>
      simp only [convert]
      cases h : (c :: s).takeWhile set.contains with
      | nil => simp
      | cons d ds => simp

/-- **What `%s` does**: after white space it takes everything up to the next white space. -/
theorem convert_word_eq (input : List Char) :
    convert .word input =
      if input.dropWhile isSpace = [] then .error .input
      else .ok (.text ((input.dropWhile isSpace).takeWhile (!isSpace ·)),
        (input.dropWhile isSpace).dropWhile (!isSpace ·)) := by
  cases h : input.dropWhile isSpace with
  | nil => simp [convert, h]
  | cons c s => simp [convert, h]

/-- A conversion that is not numeric stores a text. -/
theorem convert_text {k : Conv} (hk : ∀ bits, k ≠ .unsigned bits) {input : List Char}
    {p : Value × List Char} (h : convert k input = .ok p) : ∃ t, p.1 = .text t := by
  cases k with
  | unsigned bits => exact absurd rfl (hk bits)
  | word =>
      rw [convert_word_eq] at h
      split at h
      · simp at h
      · exact ⟨_, (congrArg Prod.fst (Except.ok.inj h)).symm⟩
  | scanset set =>
      rw [convert_scanset_eq] at h
      split at h
      · simp at h
      · exact ⟨_, (congrArg Prod.fst (Except.ok.inj h)).symm⟩

/-! ### Counting the values -/

/-- Whether a directive stores a value. -/
def Directive.stores : Directive → Bool
  | .conv suppress _ => !suppress
  | _ => false

/-- How many values a format stores. -/
def conversions (fmt : List Directive) : ℕ := fmt.countP Directive.stores

theorem conversions_append (f g : List Directive) :
    conversions (f ++ g) = conversions f + conversions g := List.countP_append

/-- A scan stores at most a value for each conversion. -/
theorem length_stored_le (fmt : List Directive) (input : List Char) :
    (scan fmt input).stored.length ≤ conversions fmt := by
  induction fmt generalizing input with
  | nil => simp [scan]
  | cons d fmt ih =>
      have hcons : conversions (d :: fmt) = conversions fmt + if d.stores then 1 else 0 :=
        List.countP_cons
      cases d with
      | space => exact (ih _).trans (by simp [hcons])
      | literal c =>
          cases input with
          | nil => simp [scan]
          | cons e rest =>
              by_cases h : e = c
              · simpa [scan, h, hcons, Directive.stores] using ih rest
              · simp [scan, h]
      | conv suppress k =>
          cases h : convert k input with
          | error e => simp [scan, h]
          | ok p =>
              have hp := ih p.2
              cases suppress with
              | true => simpa [scan, h, hcons, Directive.stores] using hp
              | false => simpa [scan, h, hcons, Directive.stores] using hp

/-- A number fits in the bits of its conversion. -/
theorem lt_of_mem_stored {fmt : List Directive} {bits : ℕ}
    (hfmt : ∀ b, .conv false (.unsigned b) ∈ fmt → b ≤ bits) {input : List Char} {n : ℕ}
    (h : .number n ∈ (scan fmt input).stored) : n < 2 ^ bits := by
  induction fmt generalizing input with
  | nil => simp [scan] at h
  | cons d fmt ih =>
      have htail : ∀ b, .conv false (.unsigned b) ∈ fmt → b ≤ bits :=
        fun b hb => hfmt b (List.mem_cons_of_mem d hb)
      cases d with
      | space => exact ih htail h
      | literal c =>
          cases input with
          | nil => simp [scan] at h
          | cons e rest =>
              by_cases he : e = c
              · exact ih htail (by simpa [scan, he] using h)
              · simp [scan, he] at h
      | conv suppress k =>
          cases hk : convert k input with
          | error e => simp [scan, hk] at h
          | ok p =>
              cases suppress with
              | true => exact ih htail (by simpa [scan, hk] using h)
              | false =>
                  simp only [scan, hk, stored_store_false, List.mem_cons] at h
                  rcases h with hp | h
                  · cases k with
                    | unsigned b =>
                        obtain ⟨m, hm, hlt⟩ := convert_unsigned hk
                        obtain rfl : n = m := by simpa [hm] using hp
                        exact hlt.trans_le
                          (Nat.pow_le_pow_right (by simp) (hfmt b (List.mem_cons_self ..)))
                    | word | scanset =>
                        obtain ⟨t, ht⟩ := convert_text (by simp) hk
                        simp [ht] at hp
                  · exact ih htail h

/-- When every directive matches, there is a value for each conversion. -/
theorem length_of_perform {fmt : List Directive} {input rest : List Char} {vs : List Value}
    (h : perform fmt input = some (vs, rest)) : vs.length = conversions fmt := by
  induction fmt generalizing input vs with
  | nil =>
      obtain ⟨rfl, -⟩ : vs = [] ∧ rest = input := by simpa [perform, eq_comm] using h
      rfl
  | cons d fmt ih =>
      have hcons : conversions (d :: fmt) = conversions fmt + if d.stores then 1 else 0 :=
        List.countP_cons
      cases d with
      | space => exact ih h
      | literal c =>
          cases input with
          | nil => simp [perform] at h
          | cons e input =>
              by_cases he : e = c
              · exact ih (by simpa [perform, he] using h)
              · simp [perform, he] at h
      | conv suppress k =>
          cases hk : convert k input with
          | error e => simp [perform, hk] at h
          | ok p =>
              simp only [perform, hk, Option.map_eq_some_iff, Prod.mk.injEq] at h
              obtain ⟨⟨ws, rest⟩, hr, rfl, rfl⟩ := h
              have hlength := ih hr
              cases suppress with
              | true => simpa [hcons, Directive.stores] using hlength
              | false => simpa [hcons, Directive.stores] using hlength

/-- A format without conversions stores nothing. -/
theorem stored_eq_nil {fmt : List Directive} (h : conversions fmt = 0) (input : List Char) :
    (scan fmt input).stored = [] := by
  have hle := length_stored_le fmt input
  rw [h] at hle
  exact List.length_eq_zero_iff.1 (Nat.le_zero.1 hle)

/-- Performing it gives no values. -/
theorem values_eq_nil {fmt : List Directive} (h : conversions fmt = 0) {input rest : List Char}
    {vs : List Value} (hperform : perform fmt input = some (vs, rest)) : vs = [] := by
  have hlength := length_of_perform hperform
  rw [h] at hlength
  exact List.length_eq_zero_iff.1 hlength

/-- **All values of a format are stored exactly when every directive up to its last conversion
matches**; what stands behind it, here `g`, has no say. -/
theorem length_stored_eq_iff (f : List Directive) (k : Conv) {g : List Directive}
    (hg : conversions g = 0) (input : List Char) :
    (scan (f ++ [.conv false k] ++ g) input).stored.length = conversions f + 1 ↔
      (perform (f ++ [.conv false k]) input).isSome := by
  have hlast : conversions [.conv false k] = 1 := rfl
  cases h : perform (f ++ [.conv false k]) input with
  | some r =>
      obtain ⟨vs, rest⟩ := r
      have hlength := length_of_perform h
      have htail := length_stored_le g rest
      rw [scan_append h]
      simp only [List.length_append, hlength, conversions_append, hlast, Option.isSome_some,
        iff_true]
      omega
  | none =>
      rw [scan_append_of_eq_none h]
      simp only [Option.isSome_none, Bool.false_eq_true, iff_false]
      -- the first directive that fails is in `f` or is the last conversion
      cases hf : perform f input with
      | none =>
          have hle := length_stored_le f input
          rw [scan_append_of_eq_none hf]
          omega
      | some r =>
          obtain ⟨vs, rest⟩ := r
          have hlength := length_of_perform hf
          rw [scan_append hf]
          rw [perform_append, hf] at h
          cases hk : convert k rest with
          | error e => simp [scan, hk, hlength]
          | ok p => simp [perform, hk] at h

/-! ### Texts that match -/

/-- Literal characters match only themselves. -/
theorem perform_literals (s input : List Char) :
    perform (s.map .literal) input = if s <+: input then some ([], input.drop s.length) else none :=
  by
  induction s generalizing input with
  | nil => simp [perform]
  | cons c s ih =>
      cases input with
      | nil => simp [perform]
      | cons d input =>
          by_cases h : d = c
          · simp [perform, h, ih]
          · have hne : ¬ c = d := fun heq => h heq.symm
            simp [perform, h, hne]

/-! ### Numbers -/

/-- The integer a text starts with: an optional sign and all digits after it. -/
def integerAt (s : List Char) : Option ℤ :=
  match (takeSign s).2.takeWhile Char.isDigit with
  | [] => none
  | d :: ds => some (if (takeSign s).1 then -digitsValue (d :: ds) else digitsValue (d :: ds))

/-- What follows the integer a text starts with. -/
def afterInteger (s : List Char) : List Char := (takeSign s).2.dropWhile Char.isDigit

/-- What a numeric conversion makes of an integer: out of range saturates, a negative integer and
the high bits wrap. -/
def wrapped (bits : ℕ) (z : ℤ) : ℕ :=
  (if 2 ^ 64 ≤ z.natAbs then 2 ^ 64 - 1 else (z % 2 ^ 64).toNat) % 2 ^ bits

theorem strtoul_eq (neg : Bool) (ds : List Char) (bits : ℕ) :
    strtoul neg ds % 2 ^ bits =
      wrapped bits (if neg then -digitsValue ds else digitsValue ds) := by
  unfold strtoul wrapped
  cases neg with
  | true =>
      simp only [if_true, Int.natAbs_neg, Int.natAbs_natCast]
      split
      · rfl
      · congr 1
        omega
  | false =>
      simp only [Bool.false_eq_true, if_false, Int.natAbs_natCast]
      split
      · rfl
      · congr 1
        omega

/-- **What a numeric conversion does**: after white space it reads an integer. -/
theorem convert_unsigned_eq (bits : ℕ) (input : List Char) :
    convert (.unsigned bits) input =
      match integerAt (input.dropWhile isSpace) with
      | some z => .ok (.number (wrapped bits z), afterInteger (input.dropWhile isSpace))
      | none => .error (if input.dropWhile isSpace = [] then .input else .matching) := by
  cases h : input.dropWhile isSpace with
  | nil => simp [convert, h, integerAt, takeSign]
  | cons c s =>
      simp only [convert, h, integerAt, afterInteger]
      cases hd : (takeSign (c :: s)).2.takeWhile Char.isDigit with
      | nil => simp
      | cons d ds => simp [strtoul_eq]

/-- A numeric conversion skips white space itself. -/
theorem convert_unsigned_dropWhile (bits : ℕ) (input : List Char) :
    convert (.unsigned bits) (input.dropWhile isSpace) = convert (.unsigned bits) input := by
  simp only [convert, List.dropWhile_idempotent]

theorem wrapped_of_lt {n : ℕ} (h : n < 2 ^ 64) : wrapped 64 n = n := by
  rw [wrapped, Int.natAbs_natCast, if_neg (Nat.not_le.2 h)]
  omega

/-! ### Printed numbers -/

/-- A number as `%u` prints it. -/
def decimal (n : ℕ) : List Char := Nat.toDigits 10 n

theorem isDigit_of_mem_decimal {n : ℕ} {c : Char} (h : c ∈ decimal n) : c.isDigit = true :=
  Nat.isDigit_of_mem_toDigits (by decide) (by decide) h

theorem decimal_ne_nil (n : ℕ) : decimal n ≠ [] := Nat.toDigits_ne_nil

theorem length_decimal_le {n k : ℕ} (hk : 0 < k) (h : n < 10 ^ k) : (decimal n).length ≤ k :=
  (Nat.length_toDigits_le_iff (by simp) hk).2 h

theorem digitsValue_append_singleton (ds : List Char) (c : Char) :
    digitsValue (ds ++ [c]) = 10 * digitsValue ds + (c.toNat - '0'.toNat) := by
  simp [digitsValue, Nat.ofDigits_cons, Nat.add_comm]

theorem digitsValue_eq (ds : List Char) : digitsValue ds = Nat.ofDigitChars 10 ds 0 := by
  induction ds using List.reverseRecOn with
  | nil => rfl
  | append_singleton ds c ih =>
      rw [Nat.ofDigitChars_append, ← ih, digitsValue_append_singleton]
      simp [Nat.ofDigitChars_cons]

/-- **The value of a printed number is the number.** -/
theorem digitsValue_decimal (n : ℕ) : digitsValue (decimal n) = n := by
  rw [digitsValue_eq]
  exact Nat.ofDigitChars_ten_toDigits

theorem digitsValue_le_append (ds es : List Char) : digitsValue ds ≤ digitsValue (ds ++ es) := by
  induction es using List.reverseRecOn with
  | nil => rw [List.append_nil]
  | append_singleton es c ih =>
      refine ih.trans ?_
      rw [← List.append_assoc, digitsValue_append_singleton]
      omega

/-- The digits at the beginning of a number are at most the number. -/
theorem digitsValue_take_le (ds : List Char) (d : ℕ) :
    digitsValue (ds.take d) ≤ digitsValue ds := by
  have h := digitsValue_le_append (ds.take d) (ds.drop d)
  rwa [List.take_append_drop] at h

/-- A part of the digits of a number has at most a tenth of its value. -/
theorem ten_mul_digitsValue_take_le {n d : ℕ} (h : d < (decimal n).length) :
    10 * digitsValue ((decimal n).take d) ≤ n := by
  have hdrop : (decimal n).drop d = (decimal n)[d] :: (decimal n).drop (d + 1) :=
    List.drop_eq_getElem_cons h
  have hsplit : decimal n =
      (decimal n).take d ++ [(decimal n)[d]] ++ (decimal n).drop (d + 1) := by
    rw [List.append_assoc, List.singleton_append, ← hdrop, List.take_append_drop]
  have hle := digitsValue_le_append ((decimal n).take d ++ [(decimal n)[d]])
    ((decimal n).drop (d + 1))
  rw [← hsplit, digitsValue_decimal, digitsValue_append_singleton] at hle
  omega

/-- **A number is not the value of a part of its digits**, nor at most twice that value. -/
theorem length_decimal_le_of_le {n d : ℕ} (hd : 0 < d)
    (h : n ≤ 2 * digitsValue ((decimal n).take d)) : (decimal n).length ≤ d := by
  by_contra hlt
  have hle := ten_mul_digitsValue_take_le (not_le.1 hlt)
  -- the number is zero, and `0` has one digit
  obtain rfl : n = 0 := by omega
  have hone : (decimal 0).length = 1 := rfl
  omega

theorem toNat_ne_zero_of_isDigit {c : Char} (h : c.isDigit = true) : c.toNat ≠ 0 := by
  intro hnull
  have hrange := Char.isDigit_iff_toNat.1 h
  rw [hnull] at hrange
  exact absurd hrange.1 (by decide)

theorem isSpace_of_isDigit {c : Char} (h : c.isDigit = true) : isSpace c = false := by
  have hrange := Char.isDigit_iff_toNat.1 h
  have hblank : c ≠ ' ' := by
    rintro rfl
    simp at hrange
  simp [isSpace, hblank] at hrange ⊢
  omega

theorem takeSign_of_isDigit {c : Char} (h : c.isDigit = true) (s : List Char) :
    takeSign (c :: s) = (false, c :: s) := by
  have hsign : c ≠ '-' ∧ c ≠ '+' := ⟨by rintro rfl; simp at h, by rintro rfl; simp at h⟩
  unfold takeSign
  split
  · rename_i heq
    exact absurd (List.cons.inj heq).1 hsign.1
  · rename_i heq
    exact absurd (List.cons.inj heq).1 hsign.2
  · rfl

/-- The text does not go on with a digit. -/
def EndsNumber (rest : List Char) : Prop := ∀ c ∈ rest.head?, c.isDigit = false

theorem span_digits {ds rest : List Char} (hds : ∀ c ∈ ds, c.isDigit = true)
    (hrest : EndsNumber rest) :
    (ds ++ rest).takeWhile Char.isDigit = ds ∧ (ds ++ rest).dropWhile Char.isDigit = rest := by
  rw [List.takeWhile_append_of_pos hds, List.dropWhile_append_of_pos hds]
  cases rest with
  | nil => simp
  | cons c rest =>
      have hc := hrest c rfl
      simp [hc]

/-- **A string of digits is read as its value.** -/
theorem integerAt_digits {ds rest : List Char} (hne : ds ≠ [])
    (hds : ∀ c ∈ ds, c.isDigit = true) (hrest : EndsNumber rest) :
    integerAt (ds ++ rest) = some (digitsValue ds : ℤ) ∧ afterInteger (ds ++ rest) = rest := by
  obtain ⟨htake, hdrop⟩ := span_digits hds hrest
  cases ds with
  | nil => exact absurd rfl hne
  | cons d ds =>
      have hd := hds d (List.mem_cons_self ..)
      simp only [List.cons_append] at htake hdrop
      simp [integerAt, afterInteger, takeSign_of_isDigit hd, htake, hdrop]

/-- White space in front of a text that does not start with any. -/
theorem dropWhile_blanks {blanks s : List Char} (hblanks : ∀ c ∈ blanks, isSpace c = true)
    (hs : ∀ c ∈ s.head?, isSpace c = false) : (blanks ++ s).dropWhile isSpace = s := by
  rw [List.dropWhile_append_of_pos hblanks]
  cases s with
  | nil => rfl
  | cons c s => simp [hs c rfl]

/-- A numeric conversion of a string of digits after white space. -/
theorem convert_digits (bits : ℕ) {blanks ds rest : List Char}
    (hblanks : ∀ c ∈ blanks, isSpace c = true) (hne : ds ≠ [])
    (hds : ∀ c ∈ ds, c.isDigit = true) (hrest : EndsNumber rest) :
    convert (.unsigned bits) (blanks ++ ds ++ rest) =
      .ok (.number (wrapped bits (digitsValue ds)), rest) := by
  have hhead : ∀ c ∈ (ds ++ rest).head?, isSpace c = false := by
    cases ds with
    | nil => exact absurd rfl hne
    | cons d ds =>
        intro c hc
        obtain rfl : d = c := by simpa using hc
        exact isSpace_of_isDigit (hds d (List.mem_cons_self ..))
  obtain ⟨hint, hafter⟩ := integerAt_digits hne hds hrest
  rw [convert_unsigned_eq, List.append_assoc, dropWhile_blanks hblanks hhead, hint, hafter]

/-- A numeric conversion of a printed number after white space. -/
theorem convert_decimal (bits n : ℕ) {blanks rest : List Char}
    (hblanks : ∀ c ∈ blanks, isSpace c = true) (hrest : EndsNumber rest) :
    convert (.unsigned bits) (blanks ++ decimal n ++ rest) =
      .ok (.number (wrapped bits n), rest) := by
  have h := convert_digits bits hblanks (decimal_ne_nil n) (fun c => isDigit_of_mem_decimal) hrest
  rwa [digitsValue_decimal] at h

end FormattedInput
