/-
**Formatted output of the C library: `%.17g`.**

A number is a rational; a `double` is one of the form `m * 2 ^ e` with at most 53 significant bits.
`%.*g` rounds it to a number of significant decimal digits, half to even, and writes these digits
with a point or, when the exponent is small or large, with an exponent; zeros at the end of the
fraction are dropped.

Main definitions:

* `FormattedOutput.significand`, `FormattedOutput.rounded` — rounding to significant digits;
* `FormattedOutput.formatG` — the text of `%.pg`;
* `FormattedOutput.readNumber` — the number a text denotes.

Main results:

* `FormattedOutput.readNumber_formatG` — **reading the text back gives the rounded number**;
* `FormattedOutput.abs_sub_rounded_le` — rounding is off by half a unit of the last digit at most;
* `FormattedOutput.rounded_natCast` — natural numbers with no more digits are not changed;
* `FormattedOutput.rounded_injective` — **seventeen digits tell any two doubles apart**;
* `FormattedOutput.formatG_chars`, `FormattedOutput.formatG_ne_append` — the characters of the text.
-/

import MetricsMonitor.FormatMatching
import Mathlib.Data.Int.Log
import Mathlib.Data.Rat.Floor
import Mathlib.Algebra.Order.Field.Rat
import Mathlib.Tactic.Linarith
import Mathlib.Tactic.Positivity
import Mathlib.Tactic.Ring
import Mathlib.Tactic.NormNum

set_option relaxedAutoImplicit false
set_option autoImplicit false

namespace FormattedOutput

open FormattedInput

/-! ### Rounding -/

/-- The nearest natural number, the even one of two. -/
def roundHalfEven (q : ℚ) : ℕ :=
  if q - ⌊q⌋₊ < 1 / 2 ∨ q - ⌊q⌋₊ = 1 / 2 ∧ ⌊q⌋₊ % 2 = 0 then ⌊q⌋₊ else ⌊q⌋₊ + 1

/-- The `p` significant digits of a positive number, as a natural number, and the exponent of the
first of them. -/
def significand (p : ℕ) (q : ℚ) : ℕ × ℤ :=
  let e := Int.log 10 q
  let m := roundHalfEven (q * 10 ^ (p - 1 - e))
  if m = 10 ^ p then (10 ^ (p - 1), e + 1) else (m, e)

/-- A number rounded to `p` significant digits. -/
def rounded (p : ℕ) (q : ℚ) : ℚ :=
  if q = 0 then 0
  else
    let (m, e) := significand p |q|
    if q < 0 then -(m * 10 ^ (e + 1 - p)) else m * 10 ^ (e + 1 - p)

theorem abs_sub_roundHalfEven_le {q : ℚ} (hq : 0 ≤ q) : |q - roundHalfEven q| ≤ 1 / 2 := by
  have hfloor := Nat.floor_le hq
  have hlt := Nat.lt_floor_add_one q
  unfold roundHalfEven
  split
  · rename_i h
    rw [abs_of_nonneg (by linarith)]
    rcases h with h | ⟨h, -⟩ <;> linarith
  · rename_i h
    have hhalf : 1 / 2 ≤ q - ⌊q⌋₊ := le_of_not_gt fun hlt => h (Or.inl hlt)
    push_cast
    rw [abs_le]
    constructor <;> linarith

theorem le_roundHalfEven {q : ℚ} {n : ℕ} (h : n ≤ q) : n ≤ roundHalfEven q := by
  have hn : n ≤ ⌊q⌋₊ := Nat.le_floor h
  unfold roundHalfEven
  split <;> omega

theorem roundHalfEven_le {q : ℚ} (hq : 0 ≤ q) {n : ℕ} (h : q ≤ n) : roundHalfEven q ≤ n := by
  have hfloor := Nat.floor_le hq
  have hn : ⌊q⌋₊ ≤ n := by exact_mod_cast hfloor.trans h
  unfold roundHalfEven
  split
  · exact hn
  · rename_i hup
    rcases hn.lt_or_eq with hlt | heq
    · omega
    · -- the number is `n` itself, which is not rounded up
      exfalso
      refine hup (Or.inl ?_)
      have : q ≤ (⌊q⌋₊ : ℚ) := heq ▸ h
      linarith

/-- Scaled by its exponent, a positive number has `p` digits in front of the point. -/
theorem scaled_bounds {p : ℕ} (hp : 0 < p) {q : ℚ} (hq : 0 < q) :
    ((10 ^ (p - 1) : ℕ) : ℚ) ≤ q * 10 ^ (p - 1 - Int.log 10 q) ∧
      q * 10 ^ (p - 1 - Int.log 10 q) < ((10 ^ p : ℕ) : ℚ) := by
  have hlow : ((10 : ℕ) : ℚ) ^ Int.log 10 q ≤ q := Int.zpow_log_le_self (by decide) hq
  have hhigh : q < ((10 : ℕ) : ℚ) ^ (Int.log 10 q + 1) := Int.lt_zpow_succ_log_self (by decide) q
  push_cast at hlow hhigh ⊢
  have hpos : (0 : ℚ) < 10 ^ ((p : ℤ) - 1 - Int.log 10 q) := zpow_pos (by norm_num) _
  constructor
  · calc (10 : ℚ) ^ (p - 1) = 10 ^ Int.log 10 q * 10 ^ ((p : ℤ) - 1 - Int.log 10 q) := by
          rw [← zpow_add₀ (by norm_num), ← zpow_natCast]
          congr 1
          omega
      _ ≤ q * 10 ^ ((p : ℤ) - 1 - Int.log 10 q) := mul_le_mul_of_nonneg_right hlow hpos.le
  · calc q * 10 ^ ((p : ℤ) - 1 - Int.log 10 q)
        < 10 ^ (Int.log 10 q + 1) * 10 ^ ((p : ℤ) - 1 - Int.log 10 q) :=
          mul_lt_mul_of_pos_right hhigh hpos
      _ = 10 ^ p := by
          rw [← zpow_add₀ (by norm_num), ← zpow_natCast]
          congr 1
          omega

/-- **The significand has `p` digits and is off by half a unit at most.** -/
theorem significand_spec {p : ℕ} (hp : 0 < p) {q : ℚ} (hq : 0 < q) :
    10 ^ (p - 1) ≤ (significand p q).1 ∧ (significand p q).1 < 10 ^ p ∧
      |q - (significand p q).1 * 10 ^ ((significand p q).2 + 1 - p)| ≤
        10 ^ ((significand p q).2 + 1 - p) / 2 := by
  obtain ⟨hlow, hhigh⟩ := scaled_bounds hp hq
  unfold significand
  dsimp only
  set e := Int.log 10 q
  set x := q * 10 ^ ((p : ℤ) - 1 - e) with hxdef
  have hx : 0 ≤ x := (Nat.cast_nonneg _).trans hlow
  have hle := roundHalfEven_le hx hhigh.le
  have hge := le_roundHalfEven hlow
  have hround := abs_sub_roundHalfEven_le hx
  have hscale : q = x * 10 ^ (e + 1 - p) := by
    rw [hxdef, mul_assoc, ← zpow_add₀ (by norm_num),
      show (p : ℤ) - 1 - e + (e + 1 - p) = 0 by ring, zpow_zero, mul_one]
  have hpos : (0 : ℚ) < 10 ^ (e + 1 - p) := zpow_pos (by norm_num) _
  have herror (n : ℕ) (h : |x - n| ≤ 1 / 2) :
      |q - n * 10 ^ (e + 1 - p)| ≤ 10 ^ (e + 1 - p) / 2 := by
    rw [hscale, ← sub_mul, abs_mul, abs_of_pos hpos]
    calc |x - n| * 10 ^ (e + 1 - p) ≤ 1 / 2 * 10 ^ (e + 1 - p) :=
          mul_le_mul_of_nonneg_right h hpos.le
      _ = 10 ^ (e + 1 - p) / 2 := by ring
  split
  · rename_i hcarry
    have hsucc : 10 ^ p = 10 * 10 ^ (p - 1) := by
      rw [← pow_succ', Nat.sub_add_cancel hp]
    refine ⟨le_refl _, Nat.pow_lt_pow_right (by decide) (by omega), ?_⟩
    -- one more digit in front of the point: the exponent goes up, the number stays
    have hsame : ((10 ^ (p - 1) : ℕ) : ℚ) * 10 ^ (e + 1 + 1 - p) =
        ((10 ^ p : ℕ) : ℚ) * 10 ^ (e + 1 - p) := by
      rw [hsucc]
      push_cast
      rw [show e + 1 + 1 - (p : ℤ) = e + 1 - p + 1 by ring, zpow_add_one₀ (by norm_num)]
      ring
    have hwider : (10 : ℚ) ^ (e + 1 - p) / 2 ≤ 10 ^ (e + 1 + 1 - p) / 2 := by
      have := zpow_le_zpow_right₀ (a := (10 : ℚ)) (by norm_num)
        (show e + 1 - (p : ℤ) ≤ e + 1 + 1 - p by omega)
      linarith
    rw [hcarry] at hround
    dsimp only
    rw [hsame]
    exact (herror _ hround).trans hwider
  · rename_i hcarry
    exact ⟨hge, lt_of_le_of_ne hle hcarry, herror _ hround⟩

/-! ### Writing -/

/-- Digits before and behind the point; zeros at the end of the fraction are dropped, and the
point goes with the last digit behind it. -/
def pointed (int frac : List Char) : List Char :=
  int ++ match frac.rdropWhile (· = '0') with
    | [] => []
    | c :: cs => '.' :: c :: cs

/-- The exponent, with a sign and at least two digits. -/
def exponentText (e : ℤ) : List Char :=
  'e' :: (if e < 0 then '-' else '+') ::
    (if e.natAbs < 10 then '0' :: decimal e.natAbs else decimal e.natAbs)

/-- The text of a positive number with the significand `m` and the exponent `e`. -/
def magnitudeText (p m : ℕ) (e : ℤ) : List Char :=
  if 0 ≤ e ∧ e < p then
    pointed ((decimal m).take (e.toNat + 1)) ((decimal m).drop (e.toNat + 1))
  else if -4 ≤ e ∧ e < 0 then
    pointed ['0'] (List.replicate (-e - 1).toNat '0' ++ decimal m)
  else pointed ((decimal m).take 1) ((decimal m).drop 1) ++ exponentText e

/-- **The text of `%.pg`.** -/
def formatG (p : ℕ) (q : ℚ) : List Char :=
  if q = 0 then ['0']
  else
    (if q < 0 then ['-'] else []) ++
      magnitudeText p (significand p |q|).1 (significand p |q|).2

/-! ### Reading -/

/-- The digits behind a point, if there is one, and what follows. -/
def readFraction : List Char → List Char × List Char
  | '.' :: s => (s.takeWhile Char.isDigit, s.dropWhile Char.isDigit)
  | s => ([], s)

/-- An exponent at the end of a number. -/
def readExponent : List Char → Option ℤ
  | [] => some 0
  | 'e' :: s => if afterInteger s = [] then integerAt s else none
  | _ => none

/-- The number that digits, a fraction and an exponent denote. -/
def readMagnitude (s : List Char) : Option ℚ :=
  let int := s.takeWhile Char.isDigit
  let (frac, rest) := readFraction (s.dropWhile Char.isDigit)
  if int = [] then none
  else
    (readExponent rest).map fun x : ℤ =>
      (digitsValue (int ++ frac) : ℚ) * 10 ^ (x - frac.length)

/-- **The number a text denotes**, with a sign in front. -/
def readNumber (s : List Char) : Option ℚ :=
  let (neg, s) := takeSign s
  (readMagnitude s).map fun q => if neg then -q else q

/-! ### The value of the digits -/

theorem digitsValue_append (xs ys : List Char) :
    digitsValue (xs ++ ys) = digitsValue xs * 10 ^ ys.length + digitsValue ys := by
  induction ys using List.reverseRecOn with
  | nil => simp [digitsValue]
  | append_singleton ys c ih =>
      rw [← List.append_assoc, digitsValue_append_singleton, ih, digitsValue_append_singleton,
        List.length_append, List.length_singleton, pow_succ]
      ring

theorem digitsValue_zeros (k : ℕ) : digitsValue (List.replicate k '0') = 0 := by
  induction k with
  | zero => rfl
  | succ k ih =>
      rw [List.replicate_succ', digitsValue_append_singleton, ih]
      rfl

/-- The zeros at the end of a fraction do not count. -/
theorem value_rdropWhile (int frac : List Char) (x : ℤ) :
    (digitsValue (int ++ frac.rdropWhile (· = '0')) : ℚ) *
        10 ^ (x - (frac.rdropWhile (· = '0')).length) =
      digitsValue (int ++ frac) * 10 ^ (x - frac.length) := by
  have hzeros : frac.rtakeWhile (· = '0') =
      List.replicate (frac.rtakeWhile (· = '0')).length '0' :=
    List.eq_replicate_of_mem fun c hc => by simpa using List.mem_rtakeWhile_imp hc
  have hsplit := List.rdropWhile_append_rtakeWhile (p := fun c => decide (c = '0')) (l := frac)
  conv_rhs => rw [← hsplit, ← List.append_assoc, digitsValue_append, hzeros, digitsValue_zeros,
    List.length_append, List.length_replicate]
  push_cast
  rw [add_zero, mul_assoc, ← zpow_natCast, ← zpow_add₀ (by norm_num)]
  congr 2
  omega

theorem length_decimal {p m : ℕ} (hp : 0 < p) (hlow : 10 ^ (p - 1) ≤ m) (hhigh : m < 10 ^ p) :
    (decimal m).length = p := by
  refine le_antisymm (length_decimal_le hp hhigh) ?_
  by_contra hlt
  have hpos := List.length_pos_of_ne_nil (decimal_ne_nil m)
  have hm : m < 10 ^ (p - 1) :=
    (Nat.length_toDigits_le_iff (by simp) (by omega)).1 (by rw [← decimal]; omega)
  omega

/-! ### Reading back -/

theorem isDigit_zero : '0'.isDigit = true := by decide

/-- What follows a fraction cannot be taken for a part of it. -/
theorem readFraction_pointed {int frac rest : List Char}
    (hint : ∀ c ∈ int, c.isDigit = true) (hfrac : ∀ c ∈ frac, c.isDigit = true)
    (hrest : EndsNumber rest) (hpoint : rest.head? ≠ some '.') :
    (pointed int frac ++ rest).takeWhile Char.isDigit = int ∧
      readFraction ((pointed int frac ++ rest).dropWhile Char.isDigit) =
        (frac.rdropWhile (· = '0'), rest) := by
  have hstripped : ∀ c ∈ frac.rdropWhile (· = '0'), c.isDigit = true := fun c hc =>
    hfrac c (List.IsPrefix.mem hc (List.rdropWhile_prefix _ _))
  unfold pointed
  cases hdrop : frac.rdropWhile (· = '0') with
  | nil =>
      rw [List.append_nil]
      obtain ⟨htake, hrest'⟩ := span_digits hint hrest
      rw [htake, hrest']
      refine ⟨rfl, ?_⟩
      cases rest with
      | nil => rfl
      | cons c rest =>
          rw [readFraction]
          rintro s ⟨⟩
          exact hpoint rfl
  | cons c cs =>
      rw [List.append_assoc, List.cons_append]
      have hends : EndsNumber ('.' :: (c :: cs ++ rest)) := by
        intro d hd
        obtain rfl : '.' = d := by simpa using hd
        decide
      obtain ⟨htake, hdrop'⟩ := span_digits hint hends
      rw [htake, hdrop', readFraction]
      obtain ⟨htake', hrest'⟩ := span_digits (hdrop ▸ hstripped) hrest
      exact ⟨rfl, Prod.ext htake' hrest'⟩

/-- Reading digits, a fraction and an exponent. -/
theorem readMagnitude_pointed {int frac rest : List Char} (hne : int ≠ [])
    (hint : ∀ c ∈ int, c.isDigit = true) (hfrac : ∀ c ∈ frac, c.isDigit = true)
    (hrest : EndsNumber rest) (hpoint : rest.head? ≠ some '.') {x : ℤ}
    (hx : readExponent rest = some x) :
    readMagnitude (pointed int frac ++ rest) =
      some ((digitsValue (int ++ frac) : ℚ) * 10 ^ (x - frac.length)) := by
  obtain ⟨htake, hread⟩ := readFraction_pointed hint hfrac hrest hpoint
  unfold readMagnitude
  rw [htake, hread]
  dsimp only
  rw [if_neg hne, hx, Option.map_some, value_rdropWhile]

/-- An exponent is read back. -/
theorem readExponent_exponentText (e : ℤ) : readExponent (exponentText e) = some e := by
  set ds : List Char := if e.natAbs < 10 then '0' :: decimal e.natAbs else decimal e.natAbs
    with hds
  have hdigits : ∀ c ∈ ds, c.isDigit = true := by
    intro c hc
    rw [hds] at hc
    split at hc
    · rcases List.mem_cons.1 hc with rfl | hc
      · rfl
      · exact isDigit_of_mem_decimal hc
    · exact isDigit_of_mem_decimal hc
  have hvalue : digitsValue ds = e.natAbs := by
    rw [hds]
    split
    · have := digitsValue_append ['0'] (decimal e.natAbs)
      rw [List.singleton_append] at this
      rw [this, digitsValue_decimal]
      simp [digitsValue]
    · exact digitsValue_decimal _
  have htake : ds.takeWhile Char.isDigit = ds := List.takeWhile_eq_self_iff.2 hdigits
  have hdrop : ds.dropWhile Char.isDigit = [] := List.dropWhile_eq_nil_iff.2 hdigits
  obtain ⟨d, ds', hcons⟩ : ∃ d ds', ds = d :: ds' := by
    refine List.exists_cons_of_ne_nil ?_
    rw [hds]
    split
    · simp
    · exact decimal_ne_nil _
  have hsign (neg : Bool) (hneg : takeSign ((if e < 0 then '-' else '+') :: ds) = (neg, ds)) :
      readExponent (exponentText e) =
        some (if neg then -(e.natAbs : ℤ) else (e.natAbs : ℤ)) := by
    rw [exponentText, ← hds, readExponent, afterInteger, integerAt, hneg]
    dsimp only
    rw [htake, hdrop, if_pos rfl, ← hvalue]
    rw [hcons]
  by_cases he : e < 0
  · rw [hsign true (by rw [if_pos he]; rfl), if_pos rfl]
    congr 1
    omega
  · rw [hsign false (by rw [if_neg he]; rfl), if_neg (by simp)]
    congr 1
    omega

/-- **The text of a significand and an exponent denotes their number.** -/
theorem readMagnitude_magnitudeText {p m : ℕ} (hp : 0 < p) (hlow : 10 ^ (p - 1) ≤ m)
    (hhigh : m < 10 ^ p) (e : ℤ) :
    readMagnitude (magnitudeText p m e) = some ((m : ℚ) * 10 ^ (e + 1 - p)) := by
  have hlength := length_decimal hp hlow hhigh
  have hdigits : ∀ c ∈ decimal m, c.isDigit = true := fun c => isDigit_of_mem_decimal
  have hends : EndsNumber [] := by simp [EndsNumber]
  have htake (n : ℕ) (hn : 0 < n) : (decimal m).take n ≠ [] := by
    rw [Ne, List.take_eq_nil_iff]
    have := decimal_ne_nil m
    rintro (h | h)
    · omega
    · exact this h
  have hcut (n : ℕ) (hn : 0 < n) {rest : List Char} (hrest : EndsNumber rest)
      (hpoint : rest.head? ≠ some '.') {x : ℤ} (hx : readExponent rest = some x) :
      readMagnitude (pointed ((decimal m).take n) ((decimal m).drop n) ++ rest) =
        some ((m : ℚ) * 10 ^ (x - ((decimal m).drop n).length)) := by
    rw [readMagnitude_pointed (htake n hn) (fun c hc => hdigits c (List.mem_of_mem_take hc))
      (fun c hc => hdigits c (List.mem_of_mem_drop hc)) hrest hpoint hx, List.take_append_drop,
      digitsValue_decimal]
  unfold magnitudeText
  split
  · rename_i he
    have h := hcut (e.toNat + 1) (by omega) hends (by simp) rfl
    rw [List.append_nil] at h
    rw [h, List.length_drop, hlength]
    congr 3
    omega
  · split
    · rename_i he
      have hfrac : ∀ c ∈ List.replicate (-e - 1).toNat '0' ++ decimal m, c.isDigit = true := by
        intro c hc
        rcases List.mem_append.1 hc with hc | hc
        · rw [List.eq_of_mem_replicate hc]
          rfl
        · exact hdigits c hc
      have h := readMagnitude_pointed (List.cons_ne_nil '0' []) (by simp [isDigit_zero]) hfrac
        hends (by simp) rfl
      rw [List.append_nil] at h
      have hvalue : digitsValue (['0'] ++ (List.replicate (-e - 1).toNat '0' ++ decimal m)) = m := by
        rw [← List.append_assoc, digitsValue_append, ← List.replicate_one,
          List.replicate_append_replicate, digitsValue_zeros, digitsValue_decimal]
        omega
      rw [h, hvalue, List.length_append, List.length_replicate, hlength]
      congr 3
      push_cast
      omega
    · have hexponent : EndsNumber (exponentText e) := by
        intro c hc
        obtain rfl : 'e' = c := by simpa [exponentText] using hc
        decide
      have h := hcut 1 (by decide) hexponent (by simp [exponentText]) (readExponent_exponentText e)
      rw [h, List.length_drop, hlength]
      congr 3
      omega

/-- The text of a positive number starts with a digit. -/
theorem exists_magnitudeText_eq (p m : ℕ) (e : ℤ) :
    ∃ c s, magnitudeText p m e = c :: s ∧ c.isDigit = true := by
  obtain ⟨c, ds, hds⟩ := List.exists_cons_of_ne_nil (decimal_ne_nil m)
  have hc : c.isDigit = true := isDigit_of_mem_decimal (n := m) (by rw [hds]; simp)
  unfold magnitudeText pointed
  rw [hds]
  split
  · exact ⟨c, _, by rw [List.take_succ_cons, List.cons_append], hc⟩
  · split
    · exact ⟨'0', _, rfl, rfl⟩
    · exact ⟨c, _, by rw [List.take_succ_cons, List.cons_append, List.cons_append], hc⟩

/-- **Reading the text back gives the rounded number.** -/
theorem readNumber_formatG {p : ℕ} (hp : 0 < p) (q : ℚ) :
    readNumber (formatG p q) = some (rounded p q) := by
  unfold formatG rounded
  by_cases hq : q = 0
  · rw [if_pos hq, if_pos hq]
    simp [readNumber, takeSign, readMagnitude, readFraction, readExponent, digitsValue]
  · obtain ⟨hlow, hhigh, -⟩ := significand_spec hp (abs_pos.2 hq)
    have hread := readMagnitude_magnitudeText hp hlow hhigh (significand p |q|).2
    rw [if_neg hq, if_neg hq]
    by_cases hneg : q < 0
    · rw [if_pos hneg, List.singleton_append, readNumber, takeSign]
      dsimp only
      rw [hread, Option.map_some, if_pos rfl, if_pos hneg]
    · obtain ⟨c, s, htext, hc⟩ :=
        exists_magnitudeText_eq p (significand p |q|).1 (significand p |q|).2
      rw [if_neg hneg, List.nil_append, readNumber, htext, takeSign_of_isDigit hc, ← htext]
      dsimp only
      rw [hread, Option.map_some, if_neg (by simp), if_neg hneg]

/-! ### How far rounding goes -/

/-- A rounded number is at least a unit of its first digit. -/
theorem rounded_spec {p : ℕ} (hp : 0 < p) {q : ℚ} (hq : q ≠ 0) :
    ∃ e : ℤ, |q - rounded p q| ≤ 10 ^ (e + 1 - p) / 2 ∧ (10 : ℚ) ^ e ≤ |rounded p q| := by
  obtain ⟨hlow, -, herror⟩ := significand_spec hp (abs_pos.2 hq)
  have hsigned (a : ℚ) : |q - if q < 0 then -a else a| = |(|q|) - a| := by
    split
    · rename_i hneg
      rw [abs_of_neg hneg, ← abs_neg]
      congr 1
      ring
    · rename_i hneg
      rw [abs_of_nonneg (not_lt.1 hneg)]
  refine ⟨(significand p |q|).2, ?_, ?_⟩
  · unfold rounded
    rw [if_neg hq]
    dsimp only
    rw [hsigned]
    exact herror
  · have hsize : |rounded p q| =
        (significand p |q|).1 * 10 ^ ((significand p |q|).2 + 1 - p) := by
      have hpos : (0 : ℚ) ≤ (significand p |q|).1 * 10 ^ ((significand p |q|).2 + 1 - p) :=
        mul_nonneg (Nat.cast_nonneg _) (zpow_pos (by norm_num) _).le
      unfold rounded
      rw [if_neg hq]
      dsimp only
      split
      · rw [abs_neg, abs_of_nonneg hpos]
      · rw [abs_of_nonneg hpos]
    rw [hsize]
    calc (10 : ℚ) ^ (significand p |q|).2
        = ((10 ^ (p - 1) : ℕ) : ℚ) * 10 ^ ((significand p |q|).2 + 1 - p) := by
          push_cast
          rw [← zpow_natCast, ← zpow_add₀ (by norm_num)]
          congr 1
          omega
      _ ≤ (significand p |q|).1 * 10 ^ ((significand p |q|).2 + 1 - p) :=
          mul_le_mul_of_nonneg_right (by exact_mod_cast hlow) (zpow_pos (by norm_num) _).le

/-- No number is written as a zero with a sign. -/
theorem formatG_ne_negativeZero {p : ℕ} (hp : 0 < p) (q : ℚ) : formatG p q ≠ ['-', '0'] := by
  intro h
  by_cases hq : q = 0
  · rw [formatG, if_pos hq] at h
    exact absurd h (by decide)
  · obtain ⟨e, -, hsize⟩ := rounded_spec hp hq
    have hread : readNumber ['-', '0'] = some (rounded p q) := h ▸ readNumber_formatG hp q
    have hzero : readNumber ['-', '0'] = some 0 := by decide +kernel
    have hrounded : rounded p q = 0 := Option.some_inj.1 (hread.symm.trans hzero)
    rw [hrounded, abs_zero] at hsize
    exact absurd hsize (not_le.2 (zpow_pos (by norm_num) e))

/-- **Rounding is off by half a unit of the last digit at most**, relative to the result. -/
theorem abs_sub_rounded_le {p : ℕ} (hp : 0 < p) (q : ℚ) :
    |q - rounded p q| ≤ |rounded p q| * 10 ^ (1 - p : ℤ) / 2 := by
  by_cases hq : q = 0
  · simp [rounded, hq]
  · obtain ⟨e, herror, hsize⟩ := rounded_spec hp hq
    calc |q - rounded p q| ≤ 10 ^ (e + 1 - p) / 2 := herror
      _ = 10 ^ e * 10 ^ (1 - p : ℤ) / 2 := by
          rw [← zpow_add₀ (by norm_num)]
          congr 2
          ring
      _ ≤ |rounded p q| * 10 ^ (1 - p : ℤ) / 2 := by
          have := mul_le_mul_of_nonneg_right hsize (zpow_pos (by norm_num : (0 : ℚ) < 10) (1 - p)).le
          linarith

/-- **Natural numbers with no more digits are not changed.** -/
theorem rounded_natCast {p : ℕ} (hp : 0 < p) {n : ℕ} (hn : n < 10 ^ p) :
    rounded p (n : ℚ) = n := by
  by_cases hzero : n = 0
  · simp [rounded, hzero]
  · have hpos : (0 : ℚ) < n := by exact_mod_cast Nat.pos_of_ne_zero hzero
    have hlog : Int.log 10 (n : ℚ) = Nat.log 10 n := Int.log_natCast 10 n
    have hlt : Nat.log 10 n < p := Nat.log_lt_of_lt_pow hzero hn
    obtain ⟨k, hk⟩ : ∃ k, p - 1 = Nat.log 10 n + k := ⟨p - 1 - Nat.log 10 n, by omega⟩
    have hscaled : (n : ℚ) * 10 ^ ((p : ℤ) - 1 - Int.log 10 (n : ℚ)) = ((n * 10 ^ k : ℕ) : ℚ) := by
      rw [hlog, show (p : ℤ) - 1 - Nat.log 10 n = (k : ℕ) by omega, zpow_natCast]
      push_cast
      rfl
    have hround : roundHalfEven ((n * 10 ^ k : ℕ) : ℚ) = n * 10 ^ k := by
      unfold roundHalfEven
      rw [Nat.floor_natCast, if_pos (Or.inl (by norm_num))]
    have hfew : n * 10 ^ k < 10 ^ p := by
      have := (scaled_bounds hp hpos).2
      rw [hscaled] at this
      exact_mod_cast this
    have hsignificand : significand p (n : ℚ) = (n * 10 ^ k, (Nat.log 10 n : ℤ)) := by
      unfold significand
      dsimp only
      rw [hscaled, hround, if_neg hfew.ne, hlog]
    unfold rounded
    rw [if_neg hpos.ne', abs_of_pos hpos, hsignificand]
    dsimp only
    rw [if_neg (not_lt.2 hpos.le), show (Nat.log 10 n : ℤ) + 1 - p = -(k : ℕ) by omega,
      zpow_neg, zpow_natCast]
    push_cast
    rw [mul_assoc, mul_inv_cancel₀ (by positivity), mul_one]

/-! ### Doubles -/

/-- The values of a `double`: 53 significant bits, and any exponent. -/
def IsDouble (q : ℚ) : Prop := ∃ m e : ℤ, |m| < 2 ^ 53 ∧ q = m * 2 ^ e

/-- Two doubles are at least as far apart as the last bit of one of them. -/
theorem IsDouble.lt_abs_sub {x y : ℚ} (hx : IsDouble x) (hy : IsDouble y) (hne : x ≠ y) :
    |x| < |x - y| * 2 ^ 53 ∨ |y| < |x - y| * 2 ^ 53 := by
  have hcase {m n e f : ℤ} (hm : |m| < 2 ^ 53) (hef : e ≤ f)
      (hne : (m : ℚ) * 2 ^ e ≠ n * 2 ^ f) :
      |(m : ℚ) * 2 ^ e| < |(m : ℚ) * 2 ^ e - n * 2 ^ f| * 2 ^ 53 := by
    obtain ⟨k, hk⟩ := Int.le.dest hef
    have hpos : (0 : ℚ) < 2 ^ e := zpow_pos (by norm_num) _
    have hdiff : (m : ℚ) * 2 ^ e - n * 2 ^ f = ((m - n * 2 ^ k : ℤ) : ℚ) * 2 ^ e := by
      rw [← hk, zpow_add₀ (by norm_num), zpow_natCast]
      push_cast
      ring
    have hint : m - n * 2 ^ k ≠ 0 := by
      intro h
      rw [h] at hdiff
      exact hne (by simpa [sub_eq_zero] using hdiff)
    have hone : (1 : ℚ) ≤ |((m - n * 2 ^ k : ℤ) : ℚ)| := by
      exact_mod_cast Int.one_le_abs hint
    have hm' : |(m : ℚ)| < 2 ^ 53 := by exact_mod_cast hm
    rw [hdiff, abs_mul, abs_mul, abs_of_pos hpos]
    calc |(m : ℚ)| * 2 ^ e < 2 ^ 53 * 2 ^ e := mul_lt_mul_of_pos_right hm' hpos
      _ ≤ |((m - n * 2 ^ k : ℤ) : ℚ)| * 2 ^ e * 2 ^ 53 := by
          have := mul_le_mul_of_nonneg_right hone hpos.le
          linarith
  obtain ⟨m, e, hm, rfl⟩ := hx
  obtain ⟨n, f, hn, rfl⟩ := hy
  rcases le_total e f with hef | hef
  · exact Or.inl (hcase hm hef hne)
  · rw [abs_sub_comm]
    exact Or.inr (hcase hn hef hne.symm)

/-- **Seventeen digits tell any two doubles apart.** -/
theorem rounded_injective {x y : ℚ} (hx : IsDouble x) (hy : IsDouble y)
    (h : rounded 17 x = rounded 17 y) : x = y := by
  by_contra hne
  have hxerror := abs_sub_rounded_le (p := 17) (by decide) x
  have hyerror := abs_sub_rounded_le (p := 17) (by decide) y
  rw [h] at hxerror
  set r := rounded 17 y
  norm_num at hxerror hyerror
  have hdist : |x - y| ≤ |x - r| + |y - r| := by
    rw [abs_sub_comm y r]
    exact abs_sub_le x r y
  have hfar (z : ℚ) (hz : |z - r| ≤ |r| * (1 / 10000000000000000) / 2)
      (hlt : |z| < |x - y| * 2 ^ 53) : False := by
    have hr : |r| ≤ |z| + |z - r| := by
      have := abs_sub_abs_le_abs_sub r z
      rw [abs_sub_comm] at this
      linarith
    have := abs_nonneg r
    norm_num at hlt
    linarith
  rcases hx.lt_abs_sub hy hne with hlt | hlt
  · exact hfar x hxerror hlt
  · exact hfar y hyerror hlt

/-- The texts tell two doubles apart, too. -/
theorem formatG_injective {x y : ℚ} (hx : IsDouble x) (hy : IsDouble y)
    (h : formatG 17 x = formatG 17 y) : x = y := by
  refine rounded_injective hx hy (Option.some_inj.1 ?_)
  rw [← readNumber_formatG (by decide), h, readNumber_formatG (by decide)]

/-! ### The characters of the text -/

/-- The characters of a number. -/
def IsNumberChar (c : Char) : Prop := c.isDigit = true ∨ c ∈ ['.', '-', '+', 'e']

theorem mem_pointed {int frac : List Char} {c : Char} (h : c ∈ pointed int frac) :
    c ∈ int ∨ c = '.' ∨ c ∈ frac := by
  unfold pointed at h
  rcases List.mem_append.1 h with h | h
  · exact Or.inl h
  · split at h
    · simp at h
    · rename_i d ds hdrop
      rcases List.mem_cons.1 h with rfl | h
      · exact Or.inr (Or.inl rfl)
      · exact Or.inr (Or.inr ((List.rdropWhile_prefix _ _).mem (hdrop ▸ h)))

theorem isNumberChar_magnitudeText {p m : ℕ} {e : ℤ} {c : Char} (h : c ∈ magnitudeText p m e) :
    IsNumberChar c := by
  have hdigit {n : ℕ} {c : Char} (h : c ∈ decimal n) : IsNumberChar c :=
    Or.inl (isDigit_of_mem_decimal h)
  have hcut {n : ℕ} (h : c ∈ pointed ((decimal m).take n) ((decimal m).drop n)) :
      IsNumberChar c := by
    rcases mem_pointed h with h | rfl | h
    · exact hdigit (List.mem_of_mem_take h)
    · exact Or.inr (by simp)
    · exact hdigit (List.mem_of_mem_drop h)
  unfold magnitudeText at h
  split at h
  · exact hcut h
  · split at h
    · rcases mem_pointed h with h | rfl | h
      · rw [List.mem_singleton.1 h]
        exact Or.inl rfl
      · exact Or.inr (by simp)
      · rcases List.mem_append.1 h with h | h
        · rw [List.eq_of_mem_replicate h]
          exact Or.inl rfl
        · exact hdigit h
    · rcases List.mem_append.1 h with h | h
      · exact hcut h
      · unfold exponentText at h
        rcases List.mem_cons.1 h with rfl | h
        · exact Or.inr (by simp)
        · rcases List.mem_cons.1 h with rfl | h
          · split <;> exact Or.inr (by simp)
          · split at h
            · rcases List.mem_cons.1 h with rfl | h
              · exact Or.inl rfl
              · exact hdigit h
            · exact hdigit h

/-- **A printed number consists of digits, a point, signs and an `e`.** -/
theorem formatG_chars {p : ℕ} {q : ℚ} {c : Char} (h : c ∈ formatG p q) : IsNumberChar c := by
  unfold formatG at h
  split at h
  · rw [List.mem_singleton.1 h]
    exact Or.inl rfl
  · rcases List.mem_append.1 h with h | h
    · split at h
      · rw [List.mem_singleton.1 h]
        exact Or.inr (by simp)
      · simp at h
    · exact isNumberChar_magnitudeText h

theorem isDigit_ne_point {c : Char} (h : c.isDigit = true) : c ≠ '.' := by
  rintro rfl
  exact absurd h (by decide)

/-- A fraction does not consist of a zero, which would be dropped. -/
theorem pointed_ne_append (t : List Char) {int : List Char} (frac : List Char)
    (hint : ∀ c ∈ int, c.isDigit = true) : pointed int frac ≠ t ++ ['.', '0'] := by
  intro h
  have hpoint : '.' ∉ int := fun hmem => isDigit_ne_point (hint _ hmem) rfl
  unfold pointed at h
  split at h
  · rw [List.append_nil] at h
    exact hpoint (h ▸ by simp)
  · rename_i c cs hdrop
    have hlast := List.rdropWhile_last_not (· = '0') frac (by rw [hdrop]; exact List.cons_ne_nil _ _)
    have hzero : (int ++ '.' :: c :: cs).getLast (by simp) = '0' := by
      simp only [h]
      simp
    rw [List.getLast_append_of_ne_nil (by simp) (by simp), List.getLast_cons (by simp)] at hzero
    simp only [hdrop, hzero] at hlast
    simp at hlast

theorem magnitudeText_ne_append (p m : ℕ) (e : ℤ) (t : List Char) :
    magnitudeText p m e ≠ t ++ ['.', '0'] := by
  have hdigits (k : ℕ) : ∀ c ∈ (decimal m).take k, c.isDigit = true :=
    fun c hc => isDigit_of_mem_decimal (List.mem_of_mem_take hc)
  unfold magnitudeText
  split
  · exact pointed_ne_append t _ (hdigits _)
  · split
    · refine pointed_ne_append t _ fun c hc => ?_
      rw [List.mem_singleton.1 hc]
      exact isDigit_zero
    · intro h
      -- the exponent has more than two characters, and no point
      have hsuffix : ['.', '0'] <:+ exponentText e := by
        refine List.suffix_of_suffix_length_le ⟨t, h.symm⟩ (List.suffix_append _ _) ?_
        unfold exponentText
        split <;> simp
      have hmem : '.' ∈ exponentText e := hsuffix.mem (by simp)
      unfold exponentText at hmem
      rcases List.mem_cons.1 hmem with hmem | hmem
      · exact absurd hmem (by decide)
      · rcases List.mem_cons.1 hmem with hmem | hmem
        · split at hmem <;> exact absurd hmem (by decide)
        · split at hmem
          · rcases List.mem_cons.1 hmem with hmem | hmem
            · exact absurd hmem (by decide)
            · exact isDigit_ne_point (isDigit_of_mem_decimal hmem) rfl
          · exact isDigit_ne_point (isDigit_of_mem_decimal hmem) rfl

/-- **A printed number does not end in a point and a zero.** -/
theorem formatG_ne_append (p : ℕ) (q : ℚ) (t : List Char) : formatG p q ≠ t ++ ['.', '0'] := by
  unfold formatG
  split
  · intro h
    have hlength := congrArg List.length h
    simp at hlength
  · split
    · intro h
      cases t with
      | nil => simp at h
      | cons c t => exact magnitudeText_ne_append p _ _ t (List.cons.inj h).2
    · exact magnitudeText_ne_append p _ _ t

end FormattedOutput
