/-
**Arithmetic on doubles.**

An operation of the machine on two doubles gives the double nearest to the exact result, the one
with an even last bit of two.  Only numbers that are not negative are rounded here, far from the
largest and from the smallest double, so that the exponent has no bounds.

* `FloatingPoint.toDouble` — the double nearest to a number;
* `FloatingPoint.toDouble_le`, `FloatingPoint.le_toDouble` — **rounding does not pass a double**;
* `FloatingPoint.toDouble_eq_self_iff` — the numbers that are not changed;
* `FloatingPoint.IsDouble.gap` — the gap below a double;
* `FloatingPoint.toDouble_div_lt_iff` — **a quotient of doubles is rounded to less than a power of
  two exactly when it is less**.
-/

import MetricsMonitor.FormattedOutput

set_option relaxedAutoImplicit false
set_option autoImplicit false

namespace FloatingPoint

open FormattedOutput

/-- The last of the 53 bits of a positive number. -/
def lastBit (q : ℚ) : ℚ := 2 ^ (Int.log 2 q - 52)

/-- The double nearest to a number that is not negative. -/
def toDouble (q : ℚ) : ℚ := roundHalfEven (q / lastBit q) * lastBit q

theorem lastBit_pos (q : ℚ) : 0 < lastBit q := zpow_pos (by norm_num) _

@[simp] theorem toDouble_zero : toDouble 0 = 0 := by
  have hround : roundHalfEven 0 = 0 := Nat.le_zero.1 (roundHalfEven_le le_rfl (by norm_num))
  rw [toDouble, zero_div, hround, Nat.cast_zero, zero_mul]

/-- A positive number has 53 bits down to the last one. -/
theorem lastBit_bounds {q : ℚ} (hq : 0 < q) :
    2 ^ 52 * lastBit q ≤ q ∧ q < 2 ^ 53 * lastBit q := by
  have hlow : ((2 : ℕ) : ℚ) ^ Int.log 2 q ≤ q := Int.zpow_log_le_self (by decide) hq
  have hhigh : q < ((2 : ℕ) : ℚ) ^ (Int.log 2 q + 1) := Int.lt_zpow_succ_log_self (by decide) q
  have hscale (k : ℕ) : (2 : ℚ) ^ k * lastBit q = 2 ^ (Int.log 2 q - 52 + k) := by
    rw [lastBit, ← zpow_natCast, ← zpow_add₀ (by norm_num), add_comm]
  push_cast at hlow hhigh
  rw [hscale, hscale]
  constructor
  · simpa using hlow
  · rw [show Int.log 2 q - 52 + (53 : ℕ) = Int.log 2 q + 1 by push_cast; ring]
    exact hhigh

/-! ### Doubles -/

/-- A power of two, multiplied by an integer of 53 bits, is a double. -/
theorem isDouble_mul_zpow {n : ℕ} (hn : n < 2 ^ 53) (e : ℤ) : IsDouble (n * 2 ^ e) :=
  ⟨n, e, by rw [Nat.abs_cast]; exact_mod_cast hn, by push_cast; rfl⟩

/-- Multiplying by a power of two changes the exponent only. -/
theorem isDouble_zpow_mul {x : ℚ} (hx : IsDouble x) (k : ℤ) : IsDouble (2 ^ k * x) := by
  obtain ⟨m, e, hm, rfl⟩ := hx
  refine ⟨m, e + k, hm, ?_⟩
  rw [zpow_add₀ (by norm_num)]
  ring

/-- A double that is not negative, as 53 bits and an exponent. -/
theorem exists_nat_of_isDouble {x : ℚ} (hx : IsDouble x) (hnonneg : 0 ≤ x) :
    ∃ (n : ℕ) (e : ℤ), n < 2 ^ 53 ∧ x = n * 2 ^ e := by
  obtain ⟨m, e, hm, rfl⟩ := hx
  have hpos : (0 : ℚ) < 2 ^ e := zpow_pos (by norm_num) _
  have hm0 : 0 ≤ m := by
    have := nonneg_of_mul_nonneg_left hnonneg hpos
    exact_mod_cast this
  obtain ⟨n, rfl⟩ := Int.eq_ofNat_of_zero_le hm0
  rw [abs_of_nonneg hm0] at hm
  exact ⟨n, e, by exact_mod_cast hm, by push_cast; rfl⟩

/-- **A double that reaches up to the first of 53 bits is a multiple of the last.** -/
theorem exists_multiple {x : ℚ} (hx : IsDouble x) {e : ℤ} (hle : 2 ^ 52 * 2 ^ e ≤ x) :
    ∃ n : ℕ, x = n * 2 ^ e := by
  have hpos (f : ℤ) : (0 : ℚ) < 2 ^ f := zpow_pos (by norm_num) _
  have hnonneg : 0 ≤ x := (mul_nonneg (by norm_num) (hpos e).le).trans hle
  obtain ⟨m, f, hm, rfl⟩ := exists_nat_of_isDouble hx hnonneg
  have hef : e ≤ f := by
    by_contra hlt
    have htwo : 2 * (2 : ℚ) ^ f ≤ 2 ^ e := by
      rw [← zpow_one_add₀ (by norm_num)]
      exact zpow_le_zpow_right₀ (by norm_num) (by omega)
    have hlt : (m : ℚ) * 2 ^ f < 2 ^ 53 * 2 ^ f :=
      mul_lt_mul_of_pos_right (by exact_mod_cast hm) (hpos f)
    linarith
  obtain ⟨k, hk⟩ := Int.le.dest hef
  refine ⟨m * 2 ^ k, ?_⟩
  rw [← hk, zpow_add₀ (by norm_num), zpow_natCast]
  push_cast
  ring

/-! ### Rounding -/

/-- **Rounding does not pass a double above the number.** -/
theorem toDouble_le {q x : ℚ} (hq : 0 ≤ q) (hx : IsDouble x) (h : q ≤ x) : toDouble q ≤ x := by
  rcases hq.eq_or_lt with rfl | hpos
  · rw [toDouble_zero]
    exact h
  · have hbit := lastBit_pos q
    obtain ⟨n, hn⟩ := exists_multiple hx ((lastBit_bounds hpos).1.trans h)
    have hscaled : q / lastBit q ≤ n := by
      rw [div_le_iff₀ hbit]
      exact h.trans_eq hn
    have hle := roundHalfEven_le (div_nonneg hq hbit.le) hscaled
    have hcast : (roundHalfEven (q / lastBit q) : ℚ) ≤ n := by exact_mod_cast hle
    exact (mul_le_mul_of_nonneg_right hcast hbit.le).trans_eq hn.symm

/-- **Rounding does not pass a double below the number.** -/
theorem le_toDouble {q x : ℚ} (hx : IsDouble x) (h : x ≤ q) (hq : 0 ≤ q) : x ≤ toDouble q := by
  rcases hq.eq_or_lt with rfl | hpos
  · rw [toDouble_zero]
    exact h
  · have hbit := lastBit_pos q
    have hscaled {n : ℕ} (hn : n * lastBit q ≤ q) : n * lastBit q ≤ toDouble q := by
      have hle := le_roundHalfEven ((le_div_iff₀ hbit).2 hn)
      have hcast : (n : ℚ) ≤ roundHalfEven (q / lastBit q) := by exact_mod_cast hle
      exact mul_le_mul_of_nonneg_right hcast hbit.le
    rcases le_total (2 ^ 52 * lastBit q) x with hhigh | hlow
    · obtain ⟨n, hn⟩ := exists_multiple hx hhigh
      exact hn.trans_le (hscaled (hn.symm.trans_le h))
    · refine hlow.trans ?_
      have hbits := hscaled (n := 2 ^ 52) (by exact_mod_cast (lastBit_bounds hpos).1)
      exact_mod_cast hbits

theorem toDouble_nonneg (q : ℚ) : 0 ≤ toDouble q :=
  mul_nonneg (Nat.cast_nonneg _) (lastBit_pos q).le

theorem toDouble_of_isDouble {q : ℚ} (h : IsDouble q) (hq : 0 ≤ q) : toDouble q = q :=
  le_antisymm (toDouble_le hq h le_rfl) (le_toDouble h le_rfl hq)

/-- The result is a double. -/
theorem isDouble_toDouble {q : ℚ} (hq : 0 ≤ q) : IsDouble (toDouble q) := by
  rcases hq.eq_or_lt with rfl | hpos
  · rw [toDouble_zero]
    exact ⟨0, 0, by norm_num, by norm_num⟩
  · have hbit := lastBit_pos q
    have hscaled : q / lastBit q ≤ (2 ^ 53 : ℕ) := by
      rw [div_le_iff₀ hbit]
      exact_mod_cast (lastBit_bounds hpos).2.le
    rcases (roundHalfEven_le (div_nonneg hq hbit.le) hscaled).lt_or_eq with hlt | heq
    · exact isDouble_mul_zpow hlt _
    · -- the number is rounded up to the next power of two
      rw [toDouble, heq, lastBit]
      have hone := isDouble_mul_zpow (n := 1) (by norm_num) 53
      have hpow := isDouble_zpow_mul hone (Int.log 2 q - 52)
      rw [mul_comm] at hpow
      exact_mod_cast hpow

/-- **The numbers that are not changed.** -/
theorem toDouble_eq_self_iff {q : ℚ} (hq : 0 ≤ q) : toDouble q = q ↔ IsDouble q :=
  ⟨fun h => h ▸ isDouble_toDouble hq, fun h => toDouble_of_isDouble h hq⟩

/-- A tie goes to the even neighbour. -/
example : toDouble (2 ^ 53 + 1) = 2 ^ 53 ∧ toDouble (2 ^ 53 + 3) = 2 ^ 53 + 4 := by decide +kernel

/-- A positive number is not rounded to zero, nor to more than its double. -/
theorem toDouble_pos {q : ℚ} (hq : 0 < q) : 0 < toDouble q := by
  have hfirst : IsDouble ((1 : ℕ) * 2 ^ Int.log 2 q) := isDouble_mul_zpow (by norm_num) _
  have hle : ((2 : ℕ) : ℚ) ^ Int.log 2 q ≤ q := Int.zpow_log_le_self (by decide) hq
  push_cast at hfirst hle
  rw [one_mul] at hfirst
  exact (zpow_pos (by norm_num) _).trans_le (le_toDouble hfirst hle hq.le)

theorem toDouble_le_two_mul {q : ℚ} (hq : 0 ≤ q) : toDouble q ≤ 2 * q := by
  rcases hq.eq_or_lt with rfl | hpos
  · simp
  · have hnext : IsDouble ((1 : ℕ) * 2 ^ (Int.log 2 q + 1)) := isDouble_mul_zpow (by norm_num) _
    have hlow : ((2 : ℕ) : ℚ) ^ Int.log 2 q ≤ q := Int.zpow_log_le_self (by decide) hpos
    have hhigh : q < ((2 : ℕ) : ℚ) ^ (Int.log 2 q + 1) := Int.lt_zpow_succ_log_self (by decide) q
    push_cast at hnext hlow hhigh
    rw [one_mul] at hnext
    have hle := toDouble_le hq hnext hhigh.le
    rw [zpow_add_one₀ (by norm_num)] at hle
    linarith

/-! ### Quotients -/

/-- **The gap below a double** is at least its part of `2 ^ 53`. -/
theorem IsDouble.gap {x y : ℚ} (hx : IsDouble x) (hy : IsDouble y) (hnonneg : 0 ≤ x)
    (h : x < y) : x ≤ y * (1 - 1 / 2 ^ 53) := by
  obtain ⟨m, e, hm, rfl⟩ := exists_nat_of_isDouble hx hnonneg
  obtain ⟨n, f, hn, rfl⟩ := exists_nat_of_isDouble hy (hnonneg.trans h.le)
  have hpos (f : ℤ) : (0 : ℚ) < 2 ^ f := zpow_pos (by norm_num) _
  have hm' : (m : ℚ) + 1 ≤ 2 ^ 53 := by exact_mod_cast hm
  have hn' : (n : ℚ) ≤ 2 ^ 53 := by exact_mod_cast hn.le
  have hmbit := mul_le_mul_of_nonneg_right hm' (hpos e).le
  have hnbit := mul_le_mul_of_nonneg_right hn' (hpos f).le
  rcases le_total f e with hfe | hef
  · -- both are multiples of the last bit of the larger one
    obtain ⟨k, hk⟩ := Int.le.dest hfe
    have hmk : (m : ℚ) * 2 ^ e = (m * 2 ^ k : ℕ) * 2 ^ f := by
      rw [← hk, zpow_add₀ (by norm_num), zpow_natCast]
      push_cast
      ring
    rw [hmk] at h ⊢
    have hlt : m * 2 ^ k < n := by
      have := lt_of_mul_lt_mul_right h (hpos f).le
      exact_mod_cast this
    have hle : ((m * 2 ^ k : ℕ) : ℚ) + 1 ≤ n := by exact_mod_cast hlt
    have := mul_le_mul_of_nonneg_right hle (hpos f).le
    linarith
  · -- both are multiples of the last bit of the smaller one, unless the larger one has more bits
    obtain ⟨k, hk⟩ := Int.le.dest hef
    have hnk : (n : ℚ) * 2 ^ f = (n * 2 ^ k : ℕ) * 2 ^ e := by
      rw [← hk, zpow_add₀ (by norm_num), zpow_natCast]
      push_cast
      ring
    rw [hnk] at h ⊢
    have hlt : m < n * 2 ^ k := by
      have := lt_of_mul_lt_mul_right h (hpos e).le
      exact_mod_cast this
    have hle : (m : ℚ) + 1 ≤ (n * 2 ^ k : ℕ) := by exact_mod_cast hlt
    have hbit := mul_le_mul_of_nonneg_right hle (hpos e).le
    rcases le_total ((n * 2 ^ k : ℕ) : ℚ) (2 ^ 53) with hsmall | hlarge
    · have := mul_le_mul_of_nonneg_right hsmall (hpos e).le
      linarith
    · have := mul_le_mul_of_nonneg_right hlarge (hpos e).le
      linarith

/-- **A quotient of doubles is rounded to less than a power of two exactly when it is less.** -/
theorem toDouble_div_lt_iff {x y : ℚ} (hx : IsDouble x) (hy : IsDouble y) (hnonneg : 0 ≤ x)
    (hpos : 0 < y) (k : ℕ) : toDouble (x / y) < 2 ^ k ↔ x < 2 ^ k * y := by
  have hquotient : 0 ≤ x / y := div_nonneg hnonneg hpos.le
  constructor
  · intro h
    by_contra hge
    have hpow : IsDouble ((1 : ℕ) * 2 ^ (k : ℤ)) := isDouble_mul_zpow (by norm_num) _
    rw [Nat.cast_one, one_mul, zpow_natCast] at hpow
    have hle : 2 ^ k ≤ x / y := by
      rw [le_div_iff₀ hpos]
      exact not_lt.1 hge
    exact absurd (le_toDouble hpow hle hquotient) (not_le.2 h)
  · intro h
    have hscaled := isDouble_zpow_mul hy k
    rw [zpow_natCast] at hscaled
    have hgap := IsDouble.gap hx hscaled hnonneg h
    -- the largest double below the power of two
    have hbelow : IsDouble ((2 ^ 53 - 1 : ℕ) * 2 ^ ((k : ℤ) - 53)) :=
      isDouble_mul_zpow (by norm_num) _
    have hvalue : ((2 ^ 53 - 1 : ℕ) : ℚ) * 2 ^ ((k : ℤ) - 53) = 2 ^ k * (1 - 1 / 2 ^ 53) := by
      rw [zpow_sub₀ (by norm_num), zpow_natCast]
      norm_num
      ring
    rw [hvalue] at hbelow
    have hle : x / y ≤ 2 ^ k * (1 - 1 / 2 ^ 53) := by
      rw [div_le_iff₀ hpos]
      linarith
    refine (toDouble_le hquotient hbelow hle).trans_lt ?_
    have : (0 : ℚ) < 2 ^ k := by positivity
    linarith

end FloatingPoint
