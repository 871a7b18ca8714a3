/-
**Expressions of a signed integer type, built with shifts and bitwise or.**

In C a left shift of a nonnegative signed integer is defined only when the mathematical result can
be represented in the type; otherwise the behaviour is undefined, whatever bits a machine would
leave.  An expression is therefore given two meanings: a natural number, and the word that the
machine computes.  They agree when no sub-expression leaves the range of the type.

Main definitions:

* `IntExpr` — numbers, left shifts, bitwise or;
* `IntExpr.value`, `IntExpr.eval` — the mathematical value, and the word of `w + 1` bits;
* `IntExpr.Fits` — every sub-expression is at most `2 ^ w - 1`.

Main results:

* `IntExpr.fits_nat`, `IntExpr.fits_shl`, `IntExpr.fits_or` — when an expression fits, by its form;
* `IntExpr.toNat_eval`, `IntExpr.toInt_eval` — **the word of an expression that fits is its
  value**, read as an unsigned or as a signed number.
-/

import Mathlib.Data.Nat.Bitwise

set_option relaxedAutoImplicit false
set_option autoImplicit false

/-- An expression over nonnegative integers. -/
inductive IntExpr
  | nat (n : ℕ)
  /-- A left shift. -/
  | shl (e : IntExpr) (k : ℕ)
  /-- Bitwise or. -/
  | or (a b : IntExpr)

namespace IntExpr

/-! ### The two meanings -/

/-- The mathematical value. -/
def value : IntExpr → ℕ
  | nat n => n
  | shl e k => e.value * 2 ^ k
  | or a b => a.value ||| b.value

/-- The word of `w + 1` bits that the machine computes. -/
def eval (w : ℕ) : IntExpr → BitVec (w + 1)
  | nat n => BitVec.ofNat (w + 1) n
  | shl e k => e.eval w <<< k
  | or a b => a.eval w ||| b.eval w

/-- The sub-expressions, the expression itself among them. -/
def subexpressions : IntExpr → List IntExpr
  | nat n => [nat n]
  | shl e k => shl e k :: e.subexpressions
  | or a b => or a b :: (a.subexpressions ++ b.subexpressions)

/-- No sub-expression exceeds the largest integer of a signed type of `w + 1` bits. -/
def Fits (w : ℕ) (e : IntExpr) : Prop := ∀ a ∈ e.subexpressions, a.value < 2 ^ w

/-! ### What fits -/

theorem mem_subexpressions_self (e : IntExpr) : e ∈ e.subexpressions := by
  cases e with
  | nat n => exact List.mem_singleton_self _
  | shl e k => exact List.mem_cons_self ..
  | or a b => exact List.mem_cons_self ..

variable {w : ℕ}

theorem Fits.value_lt {e : IntExpr} (h : e.Fits w) : e.value < 2 ^ w :=
  h e e.mem_subexpressions_self

theorem fits_nat (n : ℕ) : (nat n).Fits w ↔ n < 2 ^ w := by
  simp [Fits, subexpressions, value]

theorem fits_shl (e : IntExpr) (k : ℕ) :
    (shl e k).Fits w ↔ e.Fits w ∧ e.value * 2 ^ k < 2 ^ w := by
  simp [Fits, subexpressions, value, and_comm]

/-- Bitwise or does not leave the range of its arguments. -/
theorem fits_or (a b : IntExpr) : (or a b).Fits w ↔ a.Fits w ∧ b.Fits w := by
  have hsub : (or a b).Fits w ↔ a.value ||| b.value < 2 ^ w ∧ a.Fits w ∧ b.Fits w := by
    simp only [Fits, subexpressions, value, List.forall_mem_cons, List.forall_mem_append]
  rw [hsub]
  constructor
  · exact fun h => h.2
  · intro h
    exact ⟨Nat.or_lt_two_pow h.1.value_lt h.2.value_lt, h⟩

/-! ### The word -/

/-- **The word of an expression that fits is its value.**  The induction is on the expression: no
shift drops a bit. -/
theorem toNat_eval {e : IntExpr} (h : e.Fits w) : (e.eval w).toNat = e.value := by
  have hpow : 2 ^ w < 2 ^ (w + 1) := Nat.pow_lt_pow_right (by omega) (by omega)
  induction e with
  | nat n =>
      have hn := (fits_nat n).1 h
      rw [eval, BitVec.toNat_ofNat, Nat.mod_eq_of_lt (by omega), value]
  | shl e k ih =>
      obtain ⟨he, hk⟩ := (fits_shl e k).1 h
      rw [eval, BitVec.toNat_shiftLeft, ih he, Nat.shiftLeft_eq, Nat.mod_eq_of_lt (by omega), value]
  | or a b iha ihb =>
      obtain ⟨ha, hb⟩ := (fits_or a b).1 h
      rw [eval, BitVec.toNat_or, iha ha, ihb hb, value]

/-- Read as a signed number, the word is the value too: its sign bit is not set. -/
theorem toInt_eval {e : IntExpr} (h : e.Fits w) : (e.eval w).toInt = e.value := by
  have hlt := h.value_lt
  have hpow : 2 ^ (w + 1) = 2 * 2 ^ w := by
    rw [Nat.pow_succ, Nat.mul_comm]
  rw [BitVec.toInt_eq_toNat_of_lt, toNat_eval h]
  rw [toNat_eval h]
  omega

end IntExpr
