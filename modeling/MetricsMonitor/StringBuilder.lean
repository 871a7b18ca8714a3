/-
**The string builder of libprom: `prom_string_builder.c`.**

A builder keeps a text, with a null byte behind it, in a block that grows by doubling.  After it
has grown the block the source does not record the new size in `allocated`, which stays at its
first value, 128: every later addition to a longer text computes the size from 128 again and calls
`realloc` again, with a size that may be smaller than that of the block.  That is slow, and the
question is whether it is safe.

* `Monitor.Psb` and its functions `Monitor.psbNew`, `Monitor.psbEnsureSpace`, `Monitor.psbAddStr`,
  `Monitor.psbAddChar`, `Monitor.psbTruncate`, `Monitor.psbClear`, `Monitor.psbDump` — an access
  outside the block has no result, and neither has a loop that does not end;
* `Monitor.PsbCall`, `Monitor.PsbCall.perform`, `Monitor.PsbCall.text` — a call, what it does to
  the memory and what it does to the text;
* `Monitor.Psb.Represents` — the invariant, which ties the block to the text;
* `Monitor.psb_refines` — **every sequence of calls stays inside the block and computes the text**,
  also when `realloc` fails on the way;
* `Monitor.Psb.Represents.psbRun_clear_addChar` — a `psb_clear` that fails does not stay inside.
-/

import MetricsMonitor.MemoryBlock
import MetricsMonitor.PromMap

set_option relaxedAutoImplicit false
set_option autoImplicit false

namespace Monitor

/-- The byte that ends a C string. -/
def nullByte : Char := Char.ofNat 0

/-- `PROM_STRING_BUILDER_INIT_SIZE`. -/
def promStringBuilderInitSize : ℕ := 128

/-- `psb_t`. -/
structure Psb where
  str : Block Char
  allocated : ℕ
  len : ℕ

/-! ### The functions of `prom_string_builder.c` -/

/-- `psb_init`: whether it succeeds; `works` is whether `malloc` does.  A builder with a null
pointer has a block without cells. -/
def psbInit (works : Bool) (self : Psb) : Option (Bool × Psb) :=
  if works then
    (Block.store 0 nullByte (Block.alloc promStringBuilderInitSize)).map fun str =>
      (true, ⟨str, promStringBuilderInitSize, 0⟩)
  else some (false, { self with str := [] })

/-- `psb_new`, when both allocations work. -/
def psbNew : Option Psb := (psbInit true ⟨[], 0, 0⟩).map Prod.snd

/-- `psb_clear`: the block is freed before a new one is allocated.  When that fails the builder
keeps its length and its recorded size, and has no block. -/
def psbClear (works : Bool) (self : Psb) : Option (Bool × Psb) :=
  psbInit works { self with str := [] }

/-- The loop of `psb_ensure_space`, in the arithmetic of `size_t`.  After 64 doublings nothing is
left of the size, so a loop that has not ended by then never ends. -/
def psbSizeLoop (need : ℕ) : ℕ → ℕ → Option ℕ
  | 0, _ => none
  | fuel + 1, sz => if sz < need then psbSizeLoop need fuel (sz * 2 % 2 ^ 64) else some sz

/-- `psb_ensure_space`: whether it succeeds; `works` is whether `realloc` does.  The field
`allocated` keeps its value. -/
def psbEnsureSpace (works : Bool) (addLen : ℕ) (self : Psb) : Option (Bool × Psb) :=
  if addLen = 0 ∨ self.len + addLen + 1 ≤ self.allocated then some (true, self)
  else
    (psbSizeLoop (self.len + addLen + 1) 64 self.allocated).map fun sz =>
      if works then (true, { self with str := Block.resize sz self.str }) else (false, self)

/-- `psb_add_str`. -/
def psbAddStr (works : Bool) (str : CString) (self : Psb) : Option (Bool × Psb) :=
  if str = [] then some (true, self)
  else
    (psbEnsureSpace works str.length self).bind fun
      | (false, self) => some (false, self)
      | (true, self) =>
          (Block.copyIn self.len str self.str).bind fun block =>
            (Block.store (self.len + str.length) nullByte block).map fun block =>
              (true, { self with str := block, len := self.len + str.length })

/-- `psb_add_char`. -/
def psbAddChar (works : Bool) (c : Char) (self : Psb) : Option (Bool × Psb) :=
  (psbEnsureSpace works 1 self).bind fun
    | (false, self) => some (false, self)
    | (true, self) =>
        (Block.store self.len c self.str).bind fun block =>
          (Block.store (self.len + 1) nullByte block).map fun block =>
            (true, { self with str := block, len := self.len + 1 })

/-- `psb_truncate`. -/
def psbTruncate (len : ℕ) (self : Psb) : Option Psb :=
  if self.len ≤ len then some self
  else (Block.store len nullByte self.str).map fun block => { self with str := block, len := len }

/-- `psb_dump`: the copy, as those who are given it read it.  When `malloc` fails it copies to a
null pointer. -/
def psbDump (works : Bool) (self : Psb) : Option CString :=
  if works then
    (Block.copyOut (self.len + 1) self.str).map fun out => out.takeWhile (· ≠ nullByte)
  else none

/-! ### Calls -/

/-- A call on a builder. -/
inductive PsbCall
  | addStr (str : CString)
  | addChar (c : Char)
  | truncate (len : ℕ)
  /-- `psb_truncate(self, psb_len(self) - 1)`. -/
  | dropLast
  | clear
  deriving DecidableEq

/-- What a call does to the memory, and whether it succeeds. -/
def PsbCall.perform (works : Bool) (self : Psb) : PsbCall → Option (Bool × Psb)
  | .addStr str => psbAddStr works str self
  | .addChar c => psbAddChar works c self
  | .truncate len => (psbTruncate len self).map (true, ·)
  | .dropLast => (psbTruncate ((self.len + 2 ^ 64 - 1) % 2 ^ 64) self).map (true, ·)
  | .clear => psbClear works self

/-- The bytes a call wants to add. -/
def PsbCall.added : PsbCall → CString
  | .addStr str => str
  | .addChar c => [c]
  | .truncate _ | .dropLast | .clear => []

/-- Whether a call asks for a larger block. -/
def PsbCall.needsMemory (c : PsbCall) (text : CString) : Bool :=
  c.added ≠ [] && promStringBuilderInitSize < text.length + c.added.length + 1

/-- What a call does to the text, and whether it succeeds: it fails when it asks for memory in
vain.  A `clear` that does so loses the text. -/
def PsbCall.text (works : Bool) (text : CString) (c : PsbCall) : Bool × CString :=
  if c.needsMemory text && !works then (false, text)
  else
    match c with
    | .addStr str => (true, text ++ str)
    | .addChar c => (true, text ++ [c])
    | .truncate len => (true, text.take len)
    | .dropLast => (true, text.dropLast)
    | .clear => (works, [])

/-- Performing calls, each with whether `malloc` and `realloc` work during it. -/
def psbRun : List (PsbCall × Bool) → Psb → Option Psb
  | [], self => some self
  | (c, works) :: calls, self => (c.perform works self).bind fun r => psbRun calls r.2

/-- The text after the calls. -/
def psbText (calls : List (PsbCall × Bool)) (text : CString) : CString :=
  calls.foldl (fun text c => (c.1.text c.2 text).2) text

/-! ### The invariant -/

/-- The block holds the text and the null byte behind it, and is at least as large as the recorded
size, which is the first one. -/
structure Psb.Represents (b : Psb) (text : CString) : Prop where
  allocated : b.allocated = promStringBuilderInitSize
  len : b.len = text.length
  size : promStringBuilderInitSize ≤ b.str.length
  content : Block.Begins b.str (text ++ [nullByte])

theorem exists_psbInit (self : Psb) :
    ∃ p, psbInit true self = some (true, p) ∧ p.Represents [] := by
  obtain ⟨b, hb, hlength, hbegins⟩ := (Block.begins_nil (Block.alloc 128)).store
    (Nat.le_refl 0) (by simp [Block.alloc]) nullByte
  refine ⟨⟨b, 128, 0⟩, by rw [psbInit, promStringBuilderInitSize, if_pos rfl, hb]; rfl, rfl, rfl, ?_,
    hbegins⟩
  simp [hlength, Block.alloc, promStringBuilderInitSize]

/-! ### `psb_ensure_space` -/

/-- The loop ends with a size that suffices, if there is one. -/
theorem exists_psbSizeLoop {need : ℕ} (hneed : need ≤ 2 ^ 63) {k : ℕ} (hk : k ≤ 63) {fuel : ℕ}
    (hfuel : 63 < k + fuel) : ∃ sz, psbSizeLoop need fuel (2 ^ k) = some sz ∧ need ≤ sz ∧
      2 ^ k ≤ sz := by
  induction fuel generalizing k with
  | zero => omega
  | succ fuel ih =>
      rw [psbSizeLoop]
      by_cases hlt : 2 ^ k < need
      · have hk' : k < 63 := (Nat.pow_lt_pow_iff_right (by decide)).1 (hlt.trans_le hneed)
        have hdouble : 2 ^ k * 2 % 2 ^ 64 = 2 ^ (k + 1) := by
          rw [← pow_succ, Nat.mod_eq_of_lt ((Nat.pow_lt_pow_iff_right (by decide)).2 (by omega))]
        obtain ⟨sz, hsz, hneed, hle⟩ := ih (k := k + 1) (by omega) (by omega)
        refine ⟨sz, by rw [if_pos hlt, hdouble, hsz], hneed, ?_⟩
        exact (Nat.pow_le_pow_right (by decide) (Nat.le_succ k)).trans hle
      · exact ⟨2 ^ k, if_neg hlt, by omega, le_refl _⟩

namespace Psb.Represents

variable {self : Psb} {text : CString}

/-- What `psb_ensure_space` leaves: the text, and room for the addition when it succeeds. -/
theorem ensureSpace (h : self.Represents text) (works : Bool) {n : ℕ} (hn : n ≠ 0)
    (hfit : text.length + n + 1 ≤ 2 ^ 63) :
    ∃ p, psbEnsureSpace works n self =
        some (!(decide (128 < text.length + n + 1) && !works), p) ∧ p.Represents text ∧
      (p.str.length ≤ text.length + n → 128 < text.length + n + 1 ∧ works = false) := by
  unfold psbEnsureSpace
  rw [h.allocated, h.len, promStringBuilderInitSize]
  by_cases hroom : text.length + n + 1 ≤ 128
  · have hsize := h.size
    rw [promStringBuilderInitSize] at hsize
    refine ⟨self, ?_, h, by omega⟩
    rw [if_pos (Or.inr hroom), decide_eq_false (by omega)]
    rfl
  · obtain ⟨sz, hsz, hneed, hle⟩ := exists_psbSizeLoop hfit (show 7 ≤ 63 by omega)
      (show 63 < 7 + 64 by omega)
    rw [if_neg (by omega), show (128 : ℕ) = 2 ^ 7 from rfl, hsz,
      decide_eq_true (show 2 ^ 7 < text.length + n + 1 by omega)]
    cases works with
    | false => exact ⟨self, rfl, h, fun _ => ⟨by omega, rfl⟩⟩
    | true =>
        refine ⟨_, rfl, ⟨rfl, rfl, ?_, h.content.resize ?_⟩, ?_⟩
        · rw [Block.length_resize]
          exact hle
        · rw [List.length_append, List.length_singleton]
          omega
        · rw [Block.length_resize]
          omega

/-- Copying a text and a null byte behind the text. -/
theorem append (h : self.Represents text) {str : CString}
    (hroom : text.length + str.length + 1 ≤ self.str.length) :
    ∃ b b', Block.copyIn self.len str self.str = some b ∧
      Block.store (self.len + str.length) nullByte b = some b' ∧
      Psb.Represents { self with str := b', len := self.len + str.length } (text ++ str) := by
  have hbegins : Block.Begins self.str text := by
    simpa using h.content.take text.length
  obtain ⟨b, hb, hlength, hcopied⟩ := hbegins.copyIn
    (show text.length + str.length ≤ self.str.length by omega)
  obtain ⟨b', hb', hlength', hstored⟩ := hcopied.store (i := text.length + str.length)
    (by simp) (by omega) nullByte
  refine ⟨b, b', h.len ▸ hb, h.len ▸ hb', h.allocated, ?_, ?_, ?_⟩
  · simp [h.len]
  · exact h.size.trans_eq (hlength'.trans hlength).symm
  · rwa [← List.length_append, List.take_length] at hstored

/-- The text becomes shorter. -/
theorem truncate (h : self.Represents text) (len : ℕ) :
    ∃ p, psbTruncate len self = some p ∧ p.Represents (text.take len) := by
  unfold psbTruncate
  rw [h.len]
  split
  · rename_i hle
    exact ⟨self, rfl, by rwa [List.take_of_length_le hle]⟩
  · rename_i hlt
    have hlen := h.content.length_le
    rw [List.length_append, List.length_singleton] at hlen
    obtain ⟨b, hb, hlength, hbegins⟩ := h.content.store (i := len)
      (by rw [List.length_append]; omega) (by omega) nullByte
    refine ⟨{ self with str := b, len := len }, by rw [hb]; rfl, h.allocated, ?_, ?_, ?_⟩
    · simp only [List.length_take]
      omega
    · exact h.size.trans_eq hlength.symm
    · rwa [List.take_append_of_le_length (by omega)] at hbegins

/-- **What a call does to the memory is what it does to the text**, unless it is a `psb_clear`
whose allocation fails. -/
theorem perform (h : self.Represents text) (works : Bool) (c : PsbCall)
    (hclear : c = .clear → works = true) (hfit : text.length + c.added.length + 1 ≤ 2 ^ 63) :
    ∃ p, c.perform works self = some ((c.text works text).1, p) ∧
      p.Represents (c.text works text).2 := by
  cases c with
  | truncate len =>
      obtain ⟨p, hp, hrep⟩ := h.truncate len
      exact ⟨p, by rw [PsbCall.perform, hp]; rfl, hrep⟩
  | dropLast =>
      obtain ⟨p, hp, hrep⟩ := h.truncate ((self.len + 2 ^ 64 - 1) % 2 ^ 64)
      refine ⟨p, by rw [PsbCall.perform, hp]; rfl, ?_⟩
      change p.Represents text.dropLast
      rw [PsbCall.added, List.length_nil] at hfit
      rw [h.len] at hrep
      cases text with
      | nil => simpa using hrep
      | cons a t =>
          have hlen : ((a :: t).length + 2 ^ 64 - 1) % 2 ^ 64 = (a :: t).length - 1 := by
            rw [List.length_cons] at hfit ⊢
            omega
          rwa [hlen, ← List.dropLast_eq_take] at hrep
  | clear =>
      obtain rfl := hclear rfl
      obtain ⟨p, hp, hrep⟩ := exists_psbInit { self with str := [] }
      exact ⟨p, by rw [PsbCall.perform, psbClear, hp]; rfl, hrep⟩
  | addStr str =>
      by_cases hstr : str = []
      · subst hstr
        refine ⟨self, rfl, ?_⟩
        change self.Represents (text ++ [])
        rwa [List.append_nil]
      · obtain ⟨p, hp, hrep, hroom⟩ := h.ensureSpace works (n := str.length)
          (by simpa using hstr) hfit
        have hneeds : PsbCall.needsMemory (.addStr str) text =
            decide (128 < text.length + str.length + 1) := by
          have hne : decide (str ≠ []) = true := decide_eq_true hstr
          rw [PsbCall.needsMemory, PsbCall.added, hne, Bool.true_and]
          rfl
        rw [PsbCall.perform, psbAddStr, if_neg hstr, hp, PsbCall.text, hneeds, Option.bind_some]
        cases hfail : decide (128 < text.length + str.length + 1) && !works with
        | true => exact ⟨p, rfl, hrep⟩
        | false =>
            have hlt : text.length + str.length + 1 ≤ p.str.length := by
              by_contra hlt
              obtain ⟨hlarge, rfl⟩ := hroom (by omega)
              simp [hlarge] at hfail
            obtain ⟨b, b', hb, hb', hrep'⟩ := hrep.append hlt
            refine ⟨_, ?_, hrep'⟩
            simp [hb, hb']
  | addChar c =>
      obtain ⟨p, hp, hrep, hroom⟩ := h.ensureSpace works (n := 1) (by decide) hfit
      have hneeds : PsbCall.needsMemory (.addChar c) text = decide (128 < text.length + 1 + 1) := by
        simp [PsbCall.needsMemory, PsbCall.added, promStringBuilderInitSize]
      rw [PsbCall.perform, psbAddChar, hp, PsbCall.text, hneeds, Option.bind_some]
      cases hfail : decide (128 < text.length + 1 + 1) && !works with
      | true => exact ⟨p, rfl, hrep⟩
      | false =>
          have hlt : text.length + 1 + 1 ≤ p.str.length := by
            by_contra hlt
            obtain ⟨hlarge, rfl⟩ := hroom (by omega)
            simp [hlarge] at hfail
          -- the character is stored over the null byte, and the null byte behind it
          have hbegins : Block.Begins p.str text := by
            simpa using hrep.content.take text.length
          obtain ⟨b, hb, hlength, hstored⟩ := hbegins.store (le_refl _) (by omega) c
          rw [List.take_length] at hstored
          obtain ⟨b', hb', hlength', hstored'⟩ := hstored.store (i := text.length + 1) (by simp)
            (by omega) nullByte
          refine ⟨{ p with str := b', len := p.len + 1 }, ?_, hrep.allocated, ?_, ?_, ?_⟩
          · simp [hrep.len, hb, hb']
          · simp [hrep.len]
          · exact hrep.size.trans_eq (hlength'.trans hlength).symm
          · rwa [List.take_of_length_le (by simp)] at hstored'

/-- **A `psb_clear` whose allocation fails leaves a builder without a block**: behind a text that
still had room, the next character is stored through the null pointer. -/
theorem psbRun_clear_addChar (h : self.Represents text) (hroom : text.length + 2 ≤ 128) (c : Char)
    (works : Bool) : psbRun [(.clear, false), (.addChar c, works)] self = none := by
  have hspace : psbEnsureSpace works 1 { self with str := [] } =
      some (true, { self with str := [] }) := by
    rw [psbEnsureSpace, if_pos (Or.inr ?_)]
    rw [h.allocated, h.len]
    exact hroom
  simp [psbRun, PsbCall.perform, psbClear, psbInit, psbAddChar, hspace, Block.store]

end Psb.Represents

/-! ### Runs -/

theorem length_text_le (works : Bool) (text : CString) (c : PsbCall) :
    (c.text works text).2.length ≤ text.length + c.added.length := by
  unfold PsbCall.text
  split
  · exact Nat.le_add_right ..
  · cases c with
    | addStr str => simp [PsbCall.added]
    | addChar c => simp [PsbCall.added]
    | truncate len => simp [PsbCall.added]
    | dropLast => simp [PsbCall.added]
    | clear => simp [PsbCall.added]

/-- A run keeps the invariant. -/
theorem psbRun_represents {self : Psb} {text : CString} (h : self.Represents text)
    {calls : List (PsbCall × Bool)} (hclear : ∀ c ∈ calls, c.1 = .clear → c.2 = true)
    (hfit : text.length + (calls.map (·.1.added.length)).sum + 1 ≤ 2 ^ 63) :
    ∃ p, psbRun calls self = some p ∧ p.Represents (psbText calls text) := by
  induction calls generalizing self text with
  | nil => exact ⟨self, rfl, h⟩
  | cons c calls ih =>
      rw [List.map_cons, List.sum_cons] at hfit
      obtain ⟨p, hp, hrep⟩ := h.perform c.2 c.1 (hclear c (List.mem_cons_self ..)) (by omega)
      have hlength := length_text_le c.2 text c.1
      obtain ⟨q, hq, hrep'⟩ := ih hrep (fun c hc => hclear c (List.mem_cons_of_mem _ hc)) (by omega)
      exact ⟨q, by rw [psbRun, hp, Option.bind_some, hq], hrep'⟩

/-- **Every sequence of calls stays inside the block and computes the text**, when the added bytes
fit in an object of C and no allocation of `psb_clear` fails. -/
theorem psb_refines (calls : List (PsbCall × Bool))
    (hfit : (calls.map (·.1.added.length)).sum < 2 ^ 63)
    (hclear : ∀ c ∈ calls, c.1 = .clear → c.2 = true) :
    ∃ p, psbNew.bind (psbRun calls) = some p ∧
      psbDump true p = some ((psbText calls []).takeWhile (· ≠ nullByte)) := by
  obtain ⟨p, hp, hrep⟩ := exists_psbInit ⟨[], 0, 0⟩
  have hroom : ([] : CString).length + (calls.map (·.1.added.length)).sum + 1 ≤ 2 ^ 63 := by
    rw [List.length_nil]
    omega
  obtain ⟨q, hq, hrep'⟩ := psbRun_represents hrep hclear hroom
  refine ⟨q, by rw [psbNew, hp, Option.map_some, Option.bind_some, hq], ?_⟩
  have hcopy := hrep'.content.copyOut
  rw [List.length_append, List.length_singleton, ← hrep'.len] at hcopy
  rw [psbDump, if_pos rfl, hcopy, Option.map_some, List.takeWhile_append]
  split
  · rename_i hlength
    have hall := (List.takeWhile_prefix _).eq_of_length hlength
    rw [hall]
    simp
  · rfl

/-- The text fills the block, memory runs out during the second call, and the third one grows the
block. -/
def fourCalls : List (PsbCall × Bool) :=
  [(.addStr (List.replicate 127 'u'), true), (.addChar 'v', false), (.addStr "wx".toList, true),
    (.truncate 128, true)]

theorem psb_refines_fourCalls :
    ∃ p, psbNew.bind (psbRun fourCalls) = some p ∧
      psbDump true p = some (List.replicate 127 'u' ++ ['w']) := by
  have htext : (psbText fourCalls []).takeWhile (· ≠ nullByte) =
      List.replicate 127 'u' ++ ['w'] := by decide +kernel
  obtain ⟨p, hp, hdump⟩ := psb_refines fourCalls (by decide +kernel) (by simp [fourCalls])
  exact ⟨p, hp, htext ▸ hdump⟩

end Monitor
