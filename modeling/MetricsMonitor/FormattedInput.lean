/-
**Formatted input of the C library: `fgets`, `sscanf` and `fscanf`.**

A file is the list of its bytes, each written as a `Char`.  `fgets` cuts it into the chunks a read
loop sees; `sscanf` and `fscanf` walk over a text under the directives of a format string, store
the values of the conversions one by one and stop at the first directive that does not match.

Main definitions:

* `FormattedInput.parseFormat` — the directives of a format string;
* `FormattedInput.scan`, `FormattedInput.sscanf` — **the matching rules**: a white-space directive
  skips any amount of white space, a literal character matches only itself, `%u` and `%s` skip
  white space first, `%[set]` does not;
* `FormattedInput.strtoul` — the value of a numeric conversion, saturated at `2 ^ 64 - 1`, negated
  modulo `2 ^ 64` after a minus sign;
* `FormattedInput.assign` — storing the values of the conversions into the variables of the caller;
* `FormattedInput.fgetsAll` — the chunks of a file;
* `FormattedInput.scanLoop` — the loop that scans chunk after chunk until one matches completely.

Main results:

* `FormattedInput.ret_eq_length` — the returned count, unless the input ends before a conversion;
* `FormattedInput.assign_eq_of_length` — when every variable is assigned, nothing of what the
  variables held before is left;
* `FormattedInput.scanLoop_of_complete` — **the scan loop**: its result is what the first chunk that
  matches completely stores.
-/

import Mathlib.Data.Nat.Digits.Defs
import Mathlib.Data.Fintype.Basic

set_option relaxedAutoImplicit false
set_option autoImplicit false

namespace FormattedInput

/-! ### Directives -/

/-- A conversion of a format string. -/
inductive Conv
  /-- `%u`, `%llu`, `%hhu`: an unsigned decimal number, stored in this many bits. -/
  | unsigned (bits : ℕ)
  /-- `%s`: a sequence of bytes that are not white space. -/
  | word
  /-- `%[set]`: a nonempty sequence of bytes of the set. -/
  | scanset (set : List Char)
  deriving DecidableEq, Repr

/-- A directive of a format string. -/
inductive Directive
  /-- White space in the format: any amount of white space, possibly none. -/
  | space
  /-- Any other character of the format: exactly that byte. -/
  | literal (c : Char)
  /-- A conversion; `suppress` is the `*` that discards its value. -/
  | conv (suppress : Bool) (k : Conv)
  deriving DecidableEq, Repr

/-- White space of `isspace`: blank, tab, newline, vertical tab, form feed, carriage return. -/
def isSpace (c : Char) : Bool := c == ' ' || (9 ≤ c.toNat && c.toNat ≤ 13)

/-- The directives of a format string.  The first argument holds the bytes, in reverse, of the
`%[…]` set being read, if there is one. -/
def parseDirectives : Option (List Char) → List Char → List Directive
  | some set, ']' :: fmt => .conv false (.scanset set.reverse) :: parseDirectives none fmt
  | some set, c :: fmt => parseDirectives (some (c :: set)) fmt
  | none, '%' :: '*' :: 'u' :: fmt => .conv true (.unsigned 32) :: parseDirectives none fmt
  | none, '%' :: '*' :: 's' :: fmt => .conv true .word :: parseDirectives none fmt
  | none, '%' :: 'u' :: fmt => .conv false (.unsigned 32) :: parseDirectives none fmt
  | none, '%' :: 'l' :: 'l' :: 'u' :: fmt =>
      .conv false (.unsigned 64) :: parseDirectives none fmt
  | none, '%' :: 'h' :: 'h' :: 'u' :: fmt =>
      .conv false (.unsigned 8) :: parseDirectives none fmt
  | none, '%' :: '[' :: fmt => parseDirectives (some []) fmt
  | none, c :: fmt => (if isSpace c then .space else .literal c) :: parseDirectives none fmt
  | _, [] => []

/-- The directives of a format string. -/
def parseFormat (fmt : String) : List Directive := parseDirectives none fmt.toList

/-! ### Conversions -/

/-- A stored value. -/
inductive Value
  | number (n : ℕ)
  | text (s : List Char)
  deriving DecidableEq, Repr

/-- Why a scan stopped before the end of its format. -/
inductive Failure
  /-- The input ended. -/
  | input
  /-- The next byte does not match. -/
  | matching
  deriving DecidableEq, Repr

/-- The value of a string of decimal digits. -/
def digitsValue (ds : List Char) : ℕ :=
  Nat.ofDigits 10 (ds.reverse.map fun c => c.toNat - '0'.toNat)

/-- `strtoul` on an optional sign and a string of digits: out of range saturates, a minus sign
negates modulo `2 ^ 64`. -/
def strtoul (neg : Bool) (ds : List Char) : ℕ :=
  if 2 ^ 64 ≤ digitsValue ds then 2 ^ 64 - 1
  else if neg then (2 ^ 64 - digitsValue ds) % 2 ^ 64 else digitsValue ds

/-- The optional sign of a number: whether it is a minus sign, and the text after it. -/
def takeSign : List Char → Bool × List Char
  | '-' :: s => (true, s)
  | '+' :: s => (false, s)
  | s => (false, s)

/-- Performing a conversion: its value and the remaining input. -/
def convert (k : Conv) (input : List Char) : Except Failure (Value × List Char) :=
  match k with
  | .unsigned bits =>
      match input.dropWhile isSpace with
      | [] => .error .input
      | c :: s =>
          let (neg, s) := takeSign (c :: s)
          match s.takeWhile Char.isDigit with
          | [] => .error .matching
          | d :: ds => .ok (.number (strtoul neg (d :: ds) % 2 ^ bits), s.dropWhile Char.isDigit)
  | .word =>
      match input.dropWhile isSpace with
      | [] => .error .input
      | c :: s =>
          .ok (.text ((c :: s).takeWhile (!isSpace ·)), (c :: s).dropWhile (!isSpace ·))
  | .scanset set =>
      match input with
      | [] => .error .input
      | c :: s =>
          match (c :: s).takeWhile set.contains with
          | [] => .error .matching
          | d :: ds => .ok (.text (d :: ds), (c :: s).dropWhile set.contains)

/-! ### Scanning -/

/-- The outcome of a scan: the values stored, in order, and why it stopped early, if it did. -/
structure Scan where
  stored : List Value
  failure : Option Failure
  deriving DecidableEq, Repr

/-- One more value in front of those stored. -/
def Scan.store (suppress : Bool) (v : Value) (r : Scan) : Scan :=
  if suppress then r else { r with stored := v :: r.stored }

/-- **Scanning**: the directives are performed in order until one of them fails. -/
def scan : List Directive → List Char → Scan
  | [], _ => ⟨[], none⟩
  | .space :: fmt, input => scan fmt (input.dropWhile isSpace)
  | .literal c :: fmt, input =>
      match input with
      | [] => ⟨[], some .input⟩
      | d :: rest => if d = c then scan fmt rest else ⟨[], some .matching⟩
  | .conv suppress k :: fmt, input =>
      match convert k input with
      | .error f => ⟨[], some f⟩
      | .ok (v, rest) => (scan fmt rest).store suppress v

/-- What the call returns: the number of values stored, `EOF` when the input ended before any. -/
def Scan.ret (r : Scan) : ℤ :=
  if r.stored = [] ∧ r.failure = some .input then -1 else r.stored.length

/-- `fscanf` on a file with this content. -/
def fscanf (content : List Char) (fmt : String) : Scan := scan (parseFormat fmt) content

/-- `sscanf` on a buffer: the text ends at the first null byte. -/
def sscanf (buffer : List Char) (fmt : String) : Scan :=
  scan (parseFormat fmt) (buffer.takeWhile (·.toNat != 0))

@[simp] theorem store_true (v : Value) (r : Scan) : r.store true v = r := rfl

@[simp] theorem stored_store_false (v : Value) (r : Scan) :
    (r.store false v).stored = v :: r.stored := rfl

/-- A call that returns a positive count has stored that many values. -/
theorem ret_eq_length {r : Scan} {n : ℕ} (hn : 0 < n) : r.ret = n ↔ r.stored.length = n := by
  unfold Scan.ret
  split
  · rename_i h
    simp only [h.1, List.length_nil]
    omega
  · omega

/-! ### Storing into the variables of the caller -/

/-- The variables after a scan stored its values into the first of them; the others keep what
they held. -/
def assign {n : ℕ} (vars : Fin n → ℕ) (stored : List Value) : Fin n → ℕ := fun i =>
  match stored[i.val]? with
  | some (.number v) => v
  | _ => vars i

/-- Whether every value is a number. -/
def AllNumbers (stored : List Value) : Prop := ∀ v ∈ stored, ∃ n, v = .number n

/-- Whether the directive stores nothing but numbers. -/
def Directive.numeric : Directive → Bool
  | .conv false .word | .conv false (.scanset _) => false
  | _ => true

/-- Whether every conversion of the format is numeric or discarded. -/
def NumericFormat (fmt : List Directive) : Prop := ∀ d ∈ fmt, d.numeric = true

instance (fmt : List Directive) : Decidable (NumericFormat fmt) :=
  inferInstanceAs (Decidable (∀ d ∈ fmt, _))

theorem convert_unsigned {bits : ℕ} {input rest : List Char} {v : Value}
    (h : convert (.unsigned bits) input = .ok (v, rest)) : ∃ n, v = .number n ∧ n < 2 ^ bits := by
  simp only [convert] at h
  split at h
  · simp at h
  · split at h
    · simp at h
    · simp only [Except.ok.injEq, Prod.mk.injEq] at h
      exact ⟨_, h.1.symm, Nat.mod_lt _ (by positivity)⟩

/-- A numeric format stores numbers only. -/
theorem allNumbers_scan {fmt : List Directive} (hfmt : NumericFormat fmt) (input : List Char) :
    AllNumbers (scan fmt input).stored := by
  induction fmt generalizing input with
  | nil => simp [scan, AllNumbers]
  | cons d fmt ih =>
      have hfmt' : NumericFormat fmt := fun e he => hfmt e (List.mem_cons_of_mem d he)
      cases d with
      | space => exact ih hfmt' _
      | literal c =>
          cases input with
          | nil => simp [scan, AllNumbers]
          | cons e rest =>
              by_cases h : e = c
              · simpa [scan, h] using ih hfmt' rest
              · simp [scan, h, AllNumbers]
      | conv suppress k =>
          cases h : convert k input with
          | error f => simp [scan, h, AllNumbers]
          | ok p =>
              cases suppress with
              | true => simpa [scan, h] using ih hfmt' p.2
              | false =>
                  have hk := hfmt (.conv false k) (List.mem_cons_self ..)
                  obtain ⟨n, hn⟩ : ∃ n, p.1 = .number n := by
                    cases k with
                    | unsigned bits => exact (convert_unsigned h).imp fun n hn => hn.1
                    | word | scanset => simp [Directive.numeric] at hk
                  intro v hv
                  simp only [scan, h, stored_store_false, List.mem_cons] at hv
                  rcases hv with rfl | hv
                  · exact ⟨n, hn⟩
                  · exact ih hfmt' p.2 v hv

/-- **When every variable is assigned, nothing of what they held before is left.** -/
theorem assign_eq_of_length {n : ℕ} {stored : List Value} (hlen : stored.length = n)
    (hnum : AllNumbers stored) (vars vars' : Fin n → ℕ) :
    assign vars stored = assign vars' stored := by
  funext i
  have hi : i.val < stored.length := by omega
  obtain ⟨v, hv⟩ := hnum _ (List.getElem_mem hi)
  simp only [assign, List.getElem?_eq_getElem hi, hv]

/-! ### Reading a file in chunks -/

/-- The chunks that successive calls `fgets(buffer, size, fp)` deliver: a chunk ends after a
newline or once it holds `size - 1` bytes.  `room` bytes of the current chunk are still free and
`acc` holds, in reverse, those read so far. -/
def fgetsFrom (size : ℕ) : ℕ → List Char → List Char → List (List Char)
  | _, acc, [] => if acc = [] then [] else [acc.reverse]
  | room, acc, c :: content =>
      if c = '\n' ∨ room ≤ 1 then (c :: acc).reverse :: fgetsFrom size (size - 1) [] content
      else fgetsFrom size (room - 1) (c :: acc) content

/-- The chunks `fgets` delivers from a file, until it returns a null pointer. -/
def fgetsAll (size : ℕ) (content : List Char) : List (List Char) :=
  fgetsFrom size (size - 1) [] content

/-- **The scan loop**: chunk after chunk is scanned into the same variables, until a call returns
`n`.  Values stored by earlier chunks stay in the variables.  The result says whether some chunk
matched completely. -/
def scanLoop (fmt : String) (n : ℕ) (vars : Fin n → ℕ) : List (List Char) → Bool × (Fin n → ℕ)
  | [] => (false, vars)
  | buffer :: rest =>
      let r := sscanf buffer fmt
      if r.ret = n then (true, assign vars r.stored) else scanLoop fmt n (assign vars r.stored) rest

/-- **The first chunk that matches completely decides.**  The induction is on the chunks: an
earlier one only changes variables that the complete one assigns anew. -/
theorem scanLoop_of_complete (fmt : String) {n : ℕ} (hn : 0 < n)
    (hfmt : NumericFormat (parseFormat fmt)) (vars : Fin n → ℕ) (buffers : List (List Char)) :
    match buffers.find? fun b => (sscanf b fmt).ret = n with
    | some b => scanLoop fmt n vars buffers = (true, assign (fun _ => 0) (sscanf b fmt).stored)
    | none => (scanLoop fmt n vars buffers).1 = false := by
  induction buffers generalizing vars with
  | nil => rfl
  | cons buffer rest ih =>
      by_cases hret : (sscanf buffer fmt).ret = n
      · have hlength := (ret_eq_length hn).1 hret
        simp only [List.find?_cons, hret, decide_true, scanLoop, if_true]
        rw [assign_eq_of_length hlength (allNumbers_scan hfmt _) vars]
      · simp only [List.find?_cons, hret, decide_false, scanLoop, if_false]
        exact ih _

end FormattedInput
