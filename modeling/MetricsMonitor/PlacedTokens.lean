/-
**Tokens with white space in front of them, against a format that writes them out.**

A text made of tokens has room for white space in front of each of them.  A format for such a text
writes the tokens as literal characters, and white space is skipped only where the format itself
has some: in front of any other token a single blank ends the scan.

Main definitions:

* `FormattedInput.Placed` — a token, the white space in front of it, and whether the format skips
  it;
* `FormattedInput.Placed.accepted` — the format skips it, or there is none;
* `FormattedInput.Texts.allOf`, `FormattedInput.Texts.wordOf`, `FormattedInput.Texts.integer`,
  `FormattedInput.Texts.tokens` — the languages of white space, words, integers and tokens.

Main results:

* `FormattedInput.perform_placed` — **a row of tokens matches exactly when each is accepted**, and
  then nothing of it is left;
* `FormattedInput.Texts.mem_tokens_mul` — **a text starts with a row of tokens exactly when the
  format matches it**, and the rest of the text is what the format leaves.
-/

import MetricsMonitor.FormatMatching
import Mathlib.Computability.Language

set_option relaxedAutoImplicit false
set_option autoImplicit false

namespace FormattedInput

/-- The directives for a token: a blank, if the format has one, and the characters. -/
def tokenDirectives (skips : Bool) (text : List Char) : List Directive :=
  (if skips then [.space] else []) ++ text.map .literal

/-- A token of a text. -/
structure Placed where
  /-- The format has a blank in front of it. -/
  skips : Bool
  /-- The white space in front of it. -/
  gap : List Char
  text : List Char
  white : ∀ c ∈ gap, isSpace c = true
  text_ne_nil : text ≠ []
  solid : ∀ c ∈ text.head?, isSpace c = false

namespace Placed

/-- The directives of the format. -/
def directives (p : Placed) : List Directive := tokenDirectives p.skips p.text

/-- The token in the text. -/
def rendered (p : Placed) : List Char := p.gap ++ p.text

/-- The white space does not end the scan. -/
def accepted (p : Placed) : Bool := p.skips || p.gap.isEmpty

variable (p : Placed)

theorem head?_text_append (rest : List Char) : ∀ c ∈ (p.text ++ rest).head?, isSpace c = false := by
  intro c hc
  rw [List.head?_append_of_ne_nil _ p.text_ne_nil] at hc
  exact p.solid c hc

/-- The characters of a token match themselves. -/
theorem perform_text (rest : List Char) :
    perform (p.text.map .literal) (p.text ++ rest) = some ([], rest) := by
  rw [perform_literals, if_pos (List.prefix_append ..), List.drop_left]

/-- They do not match a text that starts with white space. -/
theorem perform_text_of_white {c : Char} (hc : isSpace c = true) (rest : List Char) :
    perform (p.text.map .literal) (c :: rest) = none := by
  obtain ⟨d, s, htext⟩ := List.exists_cons_of_ne_nil p.text_ne_nil
  rw [perform_literals, if_neg]
  rw [htext]
  intro hstart
  obtain rfl := (List.cons_prefix_cons.1 hstart).1
  have hsolid := p.solid d (by simp [htext])
  simp [hc] at hsolid

/-- **One token.** -/
theorem perform_directives (rest : List Char) :
    perform p.directives (p.rendered ++ rest) =
      if p.accepted then some ([], rest) else none := by
  rw [directives, tokenDirectives, rendered, accepted, List.append_assoc]
  cases p.skips with
  | true =>
      have hskip : (p.gap ++ (p.text ++ rest)).dropWhile isSpace = p.text ++ rest :=
        dropWhile_blanks p.white (p.head?_text_append rest)
      simp only [if_true, List.singleton_append, perform, hskip, p.perform_text, Bool.true_or]
  | false =>
      cases hgap : p.gap with
      | nil => exact p.perform_text rest
      | cons c gap =>
          have hc : isSpace c = true := p.white c (by simp [hgap])
          exact p.perform_text_of_white hc _

end Placed

/-- **A row of tokens.**  The induction is on the row: what the first token leaves is the rest of
it. -/
theorem perform_placed (ps : List Placed) (rest : List Char) :
    perform (ps.flatMap Placed.directives) (ps.flatMap Placed.rendered ++ rest) =
      if ps.all Placed.accepted then some ([], rest) else none := by
  induction ps with
  | nil => rfl
  | cons p ps ih =>
      rw [List.flatMap_cons, List.flatMap_cons, List.append_assoc, perform_append,
        p.perform_directives, List.all_cons]
      cases p.accepted with
      | true => simp [ih]
      | false => rfl

/-! ### Languages

A text is described by the languages its parts are in, one part after the other.  A part made of
characters of one kind ends where the next part, which does not start with such a character,
begins. -/

namespace Texts

variable {p : Char → Bool} {l : Language Char}

/-- The texts made of characters of a kind. -/
def allOf (p : Char → Bool) : Language Char := {s | ∀ c ∈ s, p c = true}

/-- The words made of characters of a kind. -/
def wordOf (p : Char → Bool) : Language Char := {s | s ≠ [] ∧ ∀ c ∈ s, p c = true}

/-- The decimal integers with an optional sign. -/
def integer : Language Char := (1 + {['-']} + {['+']}) * wordOf Char.isDigit

/-- A token, in front of which there may be white space. -/
def token (t : Bool × List Char) : Language Char := (if t.1 then allOf isSpace else 1) * {t.2}

/-- A row of tokens. -/
def tokens (ts : List (Bool × List Char)) : Language Char := (ts.map token).prod

/-- The directives for it. -/
def directives (ts : List (Bool × List Char)) : List Directive :=
  ts.flatMap fun t => tokenDirectives t.1 t.2

theorem conversions_tokenDirectives (skips : Bool) (text : List Char) :
    conversions (tokenDirectives skips text) = 0 := by
  cases skips with
  | true | false => simp [tokenDirectives, conversions, Directive.stores]

theorem conversions_directives (ts : List (Bool × List Char)) : conversions (directives ts) = 0 := by
  induction ts with
  | nil => rfl
  | cons t ts ih =>
      rw [directives, List.flatMap_cons, conversions_append, conversions_tokenDirectives,
        Nat.zero_add]
      exact ih

/-- No text of the language starts with a character of the kind. -/
def NoStart (p : Char → Bool) (l : Language Char) : Prop := ∀ s ∈ l, ∀ c ∈ s.head?, p c = false

/-- Two texts, the second of which does not start with a character of the kind. -/
theorem split_append {a b : List Char} (ha : ∀ c ∈ a, p c = true)
    (hb : ∀ c ∈ b.head?, p c = false) :
    (a ++ b).takeWhile p = a ∧ (a ++ b).dropWhile p = b := by
  rw [List.takeWhile_append_of_pos ha, List.dropWhile_append_of_pos ha]
  cases b with
  | nil => simp
  | cons c b => simp [hb c rfl]

theorem mem_allOf_mul (hl : NoStart p l) (s : List Char) : s ∈ allOf p * l ↔ s.dropWhile p ∈ l := by
  rw [Language.mem_mul]
  constructor
  · rintro ⟨a, ha, b, hb, rfl⟩
    rwa [(split_append ha (hl b hb)).2]
  · intro h
    exact ⟨s.takeWhile p, fun c hc => List.mem_takeWhile_imp hc, s.dropWhile p, h,
      List.takeWhile_append_dropWhile⟩

theorem mem_wordOf_mul (hl : NoStart p l) (s : List Char) :
    s ∈ wordOf p * l ↔ s.takeWhile p ≠ [] ∧ s.dropWhile p ∈ l := by
  rw [Language.mem_mul]
  constructor
  · rintro ⟨a, ha, b, hb, rfl⟩
    obtain ⟨htake, hdrop⟩ := split_append ha.2 (hl b hb)
    rw [htake, hdrop]
    exact ⟨ha.1, hb⟩
  · rintro ⟨hne, h⟩
    exact ⟨s.takeWhile p, ⟨hne, fun c hc => List.mem_takeWhile_imp hc⟩, s.dropWhile p, h,
      List.takeWhile_append_dropWhile⟩

theorem mem_text_mul (t s : List Char) :
    s ∈ ({t} : Language Char) * l ↔ t <+: s ∧ s.drop t.length ∈ l := by
  rw [Language.mem_mul]
  constructor
  · rintro ⟨a, ha, b, hb, rfl⟩
    obtain rfl : a = t := ha
    exact ⟨List.prefix_append .., by rwa [List.drop_left]⟩
  · rintro ⟨⟨b, rfl⟩, h⟩
    exact ⟨t, rfl, b, by rwa [List.drop_left] at h, rfl⟩

/-- A part that starts with no character of the kind. -/
theorem noStart_mul {k : Language Char}
    (hk : ∀ s ∈ k, s ≠ [] ∧ ∀ c ∈ s.head?, p c = false) : NoStart p (k * l) := by
  rintro s ⟨a, ha, b, -, rfl⟩ c hc
  obtain ⟨hne, hhead⟩ := hk a ha
  rw [List.head?_append_of_ne_nil _ hne] at hc
  exact hhead c hc

/-- An integer does not start with white space. -/
theorem integer_start {s : List Char} (h : s ∈ integer) :
    s ≠ [] ∧ ∀ c ∈ s.head?, isSpace c = false := by
  obtain ⟨a, ha, b, ⟨hne, hdigits⟩, rfl⟩ := h
  rcases ha with (ha | ha) | ha
  · obtain rfl : a = [] := ha
    exact ⟨hne, fun c hc => isSpace_of_isDigit (hdigits c (List.mem_of_mem_head? hc))⟩
  · obtain rfl : a = ['-'] := ha
    simp [isSpace]
  · obtain rfl : a = ['+'] := ha
    simp [isSpace]

/-- **A text starts with an integer** exactly when one is read there. -/
theorem mem_integer_mul (hl : NoStart Char.isDigit l) (s : List Char) :
    s ∈ integer * l ↔ (integerAt s).isSome = true ∧ afterInteger s ∈ l := by
  have hsign (c : Char) (hc : c.isDigit = false) (t : List Char) :
      c :: t ∉ wordOf Char.isDigit * l := by
    rw [mem_wordOf_mul hl, List.takeWhile_cons_of_neg (by simp [hc])]
    simp
  have hunsigned : s ∈ integer * l ↔ (takeSign s).2 ∈ wordOf Char.isDigit * l := by
    rw [integer, mul_assoc, add_mul, add_mul, one_mul, Language.mem_add, Language.mem_add,
      mem_text_mul, mem_text_mul]
    cases s with
    | nil => simp [takeSign]
    | cons c t =>
        by_cases hminus : c = '-'
        · subst hminus
          simp [takeSign, hsign '-' rfl]
        · by_cases hplus : c = '+'
          · subst hplus
            simp [takeSign, hsign '+' rfl]
          · simp [takeSign, hminus, hplus, Ne.symm hminus, Ne.symm hplus]
  rw [hunsigned, mem_wordOf_mul hl, integerAt, afterInteger]
  cases (takeSign s).2.takeWhile Char.isDigit with
  | nil => simp
  | cons d ds => simp

/-- One token. -/
theorem mem_token_mul {t : Bool × List Char} (ht : ∃ c u, t.2 = c :: u ∧ isSpace c = false)
    (s : List Char) :
    s ∈ token t * l ↔
      ∃ rest, perform (tokenDirectives t.1 t.2) s = some ([], rest) ∧ rest ∈ l := by
  obtain ⟨skips, text⟩ := t
  obtain ⟨c, u, htext, hc⟩ := ht
  dsimp only at htext ⊢
  have hstart : NoStart isSpace ({text} * l) := noStart_mul fun a ha => by
    obtain rfl : a = text := ha
    simp [htext, hc]
  have hliterals (s : List Char) : s ∈ ({text} : Language Char) * l ↔
      ∃ rest, perform (text.map .literal) s = some ([], rest) ∧ rest ∈ l := by
    rw [mem_text_mul, perform_literals]
    by_cases hstarts : text <+: s
    · simp [hstarts]
    · simp [hstarts]
  rw [token, mul_assoc]
  cases skips with
  | true =>
      rw [if_pos rfl, mem_allOf_mul hstart, hliterals]
      rfl
  | false =>
      rw [if_neg (by simp), one_mul, hliterals]
      rfl

/-- **A row of tokens.** -/
theorem mem_tokens_mul {ts : List (Bool × List Char)}
    (hts : ∀ t ∈ ts, ∃ c u, t.2 = c :: u ∧ isSpace c = false) (s : List Char) :
    s ∈ tokens ts * l ↔ ∃ rest, perform (directives ts) s = some ([], rest) ∧ rest ∈ l := by
  induction ts generalizing s with
  | nil => simp [tokens, directives, perform]
  | cons t ts ih =>
      have hrest := ih fun t' ht' => hts t' (List.mem_cons_of_mem t ht')
      rw [tokens, List.map_cons, List.prod_cons, mul_assoc,
        mem_token_mul (hts t (List.mem_cons_self ..)), directives, List.flatMap_cons,
        perform_append]
      change (∃ rest, _ ∧ rest ∈ tokens ts * l) ↔ _
      simp only [hrest]
      cases hperform : perform (tokenDirectives t.1 t.2) s with
      | none => simp
      | some r =>
          obtain ⟨vs, rest⟩ := r
          obtain rfl : vs = [] := values_eq_nil (conversions_tokenDirectives ..) hperform
          simp [directives]

end Texts

end FormattedInput
