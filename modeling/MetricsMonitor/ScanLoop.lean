/-
**Loops that scan chunk after chunk into the same variables.**

A read loop hands each chunk to `sscanf` and ends at the first one on which all conversions are
performed.  `sscanf` stores the values one by one, so a chunk that matches only in part leaves
numbers in the variables; what makes the loop right all the same is that a complete match stores
every variable, and that only a complete match stores the last one.

Main definitions:

* `FormattedInput.Matches` — a chunk matches a whole format, with these numbers;
* `FormattedInput.LoopFormat` — a format such a loop is made for;
* `FormattedInput.DecidedByFirst` — the result of a loop is that of the first complete match.

Main results:

* `FormattedInput.LoopFormat.ret_iff` — the returned count is a test for a complete match;
* `FormattedInput.LoopFormat.scanLoop_last` — **without a complete match the last variable keeps
  its value**;
* `FormattedInput.LoopFormat.scanLoop_of_matches` — **at the first complete match the variables are
  its numbers**;
* `FormattedInput.LoopFormat.decidedByFirst` — so a loop that gives nothing when its last variable
  is zero is decided by the first complete match.
-/

import MetricsMonitor.FormatMatching

set_option relaxedAutoImplicit false
set_option autoImplicit false

namespace FormattedInput

/-! ### Complete matches -/

/-- Every directive of the format matches, and `v` are the numbers that are stored. -/
def Matches {n : ℕ} (fmt : String) (buffer : List Char) (v : Fin n → ℕ) : Prop :=
  ∃ rest, perform (parseFormat fmt) (buffer.takeWhile (·.toNat != 0)) =
    some (List.ofFn fun i => .number (v i), rest)

/-- All values are numbers, there are `n` of them, and the format ends in the last. -/
structure LoopFormat (fmt : String) (n : ℕ) : Prop where
  numeric : NumericFormat (parseFormat fmt)
  count : conversions (parseFormat fmt) = n
  last : ∃ f k, parseFormat fmt = f ++ [.conv false k]

/-- What a complete match stores. -/
theorem Matches.stored {n : ℕ} {fmt : String} {buffer : List Char} {v : Fin n → ℕ}
    (hv : Matches fmt buffer v) :
    (sscanf buffer fmt).stored = List.ofFn fun i => .number (v i) := by
  obtain ⟨rest, hperform⟩ := hv
  rw [sscanf, scan_of_perform hperform]

theorem assign_ofFn {n : ℕ} (vars v : Fin n → ℕ) :
    assign vars (List.ofFn fun i => .number (v i)) = v := by
  funext i
  simp [assign]

/-- The numbers of a complete match are determined. -/
theorem Matches.unique {n : ℕ} {fmt : String} {buffer : List Char} {v w : Fin n → ℕ}
    (hv : Matches fmt buffer v) (hw : Matches fmt buffer w) : v = w := by
  have hstored := hv.stored.symm.trans hw.stored
  rw [← assign_ofFn (fun _ => 0) v, hstored, assign_ofFn]

/-- Numbers, as many as there are variables, are the values of the variables they are stored in. -/
theorem AllNumbers.eq_ofFn {n : ℕ} {stored : List Value} (h : AllNumbers stored)
    (hlength : stored.length = n) (vars : Fin n → ℕ) :
    stored = List.ofFn fun i => .number (assign vars stored i) := by
  apply List.ext_getElem
  · rw [hlength, List.length_ofFn]
  · intro i hi _
    obtain ⟨m, hm⟩ := h _ (List.getElem_mem hi)
    simp [assign, List.getElem?_eq_getElem hi, hm]

namespace LoopFormat

variable {fmt : String} {n : ℕ} (h : LoopFormat fmt n)

include h

theorem pos : 0 < n := by
  obtain ⟨f, k, hfmt⟩ := h.last
  have hcount := h.count
  rw [hfmt, conversions_append] at hcount
  have hlast : conversions [.conv false k] = 1 := rfl
  omega

/-- When a call of `sscanf` assigns all its variables. -/
theorem ret_iff_isSome (buffer : List Char) :
    (sscanf buffer fmt).ret = n ↔
      (perform (parseFormat fmt) (buffer.takeWhile (·.toNat != 0))).isSome := by
  obtain ⟨f, k, hfmt⟩ := h.last
  have hcount : conversions f + 1 = n := by
    rw [← h.count, hfmt, conversions_append]
    rfl
  have hlength := length_stored_eq_iff f k (g := []) rfl (buffer.takeWhile (·.toNat != 0))
  rw [List.append_nil, ← hfmt, hcount] at hlength
  rw [ret_eq_length h.pos]
  exact hlength

/-- **The returned count tells a complete match.** -/
theorem ret_iff (buffer : List Char) :
    (sscanf buffer fmt).ret = n ↔ ∃ v : Fin n → ℕ, Matches fmt buffer v := by
  rw [h.ret_iff_isSome]
  constructor
  · intro hsome
    obtain ⟨⟨vs, rest⟩, hperform⟩ := Option.isSome_iff_exists.1 hsome
    have hnumbers : AllNumbers vs := by
      have hscan := allNumbers_scan h.numeric (buffer.takeWhile (·.toNat != 0))
      rwa [scan_of_perform hperform] at hscan
    have hlength : vs.length = n := (length_of_perform hperform).trans h.count
    refine ⟨assign (fun _ => 0) vs, rest, ?_⟩
    rw [← hnumbers.eq_ofFn hlength]
    exact hperform
  · rintro ⟨v, rest, hperform⟩
    rw [hperform]
    rfl

/-! ### The loop -/

/-- **A loop without a complete match does not touch its last variable.**  The induction is on the
chunks: one that matches in part stores fewer than `n` values. -/
theorem scanLoop_last {i : Fin n} (hi : i.val + 1 = n) (vars : Fin n → ℕ)
    {chunks : List (List Char)} (hchunks : ∀ b ∈ chunks, (sscanf b fmt).ret ≠ n) :
    (scanLoop fmt n vars chunks).2 i = vars i := by
  induction chunks generalizing vars with
  | nil => rfl
  | cons b chunks ih =>
      have hret := hchunks b (List.mem_cons_self ..)
      have hle : (sscanf b fmt).stored.length ≤ n := h.count ▸ length_stored_le _ _
      have hne : (sscanf b fmt).stored.length ≠ n :=
        fun heq => hret ((ret_eq_length h.pos).2 heq)
      have hlast : assign vars (sscanf b fmt).stored i = vars i := by
        simp [assign, List.getElem?_eq_none (by omega : (sscanf b fmt).stored.length ≤ i.val)]
      rw [scanLoop, if_neg hret, ih _ fun c hc => hchunks c (List.mem_cons_of_mem b hc), hlast]

/-- Whether some chunk matches completely is what the loop says. -/
theorem scanLoop_of_no_match (vars : Fin n → ℕ) {chunks : List (List Char)}
    (hchunks : ∀ b ∈ chunks, (sscanf b fmt).ret ≠ n) :
    (scanLoop fmt n vars chunks).1 = false := by
  have hnone : (chunks.find? fun b => (sscanf b fmt).ret = n) = none :=
    List.find?_eq_none.2 fun b hb => by simpa using hchunks b hb
  have hloop := scanLoop_of_complete fmt h.pos h.numeric vars chunks
  rwa [hnone] at hloop

/-- **At the first complete match the variables are its numbers**, whatever they held. -/
theorem scanLoop_of_matches (vars : Fin n → ℕ) {before after : List (List Char)}
    {b : List Char} {v : Fin n → ℕ} (hbefore : ∀ c ∈ before, (sscanf c fmt).ret ≠ n)
    (hv : Matches fmt b v) : scanLoop fmt n vars (before ++ b :: after) = (true, v) := by
  have hb : (sscanf b fmt).ret = n := (h.ret_iff b).2 ⟨v, hv⟩
  have hfind : ((before ++ b :: after).find? fun c => (sscanf c fmt).ret = n) = some b := by
    rw [List.find?_append, List.find?_eq_none.2 fun c hc => by simpa using hbefore c hc]
    simp [hb]
  have hloop := scanLoop_of_complete fmt h.pos h.numeric vars (before ++ b :: after)
  rw [hfind] at hloop
  rw [hloop, hv.stored, assign_ofFn]

end LoopFormat

/-! ### Results -/

/-- The result of a loop over chunks is that of the numbers of the first complete match, and
nothing when there is none: neither what earlier chunks store nor what comes after has a say. -/
structure DecidedByFirst {n : ℕ} {α : Type} (fmt : String) (result : (Fin n → ℕ) → Option α)
    (loop : List (List Char) → Option α) : Prop where
  complete : ∀ b, (sscanf b fmt).ret = n ↔ ∃ v : Fin n → ℕ, Matches fmt b v
  first : ∀ before b after v, (∀ c ∈ before, (sscanf c fmt).ret ≠ n) → Matches fmt b v →
    loop (before ++ b :: after) = result v
  missing : ∀ chunks, (∀ c ∈ chunks, (sscanf c fmt).ret ≠ n) → loop chunks = none

/-- **A loop is decided by the first complete match** when it starts with zeros and gives nothing
for a last variable that is still zero. -/
theorem LoopFormat.decidedByFirst {fmt : String} {n : ℕ} {α : Type} (h : LoopFormat fmt n)
    (finish : Bool → (Fin n → ℕ) → Option α)
    (hfinish : ∀ (i : Fin n) v, i.val + 1 = n → v i = 0 → finish false v = none) :
    DecidedByFirst fmt (finish true) fun chunks =>
      finish (scanLoop fmt n (fun _ => 0) chunks).1 (scanLoop fmt n (fun _ => 0) chunks).2 where
  complete := h.ret_iff
  first before b after v hbefore hv := by
    rw [h.scanLoop_of_matches _ hbefore hv]
  missing chunks hchunks := by
    have hn := h.pos
    have hi : n - 1 + 1 = n := by omega
    rw [h.scanLoop_of_no_match _ hchunks]
    exact hfinish ⟨n - 1, by omega⟩ _ hi (h.scanLoop_last hi _ hchunks)

end FormattedInput
