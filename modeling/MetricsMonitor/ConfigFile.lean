/-
**What a configuration file does to `config`.**

Four properties of `set_configuration`, each with the exact condition on the file under which the
function has it: a file reported as wrongly parsed leaves `config` alone, the five switches are
those the file spells, the interval is the number the file gives, and no value leaves its slot of
`temp`.

* `Monitor.wronglyParsed_config_iff` — **a rejected file** has stored its number already;
* `Monitor.longValueFiles`, `Monitor.tempSafe_iff` — **the slots of `temp`** hold the values exactly
  when the file does not come to a value with six letters of the set;
* `Monitor.spelled_iff` — **the switches**: a value that is neither word is not rejected, unless
  the file is for another reason;
* `Monitor.interval_iff` — **the interval**: a number outside of a byte is not rejected either.
-/

import MetricsMonitor.SetConfiguration
import MetricsMonitor.PlacedTokens

set_option relaxedAutoImplicit false
set_option autoImplicit false

namespace Monitor

open FormattedInput

/-! ### A rejected file -/

/-- Without an overrun the file is rejected exactly when the scan does not store all values. -/
def Rejected (content : List Char) : Prop :=
  (fscanf content configFormat).ret ≠ 6 ∧ Temp.Fits (configTexts content)

/-- When a file is reported, and what `config` holds then. -/
theorem setConfiguration_reported_iff (temp : Temp) (config c : Config) (content : List Char)
    (report : String) :
    setConfiguration temp config (some content) = .returned (some report) c ↔
      report = wronglyParsed ∧ Rejected content ∧ c = configRead content config := by
  rw [setConfiguration_eq, Rejected, Ne, ret_configFormat, ← Temp.isSome_storeTexts _ temp]
  cases temp.storeTexts 0 (configTexts content) with
  | none => simp
  | some temp =>
      by_cases h : (configTexts content).length = 5
      · simp [h]
      · simp [h, eq_comm]

/-- When a file is accepted, and what `config` holds then. -/
theorem setConfiguration_accepted_iff (temp : Temp) (config c : Config) (content : List Char) :
    setConfiguration temp config (some content) = .returned none c ↔
      (configTexts content).length = 5 ∧ ∃ temp', temp.storeTexts 0 (configTexts content) =
        some temp' ∧ c = convertValues temp' (configRead content config) := by
  rw [setConfiguration_eq]
  cases temp.storeTexts 0 (configTexts content) with
  | none => simp
  | some temp =>
      by_cases h : (configTexts content).length = 5
      · simp [h, eq_comm]
      · simp [h]

/-- **A rejected file leaves `config` alone** exactly when the scan does not come to the number, or
the byte it stores is there already. -/
theorem wronglyParsed_config_iff (temp : Temp) (config c : Config) (content : List Char)
    (h : setConfiguration temp config (some content) = .returned (some wronglyParsed) c) :
    c = config ↔ ∀ z, readInterval content = some z → storedByte z = config 0 := by
  obtain ⟨-, -, rfl⟩ := (setConfiguration_reported_iff temp config c content _).1 h
  unfold configRead
  cases readInterval content with
  | none => simp
  | some z =>
      simp only [Option.some_inj, forall_eq']
      constructor
      · intro heq
        have hzero := congrFun heq 0
        rwa [Function.update_self] at hzero
      · intro hzero
        rw [hzero]
        exact Function.update_eq_self 0 config

/-- The bytes of `temp` before the call, for the runs below. -/
def Temp.blank : Temp := ⟨List.replicate 30 nul, by simp⟩

/-- Only an interval. -/
def intervalOnly : List Char := "\x7b \"update_interval\": 5 \x7d".toList

/-- The interval of the rejected file is in force. -/
theorem setConfiguration_intervalOnly :
    setConfiguration .blank defaultConfig (some intervalOnly) =
      .returned (some wronglyParsed) ![5, 1, 1, 1, 1, 1] := by
  have htexts : configTexts intervalOnly = [] := by decide +kernel
  rw [setConfiguration_reported_iff, Rejected, Ne, ret_configFormat, htexts]
  refine ⟨rfl, ⟨by simp, ?_⟩, by decide +kernel⟩
  intro k s hk
  simp at hk

theorem wronglyParsed_config_intervalOnly :
    ![5, 1, 1, 1, 1, 1] = defaultConfig ↔
      ∀ z, readInterval intervalOnly = some z → storedByte z = defaultConfig 0 :=
  wronglyParsed_config_iff .blank defaultConfig ![5, 1, 1, 1, 1, 1] intervalOnly
    setConfiguration_intervalOnly

theorem config_not_kept :
    ¬ ∀ c, setConfiguration .blank defaultConfig (some intervalOnly) =
      .returned (some wronglyParsed) c → c = defaultConfig := by
  intro h
  exact absurd (h _ setConfiguration_intervalOnly) (by decide)

/-! ### The slots of `temp` -/

/-- The texts that `fscanf` stores in `temp`. -/
def storedTexts (content : List Char) : List (List Char) :=
  textsOf (fscanf content configFormat).stored

/-- What the declaration of `temp` is made for: a text that is stored has at most five bytes and
goes to its own slot, and when the values are compared every slot holds the text stored for it. -/
structure TempSafe (temp : Temp) (content : List Char) : Prop where
  short : ∀ s ∈ storedTexts content, s.length ≤ 5
  inside : (temp.storeTexts 0 (storedTexts content)).isSome = true
  own_slot : ∀ i s, (storedTexts content)[i]? = some s → ∀ before after : Temp,
    before.storeTexts i [s] = some after → ∀ j, j / 6 ≠ i → after.bytes[j]? = before.bytes[j]?
  held : ∀ temp', temp.storeTexts 0 (storedTexts content) = some temp' →
    ∀ i s, (storedTexts content)[i]? = some s → temp'.text i = s

theorem mem_configTexts {content s : List Char} :
    s ∈ configTexts content ↔ s ≠ [] ∧ ∃ t ∈ reached content, token t = s := by
  simp [configTexts, and_comm]

theorem nul_notMem_of_configTexts {content s : List Char} (h : s ∈ configTexts content) :
    nul ∉ s := by
  obtain ⟨-, t, -, rfl⟩ := mem_configTexts.1 h
  intro hnul
  have hletter := List.mem_takeWhile_imp hnul
  exact absurd hletter (by decide)

theorem length_reachedBy_le (keys : List (List Directive)) (input : List Char) :
    (reachedBy keys input).length ≤ keys.length := by
  induction keys generalizing input with
  | nil => simp [reachedBy]
  | cons key keys ih =>
      rw [reachedBy]
      split
      · simp
      · split
        · simp
        · simpa using ih _

theorem length_reached_le (content : List Char) : (reached content).length ≤ 5 := by
  unfold reached
  split
  · simp
  · split
    · exact length_reachedBy_le keyFormats _
    · simp

theorem length_configTexts_le (content : List Char) : (configTexts content).length ≤ 5 :=
  (List.length_filter_le ..).trans (by simpa using length_reached_le content)

/-- Short values fit. -/
theorem fits_of_short {content : List Char} (h : ∀ s ∈ configTexts content, s.length ≤ 5) :
    Temp.Fits (configTexts content) := by
  intro k s hk
  obtain ⟨hlt, rfl⟩ := List.getElem?_eq_some_iff.1 hk
  have hle := length_configTexts_le content
  have hs := h _ (List.getElem_mem hlt)
  omega

/-- The file up to the number, as tokens; `true` where there may be white space in front of one. -/
def intervalTokens : List (Bool × List Char) :=
  [(false, [Char.ofNat 0x7b]), (true, "\"update_interval\":".toList)]

/-- The tokens in front of each of the five values. -/
def keyTokens : List (List (Bool × List Char)) :=
  [[(false, [',']), (true, "\"metrics\":".toList), (true, [Char.ofNat 0x7b]),
      (true, "\"cpu\":".toList)],
    [(false, [',']), (true, "\"mem\":".toList)],
    [(false, [',']), (true, "\"hdd\":".toList)],
    [(false, [',']), (true, "\"net\":".toList)],
    [(false, [',']), (true, "\"procs\":".toList)]]

/-- Six letters of the set. -/
def sixLetters : Language Char := {s | s.length = 6 ∧ ∀ c ∈ s, letters.contains c = true}

/-- One of the values begins with six letters, and those in front of it are words of the set. -/
def longValueBy : List (List (Bool × List Char)) → Language Char
  | [] => 0
  | key :: keys =>
      Texts.tokens key * (Texts.allOf isSpace *
        (sixLetters * ⊤ + Texts.wordOf letters.contains * longValueBy keys))

/-- **The files with a value that is too long**: up to it they are written as the program expects,
with an integer and with words of the set. -/
def longValueFiles : Language Char :=
  Texts.tokens intervalTokens * (Texts.allOf isSpace * (Texts.integer * longValueBy keyTokens))

theorem intervalFormat_eq_directives : intervalFormat = Texts.directives intervalTokens := by
  decide +kernel

theorem keyFormats_eq_directives :
    keyFormats = keyTokens.map fun key => Texts.directives key ++ [.space] := by
  decide +kernel

/-- The tokens of a key start with a comma, and none of them with white space. -/
def IsKey (key : List (Bool × List Char)) : Prop :=
  key.head? = some (false, [',']) ∧ ∀ t ∈ key, ∃ c u, t.2 = c :: u ∧ isSpace c = false

theorem isKey_keyTokens : ∀ key ∈ keyTokens, IsKey key := by
  intro key hkey
  simp only [keyTokens, List.mem_cons, List.not_mem_nil, or_false] at hkey
  rcases hkey with rfl | rfl | rfl | rfl | rfl
  all_goals
    refine ⟨rfl, fun t ht => ?_⟩
    simp only [List.mem_cons, List.not_mem_nil, or_false] at ht
    rcases ht with rfl | rfl | rfl | rfl
    all_goals exact ⟨_, _, rfl, rfl⟩

/-- What follows a value or the number starts with a comma. -/
theorem noStart_longValueBy {p : Char → Bool} (hp : p ',' = false)
    {keys : List (List (Bool × List Char))} (hkeys : ∀ key ∈ keys, IsKey key) :
    Texts.NoStart p (longValueBy keys) := by
  cases keys with
  | nil => exact fun s hs => absurd hs (Language.notMem_zero s)
  | cons key keys =>
      obtain ⟨ts, rfl⟩ : ∃ ts, key = (false, [',']) :: ts := by
        obtain ⟨hhead, -⟩ := hkeys key (List.mem_cons_self ..)
        exact ⟨key.tail, (List.cons_head?_tail hhead).symm⟩
      rw [longValueBy, Texts.tokens, List.map_cons, List.prod_cons, mul_assoc]
      refine Texts.noStart_mul fun s hs => ?_
      rw [Texts.token, if_neg (by simp), one_mul] at hs
      obtain rfl : s = [','] := hs
      simp [hp]

/-- The tokens of a key and the white space behind them are what the format skips. -/
theorem mem_key_mul {key : List (Bool × List Char)} (hkey : IsKey key) {l : Language Char}
    (hl : Texts.NoStart isSpace l) (s : List Char) :
    s ∈ Texts.tokens key * (Texts.allOf isSpace * l) ↔
      ∃ rest, perform (Texts.directives key ++ [.space]) s = some ([], rest) ∧ rest ∈ l := by
  rw [Texts.mem_tokens_mul hkey.2, perform_append]
  simp only [Texts.mem_allOf_mul hl]
  cases perform (Texts.directives key) s with
  | none => simp
  | some r => simp [perform, Prod.ext_iff, and_assoc]

theorem mem_sixLetters_mul (s : List Char) : s ∈ sixLetters * ⊤ ↔ ¬ (token s).length ≤ 5 := by
  rw [Language.mem_mul, not_le]
  constructor
  · rintro ⟨a, ⟨hlength, ha⟩, b, -, rfl⟩
    rw [token, List.takeWhile_append_of_pos ha, List.length_append]
    omega
  · intro h
    refine ⟨(token s).take 6, ⟨by rw [List.length_take]; omega, fun c hc => ?_⟩, s.drop 6,
      trivial, ?_⟩
    · exact List.mem_takeWhile_imp (List.mem_of_mem_take hc)
    · have hprefix : (token s).take 6 <+: s :=
        (List.take_prefix ..).trans (List.takeWhile_prefix _)
      have hsix : ((token s).take 6).length = 6 := by
        rw [List.length_take]
        omega
      have happend := List.prefix_iff_eq_append.1 hprefix
      rwa [hsix] at happend

/-- **The values that the scan comes to are short** exactly when none of them is too long.  The
induction is on the keys. -/
theorem short_reachedBy_iff {keys : List (List (Bool × List Char))}
    (hkeys : ∀ key ∈ keys, IsKey key) (s : List Char) :
    (∀ t ∈ reachedBy (keys.map fun key => Texts.directives key ++ [.space]) s,
      (token t).length ≤ 5) ↔ s ∉ longValueBy keys := by
  induction keys generalizing s with
  | nil => simp [reachedBy, longValueBy, Language.notMem_zero]
  | cons key keys ih =>
      have htail := fun key' h => hkeys key' (List.mem_cons_of_mem key h)
      have hletters : Texts.NoStart letters.contains (longValueBy keys) :=
        noStart_longValueBy rfl htail
      have hspace : Texts.NoStart isSpace
          (sixLetters * ⊤ + Texts.wordOf letters.contains * longValueBy keys) := by
        have hletter (c : Char) (hc : letters.contains c = true) : isSpace c = false := by
          have hall : letters.all (!isSpace ·) = true := rfl
          simpa using List.all_eq_true.1 hall c (by simpa using hc)
        rintro t (ht | ht)
        · refine Texts.noStart_mul (l := ⊤) (fun a ha => ⟨?_, fun c hc => ?_⟩) t ht
          · rintro rfl
            exact absurd ha.1 (by simp)
          · exact hletter c (ha.2 c (List.mem_of_mem_head? hc))
        · exact Texts.noStart_mul (fun a ha => ⟨ha.1, fun c hc =>
            hletter c (ha.2 c (List.mem_of_mem_head? hc))⟩) t ht
      have hconversions : conversions (Texts.directives key ++ [.space]) = 0 := by
        rw [conversions_append, Texts.conversions_directives]
        rfl
      rw [List.map_cons, reachedBy, longValueBy, mem_key_mul (hkeys key (List.mem_cons_self ..))
        hspace]
      cases hperform : perform (Texts.directives key ++ [.space]) s with
      | none => simp
      | some r =>
          obtain ⟨vs, rest⟩ := r
          obtain rfl := values_eq_nil hconversions hperform
          have hword := Texts.mem_wordOf_mul hletters rest
          simp only [Option.some_inj, Prod.mk.injEq, true_and, exists_eq_left', Language.mem_add,
            not_or, List.forall_mem_cons, mem_sixLetters_mul, not_not, hword]
          refine and_congr_right fun _ => ?_
          by_cases hnone : rest.takeWhile letters.contains = []
          · simp [hnone]
          · simpa [hnone] using ih htail (rest.dropWhile letters.contains)

theorem short_reached_iff (content : List Char) :
    (∀ t ∈ reached content, (token t).length ≤ 5) ↔ content ∉ longValueFiles := by
  have hdigits : Texts.NoStart Char.isDigit (longValueBy keyTokens) :=
    noStart_longValueBy rfl isKey_keyTokens
  have hspace : Texts.NoStart isSpace (Texts.integer * longValueBy keyTokens) :=
    Texts.noStart_mul fun s hs => Texts.integer_start hs
  have htokens : ∀ t ∈ intervalTokens, ∃ c u, t.2 = c :: u ∧ isSpace c = false := by
    intro t ht
    simp only [intervalTokens, List.mem_cons, List.not_mem_nil, or_false] at ht
    rcases ht with rfl | rfl
    all_goals exact ⟨_, _, rfl, rfl⟩
  rw [longValueFiles, Texts.mem_tokens_mul htokens, ← intervalFormat_eq_directives, reached,
    intervalText]
  have hconversions : conversions intervalFormat = 0 := by decide +kernel
  cases hperform : perform intervalFormat content with
  | none => simp
  | some r =>
      obtain ⟨vs, rest⟩ := r
      obtain rfl := values_eq_nil hconversions hperform
      have hkeys := short_reachedBy_iff isKey_keyTokens (afterInteger (rest.dropWhile isSpace))
      rw [← keyFormats_eq_directives] at hkeys
      simp only [Option.map_some, Option.some_inj, Prod.mk.injEq, true_and, exists_eq_left',
        Texts.mem_allOf_mul hspace, Texts.mem_integer_mul hdigits]
      cases hinteger : (integerAt (rest.dropWhile isSpace)).isSome with
      | true => simpa using hkeys
      | false => simp

/-- **The slots hold the values** exactly when the file does not come to a value that begins with
six letters of the set. -/
theorem tempSafe_iff (temp : Temp) (content : List Char) :
    TempSafe temp content ↔ content ∉ longValueFiles := by
  rw [← short_reached_iff]
  have htexts : storedTexts content = configTexts content := textsOf_eq content
  constructor
  · intro h t ht
    by_cases hempty : token t = []
    · simp [hempty]
    · exact h.short _ (htexts ▸ mem_configTexts.2 ⟨hempty, t, ht, rfl⟩)
  · intro h
    have hshort : ∀ s ∈ storedTexts content, s.length ≤ 5 := by
      intro s hs
      obtain ⟨-, t, ht, rfl⟩ := mem_configTexts.1 (htexts ▸ hs)
      exact h t ht
    have hfits : Temp.Fits (storedTexts content) := htexts ▸ fits_of_short (htexts ▸ hshort)
    refine ⟨hshort, (Temp.isSome_storeTexts _ temp).2 hfits, ?_, ?_⟩
    · intro i s hi before after hstore j hj
      simp only [Temp.storeTexts] at hstore
      split at hstore
      · obtain rfl := Option.some_inj.1 hstore
        exact Temp.getElem?_store _ (hshort s (List.mem_of_getElem? hi)) hj
      · simp at hstore
    · intro temp' hstore i s hi
      have hs := List.mem_of_getElem? hi
      have htext := Temp.text_storeTexts hstore hi (hshort s hs)
        (nul_notMem_of_configTexts (htexts ▸ hs))
      rwa [Nat.zero_add] at htext

/-- Nine letters at the first value. -/
def longValue : List Char :=
  ("\x7b \"update_interval\": 1, \"metrics\": \x7b \"cpu\": truefalse, \"mem\": true, " ++
    "\"hdd\": true, \"net\": true, \"procs\": true \x7d \x7d ").toList

theorem temp_not_safe : ¬ TempSafe .blank longValue := by
  intro h
  have hmem : "truefalse".toList ∈ storedTexts longValue := by
    rw [storedTexts, textsOf_eq]
    decide +kernel
  exact absurd (h.short _ hmem) (by decide)

/-! ### The switches -/

/-- White space, a comma or a closing brace. -/
def endsValue (c : Char) : Bool := isSpace c || c == ',' || c == Char.ofNat 0x7d

/-- The value written at a place of the file. -/
def written (t : List Char) : List Char :=
  t.takeWhile fun c => !endsValue c

/-- The value is one of the two words. -/
def Spelled (t : List Char) : Prop := written t = "true".toList ∨ written t = "false".toList

/-- A switch is the value written for it. -/
def Switched (t : List Char) (e : UInt8) : Prop :=
  written t = "true".toList ∧ e = 1 ∨ written t = "false".toList ∧ e = 0

/-- An accepted file sets the five switches to the values written for them, and a file with any
other value is reported as wrongly parsed. -/
structure SwitchesRespected (temp : Temp) (config : Config) (content : List Char) : Prop where
  accepted : ∀ c, setConfiguration temp config (some content) = .returned none c →
    ∀ i : Fin 5, ∃ t, (reached content)[i.val]? = some t ∧ Switched t (c i.succ)
  misspelled : (∃ t ∈ reached content, ¬ Spelled t) →
    ∃ c, setConfiguration temp config (some content) = .returned (some wronglyParsed) c

/-- The conversion takes a word as it is written. -/
theorem token_of_spelled {t : List Char} (h : Spelled t) : token t = written t := by
  have hword : ∀ c ∈ written t, letters.contains c = true := by
    rw [← List.all_eq_true]
    rcases h with hw | hw
    · rw [hw]
      rfl
    · rw [hw]
      rfl
  have hrest : (t.dropWhile fun c => !endsValue c).takeWhile letters.contains = [] := by
    cases hdrop : t.dropWhile fun c => !endsValue c with
    | nil => rfl
    | cons c rest =>
        have hends := List.dropWhile_get_zero_not (fun c => !endsValue c) t (by simp [hdrop])
        have hletters : letters.all (!endsValue ·) = true := rfl
        simp only [hdrop, List.get_eq_getElem, List.getElem_cons_zero] at hends
        refine List.takeWhile_cons_of_neg fun hc => hends ?_
        exact List.all_eq_true.1 hletters c (by simpa using hc)
  calc token t = (written t ++ t.dropWhile fun c => !endsValue c).takeWhile letters.contains := by
        rw [written, List.takeWhile_append_dropWhile, token]
    _ = written t := by rw [List.takeWhile_append_of_pos hword, hrest, List.append_nil]

/-- A file that is accepted gives all five values. -/
theorem configTexts_of_accepted {content : List Char} (h : (configTexts content).length = 5) :
    configTexts content = (reached content).map token ∧ (reached content).length = 5 := by
  have hle := length_reached_le content
  have hsub : (configTexts content).Sublist ((reached content).map token) := List.filter_sublist
  have hlength := hsub.length_le
  rw [List.length_map] at hlength
  exact ⟨hsub.eq_of_length (by rw [List.length_map]; omega), by omega⟩

/-- An accepted file that spells its values sets the switches to them. -/
theorem switched_of_spelled {temp : Temp} {config c : Config} {content : List Char}
    (hspelled : ∀ t ∈ reached content, Spelled t)
    (hc : setConfiguration temp config (some content) = .returned none c) (i : Fin 5) :
    ∃ t, (reached content)[i.val]? = some t ∧ Switched t (c i.succ) := by
  obtain ⟨hlength, temp', hstore, rfl⟩ := (setConfiguration_accepted_iff temp config c content).1 hc
  obtain ⟨htexts, hfive⟩ := configTexts_of_accepted hlength
  have hi : i.val < (reached content).length := by omega
  have ht := List.getElem?_eq_getElem hi
  have hword := hspelled _ (List.getElem_mem hi)
  generalize (reached content)[i.val] = t at ht hword
  refine ⟨t, ht, ?_⟩
  -- the slot holds the word that is written
  have htext : temp'.text i = written t := by
    have hget : (configTexts content)[i.val]? = some (written t) := by
      rw [htexts, List.getElem?_map, ht, Option.map_some, token_of_spelled hword]
    have hshort : (written t).length ≤ 5 := by
      rcases hword with hw | hw
      · simp [hw]
      · simp [hw]
    have hheld := Temp.text_storeTexts hstore hget hshort
      (nul_notMem_of_configTexts (List.mem_of_getElem? hget))
    rwa [Nat.zero_add] at hheld
  rw [convertValues_succ, convertValue, htext]
  rcases hword with hw | hw
  · exact Or.inl ⟨hw, by rw [if_pos hw, Function.update_self]⟩
  · refine Or.inr ⟨hw, ?_⟩
    rw [if_neg (by rw [hw]; decide), if_pos hw, Function.update_self]

/-- **The switches are those the file spells** exactly when it spells every value the scan comes
to, or it is rejected for another reason. -/
theorem spelled_iff (temp : Temp) (config : Config) (content : List Char) :
    SwitchesRespected temp config content ↔
      (∀ t ∈ reached content, Spelled t) ∨ Rejected content := by
  constructor
  · intro h
    by_cases hspelled : ∀ t ∈ reached content, Spelled t
    · exact Or.inl hspelled
    · simp only [not_forall, exists_prop] at hspelled
      obtain ⟨c, hc⟩ := h.misspelled hspelled
      exact Or.inr ((setConfiguration_reported_iff temp config c content _).1 hc).2.1
  · rintro (hspelled | hrejected)
    · exact ⟨fun c => switched_of_spelled hspelled,
        fun ⟨t, ht, hnot⟩ => absurd (hspelled t ht) hnot⟩
    · have hc := (setConfiguration_reported_iff temp config _ content _).2 ⟨rfl, hrejected, rfl⟩
      refine ⟨?_, fun _ => ⟨_, hc⟩⟩
      intro c hc'
      rw [hc] at hc'
      simp at hc'

/-- One letter is missing. -/
def misspelledValue : List Char :=
  ("\x7b \"update_interval\": 1, \"metrics\": \x7b \"cpu\": flase, \"mem\": true, " ++
    "\"hdd\": true, \"net\": true, \"procs\": true \x7d \x7d ").toList

theorem switches_not_respected : ¬ SwitchesRespected .blank defaultConfig misspelledValue := by
  intro h
  have hvalue : ∃ t ∈ reached misspelledValue, ¬ Spelled t := by
    have hfirst : (reached misspelledValue).head?.map written = some "flase".toList := by
      decide +kernel
    obtain ⟨t, ht, hw⟩ := Option.map_eq_some_iff.1 hfirst
    refine ⟨t, List.mem_of_mem_head? ht, ?_⟩
    unfold Spelled
    rw [hw]
    decide
  obtain ⟨c, hc⟩ := h.misspelled hvalue
  have hrejected := ((setConfiguration_reported_iff ..).1 hc).2.1
  exact hrejected.1 ((ret_configFormat _).2 (by decide +kernel))

/-! ### The interval -/

/-- The key of the interval. -/
def intervalKey : List Char := "\"update_interval\"".toList

/-- The text after the first place at which the key stands. -/
def afterKey : List Char → Option (List Char)
  | [] => none
  | c :: s =>
      if intervalKey <+: c :: s then some ((c :: s).drop intervalKey.length) else afterKey s

/-- The integer written as the value of the key, whatever white space and other text the file
has. -/
def writtenInterval (content : List Char) : Option ℤ :=
  (afterKey content).bind fun t =>
    match t.dropWhile isSpace with
    | ':' :: t => integerAt (t.dropWhile isSpace)
    | _ => none

/-- An accepted file sets the interval to the integer it gives, and an integer that does not fit in
a byte is reported and not stored. -/
structure IntervalRespected (temp : Temp) (config : Config) (content : List Char) (z : ℤ) :
    Prop where
  accepted : ∀ c, setConfiguration temp config (some content) = .returned none c →
    ((c 0).toNat : ℤ) = z
  out_of_range : z < 0 ∨ 255 < z → ∃ report c,
    setConfiguration temp config (some content) = .returned (some report) c ∧ c 0 = config 0

/-- The byte is the integer exactly when the integer fits. -/
theorem storedByte_eq_iff (z : ℤ) : ((storedByte z).toNat : ℤ) = z ↔ 0 ≤ z ∧ z ≤ 255 := by
  have hlt : wrapped 8 z < 256 := Nat.mod_lt _ (by simp)
  rw [storedByte, UInt8.toNat_ofNat', Nat.mod_eq_of_lt hlt]
  constructor
  · intro h
    omega
  · rintro ⟨hnonneg, hle⟩
    rw [wrapped, if_neg (by omega)]
    omega

/-- The key does not stand before the first quotation mark. -/
theorem afterKey_cons_of_ne {c : Char} (h : c ≠ '"') (s : List Char) :
    afterKey (c :: s) = afterKey s := by
  refine if_neg fun hkey => h ?_
  exact (List.cons_prefix_cons.1 (show '"' :: _ <+: c :: s from hkey)).1.symm

theorem afterKey_dropWhile (s : List Char) : afterKey (s.dropWhile isSpace) = afterKey s := by
  induction s with
  | nil => rfl
  | cons c s ih =>
      by_cases hc : isSpace c = true
      · have hquote : c ≠ '"' := by
          rintro rfl
          simp [isSpace] at hc
        rw [List.dropWhile_cons_of_pos hc, ih, afterKey_cons_of_ne hquote]
      · rw [List.dropWhile_cons_of_neg hc]

theorem afterKey_append (s : List Char) : afterKey (intervalKey ++ s) = some s :=
  (if_pos (List.prefix_append ..)).trans (congrArg some List.drop_left)

/-- When the file begins as the format does, the key stands where the scan has found it. -/
theorem afterKey_of_intervalText {content t : List Char} (h : intervalText content = some t) :
    afterKey content = some (':' :: t) := by
  have hformat : intervalFormat =
      .literal (Char.ofNat 0x7b) :: .space :: (intervalKey ++ [':']).map .literal := by
    decide +kernel
  unfold intervalText at h
  rw [hformat] at h
  cases content with
  | nil => simp [perform] at h
  | cons c s =>
      by_cases hc : c = Char.ofNat 0x7b
      · simp only [perform, if_pos hc, perform_literals] at h
        split at h
        · rename_i hkey
          obtain ⟨rest, hrest⟩ := hkey
          rw [← hrest, List.drop_left] at h
          obtain rfl : rest = t := by simpa using h
          have hbrace : c ≠ '"' := by
            rw [hc]
            decide
          rw [afterKey_cons_of_ne hbrace, ← afterKey_dropWhile, ← hrest, List.append_assoc,
            afterKey_append]
          rfl
        · simp at h
      · simp [perform, hc] at h

/-- The number that the scan reads is the one that is written. -/
theorem writtenInterval_of_readInterval {content : List Char} {z : ℤ}
    (h : readInterval content = some z) : writtenInterval content = some z := by
  obtain ⟨t, ht, hz⟩ := Option.bind_eq_some_iff.1 h
  rw [writtenInterval, afterKey_of_intervalText ht, Option.bind_some]
  exact hz

/-- What a call leaves in `config[0]`. -/
theorem configRead_zero (content : List Char) (config : Config) :
    configRead content config 0 = config 0 ↔
      ∀ n, readInterval content = some n → storedByte n = config 0 := by
  unfold configRead
  cases readInterval content with
  | none => simp
  | some n => simp

/-- **The interval is the number the file gives** exactly when the number fits in a byte, or the
file is rejected for another reason and has not changed the interval. -/
theorem interval_iff (temp : Temp) (config : Config) (content : List Char) (z : ℤ)
    (hz : writtenInterval content = some z) :
    IntervalRespected temp config content z ↔
      (0 ≤ z ∧ z ≤ 255) ∨
        (Rejected content ∧ ∀ n, readInterval content = some n → storedByte n = config 0) := by
  constructor
  · intro h
    by_cases hrange : 0 ≤ z ∧ z ≤ 255
    · exact Or.inl hrange
    · obtain ⟨report, c, hc, hkept⟩ := h.out_of_range (by omega)
      obtain ⟨-, hrejected, rfl⟩ := (setConfiguration_reported_iff ..).1 hc
      exact Or.inr ⟨hrejected, (configRead_zero content config).1 hkept⟩
  · rintro (hrange | ⟨hrejected, hkept⟩)
    · refine ⟨?_, fun hout => by omega⟩
      intro c hc
      obtain ⟨hlength, temp', -, rfl⟩ := (setConfiguration_accepted_iff ..).1 hc
      -- a file that is accepted has a number, and it is the one that is written
      cases hread : readInterval content with
      | none =>
          rw [configTexts_of_readInterval hread] at hlength
          simp at hlength
      | some n =>
          obtain rfl : n = z :=
            Option.some_inj.1 ((writtenInterval_of_readInterval hread).symm.trans hz)
          rw [convertValues_zero, configRead, hread]
          simpa using (storedByte_eq_iff n).2 hrange
    · have hc := (setConfiguration_reported_iff temp config _ content _).2 ⟨rfl, hrejected, rfl⟩
      refine ⟨?_, fun _ => ⟨_, _, hc, (configRead_zero content config).2 hkept⟩⟩
      intro c hc'
      rw [hc] at hc'
      simp at hc'

/-- 256 seconds. -/
def longInterval : List Char :=
  ("\x7b \"update_interval\": 256, \"metrics\": \x7b \"cpu\": true, \"mem\": true, " ++
    "\"hdd\": true, \"net\": true, \"procs\": true \x7d \x7d ").toList

/-- 30 seconds. -/
def shortInterval : List Char :=
  ("\x7b \"update_interval\": 30, \"metrics\": \x7b \"cpu\": true, \"mem\": true, " ++
    "\"hdd\": true, \"net\": true, \"procs\": true \x7d \x7d ").toList

theorem interval_shortInterval :
    IntervalRespected .blank defaultConfig shortInterval 30 ↔
      (0 ≤ (30 : ℤ) ∧ (30 : ℤ) ≤ 255) ∨
        (Rejected shortInterval ∧
          ∀ n, readInterval shortInterval = some n → storedByte n = defaultConfig 0) :=
  interval_iff .blank defaultConfig shortInterval 30 (by decide +kernel)

theorem interval_not_respected :
    ¬ ∀ z, writtenInterval longInterval = some z →
      IntervalRespected .blank defaultConfig longInterval z := by
  intro h
  have hinterval := h 256 (by decide +kernel)
  obtain ⟨report, c, hc, -⟩ := hinterval.out_of_range (by simp)
  have hrejected := ((setConfiguration_reported_iff ..).1 hc).2.1
  exact hrejected.1 ((ret_configFormat _).2 (by decide +kernel))

end Monitor
