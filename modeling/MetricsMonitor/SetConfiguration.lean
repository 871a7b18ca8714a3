/-
**Reading the configuration file.**

`set_configuration` reads the whole file with one `fscanf`.  The number goes into `config[0]` at
once; the five values go into the slots of `char temp[5][6]`, thirty contiguous bytes, and are
compared with two words afterwards.  The conversions of the values carry no width, so a long value
runs on into the following slots, and past the end of `temp` the behaviour is undefined.

* `Monitor.configFormat` — the format, and `Monitor.configFormat_eq` its parts;
* `Monitor.Temp`, `Monitor.Temp.storeTexts` — the thirty bytes and what `fscanf` does to them;
* `Monitor.setConfiguration` — **`set_configuration`**;
* `Monitor.reached` — the text of the file at each value that the scan comes to;
* `Monitor.configScan_eq` — **what the scan stores**, part by part;
* `Monitor.Temp.text_storeTexts` — values of at most five bytes are found in their slots.
-/

import MetricsMonitor.Metrics
import MetricsMonitor.ExposeMetrics
import MetricsMonitor.FormatMatching
import Mathlib.Data.List.DropRight

set_option relaxedAutoImplicit false
set_option autoImplicit false

namespace Monitor

open FormattedInput

/-! ### The format -/

/-- The format of the configuration file. -/
def configFormat : String :=
  "\x7b \"update_interval\": %hhu, \"metrics\": \x7b \"cpu\": %[truefals], \"mem\": %[truefals], " ++
    "\"hdd\": %[truefals], \"net\": %[truefals], \"procs\": %[truefals] \x7d \x7d "

/-- The bytes of the set of the five conversions. -/
def letters : List Char := "truefals".toList

/-- The format up to the number. -/
def intervalFormat : List Directive := parseFormat "\x7b \"update_interval\":"

/-- What stands in front of each of the five values. -/
def keyFormats : List (List Directive) :=
  [", \"metrics\": \x7b \"cpu\": ", ", \"mem\": ", ", \"hdd\": ", ", \"net\": ",
    ", \"procs\": "].map parseFormat

/-- The number, the five values and the closing braces. -/
theorem configFormat_eq :
    parseFormat configFormat =
      intervalFormat ++ .space :: .conv false (.unsigned 8) ::
        (keyFormats.flatMap (· ++ [.conv false (.scanset letters)]) ++
          parseFormat " \x7d \x7d ") := by
  decide +kernel

/-! ### The values in memory -/

/-- The null byte. -/
def nul : Char := Char.ofNat 0

/-- The thirty bytes of `char temp[5][6]`; `temp[i]` starts at byte `6 * i`. -/
structure Temp where
  bytes : List Char
  length_bytes : bytes.length = 30

namespace Temp

/-- Storing a text at `temp[i]`, with a null byte after it. -/
def store (temp : Temp) (i : ℕ) (s : List Char) (h : 6 * i + s.length < 30) : Temp where
  bytes := temp.bytes.take (6 * i) ++ s ++ nul :: temp.bytes.drop (6 * i + s.length + 1)
  length_bytes := by
    have := temp.length_bytes
    simp only [List.length_append, List.length_take, List.length_cons, List.length_drop]
    omega

/-- Storing texts one after the other at `temp[i]` and the following slots; `none` when one of
them runs past the end of `temp`. -/
def storeTexts : ℕ → List (List Char) → Temp → Option Temp
  | _, [], temp => some temp
  | i, s :: ss, temp =>
      if h : 6 * i + s.length < 30 then storeTexts (i + 1) ss (temp.store i s h) else none

/-- The text at `temp[i]`, up to its null byte. -/
def text (temp : Temp) (i : ℕ) : List Char := (temp.bytes.drop (6 * i)).takeWhile (· ≠ nul)

end Temp

/-! ### The function -/

/-- How `set_configuration` ends. -/
inductive Outcome
  /-- It returns; `report` is its message on `stderr`. -/
  | returned (report : Option String) (config : Config)
  /-- A value has run past the end of `temp`: undefined. -/
  | overrun

/-- The message for a file that cannot be opened; `perror` adds the reason. -/
def notOpened : String := "ERROR: Can't open config file"

/-- The message for a file that does not match the format. -/
def wronglyParsed : String := "ERROR: Config file wrongly parsed.\n"

/-- The texts among the values of a scan. -/
def textsOf (stored : List Value) : List (List Char) :=
  stored.filterMap fun
    | .text s => some s
    | .number _ => none

/-- `config` after `fscanf`: the number goes into its first entry. -/
def storeInterval (stored : List Value) (config : Config) : Config :=
  Function.update config 0 (.ofNat (assign (fun _ : Fin 1 => (config 0).toNat) stored 0))

/-- The body of the loop of comparisons: a value that is neither word leaves its entry alone. -/
def convertValue (temp : Temp) (config : Config) (i : Fin 5) : Config :=
  if temp.text i = "true".toList then Function.update config i.succ 1
  else if temp.text i = "false".toList then Function.update config i.succ 0
  else config

/-- The loop of comparisons. -/
def convertValues (temp : Temp) (config : Config) : Config :=
  (List.finRange 5).foldl (convertValue temp) config

/-- **`set_configuration`**, on what `temp` and `config` hold before the call. -/
def setConfiguration (temp : Temp) (config : Config) : File → Outcome
  | none => .returned (some notOpened) config
  | some content =>
      let r := fscanf content configFormat
      match temp.storeTexts 0 (textsOf r.stored) with
      | none => .overrun
      | some temp =>
          let config := storeInterval r.stored config
          if r.ret ≠ 6 then .returned (some wronglyParsed) config
          else .returned none (convertValues temp config)

/-! ### What the scan stores -/

/-- The text of the file at each value that the scan comes to, under the formats in front of the
values; the last of them may hold no letter of the set. -/
def reachedBy : List (List Directive) → List Char → List (List Char)
  | [], _ => []
  | key :: keys, input =>
      match perform key input with
      | none => []
      | some (_, rest) =>
          rest ::
            if rest.takeWhile letters.contains = [] then []
            else reachedBy keys (rest.dropWhile letters.contains)

/-- The text of a file after `{ "update_interval":`. -/
def intervalText (content : List Char) : Option (List Char) :=
  (perform intervalFormat content).map Prod.snd

/-- The number of a file that begins as the format does. -/
def readInterval (content : List Char) : Option ℤ :=
  (intervalText content).bind fun t => integerAt (t.dropWhile isSpace)

/-- The text of a file at each of the values that the scan comes to. -/
def reached (content : List Char) : List (List Char) :=
  match intervalText content with
  | none => []
  | some t =>
      if (integerAt (t.dropWhile isSpace)).isSome then
        reachedBy keyFormats (afterInteger (t.dropWhile isSpace))
      else []

/-- The letters at a value that the scan comes to: what the conversion takes. -/
def token (t : List Char) : List Char := t.takeWhile letters.contains

/-- The texts that the scan stores. -/
def configTexts (content : List Char) : List (List Char) :=
  ((reached content).map token).filter (· ≠ [])

/-- **Scanning the values**: one after the other, as long as the text in front of it matches and
there is a letter.  The induction is on the keys; `tail` is what the format has after them. -/
theorem scan_keys {keys : List (List Directive)} (hkeys : ∀ key ∈ keys, conversions key = 0)
    {tail : List Directive} (htail : conversions tail = 0) (input : List Char) :
    (scan (keys.flatMap (· ++ [.conv false (.scanset letters)]) ++ tail) input).stored =
      (((reachedBy keys input).map token).filter (· ≠ [])).map .text := by
  induction keys generalizing input with
  | nil => simpa [reachedBy] using stored_eq_nil htail input
  | cons key keys ih =>
      have hkey := hkeys key (List.mem_cons_self ..)
      have hih := ih fun key' h => hkeys key' (List.mem_cons_of_mem key h)
      rw [List.flatMap_cons, List.append_assoc, List.append_assoc]
      cases hperform : perform key input with
      | none =>
          rw [scan_append_of_eq_none hperform]
          simpa [reachedBy, hperform] using stored_eq_nil hkey input
      | some r =>
          obtain ⟨vs, rest⟩ := r
          obtain rfl := values_eq_nil hkey hperform
          rw [scan_append hperform, reachedBy, hperform]
          by_cases hletters : rest.takeWhile letters.contains = []
          · simp [scan, convert_scanset_eq, hletters, token]
          · simp [scan, convert_scanset_eq, hletters, token, hih]

/-- **What the scan stores**: the number, when the file begins as the format does, and then the
values it comes to. -/
theorem configScan_eq (content : List Char) :
    (fscanf content configFormat).stored =
      match readInterval content with
      | none => []
      | some z => .number (wrapped 8 z) :: (configTexts content).map .text := by
  have hkeys : ∀ key ∈ keyFormats, conversions key = 0 := by decide +kernel
  have htail : conversions (parseFormat " \x7d \x7d ") = 0 := by decide +kernel
  have hhead : conversions intervalFormat = 0 := by decide +kernel
  rw [fscanf, configFormat_eq]
  unfold readInterval configTexts reached intervalText
  cases hperform : perform intervalFormat content with
  | none =>
      rw [scan_append_of_eq_none hperform]
      simpa using stored_eq_nil hhead content
  | some r =>
      obtain ⟨vs, t⟩ := r
      obtain rfl := values_eq_nil hhead hperform
      rw [scan_append hperform]
      simp only [scan, convert_unsigned_eq, List.dropWhile_idempotent, Option.map_some,
        Option.bind_some]
      cases integerAt (t.dropWhile isSpace) with
      | none => simp
      | some z => simp [scan_keys hkeys htail]

/-- Without a number there are no values. -/
theorem configTexts_of_readInterval {content : List Char} (h : readInterval content = none) :
    configTexts content = [] := by
  unfold readInterval at h
  unfold configTexts reached
  cases ht : intervalText content with
  | none => rfl
  | some t =>
      rw [ht, Option.bind_some] at h
      simp [h]

/-- What `%hhu` stores for an integer. -/
def storedByte (z : ℤ) : UInt8 := .ofNat (wrapped 8 z)

/-- `config` after `fscanf`. -/
def configRead (content : List Char) (config : Config) : Config :=
  match readInterval content with
  | none => config
  | some z => Function.update config 0 (storedByte z)

theorem storeInterval_eq (content : List Char) (config : Config) :
    storeInterval (fscanf content configFormat).stored config = configRead content config := by
  rw [configScan_eq, configRead, storeInterval]
  cases readInterval content with
  | none => simp [assign]
  | some z => rfl

theorem textsOf_eq (content : List Char) :
    textsOf (fscanf content configFormat).stored = configTexts content := by
  rw [configScan_eq]
  cases h : readInterval content with
  | none => rw [configTexts_of_readInterval h]; rfl
  | some z => simp [textsOf, List.filterMap_map]

/-- The scan performs all its conversions exactly when it stores five values. -/
theorem ret_configFormat (content : List Char) :
    (fscanf content configFormat).ret = 6 ↔ (configTexts content).length = 5 := by
  have hret := ret_eq_length (r := fscanf content configFormat) (n := 6) (by simp)
  simp only [Nat.cast_ofNat] at hret
  rw [hret, configScan_eq]
  cases h : readInterval content with
  | none => simp [configTexts_of_readInterval h]
  | some z => simp

/-- **The specification of `set_configuration`.** -/
theorem setConfiguration_eq (temp : Temp) (config : Config) (content : List Char) :
    setConfiguration temp config (some content) =
      match temp.storeTexts 0 (configTexts content) with
      | none => .overrun
      | some temp =>
          if (configTexts content).length = 5 then
            .returned none (convertValues temp (configRead content config))
          else .returned (some wronglyParsed) (configRead content config) := by
  have hret := ret_configFormat content
  unfold setConfiguration
  dsimp only
  rw [← storeInterval_eq, ← textsOf_eq]
  rw [← textsOf_eq] at hret
  generalize fscanf content configFormat = r at hret ⊢
  cases temp.storeTexts 0 (textsOf r.stored) with
  | none => rfl
  | some temp =>
      dsimp only
      by_cases h : (textsOf r.stored).length = 5
      · rw [if_neg (not_not_intro (hret.2 h)), if_pos h]
      · rw [if_pos (mt hret.1 h), if_neg h]

/-! ### The entries after the comparisons -/

/-- A comparison touches the entry of its own value only. -/
theorem convertValue_of_ne (temp : Temp) (config : Config) {i : Fin 5} {e : Fin 6}
    (h : e ≠ i.succ) : convertValue temp config i e = config e := by
  unfold convertValue
  split
  · exact Function.update_of_ne h ..
  · split
    · exact Function.update_of_ne h ..
    · rfl

theorem convertValues_zero (temp : Temp) (config : Config) :
    convertValues temp config 0 = config 0 := by
  have hstep (l : List (Fin 5)) (config : Config) :
      l.foldl (convertValue temp) config 0 = config 0 := by
    induction l generalizing config with
    | nil => rfl
    | cons i l ih => rw [List.foldl_cons, ih, convertValue_of_ne _ _ (Fin.succ_ne_zero i).symm]
  exact hstep _ _

/-- Each entry is that of its own comparison. -/
theorem convertValues_succ (temp : Temp) (config : Config) (i : Fin 5) :
    convertValues temp config i.succ = convertValue temp config i i.succ := by
  have hskip {l : List (Fin 5)} (hi : i ∉ l) (config : Config) :
      l.foldl (convertValue temp) config i.succ = config i.succ := by
    induction l generalizing config with
    | nil => rfl
    | cons j l ih =>
        rw [List.mem_cons, not_or] at hi
        rw [List.foldl_cons, ih hi.2,
          convertValue_of_ne _ _ fun h => hi.1 (Fin.succ_injective 5 h)]
  have hlocal {config config' : Config} (h : config i.succ = config' i.succ) :
      convertValue temp config i i.succ = convertValue temp config' i i.succ := by
    unfold convertValue
    split
    · simp
    · split
      · simp
      · exact h
  obtain ⟨before, after, hsplit⟩ := List.append_of_mem (List.mem_finRange i)
  have hnodup : (before ++ i :: after).Nodup := hsplit ▸ List.nodup_finRange 5
  rw [convertValues, hsplit, List.foldl_append, List.foldl_cons]
  rw [List.nodup_append, List.nodup_cons] at hnodup
  rw [hskip hnodup.2.1.1]
  exact hlocal (hskip (fun h => hnodup.2.2 i h i (List.mem_cons_self ..) rfl) config)

/-! ### Texts in their slots -/

namespace Temp

variable {temp : Temp} {i : ℕ} {s : List Char} (h : 6 * i + s.length < 30)

theorem bytes_store : (temp.store i s h).bytes =
    temp.bytes.take (6 * i) ++ (s ++ nul :: temp.bytes.drop (6 * i + s.length + 1)) :=
  List.append_assoc ..

theorem length_take_bytes (h : 6 * i + s.length < 30) :
    (temp.bytes.take (6 * i)).length = 6 * i := by
  have := temp.length_bytes
  rw [List.length_take]
  omega

theorem drop_store : (temp.store i s h).bytes.drop (6 * i) =
    s ++ nul :: temp.bytes.drop (6 * i + s.length + 1) := by
  rw [bytes_store, List.drop_left' (length_take_bytes h)]

theorem take_store : (temp.store i s h).bytes.take (6 * i) = temp.bytes.take (6 * i) := by
  rw [bytes_store, List.take_left' (length_take_bytes h)]

/-- A text of at most five bytes touches the six bytes of its slot only. -/
theorem getElem?_store (hs : s.length ≤ 5) {j : ℕ} (hj : j / 6 ≠ i) :
    (temp.store i s h).bytes[j]? = temp.bytes[j]? := by
  rcases Nat.lt_or_ge j (6 * i) with hlt | hge
  · rw [← List.getElem?_take_of_lt hlt, take_store, List.getElem?_take_of_lt hlt]
  · have hpast : s.length + 1 ≤ j - 6 * i := by omega
    have hdrop (l : List Char) (n : ℕ) (hn : n ≤ j) : l[j]? = (l.drop n)[j - n]? := by
      rw [List.getElem?_drop, Nat.add_sub_cancel' hn]
    rw [hdrop _ (6 * i) hge, drop_store, List.append_cons,
      List.getElem?_append_right (by simpa using hpast),
      hdrop temp.bytes (6 * i + s.length + 1) (by omega)]
    congr 1
    simp only [List.length_append, List.length_singleton]
    omega

/-- Later texts leave the slots before theirs alone. -/
theorem take_storeTexts {ss : List (List Char)} {temp' : Temp}
    (h : temp.storeTexts i ss = some temp') :
    temp'.bytes.take (6 * i) = temp.bytes.take (6 * i) := by
  induction ss generalizing i temp with
  | nil =>
      obtain rfl : temp = temp' := by simpa [storeTexts] using h
      rfl
  | cons s ss ih =>
      simp only [storeTexts] at h
      split at h
      · rename_i hfits
        have htake := congrArg (List.take (6 * i)) (ih h)
        rw [List.take_take, List.take_take, Nat.min_eq_left (by omega)] at htake
        rw [htake, take_store]
      · simp at h

/-- Whether texts stored from `temp[0]` on stay inside `temp`. -/
def Fits (ss : List (List Char)) : Prop := ∀ k s, ss[k]? = some s → 6 * k + s.length < 30

theorem isSome_storeTexts_from (ss : List (List Char)) (temp : Temp) :
    (temp.storeTexts i ss).isSome = true ↔
      ∀ k s, ss[k]? = some s → 6 * (i + k) + s.length < 30 := by
  induction ss generalizing i temp with
  | nil => simp [storeTexts]
  | cons r ss ih =>
      simp only [storeTexts]
      constructor
      · intro h k s hk
        split at h
        · rename_i hfits
          cases k with
          | zero =>
              obtain rfl : r = s := by simpa using hk
              exact hfits
          | succ k =>
              have hrest := (ih (temp.store i r hfits)).1 h k s (by simpa using hk)
              omega
        · simp at h
      · intro h
        have hfits : 6 * i + r.length < 30 := h 0 r rfl
        rw [dif_pos hfits]
        refine (ih _).2 fun k s hk => ?_
        have hrest := h (k + 1) s (by simpa using hk)
        omega

theorem isSome_storeTexts (ss : List (List Char)) (temp : Temp) :
    (temp.storeTexts 0 ss).isSome = true ↔ Fits ss := by
  simpa [Fits] using isSome_storeTexts_from (i := 0) ss temp

/-- **A text of at most five bytes is found in its slot** once all texts have been stored. -/
theorem text_storeTexts {ss : List (List Char)} {temp' : Temp}
    (h : temp.storeTexts i ss = some temp') {k : ℕ} (hk : ss[k]? = some s)
    (hs : s.length ≤ 5) (hnul : nul ∉ s) : temp'.text (i + k) = s := by
  induction ss generalizing i temp k with
  | nil => simp at hk
  | cons r ss ih =>
      simp only [storeTexts] at h
      split at h
      · rename_i hfits
        cases k with
        | succ k =>
            have hih := ih h (by simpa using hk)
            rwa [show i + 1 + k = i + (k + 1) by omega] at hih
        | zero =>
            obtain rfl : r = s := by simpa using hk
            -- the slot and its null byte lie before what the later texts touch
            have hslot : (temp'.bytes.drop (6 * i)).take (r.length + 1) = r ++ [nul] := by
              have htake := congrArg (List.drop (6 * i)) (take_storeTexts h)
              rw [List.drop_take, List.drop_take, drop_store] at htake
              have hshort := congrArg (List.take (r.length + 1)) htake
              rw [List.take_take, List.take_take, Nat.min_eq_left (by omega)] at hshort
              rw [hshort]
              simp [List.take_append]
            have htext : temp'.bytes.drop (6 * i) =
                r ++ nul :: (temp'.bytes.drop (6 * i)).drop (r.length + 1) := by
              conv_lhs => rw [← List.take_append_drop (r.length + 1) (temp'.bytes.drop (6 * i))]
              rw [hslot, List.append_assoc, List.singleton_append]
            have hletters : ∀ c ∈ r, decide (c ≠ nul) = true := by
              intro c hc
              rw [decide_eq_true_iff]
              rintro rfl
              exact hnul hc
            rw [Nat.add_zero, text, htext, List.takeWhile_append_of_pos hletters]
            simp
      · simp at h

end Temp

end Monitor
