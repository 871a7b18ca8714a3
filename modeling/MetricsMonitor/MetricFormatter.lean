/-
**The metric formatter of libprom: `prom_metric_formatter.c`.**

The formatter writes into a string builder, call after call, and gives up at the first call that
fails; what it has written by then stays in the builder.  A function of the formatter is therefore
the list of its calls.  The one call whose failure it does not look at, for the prefix of a sample,
is marked as such.

* `Monitor.PmfStep`, `Monitor.pmfRun` — the calls of a formatter function, and performing them;
* `Monitor.pmfLoadHelp`, `Monitor.pmfLoadType`, `Monitor.pmfLoadLValue`, `Monitor.pmfLoadSample` —
  the functions;
* `Monitor.pmfRun_adds`, `Monitor.pmfRun_pmfLoadLValue` — what they write while memory lasts;
* `Monitor.lValueText_injective` — **the text under which a sample is kept determines the label
  values**, as long as none of them contains a quotation mark;
* `Monitor.lValueText_collision` — with quotation marks it does not.
-/

import MetricsMonitor.FormattedOutput
import MetricsMonitor.StringBuilder

set_option relaxedAutoImplicit false
set_option autoImplicit false

namespace Monitor

open FormattedOutput

/-- `prom_metric_type_t`. -/
inductive MetricType
  | counter
  | gauge
  | histogram
  | summary
  | untyped
  deriving DecidableEq, Repr

/-- `prom_metric_type_map`. -/
def promMetricTypeMap : MetricType → CString
  | .counter => "counter".toList
  | .gauge => "gauge".toList
  | .histogram => "histogram".toList
  | .summary => "summary".toList
  | .untyped => "untyped".toList

/-- The value of a sample; finite values are exact rationals, and a zero may be negative. -/
inductive Double
  | nan (negative : Bool)
  | infinite (negative : Bool)
  | negativeZero
  | finite (q : ℚ)
  deriving DecidableEq

/-- `sprintf` of a value with `%.17g`. -/
def Double.text : Double → CString
  | .nan negative => (if negative then ['-'] else []) ++ "nan".toList
  | .infinite negative => (if negative then ['-'] else []) ++ "inf".toList
  | .negativeZero => "-0".toList
  | .finite q => formatG 17 q

/-! ### The functions of `prom_metric_formatter.c` -/

/-- A step of a formatter function. -/
inductive PmfStep
  /-- A call whose failure ends the function. -/
  | call (c : PsbCall)
  /-- A call whose result is not looked at. -/
  | ignore (c : PsbCall)
  /-- The function ends with an error of its own. -/
  | fail
  deriving DecidableEq

/-- Performing the steps on a text, from the `k`-th call on; `works k` is whether `realloc` works
during the `k`-th call.  The result is whether the function succeeds, the number of the next call
and the text. -/
def pmfRun (works : ℕ → Bool) : List PmfStep → ℕ → CString → Bool × ℕ × CString
  | [], k, text => (true, k, text)
  | .call c :: steps, k, text =>
      match c.text (works k) text with
      | (true, text) => pmfRun works steps (k + 1) text
      | (false, text) => (false, k + 1, text)
  | .ignore c :: steps, k, text => pmfRun works steps (k + 1) (c.text (works k) text).2
  | .fail :: _, k, text => (false, k, text)

/-- `psb_add_str`. -/
def addStr (str : CString) : PmfStep := .call (.addStr str)

/-- `psb_add_char`. -/
def addChar (c : Char) : PmfStep := .call (.addChar c)

/-- The beginning of a line with a help text. -/
def helpMark : CString := "# HELP ".toList

/-- The beginning of a line with a type. -/
def typeMark : CString := "# TYPE ".toList

/-- `pmf_load_help`; `none` is a null pointer. -/
def pmfLoadHelp (pre : Option CString) (name : CString) (help : Option CString) : List PmfStep :=
  match help with
  | none => []
  | some help =>
      addStr helpMark :: (pre.map addStr).toList ++
        [addStr name, addChar ' ', addStr help, addChar '\n']

/-- `pmf_load_type`. -/
def pmfLoadType (pre : Option CString) (name : CString) (type : MetricType) : List PmfStep :=
  addStr typeMark :: (pre.map addStr).toList ++
    [addStr name, addChar ' ', addStr (promMetricTypeMap type), addChar '\n']

/-- The steps of `pmf_load_l_value` for a suffix. -/
def suffixSteps : Option CString → List PmfStep
  | none => []
  | some suffix => [addChar '_', addStr suffix]

/-- The steps of `pmf_load_l_value` for one label. -/
def labelSteps (label : CString × CString) : List PmfStep :=
  [addStr label.1, addStr "=\"".toList, addStr label.2, addStr "\",".toList]

/-- The steps of `pmf_load_l_value` for the labels: the comma behind the last one is removed. -/
def labelsSteps : List (CString × CString) → List PmfStep
  | [] => []
  | label :: labels =>
      addChar '{' :: (label :: labels).flatMap labelSteps ++ [.call .dropLast, addChar '}']

/-- `pmf_load_l_value`; the labels are pairs of a key and a value. -/
def pmfLoadLValue (name : CString) (suffix : Option CString) (labels : List (CString × CString)) :
    List PmfStep :=
  addStr name :: suffixSteps suffix ++ labelsSteps labels

/-- `pmf_load_sample`. -/
def pmfLoadSample (pre : Option CString) (lValue : CString) (rValue : Double) : List PmfStep :=
  (pre.map fun pre => PmfStep.ignore (.addStr pre)).toList ++
    [addStr lValue, addStr (' ' :: rValue.text), addChar '\n']

/-! ### What is written -/

/-- The bytes a call that only adds writes. -/
def PsbCall.chunk : PsbCall → Option CString
  | .addStr str => some str
  | .addChar c => some [c]
  | .truncate _ | .dropLast | .clear => none

/-- The bytes a step that only adds writes. -/
def PmfStep.chunk : PmfStep → Option CString
  | .call c | .ignore c => c.chunk
  | .fail => none

/-- A step that only adds. -/
def PmfStep.Adds (step : PmfStep) : Prop := step.chunk.isSome = true

/-- What a step that only adds writes. -/
def PmfStep.written (step : PmfStep) : CString := step.chunk.getD []

@[simp] theorem adds_addStr (str : CString) : (addStr str).Adds := rfl

@[simp] theorem adds_addChar (c : Char) : (addChar c).Adds := rfl

@[simp] theorem adds_ignore (str : CString) : (PmfStep.ignore (.addStr str)).Adds := rfl

@[simp] theorem written_addStr (str : CString) : (addStr str).written = str := rfl

@[simp] theorem written_addChar (c : Char) : (addChar c).written = [c] := rfl

@[simp] theorem written_ignore (str : CString) :
    (PmfStep.ignore (.addStr str)).written = str := rfl

theorem pmfLoadHelp_adds {pre help : Option CString} {name : CString} :
    ∀ step ∈ pmfLoadHelp pre name help, step.Adds := by
  cases help <;> cases pre <;> simp [pmfLoadHelp]

theorem pmfLoadType_adds {pre : Option CString} {name : CString} {type : MetricType} :
    ∀ step ∈ pmfLoadType pre name type, step.Adds := by
  cases pre <;> simp [pmfLoadType]

theorem pmfLoadSample_adds {pre : Option CString} {lValue : CString} {rValue : Double} :
    ∀ step ∈ pmfLoadSample pre lValue rValue, step.Adds := by
  cases pre <;> simp [pmfLoadSample]

theorem written_pmfLoadHelp (pre name help : CString) :
    (pmfLoadHelp (some pre) name (some help)).flatMap PmfStep.written =
      helpMark ++ (pre ++ name ++ ' ' :: help) ++ ['\n'] := by
  simp [pmfLoadHelp]

theorem written_pmfLoadType (pre name : CString) (type : MetricType) :
    (pmfLoadType (some pre) name type).flatMap PmfStep.written =
      typeMark ++ (pre ++ name ++ ' ' :: promMetricTypeMap type) ++ ['\n'] := by
  simp [pmfLoadType]

theorem written_pmfLoadSample (pre lValue : CString) (rValue : Double) :
    (pmfLoadSample (some pre) lValue rValue).flatMap PmfStep.written =
      pre ++ lValue ++ ' ' :: rValue.text ++ ['\n'] := by
  simp [pmfLoadSample]

theorem text_of_chunk {c : PsbCall} {chunk : CString} (h : c.chunk = some chunk)
    (text : CString) : c.text true text = (true, text ++ chunk) := by
  cases c with
  | addStr str =>
      obtain rfl : str = chunk := Option.some_inj.1 h
      simp [PsbCall.text]
  | addChar c =>
      obtain rfl : [c] = chunk := Option.some_inj.1 h
      simp [PsbCall.text]
  | truncate | dropLast | clear => simp [PsbCall.chunk] at h

theorem pmfRun_append {works : ℕ → Bool} {steps : List PmfStep} {k k' : ℕ} {text text' : CString}
    (h : pmfRun works steps k text = (true, k', text')) (steps' : List PmfStep) :
    pmfRun works (steps ++ steps') k text = pmfRun works steps' k' text' := by
  induction steps generalizing k text with
  | nil =>
      rw [pmfRun, Prod.mk.injEq, Prod.mk.injEq] at h
      obtain ⟨-, rfl, rfl⟩ := h
      rfl
  | cons step steps ih =>
      cases step with
      | call c =>
          rw [pmfRun] at h
          rw [List.cons_append, pmfRun]
          rcases hc : c.text (works k) text with ⟨ok, text₁⟩
          rw [hc] at h
          cases ok with
          | true => exact ih h
          | false => simp at h
      | ignore c =>
          rw [pmfRun] at h
          rw [List.cons_append, pmfRun]
          exact ih h
      | fail => simp [pmfRun] at h

section Works

variable {works : ℕ → Bool} (hworks : ∀ k, works k = true)
include hworks

/-- **While memory lasts, additions are written one behind the other.** -/
theorem pmfRun_adds {steps : List PmfStep} (h : ∀ step ∈ steps, step.Adds) (k : ℕ)
    (text : CString) :
    pmfRun works steps k text = (true, k + steps.length, text ++ steps.flatMap PmfStep.written) := by
  induction steps generalizing k text with
  | nil => simp [pmfRun]
  | cons step steps ih =>
      obtain ⟨chunk, hchunk⟩ := Option.isSome_iff_exists.1 (h step (List.mem_cons_self ..))
      have hstep : pmfRun works (step :: steps) k text =
          pmfRun works steps (k + 1) (text ++ step.written) := by
        rw [PmfStep.written, hchunk]
        cases step with
        | call c => rw [pmfRun, hworks, text_of_chunk hchunk, Option.getD_some]
        | ignore c => rw [pmfRun, hworks, text_of_chunk hchunk, Option.getD_some]
        | fail => simp [PmfStep.chunk] at hchunk
      rw [hstep, ih fun step hs => h step (List.mem_cons_of_mem _ hs), List.length_cons,
        List.flatMap_cons, List.append_assoc, Nat.add_right_comm, Nat.add_assoc]

end Works

/-! ### The text of a sample's name and labels -/

/-- A label as it is written, with the comma behind it. -/
def labelText (label : CString × CString) : CString :=
  label.1 ++ "=\"".toList ++ label.2 ++ "\",".toList

/-- A suffix as it is written. -/
def suffixText : Option CString → CString
  | none => []
  | some suffix => '_' :: suffix

/-- The labels as they are written. -/
def labelsText : List (CString × CString) → CString
  | [] => []
  | label :: labels => '{' :: ((label :: labels).flatMap labelText).dropLast ++ ['}']

/-- What `pmf_load_l_value` writes. -/
def lValueText (name : CString) (suffix : Option CString) (labels : List (CString × CString)) :
    CString :=
  name ++ suffixText suffix ++ labelsText labels

theorem dropLast_append_labels (text : CString) (label : CString × CString)
    (labels : List (CString × CString)) :
    (text ++ (label :: labels).flatMap labelText).dropLast =
      text ++ ((label :: labels).flatMap labelText).dropLast :=
  List.dropLast_append_of_ne_nil (by simp [labelText])

section Works

variable {works : ℕ → Bool} (hworks : ∀ k, works k = true)
include hworks

theorem pmfRun_labelsSteps (labels : List (CString × CString)) (k : ℕ) (text : CString) :
    ∃ k', pmfRun works (labelsSteps labels) k text = (true, k', text ++ labelsText labels) := by
  cases labels with
  | nil => exact ⟨k, by simp [labelsSteps, labelsText, pmfRun]⟩
  | cons label labels =>
      have hlabel (label : CString × CString) : ∀ step ∈ labelSteps label, step.Adds := by
        simp [labelSteps]
      have hadds : ∀ step ∈ addChar '{' :: (label :: labels).flatMap labelSteps, step.Adds := by
        intro step hstep
        rcases List.mem_cons.1 hstep with rfl | hstep
        · exact adds_addChar '{'
        · obtain ⟨label, -, hstep⟩ := List.mem_flatMap.1 hstep
          exact hlabel label step hstep
      have hwritten (l : List (CString × CString)) :
          (addChar '{' :: l.flatMap labelSteps).flatMap PmfStep.written =
            ['{'] ++ l.flatMap labelText := by
        rw [List.flatMap_cons, List.flatMap_assoc, written_addChar]
        congr 1
        refine List.flatMap_congr fun label _ => ?_
        simp [labelSteps, labelText]
      have hdrop (k : ℕ) (text : CString) :
          pmfRun works [.call .dropLast, addChar '}'] k text =
            (true, k + 2, text.dropLast ++ ['}']) := by
        simp [pmfRun, addChar, PsbCall.text, PsbCall.needsMemory, PsbCall.added, hworks]
      rw [labelsSteps, pmfRun_append (pmfRun_adds hworks hadds k text), hwritten,
        ← List.append_assoc, hdrop, dropLast_append_labels]
      exact ⟨_, Prod.ext rfl (Prod.ext rfl (by simp [labelsText]))⟩

/-- **What `pmf_load_l_value` writes while memory lasts.** -/
theorem pmfRun_pmfLoadLValue (name : CString) (suffix : Option CString)
    (labels : List (CString × CString)) (k : ℕ) (text : CString) :
    ∃ k', pmfRun works (pmfLoadLValue name suffix labels) k text =
      (true, k', text ++ lValueText name suffix labels) := by
  have hadds : ∀ step ∈ addStr name :: suffixSteps suffix, step.Adds := by
    cases suffix <;> simp [suffixSteps]
  have hwritten : (addStr name :: suffixSteps suffix).flatMap PmfStep.written =
      name ++ suffixText suffix := by
    cases suffix <;> simp [suffixSteps, suffixText]
  have hhead := pmfRun_adds hworks hadds k text
  rw [hwritten] at hhead
  obtain ⟨k', hk'⟩ := pmfRun_labelsSteps hworks labels
    (k + (addStr name :: suffixSteps suffix).length) (text ++ (name ++ suffixText suffix))
  refine ⟨k', ?_⟩
  rw [pmfLoadLValue, pmfRun_append hhead, hk', lValueText]
  simp

end Works

/-! ### Which samples are told apart -/

theorem flatMap_labelText_eq {labels : List (CString × CString)} (h : labels ≠ []) :
    labels.flatMap labelText = (labels.flatMap labelText).dropLast ++ [','] := by
  obtain ⟨labels, label, rfl⟩ := (List.eq_nil_or_concat' labels).resolve_left h
  have hlast : labelText label = label.1 ++ "=\"".toList ++ label.2 ++ ['"'] ++ [','] := by
    simp [labelText]
  rw [List.flatMap_append, List.flatMap_singleton, hlast, ← List.append_assoc,
    List.dropLast_concat]

/-- Without quotation marks the first one behind a value ends it. -/
theorem labelText_append_inj {key v v' rest rest' : CString} (hv : '"' ∉ v) (hv' : '"' ∉ v')
    (h : labelText (key, v) ++ rest = labelText (key, v') ++ rest') : v = v' ∧ rest = rest' := by
  have hsplit (v rest : CString) : labelText (key, v) ++ rest =
      (key ++ "=\"".toList) ++ (v ++ '"' :: ',' :: rest) := by
    simp [labelText]
  rw [hsplit, hsplit] at h
  have hbehind := List.append_cancel_left h
  have hspan {v rest : CString} (hv : '"' ∉ v) :
      (v ++ '"' :: ',' :: rest).takeWhile (· ≠ '"') = v := by
    rw [List.takeWhile_append_of_pos fun c hc => by
      rw [decide_eq_true_iff]
      rintro rfl
      exact hv hc]
    simp
  have heq : v = v' := by
    rw [← @hspan v rest hv, hbehind, hspan hv']
  subst heq
  have htail := List.append_cancel_left hbehind
  rw [List.cons.injEq, List.cons.injEq] at htail
  exact ⟨rfl, htail.2.2⟩

theorem flatMap_labelText_inj {keys vs vs' : List CString} (hlength : vs.length = keys.length)
    (hlength' : vs'.length = keys.length) (hvs : ∀ v ∈ vs, '"' ∉ v) (hvs' : ∀ v ∈ vs', '"' ∉ v)
    (h : (keys.zip vs).flatMap labelText = (keys.zip vs').flatMap labelText) : vs = vs' := by
  induction keys generalizing vs vs' with
  | nil =>
      obtain rfl := List.length_eq_zero_iff.1 hlength
      exact (List.length_eq_zero_iff.1 hlength').symm
  | cons key keys ih =>
      obtain ⟨v, vs, rfl⟩ := List.exists_cons_of_length_eq_add_one hlength
      obtain ⟨v', vs', rfl⟩ := List.exists_cons_of_length_eq_add_one hlength'
      rw [List.zip_cons_cons, List.zip_cons_cons, List.flatMap_cons, List.flatMap_cons] at h
      obtain ⟨rfl, hrest⟩ := labelText_append_inj (hvs v (List.mem_cons_self ..))
        (hvs' v' (List.mem_cons_self ..)) h
      rw [ih (by simpa using hlength) (by simpa using hlength')
        (fun w hw => hvs w (List.mem_cons_of_mem _ hw))
        (fun w hw => hvs' w (List.mem_cons_of_mem _ hw)) hrest]

/-- **The text under which a sample is kept determines the label values**, as long as none of them
contains a quotation mark. -/
theorem lValueText_injective {name : CString} {suffix : Option CString} {keys vs vs' : List CString}
    (hlength : vs.length = keys.length) (hlength' : vs'.length = keys.length)
    (hvs : ∀ v ∈ vs, '"' ∉ v) (hvs' : ∀ v ∈ vs', '"' ∉ v)
    (h : lValueText name suffix (keys.zip vs) = lValueText name suffix (keys.zip vs')) :
    vs = vs' := by
  have hlabels := List.append_cancel_left h
  cases keys with
  | nil =>
      obtain rfl := List.length_eq_zero_iff.1 hlength
      exact (List.length_eq_zero_iff.1 hlength').symm
  | cons key keys =>
      obtain ⟨v, vs, rfl⟩ := List.exists_cons_of_length_eq_add_one hlength
      obtain ⟨v', vs', rfl⟩ := List.exists_cons_of_length_eq_add_one hlength'
      rw [List.zip_cons_cons, List.zip_cons_cons, labelsText, labelsText] at hlabels
      have hinner := List.append_cancel_right (List.cons.inj hlabels).2
      refine flatMap_labelText_inj hlength hlength' hvs hvs' ?_
      rw [List.zip_cons_cons, List.zip_cons_cons, flatMap_labelText_eq (List.cons_ne_nil _ _),
        hinner, ← flatMap_labelText_eq (List.cons_ne_nil _ _)]

/-- **A quotation mark moves the border between two values**: the values are not escaped, so these
two vectors of labels are written in the same way. -/
theorem lValueText_collision (name : CString) (suffix : Option CString) (a b u v w : CString) :
    lValueText name suffix [(a, u ++ "\",".toList ++ b ++ "=\"".toList ++ v), (b, w)] =
      lValueText name suffix [(a, u), (b, v ++ "\",".toList ++ b ++ "=\"".toList ++ w)] := by
  have hlabels : [(a, u ++ "\",".toList ++ b ++ "=\"".toList ++ v), (b, w)].flatMap labelText =
      [(a, u), (b, v ++ "\",".toList ++ b ++ "=\"".toList ++ w)].flatMap labelText := by
    simp [labelText]
  rw [lValueText, lValueText, labelsText, labelsText, hlabels]

end Monitor
