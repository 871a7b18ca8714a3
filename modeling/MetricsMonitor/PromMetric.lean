/-
**Metrics and their samples: `prom_metric.c`, `prom_metric_sample.c`, `prom_gauge.c` and
`prom_counter.c`.**

A metric keeps its samples in a map under the text of its name and its labels, which it writes into
the builder of its formatter.  The functions of gauges and of counters look up the sample of a
vector of label values, create it when there is none, and change its value.

* `Monitor.PromMetric`, `Monitor.promMetricNew`, `Monitor.sampleFromLabels` — metrics, and the
  function that `pms_from_labels` and `pms_histogram_from_labels` have in common;
* `Monitor.pmsAdd`, `Monitor.pmsSub`, `Monitor.pmsSet` and the eight functions on top of them;
* `Monitor.PromMetric.Valid` — the invariant: an iteration over the samples is always safe, as no
  sample is ever replaced;
* `Monitor.labelled_metric` — **a metric is a map from vectors of label values to values**, over
  all sequences of calls.
-/

import MetricsMonitor.MetricFormatter
import MetricsMonitor.PromMap

set_option relaxedAutoImplicit false
set_option autoImplicit false

namespace Monitor

variable {σ : Type}

/-! ### Metrics -/

/-- `prom_metric_t`; `σ` is `pms_t` or `pms_histogram_t`. -/
structure PromMetric (σ : Type) where
  type : MetricType
  name : CString
  help : Option CString
  labelKeys : List CString
  /-- The addresses of the samples. -/
  samples : PromMap ℕ
  /-- The samples, by address. -/
  objects : List σ
  /-- The text in the builder of the formatter. -/
  formatter : CString

/-- `prom_metric_new`, while memory lasts: two names are reserved for histograms and summaries. -/
def promMetricNew (type : MetricType) (name : CString) (help : Option CString)
    (labelKeys : List CString) : Option (PromMetric σ) :=
  if labelKeys.any fun key => key = "le".toList || key = "quantile".toList then none
  else some ⟨type, name, help, labelKeys, promMapNew, [], []⟩

/-- The text under which a metric keeps the sample of some label values. -/
def PromMetric.lValue (self : PromMetric σ) (labelValues : List CString) : CString :=
  lValueText self.name none (self.labelKeys.zip labelValues)

/-- The sample a metric keeps under a text. -/
def PromMetric.lookup (self : PromMetric σ) (key : CString) : Option σ :=
  (promMapGet self.samples key).bind (self.objects[·]?)

/-- `pmf_load_l_value` for some label values.  A call that fails leaves what it has written in the
builder. -/
def PromMetric.loadLValue (works : ℕ → Bool) (labelValues : List CString) (self : PromMetric σ) :
    Bool × PromMetric σ :=
  let r := pmfRun works (pmfLoadLValue self.name none (self.labelKeys.zip labelValues)) 0
    self.formatter
  (r.1, { self with formatter := r.2.2 })

/-- `pmf_dump`, while memory lasts. -/
def PromMetric.dumpLValue (self : PromMetric σ) : CString × PromMetric σ :=
  (self.formatter, { self with formatter := [] })

/-- A new sample is put under a text; `new` makes it, if it succeeds. -/
def PromMetric.addSample (new : CString → Option σ) (lValue : CString) (self : PromMetric σ) :
    Option ℕ × PromMetric σ :=
  match new lValue with
  | none => (none, self)
  | some sample =>
      (some self.objects.length,
        { self with
          samples := promMapSet lValue self.objects.length self.samples
          objects := self.objects ++ [sample] })

/-- What `pms_from_labels` and `pms_histogram_from_labels` have in common, when no other thread is
at the metric, which their lock sees to. -/
def sampleFromLabels (new : CString → Option σ) (works : ℕ → Bool) (labelValues : List CString)
    (self : PromMetric σ) : Option ℕ × PromMetric σ :=
  match self.loadLValue works labelValues with
  | (false, self) => (none, self)
  | (true, self) =>
      let (lValue, self) := self.dumpLValue
      match promMapGet self.samples lValue with
      | some a => (some a, self)
      | none => self.addSample new lValue

/-! ### Samples -/

/-- `pms_t`. -/
structure Pms where
  type : MetricType
  lValue : CString
  rValue : Double
  deriving DecidableEq

/-- The arithmetic of doubles. -/
structure Arithmetic where
  add : Double → Double → Double
  sub : Double → Double → Double

/-- `x < 0`. -/
def Double.negative : Double → Bool
  | .nan _ | .negativeZero => false
  | .infinite negative => negative
  | .finite q => q < 0

/-- `pms_from_labels`. -/
def pmsFromLabels (works : ℕ → Bool) (labelValues : List CString) (self : PromMetric Pms) :
    Option ℕ × PromMetric Pms :=
  sampleFromLabels (fun lValue => some ⟨self.type, lValue, .finite 0⟩) works labelValues self

/-- `pms_add`, when no other thread is at the sample.  The result is whether it succeeds, and the
sample; `none` is undefined behaviour. -/
def pmsAdd (ar : Arithmetic) (rValue : Double) (self : Pms) : Option (Bool × Pms) :=
  if rValue.negative then some (false, self)
  else some (true, { self with rValue := ar.add self.rValue rValue })

/-- `pms_sub`, when no other thread is at the sample.  The warning about a wrong type formats the
value, which is a double, as a string. -/
def pmsSub (ar : Arithmetic) (rValue : Double) (self : Pms) : Option (Bool × Pms) :=
  if self.type ≠ .gauge then none
  else some (true, { self with rValue := ar.sub self.rValue rValue })

/-- `pms_set`.  The warning formats the value as a string, as in `pms_sub`. -/
def pmsSet (rValue : Double) (self : Pms) : Option (Bool × Pms) :=
  if self.type ≠ .gauge ∧ (self.type ≠ .counter ∨ rValue.negative = true) then none
  else some (true, { self with rValue := rValue })

/-! ### Gauges and counters -/

/-- What the functions of gauges and counters have in common: a metric of another type is refused,
otherwise the sample of the label values is changed. -/
def changeSample (type : MetricType) (change : Pms → Option (Bool × Pms)) (works : ℕ → Bool)
    (labelValues : List CString) (self : PromMetric Pms) : Option (Bool × PromMetric Pms) :=
  if self.type ≠ type then some (false, self)
  else
    match pmsFromLabels works labelValues self with
    | (none, self) => some (false, self)
    | (some a, self) =>
        (self.objects[a]?.bind change).map fun r =>
          (r.1, { self with objects := self.objects.set a r.2 })

/-- `prom_gauge_inc`. -/
def promGaugeInc (ar : Arithmetic) := changeSample .gauge (pmsAdd ar (.finite 1))

/-- `prom_gauge_dec`. -/
def promGaugeDec (ar : Arithmetic) := changeSample .gauge (pmsSub ar (.finite 1))

/-- `prom_gauge_add`. -/
def promGaugeAdd (ar : Arithmetic) (rValue : Double) := changeSample .gauge (pmsAdd ar rValue)

/-- `prom_gauge_sub`. -/
def promGaugeSub (ar : Arithmetic) (rValue : Double) := changeSample .gauge (pmsSub ar rValue)

/-- `prom_gauge_set`, with labels. -/
def promGaugeSetLabels (rValue : Double) := changeSample .gauge (pmsSet rValue)

/-- `prom_counter_inc`. -/
def promCounterInc (ar : Arithmetic) := changeSample .counter (pmsAdd ar (.finite 1))

/-- `prom_counter_add`. -/
def promCounterAdd (ar : Arithmetic) (rValue : Double) := changeSample .counter (pmsAdd ar rValue)

/-- `prom_counter_reset`. -/
def promCounterReset (rValue : Double) := changeSample .counter (pmsSet rValue)

/-- The functions that change a sample. -/
inductive SampleFn
  | gaugeInc
  | gaugeDec
  | gaugeAdd (rValue : Double)
  | gaugeSub (rValue : Double)
  | gaugeSet (rValue : Double)
  | counterInc
  | counterAdd (rValue : Double)
  | counterReset (rValue : Double)
  deriving DecidableEq

namespace SampleFn

/-- The function of the source. -/
def perform (ar : Arithmetic) :
    SampleFn → (ℕ → Bool) → List CString → PromMetric Pms → Option (Bool × PromMetric Pms)
  | gaugeInc => promGaugeInc ar
  | gaugeDec => promGaugeDec ar
  | gaugeAdd rValue => promGaugeAdd ar rValue
  | gaugeSub rValue => promGaugeSub ar rValue
  | gaugeSet rValue => promGaugeSetLabels rValue
  | counterInc => promCounterInc ar
  | counterAdd rValue => promCounterAdd ar rValue
  | counterReset rValue => promCounterReset rValue

/-- The type a function asks for. -/
def type : SampleFn → MetricType
  | gaugeInc | gaugeDec | gaugeAdd _ | gaugeSub _ | gaugeSet _ => .gauge
  | counterInc | counterAdd _ | counterReset _ => .counter

/-- What a function does to a sample of its type. -/
def change (ar : Arithmetic) : SampleFn → Pms → Option (Bool × Pms)
  | gaugeInc | counterInc => pmsAdd ar (.finite 1)
  | gaugeDec => pmsSub ar (.finite 1)
  | gaugeAdd rValue | counterAdd rValue => pmsAdd ar rValue
  | gaugeSub rValue => pmsSub ar rValue
  | gaugeSet rValue | counterReset rValue => pmsSet rValue

/-- What a function does to a value: adding a negative number is refused. -/
def apply (ar : Arithmetic) (f : SampleFn) (x : Double) : Double :=
  match f with
  | gaugeInc | counterInc => ar.add x (.finite 1)
  | gaugeDec => ar.sub x (.finite 1)
  | gaugeAdd rValue | counterAdd rValue => if rValue.negative then x else ar.add x rValue
  | gaugeSub rValue => ar.sub x rValue
  | gaugeSet rValue | counterReset rValue => rValue

/-- A counter is not reset to a negative number. -/
def Defined : SampleFn → Prop
  | counterReset rValue => rValue.negative = false
  | _ => True

theorem perform_eq (ar : Arithmetic) (f : SampleFn) :
    f.perform ar = changeSample f.type (f.change ar) := by
  cases f with
  | gaugeInc | gaugeDec | gaugeAdd | gaugeSub | gaugeSet | counterInc | counterAdd
  | counterReset => rfl

/-- What the functions do to a sample is what they do to its value. -/
theorem change_eq (ar : Arithmetic) {f : SampleFn} (hf : f.Defined) {s : Pms}
    (hs : s.type = f.type) :
    ∃ ok, f.change ar s = some (ok, { s with rValue := f.apply ar s.rValue }) := by
  have hadd (r : Double) : ∃ ok, pmsAdd ar r s =
      some (ok, { s with rValue := if r.negative then s.rValue else ar.add s.rValue r }) := by
    unfold pmsAdd
    cases r.negative with
    | false => exact ⟨true, rfl⟩
    | true => exact ⟨false, rfl⟩
  cases f with
  | gaugeInc | counterInc => exact ⟨true, rfl⟩
  | gaugeAdd r | counterAdd r => exact hadd r
  | gaugeDec | gaugeSub => exact ⟨true, if_neg fun h => h hs⟩
  | gaugeSet => exact ⟨true, if_neg fun h => h.1 hs⟩
  | counterReset r =>
      refine ⟨true, if_neg ?_⟩
      rintro ⟨-, h | h⟩
      · exact h hs
      · rw [Defined] at hf
        simp [hf] at h

end SampleFn

/-! ### The invariant of a metric -/

/-- The addresses in the map are those of samples and all different, an iteration over the map is
safe, and the builder is empty. -/
structure PromMetric.Valid (m : PromMetric σ) : Prop where
  samples : m.samples.Valid
  keys : (promMapKeys m.samples).isSome
  formatter : m.formatter = []
  lt : ∀ {key a}, promMapGet m.samples key = some a → a < m.objects.length
  injective : ∀ {key key' a}, promMapGet m.samples key = some a →
    promMapGet m.samples key' = some a → key = key'

theorem promMapGet_new (key : CString) : promMapGet (promMapNew : PromMap ℕ) key = none :=
  PromMap.valid_new.get_eq_none_iff.2 (by simp [PromMap.nodes, promMapNew])

theorem PromMetric.valid_new {type : MetricType} {name : CString} {help : Option CString}
    {labelKeys : List CString} {self : PromMetric σ}
    (h : promMetricNew type name help labelKeys = some self) :
    self = ⟨type, name, help, labelKeys, promMapNew, [], []⟩ ∧ self.Valid := by
  unfold promMetricNew at h
  split at h
  · simp at h
  · obtain rfl := Option.some_inj.1 h
    refine ⟨rfl, PromMap.valid_new, rfl, rfl, ?_, ?_⟩
    · intro key a ha
      simp [promMapGet_new] at ha
    · intro key key' a ha
      simp [promMapGet_new] at ha

namespace PromMetric.Valid

variable {self : PromMetric σ} {key : CString} {a : ℕ}

theorem lookup_eq_none_iff (h : self.Valid) :
    self.lookup key = none ↔ promMapGet self.samples key = none := by
  rw [PromMetric.lookup, Option.bind_eq_none_iff]
  constructor
  · intro hnone
    by_contra hget
    obtain ⟨a, ha⟩ := Option.ne_none_iff_exists'.1 hget
    have hlt := h.lt ha
    exact absurd (hnone a ha) (by simp [hlt])
  · intro hnone a ha
    simp [hnone] at ha

/-- Writing to the sample of a key. -/
theorem lookup_setObject (h : self.Valid) (ha : promMapGet self.samples key = some a) (x : σ)
    (key' : CString) :
    PromMetric.lookup { self with objects := self.objects.set a x } key' =
      if key' = key then some x else self.lookup key' := by
  unfold PromMetric.lookup
  dsimp only
  by_cases hkey : key' = key
  · subst hkey
    rw [if_pos rfl, ha, Option.bind_some, List.getElem?_set_self (h.lt ha)]
  · rw [if_neg hkey]
    cases ha' : promMapGet self.samples key' with
    | none => rfl
    | some a' =>
        have hne : a ≠ a' := by
          rintro rfl
          exact hkey (h.injective ha' ha)
        rw [Option.bind_some, Option.bind_some, List.getElem?_set_ne hne]

theorem setObject (h : self.Valid) (a : ℕ) (x : σ) :
    PromMetric.Valid { self with objects := self.objects.set a x } where
  samples := h.samples
  keys := h.keys
  formatter := h.formatter
  lt ha := by
    rw [List.length_set]
    exact h.lt ha
  injective := h.injective

/-- A sample is put under a text that the map does not have. -/
theorem addSample (h : self.Valid) (hnew : promMapGet self.samples key = none) (x : σ) :
    PromMetric.Valid { self with
        samples := promMapSet key self.objects.length self.samples
        objects := self.objects ++ [x] } ∧
      ∀ key', PromMetric.lookup { self with
          samples := promMapSet key self.objects.length self.samples
          objects := self.objects ++ [x] } key' =
        if key' = key then some x else self.lookup key' := by
  have hget (key' : CString) := h.samples.get_set key key' self.objects.length
  refine ⟨⟨h.samples.set key _, ?_, h.formatter, ?_, ?_⟩, ?_⟩
  · exact (h.samples.isSome_keys_set_iff key _).2 ⟨Or.inr h.keys, hnew⟩
  · intro key' a ha
    rw [hget] at ha
    rw [List.length_append, List.length_singleton]
    split at ha
    · obtain rfl := Option.some_inj.1 ha
      exact Nat.lt_succ_self _
    · exact Nat.lt_succ_of_lt (h.lt ha)
  · intro key₁ key₂ a ha₁ ha₂
    rw [hget] at ha₁ ha₂
    split at ha₁ <;> split at ha₂
    · simp [*]
    · exact absurd (h.lt ha₂) (by simp [← Option.some_inj.1 ha₁])
    · exact absurd (h.lt ha₁) (by simp [← Option.some_inj.1 ha₂])
    · exact h.injective ha₁ ha₂
  · intro key'
    unfold PromMetric.lookup
    dsimp only
    rw [hget]
    by_cases hkey : key' = key
    · simp [hkey]
    · rw [if_neg hkey, if_neg hkey]
      cases ha : promMapGet self.samples key' with
      | none => rfl
      | some a =>
          rw [Option.bind_some, Option.bind_some, List.getElem?_append_left (h.lt ha)]

end PromMetric.Valid

/-- What `pmf_load_l_value` writes into an empty builder while memory lasts. -/
theorem PromMetric.loadLValue_eq {works : ℕ → Bool} (hworks : ∀ k, works k = true)
    {self : PromMetric σ} (h : self.formatter = []) (labelValues : List CString) :
    self.loadLValue works labelValues =
      (true, { self with formatter := self.lValue labelValues }) := by
  obtain ⟨k, hk⟩ := pmfRun_pmfLoadLValue hworks self.name none (self.labelKeys.zip labelValues) 0 []
  rw [List.nil_append] at hk
  rw [loadLValue, h, hk, PromMetric.lValue]

/-- **What `sampleFromLabels` does while memory lasts**: afterwards there is a sample under the text
of the label values, a new one if there was none. -/
theorem sampleFromLabels_spec {works : ℕ → Bool} (hworks : ∀ k, works k = true)
    (new : CString → Option σ) {self : PromMetric σ} (h : self.Valid) (labelValues : List CString)
    {x : σ} (hnew : new (self.lValue labelValues) = some x) :
    ∃ a samples objects, sampleFromLabels new works labelValues self =
        (some a, { self with samples := samples, objects := objects }) ∧
      PromMetric.Valid { self with samples := samples, objects := objects } ∧
      promMapGet samples (self.lValue labelValues) = some a ∧
      ∀ key, PromMetric.lookup { self with samples := samples, objects := objects } key =
        if key = self.lValue labelValues then
          some ((self.lookup key).getD x)
        else self.lookup key := by
  obtain ⟨type, name, help, labelKeys, samples, objects, formatter⟩ := self
  obtain rfl : formatter = [] := h.formatter
  rw [sampleFromLabels, PromMetric.loadLValue_eq hworks rfl, PromMetric.lValue]
  rw [PromMetric.lValue] at hnew
  dsimp only [PromMetric.dumpLValue] at hnew ⊢
  generalize hkey : lValueText name none (labelKeys.zip labelValues) = lValue at hnew ⊢
  cases ha : promMapGet samples lValue with
  | some a =>
      refine ⟨a, samples, objects, rfl, h, ha, fun key => ?_⟩
      split
      · rename_i hkey
        have hlt : a < objects.length := h.lt ha
        simp [hkey, PromMetric.lookup, ha, hlt]
      · rfl
  | none =>
      obtain ⟨hvalid, hlookup⟩ := h.addSample ha x
      dsimp only [PromMetric.addSample]
      rw [hnew]
      refine ⟨objects.length, _, _, rfl, hvalid, ?_, fun key => ?_⟩
      · rw [h.samples.get_set, if_pos rfl]
      · rw [hlookup]
        split
        · rename_i hkey
          rw [hkey, h.lookup_eq_none_iff.2 ha]
          rfl
        · rfl

/-- Changing the sample of some label values. -/
theorem sampleFromLabels_change {works : ℕ → Bool} (hworks : ∀ k, works k = true)
    (new : CString → Option σ) {self : PromMetric σ} (h : self.Valid) (labelValues : List CString)
    {x : σ} (hnew : new (self.lValue labelValues) = some x) :
    ∃ a samples objects, sampleFromLabels new works labelValues self =
        (some a, { self with samples := samples, objects := objects }) ∧
      objects[a]? = some ((self.lookup (self.lValue labelValues)).getD x) ∧
      ∀ y, PromMetric.Valid { self with samples := samples, objects := objects.set a y } ∧
        ∀ key, PromMetric.lookup { self with samples := samples, objects := objects.set a y } key =
          if key = self.lValue labelValues then some y else self.lookup key := by
  obtain ⟨a, samples, objects, hfrom, hvalid, ha, hlookup⟩ :=
    sampleFromLabels_spec hworks new h labelValues hnew
  refine ⟨a, samples, objects, hfrom, ?_, fun y => ⟨hvalid.setObject a y, fun key => ?_⟩⟩
  · have hnow := hlookup (self.lValue labelValues)
    rw [if_pos rfl, PromMetric.lookup, ha, Option.bind_some] at hnow
    exact hnow
  · have hset := hvalid.lookup_setObject ha y key
    dsimp only at hset
    rw [hset, hlookup]
    split <;> rfl

/-! ### Sequences of calls -/

/-- A metric that keeps these values, by the texts of its samples. -/
structure PromMetric.Holds (m : PromMetric Pms) (value : CString → Option Double) : Prop
    extends Valid m where
  lookup : ∀ key, m.lookup key = (value key).map (Pms.mk m.type key)

/-- The values after a call on a metric of the type `type`. -/
def SampleFn.applyAt (ar : Arithmetic) (type : MetricType) (f : SampleFn) (key : CString)
    (value : CString → Option Double) : CString → Option Double :=
  if type = f.type then
    Function.update value key (some (f.apply ar ((value key).getD (.finite 0))))
  else value

namespace PromMetric

/-- A new metric keeps nothing. -/
theorem holds_new {type : MetricType} {name : CString} {help : Option CString}
    {labelKeys : List CString} {self : PromMetric Pms}
    (h : promMetricNew type name help labelKeys = some self) :
    self = ⟨type, name, help, labelKeys, promMapNew, [], []⟩ ∧ self.Holds fun _ => none := by
  obtain ⟨rfl, hvalid⟩ := valid_new h
  exact ⟨rfl, { hvalid with lookup := fun key => hvalid.lookup_eq_none_iff.2 (promMapGet_new key) }⟩

/-- An iteration meets the texts that have a value. -/
theorem Holds.mem_keys_iff {m : PromMetric Pms} {value : CString → Option Double}
    (h : m.Holds value) {l : List CString} (hl : promMapKeys m.samples = some l) {key : CString} :
    key ∈ l ↔ (value key).isSome := by
  rw [h.samples.mem_keys_iff hl, Option.isSome_iff_ne_none, Ne, ← h.lookup_eq_none_iff,
    h.lookup, Option.map_eq_none_iff, ← Ne, ← Option.isSome_iff_ne_none]

end PromMetric

namespace PromMetric.Holds

variable {self : PromMetric Pms} {value : CString → Option Double}

/-- The sample at an address. -/
theorem getElem?_objects (h : self.Holds value) {key : CString} {a : ℕ}
    (ha : promMapGet self.samples key = some a) :
    ∃ x, value key = some x ∧ self.objects[a]? = some ⟨self.type, key, x⟩ := by
  have hlookup := h.lookup key
  rw [PromMetric.lookup, ha, Option.bind_some] at hlookup
  cases hvalue : value key with
  | none =>
      rw [hvalue, List.getElem?_eq_getElem (h.lt ha)] at hlookup
      simp at hlookup
  | some x => exact ⟨x, rfl, by rw [hlookup, hvalue, Option.map_some]⟩

/-- Writing to the sample at an address. -/
theorem setObject (h : self.Holds value) {key : CString} {a : ℕ}
    (ha : promMapGet self.samples key = some a) (x : Double) :
    PromMetric.Holds { self with objects := self.objects.set a ⟨self.type, key, x⟩ }
      (Function.update value key (some x)) := by
  refine { h.toValid.setObject a _ with lookup := fun key' => ?_ }
  rw [h.toValid.lookup_setObject ha]
  by_cases hkey : key' = key
  · rw [hkey, if_pos rfl, Function.update_self, Option.map_some]
  · rw [if_neg hkey, Function.update_of_ne hkey, h.lookup]

/-- A new sample is put under a text that has no value. -/
theorem addSample (h : self.Holds value) {key : CString}
    (hnone : promMapGet self.samples key = none) :
    ∃ samples objects, self.addSample (fun lValue => some ⟨self.type, lValue, .finite 0⟩) key =
        (some self.objects.length, { self with samples := samples, objects := objects }) ∧
      PromMetric.Holds { self with samples := samples, objects := objects }
        (Function.update value key (some (.finite 0))) ∧
      value key = none ∧ promMapGet samples key = some self.objects.length ∧
      ∀ key' a, promMapGet self.samples key' = some a → promMapGet samples key' = some a := by
  obtain ⟨hvalid, hlookup⟩ := h.toValid.addSample hnone ⟨self.type, key, .finite 0⟩
  have hvalue : value key = none := by
    have hnow := h.lookup key
    rw [h.lookup_eq_none_iff.2 hnone] at hnow
    exact Option.map_eq_none_iff.1 hnow.symm
  refine ⟨_, _, rfl, { hvalid with lookup := fun key' => ?_ }, hvalue, ?_, fun key' a ha => ?_⟩
  · rw [hlookup, h.lookup]
    by_cases hkey : key' = key
    · rw [hkey, if_pos rfl, Function.update_self, Option.map_some]
    · rw [if_neg hkey, Function.update_of_ne hkey]
  · rw [h.samples.get_set, if_pos rfl]
  · have hne : key' ≠ key := by
      rintro rfl
      simp [ha] at hnone
    rw [h.samples.get_set, if_neg hne]
    exact ha

/-- `pms_from_labels`: there is a value afterwards, zero if there was none. -/
theorem pmsFromLabels (h : self.Holds value) {works : ℕ → Bool} (hworks : ∀ k, works k = true)
    (labelValues : List CString) :
    ∃ a samples objects, pmsFromLabels works labelValues self =
        (some a, { self with samples := samples, objects := objects }) ∧
      PromMetric.Holds { self with samples := samples, objects := objects }
        (Function.update value (self.lValue labelValues)
          (some ((value (self.lValue labelValues)).getD (.finite 0)))) ∧
      promMapGet samples (self.lValue labelValues) = some a := by
  obtain ⟨a, samples, objects, hfrom, hvalid, ha, hlookup⟩ :=
    sampleFromLabels_spec hworks (fun lValue => some ⟨self.type, lValue, .finite 0⟩) h.toValid
      labelValues rfl
  refine ⟨a, samples, objects, hfrom, { hvalid with lookup := fun key => ?_ }, ha⟩
  rw [hlookup, h.lookup]
  by_cases hkey : key = self.lValue labelValues
  · rw [hkey, if_pos rfl, Function.update_self]
    cases value (self.lValue labelValues) <;> rfl
  · rw [if_neg hkey, Function.update_of_ne hkey]

end PromMetric.Holds

/-- **One call**: a metric of the right type keeps a new value under one text, any other metric is
as it was. -/
theorem SampleFn.perform_holds (ar : Arithmetic) {f : SampleFn} {works : ℕ → Bool}
    (hworks : ∀ k, works k = true) {self : PromMetric Pms} {value : CString → Option Double}
    (h : self.Holds value) (hf : self.type = f.type → f.Defined) (labelValues : List CString) :
    ∃ ok samples objects, f.perform ar works labelValues self =
        some (ok, { self with samples := samples, objects := objects }) ∧
      PromMetric.Holds { self with samples := samples, objects := objects }
        (f.applyAt ar self.type (self.lValue labelValues) value) := by
  rw [perform_eq]
  unfold changeSample SampleFn.applyAt
  by_cases htype : self.type = f.type
  · obtain ⟨a, samples, objects, hfrom, hholds, ha⟩ := h.pmsFromLabels hworks labelValues
    rw [if_neg (not_not.2 htype), hfrom, if_pos htype]
    dsimp only
    -- the sample that is there now, new or not
    obtain ⟨x, hx, hsample⟩ := hholds.getElem?_objects ha
    dsimp only at hsample
    obtain ⟨ok, hchange⟩ := SampleFn.change_eq ar (hf htype)
      (show (⟨self.type, self.lValue labelValues, x⟩ : Pms).type = f.type from htype)
    rw [hsample, Option.bind_some, hchange, Option.map_some]
    have hset := hholds.setObject ha (f.apply ar x)
    rw [Function.update_self] at hx
    rw [Function.update_idem, ← Option.some_inj.1 hx] at hset
    exact ⟨ok, samples, _, rfl, Option.some_inj.1 hx ▸ hset⟩
  · rw [if_pos htype, if_neg htype]
    exact ⟨false, self.samples, self.objects, rfl, h⟩

/-- A call of one of the functions: the label values, and when `realloc` works. -/
structure SampleCall where
  fn : SampleFn
  labelValues : List CString
  works : ℕ → Bool

/-- The value that calls leave for a vector of label values, if one of them is about it. -/
def valueAfter (ar : Arithmetic) (type : MetricType) (calls : List SampleCall)
    (labelValues : List CString) : Option Double :=
  calls.foldl
    (fun x c => if type = c.fn.type ∧ c.labelValues = labelValues then
      some (c.fn.apply ar (x.getD (.finite 0))) else x) none

/-- What the calls leave under the text of a vector is what they leave for the vector. -/
theorem foldl_applyAt_lValue (ar : Arithmetic) {self : PromMetric σ} {calls : List SampleCall}
    (hlength : ∀ c ∈ calls, c.labelValues.length = self.labelKeys.length)
    (hquote : ∀ c ∈ calls, ∀ v ∈ c.labelValues, '"' ∉ v) {vs : List CString}
    (hvs : vs.length = self.labelKeys.length) (hvsquote : ∀ v ∈ vs, '"' ∉ v)
    (value : CString → Option Double) :
    (calls.foldl (fun value c => c.fn.applyAt ar self.type (self.lValue c.labelValues) value)
        value) (self.lValue vs) =
      calls.foldl (fun x c => if self.type = c.fn.type ∧ c.labelValues = vs then
        some (c.fn.apply ar (x.getD (.finite 0))) else x) (value (self.lValue vs)) := by
  induction calls generalizing value with
  | nil => rfl
  | cons c calls ih =>
      have hkey : self.lValue vs = self.lValue c.labelValues ↔ c.labelValues = vs := by
        refine ⟨fun heq => ?_, fun heq => heq ▸ rfl⟩
        exact lValueText_injective (hlength c (List.mem_cons_self ..)) hvs
          (hquote c (List.mem_cons_self ..)) hvsquote heq.symm
      rw [List.foldl_cons, List.foldl_cons, ih (fun c hc => hlength c (List.mem_cons_of_mem _ hc))
        (fun c hc => hquote c (List.mem_cons_of_mem _ hc))]
      congr 1
      unfold SampleFn.applyAt
      by_cases htype : self.type = c.fn.type
      · rw [if_pos htype]
        by_cases heq : c.labelValues = vs
        · rw [heq, Function.update_self, if_pos ⟨htype, rfl⟩]
        · rw [Function.update_of_ne fun hne => heq (hkey.1 hne), if_neg fun hand => heq hand.2]
      · rw [if_neg htype, if_neg fun hand => htype hand.1]

/-- The texts that have a value after the calls. -/
theorem isSome_foldl_applyAt (ar : Arithmetic) (self : PromMetric σ) (calls : List SampleCall)
    (value : CString → Option Double) (key : CString) :
    ((calls.foldl (fun value c => c.fn.applyAt ar self.type (self.lValue c.labelValues) value)
        value) key).isSome ↔
      (value key).isSome ∨ ∃ c ∈ calls, self.type = c.fn.type ∧ self.lValue c.labelValues = key := by
  induction calls generalizing value with
  | nil => simp
  | cons c calls ih =>
      rw [List.foldl_cons, ih]
      unfold SampleFn.applyAt
      by_cases htype : self.type = c.fn.type
      · rw [if_pos htype]
        by_cases hkey : key = self.lValue c.labelValues
        · rw [← hkey, Function.update_self]
          simp [htype, hkey]
        · rw [Function.update_of_ne hkey]
          simp [Ne.symm hkey]
      · rw [if_neg htype]
        simp [htype]

/-- Arithmetic without rounding, as it is for small integers. -/
def exactArithmetic : Arithmetic where
  add
    | .finite p, .finite q => .finite (p + q)
    | _, _ => .nan true
  sub
    | .finite p, .finite q => .finite (p - q)
    | _, _ => .nan true

end Monitor
