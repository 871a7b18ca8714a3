/-
**Histograms: `prom_histogram_buckets.c`, `prom_metric_sample_histogram.c` and `prom_histogram.c`.**

A histogram has a sample for every bucket, one for `+Inf`, one for the number of observations and
one for their sum.  It finds them through two maps: from the text of a bound to the text of the
sample, and from this text to the sample.  An observation goes through the buckets from the last one
down, as long as its value is not above the bound.

* `Monitor.Phb`, `Monitor.phbNew` — buckets;
* `Monitor.PmsHistogram`, `Monitor.pmsHistogramNew`, `Monitor.pmsHistogramObserve` — the samples of
  a vector of label values;
* `Monitor.doubleToStr_injective` — different bounds have different texts;
* `Monitor.PmsHistogram.Holds` — the invariant, and what an observation does to it;
* `Monitor.histogram_counts` — **what a histogram counts**, for every vector of label values.
-/

import MetricsMonitor.SharedMetric

set_option relaxedAutoImplicit false
set_option autoImplicit false

namespace Monitor

open FormattedOutput

/-! ### Buckets -/

/-- `x > y`. -/
def Double.gt : Double → Double → Bool
  | .nan _, _ | _, .nan _ => false
  | .infinite true, _ | _, .infinite false => false
  | .infinite false, _ | _, .infinite true => true
  | .finite p, .finite q => q < p
  | .finite p, .negativeZero => 0 < p
  | .negativeZero, .finite q => q < 0
  | .negativeZero, .negativeZero => false

/-- `double_to_str`. -/
def doubleToStr (value : Double) : CString :=
  if '.' ∉ value.text ∧ value.text.length < 30 then value.text ++ ['.', '0'] else value.text

/-- `phb_t`: the bounds and their texts. -/
structure Phb where
  upperBound : List Double
  key : List CString
  key_eq : key = upperBound.map doubleToStr

/-- Buckets with these bounds. -/
def Phb.ofBounds (upperBound : List Double) : Phb := ⟨upperBound, upperBound.map doubleToStr, rfl⟩

/-- `phb_new`, which takes one bound at least. -/
def phbNew (bucket : Double) (rest : List Double) : Phb := .ofBounds (bucket :: rest)

/-- `prom_histogram_default_buckets`: the doubles next to 0.005, 0.01, 0.025, 0.05, 0.1, 0.25, 0.5,
1, 2.5, 5 and 10. -/
def promHistogramDefaultBuckets : Phb :=
  phbNew (.finite (5764607523034235 / 2 ^ 60))
    [.finite (5764607523034235 / 2 ^ 59), .finite (3602879701896397 / 2 ^ 57),
      .finite (3602879701896397 / 2 ^ 56), .finite (3602879701896397 / 2 ^ 55),
      .finite (1 / 4), .finite (1 / 2), .finite 1, .finite (5 / 2), .finite 5, .finite 10]

/-- The check of `prom_histogram_new`: no bound is above the next one. -/
def Phb.increasing (buckets : Phb) : Bool :=
  (buckets.upperBound.zip buckets.upperBound.tail).all fun p => !p.1.gt p.2

/-! ### The samples of a vector of label values -/

/-- `pms_histogram_t`. -/
structure PmsHistogram where
  /-- The texts of the samples, in the order in which they are exposed. -/
  lValueList : List CString
  /-- The texts of the samples, by the texts of the bounds. -/
  lValues : PromMap CString
  /-- The addresses of the samples, by their texts. -/
  samples : PromMap ℕ
  /-- The samples, by address. -/
  objects : List Pms
  /-- The text in the builder of the formatter. -/
  formatter : CString
  buckets : Phb

/-- What the functions that make samples have in common: the text of a sample is written, and a
sample is put under it; with the number of the next call of `realloc`. -/
def initSample (works : ℕ → Bool) (name suffix : CString) (labels : List (CString × CString))
    (key : CString) : PmsHistogram × ℕ → Option (PmsHistogram × ℕ)
  | (self, k) =>
      match pmfRun works (pmfLoadLValue name (some suffix) labels) k self.formatter with
      | (false, _, _) => none
      | (true, k, lValue) =>
          some ({ self with
            lValueList := self.lValueList ++ [lValue]
            lValues := promMapSet key lValue self.lValues
            samples := promMapSet lValue self.objects.length self.samples
            objects := self.objects ++ [⟨.histogram, lValue, .finite 0⟩]
            formatter := [] }, k)

/-- The labels of a bucket, which `l_value_for_bucket` and `l_value_for_inf` make. -/
def leLabels (labels : List (CString × CString)) (key : CString) : List (CString × CString) :=
  labels ++ [("le".toList, key)]

/-- `init_bucket_samples`. -/
def initBucketSamples (works : ℕ → Bool) (name : CString) (labels : List (CString × CString))
    (s : PmsHistogram × ℕ) : Option (PmsHistogram × ℕ) :=
  s.1.buckets.key.foldlM
    (fun s key => initSample works name "bucket".toList (leLabels labels key) key s) s

/-- `init_inf`. -/
def initInf (works : ℕ → Bool) (name : CString) (labels : List (CString × CString)) :
    PmsHistogram × ℕ → Option (PmsHistogram × ℕ) :=
  initSample works name "bucket".toList (leLabels labels "+Inf".toList) "+Inf".toList

/-- `init_count`. -/
def initCount (works : ℕ → Bool) (name : CString) (labels : List (CString × CString)) :
    PmsHistogram × ℕ → Option (PmsHistogram × ℕ) :=
  initSample works name "count".toList labels "count".toList

/-- `init_summary`. -/
def initSummary (works : ℕ → Bool) (name : CString) (labels : List (CString × CString)) :
    PmsHistogram × ℕ → Option (PmsHistogram × ℕ) :=
  initSample works name "sum".toList labels "sum".toList

/-- `pms_histogram_new`; the labels are pairs of a key and a value. -/
def pmsHistogramNew (works : ℕ → Bool) (name : CString) (buckets : Phb)
    (labels : List (CString × CString)) : Option PmsHistogram :=
  (initBucketSamples works name labels (⟨[], promMapNew, promMapNew, [], [], buckets⟩, 0)).bind
    fun s => (initInf works name labels s).bind
      fun s => (initCount works name labels s).bind
        fun s => (initSummary works name labels s).map Prod.fst

/-- Looking up the sample of a bucket and adding to it, which `pms_histogram_observe` does for every
sample it updates: whether it succeeds, and the histogram; `none` is undefined behaviour. -/
def histogramAdd (ar : Arithmetic) (key : CString) (rValue : Double) (self : PmsHistogram) :
    Option (Bool × PmsHistogram) :=
  match promMapGet self.lValues key with
  | none => some (false, self)
  | some lValue =>
      match promMapGet self.samples lValue with
      | none => some (false, self)
      | some a =>
          (self.objects[a]?.bind (pmsAdd ar rValue)).map fun r =>
            (r.1, { self with objects := self.objects.set a r.2 })

/-- Additions one after another, up to the first one that fails. -/
def histogramAddAll (ar : Arithmetic) :
    List (CString × Double) → PmsHistogram → Option (Bool × PmsHistogram)
  | [], self => some (true, self)
  | (key, rValue) :: adds, self =>
      (histogramAdd ar key rValue self).bind fun r =>
        if r.1 then histogramAddAll ar adds r.2 else some (false, r.2)

/-- The loop of `pms_histogram_observe`: the texts of the bounds from the last one down to the first
one that is below the value. -/
def observedKeys (value : Double) (buckets : Phb) : List CString :=
  ((buckets.upperBound.zip buckets.key).reverse.takeWhile fun p => !value.gt p.1).map Prod.snd

/-- `pms_histogram_observe`: zero, or two when an addition fails. -/
def pmsHistogramObserve (ar : Arithmetic) (value : Double) (self : PmsHistogram) :
    Option (ℕ × PmsHistogram) :=
  (histogramAddAll ar ((observedKeys value self.buckets).map (·, .finite 1) ++
    [("+Inf".toList, .finite 1), ("count".toList, .finite 1), ("sum".toList, value)]) self).map
      fun r => (if r.1 then 0 else 2, r.2)

/-! ### Histograms -/

/-- A `prom_metric_t` of the type `PROM_HISTOGRAM`, with its buckets. -/
structure PromHistogram where
  metric : PromMetric PmsHistogram
  buckets : Phb

/-- `prom_histogram_new`; a metric that could not be made is a null pointer, which is written to. -/
def promHistogramNew (name : CString) (help : Option CString) (buckets : Option Phb)
    (labelKeys : List CString) : Option PromHistogram :=
  (promMetricNew .histogram name help labelKeys).bind fun metric =>
    match buckets with
    | none => some ⟨metric, promHistogramDefaultBuckets⟩
    | some buckets => if buckets.increasing then some ⟨metric, buckets⟩ else none

/-- `pms_histogram_from_labels`. -/
def pmsHistogramFromLabels (works worksNew : ℕ → Bool) (labelValues : List CString)
    (self : PromHistogram) : Option ℕ × PromHistogram :=
  let (a, metric) := sampleFromLabels (fun _ => pmsHistogramNew worksNew self.metric.name
    self.buckets (self.metric.labelKeys.zip labelValues)) works labelValues self.metric
  (a, { self with metric := metric })

/-- `prom_histogram_observe`: zero if it succeeds, and the histogram. -/
def promHistogramObserve (ar : Arithmetic) (works worksNew : ℕ → Bool) (val : Double)
    (labelValues : List CString) (self : PromHistogram) : Option (ℕ × PromHistogram) :=
  if self.metric.type ≠ .histogram then some (1, self)
  else
    match pmsHistogramFromLabels works worksNew labelValues self with
    | (none, self) => some (1, self)
    | (some a, self) =>
        (self.metric.objects[a]?.bind (pmsHistogramObserve ar val)).map fun r =>
          (r.1, { self with metric :=
            { self.metric with objects := self.metric.objects.set a r.2 } })

/-! ### The texts of the bounds -/

theorem doubleToStr_finite (q : ℚ) : doubleToStr (.finite q) = formatG 17 q ++ ['.', '0'] ∨
    doubleToStr (.finite q) = formatG 17 q := by
  unfold doubleToStr
  split
  · exact Or.inl rfl
  · exact Or.inr rfl

/-- **Different bounds have different texts.** -/
theorem doubleToStr_injective {x y : ℚ} (hx : IsDouble x) (hy : IsDouble y)
    (h : doubleToStr (.finite x) = doubleToStr (.finite y)) : x = y := by
  rcases doubleToStr_finite x with hx' | hx' <;> rcases doubleToStr_finite y with hy' | hy' <;>
    rw [hx', hy'] at h
  · exact formatG_injective hx hy (List.append_cancel_right h)
  · exact absurd h.symm (formatG_ne_append 17 y _)
  · exact absurd h (formatG_ne_append 17 x _)
  · exact formatG_injective hx hy h

theorem doubleToStr_chars {q : ℚ} {c : Char} (h : c ∈ doubleToStr (.finite q)) :
    IsNumberChar c := by
  rcases doubleToStr_finite q with hq | hq
  · rw [hq] at h
    rcases List.mem_append.1 h with h | h
    · exact formatG_chars h
    · rcases List.mem_cons.1 h with rfl | h
      · exact Or.inr (by simp)
      · rw [List.mem_singleton.1 h]
        exact Or.inl rfl
  · exact formatG_chars (hq ▸ h)

/-- A text with a letter is none of a bound. -/
theorem doubleToStr_ne {q : ℚ} {c : Char} {key : CString} (hc : c ∈ key)
    (hletter : ¬ IsNumberChar c) : doubleToStr (.finite q) ≠ key := by
  rintro rfl
  exact hletter (doubleToStr_chars hc)

theorem quote_notMem_doubleToStr (q : ℚ) : '"' ∉ doubleToStr (.finite q) := fun h =>
  absurd (doubleToStr_chars h) (by simp [IsNumberChar])

/-! ### The texts of the samples -/

section Entries

variable (name : CString) (labels : List (CString × CString))

/-- The text of the sample of a bucket. -/
def bucketLValue (key : CString) : CString :=
  lValueText name (some "bucket".toList) (leLabels labels key)

/-- The text of the sample of the number of observations. -/
def countLValue : CString := lValueText name (some "count".toList) labels

/-- The text of the sample of the sum. -/
def sumLValue : CString := lValueText name (some "sum".toList) labels

/-- The key of a bucket, and the text of its sample. -/
def bucketEntry (q : ℚ) : CString × CString :=
  (doubleToStr (.finite q), bucketLValue name labels (doubleToStr (.finite q)))

/-- The keys of the samples and their texts, in the order in which they are made. -/
def histogramEntries (bounds : List ℚ) : List (CString × CString) :=
  bounds.map (bucketEntry name labels) ++
    [("+Inf".toList, bucketLValue name labels "+Inf".toList),
      ("count".toList, countLValue name labels), ("sum".toList, sumLValue name labels)]

variable {name labels}

/-- The text of a sample is made from its key. -/
theorem entry_lValue {bounds : List ℚ} {e : CString × CString}
    (he : e ∈ histogramEntries name labels bounds) :
    e.2 = if e.1 = "count".toList then countLValue name labels
      else if e.1 = "sum".toList then sumLValue name labels else bucketLValue name labels e.1 := by
  rcases List.mem_append.1 he with he | he
  · obtain ⟨q, -, rfl⟩ := List.mem_map.1 he
    rw [bucketEntry, if_neg (doubleToStr_ne (c := 'c') (by decide) (by simp [IsNumberChar])),
      if_neg (doubleToStr_ne (c := 's') (by decide) (by simp [IsNumberChar]))]
  · simp only [List.mem_cons, List.not_mem_nil, or_false] at he
    rcases he with rfl | rfl | rfl
    · exact ((if_neg (show "+Inf".toList ≠ "count".toList by decide)).trans
        (if_neg (show "+Inf".toList ≠ "sum".toList by decide))).symm
    · exact (if_pos rfl).symm
    · exact ((if_neg (show "sum".toList ≠ "count".toList by decide)).trans (if_pos rfl)).symm

/-- The texts of samples of different kinds differ behind the name. -/
theorem lValueText_suffix_ne {s s' : CString} {labels labels' : List (CString × CString)}
    (c c' : Char) (hs : s.head? = some c) (hs' : s'.head? = some c') (hne : c ≠ c') :
    lValueText name (some s) labels ≠ lValueText name (some s') labels' := by
  obtain ⟨t, rfl⟩ := List.head?_eq_some_iff.1 hs
  obtain ⟨t', rfl⟩ := List.head?_eq_some_iff.1 hs'
  intro h
  simp only [lValueText, suffixText, List.append_assoc] at h
  have h' := List.append_cancel_left h
  simp only [List.cons_append, List.cons.injEq] at h'
  exact hne h'.2.1

variable {labels' : List (CString × CString)}

theorem bucketLValue_ne_sum (key : CString) :
    bucketLValue name labels key ≠ sumLValue name labels' :=
  lValueText_suffix_ne 'b' 's' rfl rfl (by decide)

theorem countLValue_ne_sum : countLValue name labels ≠ sumLValue name labels' :=
  lValueText_suffix_ne 'c' 's' rfl rfl (by decide)

theorem bucketLValue_ne_count (key : CString) :
    bucketLValue name labels key ≠ countLValue name labels' :=
  lValueText_suffix_ne 'b' 'c' rfl rfl (by decide)

end Entries

/-- Label values that can be told from the text: as many as there are keys, and no quotation mark in
them. -/
structure FitLabels (labelKeys vs : List CString) : Prop where
  length : vs.length = labelKeys.length
  quote : ∀ v ∈ vs, '"' ∉ v

/-- Buckets of different vectors or with different keys have different texts. -/
theorem bucketLValue_injective {name : CString} {labelKeys vs vs' : List CString}
    (hvs : FitLabels labelKeys vs) (hvs' : FitLabels labelKeys vs') {key key' : CString}
    (hkey : '"' ∉ key) (hkey' : '"' ∉ key')
    (h : bucketLValue name (labelKeys.zip vs) key = bucketLValue name (labelKeys.zip vs') key') :
    vs = vs' ∧ key = key' := by
  have hzip {vs : List CString} (hvs : FitLabels labelKeys vs) (key : CString) :
      leLabels (labelKeys.zip vs) key = (labelKeys ++ ["le".toList]).zip (vs ++ [key]) := by
    rw [List.zip_append hvs.length.symm]
    rfl
  have hnone {vs : List CString} (hvs : FitLabels labelKeys vs) {key : CString} (hkey : '"' ∉ key) :
      ∀ v ∈ vs ++ [key], '"' ∉ v :=
    List.forall_mem_append.2 ⟨hvs.quote, List.forall_mem_singleton.2 hkey⟩
  rw [bucketLValue, bucketLValue, hzip hvs, hzip hvs'] at h
  have heq := lValueText_injective (by simp [hvs.length]) (by simp [hvs'.length]) (hnone hvs hkey)
    (hnone hvs' hkey') h
  exact List.append_inj' heq rfl |>.imp id fun hkeys => List.singleton_inj.1 hkeys

/-! ### The invariant -/

/-- A histogram with samples for these keys and texts, that have these values. -/
structure PmsHistogram.Holds (m : PmsHistogram) (entries : List (CString × CString))
    (value : CString → Double) : Prop where
  lValueList : m.lValueList = entries.map Prod.snd
  validLValues : m.lValues.Valid
  validSamples : m.samples.Valid
  formatter : m.formatter = []
  lValues : ∀ e ∈ entries, promMapGet m.lValues e.1 = some e.2
  samples : ∀ e ∈ entries, (promMapGet m.samples e.2).isSome
  objects : ∀ {lValue a}, promMapGet m.samples lValue = some a →
    m.objects[a]? = some ⟨.histogram, lValue, value lValue⟩

namespace PmsHistogram.Holds

variable {self : PmsHistogram} {entries : List (CString × CString)} {value : CString → Double}

/-- Before the first sample is made. -/
theorem empty (buckets : Phb) (value : CString → Double) :
    PmsHistogram.Holds ⟨[], promMapNew, promMapNew, [], [], buckets⟩ [] value where
  lValueList := rfl
  validLValues := PromMap.valid_new
  validSamples := PromMap.valid_new
  formatter := rfl
  lValues e he := by simp at he
  samples e he := by simp at he
  objects ha := by simp [promMapGet_new] at ha

/-- Making a sample.  A key that has been used before was used for the same text. -/
theorem initSample (h : self.Holds entries value) {works : ℕ → Bool} (hworks : ∀ k, works k = true)
    {name suffix : CString} {labels : List (CString × CString)} {key : CString}
    (hkey : ∀ e ∈ entries, e.1 = key → e.2 = lValueText name (some suffix) labels)
    (hzero : value (lValueText name (some suffix) labels) = .finite 0) (k : ℕ) :
    ∃ self' k', initSample works name suffix labels key (self, k) = some (self', k') ∧
      self'.Holds (entries ++ [(key, lValueText name (some suffix) labels)]) value ∧
      self'.buckets = self.buckets := by
  obtain ⟨k', hk'⟩ := pmfRun_pmfLoadLValue hworks name (some suffix) labels k []
  rw [List.nil_append] at hk'
  generalize lValueText name (some suffix) labels = lValue at hkey hzero hk' ⊢
  rw [Monitor.initSample, h.formatter, hk']
  refine ⟨_, k', rfl, ⟨?_, h.validLValues.set _ _, h.validSamples.set _ _, rfl, ?_, ?_, ?_⟩, rfl⟩
  · rw [h.lValueList, List.map_append, List.map_singleton]
  · intro e he
    rw [h.validLValues.get_set]
    rcases List.mem_append.1 he with he | he
    · split
      · rename_i heq
        rw [hkey e he heq]
      · exact h.lValues e he
    · rw [List.mem_singleton.1 he, if_pos rfl]
  · intro e he
    rw [h.validSamples.get_set]
    rcases List.mem_append.1 he with he | he
    · split
      · rfl
      · exact h.samples e he
    · rw [List.mem_singleton.1 he, if_pos rfl]
      rfl
  · intro lValue' a ha
    rw [h.validSamples.get_set] at ha
    split at ha
    · rename_i heq
      obtain rfl := Option.some_inj.1 ha
      rw [heq, List.getElem?_concat_length, hzero]
    · have hlt := (List.getElem?_eq_some_iff.1 (h.objects ha)).1
      rw [List.getElem?_append_left hlt]
      exact h.objects ha

/-- Adding to a sample. -/
theorem histogramAdd (h : self.Holds entries value) (ar : Arithmetic) {e : CString × CString}
    (he : e ∈ entries) (rValue : Double) :
    ∃ self', histogramAdd ar e.1 rValue self = some (!rValue.negative, self') ∧
      self'.Holds entries (if rValue.negative then value
        else Function.update value e.2 (ar.add (value e.2) rValue)) ∧
      self'.buckets = self.buckets := by
  obtain ⟨a, ha⟩ := Option.isSome_iff_exists.1 (h.samples e he)
  have hobject := h.objects ha
  have hlt := (List.getElem?_eq_some_iff.1 hobject).1
  rw [Monitor.histogramAdd, h.lValues e he]
  dsimp only
  rw [ha]
  dsimp only
  rw [hobject, Option.bind_some, pmsAdd]
  cases rValue.negative with
  | true =>
      refine ⟨_, rfl, { h with objects := fun {lValue a'} ha' => ?_ }, rfl⟩
      by_cases heq : a = a'
      · subst heq
        rw [List.getElem?_set_self hlt, if_pos rfl, ← hobject]
        exact h.objects ha'
      · rw [List.getElem?_set_ne heq]
        exact h.objects ha'
  | false =>
      refine ⟨_, rfl, { h with objects := fun {lValue a'} ha' => ?_ }, rfl⟩
      have hobject' := h.objects ha'
      rw [if_neg Bool.false_ne_true]
      by_cases heq : a = a'
      · subst heq
        rw [hobject] at hobject'
        simp only [Option.some_inj, Pms.mk.injEq] at hobject'
        rw [List.getElem?_set_self hlt, ← hobject'.2.1, Function.update_self]
      · have hne : lValue ≠ e.2 := by
          rintro rfl
          exact heq (Option.some_inj.1 (ha.symm.trans ha'))
        rw [List.getElem?_set_ne heq, Function.update_of_ne hne]
        exact hobject'

end PmsHistogram.Holds

/-- The values after adding one to the samples of these texts. -/
def bumped (ar : Arithmetic) (lValues : List CString) (value : CString → Double) :
    CString → Double :=
  lValues.foldl
    (fun value lValue => Function.update value lValue (ar.add (value lValue) (.finite 1))) value

/-- Adding one to several samples. -/
theorem PmsHistogram.Holds.histogramAddAll {self : PmsHistogram}
    {entries : List (CString × CString)} {value : CString → Double} (h : self.Holds entries value)
    (ar : Arithmetic) {es : List (CString × CString)} (hes : ∀ e ∈ es, e ∈ entries)
    (adds : List (CString × Double)) :
    ∃ self', histogramAddAll ar (es.map (fun e => (e.1, .finite 1)) ++ adds) self =
        histogramAddAll ar adds self' ∧
      self'.Holds entries (bumped ar (es.map Prod.snd) value) ∧ self'.buckets = self.buckets := by
  induction es generalizing self value with
  | nil => exact ⟨self, rfl, h, rfl⟩
  | cons e es ih =>
      obtain ⟨self₁, hadd, hholds, hbuckets⟩ :=
        h.histogramAdd ar (hes e (List.mem_cons_self ..)) (.finite 1)
      have hnonneg : (Double.finite 1).negative = false := by decide
      rw [hnonneg] at hadd hholds
      obtain ⟨self₂, hall, hholds', hbuckets'⟩ :=
        ih hholds fun e he => hes e (List.mem_cons_of_mem _ he)
      refine ⟨self₂, ?_, hholds', hbuckets'.trans hbuckets⟩
      rw [List.map_cons, List.cons_append, Monitor.histogramAddAll, hadd]
      exact hall

/-! ### New histograms -/

/-- **A new histogram** has all its samples, at zero. -/
theorem pmsHistogramNew_spec {works : ℕ → Bool} (hworks : ∀ k, works k = true) (name : CString)
    (bounds : List ℚ) (labels : List (CString × CString)) :
    ∃ self, pmsHistogramNew works name (.ofBounds (bounds.map .finite)) labels = some self ∧
      self.Holds (histogramEntries name labels bounds) (fun _ => .finite 0) ∧
      self.buckets = .ofBounds (bounds.map .finite) := by
  -- a key is used for one text
  have hkey {es : List (CString × CString)} {key lValue : CString}
      (hes : ∀ e ∈ es, e ∈ histogramEntries name labels bounds)
      (hmem : (key, lValue) ∈ histogramEntries name labels bounds) :
      ∀ e ∈ es, e.1 = key → e.2 = lValue := by
    intro e he heq
    rw [entry_lValue (hes e he), heq]
    exact (entry_lValue hmem).symm
  have hbucket (l : List ℚ) (hl : ∀ q ∈ l, q ∈ bounds) : ∀ e ∈ l.map (bucketEntry name labels),
      e ∈ histogramEntries name labels bounds := by
    intro e he
    obtain ⟨q, hq, rfl⟩ := List.mem_map.1 he
    exact List.mem_append_left _ (List.mem_map.2 ⟨q, hl q hq, rfl⟩)
  have hloop (l : List ℚ) (hl : ∀ q ∈ l, q ∈ bounds) : ∃ self k,
      (l.map (doubleToStr ∘ .finite)).foldlM
        (fun s key => initSample works name "bucket".toList (leLabels labels key) key s)
        (⟨[], promMapNew, promMapNew, [], [], .ofBounds (bounds.map .finite)⟩, 0) = some (self, k) ∧
      self.Holds (l.map (bucketEntry name labels)) (fun _ => .finite 0) ∧
      self.buckets = .ofBounds (bounds.map .finite) := by
    induction l using List.reverseRecOn with
    | nil => exact ⟨_, 0, rfl, .empty _ _, rfl⟩
    | append_singleton l q ih =>
        have hl' : ∀ q ∈ l, q ∈ bounds := fun q hq => hl q (List.mem_append_left _ hq)
        obtain ⟨self, k, hfold, hholds, hbuckets⟩ := ih hl'
        obtain ⟨self', k', hself', hholds', hbuckets'⟩ := hholds.initSample hworks
          (hkey (hbucket l hl') (hbucket [q] (fun q' hq' => hl q' (List.mem_append_right _ hq')) _
            (List.mem_singleton_self _))) rfl k
        refine ⟨self', k', ?_, ?_, hbuckets'.trans hbuckets⟩
        · rw [List.map_append, List.foldlM_append, hfold]
          simp only [List.map_cons, List.map_nil, List.foldlM_cons, List.foldlM_nil,
            Option.bind_eq_bind, Option.bind_some, Function.comp_apply]
          exact congrArg (Option.bind · _) hself'
        · rw [List.map_append, List.map_singleton]
          exact hholds'
  obtain ⟨self₁, k₁, hself₁, hholds₁, hbuckets₁⟩ := hloop bounds fun _ hq => hq
  have hes₁ := hbucket bounds fun _ hq => hq
  have hinf : ("+Inf".toList, bucketLValue name labels "+Inf".toList) ∈
      histogramEntries name labels bounds := List.mem_append_right _ (by simp)
  have hcount : ("count".toList, countLValue name labels) ∈ histogramEntries name labels bounds :=
    List.mem_append_right _ (by simp)
  have hsum : ("sum".toList, sumLValue name labels) ∈ histogramEntries name labels bounds :=
    List.mem_append_right _ (by simp)
  obtain ⟨self₂, k₂, hself₂, hholds₂, hbuckets₂⟩ :=
    hholds₁.initSample hworks (hkey hes₁ hinf) rfl k₁
  have hes₂ := List.forall_mem_append.2 ⟨hes₁, List.forall_mem_singleton.2 hinf⟩
  obtain ⟨self₃, k₃, hself₃, hholds₃, hbuckets₃⟩ :=
    hholds₂.initSample hworks (hkey hes₂ hcount) rfl k₂
  have hes₃ := List.forall_mem_append.2 ⟨hes₂, List.forall_mem_singleton.2 hcount⟩
  obtain ⟨self₄, k₄, hself₄, hholds₄, hbuckets₄⟩ :=
    hholds₃.initSample hworks (hkey hes₃ hsum) rfl k₃
  refine ⟨self₄, ?_, ?_, ((hbuckets₄.trans hbuckets₃).trans hbuckets₂).trans hbuckets₁⟩
  · have hkeys : (Phb.ofBounds (bounds.map .finite)).key = bounds.map (doubleToStr ∘ .finite) :=
      List.map_map
    rw [pmsHistogramNew, initBucketSamples]
    dsimp only
    rw [hkeys, hself₁, Option.bind_some, initInf, hself₂, Option.bind_some, initCount,
      hself₃, Option.bind_some, initSummary, hself₄, Option.map_some]
  · rw [List.append_assoc, List.append_assoc] at hholds₄
    exact hholds₄

/-! ### Observations -/

/-- In a list that meets a condition from some point on, these are the elements that meet it. -/
theorem takeWhile_reverse_eq {β : Type*} {p : β → Bool} {l : List β}
    (h : l.Pairwise fun x y => p x = true → p y = true) :
    l.reverse.takeWhile p = (l.filter p).reverse := by
  induction l using List.reverseRecOn with
  | nil => rfl
  | append_singleton l x ih =>
      rw [List.pairwise_append] at h
      rw [List.reverse_append, List.reverse_singleton, List.singleton_append, List.filter_append]
      cases hx : p x with
      | true => simp [hx, ih h.1]
      | false =>
          have hnone : l.filter p = [] := by
            rw [List.filter_eq_nil_iff]
            intro y hy hpy
            simp [h.2.2 y hy x (by simp) hpy] at hx
          simp [hx, hnone]

/-- The bounds that are not below a value. -/
def observedBounds (value : Double) (bounds : List ℚ) : List ℚ :=
  bounds.filter fun q => !value.gt (.finite q)

theorem gt_of_le {value : Double} {p q : ℚ} (h : p ≤ q) (hq : value.gt (.finite q) = true) :
    value.gt (.finite p) = true := by
  cases value with
  | nan negative => simp [Double.gt] at hq
  | infinite negative =>
      cases negative with
      | false => rfl
      | true => simp [Double.gt] at hq
  | negativeZero =>
      simp only [Double.gt, decide_eq_true_eq] at hq ⊢
      exact lt_of_le_of_lt h hq
  | finite x =>
      simp only [Double.gt, decide_eq_true_eq] at hq ⊢
      exact lt_of_le_of_lt h hq

/-- **The loop over the buckets** finds the bounds that are not below the value. -/
theorem observedKeys_eq {bounds : List ℚ} (hsorted : bounds.Pairwise (· ≤ ·)) (value : Double) :
    observedKeys value (.ofBounds (bounds.map .finite)) =
      (observedBounds value bounds).reverse.map (doubleToStr ∘ .finite) := by
  have hzip : (bounds.map Double.finite).zip ((bounds.map Double.finite).map doubleToStr) =
      bounds.map fun q => (.finite q, doubleToStr (.finite q)) := by
    rw [List.map_map, List.zip_map']
    rfl
  have hpairs : (bounds.map fun q => (Double.finite q, doubleToStr (.finite q))).Pairwise
      fun x y => (!value.gt x.1) = true → (!value.gt y.1) = true := by
    rw [List.pairwise_map]
    refine hsorted.imp fun {p q} hle hp => ?_
    cases hq : value.gt (.finite q) with
    | false => rfl
    | true => simp [gt_of_le hle hq] at hp
  rw [observedKeys, Phb.ofBounds, hzip, takeWhile_reverse_eq hpairs, List.filter_map,
    ← List.map_reverse, List.map_map]
  rfl

section Values

variable (name : CString) (labels : List (CString × CString)) (bounds : List ℚ)

/-- The texts of the samples to which an observation adds one. -/
def observedTexts (value : Double) : List CString :=
  ((observedBounds value bounds).reverse.map (bucketEntry name labels)).map Prod.snd ++
    [bucketLValue name labels "+Inf".toList, countLValue name labels]

/-- The values of the samples after an observation. -/
def observedValue (ar : Arithmetic) (value : CString → Double) (observation : Double) :
    CString → Double :=
  let value := bumped ar (observedTexts name labels bounds observation) value
  if observation.negative then value
  else Function.update value (sumLValue name labels)
    (ar.add (value (sumLValue name labels)) observation)

/-- The values of the samples after observations on a new histogram. -/
def histogramValue (ar : Arithmetic) (observations : List Double) : CString → Double :=
  observations.foldl (observedValue name labels bounds ar) fun _ => .finite 0

variable {name labels bounds}

/-- **One observation.**  It fails when the value is negative, after the buckets have been
updated. -/
theorem PmsHistogram.Holds.observe {self : PmsHistogram} {value : CString → Double}
    (h : self.Holds (histogramEntries name labels bounds) value)
    (hbuckets : self.buckets = .ofBounds (bounds.map .finite))
    (hsorted : bounds.Pairwise (· ≤ ·)) (ar : Arithmetic) (observation : Double) :
    ∃ self', pmsHistogramObserve ar observation self =
        some (if observation.negative then 2 else 0, self') ∧
      self'.Holds (histogramEntries name labels bounds)
        (observedValue name labels bounds ar value observation) ∧
      self'.buckets = self.buckets := by
  set es := (observedBounds observation bounds).reverse.map (bucketEntry name labels) ++
    [("+Inf".toList, bucketLValue name labels "+Inf".toList),
      ("count".toList, countLValue name labels)]
  have hes : ∀ e ∈ es, e ∈ histogramEntries name labels bounds := by
    intro e he
    rcases List.mem_append.1 he with he | he
    · obtain ⟨q, hq, rfl⟩ := List.mem_map.1 he
      have hq' := List.mem_of_mem_filter (List.mem_reverse.1 hq)
      exact List.mem_append_left _ (List.mem_map_of_mem hq')
    · refine List.mem_append_right _ ?_
      simp only [List.mem_cons, List.not_mem_nil, or_false] at he ⊢
      exact he.imp_right Or.inl
  have hsum : ("sum".toList, sumLValue name labels) ∈ histogramEntries name labels bounds :=
    List.mem_append_right _ (by simp)
  obtain ⟨self₁, hall, hholds, hbuckets₁⟩ :=
    h.histogramAddAll ar hes [("sum".toList, observation)]
  obtain ⟨self₂, hadd, hholds', hbuckets₂⟩ := hholds.histogramAdd ar hsum observation
  have hadds : (observedKeys observation self.buckets).map (·, Double.finite 1) ++
      [("+Inf".toList, .finite 1), ("count".toList, .finite 1), ("sum".toList, observation)] =
        es.map (fun e => (e.1, Double.finite 1)) ++ [("sum".toList, observation)] := by
    rw [hbuckets, observedKeys_eq hsorted]
    simp [es, bucketEntry, Function.comp_def]
  have htexts : es.map Prod.snd = observedTexts name labels bounds observation := by
    simp [es, observedTexts]
  refine ⟨self₂, ?_, ?_, hbuckets₂.trans hbuckets₁⟩
  · rw [pmsHistogramObserve, hadds, hall, Monitor.histogramAddAll, hadd, Option.bind_some]
    cases observation.negative <;> rfl
  · rw [htexts] at hholds'
    exact hholds'

/-! ### What the samples count -/

theorem bumped_eq {ar : Arithmetic} (har : ar.Counts) {lValue : CString} {lValues : List CString}
    {value : CString → Double} {n : ℕ} (hn : value lValue = .finite n)
    (hbound : n + lValues.count lValue ≤ 2 ^ 53) :
    bumped ar lValues value lValue = .finite (n + lValues.count lValue : ℕ) := by
  induction lValues generalizing value n with
  | nil => exact hn
  | cons lValue' lValues ih =>
      rw [bumped, List.foldl_cons, ← bumped]
      by_cases heq : lValue' = lValue
      · subst heq
        rw [List.count_cons_self] at hbound ⊢
        rw [ih (n := n + 1) (by rw [Function.update_self, hn, har n (by omega)]) (by omega)]
        congr 2
        omega
      · rw [List.count_cons_of_ne heq] at hbound ⊢
        exact ih (by rw [Function.update_of_ne (Ne.symm heq), hn]) hbound

theorem bumped_of_notMem (ar : Arithmetic) {lValue : CString} {lValues : List CString}
    (h : lValue ∉ lValues) (value : CString → Double) :
    bumped ar lValues value lValue = value lValue := by
  induction lValues generalizing value with
  | nil => rfl
  | cons lValue' lValues ih =>
      rw [List.mem_cons, not_or] at h
      rw [bumped, List.foldl_cons, ← bumped, ih h.2, Function.update_of_ne h.1]

/-- A sample that is not the sum counts how often it is met. -/
theorem histogramValue_eq {ar : Arithmetic} (har : ar.Counts) {lValue : CString}
    (hne : lValue ≠ sumLValue name labels) {observations : List Double}
    (hbound : (observations.map fun v =>
      (observedTexts name labels bounds v).count lValue).sum ≤ 2 ^ 53) :
    histogramValue name labels bounds ar observations lValue =
      .finite (observations.map fun v =>
        (observedTexts name labels bounds v).count lValue).sum := by
  induction observations using List.reverseRecOn with
  | nil => rfl
  | append_singleton observations v ih =>
      rw [List.map_append, List.sum_append, List.map_singleton, List.sum_singleton] at hbound ⊢
      have hvalue := bumped_eq har (ih (by omega)) hbound
      rw [histogramValue, List.foldl_append, List.foldl_cons, List.foldl_nil, ← histogramValue,
        observedValue]
      split
      · exact hvalue
      · rw [Function.update_of_ne hne]
        exact hvalue

theorem sumLValue_notMem (observation : Double) :
    sumLValue name labels ∉ observedTexts name labels bounds observation := by
  intro hmem
  rcases List.mem_append.1 hmem with hmem | hmem
  · obtain ⟨e, he, heq⟩ := List.mem_map.1 hmem
    obtain ⟨q, -, rfl⟩ := List.mem_map.1 he
    exact bucketLValue_ne_sum _ heq
  · simp only [List.mem_cons, List.not_mem_nil, or_false] at hmem
    rcases hmem with hmem | hmem
    · exact bucketLValue_ne_sum _ hmem.symm
    · exact countLValue_ne_sum hmem.symm

/-- The sum is that of the observations that are not negative. -/
theorem histogramValue_sum (ar : Arithmetic) (observations : List Double) :
    histogramValue name labels bounds ar observations (sumLValue name labels) =
      (observations.filter fun v => !v.negative).foldl ar.add (.finite 0) := by
  induction observations using List.reverseRecOn with
  | nil => rfl
  | append_singleton observations v ih =>
      rw [histogramValue, List.foldl_append, List.foldl_cons, List.foldl_nil, ← histogramValue,
        observedValue, List.filter_append, List.foldl_append, ← ih]
      cases hnegative : v.negative with
      | true =>
          rw [if_pos rfl, bumped_of_notMem ar (sumLValue_notMem v)]
          simp [hnegative]
      | false =>
          rw [if_neg Bool.false_ne_true, Function.update_self,
            bumped_of_notMem ar (sumLValue_notMem v)]
          simp [hnegative]

end Values

/-- The sample a histogram keeps under a text. -/
def PmsHistogram.lookup (self : PmsHistogram) (lValue : CString) : Option Pms :=
  (promMapGet self.samples lValue).bind (self.objects[·]?)

/-- What a histogram has counted: a bucket has the observations that are not above its bound, as
often as the bound stands among the bounds; the samples for `+Inf` and for the number have all of
them, and the sum is that of those that are not negative. -/
structure HistogramCounts (ar : Arithmetic) (name : CString) (labels : List (CString × CString))
    (bounds : List ℚ) (observations : List Double) (h : PmsHistogram) : Prop where
  exposed : h.lValueList = (histogramEntries name labels bounds).map Prod.snd
  bucket : ∀ q ∈ bounds, h.lookup (bucketEntry name labels q).2 = some
    ⟨.histogram, (bucketEntry name labels q).2, .finite
      (bounds.count q * observations.countP fun v => !v.gt (.finite q) : ℕ)⟩
  inf : h.lookup (bucketLValue name labels "+Inf".toList) = some
    ⟨.histogram, bucketLValue name labels "+Inf".toList, .finite observations.length⟩
  count : h.lookup (countLValue name labels) = some
    ⟨.histogram, countLValue name labels, .finite observations.length⟩
  sum : h.lookup (sumLValue name labels) = some ⟨.histogram, sumLValue name labels,
    (observations.filter fun v => !v.negative).foldl ar.add (.finite 0)⟩

theorem PmsHistogram.Holds.lookup {self : PmsHistogram} {entries : List (CString × CString)}
    {value : CString → Double} (h : self.Holds entries value) {e : CString × CString}
    (he : e ∈ entries) : self.lookup e.2 = some ⟨.histogram, e.2, value e.2⟩ := by
  obtain ⟨a, ha⟩ := Option.isSome_iff_exists.1 (h.samples e he)
  rw [PmsHistogram.lookup, ha, Option.bind_some, h.objects ha]

theorem sum_map_ite {β : Type*} (p : β → Bool) (n : ℕ) (l : List β) :
    (l.map fun x => if p x then 0 else n).sum = n * l.countP fun x => !p x := by
  induction l with
  | nil => rfl
  | cons x l ih =>
      rw [List.map_cons, List.sum_cons, ih, List.countP_cons]
      cases p x with
      | true => simp
      | false =>
          simp only [Bool.false_eq_true, if_false, Bool.not_false, if_true, Nat.mul_succ]
          exact Nat.add_comm ..

section Counting

variable {name : CString} {labelKeys labelValues : List CString} {bounds : List ℚ}
  (hlabels : FitLabels labelKeys labelValues)

include hlabels

/-- The text of a bucket is not that of another bound, and not that of `+Inf`. -/
theorem bucketEntry_eq_iff {p q : ℚ} (hp : IsDouble p) (hq : IsDouble q) :
    (bucketEntry name (labelKeys.zip labelValues) p).2 =
      (bucketEntry name (labelKeys.zip labelValues) q).2 ↔ p = q := by
  refine ⟨fun h => doubleToStr_injective hp hq ?_, fun h => by rw [h]⟩
  exact (bucketLValue_injective hlabels hlabels (quote_notMem_doubleToStr p)
    (quote_notMem_doubleToStr q) h).2

theorem bucketEntry_ne_inf (q : ℚ) : (bucketEntry name (labelKeys.zip labelValues) q).2 ≠
    bucketLValue name (labelKeys.zip labelValues) "+Inf".toList := fun h =>
  doubleToStr_ne (c := 'I') (by decide) (by simp [IsNumberChar])
    (bucketLValue_injective hlabels hlabels (quote_notMem_doubleToStr q) (by decide) h).2

/-- How often an observation meets a bucket. -/
theorem count_bucket (hdouble : ∀ q ∈ bounds, IsDouble q) {q : ℚ} (hq : q ∈ bounds)
    (observation : Double) :
    (observedTexts name (labelKeys.zip labelValues) bounds observation).count
      (bucketEntry name (labelKeys.zip labelValues) q).2 =
        if observation.gt (.finite q) then 0 else bounds.count q := by
  have hlast : [bucketLValue name (labelKeys.zip labelValues) "+Inf".toList,
      countLValue name (labelKeys.zip labelValues)].count
        (bucketEntry name (labelKeys.zip labelValues) q).2 = 0 := by
    rw [List.count_eq_zero, List.mem_cons, List.mem_singleton, not_or]
    exact ⟨bucketEntry_ne_inf hlabels q, bucketLValue_ne_count _⟩
  have hsame : ∀ p ∈ bounds, ((bucketEntry name (labelKeys.zip labelValues) p).2 ==
      (bucketEntry name (labelKeys.zip labelValues) q).2) = (p == q) := by
    intro p hp
    rw [Bool.eq_iff_iff, beq_iff_eq, beq_iff_eq]
    exact bucketEntry_eq_iff hlabels (hdouble p hp) (hdouble q hq)
  rw [observedTexts, List.count_append, hlast, Nat.add_zero, List.map_map, List.count_eq_countP,
    List.countP_map, List.countP_reverse, observedBounds, List.countP_filter]
  cases hgt : observation.gt (.finite q) with
  | true =>
      rw [if_pos rfl, List.countP_eq_zero]
      intro p hp hmet
      rw [Bool.and_eq_true, Function.comp_apply, Function.comp_apply, hsame p hp,
        beq_iff_eq] at hmet
      obtain ⟨rfl, hmet⟩ := hmet
      simp [hgt] at hmet
  | false =>
      rw [if_neg Bool.false_ne_true, List.count_eq_countP]
      refine List.countP_congr fun p hp => ?_
      rw [Bool.and_eq_true, Function.comp_apply, Function.comp_apply, hsame p hp]
      refine ⟨fun h => h.1, fun h => ⟨h, ?_⟩⟩
      rw [beq_iff_eq.1 h, hgt]
      rfl

theorem count_inf (observation : Double) :
    (observedTexts name (labelKeys.zip labelValues) bounds observation).count
      (bucketLValue name (labelKeys.zip labelValues) "+Inf".toList) = 1 := by
  have hbuckets : bucketLValue name (labelKeys.zip labelValues) "+Inf".toList ∉
      ((observedBounds observation bounds).reverse.map
        (bucketEntry name (labelKeys.zip labelValues))).map Prod.snd := by
    intro hmem
    obtain ⟨e, he, heq⟩ := List.mem_map.1 hmem
    obtain ⟨q, -, rfl⟩ := List.mem_map.1 he
    exact bucketEntry_ne_inf hlabels q heq
  rw [observedTexts, List.count_append, List.count_eq_zero.2 hbuckets, List.count_cons_self,
    List.count_singleton, if_neg (by simpa using (bucketLValue_ne_count _).symm)]

omit hlabels in
theorem count_count (labels : List (CString × CString)) (observation : Double) :
    (observedTexts name labels bounds observation).count (countLValue name labels) = 1 := by
  have hbuckets : countLValue name labels ∉ ((observedBounds observation bounds).reverse.map
      (bucketEntry name labels)).map Prod.snd := by
    intro hmem
    obtain ⟨e, he, heq⟩ := List.mem_map.1 hmem
    obtain ⟨q, -, rfl⟩ := List.mem_map.1 he
    exact bucketLValue_ne_count _ heq
  rw [observedTexts, List.count_append, List.count_eq_zero.2 hbuckets,
    List.count_cons_of_ne (bucketLValue_ne_count _), List.count_singleton_self]

/-- **What the samples have after observations on a new histogram.** -/
theorem PmsHistogram.Holds.counts {ar : Arithmetic} (har : ar.Counts)
    (hdouble : ∀ q ∈ bounds, IsDouble q) {self : PmsHistogram} {observations : List Double}
    (hmany : (bounds.length + 1) * observations.length ≤ 2 ^ 53)
    (h : self.Holds (histogramEntries name (labelKeys.zip labelValues) bounds)
      (histogramValue name (labelKeys.zip labelValues) bounds ar observations)) :
    HistogramCounts ar name (labelKeys.zip labelValues) bounds observations self := by
  have hall : observations.length ≤ 2 ^ 53 :=
    (Nat.le_mul_of_pos_left _ (Nat.succ_pos _)).trans hmany
  have hones : (observations.map fun _ => 1).sum = observations.length := by simp
  refine ⟨h.lValueList, fun q hq => ?_, ?_, ?_, ?_⟩
  · have hmem : bucketEntry name (labelKeys.zip labelValues) q ∈
        histogramEntries name (labelKeys.zip labelValues) bounds :=
      List.mem_append_left _ (List.mem_map_of_mem hq)
    have hsum : (observations.map fun v => (observedTexts name (labelKeys.zip labelValues) bounds
        v).count (bucketEntry name (labelKeys.zip labelValues) q).2).sum =
          bounds.count q * observations.countP fun v => !v.gt (.finite q) := by
      rw [← sum_map_ite]
      exact congrArg List.sum (List.map_congr_left fun v _ =>
        count_bucket hlabels hdouble hq v)
    have hbound : bounds.count q * observations.countP (fun v => !v.gt (.finite q)) ≤ 2 ^ 53 :=
      (Nat.mul_le_mul (List.count_le_length.trans (Nat.le_succ _)) List.countP_le_length).trans
        hmany
    rw [h.lookup hmem, ← hsum]
    exact congrArg (fun x => some (Pms.mk _ _ x))
      (histogramValue_eq har (bucketLValue_ne_sum _) (hsum ▸ hbound))
  · have hsum : (observations.map fun v => (observedTexts name (labelKeys.zip labelValues) bounds
        v).count (bucketLValue name (labelKeys.zip labelValues) "+Inf".toList)).sum =
          observations.length := by
      rw [← hones]
      exact congrArg List.sum (List.map_congr_left fun v _ => count_inf hlabels v)
    have hmem : ("+Inf".toList, bucketLValue name (labelKeys.zip labelValues) "+Inf".toList) ∈
        histogramEntries name (labelKeys.zip labelValues) bounds :=
      List.mem_append_right _ (by simp)
    rw [h.lookup hmem, histogramValue_eq har (bucketLValue_ne_sum _) (hsum ▸ hall), hsum]
  · have hsum : (observations.map fun v => (observedTexts name (labelKeys.zip labelValues) bounds
        v).count (countLValue name (labelKeys.zip labelValues))).sum = observations.length := by
      rw [← hones]
      exact congrArg List.sum (List.map_congr_left fun v _ => count_count _ v)
    have hmem : ("count".toList, countLValue name (labelKeys.zip labelValues)) ∈
        histogramEntries name (labelKeys.zip labelValues) bounds :=
      List.mem_append_right _ (by simp)
    rw [h.lookup hmem, histogramValue_eq har countLValue_ne_sum (hsum ▸ hall), hsum]
  · have hmem : ("sum".toList, sumLValue name (labelKeys.zip labelValues)) ∈
        histogramEntries name (labelKeys.zip labelValues) bounds :=
      List.mem_append_right _ (by simp)
    rw [h.lookup hmem, histogramValue_sum]

end Counting

/-! ### Runs -/

/-- A call of `prom_histogram_observe`: the label values, the value, and when `realloc` works. -/
structure ObserveCall where
  labelValues : List CString
  val : Double
  works : ℕ → Bool
  worksNew : ℕ → Bool

/-- Calls one after another; `none` is undefined behaviour. -/
def observeCalls (ar : Arithmetic) (calls : List ObserveCall) (self : PromHistogram) :
    Option PromHistogram :=
  calls.foldlM
    (fun self c =>
      (promHistogramObserve ar c.works c.worksNew c.val c.labelValues self).map Prod.snd)
    self

/-- What calls observe for a vector of label values. -/
def observationsOf (calls : List ObserveCall) (vs : List CString) : List Double :=
  (calls.filter (·.labelValues = vs)).map (·.val)

/-- The label values of a call fit, and memory lasts. -/
structure ObserveCall.Fine (labelKeys : List CString) (c : ObserveCall) : Prop where
  labels : FitLabels labelKeys c.labelValues
  works : ∀ k, c.works k = true
  worksNew : ∀ k, c.worksNew k = true

/-- The bounds that `prom_histogram_new` accepts are sorted. -/
theorem pairwise_of_increasing {bounds : List ℚ}
    (h : (Phb.ofBounds (bounds.map .finite)).increasing = true) : bounds.Pairwise (· ≤ ·) := by
  rw [← List.isChain_iff_pairwise]
  induction bounds with
  | nil => exact .nil
  | cons p bounds ih =>
      cases bounds with
      | nil => exact .singleton p
      | cons q bounds =>
          simp only [Phb.increasing, Phb.ofBounds, List.map_cons, List.tail_cons,
            List.zip_cons_cons, List.all_cons, Bool.and_eq_true] at h ih
          refine List.isChain_cons_cons.2 ⟨?_, ih h.2⟩
          simpa [Double.gt] using h.1

/-- A histogram after calls: every vector that was observed has samples, with the values of its
observations. -/
structure PromHistogram.Counted (m : PromHistogram) (ar : Arithmetic) (name : CString)
    (help : Option CString) (labelKeys : List CString) (bounds : List ℚ)
    (calls : List ObserveCall) : Prop where
  type : m.metric.type = .histogram
  name_eq : m.metric.name = name
  help_eq : m.metric.help = help
  labelKeys_eq : m.metric.labelKeys = labelKeys
  buckets : m.buckets = .ofBounds (bounds.map .finite)
  valid : m.metric.Valid
  keys : ∀ key, (m.metric.lookup key).isSome →
    ∃ c ∈ calls, lValueText name none (labelKeys.zip c.labelValues) = key
  lookup : ∀ vs, FitLabels labelKeys vs →
    match m.metric.lookup (lValueText name none (labelKeys.zip vs)) with
    | none => ∀ c ∈ calls, c.labelValues ≠ vs
    | some h => (∃ c ∈ calls, c.labelValues = vs) ∧
        h.Holds (histogramEntries name (labelKeys.zip vs) bounds)
          (histogramValue name (labelKeys.zip vs) bounds ar (observationsOf calls vs)) ∧
        h.buckets = .ofBounds (bounds.map .finite)

/-- **One call.** -/
theorem PromHistogram.Counted.observe {self : PromHistogram} {ar : Arithmetic} {name : CString}
    {help : Option CString} {labelKeys : List CString} {bounds : List ℚ} {calls : List ObserveCall}
    (h : self.Counted ar name help labelKeys bounds calls) (hsorted : bounds.Pairwise (· ≤ ·))
    {c : ObserveCall} (hc : c.Fine labelKeys) :
    ∃ code self', promHistogramObserve ar c.works c.worksNew c.val c.labelValues self =
      some (code, self') ∧ self'.Counted ar name help labelKeys bounds (calls ++ [c]) := by
  obtain ⟨metric, buckets⟩ := self
  obtain ⟨htype, rfl, rfl, rfl, rfl, hvalid, hkeys, hlookup⟩ := h
  dsimp only at htype hvalid hkeys hlookup hc ⊢
  obtain ⟨fresh, hfresh, hfreshHolds, hfreshBuckets⟩ := pmsHistogramNew_spec hc.worksNew
    metric.name bounds (metric.labelKeys.zip c.labelValues)
  obtain ⟨a, samples, objects, hfrom, hcurrent, hchange⟩ := sampleFromLabels_change hc.works
    (fun _ => pmsHistogramNew c.worksNew metric.name (.ofBounds (bounds.map .finite))
      (metric.labelKeys.zip c.labelValues)) hvalid c.labelValues hfresh
  -- the samples of the vector, which may be new
  have hbefore := hlookup c.labelValues hc.labels
  obtain ⟨hholds, hbuckets⟩ :
      ((metric.lookup (metric.lValue c.labelValues)).getD fresh).Holds
        (histogramEntries metric.name (metric.labelKeys.zip c.labelValues) bounds)
        (histogramValue metric.name (metric.labelKeys.zip c.labelValues) bounds ar
          (observationsOf calls c.labelValues)) ∧
      ((metric.lookup (metric.lValue c.labelValues)).getD fresh).buckets =
        .ofBounds (bounds.map .finite) := by
    rw [← PromMetric.lValue] at hbefore
    cases hold : metric.lookup (metric.lValue c.labelValues) with
    | some old =>
        rw [hold] at hbefore
        exact hbefore.2
    | none =>
        rw [hold] at hbefore
        have hnothing : observationsOf calls c.labelValues = [] := by
          rw [observationsOf, List.filter_eq_nil_iff.2 fun c' hc' => by simpa using hbefore c' hc']
          rfl
        rw [hnothing]
        exact ⟨hfreshHolds, hfreshBuckets⟩
  obtain ⟨next, hnext, hnextHolds, hnextBuckets⟩ := hholds.observe hbuckets hsorted ar c.val
  obtain ⟨hvalid', hlookup'⟩ := hchange next
  refine ⟨if c.val.negative then 2 else 0,
    ⟨{ metric with samples := samples, objects := objects.set a next }, _⟩, ?_,
    ⟨htype, rfl, rfl, rfl, rfl, hvalid', fun key hkey => ?_, fun vs hvs => ?_⟩⟩
  · rw [promHistogramObserve, if_neg (not_not.2 htype), pmsHistogramFromLabels]
    dsimp only
    rw [hfrom]
    dsimp only
    rw [hcurrent, Option.bind_some, hnext, Option.map_some]
    rfl
  · dsimp only at hkey
    rw [hlookup'] at hkey
    split at hkey
    · rename_i heq
      exact ⟨c, by simp, heq.symm⟩
    · obtain ⟨c', hc', heq⟩ := hkeys key hkey
      exact ⟨c', List.mem_append_left _ hc', heq⟩
  · dsimp only
    rw [hlookup']
    by_cases hvsc : c.labelValues = vs
    · subst hvsc
      have hobserved : observationsOf (calls ++ [c]) c.labelValues =
          observationsOf calls c.labelValues ++ [c.val] := by
        simp [observationsOf]
      rw [← PromMetric.lValue, if_pos rfl]
      refine ⟨⟨c, by simp, rfl⟩, ?_, hnextBuckets.trans hbuckets⟩
      rw [hobserved, histogramValue, List.foldl_append]
      exact hnextHolds
    · have hne : ¬ lValueText metric.name none (metric.labelKeys.zip vs) =
          metric.lValue c.labelValues := fun heq =>
        hvsc (lValueText_injective hc.labels.length hvs.length hc.labels.quote hvs.quote heq.symm)
      have hobserved : observationsOf (calls ++ [c]) vs = observationsOf calls vs := by
        simp [observationsOf, hvsc]
      rw [if_neg hne, hobserved]
      have hbefore := hlookup vs hvs
      split
      · rename_i hnone
        rw [hnone] at hbefore
        intro c' hc'
        rcases List.mem_append.1 hc' with hc' | hc'
        · exact hbefore c' hc'
        · rw [List.mem_singleton.1 hc']
          exact hvsc
      · rename_i old hold
        rw [hold] at hbefore
        obtain ⟨⟨c', hc', hvs'⟩, hrest⟩ := hbefore
        exact ⟨⟨c', List.mem_append_left _ hc', hvs'⟩, hrest⟩

/-- The run. -/
theorem PromHistogram.Counted.observeCalls {self : PromHistogram} {ar : Arithmetic}
    {name : CString} {help : Option CString} {labelKeys : List CString} {bounds : List ℚ}
    {before : List ObserveCall} (h : self.Counted ar name help labelKeys bounds before)
    (hsorted : bounds.Pairwise (· ≤ ·)) {calls : List ObserveCall}
    (hcalls : ∀ c ∈ calls, c.Fine labelKeys) :
    ∃ self', observeCalls ar calls self = some self' ∧
      self'.Counted ar name help labelKeys bounds (before ++ calls) := by
  induction calls generalizing self before with
  | nil => exact ⟨self, rfl, by rwa [List.append_nil]⟩
  | cons c calls ih =>
      obtain ⟨code, self₁, hobserve, hcounted⟩ :=
        h.observe hsorted (hcalls c (List.mem_cons_self ..))
      obtain ⟨self₂, hall, hcounted'⟩ := ih hcounted fun c hc =>
        hcalls c (List.mem_cons_of_mem _ hc)
      refine ⟨self₂, ?_, ?_⟩
      · rw [Monitor.observeCalls, List.foldlM_cons, hobserve]
        exact hall
      · rwa [List.append_assoc, List.singleton_append] at hcounted'

/-- A new histogram, before any call. -/
theorem PromHistogram.counted_new (ar : Arithmetic) {name : CString} {help : Option CString}
    {labelKeys : List CString} {bounds : List ℚ} {new : PromHistogram}
    (hnew : promHistogramNew name help (some (.ofBounds (bounds.map .finite))) labelKeys =
      some new) :
    new.Counted ar name help labelKeys bounds [] ∧ bounds.Pairwise (· ≤ ·) := by
  obtain ⟨metric, hmetric, haccepted⟩ := Option.bind_eq_some_iff.1 hnew
  dsimp only at haccepted
  split at haccepted
  · rename_i hincreasing
    obtain rfl := Option.some_inj.1 haccepted
    obtain ⟨rfl, hvalid⟩ := PromMetric.valid_new hmetric
    have hnone (key : CString) := hvalid.lookup_eq_none_iff.2 (promMapGet_new key)
    refine ⟨⟨rfl, rfl, rfl, rfl, rfl, hvalid, fun key hkey => ?_, fun vs _ => ?_⟩,
      pairwise_of_increasing hincreasing⟩
    · simp [hnone] at hkey
    · rw [hnone]
      simp
  · simp at haccepted

/-- The samples of a vector. -/
theorem PromHistogram.Counted.histogramCounts {self : PromHistogram} {ar : Arithmetic}
    {name : CString} {help : Option CString} {labelKeys : List CString} {bounds : List ℚ}
    {calls : List ObserveCall} (h : self.Counted ar name help labelKeys bounds calls)
    (har : ar.Counts) (hdouble : ∀ q ∈ bounds, IsDouble q)
    (hmany : (bounds.length + 1) * calls.length ≤ 2 ^ 53) {vs : List CString}
    (hvs : FitLabels labelKeys vs) {hist : PmsHistogram}
    (hhist : self.metric.lookup (lValueText name none (labelKeys.zip vs)) = some hist) :
    (∃ c ∈ calls, c.labelValues = vs) ∧
      HistogramCounts ar name (labelKeys.zip vs) bounds (observationsOf calls vs) hist := by
  have hlookup := h.lookup vs hvs
  rw [hhist] at hlookup
  obtain ⟨hexists, hholds, -⟩ := hlookup
  have hlength : (observationsOf calls vs).length ≤ calls.length := by
    rw [observationsOf, List.length_map]
    exact List.length_filter_le _ _
  exact ⟨hexists, hholds.counts hvs har hdouble ((Nat.mul_le_mul_left _ hlength).trans hmany)⟩

/-- **What a histogram counts.**  After any calls of `prom_histogram_observe` on a histogram with
bounds that `prom_histogram_new` accepts, the vectors that were observed are those with samples.
Of these a bucket has the number of observations that are not above its bound, times the number of
equal bounds, `+Inf` and the count have the number of all, and the sum leaves the negative ones
out. -/
theorem histogram_counts {ar : Arithmetic} (har : ar.Counts) {name : CString}
    {help : Option CString} {labelKeys : List CString} {bounds : List ℚ} {new : PromHistogram}
    (hdouble : ∀ q ∈ bounds, IsDouble q)
    (hnew : promHistogramNew name help (some (.ofBounds (bounds.map .finite))) labelKeys = some new)
    (calls : List ObserveCall) (hcalls : ∀ c ∈ calls, c.Fine labelKeys)
    (hmany : (bounds.length + 1) * calls.length ≤ 2 ^ 53) :
    ∃ self, observeCalls ar calls new = some self ∧
      ∀ vs, FitLabels labelKeys vs →
        match self.metric.lookup (lValueText name none (labelKeys.zip vs)) with
        | none => ∀ c ∈ calls, c.labelValues ≠ vs
        | some h => (∃ c ∈ calls, c.labelValues = vs) ∧
            HistogramCounts ar name (labelKeys.zip vs) bounds (observationsOf calls vs) h := by
  obtain ⟨hcounted, hsorted⟩ := PromHistogram.counted_new ar hnew
  obtain ⟨self, hself, hcounted'⟩ := hcounted.observeCalls hsorted hcalls
  rw [List.nil_append] at hcounted'
  refine ⟨self, hself, fun vs hvs => ?_⟩
  split
  · rename_i hnone
    have hlookup := hcounted'.lookup vs hvs
    rw [hnone] at hlookup
    exact hlookup
  · rename_i hist hhist
    exact hcounted'.histogramCounts har hdouble hmany hvs hhist

/-- Three observations, one of them negative. -/
def threeObservations : List ObserveCall :=
  [⟨["get".toList], .finite (1 / 2), fun _ => true, fun _ => true⟩,
    ⟨["get".toList], .finite (-2), fun _ => true, fun _ => true⟩,
    ⟨["put".toList], .finite 3, fun _ => true, fun _ => true⟩]

theorem isDouble_threeBounds : ∀ q ∈ [(1 : ℚ), 1, 5 / 2], IsDouble q := by
  intro q hq
  simp only [List.mem_cons, List.not_mem_nil, or_false] at hq
  rcases hq with rfl | rfl | rfl
  · exact ⟨1, 0, by decide, by norm_num⟩
  · exact ⟨1, 0, by decide, by norm_num⟩
  · exact ⟨5, -1, by decide, by norm_num⟩

theorem fine_threeObservations : ∀ c ∈ threeObservations, c.Fine ["verb".toList] := by
  intro c hc
  simp only [threeObservations, List.mem_cons, List.not_mem_nil, or_false] at hc
  rcases hc with rfl | rfl | rfl
  all_goals exact ⟨⟨rfl, by decide +kernel⟩, fun _ => rfl, fun _ => rfl⟩

theorem histogram_counts_threeObservations :
    ∃ self, observeCalls exactArithmetic threeObservations ⟨⟨.histogram, "time".toList, none,
        ["verb".toList], promMapNew, [], []⟩, .ofBounds [.finite 1, .finite 1, .finite (5 / 2)]⟩ =
        some self ∧
      ∀ h, self.metric.lookup (lValueText "time".toList none [("verb".toList, "get".toList)]) =
        some h → HistogramCounts exactArithmetic "time".toList [("verb".toList, "get".toList)]
          [1, 1, 5 / 2] [.finite (1 / 2), .finite (-2)] h := by
  have hnew : promHistogramNew "time".toList none
      (some (.ofBounds ([1, 1, 5 / 2].map .finite))) ["verb".toList] =
      some ⟨⟨.histogram, "time".toList, none, ["verb".toList], promMapNew, [], []⟩,
        .ofBounds [.finite 1, .finite 1, .finite (5 / 2)]⟩ := by
    rw [promHistogramNew, promMetricNew, if_neg (by decide +kernel), Option.bind_some]
    exact if_pos (by decide +kernel)
  obtain ⟨self, hself, hvectors⟩ := histogram_counts counts_exactArithmetic isDouble_threeBounds
    hnew threeObservations fine_threeObservations (by decide)
  refine ⟨self, hself, fun h hh => ?_⟩
  have hget := hvectors ["get".toList] ⟨rfl, by decide +kernel⟩
  rw [show ["verb".toList].zip ["get".toList] = [("verb".toList, "get".toList)] from rfl,
    hh] at hget
  exact hget.2

end Monitor
