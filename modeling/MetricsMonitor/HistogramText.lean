/-
**Histograms in the exposition format: `pmf_load_metric` for a histogram.**

A histogram is exposed as one family: for every vector of label values that was observed, the lines
of its buckets, of `+Inf`, of the number of observations and of their sum.

* `Monitor.pmfLoadHistogram` — the text of a histogram;
* `Monitor.eq_of_entries` — samples of different vectors have different texts;
* `Monitor.PromHistogram.Counted.shows` — the text and what a reader finds in it;
* `Monitor.exposition_histogram` — **a reader finds what a histogram has counted**.
-/

import MetricsMonitor.Histogram
import MetricsMonitor.Exposition

set_option relaxedAutoImplicit false
set_option autoImplicit false

namespace Monitor

open FormattedOutput

/-! ### Writing -/

/-- The steps of `pmf_load_metric` for a sample of a histogram. -/
def histogramSampleSteps (pre : Option CString) (hist : PmsHistogram) (key : CString) :
    List PmfStep :=
  match hist.lookup key with
  | none => [.fail]
  | some sample => pmfLoadSample pre sample.lValue sample.rValue

/-- The steps of `pmf_load_metric` for the histogram behind a key. -/
def histogramSteps (pre : Option CString) (metric : PromMetric PmsHistogram) (key : CString) :
    List PmfStep :=
  match metric.lookup key with
  | none => [.fail]
  | some hist => hist.lValueList.flatMap (histogramSampleSteps pre hist)

/-- `pmf_load_metric`, for histograms. -/
def pmfLoadHistogram (pre : Option CString) (compact : Bool) (self : PromHistogram) :
    Option (List PmfStep) :=
  loadMetricBy histogramSteps pre compact self.metric

/-! ### The texts of different vectors -/

/-- What the text of a sample is. -/
theorem entry_cases {name : CString} {labels : List (CString × CString)} {bounds : List ℚ}
    {e : CString × CString} (he : e ∈ histogramEntries name labels bounds) :
    (∃ key, '"' ∉ key ∧ '\n' ∉ key ∧ e.2 = bucketLValue name labels key) ∨
      e.2 = countLValue name labels ∨ e.2 = sumLValue name labels := by
  rcases List.mem_append.1 he with he | he
  · obtain ⟨q, -, rfl⟩ := List.mem_map.1 he
    have hline : '\n' ∉ doubleToStr (.finite q) := fun h =>
      absurd (doubleToStr_chars h) (by simp [IsNumberChar])
    exact Or.inl ⟨_, quote_notMem_doubleToStr q, hline, rfl⟩
  · simp only [List.mem_cons, List.not_mem_nil, or_false] at he
    rcases he with rfl | rfl | rfl
    · exact Or.inl ⟨_, by decide, by decide, rfl⟩
    · exact Or.inr (Or.inl rfl)
    · exact Or.inr (Or.inr rfl)

/-- **Samples of different vectors have different texts.** -/
theorem eq_of_entries {name : CString} {labelKeys vs vs' : List CString} {bounds : List ℚ}
    (hvs : FitLabels labelKeys vs) (hvs' : FitLabels labelKeys vs') {e e' : CString × CString}
    (he : e ∈ histogramEntries name (labelKeys.zip vs) bounds)
    (he' : e' ∈ histogramEntries name (labelKeys.zip vs') bounds) (h : e.2 = e'.2) : vs = vs' := by
  have hsame {suffix : CString} (h : lValueText name (some suffix) (labelKeys.zip vs) =
      lValueText name (some suffix) (labelKeys.zip vs')) : vs = vs' :=
    lValueText_injective hvs.length hvs'.length hvs.quote hvs'.quote h
  rcases entry_cases he with ⟨key, hkey, -, hbucket⟩ | hcount | hsum <;>
    rcases entry_cases he' with ⟨key', hkey', -, hbucket'⟩ | hcount' | hsum'
  · rw [hbucket, hbucket'] at h
    exact (bucketLValue_injective hvs hvs' hkey hkey' h).1
  · rw [hbucket, hcount'] at h
    exact absurd h (bucketLValue_ne_count _)
  · rw [hbucket, hsum'] at h
    exact absurd h (bucketLValue_ne_sum _)
  · rw [hcount, hbucket'] at h
    exact absurd h.symm (bucketLValue_ne_count _)
  · rw [hcount, hcount'] at h
    exact hsame h
  · rw [hcount, hsum'] at h
    exact absurd h countLValue_ne_sum
  · rw [hsum, hbucket'] at h
    exact absurd h.symm (bucketLValue_ne_sum _)
  · rw [hsum, hcount'] at h
    exact absurd h.symm countLValue_ne_sum
  · rw [hsum, hsum'] at h
    exact hsame h

/-- The text of a sample is the name and something in the same line. -/
theorem entry_line {name : CString} {labelKeys vs : List CString} {bounds : List ℚ}
    (hkeys : ∀ key ∈ labelKeys, '\n' ∉ key) (hvs : ∀ v ∈ vs, '\n' ∉ v) {e : CString × CString}
    (he : e ∈ histogramEntries name (labelKeys.zip vs) bounds) :
    ∃ labels, e.2 = name ++ labels ∧ '\n' ∉ labels := by
  have hzip : ∀ label ∈ labelKeys.zip vs, '\n' ∉ label.1 ∧ '\n' ∉ label.2 := fun label hlabel =>
    ⟨hkeys _ (List.of_mem_zip hlabel).1, hvs _ (List.of_mem_zip hlabel).2⟩
  have hline {suffix : CString} (hsuffix : '\n' ∉ '_' :: suffix)
      {labels : List (CString × CString)} (h : ∀ label ∈ labels, '\n' ∉ label.1 ∧ '\n' ∉ label.2) :
      ∃ rest, lValueText name (some suffix) labels = name ++ rest ∧ '\n' ∉ rest := by
    refine ⟨suffixText (some suffix) ++ labelsText labels, List.append_assoc .., ?_⟩
    rw [List.mem_append, not_or]
    exact ⟨hsuffix, newline_notMem_labelsText h⟩
  rcases entry_cases he with ⟨key, -, hkey, hbucket⟩ | hcount | hsum
  · rw [hbucket]
    refine hline (by decide) fun label hlabel => ?_
    rcases List.mem_append.1 hlabel with hlabel | hlabel
    · exact hzip label hlabel
    · rw [List.mem_singleton.1 hlabel]
      exact ⟨(by decide : '\n' ∉ "le".toList), hkey⟩
  · rw [hcount]
    exact hline (by decide) hzip
  · rw [hsum]
    exact hline (by decide) hzip

/-! ### The text of a histogram -/

/-- A lookup in a list that has one value for a key. -/
theorem lookup_eq_some_of_forall {α β : Type*} [BEq α] [LawfulBEq α] {l : List (α × β)} {k : α}
    {v : β} (hmem : (k, v) ∈ l) (hunique : ∀ p ∈ l, p.1 = k → p.2 = v) : l.lookup k = some v := by
  cases hlookup : l.lookup k with
  | none => simpa using List.lookup_eq_none_iff.1 hlookup _ hmem
  | some w =>
      obtain ⟨l₁, l₂, rfl, -⟩ := List.lookup_eq_some_iff.1 hlookup
      rw [← hunique (k, w) (by simp) rfl]

section Shows

variable (ar : Arithmetic) (name : CString) (labelKeys : List CString) (bounds : List ℚ)
  (calls : List ObserveCall)

/-- The samples of a vector of label values, as they are exposed. -/
def exposedVector (vs : List CString) : List Pms :=
  (histogramEntries name (labelKeys.zip vs) bounds).map fun e =>
    ⟨.histogram, e.2,
      histogramValue name (labelKeys.zip vs) bounds ar (observationsOf calls vs) e.2⟩

variable {ar name labelKeys bounds calls}

/-- A histogram after calls, for a vector that was observed. -/
theorem PromHistogram.Counted.observed {self : PromHistogram} {help : Option CString}
    (h : self.Counted ar name help labelKeys bounds calls) {c : ObserveCall} (hc : c ∈ calls)
    (hlabels : FitLabels labelKeys c.labelValues) : ∃ hist,
      self.metric.lookup (lValueText name none (labelKeys.zip c.labelValues)) = some hist ∧
      hist.Holds (histogramEntries name (labelKeys.zip c.labelValues) bounds)
        (histogramValue name (labelKeys.zip c.labelValues) bounds ar
          (observationsOf calls c.labelValues)) := by
  have hlookup := h.lookup c.labelValues hlabels
  split at hlookup
  · exact absurd rfl (hlookup c hc)
  · rename_i hist hhist
    exact ⟨hist, hhist, hlookup.2.1⟩

/-- The vectors of label values in the order in which an iteration meets them. -/
theorem PromHistogram.Counted.exists_vectors {self : PromHistogram} {help : Option CString}
    (h : self.Counted ar name help labelKeys bounds calls) (hcalls : ∀ c ∈ calls, c.Fine labelKeys) :
    ∃ vectors : List (List CString), promMapKeys self.metric.samples =
        some (vectors.map fun vs => lValueText name none (labelKeys.zip vs)) ∧
      ∀ vs, vs ∈ vectors ↔ ∃ c ∈ calls, c.labelValues = vs := by
  obtain ⟨l, hl⟩ := Option.isSome_iff_exists.1 h.valid.keys
  have hmem (key : CString) : key ∈ l ↔ (self.metric.lookup key).isSome := by
    rw [h.valid.samples.mem_keys_iff hl, Option.isSome_iff_ne_none, Option.isSome_iff_ne_none]
    exact not_congr h.valid.lookup_eq_none_iff.symm
  have hvector : ∀ key ∈ l, ∃ vs, (∃ c ∈ calls, c.labelValues = vs) ∧
      lValueText name none (labelKeys.zip vs) = key := by
    intro key hkey
    obtain ⟨c, hc, htext⟩ := h.keys key ((hmem key).1 hkey)
    exact ⟨c.labelValues, ⟨c, hc, rfl⟩, htext⟩
  choose! vector hvector htext using hvector
  have hmap : (l.map vector).map (fun vs => lValueText name none (labelKeys.zip vs)) = l := by
    rw [List.map_map]
    exact (List.map_congr_left htext).trans (List.map_id l)
  refine ⟨l.map vector, hmap.symm ▸ hl, fun vs => ?_⟩
  rw [List.mem_map]
  constructor
  · rintro ⟨key, hkey, rfl⟩
    exact hvector key hkey
  · rintro ⟨c, hc, rfl⟩
    have hfit := (hcalls c hc).labels
    obtain ⟨hist, hhist, -⟩ := h.observed hc hfit
    have hkey := (hmem _).2 (Option.isSome_iff_exists.2 ⟨hist, hhist⟩)
    obtain ⟨c', hc', hvs⟩ := hvector _ hkey
    have hfit' := hvs ▸ (hcalls c' hc').labels
    exact ⟨_, hkey, lValueText_injective hfit'.length hfit.length hfit'.quote hfit.quote
      (htext _ hkey)⟩

/-- **What `pmf_load_metric` writes for a histogram**, and what a reader finds under the texts of
its samples. -/
theorem PromHistogram.Counted.shows {self : PromHistogram} {help : CString}
    (h : self.Counted ar name (some help) labelKeys bounds calls)
    (hcalls : ∀ c ∈ calls, c.Fine labelKeys) (hlines : ∀ c ∈ calls, ∀ v ∈ c.labelValues, '\n' ∉ v)
    {pre : CString} (hpre : pre ≠ []) (hname : pcrCheckName false (pre ++ name) = true)
    (hhelp : '\n' ∉ help) (hkeys : ∀ key ∈ labelKeys, '\n' ∉ key) {works : ℕ → Bool}
    (hworks : ∀ k, works k = true) :
    ∃ steps k text samples, pmfLoadHistogram (some pre) false self = some steps ∧
      pmfRun works steps 0 [] = (true, k, text) ∧
      parseExposition text = some [⟨pre ++ name, some help, some .histogram, samples⟩] ∧
      ∀ vs, FitLabels labelKeys vs → ∀ e ∈ histogramEntries name (labelKeys.zip vs) bounds,
        samples.lookup (pre ++ e.2) =
          ((self.metric.lookup (lValueText name none (labelKeys.zip vs))).bind
            (·.lookup e.2)).map fun s => s.rValue.toSeventeen := by
  obtain ⟨vectors, hvectors, hmem⟩ := h.exists_vectors hcalls
  have hfit {vs : List CString} (hvs : vs ∈ vectors) : FitLabels labelKeys vs ∧
      ∀ v ∈ vs, '\n' ∉ v := by
    obtain ⟨c, hc, rfl⟩ := (hmem vs).1 hvs
    exact ⟨(hcalls c hc).labels, hlines c hc⟩
  have hobserved {vs : List CString} (hvs : vs ∈ vectors) : ∃ hist,
      self.metric.lookup (lValueText name none (labelKeys.zip vs)) = some hist ∧
      hist.Holds (histogramEntries name (labelKeys.zip vs) bounds)
        (histogramValue name (labelKeys.zip vs) bounds ar (observationsOf calls vs)) := by
    obtain ⟨c, hc, rfl⟩ := (hmem vs).1 hvs
    exact h.observed hc (hcalls c hc).labels
  -- what is exposed, vector by vector
  set e : Exposed := ⟨.histogram, name, help,
    vectors.flatMap (exposedVector ar name labelKeys bounds calls)⟩ with he
  have hload : (vectors.map fun vs => lValueText name none (labelKeys.zip vs)).flatMap
      (histogramSteps (some pre) self.metric) =
      e.samples.flatMap fun s => pmfLoadSample (some pre) s.lValue s.rValue := by
    rw [he, List.flatMap_map, List.flatMap_assoc]
    refine List.flatMap_congr fun vs hvs => ?_
    obtain ⟨hist, hhist, hholds⟩ := hobserved hvs
    rw [histogramSteps, hhist]
    dsimp only
    rw [hholds.lValueList, exposedVector, List.flatMap_map, List.flatMap_map]
    refine List.flatMap_congr fun entry hentry => ?_
    rw [histogramSampleSteps, hholds.lookup hentry]
  have hvalid : e.Valid pre := by
    refine ⟨hname, hhelp, fun s hs => ?_⟩
    obtain ⟨vs, hvs, hs⟩ := List.mem_flatMap.1 hs
    obtain ⟨entry, hentry, rfl⟩ := List.mem_map.1 hs
    exact entry_line hkeys (hfit hvs).2 hentry
  obtain ⟨steps, hsteps, hrun⟩ := pmfRun_loadMetricBy hworks hpre (e := e) h.type h.name_eq
    h.help_eq hvectors hload
  obtain ⟨k, hk⟩ := hrun 0 []
  have hparse := parseExposition_text (List.forall_mem_singleton.2 hvalid)
  rw [List.flatMap_singleton] at hparse
  refine ⟨steps, k, _, _, hsteps, hk, hparse, fun vs hvs entry hentry => ?_⟩
  -- a sample under this text is one of this vector
  have hsamples (p : CString × Double) :
      p ∈ (e.samples.map fun s => (pre ++ s.lValue, s.rValue.toSeventeen)) ↔
        ∃ vs' ∈ vectors, ∃ entry' ∈ histogramEntries name (labelKeys.zip vs') bounds,
          (pre ++ entry'.2, (histogramValue name (labelKeys.zip vs') bounds ar
            (observationsOf calls vs') entry'.2).toSeventeen) = p := by
    simp only [he, exposedVector, List.mem_map, List.mem_flatMap]
    constructor
    · rintro ⟨s, ⟨vs', hvs', entry', hentry', rfl⟩, rfl⟩
      exact ⟨vs', hvs', entry', hentry', rfl⟩
    · rintro ⟨vs', hvs', entry', hentry', rfl⟩
      exact ⟨_, ⟨vs', hvs', entry', hentry', rfl⟩, rfl⟩
  cases hlookup : self.metric.lookup (lValueText name none (labelKeys.zip vs)) with
  | none =>
      rw [Option.bind_none, Option.map_none, List.lookup_eq_none_iff]
      intro p hp
      obtain ⟨vs', hvs', entry', hentry', rfl⟩ := (hsamples p).1 hp
      rw [bne_iff_ne]
      intro heq
      obtain rfl := eq_of_entries hvs (hfit hvs').1 hentry hentry' (List.append_cancel_left heq)
      obtain ⟨hist, hhist, -⟩ := hobserved hvs'
      rw [hlookup] at hhist
      exact absurd hhist (by simp)
  | some hist =>
      have hcounted := h.lookup vs hvs
      rw [hlookup] at hcounted
      have hvectors := (hmem vs).2 hcounted.1
      rw [Option.bind_some, hcounted.2.1.lookup hentry, Option.map_some]
      refine lookup_eq_some_of_forall ((hsamples _).2 ⟨vs, hvectors, entry, hentry, rfl⟩) ?_
      intro p hp heq
      obtain ⟨vs', hvs', entry', hentry', rfl⟩ := (hsamples p).1 hp
      have htext := List.append_cancel_left heq
      obtain rfl := eq_of_entries (hfit hvs').1 hvs hentry' hentry htext
      rw [htext]

end Shows

/-! ### What a reader finds -/

/-- What a reader finds of the observations of a vector; the numbers are exact. -/
structure HistogramRead (ar : Arithmetic) (pre name : CString) (labels : List (CString × CString))
    (bounds : List ℚ) (observations : List Double) (samples : List (CString × Double)) : Prop where
  bucket : ∀ q ∈ bounds, samples.lookup (pre ++ (bucketEntry name labels q).2) = some
    (.finite (bounds.count q * observations.countP fun v => !v.gt (.finite q) : ℕ))
  inf : samples.lookup (pre ++ bucketLValue name labels "+Inf".toList) =
    some (.finite observations.length)
  count : samples.lookup (pre ++ countLValue name labels) = some (.finite observations.length)
  sum : samples.lookup (pre ++ sumLValue name labels) = some
    ((observations.filter fun v => !v.negative).foldl ar.add (.finite 0)).toSeventeen

theorem toSeventeen_natCast {n : ℕ} (hn : n ≤ 2 ^ 53) :
    (Double.finite n).toSeventeen = .finite n :=
  congrArg Double.finite (rounded_natCast (by decide) (lt_of_le_of_lt hn (by decide)))

/-- **A reader finds what a histogram has counted.**  After any calls of `prom_histogram_observe`
the text of the histogram is read as one family.  For a vector that was observed it has the number
of observations that are not above a bound, times the number of equal bounds, and the number of all
of them, as exact numbers, and their sum to seventeen digits; for other vectors it has no sample. -/
theorem exposition_histogram {ar : Arithmetic} (har : ar.Counts) {name help : CString}
    {labelKeys : List CString} {bounds : List ℚ} {new : PromHistogram}
    (hdouble : ∀ q ∈ bounds, IsDouble q)
    (hnew : promHistogramNew name (some help) (some (.ofBounds (bounds.map .finite))) labelKeys =
      some new) (calls : List ObserveCall) (hcalls : ∀ c ∈ calls, c.Fine labelKeys)
    (hlines : ∀ c ∈ calls, ∀ v ∈ c.labelValues, '\n' ∉ v)
    (hmany : (bounds.length + 1) * calls.length ≤ 2 ^ 53) {pre : CString} (hpre : pre ≠ [])
    (hname : pcrCheckName false (pre ++ name) = true) (hhelp : '\n' ∉ help)
    (hkeys : ∀ key ∈ labelKeys, '\n' ∉ key) {works : ℕ → Bool} (hworks : ∀ k, works k = true) :
    ∃ self steps k text samples, observeCalls ar calls new = some self ∧
      pmfLoadHistogram (some pre) false self = some steps ∧
      pmfRun works steps 0 [] = (true, k, text) ∧
      parseExposition text = some [⟨pre ++ name, some help, some .histogram, samples⟩] ∧
      ∀ vs, FitLabels labelKeys vs →
        ((∃ c ∈ calls, c.labelValues = vs) → HistogramRead ar pre name (labelKeys.zip vs) bounds
          (observationsOf calls vs) samples) ∧
        ((∀ c ∈ calls, c.labelValues ≠ vs) → ∀ e ∈ histogramEntries name (labelKeys.zip vs) bounds,
          samples.lookup (pre ++ e.2) = none) := by
  obtain ⟨hcounted, hsorted⟩ := PromHistogram.counted_new ar hnew
  obtain ⟨self, hself, hcounted'⟩ := hcounted.observeCalls hsorted hcalls
  rw [List.nil_append] at hcounted'
  obtain ⟨steps, k, text, samples, hsteps, hrun, hparse, hlookup⟩ :=
    hcounted'.shows hcalls hlines hpre hname hhelp hkeys hworks
  refine ⟨self, steps, k, text, samples, hself, hsteps, hrun, hparse, fun vs hvs => ⟨?_, ?_⟩⟩
  · rintro ⟨c, hc, rfl⟩
    obtain ⟨hist, hhist, -⟩ := hcounted'.observed hc hvs
    obtain ⟨-, hcounts⟩ := hcounted'.histogramCounts har hdouble hmany hvs hhist
    have hlookup := hlookup c.labelValues hvs
    simp only [hhist, Option.bind_some] at hlookup
    have hlength : (observationsOf calls c.labelValues).length ≤ calls.length := by
      rw [observationsOf, List.length_map]
      exact List.length_filter_le _ _
    have hall : (observationsOf calls c.labelValues).length ≤ 2 ^ 53 :=
      hlength.trans ((Nat.le_mul_of_pos_left _ (Nat.succ_pos _)).trans hmany)
    refine ⟨fun q hq => ?_, ?_, ?_, ?_⟩
    · rw [hlookup _ (List.mem_append_left _ (List.mem_map_of_mem hq)), hcounts.bucket q hq]
      refine congrArg some (toSeventeen_natCast ?_)
      calc bounds.count q * (observationsOf calls c.labelValues).countP (fun v => !v.gt (.finite q))
          ≤ (bounds.length + 1) * calls.length :=
            Nat.mul_le_mul (List.count_le_length.trans (Nat.le_succ _))
              (List.countP_le_length.trans hlength)
        _ ≤ 2 ^ 53 := hmany
    · rw [hlookup ("+Inf".toList, _) (List.mem_append_right _ (by simp)), hcounts.inf]
      exact congrArg some (toSeventeen_natCast hall)
    · rw [hlookup ("count".toList, _) (List.mem_append_right _ (by simp)), hcounts.count]
      exact congrArg some (toSeventeen_natCast hall)
    · rw [hlookup ("sum".toList, _) (List.mem_append_right _ (by simp)), hcounts.sum]
      rfl
  · intro hnone e he
    rw [hlookup vs hvs e he]
    cases hhist : self.metric.lookup (lValueText name none (labelKeys.zip vs)) with
    | none => rfl
    | some hist =>
        obtain ⟨⟨c, hc, hvs'⟩, -⟩ := hcounted'.histogramCounts har hdouble hmany hvs hhist
        exact absurd hvs' (hnone c hc)

theorem exposition_histogram_threeObservations :
    ∃ self steps k text samples, observeCalls exactArithmetic threeObservations
        ⟨⟨.histogram, "time".toList, some "Time".toList, ["verb".toList], promMapNew, [], []⟩,
          .ofBounds [.finite 1, .finite 1, .finite (5 / 2)]⟩ = some self ∧
      pmfLoadHistogram (some "m_".toList) false self = some steps ∧
      pmfRun (fun _ => true) steps 0 [] = (true, k, text) ∧
      parseExposition text = some [⟨"m_time".toList, some "Time".toList, some .histogram, samples⟩] ∧
      HistogramRead exactArithmetic "m_".toList "time".toList [("verb".toList, "get".toList)]
        [1, 1, 5 / 2] [.finite (1 / 2), .finite (-2)] samples := by
  have hnew : promHistogramNew "time".toList (some "Time".toList)
      (some (.ofBounds ([1, 1, 5 / 2].map .finite))) ["verb".toList] =
      some ⟨⟨.histogram, "time".toList, some "Time".toList, ["verb".toList], promMapNew, [], []⟩,
        .ofBounds [.finite 1, .finite 1, .finite (5 / 2)]⟩ := by
    rw [promHistogramNew, promMetricNew, if_neg (by decide +kernel), Option.bind_some]
    exact if_pos (by decide +kernel)
  obtain ⟨self, steps, k, text, samples, hself, hsteps, hrun, hparse, hread⟩ :=
    exposition_histogram counts_exactArithmetic isDouble_threeBounds hnew threeObservations
      fine_threeObservations (by decide +kernel) (by decide) (show "m_".toList ≠ [] by decide)
      (by decide +kernel) (by decide +kernel) (by decide +kernel) fun _ => rfl
  exact ⟨self, steps, k, text, samples, hself, hsteps, hrun, hparse,
    (hread ["get".toList] ⟨rfl, by decide +kernel⟩).1 ⟨_, List.mem_cons_self .., rfl⟩⟩

end Monitor
