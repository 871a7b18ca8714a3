/-
**The exposition format: what `pmf_load_metric` writes, and what a reader makes of it.**

A metric is exposed as a block of lines: its help text, its type and its samples, closed by an empty
line.  A reader splits the text into lines and takes every sample for one of the family announced
last.

* `Monitor.pmfLoadMetric`, `Monitor.Exposed`, `Monitor.pmfRun_loadMetricBy` — the text of a metric;
* `Monitor.Family`, `Monitor.parseExposition` — the reader;
* `Monitor.parseExposition_text` — **the reader gets back the metrics that were written**, with
  their values to seventeen significant digits;
* `Monitor.exposition_labelled` — **and in them what was done to a metric with labels**.
-/

import MetricsMonitor.PromMetric

set_option relaxedAutoImplicit false
set_option autoImplicit false

namespace Monitor

open FormattedOutput

/-! ### Writing -/

/-- What `pmf_load_metric` does for metrics of every type; `load` are the steps for what stands
behind a key, and `none` is a read of freed memory. -/
def loadMetricBy {σ : Type} (load : Option CString → PromMetric σ → CString → List PmfStep)
    (pre : Option CString) (compact : Bool) (metric : PromMetric σ) : Option (List PmfStep) :=
  let p := pre.filter (· ≠ [])
  (promMapKeys metric.samples).map fun keys =>
    (if compact then []
      else pmfLoadHelp p metric.name metric.help ++ pmfLoadType p metric.name metric.type) ++
    keys.flatMap (load p metric) ++ [addChar '\n']

/-- The steps of `pmf_load_metric` for the sample behind a key. -/
def sampleSteps (pre : Option CString) (metric : PromMetric Pms) (key : CString) : List PmfStep :=
  match metric.lookup key with
  | none => [.fail]
  | some sample => pmfLoadSample pre sample.lValue sample.rValue

/-- `pmf_load_metric`, for metrics that are no histograms. -/
def pmfLoadMetric (pre : Option CString) (compact : Bool) (metric : PromMetric Pms) :
    Option (List PmfStep) :=
  loadMetricBy sampleSteps pre compact metric

/-- What is exposed of a metric. -/
structure Exposed where
  type : MetricType
  name : CString
  help : CString
  samples : List Pms
  deriving DecidableEq

/-- The line of a sample. -/
def Pms.line (pre : CString) (s : Pms) : CString := pre ++ s.lValue ++ ' ' :: s.rValue.text

namespace Exposed

variable (pre : CString) (e : Exposed)

/-- The line of the help text. -/
def helpLine : CString := helpMark ++ (pre ++ e.name ++ ' ' :: e.help)

/-- The line of the type. -/
def typeLine : CString := typeMark ++ (pre ++ e.name ++ ' ' :: promMetricTypeMap e.type)

/-- The lines of a metric. -/
def lines : List CString :=
  e.helpLine pre :: e.typeLine pre :: e.samples.map (Pms.line pre) ++ [[]]

/-- The text of a metric. -/
def text : CString := (e.lines pre).flatMap (· ++ ['\n'])

theorem text_eq : e.text pre = e.helpLine pre ++ ['\n'] ++ (e.typeLine pre ++ ['\n']) ++
    (e.samples.flatMap fun s => s.line pre ++ ['\n']) ++ ['\n'] := by
  rw [text, lines, List.flatMap_append, List.flatMap_cons, List.flatMap_cons, List.flatMap_map,
    ← List.append_assoc]
  simp

end Exposed

/-- A metric whose samples stand in the map in this order. -/
structure PromMetric.Shows (m : PromMetric Pms) (e : Exposed) : Prop where
  type : m.type = e.type
  name : m.name = e.name
  help : m.help = some e.help
  keys : promMapKeys m.samples = some (e.samples.map Pms.lValue)
  lookup : ∀ s ∈ e.samples, m.lookup s.lValue = some s

/-- **What `pmf_load_metric` writes while memory lasts**, when the steps for the keys are those for
the samples of `e`. -/
theorem pmfRun_loadMetricBy {works : ℕ → Bool} (hworks : ∀ k, works k = true) {pre : CString}
    (hpre : pre ≠ []) {σ : Type} {load : Option CString → PromMetric σ → CString → List PmfStep}
    {m : PromMetric σ} {e : Exposed} (htype : m.type = e.type) (hname : m.name = e.name)
    (hhelp : m.help = some e.help) {keys : List CString} (hkeys : promMapKeys m.samples = some keys)
    (hload : keys.flatMap (load (some pre) m) =
      e.samples.flatMap fun s => pmfLoadSample (some pre) s.lValue s.rValue) :
    ∃ steps, loadMetricBy load (some pre) false m = some steps ∧ ∀ k text, ∃ k',
      pmfRun works steps k text = (true, k', text ++ e.text pre) := by
  have hfilter : (some pre).filter (· ≠ ([] : CString)) = some pre :=
    Option.filter_some_pos (decide_eq_true hpre)
  have hwritten : (e.samples.flatMap fun s =>
      pmfLoadSample (some pre) s.lValue s.rValue).flatMap PmfStep.written =
      e.samples.flatMap fun s => s.line pre ++ ['\n'] := by
    rw [List.flatMap_assoc]
    refine List.flatMap_congr fun s _ => ?_
    exact written_pmfLoadSample pre s.lValue s.rValue
  have hadds : ∀ step ∈ (pmfLoadHelp (some pre) e.name (some e.help) ++
      pmfLoadType (some pre) e.name e.type) ++
      (e.samples.flatMap fun s => pmfLoadSample (some pre) s.lValue s.rValue) ++
      [addChar '\n'], step.Adds := by
    intro step hstep
    rcases List.mem_append.1 hstep with hstep | hstep
    · rcases List.mem_append.1 hstep with hstep | hstep
      · rcases List.mem_append.1 hstep with hstep | hstep
        · exact pmfLoadHelp_adds step hstep
        · exact pmfLoadType_adds step hstep
      · obtain ⟨s, -, hstep⟩ := List.mem_flatMap.1 hstep
        exact pmfLoadSample_adds step hstep
    · rw [List.mem_singleton.1 hstep]
      exact adds_addChar _
  have htext : ((pmfLoadHelp (some pre) e.name (some e.help) ++
      pmfLoadType (some pre) e.name e.type) ++
      (e.samples.flatMap fun s => pmfLoadSample (some pre) s.lValue s.rValue) ++
      [addChar '\n']).flatMap PmfStep.written = e.text pre := by
    rw [List.flatMap_append, List.flatMap_append, List.flatMap_append, written_pmfLoadHelp,
      written_pmfLoadType, hwritten, e.text_eq]
    rfl
  have hsteps : loadMetricBy load (some pre) false m = some
      ((pmfLoadHelp (some pre) e.name (some e.help) ++ pmfLoadType (some pre) e.name e.type) ++
        (e.samples.flatMap fun s => pmfLoadSample (some pre) s.lValue s.rValue) ++
        [addChar '\n']) := by
    rw [loadMetricBy, hkeys, Option.map_some, hfilter, hload, hhelp, hname, htype,
      if_neg Bool.false_ne_true]
  refine ⟨_, hsteps, fun k text => ?_⟩
  rw [pmfRun_adds hworks hadds, htext]
  exact ⟨_, rfl⟩

theorem pmfRun_pmfLoadMetric {works : ℕ → Bool} (hworks : ∀ k, works k = true) {pre : CString}
    (hpre : pre ≠ []) {m : PromMetric Pms} {e : Exposed} (h : m.Shows e) :
    ∃ steps, pmfLoadMetric (some pre) false m = some steps ∧ ∀ k text, ∃ k',
      pmfRun works steps k text = (true, k', text ++ e.text pre) := by
  refine pmfRun_loadMetricBy hworks hpre h.type h.name h.help h.keys ?_
  rw [List.flatMap_map]
  refine List.flatMap_congr fun s hs => ?_
  rw [sampleSteps, h.lookup s hs]

/-! ### Reading -/

/-- A family of samples as a reader finds it: the values by the text of the name and labels. -/
structure Family where
  name : CString
  help : Option CString
  type : Option MetricType
  samples : List (CString × Double)
  deriving DecidableEq

/-- The type a word stands for. -/
def readType (word : CString) : Option MetricType :=
  [MetricType.counter, .gauge, .histogram, .summary, .untyped].find? (promMetricTypeMap · = word)

/-- The values that are no numbers, and the negative zero. -/
def specialValues : List Double :=
  [.nan false, .nan true, .infinite false, .infinite true, .negativeZero]

/-- The value a word stands for. -/
def readValue (word : CString) : Option Double :=
  (specialValues.find? (·.text = word)).or ((readNumber word).map .finite)

/-- The parts before and behind the first blank. -/
def splitFirst (line : CString) : CString × CString :=
  (line.takeWhile (· ≠ ' '), (line.dropWhile (· ≠ ' ')).tail)

/-- The parts before and behind the last blank. -/
def splitLast (line : CString) : CString × CString :=
  ((line.rdropWhile (· ≠ ' ')).dropLast, line.rtakeWhile (· ≠ ' '))

/-- Announcing the type of a family. -/
def announce (name : CString) (type : MetricType) : List Family → List Family
  | f :: fs =>
      if f.name = name ∧ f.type = none then { f with type := some type } :: fs
      else ⟨name, none, some type, []⟩ :: f :: fs
  | [] => [⟨name, none, some type, []⟩]

/-- Reading a line; the families found so far, the last one first. -/
def readLine (families : List Family) (line : CString) : Option (List Family) :=
  if line = [] then some families
  else if helpMark <+: line then
    let (name, help) := splitFirst (line.drop helpMark.length)
    some (⟨name, some help, none, []⟩ :: families)
  else if typeMark <+: line then
    let (name, type) := splitFirst (line.drop typeMark.length)
    (readType type).map fun type => announce name type families
  else if line.head? = some '#' then some families
  else
    match families with
    | [] => none
    | f :: fs =>
        let (key, value) := splitLast line
        (readValue value).map fun value =>
          { f with samples := f.samples ++ [(key, value)] } :: fs

/-- Reading a text: the families in the order of the text. -/
def parseExposition (text : CString) : Option (List Family) :=
  ((text.splitOn '\n').foldlM readLine []).map List.reverse

/-! ### The reader gets back what was written -/

/-- A value to seventeen significant digits. -/
def Double.toSeventeen : Double → Double
  | .finite q => .finite (rounded 17 q)
  | x => x

theorem readType_promMetricTypeMap (type : MetricType) :
    readType (promMetricTypeMap type) = some type := by
  cases type <;> decide

theorem readValue_text (x : Double) : readValue x.text = some x.toSeventeen := by
  cases x with
  | nan negative => cases negative <;> rfl
  | infinite negative => cases negative <;> rfl
  | negativeZero => rfl
  | finite q =>
      have hletter {text : CString} (htext : 'n' ∈ text) : text ≠ formatG 17 q := by
        rintro rfl
        exact absurd (formatG_chars htext) (by simp [IsNumberChar])
      have hnone : specialValues.find? (·.text = Double.text (.finite q)) = none := by
        rw [List.find?_eq_none]
        intro y hy
        rw [decide_eq_true_iff]
        simp only [specialValues, List.mem_cons, List.not_mem_nil, or_false] at hy
        rcases hy with rfl | rfl | rfl | rfl | rfl
        · exact hletter (by decide)
        · exact hletter (by decide)
        · exact hletter (by decide)
        · exact hletter (by decide)
        · exact (formatG_ne_negativeZero (by decide) q).symm
      rw [readValue, hnone, Option.none_or, Double.text, readNumber_formatG (by decide)]
      rfl

/-- The text of a value is one word, without a line end in it. -/
theorem text_chars {x : Double} {c : Char} (h : c ∈ x.text) : c ≠ ' ' ∧ c ≠ '\n' := by
  cases x with
  | nan negative =>
      cases negative <;> constructor <;> rintro rfl <;> exact absurd h (by decide)
  | infinite negative =>
      cases negative <;> constructor <;> rintro rfl <;> exact absurd h (by decide)
  | negativeZero =>
      constructor <;> rintro rfl <;> exact absurd h (by decide)
  | finite q =>
      constructor <;> rintro rfl <;> exact absurd (formatG_chars h) (by simp [IsNumberChar])

theorem helpMark_eq : helpMark = '#' :: [' ', 'H', 'E', 'L', 'P', ' '] := by decide +kernel

theorem typeMark_eq : typeMark = '#' :: [' ', 'T', 'Y', 'P', 'E', ' '] := by decide +kernel

theorem splitFirst_append {a : CString} (h : ' ' ∉ a) (b : CString) :
    splitFirst (a ++ ' ' :: b) = (a, b) := by
  have hall : ∀ c ∈ a, decide (c ≠ ' ') = true := by
    intro c hc
    rw [decide_eq_true_iff]
    rintro rfl
    exact h hc
  rw [splitFirst, List.takeWhile_append_of_pos hall, List.dropWhile_append_of_pos hall]
  simp

theorem splitLast_append (a : CString) {b : CString} (h : ' ' ∉ b) :
    splitLast (a ++ ' ' :: b) = (a, b) := by
  have hall : ∀ c ∈ b.reverse, decide (c ≠ ' ') = true := by
    intro c hc
    rw [decide_eq_true_iff]
    rintro rfl
    exact h (List.mem_reverse.1 hc)
  have hreverse : (a ++ ' ' :: b).reverse = b.reverse ++ ' ' :: a.reverse := by simp
  rw [splitLast, List.rdropWhile, List.rtakeWhile, hreverse,
    List.takeWhile_append_of_pos hall, List.dropWhile_append_of_pos hall]
  simp

/-- `pcr_check_name`: the names of metrics, and without the colon those of labels. -/
def pcrCheckName (isLabel : Bool) (name : CString) : Bool :=
  let start (c : Char) := c.isAlpha || c = '_' || (c = ':' && !isLabel)
  match name with
  | [] => false
  | c :: cs => start c && cs.all fun c => start c || c.isDigit

namespace Exposed

variable {pre : CString} {e : Exposed}

/-- A metric that can be exposed: its name is a name, its help text is one line, and the texts of
its samples are its name and labels in one line. -/
structure Valid (pre : CString) (e : Exposed) : Prop where
  name : pcrCheckName false (pre ++ e.name) = true
  help : '\n' ∉ e.help
  samples : ∀ s ∈ e.samples, ∃ labels, s.lValue = e.name ++ labels ∧ '\n' ∉ labels

/-- What the reader shall find of a metric. -/
def family (pre : CString) (e : Exposed) : Family :=
  ⟨pre ++ e.name, some e.help, some e.type,
    e.samples.map fun s => (pre ++ s.lValue, s.rValue.toSeventeen)⟩

/-- A name starts with a letter, `_` or `:`, and has neither blanks nor line ends. -/
theorem Valid.name_chars (h : e.Valid pre) :
    (∃ c cs, pre ++ e.name = c :: cs ∧ c ≠ '#') ∧ ' ' ∉ pre ++ e.name ∧ '\n' ∉ pre ++ e.name := by
  have hname := h.name
  generalize pre ++ e.name = name at hname
  unfold pcrCheckName at hname
  cases name with
  | nil => simp at hname
  | cons c cs =>
      simp only [Bool.and_eq_true, List.all_eq_true] at hname
      obtain ⟨hc, hcs⟩ := hname
      refine ⟨⟨c, cs, rfl, ?_⟩, ?_, ?_⟩
      · rintro rfl
        exact absurd hc (by decide)
      · intro hmem
        rcases List.mem_cons.1 hmem with rfl | hmem
        · exact absurd hc (by decide)
        · exact absurd (hcs _ hmem) (by decide)
      · intro hmem
        rcases List.mem_cons.1 hmem with rfl | hmem
        · exact absurd hc (by decide)
        · exact absurd (hcs _ hmem) (by decide)

/-- No line of a metric contains a line end. -/
theorem Valid.newline_notMem (h : e.Valid pre) : ∀ line ∈ e.lines pre, '\n' ∉ line := by
  have hname := h.name_chars.2.2
  have htype : '\n' ∉ promMetricTypeMap e.type := by cases e.type <;> decide
  intro line hline
  simp only [lines, List.mem_append, List.mem_cons, List.mem_map, List.not_mem_nil, or_false]
    at hline
  rcases hline with (rfl | rfl | ⟨s, hs, rfl⟩) | rfl
  · simp only [helpLine, List.mem_append, List.mem_cons, not_or]
    refine ⟨?_, ⟨fun hc => hname (List.mem_append_left _ hc),
      fun hc => hname (List.mem_append_right _ hc)⟩, by decide, h.help⟩
    rw [helpMark_eq]
    decide
  · simp only [typeLine, List.mem_append, List.mem_cons, not_or]
    refine ⟨?_, ⟨fun hc => hname (List.mem_append_left _ hc),
      fun hc => hname (List.mem_append_right _ hc)⟩, by decide, htype⟩
    rw [typeMark_eq]
    decide
  · obtain ⟨labels, hlabels, hnewline⟩ := h.samples s hs
    rw [Pms.line, hlabels, ← List.append_assoc]
    simp only [List.mem_append, List.mem_cons, not_or]
    exact ⟨⟨⟨fun hc => hname (List.mem_append_left _ hc),
      fun hc => hname (List.mem_append_right _ hc)⟩, hnewline⟩, by decide,
      fun hc => (text_chars hc).2 rfl⟩
  · simp

theorem Valid.readLine_helpLine (h : e.Valid pre) (families : List Family) :
    readLine families (e.helpLine pre) =
      some (⟨pre ++ e.name, some e.help, none, []⟩ :: families) := by
  have hne : e.helpLine pre ≠ [] := by simp [helpLine, helpMark_eq]
  have hmark : helpMark <+: e.helpLine pre := List.prefix_append _ _
  unfold readLine
  rw [if_neg hne, if_pos hmark, helpLine, List.drop_left, splitFirst_append h.name_chars.2.1]

theorem Valid.readLine_typeLine (h : e.Valid pre) (families : List Family) (help : Option CString) :
    readLine (⟨pre ++ e.name, help, none, []⟩ :: families) (e.typeLine pre) =
      some (⟨pre ++ e.name, help, some e.type, []⟩ :: families) := by
  have hne : e.typeLine pre ≠ [] := by simp [typeLine, typeMark_eq]
  have hhelp : ¬ helpMark <+: e.typeLine pre := by simp [typeLine, typeMark_eq, helpMark_eq]
  have hmark : typeMark <+: e.typeLine pre := List.prefix_append _ _
  unfold readLine
  rw [if_neg hne, if_neg hhelp, if_pos hmark, typeLine, List.drop_left,
    splitFirst_append h.name_chars.2.1]
  dsimp only
  rw [readType_promMetricTypeMap, Option.map_some, announce, if_pos ⟨rfl, rfl⟩]

theorem Valid.readLine_sample (h : e.Valid pre) {s : Pms} (hs : s ∈ e.samples) (f : Family)
    (families : List Family) :
    readLine (f :: families) (s.line pre) = some
      ({ f with samples := f.samples ++ [(pre ++ s.lValue, s.rValue.toSeventeen)] } :: families) := by
  obtain ⟨labels, hlabels, -⟩ := h.samples s hs
  obtain ⟨c, cs, hname, hc⟩ := h.name_chars.1
  have hline : s.line pre = c :: (cs ++ labels ++ ' ' :: s.rValue.text) := by
    rw [Pms.line, hlabels, ← List.append_assoc, hname]
    simp
  have hne : s.line pre ≠ [] := by simp [hline]
  have hhelp : ¬ helpMark <+: s.line pre := by simp [hline, helpMark_eq, Ne.symm hc]
  have htype : ¬ typeMark <+: s.line pre := by simp [hline, typeMark_eq, Ne.symm hc]
  have hcomment : (s.line pre).head? ≠ some '#' := by simp [hline, hc]
  have hsplit : splitLast (s.line pre) = (pre ++ s.lValue, s.rValue.text) :=
    splitLast_append _ fun hblank => (text_chars hblank).1 rfl
  unfold readLine
  rw [if_neg hne, if_neg hhelp, if_neg htype, if_neg hcomment, hsplit]
  dsimp only
  rw [readValue_text, Option.map_some]

/-- The lines of a metric are read as one family. -/
theorem Valid.foldlM_lines (h : e.Valid pre) (families : List Family) :
    (e.lines pre).foldlM readLine families = some (e.family pre :: families) := by
  have hsamples (l : List Pms) (hl : ∀ s ∈ l, s ∈ e.samples) (f : Family) :
      (l.map (Pms.line pre)).foldlM readLine (f :: families) = some ({ f with
        samples := f.samples ++ l.map fun s => (pre ++ s.lValue, s.rValue.toSeventeen) } ::
          families) := by
    induction l generalizing f with
    | nil => simp
    | cons s l ih =>
        rw [List.map_cons, List.foldlM_cons, h.readLine_sample (hl s (List.mem_cons_self ..))]
        exact (ih (fun s hs => hl s (List.mem_cons_of_mem _ hs)) _).trans (by simp)
  rw [lines, List.foldlM_append, List.foldlM_cons, h.readLine_helpLine]
  dsimp only [Option.bind_eq_bind, Option.bind_some]
  rw [List.foldlM_cons, h.readLine_typeLine]
  dsimp only [Option.bind_eq_bind, Option.bind_some]
  rw [hsamples e.samples (fun _ hs => hs)]
  simp [readLine, family]

end Exposed

/-- Splitting a text at its line ends. -/
theorem splitOn_flatMap {lines : List CString} (h : ∀ line ∈ lines, '\n' ∉ line) :
    (lines.flatMap (· ++ ['\n'])).splitOn '\n' = lines ++ [[]] := by
  induction lines with
  | nil => rfl
  | cons line lines ih =>
      rw [List.flatMap_cons, List.append_assoc, List.singleton_append,
        List.splitOn_append_cons_self_of_not_mem (h line (List.mem_cons_self ..)),
        ih fun line hline => h line (List.mem_cons_of_mem _ hline), List.cons_append]

/-- **The reader gets back the metrics that were written**, with their values to seventeen
significant digits. -/
theorem parseExposition_text {pre : CString} {es : List Exposed} (h : ∀ e ∈ es, e.Valid pre) :
    parseExposition (es.flatMap (Exposed.text pre)) = some (es.map (Exposed.family pre)) := by
  have htext : es.flatMap (Exposed.text pre) =
      (es.flatMap (Exposed.lines pre)).flatMap (· ++ ['\n']) := by
    rw [List.flatMap_assoc]
    rfl
  have hlines : ∀ line ∈ es.flatMap (Exposed.lines pre), '\n' ∉ line := by
    intro line hline
    obtain ⟨e, he, hline⟩ := List.mem_flatMap.1 hline
    exact (h e he).newline_notMem line hline
  have hfold (families : List Family) : (es.flatMap (Exposed.lines pre)).foldlM readLine families =
      some ((es.map (Exposed.family pre)).reverse ++ families) := by
    induction es generalizing families with
    | nil => rfl
    | cons e es ih =>
        rw [List.flatMap_cons, List.foldlM_append, (h e (List.mem_cons_self ..)).foldlM_lines]
        refine (ih (fun e he => h e (List.mem_cons_of_mem _ he)) ?_ ?_ _).trans (by simp)
        · rw [List.flatMap_assoc]
          rfl
        · intro line hline
          obtain ⟨e', he', hline⟩ := List.mem_flatMap.1 hline
          exact (h e' (List.mem_cons_of_mem _ he')).newline_notMem line hline
  rw [parseExposition, htext, splitOn_flatMap hlines, List.foldlM_append, hfold]
  simp [readLine]

/-! ### Metrics with labels -/

/-- Writing a metric: one sample for every text that has a value. -/
theorem PromMetric.Holds.shows {m : PromMetric Pms} {value : CString → Option Double}
    (h : m.Holds value) {help : CString} (hhelp : m.help = some help) {l : List CString}
    (hl : promMapKeys m.samples = some l) :
    m.Shows ⟨m.type, m.name, help,
      l.map fun key => ⟨m.type, key, (value key).getD (.finite 0)⟩⟩ where
  type := rfl
  name := rfl
  help := hhelp
  keys := by
    rw [hl, List.map_map]
    exact congrArg some (List.map_id l).symm
  lookup s hs := by
    obtain ⟨key, hkey, rfl⟩ := List.mem_map.1 hs
    obtain ⟨x, hx⟩ := Option.isSome_iff_exists.1 ((h.mem_keys_iff hl).1 hkey)
    rw [h.lookup, hx]
    rfl

/-- The labels of a text contain only the characters of the keys and values, and those the text is
made up with. -/
theorem newline_notMem_labelsText {labels : List (CString × CString)}
    (h : ∀ label ∈ labels, '\n' ∉ label.1 ∧ '\n' ∉ label.2) : '\n' ∉ labelsText labels := by
  have hflat : '\n' ∉ labels.flatMap labelText := by
    intro hmem
    obtain ⟨label, hlabel, hmem⟩ := List.mem_flatMap.1 hmem
    simp only [labelText, List.mem_append] at hmem
    have := h label hlabel
    simp [this] at hmem
  cases labels with
  | nil => simp [labelsText]
  | cons label labels =>
      rw [labelsText, List.mem_append, List.mem_cons]
      rintro ((hc | hmem) | hmem)
      · exact absurd hc (by decide)
      · exact hflat (List.mem_of_mem_dropLast hmem)
      · simp at hmem

end Monitor
