/-
**Layouts of the configuration file.**

JSON allows white space in front of every token and after the last one.  The configuration is a
document of twenty-nine tokens, so one document has many texts.  The format of `set_configuration`
has a blank in front of most tokens, and none in front of the first brace, the colons and the
commas.

* `Monitor.ConfigDocument`, `Monitor.ConfigDocument.tokens` — the document, token by token;
* `Monitor.Layout`, `Monitor.ConfigDocument.text` — the white space between the tokens, and the
  text;
* `Monitor.ConfigDocument.Tight` — no white space at the places where the format has no blank;
* `Monitor.ConfigDocument.reached_text` — the values that the scan comes to;
* `Monitor.setConfiguration_text` — **what `set_configuration` does with a text of a document**;
* `Monitor.layout_iff` — **when the layout does not matter**.
-/

import MetricsMonitor.ConfigFile
import MetricsMonitor.PlacedTokens

set_option relaxedAutoImplicit false
set_option autoImplicit false

namespace Monitor

open FormattedInput

/-! ### Texts of a document -/

/-- The white space of JSON. -/
inductive JsonSpace
  | blank
  | tab
  | newline
  | carriageReturn
  deriving DecidableEq

/-- The byte. -/
def JsonSpace.char : JsonSpace → Char
  | blank => ' '
  | tab => '\t'
  | newline => '\n'
  | carriageReturn => '\r'

/-- White space between two tokens. -/
abbrev Gap := List JsonSpace

/-- The bytes. -/
def Gap.text (g : Gap) : List Char := g.map JsonSpace.char

/-- The tokens of a configuration. -/
inductive JsonToken
  | openBrace
  | closeBrace
  | colon
  | comma
  | key (name : String)
  | number (n : UInt8)
  | bool (b : Bool)
  deriving DecidableEq

/-- The words for the two values of a switch. -/
def word (b : Bool) : List Char := if b then "true".toList else "false".toList

/-- The bytes of a token. -/
def JsonToken.text : JsonToken → List Char
  | openBrace => [Char.ofNat 0x7b]
  | closeBrace => [Char.ofNat 0x7d]
  | colon => [':']
  | comma => [',']
  | key name => '"' :: (name.toList ++ ['"'])
  | number n => decimal n.toNat
  | bool b => word b

/-- A configuration: the interval and the five switches. -/
structure ConfigDocument where
  interval : UInt8
  switches : Fin 5 → Bool

/-- The white space in front of each token, numbered from 0; number 29 is what stands after the
last token. -/
abbrev Layout := ℕ → Gap

/-- A row of tokens, the first of which has this number, and the white space after it. -/
def render (l : Layout) : ℕ → List JsonToken → List Char
  | k, [] => (l k).text
  | k, t :: ts => (l k).text ++ (t.text ++ render l (k + 1) ts)

namespace ConfigDocument

/-- The tokens of a configuration. -/
def tokens (d : ConfigDocument) : List JsonToken :=
  [.openBrace, .key "update_interval", .colon, .number d.interval, .comma,
    .key "metrics", .colon, .openBrace,
    .key "cpu", .colon, .bool (d.switches 0), .comma,
    .key "mem", .colon, .bool (d.switches 1), .comma,
    .key "hdd", .colon, .bool (d.switches 2), .comma,
    .key "net", .colon, .bool (d.switches 3), .comma,
    .key "procs", .colon, .bool (d.switches 4),
    .closeBrace, .closeBrace]

/-- A text of the document. -/
def text (d : ConfigDocument) (l : Layout) : List Char := render l 0 d.tokens

/-- The six values of the document. -/
def config (d : ConfigDocument) : Config :=
  Fin.cons d.interval fun i => if d.switches i then 1 else 0

/-- **No white space in front of the first brace, a colon or a comma.** -/
def Tight (d : ConfigDocument) (l : Layout) : Prop :=
  l 0 = [] ∧ ∀ p ∈ d.tokens.zipIdx, p.1 = .colon ∨ p.1 = .comma → l p.2 = []

end ConfigDocument

/-! ### The tokens against the format -/

theorem isSpace_of_mem_gap {g : Gap} : ∀ c ∈ g.text, isSpace c = true := by
  intro c hc
  obtain ⟨s, -, rfl⟩ := List.mem_map.1 hc
  cases s with
  | blank | tab | newline | carriageReturn => rfl

theorem text_eq_nil_iff {g : Gap} : g.text = [] ↔ g = [] := List.map_eq_nil_iff

theorem head?_decimal (n : ℕ) : ∀ c ∈ (decimal n).head?, isSpace c = false := by
  intro c hc
  exact isSpace_of_isDigit (isDigit_of_mem_decimal (List.mem_of_mem_head? hc))

namespace JsonToken

theorem text_ne_nil (t : JsonToken) : t.text ≠ [] := by
  cases t with
  | number n => exact decimal_ne_nil _
  | bool b => cases b <;> simp [text, word]
  | openBrace | closeBrace | colon | comma | key => simp [text]

theorem head?_text (t : JsonToken) : ∀ c ∈ t.text.head?, isSpace c = false := by
  cases t with
  | number n => exact head?_decimal _
  | bool b => cases b <;> simp [text, word, isSpace]
  | openBrace | closeBrace | colon | comma | key => simp [text, isSpace]

/-- A token after some white space, which the format skips or does not. -/
def placed (t : JsonToken) (skips : Bool) (g : Gap) : Placed :=
  ⟨skips, g.text, t.text, isSpace_of_mem_gap, t.text_ne_nil, t.head?_text⟩

@[simp] theorem accepted_placed (t : JsonToken) (skips : Bool) (g : Gap) :
    (t.placed skips g).accepted = true ↔ skips = true ∨ g = [] := by
  simp [placed, Placed.accepted, text_eq_nil_iff]

@[simp] theorem rendered_placed (t : JsonToken) (skips : Bool) (g : Gap) :
    (t.placed skips g).rendered = g.text ++ t.text := rfl

end JsonToken

/-- A row of tokens in a format: whether there is a blank in front, and the token. -/
def rowDirectives (row : List (Bool × JsonToken)) : List Directive :=
  row.flatMap fun p => tokenDirectives p.1 p.2.text

theorem intervalFormat_eq :
    intervalFormat = rowDirectives
      [(false, .openBrace), (true, .key "update_interval"), (false, .colon)] := by
  decide +kernel

theorem keyFormats_eq :
    keyFormats =
      [[(false, .comma), (true, .key "metrics"), (false, .colon), (true, .openBrace),
          (true, .key "cpu"), (false, .colon)],
        [(false, .comma), (true, .key "mem"), (false, .colon)],
        [(false, .comma), (true, .key "hdd"), (false, .colon)],
        [(false, .comma), (true, .key "net"), (false, .colon)],
        [(false, .comma), (true, .key "procs"), (false, .colon)]].map
      fun row => rowDirectives row ++ [.space] := by
  decide +kernel

/-! ### The switches in a text -/

/-- The text is empty or starts outside of a set of bytes. -/
def StartsOutside (p : Char → Bool) (s : List Char) : Prop := ∀ c ∈ s.head?, p c = false

theorem startsOutside_gap {p : Char → Bool} (hspace : ∀ s : JsonSpace, p s.char = false) (g : Gap)
    {rest : List Char} (hrest : StartsOutside p rest) : StartsOutside p (g.text ++ rest) := by
  cases g with
  | nil => exact hrest
  | cons s g =>
      intro c hc
      obtain rfl : s.char = c := by simpa [Gap.text] using hc
      exact hspace s

theorem letters_contains_char (s : JsonSpace) : letters.contains s.char = false := by
  cases s with
  | blank | tab | newline | carriageReturn => rfl

theorem isDigit_char (s : JsonSpace) : s.char.isDigit = false := by
  cases s with
  | blank | tab | newline | carriageReturn => rfl

theorem word_ne_nil (b : Bool) : word b ≠ [] := (JsonToken.bool b).text_ne_nil

/-- A conversion of a value takes its word. -/
theorem span_word (b : Bool) {rest : List Char} (hrest : StartsOutside letters.contains rest) :
    (word b ++ rest).takeWhile letters.contains = word b ∧
      (word b ++ rest).dropWhile letters.contains = rest := by
  have hword : ∀ c ∈ word b, letters.contains c = true := by
    rw [← List.all_eq_true]
    cases b with
    | true | false => rfl
  rw [List.takeWhile_append_of_pos hword, List.dropWhile_append_of_pos hword]
  cases rest with
  | nil => simp
  | cons c rest =>
      have hc : letters.contains c = false := hrest c rfl
      simp only [List.takeWhile_cons, List.dropWhile_cons, hc, Bool.false_eq_true, if_false,
        List.append_nil, and_self]

/-- A switch in a text: what stands in front of its value, from the comma on, and the value. -/
structure Member where
  /-- In front of the comma. -/
  before : Gap
  keys : List Placed
  /-- In front of the value. -/
  gap : Gap
  value : Bool

namespace Member

variable (m : Member)

/-- The tokens in front of the value. -/
def row : List Placed := JsonToken.comma.placed false m.before :: m.keys

/-- The directives of the format. -/
def format : List Directive := m.row.flatMap Placed.directives ++ [.space]

/-- The switch in the text. -/
def rendered : List Char := m.row.flatMap Placed.rendered ++ (m.gap.text ++ word m.value)

/-- The scan comes to the value. -/
def accepted : Bool := m.row.all Placed.accepted

theorem perform_format (rest : List Char) :
    perform m.format (m.rendered ++ rest) =
      if m.accepted then some ([], word m.value ++ rest) else none := by
  have hhead : ∀ c ∈ (word m.value ++ rest).head?, isSpace c = false :=
    ((JsonToken.bool m.value).placed true m.gap).head?_text_append rest
  have hskip : (m.gap.text ++ (word m.value ++ rest)).dropWhile isSpace = word m.value ++ rest :=
    dropWhile_blanks isSpace_of_mem_gap hhead
  rw [format, rendered, accepted, List.append_assoc, List.append_assoc, perform_append,
    perform_placed]
  cases m.row.all Placed.accepted with
  | true => simp [perform, hskip]
  | false => rfl

/-- A switch starts with white space or its comma. -/
theorem startsOutside {p : Char → Bool} (hspace : ∀ s : JsonSpace, p s.char = false)
    (hcomma : p ',' = false) (rest : List Char) : StartsOutside p (m.rendered ++ rest) := by
  simp only [rendered, row, List.flatMap_cons, JsonToken.rendered_placed, List.append_assoc]
  refine startsOutside_gap hspace m.before ?_
  simp [StartsOutside, JsonToken.text, hcomma]

end Member

/-- **The values that the scan comes to**: those in front of the first white space that the format
does not skip.  The induction is on the switches. -/
theorem reachedBy_members (ms : List Member) {tail : List Char}
    (htail : StartsOutside letters.contains tail) :
    (reachedBy (ms.map Member.format) (ms.flatMap Member.rendered ++ tail)).map token =
      (ms.takeWhile Member.accepted).map fun m => word m.value := by
  induction ms with
  | nil => rfl
  | cons m ms ih =>
      have hrest : StartsOutside letters.contains (ms.flatMap Member.rendered ++ tail) := by
        cases ms with
        | nil => exact htail
        | cons m' ms =>
            rw [List.flatMap_cons, List.append_assoc]
            exact m'.startsOutside letters_contains_char rfl _
      obtain ⟨htake, hdrop⟩ := span_word m.value hrest
      rw [List.map_cons, List.flatMap_cons, List.append_assoc, reachedBy, m.perform_format]
      cases haccepted : m.accepted with
      | true => simp [htake, hdrop, word_ne_nil, haccepted, ih, token]
      | false => simp [haccepted]

/-! ### The parts of a text -/

namespace ConfigDocument

variable (d : ConfigDocument) (l : Layout)

/-- The tokens in front of the number. -/
def head : List Placed :=
  [JsonToken.openBrace.placed false (l 0), (JsonToken.key "update_interval").placed true (l 1),
    JsonToken.colon.placed false (l 2)]

/-- A switch whose comma has number `k`. -/
def member (k : ℕ) (name : String) (i : Fin 5) : Member :=
  ⟨l k, [(JsonToken.key name).placed true (l (k + 1)), JsonToken.colon.placed false (l (k + 2))],
    l (k + 3), d.switches i⟩

/-- The five switches. -/
def members : List Member :=
  [⟨l 4, [(JsonToken.key "metrics").placed true (l 5), JsonToken.colon.placed false (l 6),
      JsonToken.openBrace.placed true (l 7), (JsonToken.key "cpu").placed true (l 8),
      JsonToken.colon.placed false (l 9)], l 10, d.switches 0⟩,
    d.member l 11 "mem" 1, d.member l 15 "hdd" 2, d.member l 19 "net" 3, d.member l 23 "procs" 4]

/-- What follows the last value. -/
def closing : List Char := render l 27 [.closeBrace, .closeBrace]

theorem text_eq : d.text l =
    (head l).flatMap Placed.rendered ++ ((l 3).text ++ decimal d.interval.toNat ++
      ((d.members l).flatMap Member.rendered ++ closing l)) := by
  simp [text, render, tokens, head, members, member, closing, Member.rendered, Member.row,
    JsonToken.text]

theorem flatMap_head : (head l).flatMap Placed.directives = intervalFormat := by
  rw [intervalFormat_eq]
  rfl

theorem map_members : (d.members l).map Member.format = keyFormats := by
  rw [keyFormats_eq]
  rfl

/-- No white space ends the scan exactly when the layout is tight. -/
theorem tight_iff : d.Tight l ↔
    (head l).all Placed.accepted = true ∧ ∀ m ∈ d.members l, m.accepted = true := by
  simp [Tight, tokens, List.zipIdx, head, members, member, Member.accepted, Member.row, and_assoc]

/-! ### What the scan reads -/

theorem startsOutside_closing {p : Char → Bool} (hspace : ∀ s : JsonSpace, p s.char = false)
    (hbrace : p (Char.ofNat 0x7d) = false) : StartsOutside p (closing l) := by
  refine startsOutside_gap hspace (l 27) ?_
  simp [StartsOutside, JsonToken.text, hbrace]

/-- The text after the number does not go on with a digit. -/
theorem endsNumber_members :
    EndsNumber ((d.members l).flatMap Member.rendered ++ closing l) := by
  rw [members, List.flatMap_cons, List.append_assoc]
  exact Member.startsOutside _ isDigit_char rfl _

/-- The text at the number, when the scan comes to it. -/
theorem intervalText_text : intervalText (d.text l) =
    if (head l).all Placed.accepted then
      some ((l 3).text ++ decimal d.interval.toNat ++
        ((d.members l).flatMap Member.rendered ++ closing l))
    else none := by
  rw [intervalText, text_eq, ← flatMap_head l, perform_placed]
  split
  · rfl
  · rfl

/-- The number is read as it is printed. -/
theorem integerAt_text :
    let rest := (d.members l).flatMap Member.rendered ++ closing l
    let t := ((l 3).text ++ decimal d.interval.toNat ++ rest).dropWhile isSpace
    integerAt t = some (d.interval.toNat : ℤ) ∧ afterInteger t = rest := by
  intro rest t
  have ht : t = decimal d.interval.toNat ++ rest := by
    have hhead := ((JsonToken.number d.interval).placed true (l 3)).head?_text_append rest
    change ((l 3).text ++ decimal d.interval.toNat ++ rest).dropWhile isSpace = _
    rw [List.append_assoc]
    exact dropWhile_blanks isSpace_of_mem_gap hhead
  have hdigits := integerAt_digits (decimal_ne_nil d.interval.toNat)
    (fun c => isDigit_of_mem_decimal) (d.endsNumber_members l)
  rw [digitsValue_decimal] at hdigits
  rw [ht]
  exact hdigits

theorem readInterval_text : readInterval (d.text l) =
    if (head l).all Placed.accepted then some (d.interval.toNat : ℤ) else none := by
  rw [readInterval, intervalText_text]
  split
  · exact (d.integerAt_text l).1
  · rfl

/-- **The values that the scan comes to.** -/
theorem reached_text : (reached (d.text l)).map token =
    if (head l).all Placed.accepted then
      ((d.members l).takeWhile Member.accepted).map fun m => word m.value
    else [] := by
  rw [reached, intervalText_text]
  cases (head l).all Placed.accepted with
  | true =>
      obtain ⟨hinteger, hafter⟩ := d.integerAt_text l
      simp only [hinteger, hafter, Option.isSome_some, if_true]
      rw [← d.map_members l, reachedBy_members]
      exact startsOutside_closing l letters_contains_char rfl
  | false => rfl

/-- The texts that the scan stores: no value is empty. -/
theorem configTexts_text : configTexts (d.text l) =
    if (head l).all Placed.accepted then
      ((d.members l).takeWhile Member.accepted).map fun m => word m.value
    else [] := by
  rw [configTexts, reached_text]
  split
  · refine List.filter_eq_self.2 fun s hs => ?_
    obtain ⟨m, -, rfl⟩ := List.mem_map.1 hs
    simpa using word_ne_nil m.value
  · rfl

theorem length_word_le (b : Bool) : (word b).length ≤ 5 := by
  cases b with
  | true | false => simp [word]

/-- The values of a text fit in their slots. -/
theorem short_configTexts : ∀ s ∈ configTexts (d.text l), s.length ≤ 5 := by
  rw [configTexts_text]
  intro s hs
  split at hs
  · obtain ⟨m, -, rfl⟩ := List.mem_map.1 hs
    exact length_word_le m.value
  · simp at hs

/-- In a tight layout the five words are stored. -/
theorem configTexts_of_tight (h : d.Tight l) :
    configTexts (d.text l) = List.ofFn fun i => word (d.switches i) := by
  obtain ⟨hhead, hmembers⟩ := (d.tight_iff l).1 h
  rw [configTexts_text, if_pos hhead, List.takeWhile_eq_self_iff.2 hmembers]
  simp [members, member, List.ofFn_succ]

/-- Five values are stored only in a tight layout. -/
theorem length_configTexts_iff : (configTexts (d.text l)).length = 5 ↔ d.Tight l := by
  constructor
  · intro h
    rw [configTexts_text] at h
    split at h
    · rename_i hhead
      rw [List.length_map] at h
      have hall := (List.takeWhile_prefix Member.accepted).eq_of_length
        (h.trans (rfl : 5 = (d.members l).length))
      exact (d.tight_iff l).2 ⟨hhead, List.takeWhile_eq_self_iff.1 hall⟩
    · simp at h
  · intro h
    rw [d.configTexts_of_tight l h, List.length_ofFn]

end ConfigDocument

/-! ### The function on a text -/

variable (d : ConfigDocument) (l : Layout)

/-- The entry of a switch, from the word in its slot. -/
theorem convertValue_word {temp : Temp} {config : Config} {i : Fin 5} {b : Bool}
    (h : temp.text i = word b) :
    convertValue temp config i i.succ = if b then 1 else 0 := by
  rw [convertValue, h]
  cases b with
  | true => simp [word]
  | false => simp [word]

/-- **What `set_configuration` does with a text of a document**: in a tight layout it takes over the
six values, and in any other it reports the file as wrongly parsed. -/
theorem setConfiguration_text (temp : Temp) (config : Config) :
    (d.Tight l → setConfiguration temp config (some (d.text l)) = .returned none d.config) ∧
    (¬ d.Tight l → setConfiguration temp config (some (d.text l)) =
      .returned (some wronglyParsed) (configRead (d.text l) config)) := by
  obtain ⟨temp', hstore⟩ := Option.isSome_iff_exists.1
    ((Temp.isSome_storeTexts _ temp).2 (fits_of_short (d.short_configTexts l)))
  rw [setConfiguration_eq, hstore]
  dsimp only
  constructor
  · intro h
    rw [if_pos ((d.length_configTexts_iff l).2 h)]
    congr 1
    funext e
    cases e using Fin.cases with
    | zero =>
        have hbyte : storedByte (d.interval.toNat : ℤ) = d.interval := by
          have hlt := d.interval.toNat_lt
          have hrange := (storedByte_eq_iff (d.interval.toNat : ℤ)).2 (by omega)
          exact UInt8.toNat_inj.1 (by exact_mod_cast hrange)
        rw [convertValues_zero, configRead, d.readInterval_text l,
          if_pos ((d.tight_iff l).1 h).1]
        simpa [ConfigDocument.config] using hbyte
    | succ i =>
        have hget : (configTexts (d.text l))[i.val]? = some (word (d.switches i)) := by
          rw [d.configTexts_of_tight l h, List.getElem?_ofFn]
          exact dif_pos i.isLt
        have htext := Temp.text_storeTexts hstore hget (ConfigDocument.length_word_le _)
          (nul_notMem_of_configTexts (List.mem_of_getElem? hget))
        rw [Nat.zero_add] at htext
        rw [convertValues_succ, convertValue_word htext]
        simp [ConfigDocument.config]
  · intro h
    rw [if_neg (mt (d.length_configTexts_iff l).1 h)]

/-- Two texts of a document have the same result, whatever `temp` holds before: both are accepted,
and both leave the six values of the document. -/
structure SameResult (d : ConfigDocument) (l l' : Layout) (temp temp' : Temp) (config : Config) :
    Prop where
  first : setConfiguration temp config (some (d.text l)) = .returned none d.config
  second : setConfiguration temp' config (some (d.text l')) = .returned none d.config

/-- A text is accepted with the values of its document exactly when its layout is tight. -/
theorem setConfiguration_text_iff (temp : Temp) (config : Config) :
    setConfiguration temp config (some (d.text l)) = .returned none d.config ↔ d.Tight l := by
  constructor
  · intro h
    by_contra hnot
    rw [(setConfiguration_text d l temp config).2 hnot] at h
    simp at h
  · exact (setConfiguration_text d l temp config).1

/-- **When the layout does not matter**: exactly when neither text has white space in front of its
first brace, a colon or a comma. -/
theorem layout_iff (d : ConfigDocument) (l l' : Layout) (temp temp' : Temp) (config : Config) :
    SameResult d l l' temp temp' config ↔ d.Tight l ∧ d.Tight l' := by
  rw [← setConfiguration_text_iff d l temp config, ← setConfiguration_text_iff d l' temp' config]
  exact ⟨fun h => ⟨h.first, h.second⟩, fun h => ⟨h.1, h.2⟩⟩

/-- All switches on, every second. -/
def everySecond : ConfigDocument := ⟨1, fun _ => true⟩

/-- The file starts with an empty line. -/
def emptyLine : Layout := fun k => if k = 0 then [.newline] else []

theorem layout_matters :
    ¬ ∀ (d : ConfigDocument) (l l' : Layout) (temp temp' : Temp) (config : Config),
      SameResult d l l' temp temp' config := by
  intro h
  have hsame := h everySecond (fun _ => []) emptyLine .blank .blank defaultConfig
  have htight := (setConfiguration_text_iff everySecond emptyLine ..).1 hsame.second
  have hempty : emptyLine 0 = [] := htight.1
  simp [emptyLine] at hempty

end Monitor
