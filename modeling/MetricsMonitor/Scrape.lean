/-
**Scrapes against updates.**

A scrape reads the registered gauges one after another while the main loop sets them one after
another.  The mutex `lock` is taken once per gauge, and only by the main loop, so nothing keeps the
two loops from passing each other inside a group.  The machine of this module interleaves the
update functions, step by step, with scrapes; it records for each gauge which successful result of
its reader was the latest one when the gauge was set, and the order in which gauges are set and
read.

* `Monitor.scrapes`, `Monitor.scrape_move` — the machine, and what a step can do;
* `Monitor.scrapeInv_step` — the invariant: every gauge holds the latest result of its reader, or
  the one before while it is still to be set;
* `Monitor.InStep` — the condition on the order of the steps: scrape and update do not pass each
  other inside a group;
* `Monitor.ScrapeInv.origin_eq_iff` — what that order has to do with results;
* `Monitor.scrape_iff` — **the reports of a run never mix results exactly when no scrape and
  update pass each other**;
* `Monitor.scrape_mixed` — a run in which a scrape reports a total and a used amount of memory that
  come from different results.
-/

import MetricsMonitor.Machine
import MetricsMonitor.Sampling

set_option relaxedAutoImplicit false
set_option autoImplicit false

namespace Monitor

/-! ### The gauges of an update function -/

/-- The gauges still to be set. -/
def dueGauges (todo : List WriterAction) : List Gauge :=
  todo.filterMap fun
    | .set q _ => some q
    | _ => none

theorem dueGauges_writerActions (g : Group) (usage : Fin g.size → ℚ) :
    dueGauges (writerActions g usage) = g.gauges := by
  rw [dueGauges, writerActions, List.filterMap_flatMap, Group.gauges]
  induction List.finRange g.size with
  | nil => rfl
  | cons i l ih =>
      rw [List.flatMap_cons, ih]
      rfl

/-- Both loops come to the first gauge before they come to the second one of its group. -/
def Gauge.Before (q r : Gauge) : Prop := q.1 = r.1 ∧ (q.2 : ℕ) < r.2

theorem Gauge.Before.ne {q r : Gauge} (h : q.Before r) : q ≠ r := by
  rintro rfl
  exact absurd h.2 (lt_irrefl _)

theorem Gauge.Before.trans {p q r : Gauge} (h : p.Before q) (h' : q.Before r) : p.Before r :=
  ⟨h.1.trans h'.1, h.2.trans h'.2⟩

theorem Group.pairwise_gauges (g : Group) : g.gauges.Pairwise Gauge.Before := by
  rw [Group.gauges, List.pairwise_map]
  exact (List.pairwise_lt_finRange g.size).imp fun h => ⟨rfl, h⟩

/-- A scrape reads the gauges of a group in the order of its array. -/
theorem Config.pairwise_gauges (config : Config) :
    config.gauges.Pairwise fun q r => q.1 = r.1 → q.Before r := by
  have hgroups : config.groups.Nodup := List.Nodup.filter _ (by decide)
  refine List.pairwise_flatMap.2 ⟨fun g _ => ?_, hgroups.imp ?_⟩
  · exact g.pairwise_gauges.imp (fun h => fun _ => h)
  · intro g g' hne q hq r hr hqr
    exact absurd ((Group.mem_gauges.1 hq).symm.trans (hqr.trans (Group.mem_gauges.1 hr))) hne

/-- Gauges still to be set, up to the last one of their group. -/
structure InOrder (due : List Gauge) : Prop where
  pairwise : due.Pairwise Gauge.Before
  closed : ∀ q ∈ due, ∀ r, q.Before r → r ∈ due

theorem inOrder_gauges (g : Group) : InOrder g.gauges where
  pairwise := g.pairwise_gauges
  closed _ hq _ hr := Group.mem_gauges.2 (hr.1.symm.trans (Group.mem_gauges.1 hq))

theorem InOrder.nodup {due : List Gauge} (h : InOrder due) : due.Nodup :=
  h.pairwise.imp Gauge.Before.ne

theorem InOrder.tail {q : Gauge} {due : List Gauge} (h : InOrder (q :: due)) : InOrder due where
  pairwise := h.pairwise.of_cons
  closed p hp r hr := by
    have hqp : q.Before p := List.rel_of_pairwise_cons h.pairwise hp
    rcases List.mem_cons.1 (h.closed p (List.mem_cons_of_mem q hp) r hr) with rfl | hmem
    · exact absurd rfl (hqp.trans hr).ne
    · exact hmem

/-! ### The machine -/

/-- A reported sample: the gauge, its value and the number of the result it comes from; and where
the main thread stood when the gauge was read. -/
structure Reading where
  gauge : Gauge
  value : ℚ
  origin : ℕ
  /-- The gauges that the main thread had still to set. -/
  due : List Gauge
  /-- How many gauges the main thread had set since the start. -/
  seen : ℕ
  deriving DecidableEq

/-- The process while it updates and serves. -/
structure Scrape where
  globals : Globals
  /-- What is left of the update function being executed. -/
  todo : List WriterAction
  /-- Whether the main thread holds `lock`. -/
  held : Bool
  /-- The successful results of each reader so far. -/
  history : (g : Group) → List (Fin g.size → ℚ)
  /-- The number of the result each gauge was set to, 0 before the first. -/
  origin : Gauge → ℕ
  /-- The gauges that the main thread has set, in their order. -/
  sets : List Gauge
  /-- The gauges the scrape has still to read. -/
  toRead : List Gauge
  /-- The samples the scrape has reported so far. -/
  report : List Reading

/-- The steps: an update function is called and its reader returns, the main thread executes the
next step of it, a scrape starts, the scrape reads its next gauge. -/
inductive ScrapeLabel
  | update (c : Call)
  | main
  | scrape
  | read

namespace Scrape

/-- The state after `init_metrics`. -/
def start (globals : Globals) : Scrape :=
  ⟨globals, [], false, fun _ => [], fun _ => 0, [], [], []⟩

/-- An update function is called; after a success the status is written and the gauges follow. -/
def update (c : Call) (s : Scrape) : Scrape :=
  match c.result with
  | none => s
  | some usage =>
      { s with
        globals := { s.globals with gStatus := c.group.track usage s.globals.gStatus }
        history := Function.update s.history c.group (s.history c.group ++ [usage])
        todo := writerActions c.group usage }

/-- The main thread executes the next step of an update function. -/
def mainStep (s : Scrape) : Option Scrape :=
  match s.todo with
  | [] => none
  | .lock :: todo => if s.held then none else some { s with todo := todo, held := true }
  | .set q value :: todo =>
      some { s with
        todo := todo
        globals := setGauge q value s.globals
        origin := Function.update s.origin q (s.history q.1).length
        sets := s.sets ++ [q] }
  | .unlock :: todo => some { s with todo := todo, held := false }

/-- The sample of a gauge, as a scrape finds it; a gauge that was never set has none. -/
def sample (s : Scrape) (q : Gauge) : Option ℚ := (s.globals.prom.exposed q.name).bind (·.sample)

/-- The scrape reads its next gauge. -/
def readStep (s : Scrape) : Option Scrape :=
  match s.toRead with
  | [] => none
  | q :: toRead =>
      match s.sample q with
      | none => some { s with toRead := toRead }
      | some x =>
          some { s with
            toRead := toRead
            report := ⟨q, x, s.origin q, dueGauges s.todo, s.sets.length⟩ :: s.report }

end Scrape

/-- The main loop, with the required groups in any order, and scrapes. -/
def scrapes (config : Config) : Machine Scrape ScrapeLabel where
  init s := ∃ works globals, initMetrics works config = (.success, globals) ∧ s = .start globals
  step s
    | .update c =>
        if s.todo.isEmpty && config.enabled c.group then some (s.update c) else none
    | .main => s.mainStep
    | .scrape =>
        if s.toRead.isEmpty then some { s with toRead := config.gauges, report := [] } else none
    | .read => s.readStep

/-- What a step can do. -/
inductive Scrape.Move (config : Config) (s : Scrape) : ScrapeLabel → Scrape → Prop
  | update (c : Call) (htodo : s.todo = []) (hc : config.enabled c.group = true) :
      Move config s (.update c) (s.update c)
  | lock (todo : List WriterAction) (htodo : s.todo = .lock :: todo) :
      Move config s .main { s with todo := todo, held := true }
  | set (q : Gauge) (value : ℚ) (todo : List WriterAction) (htodo : s.todo = .set q value :: todo) :
      Move config s .main
        { s with
          todo := todo
          globals := setGauge q value s.globals
          origin := Function.update s.origin q (s.history q.1).length
          sets := s.sets ++ [q] }
  | unlock (todo : List WriterAction) (htodo : s.todo = .unlock :: todo) :
      Move config s .main { s with todo := todo, held := false }
  | scrape (hread : s.toRead = []) :
      Move config s .scrape { s with toRead := config.gauges, report := [] }
  /-- A gauge that was never set is passed over. -/
  | skip (q : Gauge) (toRead : List Gauge) (hread : s.toRead = q :: toRead)
      (hsample : s.sample q = none) : Move config s .read { s with toRead := toRead }
  | report (q : Gauge) (toRead : List Gauge) (x : ℚ) (hread : s.toRead = q :: toRead)
      (hsample : s.sample q = some x) :
      Move config s .read
        { s with
          toRead := toRead
          report := ⟨q, x, s.origin q, dueGauges s.todo, s.sets.length⟩ :: s.report }

/-- **Every step is one of these moves.** -/
theorem scrape_move {config : Config} {s t : Scrape} {l : ScrapeLabel}
    (h : (scrapes config).step s l = some t) : s.Move config l t := by
  cases l with
  | update c =>
      simp only [scrapes] at h
      split at h
      · rename_i hc
        rw [Bool.and_eq_true, List.isEmpty_iff] at hc
        obtain rfl := Option.some_inj.1 h
        exact .update c hc.1 hc.2
      · simp at h
  | main =>
      simp only [scrapes, Scrape.mainStep] at h
      split at h
      · simp at h
      · rename_i todo htodo
        split at h
        · simp at h
        · obtain rfl := Option.some_inj.1 h
          exact .lock todo htodo
      · rename_i q x todo htodo
        obtain rfl := Option.some_inj.1 h
        exact .set q x todo htodo
      · rename_i todo htodo
        obtain rfl := Option.some_inj.1 h
        exact .unlock todo htodo
  | scrape =>
      simp only [scrapes] at h
      split at h
      · rename_i hread
        obtain rfl := Option.some_inj.1 h
        exact .scrape (List.isEmpty_iff.1 hread)
      · simp at h
  | read =>
      simp only [scrapes, Scrape.readStep] at h
      split at h
      · simp at h
      · rename_i q toRead hread
        split at h
        · rename_i hsample
          obtain rfl := Option.some_inj.1 h
          exact .skip q toRead hread hsample
        · rename_i x hsample
          obtain rfl := Option.some_inj.1 h
          exact .report q toRead x hread hsample

/-! ### The invariant -/

/-- The value of a gauge that holds result number `n` of its reader. -/
def valueOf (history : (g : Group) → List (Fin g.size → ℚ)) (q : Gauge) (n : ℕ) : Option ℚ :=
  if n = 0 then none else ((history q.1)[n - 1]?).map (· q.2)

/-- Where the main thread stood at a reading: the gauges of one group had been set equally often,
but for those still to be set. -/
structure Reading.Placed (sets : List Gauge) (r : Reading) : Prop where
  seen : r.seen ≤ sets.length
  origin : r.origin = (sets.take r.seen).count r.gauge
  level : ∀ q : Gauge, r.gauge.1 = q.1 → (sets.take r.seen).count q + (if q ∈ r.due then 1 else 0) =
    r.origin + if r.gauge ∈ r.due then 1 else 0
  closed : ∀ p ∈ r.due, ∀ q, p.Before q → q ∈ r.due

theorem Reading.Placed.append {sets : List Gauge} {r : Reading} (h : r.Placed sets) (q : Gauge) :
    r.Placed (sets ++ [q]) := by
  have htake : (sets ++ [q]).take r.seen = sets.take r.seen := List.take_append_of_le_length h.seen
  refine ⟨?_, htake ▸ h.origin, htake ▸ h.level, h.closed⟩
  rw [List.length_append]
  exact Nat.le_add_right_of_le h.seen

/-- **The invariant.**  A gauge holds the latest result of its reader, or the one before as long
as it is still to be set; what was reported is what the gauge held. -/
structure ScrapeInv (config : Config) (s : Scrape) : Prop where
  shape : Shape config.gauges (fun q => valueOf s.history q (s.origin q))
    (config.gauges.map config.gauges.idxOf) s.globals
  due : ∀ q x, .set q x ∈ s.todo → q ∈ config.gauges ∧
    valueOf s.history q (s.history q.1).length = some x
  origin : ∀ q, s.origin q + (if q ∈ dueGauges s.todo then 1 else 0) = (s.history q.1).length
  toRead : ∀ q ∈ s.toRead, q ∈ config.gauges
  report : ∀ r ∈ s.report, valueOf s.history r.gauge r.origin = some r.value
  order : InOrder (dueGauges s.todo)
  count : ∀ q, s.origin q = s.sets.count q
  placed : ∀ r ∈ s.report, r.Placed s.sets
  reading : s.toRead.Pairwise fun q r => q.1 = r.1 → q.Before r
  ahead : ∀ r ∈ s.report, ∀ q ∈ s.toRead, r.gauge.1 = q.1 → r.gauge.Before q

theorem valueOf_eq_some {history : (g : Group) → List (Fin g.size → ℚ)} {q : Gauge} {n : ℕ}
    {x : ℚ} : valueOf history q n = some x ↔
      0 < n ∧ ∃ usage, (history q.1)[n - 1]? = some usage ∧ usage q.2 = x := by
  rw [valueOf]
  split
  · rename_i h
    simp [h]
  · rename_i h
    rw [Option.map_eq_some_iff]
    simp [Nat.pos_of_ne_zero h]

/-- A further result does not change the values of the earlier ones. -/
theorem valueOf_append {history : (g : Group) → List (Fin g.size → ℚ)} {g : Group}
    (usage : Fin g.size → ℚ) {q : Gauge} {n : ℕ} (hn : n ≤ (history q.1).length) :
    valueOf (Function.update history g (history g ++ [usage])) q n = valueOf history q n := by
  obtain ⟨g', j⟩ := q
  by_cases hg : g' = g
  · subst hg
    rw [valueOf, valueOf]
    split
    · rfl
    · rename_i h0
      rw [Function.update_self, List.getElem?_append_left]
      have hn' : n ≤ (history g').length := hn
      omega
  · rw [valueOf, valueOf, Function.update_of_ne hg]

theorem le_of_valueOf {history : (g : Group) → List (Fin g.size → ℚ)} {q : Gauge} {n : ℕ} {x : ℚ}
    (h : valueOf history q n = some x) : n ≤ (history q.1).length := by
  obtain ⟨hn, usage, husage, -⟩ := valueOf_eq_some.1 h
  have := (List.getElem?_eq_some_iff.1 husage).1
  omega

namespace ScrapeInv

variable {config : Config} {s t : Scrape}

theorem start {works : InitAction → Bool} {globals : Globals}
    (h : initMetrics works config = (.success, globals)) : ScrapeInv config (.start globals) where
  shape := initMetrics_shape h
  due _ _ h := absurd h List.not_mem_nil
  origin _ := rfl
  toRead _ h := absurd h List.not_mem_nil
  report _ h := absurd h List.not_mem_nil
  order := ⟨List.Pairwise.nil, fun _ h => absurd h List.not_mem_nil⟩
  count _ := rfl
  placed _ h := absurd h List.not_mem_nil
  reading := List.Pairwise.nil
  ahead _ h := absurd h List.not_mem_nil

/-- What a scrape finds in a registered gauge. -/
theorem sample_eq (h : ScrapeInv config s) {q : Gauge} (hq : q ∈ config.gauges) :
    s.sample q = valueOf s.history q (s.origin q) := by
  rw [Scrape.sample, h.shape.exposed hq]
  rfl

theorem gauge_of_head (h : ScrapeInv config s) {q : Gauge} {toRead : List Gauge}
    (hread : s.toRead = q :: toRead) : q ∈ config.gauges :=
  h.toRead q (by rw [hread]; exact List.mem_cons_self ..)

theorem gauge_of_tail (h : ScrapeInv config s) {q : Gauge} {toRead : List Gauge}
    (hread : s.toRead = q :: toRead) : ∀ r ∈ toRead, r ∈ config.gauges := by
  intro r hr
  exact h.toRead r (by rw [hread]; exact List.mem_cons_of_mem q hr)

/-- A new result: the gauges of its group are to be set, the others are untouched. -/
theorem update (h : ScrapeInv config s) (htodo : s.todo = []) {c : Call}
    (hc : config.enabled c.group = true) : ScrapeInv config (s.update c) := by
  rw [Scrape.update]
  cases hres : c.result with
  | none => exact h
  | some usage =>
      have horigin : ∀ q, s.origin q = (s.history q.1).length := by
        intro q
        have hq := h.origin q
        rw [htodo] at hq
        exact hq
      have hvalue : (fun q => valueOf (Function.update s.history c.group
          (s.history c.group ++ [usage])) q (s.origin q)) =
          fun q => valueOf s.history q (s.origin q) := by
        funext q
        exact valueOf_append usage (horigin q).le
      refine ⟨?_, ?_, ?_, h.toRead, ?_, ?_, h.count, h.placed, h.reading, h.ahead⟩
      · simp only [hvalue]
        exact ⟨h.shape.metrics, h.shape.slots, h.shape.registry, h.shape.registries⟩
      · intro q x hmem
        simp only [writerActions, List.mem_flatMap, List.mem_finRange, true_and, List.mem_cons,
          reduceCtorEq, false_or, List.not_mem_nil, or_false, WriterAction.set.injEq] at hmem
        obtain ⟨i, rfl, rfl⟩ := hmem
        refine ⟨Config.mem_gauges.2 hc, valueOf_eq_some.2 ⟨?_, usage, ?_, rfl⟩⟩
        · simp
        · simp
      · intro q
        simp only [dueGauges_writerActions, Group.mem_gauges, horigin]
        obtain ⟨g, j⟩ := q
        by_cases hg : g = c.group
        · subst hg
          simp
        · simp [hg]
      · intro r hr
        have hvalue := h.report r hr
        rw [← hvalue]
        exact valueOf_append usage (le_of_valueOf hvalue)
      · rw [dueGauges_writerActions]
        exact inOrder_gauges c.group

/-- The main thread takes or releases the mutex. -/
theorem of_todo (h : ScrapeInv config s) {a : WriterAction} {todo : List WriterAction} {held : Bool}
    (htodo : s.todo = a :: todo) (ha : dueGauges (a :: todo) = dueGauges todo) :
    ScrapeInv config { s with todo := todo, held := held } :=
  have hdue : dueGauges s.todo = dueGauges todo := by rw [htodo, ha]
  { h with
    due := fun q x hmem => h.due q x (by rw [htodo]; exact List.mem_cons_of_mem _ hmem)
    origin := hdue ▸ h.origin
    order := hdue ▸ h.order }

/-- The main thread sets a gauge to the result it was due for. -/
theorem set (h : ScrapeInv config s) {q : Gauge} {x : ℚ} {todo : List WriterAction}
    (htodo : s.todo = .set q x :: todo) : ScrapeInv config
      { s with
        todo := todo
        globals := setGauge q x s.globals
        origin := Function.update s.origin q (s.history q.1).length
        sets := s.sets ++ [q] } := by
  obtain ⟨hq, hvalue⟩ := h.due q x (by rw [htodo]; exact List.mem_cons_self ..)
  have hdue : dueGauges s.todo = q :: dueGauges todo := by rw [htodo]; rfl
  have horder := h.order
  rw [hdue] at horder
  have hnodup : q ∉ dueGauges todo := (List.nodup_cons.1 horder.nodup).1
  refine ⟨?_, ?_, ?_, h.toRead, h.report, horder.tail, ?_, fun r hr => (h.placed r hr).append q,
    h.reading, h.ahead⟩
  · have hupdate : Function.update (fun q => valueOf s.history q (s.origin q)) q (some x) =
        fun r => valueOf s.history r (Function.update s.origin q (s.history q.1).length r) := by
      funext r
      by_cases hr : r = q
      · subst hr
        rw [Function.update_self, Function.update_self, hvalue]
      · rw [Function.update_of_ne hr, Function.update_of_ne hr]
    have hshape := h.shape.setGauge config.nodup_gauges hq x
    rw [hupdate] at hshape
    exact hshape
  · intro r y hmem
    exact h.due r y (by rw [htodo]; exact List.mem_cons_of_mem _ hmem)
  · intro r
    have hr := h.origin r
    simp only [hdue, List.mem_cons] at hr
    by_cases hrq : r = q
    · subst hrq
      simp [hnodup]
    · simpa [Function.update_of_ne hrq, hrq] using hr
  · -- one more result, one more time that the gauge is set
    intro r
    have hr := h.origin r
    rw [hdue] at hr
    dsimp only
    by_cases hrq : r = q
    · subst hrq
      rw [Function.update_self, List.count_append, ← h.count, List.count_singleton_self, ← hr,
        if_pos (List.mem_cons_self ..)]
    · rw [Function.update_of_ne hrq, List.count_append, h.count,
        List.count_singleton, beq_false_of_ne (Ne.symm hrq)]
      rfl

end ScrapeInv

/-- **Every step keeps the invariant.** -/
theorem scrapeInv_step {config : Config} {s t : Scrape} {l : ScrapeLabel}
    (hI : ScrapeInv config s) (h : (scrapes config).step s l = some t) : ScrapeInv config t := by
  cases scrape_move h with
  | update c htodo hc => exact hI.update htodo hc
  | lock todo htodo => exact hI.of_todo htodo rfl
  | set q x todo htodo => exact hI.set htodo
  | unlock todo htodo => exact hI.of_todo htodo rfl
  | scrape =>
      exact { hI with
        toRead := fun q hq => hq
        report := by simp
        placed := by simp
        reading := config.pairwise_gauges
        ahead := by simp }
  | skip q toRead hread =>
      exact { hI with
        toRead := hI.gauge_of_tail hread
        reading := (hread ▸ hI.reading).of_cons
        ahead := fun r hr p hp => hI.ahead r hr p (hread ▸ List.mem_cons_of_mem q hp) }
  | report q toRead x hread hx =>
      -- what is read is the value the gauge was last set to
      rw [hI.sample_eq (hI.gauge_of_head hread)] at hx
      refine { hI with
        toRead := hI.gauge_of_tail hread
        report := List.forall_mem_cons.2 ⟨hx, hI.report⟩
        placed := List.forall_mem_cons.2 ⟨?_, hI.placed⟩
        reading := (hread ▸ hI.reading).of_cons
        ahead := List.forall_mem_cons.2 ⟨fun p hp => ?_, fun r hr p hp =>
          hI.ahead r hr p (hread ▸ List.mem_cons_of_mem q hp)⟩ }
      · refine ⟨le_rfl, ?_, fun p hp => ?_, hI.order.closed⟩
        · rw [List.take_length, hI.count]
        · dsimp only at hp ⊢
          rw [List.take_length, ← hI.count, hI.origin, hI.origin, hp]
      · exact List.rel_of_pairwise_cons (hread ▸ hI.reading) hp

/-! ### Scrapes and updates that do not pass each other -/

/-- **In step.**  When the scrape reports a gauge after another one of its group, the main thread
has set the second gauge in between exactly once if it stood between the two gauges when the first
one was read, and not at all otherwise: scrape and update have not passed each other. -/
def InStep (s : Scrape) : ScrapeLabel → Prop
  | .read => ∀ q ∈ s.toRead.head?, (s.sample q).isSome = true →
      ∀ r ∈ s.report, r.gauge.1 = q.1 →
        (s.sets.drop r.seen).count q = if r.gauge ∉ r.due ∧ q ∈ r.due then 1 else 0
  | _ => True

instance (s : Scrape) : (l : ScrapeLabel) → Decidable (InStep s l)
  | .read => inferInstanceAs (Decidable (∀ q ∈ s.toRead.head?, (s.sample q).isSome = true →
      ∀ r ∈ s.report, r.gauge.1 = q.1 →
        (s.sets.drop r.seen).count q = if r.gauge ∉ r.due ∧ q ∈ r.due then 1 else 0))
  | .update _ | .main | .scrape => isTrue trivial

/-- **The samples reported for a group come from one result.** -/
def FromOneResult (s : Scrape) : Prop :=
  ∀ g, ∃ n, ∀ r ∈ s.report, r.gauge.1 = g → r.origin = n

/-- **What the order of the steps has to do with results**: the gauge comes from the result of a
sample that was reported before exactly when the main thread has set it in between as often as
it was behind with it. -/
theorem ScrapeInv.origin_eq_iff {config : Config} {s : Scrape} (hI : ScrapeInv config s)
    {r : Reading} (hr : r ∈ s.report) {q : Gauge} (hq : q ∈ s.toRead) (hrq : r.gauge.1 = q.1) :
    r.origin = s.origin q ↔
      (s.sets.drop r.seen).count q = if r.gauge ∉ r.due ∧ q ∈ r.due then 1 else 0 := by
  have hplaced := hI.placed r hr
  have hlevel := hplaced.level q hrq
  have hcount : s.origin q = (s.sets.take r.seen).count q + (s.sets.drop r.seen).count q := by
    rw [hI.count, ← List.count_append, List.take_append_drop]
  by_cases hdue : r.gauge ∈ r.due
  · -- then the second gauge was still to be set, too
    have hq' : q ∈ r.due := hplaced.closed r.gauge hdue q (hI.ahead r hr q hq hrq)
    rw [if_pos hdue, if_pos hq'] at hlevel
    rw [if_neg fun h => h.1 hdue]
    omega
  · rw [if_neg hdue] at hlevel
    by_cases hq' : q ∈ r.due
    · rw [if_pos hq'] at hlevel
      rw [if_pos ⟨hdue, hq'⟩]
      omega
    · rw [if_neg hq'] at hlevel
      rw [if_neg fun h => hq' h.2]
      omega

/-- What reading a gauge adds to the report. -/
theorem report_of_read {config : Config} {s t : Scrape}
    (h : (scrapes config).step s .read = some t) : ∃ q, s.toRead.head? = some q ∧
      (s.sample q = none ∧ t.report = s.report ∨
        (s.sample q).isSome = true ∧ ∃ r : Reading, r.gauge = q ∧ r.origin = s.origin q ∧
          t.report = r :: s.report) := by
  cases scrape_move h with
  | skip q toRead hread hnone => exact ⟨q, by rw [hread]; rfl, Or.inl ⟨hnone, rfl⟩⟩
  | report q toRead x hread hx =>
      exact ⟨q, by rw [hread]; rfl, Or.inr ⟨by rw [hx]; rfl, _, rfl, rfl, rfl⟩⟩

/-- Steps other than a read keep the report or empty it. -/
theorem report_of_step {config : Config} {s t : Scrape} {l : ScrapeLabel}
    (h : (scrapes config).step s l = some t) :
    l = .read ∨ t.report = s.report ∨ t.report = [] := by
  cases scrape_move h with
  | skip | report => exact Or.inl rfl
  | update c =>
      refine Or.inr (Or.inl ?_)
      rw [Scrape.update]
      split <;> rfl
  | lock | set | unlock => exact Or.inr (Or.inl rfl)
  | scrape => exact Or.inr (Or.inr rfl)

/-- **A step in step keeps the report unmixed.** -/
theorem fromOneResult_step {config : Config} {s t : Scrape} {l : ScrapeLabel}
    (hI : ScrapeInv config s) (hone : FromOneResult s) (hl : InStep s l)
    (h : (scrapes config).step s l = some t) : FromOneResult t := by
  rcases report_of_step h with rfl | hreport | hreport
  · obtain ⟨q, hq, ⟨-, hreport⟩ | ⟨hsome, new, rfl, hnew, hreport⟩⟩ := report_of_read h
    · intro g
      rw [hreport]
      exact hone g
    · -- one more sample: of its group when it is in step, of the others nothing changes
      intro g
      by_cases hg : new.gauge.1 = g
      · refine ⟨s.origin new.gauge, fun r hr hrg => ?_⟩
        rw [hreport, List.mem_cons] at hr
        rcases hr with rfl | hr
        · exact hnew
        · have hrq := hrg.trans hg.symm
          exact (hI.origin_eq_iff hr (List.mem_of_head? hq) hrq).2 (hl _ hq hsome r hr hrq)
      · obtain ⟨n, hn⟩ := hone g
        refine ⟨n, fun r hr hrg => ?_⟩
        rw [hreport, List.mem_cons] at hr
        rcases hr with rfl | hr
        · exact absurd hrg hg
        · exact hn r hr hrg
  · intro g
    rw [hreport]
    exact hone g
  · intro g
    refine ⟨0, fun r hr => ?_⟩
    rw [hreport] at hr
    exact absurd hr List.not_mem_nil

/-- **A read out of step mixes two results.** -/
theorem not_fromOneResult_of_step {config : Config} {s t : Scrape} {l : ScrapeLabel}
    (hI : ScrapeInv config s) (hl : ¬ InStep s l) (h : (scrapes config).step s l = some t) :
    ¬ FromOneResult t := by
  cases l with
  | update | main | scrape => exact absurd trivial hl
  | read =>
      intro hone
      refine hl ?_
      intro q hq hsome r hr hrg
      obtain ⟨q', hq', ⟨hnone, -⟩ | ⟨-, new, rfl, hnew, hreport⟩⟩ := report_of_read h
      · obtain rfl := Option.some_inj.1 (hq.symm.trans hq')
        rw [hnone] at hsome
        exact absurd hsome Bool.false_ne_true
      · obtain rfl := Option.some_inj.1 (hq.symm.trans hq')
        obtain ⟨n, hn⟩ := hone new.gauge.1
        have hold := hn r (by rw [hreport]; exact List.mem_cons_of_mem _ hr) hrg
        have hread := hn new (by rw [hreport]; exact List.mem_cons_self ..) rfl
        refine (hI.origin_eq_iff hr (List.mem_of_head? hq) hrg).1 ?_
        rw [hold, ← hnew, hread]

/-- The scrape has reported this value for this gauge. -/
def Scrape.Reports (s : Scrape) (q : Gauge) (x : ℚ) : Prop :=
  ∃ r ∈ s.report, r.gauge = q ∧ r.value = x

/-- Samples of a group that come from one result are components of it. -/
theorem exists_usage_of_fromOneResult {config : Config} {s : Scrape} (hI : ScrapeInv config s)
    (hone : FromOneResult s) {g : Group} {i : Fin g.size} {x : ℚ} (h : s.Reports ⟨g, i⟩ x) :
    ∃ usage ∈ s.history g, ∀ j y, s.Reports ⟨g, j⟩ y → y = usage j := by
  obtain ⟨n, hn⟩ := hone g
  obtain ⟨r, hr, hgauge, rfl⟩ := h
  have hvalue := hI.report r hr
  rw [hgauge, hn r hr (by rw [hgauge])] at hvalue
  obtain ⟨-, usage, husage, -⟩ := valueOf_eq_some.1 hvalue
  refine ⟨usage, List.mem_of_getElem? husage, ?_⟩
  rintro j y ⟨r', hr', hgauge', rfl⟩
  have hvalue' := hI.report r' hr'
  rw [hgauge', hn r' hr' (by rw [hgauge'])] at hvalue'
  obtain ⟨-, usage', husage', hj⟩ := valueOf_eq_some.1 hvalue'
  obtain rfl := Option.some_inj.1 (husage.symm.trans husage')
  exact hj.symm

/-- **When scrapes are consistent.**  Along every run after a successful `init_metrics`, the
samples a scrape has reported for a group come from one result in every state if and only if every
read is in step; what is reported is always the component of the result it is numbered with; and
in step, the memory reported as used and as free add up to the total if every result does. -/
theorem scrape_iff (works : InitAction → Bool) (config : Config) (globals : Globals)
    (hinit : initMetrics works config = (.success, globals)) (ls : List ScrapeLabel) (s : Scrape)
    (hrun : (scrapes config).run (.start globals) ls = some s) :
    ((scrapes config).Throughout FromOneResult (.start globals) ls ↔
      (scrapes config).Along InStep (.start globals) ls) ∧
    (∀ r ∈ s.report, ∃ usage, (s.history r.gauge.1)[r.origin - 1]? = some usage ∧
      r.value = usage r.gauge.2) ∧
    ((scrapes config).Along InStep (.start globals) ls →
      (∀ usage ∈ s.history .memory, usage (1 : Fin 4) + usage (2 : Fin 4) = usage (0 : Fin 4)) →
      ∀ total used free, s.Reports ⟨.memory, (0 : Fin 4)⟩ total →
        s.Reports ⟨.memory, (1 : Fin 4)⟩ used → s.Reports ⟨.memory, (2 : Fin 4)⟩ free →
        used + free = total) := by
  have hstart : ScrapeInv config (.start globals) := .start hinit
  have hone : FromOneResult (.start globals) := fun g => ⟨0, fun r hr => absurd hr List.not_mem_nil⟩
  have hstep : ∀ s l t, ScrapeInv config s ∧ FromOneResult s → InStep s l →
      (scrapes config).step s l = some t → ScrapeInv config t ∧ FromOneResult t :=
    fun s l t hI hl h => ⟨scrapeInv_step hI.1 h, fromOneResult_step hI.1 hI.2 hl h⟩
  have hinv {ls : List ScrapeLabel} {s : Scrape}
      (hrun : (scrapes config).run (.start globals) ls = some s) : ScrapeInv config s :=
    Machine.run_invariant (p := fun _ _ => True) (fun _ _ _ hI _ h => scrapeInv_step hI h) hstart
      (Machine.along_true _ ls) hrun
  refine ⟨⟨?_, ?_⟩, ?_, ?_⟩
  · -- the first read that is out of step leaves a report of two results
    intro hthroughout
    by_contra hcond
    obtain ⟨ls₁, l, ls₂, t, t', rfl, ht, hl, -, hn⟩ := Machine.exists_of_not_along hcond hrun
    refine not_fromOneResult_of_step (hinv ht) hn hl (hthroughout (ls₁ ++ [l]) ls₂ t' (by simp) ?_)
    rw [Machine.run_append ht, Machine.run_singleton, hl]
  · intro hcond ls₁ ls₂ t heq ht
    exact (Machine.throughout_of_along hstep ⟨hstart, hone⟩ hcond hrun ls₁ ls₂ t heq ht).2
  · intro r hr
    obtain ⟨-, usage, husage, hvalue⟩ := valueOf_eq_some.1 ((hinv hrun).report r hr)
    exact ⟨usage, husage, hvalue.symm⟩
  · intro hcond hsum total used free htotal hused hfree
    have hone' : FromOneResult s := (Machine.run_invariant hstep ⟨hstart, hone⟩ hcond hrun).2
    obtain ⟨usage, husage, hall⟩ := exists_usage_of_fromOneResult (hinv hrun) hone' htotal
    rw [hall _ _ htotal, hall _ _ hused, hall _ _ hfree]
    exact hsum usage husage

/-- libprom and the arrays after a successful `init_metrics` for the memory. -/
def memoryGlobals : Globals := (initMetrics (fun _ => true) memoryConfig).2

theorem initMetrics_memory : initMetrics (fun _ => true) memoryConfig = (.success, memoryGlobals) :=
  have hsuccess : (initMetrics (fun _ => true) memoryConfig).1 = .success := by decide +kernel
  Prod.ext hsuccess rfl

/-- Two readings of the memory. -/
def memoryBefore : Call := .memory (some ![16, 10, 6, 125 / 2])
def memoryAfter : Call := .memory (some ![16, 14, 2, 175 / 2])

/-- A scrape between two updates, and one in the middle of an update but in step with it. -/
def inStepRun : List ScrapeLabel :=
  .update memoryBefore :: List.replicate 12 .main ++ .scrape :: List.replicate 4 .read ++
    .update memoryAfter :: List.replicate 6 .main ++ .scrape :: List.replicate 2 .read ++
    List.replicate 6 .main ++ List.replicate 2 .read

/-- A scrape reads two gauges, the next update overtakes it, and it reads the other two. -/
def overtakenRun : List ScrapeLabel :=
  .update memoryBefore :: List.replicate 12 .main ++ .scrape :: List.replicate 2 .read ++
    .update memoryAfter :: List.replicate 12 .main ++ List.replicate 2 .read

/-- In the run in step nothing is mixed. -/
theorem scrape_inStepRun :
    ∃ s, (scrapes memoryConfig).run (.start memoryGlobals) inStepRun = some s ∧
      (scrapes memoryConfig).Throughout FromOneResult (.start memoryGlobals) inStepRun := by
  have hsome : ((scrapes memoryConfig).run (.start memoryGlobals) inStepRun).isSome = true := by
    decide +kernel
  obtain ⟨s, hs⟩ := Option.isSome_iff_exists.1 hsome
  exact ⟨s, hs, (scrape_iff _ memoryConfig memoryGlobals initMetrics_memory inStepRun s hs).1.2
    (by decide +kernel)⟩

/-- **A mixed report.**  The scrape reports the used memory of one result and the free memory of
the next one; they add up to 12, and the total is 16. -/
theorem scrape_mixed :
    ¬ ∀ (works : InitAction → Bool) (config : Config) (globals : Globals),
      initMetrics works config = (.success, globals) → ∀ (ls : List ScrapeLabel) (s : Scrape),
      (scrapes config).run (.start globals) ls = some s → FromOneResult s := by
  intro h
  have hview : ((scrapes memoryConfig).run (.start memoryGlobals) overtakenRun).map
      (fun s => s.report.map fun r => (r.gauge, r.value, r.origin)) =
      some [(⟨.memory, (3 : Fin 4)⟩, 175 / 2, 2), (⟨.memory, (2 : Fin 4)⟩, 2, 2),
        (⟨.memory, (1 : Fin 4)⟩, 10, 1), (⟨.memory, (0 : Fin 4)⟩, 16, 1)] := by decide +kernel
  obtain ⟨s, hs, hreport⟩ := Option.map_eq_some_iff.1 hview
  obtain ⟨n, hn⟩ := h _ memoryConfig memoryGlobals initMetrics_memory overtakenRun s hs .memory
  have horigins : ∀ p ∈ s.report.map (fun r => (r.gauge, r.value, r.origin)),
      p.1.1 = .memory → p.2.2 = n := by
    intro p hp hg
    obtain ⟨r, hr, rfl⟩ := List.mem_map.1 hp
    exact hn r hr hg
  rw [hreport] at horigins
  have hfirst := horigins (⟨.memory, (0 : Fin 4)⟩, 16, 1) (by simp) rfl
  have hsecond := horigins (⟨.memory, (2 : Fin 4)⟩, 2, 2) (by simp) rfl
  have hsame : (1 : ℕ) = 2 := hfirst.trans hsecond.symm
  omega

end Monitor
