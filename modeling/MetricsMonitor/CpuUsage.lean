/-
**Runs of `get_cpu_usage`.**

`get_cpu_usage` keeps the counters of its last accepted call in eight static variables and reports
the share of busy ticks since then.  `MetricsMonitor/Metrics.lean` gives one call; this module is
about sequences of calls in which opening, reading and parsing may fail in any pattern.

The specification does not mention the static variables: a call is *accepted*
(`Monitor.accepts`) when its first line parses and its total differs, modulo `2 ^ 64`, from that
of the latest accepted call before it, and `Monitor.latestReading` is the reading of that call.

* `Monitor.prevAfter_eq_latestReading` — **the static variables hold the latest accepted
  reading**, after any sequence of calls;
* `Monitor.prevAfter_acceptedCalls` — deleting the calls that are not accepted does not change
  them;
* `Monitor.sum_increments` — the differences of the accepted calls telescope;
* `Monitor.cpuUsage_run` — the result of every call of every run;
* `Monitor.cpuUsage_documented_iff` — **when all results of a run are in the documented range**.
-/

import MetricsMonitor.Metrics
import Mathlib.Tactic.Linarith

set_option relaxedAutoImplicit false
set_option autoImplicit false

namespace Monitor

/-! ### Ticks modulo `2 ^ 64` -/

/-- The sum of all eight fields. -/
def CpuTimes.ticks (t : CpuTimes) : ℕ :=
  t.user.toNat + t.nice.toNat + t.system.toNat + t.idle.toNat + t.iowait.toNat + t.irq.toNat +
    t.softirq.toNat + t.steal.toNat

/-- The sum of the six fields other than `idle` and `iowait`. -/
def CpuTimes.busyTicks (t : CpuTimes) : ℕ :=
  t.user.toNat + t.nice.toNat + t.system.toNat + t.irq.toNat + t.softirq.toNat + t.steal.toNat

/-- The difference of two tick counts modulo `2 ^ 64`. -/
def ticksSince (now before : ℕ) : ℕ := (((now : ℤ) - before) % 2 ^ 64).toNat

/-- The wrapping difference of the code's totals, built as idle plus non-idle sums. -/
theorem toNat_total_sub (t p : CpuTimes) :
    (t.total - p.total).toNat = ticksSince t.ticks p.ticks := by
  simp only [CpuTimes.total, CpuTimes.idleTotal, CpuTimes.nonIdle, CpuTimes.ticks, ticksSince,
    UInt64.toNat_sub, UInt64.toNat_add, Nat.cast_add]
  omega

theorem toNat_nonIdle_sub (t p : CpuTimes) :
    (t.nonIdle - p.nonIdle).toNat = ticksSince t.busyTicks p.busyTicks := by
  simp only [CpuTimes.nonIdle, CpuTimes.busyTicks, ticksSince, UInt64.toNat_sub,
    UInt64.toNat_add, Nat.cast_add]
  omega

/-- A difference, added to the count it starts from, gives the count it ends at. -/
theorem ticksSince_add_mod (now before : ℕ) :
    (ticksSince now before + before) % 2 ^ 64 = now % 2 ^ 64 := by
  unfold ticksSince
  omega

theorem total_sub_eq_zero_iff (t p : CpuTimes) :
    t.total - p.total = 0 ↔ ticksSince t.ticks p.ticks = 0 := by
  rw [← toNat_total_sub, ← UInt64.toNat_inj]
  rfl

/-! ### Accepted calls -/

/-- The reading of a call that is accepted after the reading `last`. -/
def accepts (last : CpuTimes) (stat : File) : Option CpuTimes :=
  (cpuReading stat).filter fun t => ticksSince t.ticks last.ticks ≠ 0

/-- The readings of the accepted calls, in order. -/
def acceptedReadings : CpuTimes → List File → List CpuTimes
  | _, [] => []
  | last, stat :: rest =>
      match accepts last stat with
      | none => acceptedReadings last rest
      | some t => t :: acceptedReadings t rest

/-- The accepted calls themselves, the others deleted. -/
def acceptedCalls : CpuTimes → List File → List File
  | _, [] => []
  | last, stat :: rest =>
      match accepts last stat with
      | none => acceptedCalls last rest
      | some t => stat :: acceptedCalls t rest

/-- The reading of the latest accepted call, zeros if there is none. -/
def latestReading (calls : List File) : CpuTimes :=
  (acceptedReadings .zero calls).getLastD .zero

/-- What each accepted reading adds to a count. -/
def increments (count : CpuTimes → ℕ) : CpuTimes → List CpuTimes → List ℕ
  | _, [] => []
  | last, t :: ts => ticksSince (count t) (count last) :: increments count t ts

/-! ### The calls of the code -/

/-- The static variables after a sequence of calls. -/
def prevAfter (calls : List File) : CpuTimes :=
  calls.foldl (fun prev stat => (getCpuUsage stat prev).2) .zero

/-- The value returned by a call made after a sequence of calls. -/
def usageAfter (calls : List File) (stat : File) : ℚ := (getCpuUsage stat (prevAfter calls)).1

/-- The test of the code accepts the calls that the specification accepts. -/
theorem cpuAccepted_eq_accepts (stat : File) (prev : CpuTimes) :
    cpuAccepted stat prev = accepts prev stat := by
  simp only [cpuAccepted, accepts, ne_eq, total_sub_eq_zero_iff]

/-- What one call does to the static variables. -/
theorem getCpuUsage_snd (stat : File) (prev : CpuTimes) :
    (getCpuUsage stat prev).2 = (accepts prev stat).getD prev := by
  rw [getCpuUsage_eq, cpuAccepted_eq_accepts]
  cases accepts prev stat with
  | none => rfl
  | some t => rfl

theorem getLastD_cons_getLastD {α : Type*} (a b : α) (l : List α) :
    (a :: l).getLastD b = l.getLastD a := by
  cases l with
  | nil => rfl
  | cons c l => rfl

/-- Induction on the calls: each accepted one becomes the last reading, the others are skipped. -/
theorem foldl_getCpuUsage (last : CpuTimes) (calls : List File) :
    calls.foldl (fun prev stat => (getCpuUsage stat prev).2) last =
      (acceptedReadings last calls).getLastD last := by
  induction calls generalizing last with
  | nil => rfl
  | cons stat rest ih =>
      rw [List.foldl_cons, getCpuUsage_snd, ih]
      cases h : accepts last stat with
      | none => simp [acceptedReadings, h]
      | some t =>
          simp only [acceptedReadings, h, Option.getD_some]
          exact (getLastD_cons_getLastD t last _).symm

/-- **The static variables hold the latest accepted reading.** -/
theorem prevAfter_eq_latestReading (calls : List File) : prevAfter calls = latestReading calls :=
  foldl_getCpuUsage .zero calls

/-- The accepted calls alone are accepted again, with the same readings. -/
theorem acceptedReadings_acceptedCalls (last : CpuTimes) (calls : List File) :
    acceptedReadings last (acceptedCalls last calls) = acceptedReadings last calls := by
  induction calls generalizing last with
  | nil => rfl
  | cons stat rest ih =>
      cases h : accepts last stat with
      | none => simpa [acceptedCalls, acceptedReadings, h] using ih last
      | some t => simp [acceptedCalls, acceptedReadings, h, ih]

/-- **Deleting the calls that are not accepted leaves the static variables alone.** -/
theorem prevAfter_acceptedCalls (calls : List File) :
    prevAfter (acceptedCalls .zero calls) = prevAfter calls := by
  rw [prevAfter_eq_latestReading, prevAfter_eq_latestReading, latestReading, latestReading,
    acceptedReadings_acceptedCalls]

/-- **The increments telescope**: with the count they start from, they add up to that of the last
reading. -/
theorem sum_increments_mod (count : CpuTimes → ℕ) (last : CpuTimes) (ts : List CpuTimes) :
    ((increments count last ts).sum + count last) % 2 ^ 64 = count (ts.getLastD last) % 2 ^ 64 := by
  induction ts generalizing last with
  | nil => simp [increments]
  | cons t ts ih =>
      rw [getLastD_cons_getLastD, ← ih t]
      have hstep := ticksSince_add_mod (count t) (count last)
      simp only [increments, List.sum_cons]
      omega

/-- The increments of a whole run, which starts from zeros. -/
theorem sum_increments (count : CpuTimes → ℕ) (h0 : count .zero = 0) (calls : List File) :
    (increments count .zero (acceptedReadings .zero calls)).sum % 2 ^ 64 =
      count (latestReading calls) % 2 ^ 64 := by
  have h := sum_increments_mod count .zero (acceptedReadings .zero calls)
  rwa [h0, Nat.add_zero] at h

/-- One call after any run. -/
theorem cpuUsage_call (calls : List File) (stat : File) :
    match accepts (latestReading calls) stat with
    | none => usageAfter calls stat = -1 ∧ prevAfter (calls ++ [stat]) = prevAfter calls
    | some t =>
        usageAfter calls stat =
          100 * ticksSince t.busyTicks (latestReading calls).busyTicks /
            ticksSince t.ticks (latestReading calls).ticks := by
  have hprev := prevAfter_eq_latestReading calls
  have hnext : prevAfter (calls ++ [stat]) = (getCpuUsage stat (prevAfter calls)).2 := by
    simp only [prevAfter, List.foldl_append, List.foldl_cons, List.foldl_nil]
  cases h : accepts (latestReading calls) stat with
  | none =>
      have hcall : getCpuUsage stat (prevAfter calls) = (-1, prevAfter calls) := by
        rw [getCpuUsage_eq, cpuAccepted_eq_accepts, hprev, h]
      exact ⟨by rw [usageAfter, hcall], by rw [hnext, hcall]⟩
  | some t =>
      have hcall : getCpuUsage stat (prevAfter calls) =
          (t.usageSince (latestReading calls), t) := by
        rw [getCpuUsage_eq, cpuAccepted_eq_accepts, hprev, h]
      change usageAfter calls stat = _
      rw [usageAfter, hcall, CpuTimes.usageSince, toNat_total_sub, toNat_nonIdle_sub]

/-- **Every call of every run of `get_cpu_usage`.**  A call that is not accepted returns `-1` and
leaves the static variables as they were; an accepted one returns the percentage since the latest
accepted call before it.  Deleting the earlier calls that were not accepted does not change the
result, and the differences of the accepted calls add up to the last accepted reading. -/
theorem cpuUsage_run (calls : List File) (stat : File) :
    (match accepts (latestReading calls) stat with
      | none => usageAfter calls stat = -1 ∧ prevAfter (calls ++ [stat]) = prevAfter calls
      | some t =>
          usageAfter calls stat =
            100 * ticksSince t.busyTicks (latestReading calls).busyTicks /
              ticksSince t.ticks (latestReading calls).ticks) ∧
      usageAfter (acceptedCalls .zero calls) stat = usageAfter calls stat ∧
      (increments CpuTimes.ticks .zero (acceptedReadings .zero calls)).sum % 2 ^ 64 =
        (latestReading calls).ticks % 2 ^ 64 ∧
      (increments CpuTimes.busyTicks .zero (acceptedReadings .zero calls)).sum % 2 ^ 64 =
        (latestReading calls).busyTicks % 2 ^ 64 := by
  -- the two sums telescope, for all ticks and for the busy ones
  refine ⟨cpuUsage_call calls stat, ?_, sum_increments _ rfl calls, sum_increments _ rfl calls⟩
  rw [usageAfter, usageAfter, prevAfter_acceptedCalls]

/-! ### The documented range -/

/-- The sum of `idle` and `iowait`. -/
def CpuTimes.idleTicks (t : CpuTimes) : ℕ := t.idle.toNat + t.iowait.toNat

/-- What the header promises: `-1.0` on an error, a percentage from `0.0` to `100.0` otherwise. -/
def DocumentedUsage (u : ℚ) : Prop := u = -1 ∨ 0 ≤ u ∧ u ≤ 100

instance (u : ℚ) : Decidable (DocumentedUsage u) := inferInstanceAs (Decidable (_ ∨ _))

/-- The idle ticks and the busy ticks from one reading to another, each counted modulo `2 ^ 64`,
add up without wrapping. -/
def CpuTimes.TicksAddUp (t last : CpuTimes) : Prop :=
  ticksSince t.idleTicks last.idleTicks + ticksSince t.busyTicks last.busyTicks < 2 ^ 64

theorem ticksSince_lt (now before : ℕ) : ticksSince now before < 2 ^ 64 := by
  unfold ticksSince
  omega

/-- All ticks are the idle ones and the busy ones. -/
theorem ticksSince_ticks (t last : CpuTimes) :
    ticksSince t.ticks last.ticks =
      (ticksSince t.idleTicks last.idleTicks + ticksSince t.busyTicks last.busyTicks) %
        2 ^ 64 := by
  have hticks (r : CpuTimes) : r.ticks = r.idleTicks + r.busyTicks := by
    simp only [CpuTimes.ticks, CpuTimes.idleTicks, CpuTimes.busyTicks]
    omega
  rw [hticks, hticks]
  unfold ticksSince
  omega

/-- The busy ticks are at most all ticks exactly when the sum of both groups does not wrap. -/
theorem busyTicks_le_iff (t last : CpuTimes) :
    ticksSince t.busyTicks last.busyTicks ≤ ticksSince t.ticks last.ticks ↔ t.TicksAddUp last := by
  have hidle := ticksSince_lt t.idleTicks last.idleTicks
  have hbusy := ticksSince_lt t.busyTicks last.busyTicks
  rw [ticksSince_ticks, CpuTimes.TicksAddUp]
  omega

/-- The percentage of an accepted call is in the documented range exactly when the ticks add
up. -/
theorem documentedUsage_iff {t last : CpuTimes} (h : ticksSince t.ticks last.ticks ≠ 0) :
    DocumentedUsage (100 * ticksSince t.busyTicks last.busyTicks /
      ticksSince t.ticks last.ticks) ↔ t.TicksAddUp last := by
  have hpos : (0 : ℚ) < ticksSince t.ticks last.ticks := by
    exact_mod_cast Nat.pos_of_ne_zero h
  have hnonneg : (0 : ℚ) ≤ 100 * ticksSince t.busyTicks last.busyTicks /
      ticksSince t.ticks last.ticks := by positivity
  have hle : (100 * ticksSince t.busyTicks last.busyTicks / ticksSince t.ticks last.ticks : ℚ) ≤
      100 ↔ ticksSince t.busyTicks last.busyTicks ≤ ticksSince t.ticks last.ticks := by
    rw [div_le_iff₀ hpos, mul_le_mul_iff_right₀ (by norm_num : (0 : ℚ) < 100), Nat.cast_le]
  rw [DocumentedUsage, hle, busyTicks_le_iff]
  constructor
  · rintro (herror | ⟨-, hadd⟩)
    · linarith
    · exact hadd
  · intro hadd
    exact Or.inr ⟨hnonneg, hadd⟩

/-- The result of one call after any run. -/
theorem usageAfter_documented_iff (calls : List File) (stat : File) :
    DocumentedUsage (usageAfter calls stat) ↔
      ∀ t, accepts (latestReading calls) stat = some t → t.TicksAddUp (latestReading calls) := by
  have hcall := (cpuUsage_call calls stat)
  cases h : accepts (latestReading calls) stat with
  | none =>
      rw [h] at hcall
      simp [hcall.1, DocumentedUsage]
  | some t =>
      rw [h] at hcall
      have hticks : ticksSince t.ticks (latestReading calls).ticks ≠ 0 := by
        simpa using (Option.filter_eq_some_iff.1 h).2
      simp only [hcall, Option.some_inj, forall_eq', documentedUsage_iff hticks]

/-- **When all results of a run are in the documented range**: exactly when at every accepted call
the idle ticks and the busy ticks since the latest accepted call before it, each modulo `2 ^ 64`,
add up to less than `2 ^ 64`. -/
theorem cpuUsage_documented_iff (calls : List File) :
    (∀ i (hi : i < calls.length), DocumentedUsage (usageAfter (calls.take i) calls[i])) ↔
      ∀ i (hi : i < calls.length) t, accepts (latestReading (calls.take i)) calls[i] = some t →
        t.TicksAddUp (latestReading (calls.take i)) := by
  simp only [usageAfter_documented_iff]

/-- An `iowait` counter that goes back by ten ticks. -/
def iowaitBack : List File :=
  ["cpu  1000 0 0 5000 200 0 0 0\n", "cpu  1010 0 0 5001 190 0 0 0\n"].map (some ·.toList)

/-- The second call reports a thousand per cent. -/
theorem cpuUsage_iowaitBack :
    ¬ ∀ i (hi : i < iowaitBack.length),
      DocumentedUsage (usageAfter (iowaitBack.take i) iowaitBack[i]) := by
  intro h
  exact absurd (h 1 (by simp [iowaitBack])) (by decide +kernel)

end Monitor
