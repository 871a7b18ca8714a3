/-
**The expression that builds the reply of `handle_sigusr1`.**

The four bytes of `g_status` are converted to `int`, shifted and combined.  `int` has 31 bits for
the magnitude, and the last byte is shifted by 24: what matters is whether it can be 128 or more.
It is the rate of sectors written, cut off at 255 by `update_disk_gauges`, which keeps it in a byte
and not in the range of the shift.

* `Monitor.replyExpr` — the expression;
* `Monitor.Call.stores`, `Monitor.storeAll` — what the update functions store in `g_status`, store
  by store;
* `Monitor.ReachableStatus` — the values of `g_status` in a run, between two stores of one call
  too;
* `Monitor.toInt_encodedData` — where the expression stays in range, the reply is its value;
* `Monitor.replyFits_iff` — **the expression stays in range all along a run** exactly when every
  reading of `/proc/diskstats` shows fewer than 128 sectors written per millisecond, both numbers
  taken as doubles.
-/

import MetricsMonitor.StatusReply
import MetricsMonitor.FirstMatch
import MetricsMonitor.IntExpr
import MetricsMonitor.FloatingPoint

set_option relaxedAutoImplicit false
set_option autoImplicit false

namespace Monitor

open FormattedInput FloatingPoint

/-! ### The expression -/

/-- `(int)g_status[0] | (int)g_status[1] << 8 | (int)g_status[2] << 16 | (int)g_status[3] << 24`. -/
def replyExpr (b : Fin 4 → UInt8) : IntExpr :=
  .or (.or (.or (.nat (b 0).toNat) (.shl (.nat (b 1).toNat) 8)) (.shl (.nat (b 2).toNat) 16))
    (.shl (.nat (b 3).toNat) 24)

/-- The word the machine computes is the one the handler sends. -/
theorem eval_replyExpr (b : Fin 4 → UInt8) : (replyExpr b).eval 31 = encodedData b := by
  have hbyte (x : UInt8) : BitVec.ofNat (31 + 1) x.toNat = x.toBitVec.setWidth 32 :=
    BitVec.ofNat_toNat ..
  simp only [replyExpr, IntExpr.eval, encodedData, hbyte]

/-- **The expression stays in the range of `int` exactly when the last byte is below 128.** -/
theorem fits_replyExpr_iff (b : Fin 4 → UInt8) : (replyExpr b).Fits 31 ↔ (b 3).toNat < 128 := by
  have hbyte (i : Fin 4) : (b i).toNat < 256 := (b i).toNat_lt
  have h0 := hbyte 0
  have h1 := hbyte 1
  have h2 := hbyte 2
  have h3 := hbyte 3
  simp only [replyExpr, IntExpr.fits_or, IntExpr.fits_shl, IntExpr.fits_nat, IntExpr.value]
  omega

/-- A reply whose expression stays in range is the number that the bytes stand for. -/
theorem toInt_encodedData {b : Fin 4 → UInt8} (h : (replyExpr b).Fits 31) :
    (encodedData b).toInt = (replyExpr b).value := by
  rw [← eval_replyExpr]
  exact IntExpr.toInt_eval h

/-- Whatever the indeterminate bytes are, the expression stays in range. -/
def ReplyFits (st : Status) : Prop :=
  ∀ b : Fin 4 → UInt8, (∀ i x, st i = some x → b i = x) → (replyExpr b).Fits 31

/-- The byte is known to be below 128. -/
def SmallByte (byte : Option UInt8) : Prop := ∃ x, byte = some x ∧ x.toNat < 128

theorem replyFits_iff_smallByte (st : Status) : ReplyFits st ↔ SmallByte (st 3) := by
  constructor
  · intro h
    have hfits := h (fun i => (st i).getD 255) fun i x hx => by simp [hx]
    rw [fits_replyExpr_iff] at hfits
    cases hx : st 3 with
    | none =>
        rw [hx] at hfits
        exact absurd hfits (by decide)
    | some x =>
        rw [hx] at hfits
        exact ⟨x, rfl, hfits⟩
  · rintro ⟨x, hx, hsmall⟩ b hb
    rw [fits_replyExpr_iff, hb 3 x hx]
    exact hsmall

/-! ### The stores of a run -/

/-- What an update function stores in `g_status`, in the order of the source: the index and the
byte. -/
def Call.stores : Call → List (Fin 4 × Option UInt8)
  | .cpu usage => if 0 ≤ usage then [(0, toUChar usage)] else []
  | .memory (some usage) => [(1, toUChar (usage 3))]
  | .disk (some usage) => [(2, toUCharClamped (usage 0)), (3, toUCharClamped (usage 1))]
  | _ => []

/-- Performing stores one after another. -/
def storeAll (st : Status) (stores : List (Fin 4 × Option UInt8)) : Status :=
  stores.foldl (fun st p => Function.update st p.1 p.2) st

theorem storeAll_append (st : Status) (before after : List (Fin 4 × Option UInt8)) :
    storeAll st (before ++ after) = storeAll (storeAll st before) after := List.foldl_append

theorem storeAll_append_singleton (st : Status) (before : List (Fin 4 × Option UInt8))
    (p : Fin 4 × Option UInt8) :
    storeAll st (before ++ [p]) = Function.update (storeAll st before) p.1 p.2 := by
  rw [storeAll_append]
  rfl

/-- A call performs its stores. -/
theorem update_gStatus_eq_storeAll (c : Call) (s : Globals) :
    (c.update s).gStatus = storeAll s.gStatus c.stores := by
  rw [Call.update_eq, updateGauges_gStatus]
  cases c with
  | cpu usage =>
      by_cases h : 0 ≤ usage
      · simp only [Call.result, Call.stores, cpuResult, if_pos h]
        rfl
      · simp only [Call.result, Call.stores, cpuResult, if_neg h]
        rfl
  | memory usage | disk usage | network usage | processes usage =>
      cases usage with
      | none => rfl
      | some usage => rfl

/-- **A sequence of calls performs its stores.** -/
theorem updates_gStatus_eq_storeAll (calls : List Call) (s : Globals) :
    (updates calls s).gStatus = storeAll s.gStatus (calls.flatMap Call.stores) := by
  induction calls using List.reverseRecOn with
  | nil => rfl
  | append_singleton calls c ih =>
      rw [updates_append_singleton, update_gStatus_eq_storeAll, ih, List.flatMap_append,
        storeAll_append, List.flatMap_singleton]

/-- The values of `g_status` in a run of the update functions on these inputs, after
`init_metrics`: some of the stores have been performed. -/
def ReachableStatus (works : InitAction → Bool) (config : Config) (inputs : List Input)
    (st : Status) : Prop :=
  ∃ before, before <+: (readCalls toDouble .zero inputs).flatMap Call.stores ∧
    st = storeAll (initMetrics works config).2.gStatus before

/-- Among them are the values between two calls. -/
theorem reachableStatus_updates (works : InitAction → Bool) (config : Config)
    {before inputs : List Input} (h : before <+: inputs) :
    ReachableStatus works config inputs
      (updates (readCalls toDouble .zero before) (initMetrics works config).2).gStatus := by
  obtain ⟨after, rfl⟩ := h
  refine ⟨(readCalls toDouble .zero before).flatMap Call.stores, ?_, updates_gStatus_eq_storeAll ..⟩
  rw [readCalls_append, List.flatMap_append]
  exact List.prefix_append ..

/-- **All along a sequence of stores the last byte is small exactly when every byte that is stored
there is.** -/
theorem smallByte_storeAll_iff {st : Status} (hst : SmallByte (st 3))
    (stores : List (Fin 4 × Option UInt8)) :
    (∀ before, before <+: stores → SmallByte (storeAll st before 3)) ↔
      ∀ p ∈ stores, p.1 = 3 → SmallByte p.2 := by
  constructor
  · intro h p hp hthree
    obtain ⟨before, after, rfl⟩ := List.append_of_mem hp
    have hsmall := h (before ++ [p]) ⟨after, by simp⟩
    rwa [storeAll_append_singleton, hthree, Function.update_self] at hsmall
  · intro h before hbefore
    induction before using List.reverseRecOn with
    | nil => exact hst
    | append_singleton before p ih =>
        rw [storeAll_append_singleton]
        by_cases hthree : p.1 = 3
        · rw [hthree, Function.update_self]
          exact h p (hbefore.subset (by simp)) hthree
        · rw [Function.update_of_ne (Ne.symm hthree)]
          exact ih ((List.prefix_append ..).trans hbefore)

/-! ### The rate of sectors written -/

/-- The condition on a reading of `/proc/diskstats`: unless one of the four numbers of its first
complete match is zero, the third is less than 128 times the fourth, both as doubles. -/
def Input.WriteRateFits : Input → Prop
  | .disk (some content) => ∀ chunk (v : Fin 4 → ℕ), diskChunk content = some chunk →
      Matches diskFormat chunk v → (∀ k, v k ≠ 0) → toDouble (v 2) < 128 * toDouble (v 3)
  | _ => True

/-- The result on a file, from the numbers of its first complete match. -/
theorem getDiskUsage_of_matches (fl : ℚ → ℚ) {content chunk : List Char} {v : Fin 4 → ℕ}
    (hchunk : diskChunk content = some chunk) (hv : Matches diskFormat chunk v) :
    getDiskUsage fl (some content) = diskQuotients fl v := by
  rw [getDiskUsage_eq, hchunk, Option.bind_some, hv.stored, assign_ofFn]

/-- A value that is not negative is stored as a small byte exactly when it is below 128. -/
theorem smallByte_clamped_iff {q : ℚ} (hq : 0 ≤ q) : SmallByte (toUCharClamped q) ↔ q < 128 := by
  have hfloor : ⌊q⌋₊ < 128 ↔ q < 128 := by
    rw [Nat.floor_lt hq]
    exact_mod_cast Iff.rfl
  rw [toUCharClamped_eq hq, ← hfloor]
  simp only [SmallByte, Option.some_inj, exists_eq_left', UInt8.toNat_ofNat',
    Nat.mod_eq_of_lt (expectedByte_lt _)]
  rw [expectedByte]
  omega

/-- **A quotient is stored as a small byte exactly when it is below 128 before it is rounded.** -/
theorem smallByte_quotient_iff {m n : ℕ} (hn : n ≠ 0) :
    SmallByte (toUCharClamped (toDouble (toDouble m / toDouble n))) ↔
      toDouble m < 128 * toDouble n := by
  have hpos : (0 : ℚ) < n := by
    exact_mod_cast Nat.pos_of_ne_zero hn
  have hlt := toDouble_div_lt_iff (isDouble_toDouble (Nat.cast_nonneg m))
    (isDouble_toDouble hpos.le) (toDouble_nonneg m) (toDouble_pos hpos) 7
  rw [smallByte_clamped_iff (toDouble_nonneg _)]
  norm_num at hlt
  exact hlt

/-- What the quotients of four numbers store as the last byte. -/
theorem smallByte_diskQuotients_iff (v : Fin 4 → ℕ) :
    (∀ p ∈ (Call.disk (diskQuotients toDouble v)).stores, p.1 = 3 → SmallByte p.2) ↔
      ((∀ k, v k ≠ 0) → toDouble (v 2) < 128 * toDouble (v 3)) := by
  by_cases hzero : ∃ k, v k = 0
  · obtain ⟨k, hk⟩ := hzero
    rw [(diskQuotients_eq_none_iff _ v).2 ⟨k, hk⟩]
    refine iff_of_true ?_ fun hne => absurd hk (hne k)
    simp [Call.stores]
  · have hne : ∀ k, v k ≠ 0 := fun k hk => hzero ⟨k, hk⟩
    have hsome : diskQuotients toDouble v = some ![toDouble (toDouble (v 0) / toDouble (v 1)),
        toDouble (toDouble (v 2) / toDouble (v 3))] := by
      rw [diskQuotients, if_neg]
      simp [hne]
    have hbyte := smallByte_quotient_iff (m := v 2) (hne 3)
    rw [hsome, ← hbyte]
    simp [Call.stores, hne]

/-- The stores of one call to the last byte. -/
theorem smallByte_stores_iff (prev : CpuTimes) (i : Input) :
    (∀ p ∈ (i.read toDouble prev).1.stores, p.1 = 3 → SmallByte p.2) ↔ i.WriteRateFits := by
  cases i with
  | cpu stat =>
      simp only [Input.read, Call.stores, Input.WriteRateFits, iff_true]
      split
      · simp
      · simp
  | memory meminfo =>
      simp only [Input.read, Input.WriteRateFits, iff_true]
      cases getMemoryUsage meminfo with
      | none => simp [Call.stores]
      | some usage => simp [Call.stores]
  | network netDev => simp [Input.read, Call.stores, Input.WriteRateFits]
  | processes usage => simp [Input.read, Call.stores, Input.WriteRateFits]
  | disk diskstats =>
      cases diskstats with
      | none => simp [Input.read, getDiskUsage, Call.stores, Input.WriteRateFits]
      | some content =>
          simp only [Input.read, Input.WriteRateFits]
          cases hchunk : diskChunk content with
          | none =>
              rw [getDiskUsage_eq, hchunk]
              simp [Call.stores]
          | some chunk =>
              have hret := List.find?_some hchunk
              obtain ⟨v, hv⟩ := (diskLoopFormat.ret_iff chunk).1 (of_decide_eq_true hret)
              rw [getDiskUsage_of_matches _ hchunk hv, smallByte_diskQuotients_iff]
              constructor
              · rintro h chunk' w hw hmatch hne
                obtain rfl := Option.some_inj.1 hw
                obtain rfl := hv.unique hmatch
                exact h hne
              · exact fun h => h chunk v rfl hv

/-- The stores of a run to the last byte. -/
theorem smallByte_readCalls_iff (prev : CpuTimes) (inputs : List Input) :
    (∀ p ∈ (readCalls toDouble prev inputs).flatMap Call.stores, p.1 = 3 → SmallByte p.2) ↔
      ∀ i ∈ inputs, i.WriteRateFits := by
  induction inputs generalizing prev with
  | nil => simp [readCalls]
  | cons i inputs ih =>
      rw [readCalls, List.flatMap_cons, List.forall_mem_append, List.forall_mem_cons,
        smallByte_stores_iff, ih]

/-- **When the expression stays in range.**  Along a run of the update functions, whatever they
read, no sub-expression leaves the range of `int` exactly when the condition holds of every reading
of `/proc/diskstats`. -/
theorem replyFits_iff (works : InitAction → Bool) (config : Config) (inputs : List Input) :
    (∀ st, ReachableStatus works config inputs st → ReplyFits st) ↔
      ∀ i ∈ inputs, i.WriteRateFits := by
  have hzero : SmallByte ((initMetrics works config).2.gStatus 3) := by
    have hinit := runInit_gStatus works (initActions config) .start
    exact ⟨0, congrFun hinit 3, by simp⟩
  rw [← smallByte_readCalls_iff .zero, ← smallByte_storeAll_iff hzero]
  constructor
  · intro h before hbefore
    exact (replyFits_iff_smallByte _).1 (h _ ⟨before, hbefore, rfl⟩)
  · rintro h st ⟨before, hbefore, rfl⟩
    exact (replyFits_iff_smallByte _).2 (h before hbefore)

/-- A disk that writes 51200 sectors in 400 milliseconds. -/
def busyDisk : List Char :=
  "   8       0 sda 100 0 800 40 60 0 51200 400 0 70 70\n".toList

/-- **The last byte is 128**, and shifted by 24 it is `2 ^ 31`. -/
theorem reply_overflows :
    ¬ ∀ (works : InitAction → Bool) (config : Config) (inputs : List Input) (st : Status),
      ReachableStatus works config inputs st → ReplyFits st := by
  intro h
  have hfits := h (fun _ => true) defaultConfig [.disk (some busyDisk)] _
    (reachableStatus_updates _ _ List.prefix_rfl)
  rw [replyFits_iff_smallByte] at hfits
  have hbyte : (updates (readCalls toDouble .zero [.disk (some busyDisk)])
      (initMetrics (fun _ => true) defaultConfig).2).gStatus 3 = some 128 := by
    decide +kernel
  obtain ⟨x, hx, hsmall⟩ := hfits
  obtain rfl := Option.some_inj.1 (hbyte.symm.trans hx)
  exact absurd hsmall (by decide)

end Monitor
