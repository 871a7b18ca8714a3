/-
**Compare and swap loops on shared cells.**

Threads perform calls on cells they share.  A call either stores a value, or loads a cell and tries
to swap its value for a new one until no other thread has been faster; some calls are refused and
touch no cell.  A weak compare and swap may also fail without a reason, which the label of a step
decides.

* `CasLoop.Op`, `CasLoop.Op.apply` — a call, and what it does when it is alone;
* `CasLoop.machine` — every interleaving of the threads;
* `CasLoop.linearizable` — **the cells are those of the calls one after another**, each of them once
  and in the order of time, for any machine that simulates such threads;
* `CasLoop.steps_le` — **progress**: a bound on the steps of any run that fail with a reason or
  succeed.
-/

import MetricsMonitor.Machine
import Mathlib.Algebra.BigOperators.Group.Finset.Basic
import Mathlib.Algebra.BigOperators.Ring.Finset
import Mathlib.Algebra.Order.BigOperators.Group.Finset
import Mathlib.Data.Fintype.Card

set_option relaxedAutoImplicit false
set_option autoImplicit false

namespace CasLoop

variable {ι κ α C : Type*} [DecidableEq ι] [DecidableEq κ] [DecidableEq α]

/-! ### Calls -/

/-- A call: a new value from the old one, a value, or nothing. -/
inductive Op (κ α : Type*)
  | modify (key : κ) (f : α → α)
  | store (key : κ) (x : α)
  | skip

/-- What a call does when it is alone. -/
def Op.apply (op : Op κ α) (cells : κ → α) : κ → α :=
  match op with
  | modify key f => Function.update cells key (f (cells key))
  | store key x => Function.update cells key x
  | skip => cells

/-! ### Threads -/

/-- Where a thread is: between two calls, at the beginning of one, or in the loop with the value it
expects. -/
inductive Pc (α : Type*)
  | idle
  | begun
  | loop (old : α)

/-- A thread: the calls it has not finished, and where it is in the first of them. -/
structure Thread (α C : Type*) where
  todo : List C
  pc : Pc α

/-- The cells and the threads. -/
structure State (ι κ α C : Type*) where
  cells : κ → α
  threads : ι → Thread α C

/-- Who moves, and whether a compare and swap fails without a reason. -/
structure Label (ι : Type*) where
  thread : ι
  spurious : Bool

/-- A step of a thread: the cells and the thread afterwards. -/
def advance (op : C → Op κ α) (spurious : Bool) (cells : κ → α) :
    Thread α C → Option ((κ → α) × Thread α C)
  | ⟨[], _⟩ => none
  | ⟨c :: todo, pc⟩ =>
      match pc, op c with
      | .idle, _ => some (cells, ⟨c :: todo, .begun⟩)
      | .begun, .skip => some (cells, ⟨todo, .idle⟩)
      | .begun, .store key x => some (Function.update cells key x, ⟨todo, .idle⟩)
      | .begun, .modify key _ => some (cells, ⟨c :: todo, .loop (cells key)⟩)
      | .loop old, .modify key f =>
          if cells key = old ∧ spurious = false then
            some (Function.update cells key (f old), ⟨todo, .idle⟩)
          else some (cells, ⟨c :: todo, .loop (cells key)⟩)
      | .loop _, _ => none

/-- Every interleaving of the threads. -/
def machine (op : C → Op κ α) : Machine (State ι κ α C) (Label ι) where
  init s := ∀ i, (s.threads i).pc = .idle
  step s l := (advance op l.spurious s.cells (s.threads l.thread)).map fun r =>
    ⟨r.1, Function.update s.threads l.thread r.2⟩

variable {op : C → Op κ α}

/-! ### What a step does -/

/-- How far a thread is in its call. -/
def Pc.phase : Pc α → ℕ
  | idle => 0
  | begun => 1
  | loop _ => 2

/-- Whether a thread expects a value that is not there any more. -/
def stale (op : C → Op κ α) (cells : κ → α) : Thread α C → ℕ
  | ⟨c :: _, .loop old⟩ =>
      match op c with
      | .modify key _ => if cells key = old then 0 else 1
      | _ => 0
  | _ => 0

omit [DecidableEq κ] in
theorem stale_le_one (cells : κ → α) (th : Thread α C) : stale op cells th ≤ 1 := by
  unfold stale
  split
  · split
    · split <;> omega
    · omega
  · omega

/-- A step that finishes the call of a thread, with its effect. -/
structure Commits (op : C → Op κ α) (cells cells' : κ → α) (th th' : Thread α C) (c : C) :
    Prop where
  todo : th.todo = c :: th'.todo
  cells : cells' = (op c).apply cells
  pc : th'.pc = .idle

/-- A step that does not finish the call of a thread: it comes closer, or learns the value. -/
structure Tries (op : C → Op κ α) (spurious : Bool) (cells cells' : κ → α) (th th' : Thread α C) :
    Prop where
  todo : th'.todo = th.todo
  todo_ne_nil : th.todo ≠ []
  unchanged : cells' = cells
  phase : th.pc.phase ≤ th'.pc.phase ∧ th'.pc.phase ≤ 2
  fresh : stale op cells' th' = 0
  progress : spurious = false → th.pc.phase < th'.pc.phase ∨ stale op cells th = 1

/-- **A step of a thread** either finishes its call or does not touch the cells. -/
theorem advance_cases {spurious : Bool} {cells cells' : κ → α} {th th' : Thread α C}
    (h : advance op spurious cells th = some (cells', th')) :
    (∃ c, Commits op cells cells' th th' c) ∨ Tries op spurious cells cells' th th' := by
  obtain ⟨todo, pc⟩ := th
  cases todo with
  | nil => simp [advance] at h
  | cons c todo =>
      cases pc with
      | idle =>
          obtain ⟨rfl, rfl⟩ := Prod.mk.inj (Option.some_inj.1 h)
          exact Or.inr ⟨rfl, by simp, rfl, by simp [Pc.phase], rfl, by simp [Pc.phase]⟩
      | begun =>
          cases hop : op c with
          | skip =>
              simp only [advance, hop, Option.some_inj, Prod.mk.injEq] at h
              obtain ⟨rfl, rfl⟩ := h
              exact Or.inl ⟨c, rfl, by rw [hop]; rfl, rfl⟩
          | store key x =>
              simp only [advance, hop, Option.some_inj, Prod.mk.injEq] at h
              obtain ⟨rfl, rfl⟩ := h
              exact Or.inl ⟨c, rfl, by rw [hop]; rfl, rfl⟩
          | modify key f =>
              simp only [advance, hop, Option.some_inj, Prod.mk.injEq] at h
              obtain ⟨rfl, rfl⟩ := h
              exact Or.inr ⟨rfl, by simp, rfl, by simp [Pc.phase], by simp [stale, hop],
                by simp [Pc.phase]⟩
      | loop old =>
          cases hop : op c with
          | skip => simp [advance, hop] at h
          | store key x => simp [advance, hop] at h
          | modify key f =>
              simp only [advance, hop] at h
              split at h
              · rename_i hswap
                obtain ⟨rfl, rfl⟩ := Prod.mk.inj (Option.some_inj.1 h)
                refine Or.inl ⟨c, rfl, ?_, rfl⟩
                rw [hop, Op.apply, hswap.1]
              · rename_i hswap
                obtain ⟨rfl, rfl⟩ := Prod.mk.inj (Option.some_inj.1 h)
                refine Or.inr ⟨rfl, by simp, rfl, by simp [Pc.phase], by simp [stale, hop], ?_⟩
                intro hspurious
                have hne : cells key ≠ old := fun heq => hswap ⟨heq, hspurious⟩
                exact Or.inr (by simp [stale, hop, hne])

/-- A step of the machine is a step of a thread. -/
theorem machine_step {s t : State ι κ α C} {l : Label ι} (h : (machine op).step s l = some t) :
    ∃ th, advance op l.spurious s.cells (s.threads l.thread) = some (t.cells, th) ∧
      t.threads = Function.update s.threads l.thread th := by
  obtain ⟨⟨cells, th⟩, hadvance, rfl⟩ := Option.map_eq_some_iff.1 h
  exact ⟨th, hadvance, rfl⟩

/-! ### Linearizability -/

/-- The cells after calls one after another. -/
def performed (op : C → Op κ α) (order : List (ι × C)) (cells : κ → α) : κ → α :=
  order.foldl (fun cells c => (op c.2).apply cells) cells

/-- An order of calls explains what happened between two states. -/
structure Explains (op : C → Op κ α) (order : List (ι × C)) (s t : State ι κ α C) : Prop where
  cells : t.cells = performed op order s.cells
  todo : ∀ i, (s.threads i).todo =
    ((order.filter (·.1 = i)).map Prod.snd) ++ (t.threads i).todo

/-- A step performs one call or none. -/
theorem explains_step {s t : State ι κ α C} {l : Label ι} (h : (machine op).step s l = some t) :
    ∃ order, Explains op order s t := by
  obtain ⟨th, hadvance, hthreads⟩ := machine_step h
  rcases advance_cases hadvance with ⟨c, hcommits⟩ | htries
  · refine ⟨[(l.thread, c)], hcommits.cells, fun i => ?_⟩
    by_cases hi : i = l.thread
    · subst hi
      rw [hthreads, Function.update_self, hcommits.todo]
      simp
    · rw [hthreads, Function.update_of_ne hi]
      simp [Ne.symm hi]
  · refine ⟨[], htries.unchanged, fun i => ?_⟩
    by_cases hi : i = l.thread
    · subst hi
      rw [hthreads, Function.update_self, htries.todo]
      rfl
    · rw [hthreads, Function.update_of_ne hi]
      rfl

omit [DecidableEq α] in
theorem Explains.refl (s : State ι κ α C) : Explains op [] s s := ⟨rfl, fun _ => rfl⟩

omit [DecidableEq α] in
theorem Explains.trans {s t u : State ι κ α C} {order₁ order₂ : List (ι × C)}
    (h : Explains op order₁ s t) (h' : Explains op order₂ t u) :
    Explains op (order₁ ++ order₂) s u := by
  refine ⟨?_, fun i => ?_⟩
  · rw [h'.cells, h.cells, performed, performed, performed, List.foldl_append]
  · rw [h.todo, h'.todo, List.filter_append, List.map_append, List.append_assoc]

/-- **Linearizability.**  When every step of a machine is a step of the threads or none, any run of
it performs calls one after another: those that the threads have finished, each once and those of
one thread in their order.  The order is that of time, as a first part of it explains each state
that the run goes through. -/
theorem linearizable {S L : Type*} {m : Machine S L} {R : S → State ι κ α C → Prop}
    (hstep : ∀ s l s' u, R s u → m.step s l = some s' →
      ∃ v, ((∃ l', (machine op).step u l' = some v) ∨ v = u) ∧ R s' v)
    {s t : S} {u : State ι κ α C} {ls : List L} (hR : R s u) (h : m.run s ls = some t) :
    ∃ order, (∃ v, R t v ∧ Explains op order u v) ∧ ∀ ls₁, ls₁ <+: ls →
      ∃ s₁ v order₁, m.run s ls₁ = some s₁ ∧ R s₁ v ∧ Explains op order₁ u v ∧
        order₁ <+: order := by
  induction ls generalizing s u with
  | nil =>
      simp only [Machine.run_nil, Option.some_inj] at h
      subst h
      refine ⟨[], ⟨u, hR, .refl u⟩, fun ls₁ hls₁ => ?_⟩
      rw [List.prefix_nil.1 hls₁]
      exact ⟨s, u, [], rfl, hR, .refl u, List.prefix_rfl⟩
  | cons l ls ih =>
      obtain ⟨s', hs', hrest⟩ := Machine.run_cons_eq_some.1 h
      obtain ⟨v, hv, hR'⟩ := hstep s l s' u hR hs'
      obtain ⟨order₁, hfirst⟩ : ∃ order₁, Explains op order₁ u v := by
        rcases hv with ⟨l', hl'⟩ | rfl
        · exact explains_step hl'
        · exact ⟨[], .refl v⟩
      obtain ⟨order₂, ⟨w, hw, hexplains⟩, hprefixes⟩ := ih hR' hrest
      refine ⟨order₁ ++ order₂, ⟨w, hw, hfirst.trans hexplains⟩, fun ls₁ hls₁ => ?_⟩
      cases ls₁ with
      | nil => exact ⟨s, u, [], rfl, hR, .refl u, List.nil_prefix⟩
      | cons l₁ ls₁ =>
          obtain ⟨rfl, htail⟩ := List.cons_prefix_cons.1 hls₁
          obtain ⟨s₁, v₁, order, hs₁, hR₁, hexplains₁, horder⟩ := hprefixes ls₁ htail
          exact ⟨s₁, v₁, order₁ ++ order, (Machine.run_cons hs' _).trans hs₁, hR₁,
            hfirst.trans hexplains₁, (List.prefix_append_right_inj _).2 horder⟩

section Finite

variable [Fintype ι]

/-- What a thread can still do, in steps: every call of another thread may cost it one more. -/
def threadRank (op : C → Op κ α) (bound : ℕ) (cells : κ → α) (th : Thread α C) : ℕ :=
  match th.todo with
  | [] => 0
  | _ :: todo => bound * todo.length + (bound - th.pc.phase) + stale op cells th

/-- What all threads can still do. -/
def rank (op : C → Op κ α) (s : State ι κ α C) : ℕ :=
  ∑ i, threadRank op (Fintype.card ι + 2) s.cells (s.threads i)

omit [DecidableEq κ] in
theorem threadRank_idle (bound : ℕ) (cells : κ → α) {th : Thread α C} (h : th.pc = .idle) :
    threadRank op bound cells th = bound * th.todo.length := by
  obtain ⟨todo, pc⟩ := th
  subst h
  cases todo with
  | nil => rfl
  | cons c todo => simp [threadRank, Pc.phase, stale, Nat.mul_succ]

omit [DecidableEq κ] in
/-- The cells matter for one unit at most. -/
theorem threadRank_le (bound : ℕ) (cells cells' : κ → α) (th : Thread α C) :
    threadRank op bound cells' th ≤ threadRank op bound cells th + 1 := by
  have hle : stale op cells' th ≤ 1 := stale_le_one cells' th
  unfold threadRank
  split <;> omega

/-- The thread that moves. -/
theorem threadRank_advance {bound : ℕ} (hbound : 2 ≤ bound) {spurious : Bool}
    {cells cells' : κ → α} {th th' : Thread α C}
    (h : advance op spurious cells th = some (cells', th')) :
    threadRank op bound cells' th' + (bound - 2) ≤ threadRank op bound cells th ∨
      cells' = cells ∧
        threadRank op bound cells' th' + (!spurious).toNat ≤ threadRank op bound cells th := by
  rcases advance_cases h with ⟨c, hcommits⟩ | htries
  · refine Or.inl ?_
    have hphase : th.pc.phase ≤ 2 := by cases th.pc <;> simp [Pc.phase]
    rw [threadRank_idle bound cells' hcommits.pc, threadRank, hcommits.todo]
    dsimp only
    omega
  · refine Or.inr ⟨htries.unchanged, ?_⟩
    obtain ⟨c, todo, htodo⟩ := List.exists_cons_of_ne_nil htries.todo_ne_nil
    have hphase := htries.phase
    have hprogress := htries.progress
    unfold threadRank
    rw [htries.todo, htodo]
    dsimp only
    rw [htries.fresh]
    cases spurious with
    | true => simp only [Bool.not_true, Bool.toNat_false]; omega
    | false =>
        have := hprogress rfl
        simp only [Bool.not_false, Bool.toNat_true]
        omega

theorem rank_step {s t : State ι κ α C} {l : Label ι} (h : (machine op).step s l = some t) :
    rank op t + (!l.spurious).toNat ≤ rank op s := by
  obtain ⟨th, hadvance, hthreads⟩ := machine_step h
  have hcard : 0 < Fintype.card ι := Fintype.card_pos_iff.2 ⟨l.thread⟩
  set bound := Fintype.card ι + 2 with hbound
  have hsplit (u : State ι κ α C) : rank op u =
      threadRank op bound u.cells (u.threads l.thread) +
        ∑ i ∈ Finset.univ.erase l.thread, threadRank op bound u.cells (u.threads i) :=
    (Finset.add_sum_erase _ _ (Finset.mem_univ _)).symm
  have hothers : ∀ i ∈ Finset.univ.erase l.thread, t.threads i = s.threads i := by
    intro i hi
    rw [hthreads, Function.update_of_ne (Finset.ne_of_mem_erase hi)]
  have hmoved : t.threads l.thread = th := by rw [hthreads, Function.update_self]
  rw [hsplit t, hsplit s, hmoved]
  rcases threadRank_advance (show 2 ≤ bound by omega) hadvance with hcommit | ⟨hcells, htry⟩
  · have hsum : ∑ i ∈ Finset.univ.erase l.thread, threadRank op bound t.cells (t.threads i) ≤
        ∑ i ∈ Finset.univ.erase l.thread, (threadRank op bound s.cells (s.threads i) + 1) := by
      refine Finset.sum_le_sum fun i hi => ?_
      rw [hothers i hi]
      exact threadRank_le bound s.cells t.cells _
    rw [Finset.sum_add_distrib, Finset.sum_const, Finset.card_erase_of_mem (Finset.mem_univ _),
      Finset.card_univ, Nat.nsmul_eq_mul, Nat.mul_one] at hsum
    have hone := Bool.toNat_le (!l.spurious)
    omega
  · have hsum : ∑ i ∈ Finset.univ.erase l.thread, threadRank op bound t.cells (t.threads i) =
        ∑ i ∈ Finset.univ.erase l.thread, threadRank op bound s.cells (s.threads i) := by
      refine Finset.sum_congr rfl fun i hi => ?_
      rw [hothers i hi, hcells]
    rw [hsum]
    omega

/-- **Progress.**  A run has at most as many steps, those apart at which a compare and swap fails
without a reason, as there are calls, times the number of threads and two. -/
theorem steps_le {s t : State ι κ α C} {ls : List (Label ι)}
    (hinit : ∀ i, (s.threads i).pc = .idle) (h : (machine op).run s ls = some t) :
    ls.countP (!·.spurious) ≤ (Fintype.card ι + 2) * ∑ i, (s.threads i).todo.length := by
  have hcount := Machine.rank_add_countP_le (I := fun _ => True)
    (p := fun l : Label ι => !l.spurious) (fun _ _ _ _ _ => trivial)
    (fun s l t _ hstep => rank_step hstep) trivial h
  have hstart : rank op s = (Fintype.card ι + 2) * ∑ i, (s.threads i).todo.length := by
    rw [Finset.mul_sum]
    exact Finset.sum_congr rfl fun i _ => threadRank_idle _ _ (hinit i)
  omega

end Finite

end CasLoop
