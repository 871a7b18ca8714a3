/-
**Labelled machines and their runs.**

A machine is a set of initial states and a partial step function; the label of a step records who
moves and every choice the environment makes, so a step is a function of the state and the label.
An interleaving of several threads or processes is then nothing but a list of labels.

Main definitions:

* `Machine.run` — performing a list of labels, `none` as soon as one of them is not enabled;
* `Machine.Along` — a condition on the steps of a run, each read in the state before the step;
* `Machine.Throughout` — a predicate that holds in every state a run goes through;
* `Machine.Reachable` — the states that runs from the initial ones reach;
* `Machine.tally` — how many steps of a run meet a condition.

Main results:

* `Machine.run_invariant` — **the invariant rule**: what holds initially and is preserved by every
  step that meets a condition holds at the end of every run whose steps all meet it;
* `Machine.along_of_invariant` — what an invariant grants at each step is granted along the run;
* `Machine.throughout_of_along` — an invariant rule for predicates read in every state;
* `Machine.run_simulates` — **the simulation rule**: what relates every step of a machine to a run
  of another one relates every run;
* `Machine.balance_tally` — **the counting rule**: a quantity that changes by one exactly at the
  steps meeting a condition counts them;
* `Machine.rank_add_countP_le` — **the progress rule**: a rank bounds how often the labels that
  lower it can be performed;
* `Machine.run_erase` — **the erasure rule**: labels that a view of the state does not notice can
  be removed from a run without changing what the view sees.
-/

import Mathlib.Data.List.Basic

set_option relaxedAutoImplicit false
set_option autoImplicit false

/-- A machine with states `S` and labels `L`. -/
structure Machine (S L : Type*) where
  /-- The states a run may start in. -/
  init : S → Prop
  /-- The state a label leads to, if the label is enabled. -/
  step : S → L → Option S

namespace Machine

variable {S L V : Type*} (m : Machine S L)

/-! ### Runs -/

/-- The state reached by performing the labels in order. -/
def run : S → List L → Option S
  | s, [] => some s
  | s, l :: ls =>
      match m.step s l with
      | none => none
      | some t => run t ls

/-- Every step of the run meets `p`, in the state before the step. -/
def Along (p : S → L → Prop) : S → List L → Prop
  | _, [] => True
  | s, l :: ls =>
      p s l ∧
        match m.step s l with
        | none => True
        | some t => Along p t ls

/-- Every state the run goes through, the first and the last included, satisfies `P`. -/
def Throughout (P : S → Prop) (s : S) (ls : List L) : Prop :=
  ∀ ls₁ ls₂ t, ls = ls₁ ++ ls₂ → m.run s ls₁ = some t → P t

/-- A state is reachable when some run from an initial state ends in it. -/
def Reachable (s : S) : Prop := ∃ s₀ ls, m.init s₀ ∧ m.run s₀ ls = some s

variable {m}

@[simp] theorem run_nil (s : S) : m.run s [] = some s := rfl

theorem run_cons {s t : S} {l : L} (h : m.step s l = some t) (ls : List L) :
    m.run s (l :: ls) = m.run t ls := by
  simp only [run, h]

/-- The first step of a run. -/
theorem run_cons_eq_some {s u : S} {l : L} {ls : List L} :
    m.run s (l :: ls) = some u ↔ ∃ t, m.step s l = some t ∧ m.run t ls = some u := by
  cases h : m.step s l with
  | none => simp [run, h]
  | some t => simp [run, h]

@[simp] theorem run_singleton (s : S) (l : L) : m.run s [l] = m.step s l := by
  cases h : m.step s l with
  | none => simp [run, h]
  | some t => simp [run, h]

theorem run_append {s t : S} {ls₁ : List L} (h : m.run s ls₁ = some t) (ls₂ : List L) :
    m.run s (ls₁ ++ ls₂) = m.run t ls₂ := by
  induction ls₁ generalizing s with
  | nil =>
      simp only [run_nil, Option.some_inj] at h
      rw [List.nil_append, h]
  | cons l ls₁ ih =>
      obtain ⟨s', hs', h'⟩ := run_cons_eq_some.1 h
      rw [List.cons_append, run_cons hs', ih h']

/-! ### Conditions on the steps of a run -/

@[simp] theorem along_nil (p : S → L → Prop) (s : S) : m.Along p s [] := trivial

theorem along_cons {p : S → L → Prop} {s t : S} {l : L} {ls : List L}
    (h : m.step s l = some t) : m.Along p s (l :: ls) ↔ p s l ∧ m.Along p t ls := by
  simp only [Along, h]

/-- Whether the steps of a run meet a decidable condition can be computed. -/
instance decidableAlong (p : S → L → Prop) [∀ s l, Decidable (p s l)] :
    ∀ (s : S) (ls : List L), Decidable (m.Along p s ls)
  | _, [] => isTrue trivial
  | s, l :: ls =>
      match h : m.step s l with
      | none => decidable_of_iff (p s l) (by simp [Along, h])
      | some t =>
          have := decidableAlong p t ls
          decidable_of_iff (p s l ∧ m.Along p t ls) (along_cons h).symm

theorem along_append {p : S → L → Prop} {s t : S} {ls₁ ls₂ : List L}
    (h : m.run s ls₁ = some t) :
    m.Along p s (ls₁ ++ ls₂) ↔ m.Along p s ls₁ ∧ m.Along p t ls₂ := by
  induction ls₁ generalizing s with
  | nil =>
      simp only [run_nil, Option.some_inj] at h
      simp [h]
  | cons l ls₁ ih =>
      obtain ⟨s', hs', h'⟩ := run_cons_eq_some.1 h
      rw [List.cons_append, along_cons hs', along_cons hs', ih h', and_assoc]

theorem Along.mono {p q : S → L → Prop} (hpq : ∀ s l, p s l → q s l) {s : S} {ls : List L}
    (h : m.Along p s ls) : m.Along q s ls := by
  induction ls generalizing s with
  | nil => trivial
  | cons l ls ih =>
      refine ⟨hpq s l h.1, ?_⟩
      cases hs : m.step s l with
      | none => trivial
      | some t => exact ih ((along_cons hs).1 h).2

theorem along_true (s : S) (ls : List L) : m.Along (fun _ _ => True) s ls := by
  induction ls generalizing s with
  | nil => trivial
  | cons l ls ih =>
      refine ⟨trivial, ?_⟩
      cases hs : m.step s l with
      | none => trivial
      | some t => exact ih t

/-- A condition on the labels alone. -/
theorem along_of_forall {p : L → Prop} {s : S} {ls : List L} (h : ∀ l ∈ ls, p l) :
    m.Along (fun _ l => p l) s ls := by
  induction ls generalizing s with
  | nil => trivial
  | cons l ls ih =>
      refine ⟨h l (List.mem_cons_self ..), ?_⟩
      cases hs : m.step s l with
      | none => trivial
      | some t => exact ih fun l' hl' => h l' (List.mem_cons_of_mem l hl')

/-- A run that does not meet a condition has a first step that violates it. -/
theorem exists_of_not_along {p : S → L → Prop} {s u : S} {ls : List L} (h : ¬ m.Along p s ls)
    (hrun : m.run s ls = some u) :
    ∃ ls₁ l ls₂ t t', ls = ls₁ ++ l :: ls₂ ∧ m.run s ls₁ = some t ∧ m.step t l = some t' ∧
      m.run t' ls₂ = some u ∧ ¬ p t l := by
  induction ls generalizing s with
  | nil => exact absurd trivial h
  | cons l ls ih =>
      obtain ⟨s', hs', h'⟩ := run_cons_eq_some.1 hrun
      by_cases hp : p s l
      · have htail : ¬ m.Along p s' ls := fun ht => h ((along_cons hs').2 ⟨hp, ht⟩)
        obtain ⟨ls₁, l', ls₂, t, t', rfl, ht, hstep, hu, hn⟩ := ih htail h'
        exact ⟨l :: ls₁, l', ls₂, t, t', rfl, by rw [run_cons hs', ht], hstep, hu, hn⟩
      · exact ⟨[], l, ls, s, s', rfl, rfl, hs', h', hp⟩

/-! ### Invariants -/

/-- **The invariant rule.**  The induction is on the labels; the condition `p` is read in the
state before each step. -/
theorem run_invariant {I : S → Prop} {p : S → L → Prop}
    (hstep : ∀ s l t, I s → p s l → m.step s l = some t → I t) {s t : S} {ls : List L}
    (hI : I s) (hp : m.Along p s ls) (h : m.run s ls = some t) : I t := by
  induction ls generalizing s with
  | nil =>
      simp only [run_nil, Option.some_inj] at h
      exact h ▸ hI
  | cons l ls ih =>
      obtain ⟨s', hs', h'⟩ := run_cons_eq_some.1 h
      obtain ⟨hl, hp'⟩ := (along_cons hs').1 hp
      exact ih (hstep s l s' hI hl hs') hp' h'

/-- What an invariant grants at every step is granted along the whole run. -/
theorem along_of_invariant {I : S → Prop} {p q : S → L → Prop}
    (hstep : ∀ s l t, I s → p s l → m.step s l = some t → I t)
    (hq : ∀ s l, I s → p s l → q s l) {s : S} {ls : List L} (hI : I s) (hp : m.Along p s ls) :
    m.Along q s ls := by
  induction ls generalizing s with
  | nil => trivial
  | cons l ls ih =>
      refine ⟨hq s l hI hp.1, ?_⟩
      cases hs : m.step s l with
      | none => trivial
      | some t =>
          have hp' := (along_cons hs).1 hp
          exact ih (hstep s l t hI hp'.1 hs) hp'.2

/-- The invariant rule for predicates that are read in every state of a run. -/
theorem throughout_of_along {I : S → Prop} {p : S → L → Prop}
    (hstep : ∀ s l t, I s → p s l → m.step s l = some t → I t) {s u : S} {ls : List L}
    (hI : I s) (hp : m.Along p s ls) (hrun : m.run s ls = some u) : m.Throughout I s ls := by
  rintro ls₁ ls₂ t rfl ht
  exact run_invariant hstep hI ((along_append ht).1 hp).1 ht

/-- **The simulation rule.**  When every step of one machine is a run of another one that keeps a
relation, so is every run. -/
theorem run_simulates {S' L' : Type*} {m' : Machine S' L'} {R : S → S' → Prop}
    (hstep : ∀ s l s' t, R s t → m.step s l = some s' →
      ∃ ls t', m'.run t ls = some t' ∧ R s' t') {s u : S} {t : S'} {ls : List L} (hR : R s t)
    (h : m.run s ls = some u) : ∃ ls' v, m'.run t ls' = some v ∧ R u v := by
  induction ls generalizing s t with
  | nil =>
      simp only [run_nil, Option.some_inj] at h
      exact ⟨[], t, rfl, h ▸ hR⟩
  | cons l ls ih =>
      obtain ⟨s', hs', h'⟩ := run_cons_eq_some.1 h
      obtain ⟨ls₁, t', ht', hR'⟩ := hstep s l s' t hR hs'
      obtain ⟨ls₂, v, hv, hR''⟩ := ih hR' h'
      exact ⟨ls₁ ++ ls₂, v, (run_append ht' ls₂).trans hv, hR''⟩

/-! ### Counting steps -/

/-- The number of steps of a run that meet `p`, read in the state before the step. -/
def tally (m : Machine S L) (p : S → L → Bool) : S → List L → ℕ
  | _, [] => 0
  | s, l :: ls =>
      (p s l).toNat +
        match m.step s l with
        | none => 0
        | some t => tally m p t ls

theorem tally_cons {p : S → L → Bool} {s t : S} {l : L} (h : m.step s l = some t) (ls : List L) :
    m.tally p s (l :: ls) = (p s l).toNat + m.tally p t ls := by
  simp only [tally, h]

/-- Counting steps by their labels is counting labels. -/
theorem tally_eq_countP {p : L → Bool} {s u : S} {ls : List L} (h : m.run s ls = some u) :
    m.tally (fun _ l => p l) s ls = ls.countP p := by
  induction ls generalizing s with
  | nil => rfl
  | cons l ls ih =>
      obtain ⟨t, ht, h'⟩ := run_cons_eq_some.1 h
      rw [tally_cons ht, ih h', List.countP_cons, Nat.add_comm]
      cases p l with
      | false => rfl
      | true => rfl

/-- **The counting rule.** -/
theorem balance_tally {f : S → ℕ} {p : S → L → Bool}
    (hstep : ∀ s l t, m.step s l = some t → f t = f s + (p s l).toNat) {s u : S} {ls : List L}
    (h : m.run s ls = some u) : f u = f s + m.tally p s ls := by
  induction ls generalizing s with
  | nil =>
      simp only [run_nil, Option.some_inj] at h
      rw [h]
      rfl
  | cons l ls ih =>
      obtain ⟨t, ht, h'⟩ := run_cons_eq_some.1 h
      rw [ih h', hstep s l t ht, tally_cons ht, Nat.add_assoc]

/-- A stronger condition is met less often. -/
theorem tally_le {p q : S → L → Bool} (hpq : ∀ s l, p s l = true → q s l = true) (s : S)
    (ls : List L) : m.tally p s ls ≤ m.tally q s ls := by
  induction ls generalizing s with
  | nil => exact Nat.le_refl 0
  | cons l ls ih =>
      have hl : (p s l).toNat ≤ (q s l).toNat := by
        cases hp : p s l with
        | false => exact Nat.zero_le _
        | true => exact (hpq s l hp).symm ▸ Nat.le_refl 1
      cases hs : m.step s l with
      | none => simpa only [tally, hs] using Nat.add_le_add_right hl 0
      | some t =>
          rw [tally_cons hs, tally_cons hs]
          exact Nat.add_le_add hl (ih t)

/-- Two conditions, one stronger than the other, are met equally often exactly when every step
that meets the weaker one meets the stronger one. -/
theorem tally_eq_iff {p q : S → L → Bool} (hpq : ∀ s l, p s l = true → q s l = true) {s u : S}
    {ls : List L} (h : m.run s ls = some u) :
    m.tally p s ls = m.tally q s ls ↔ m.Along (fun s l => q s l = true → p s l = true) s ls := by
  induction ls generalizing s with
  | nil => simp [tally]
  | cons l ls ih =>
      obtain ⟨t, ht, h'⟩ := run_cons_eq_some.1 h
      rw [tally_cons ht, tally_cons ht, along_cons ht, ← ih h']
      have hle := tally_le (m := m) hpq t ls
      have hl := hpq s l
      cases hp : p s l <;> cases hq : q s l <;> simp_all
      omega

/-! ### Progress -/

/-- **The progress rule.**  The rank never rises, and falls at every label that meets `p`. -/
theorem rank_add_countP_le {I : S → Prop} {rank : S → ℕ} {p : L → Bool}
    (hinv : ∀ s l t, I s → m.step s l = some t → I t)
    (hrank : ∀ s l t, I s → m.step s l = some t → rank t + (p l).toNat ≤ rank s) {s u : S}
    {ls : List L} (hI : I s) (h : m.run s ls = some u) : rank u + ls.countP p ≤ rank s := by
  induction ls generalizing s with
  | nil =>
      simp only [run_nil, Option.some_inj] at h
      subst h
      exact Nat.le_refl (rank s)
  | cons l ls ih =>
      obtain ⟨t, ht, h'⟩ := run_cons_eq_some.1 h
      have htail := ih (hinv s l t hI ht) h'
      have hhead := hrank s l t hI ht
      have hcount : (l :: ls).countP p = ls.countP p + (p l).toNat := by
        rw [List.countP_cons]
        cases p l with
        | false => rfl
        | true => rfl
      omega

/-! ### Erasing the labels a view does not notice -/

/-- **The erasure rule.**  If the kept labels act in the same way on states with the same view, and
the erased ones leave the view alone whenever they meet `p`, then erasing them from a run that
meets `p` changes nothing in the view of its last state. -/
theorem run_erase {view : S → V} {keep : L → Bool} {p : S → L → Prop}
    (hkeep : ∀ s t l s', keep l = true → view s = view t → m.step s l = some s' →
      ∃ t', m.step t l = some t' ∧ view s' = view t')
    (hdrop : ∀ s l s', keep l = false → p s l → m.step s l = some s' → view s' = view s)
    {s t u : S} {ls : List L} (hview : view s = view t) (hp : m.Along p s ls)
    (h : m.run s ls = some u) : ∃ v, m.run t (ls.filter keep) = some v ∧ view v = view u := by
  induction ls generalizing s t with
  | nil =>
      simp only [run_nil, Option.some_inj] at h
      exact ⟨t, rfl, by rw [← hview, h]⟩
  | cons l ls ih =>
      obtain ⟨s', hs', h'⟩ := run_cons_eq_some.1 h
      obtain ⟨hl, hp'⟩ := (along_cons hs').1 hp
      cases hk : keep l with
      | true =>
          obtain ⟨t', ht', hview'⟩ := hkeep s t l s' hk hview hs'
          rw [List.filter_cons_of_pos hk, run_cons ht']
          exact ih hview' hp' h'
      | false =>
          rw [List.filter_cons_of_neg (by simp [hk])]
          exact ih ((hdrop s l s' hk hl hs').trans hview) hp' h'

end Machine
