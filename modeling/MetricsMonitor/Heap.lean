/-
**Heaps of nodes, and the linked lists in them.**

A heap has a cell for every allocation; a cell that has been freed stays as a hole.  An access to a
hole or outside the heap has no result, and neither has freeing a hole, so a program that computes a
result over a heap uses no freed memory and frees nothing twice.

* `Heap.load`, `Heap.alloc`, `Heap.store`, `Heap.free`, `Heap.live` — the operations, and the number
  of cells that are still there;
* `Heap.Segment` — the nodes from one pointer to another;
* `Heap.Segment.nodup` — a list that ends has no node twice;
* `Heap.Forest` — lists without common nodes, and all other cells that are still there;
* `Heap.Forest.change` — **what an operation on one list leaves alone**.
-/

import Mathlib.Data.List.Basic
import Mathlib.Data.List.Nodup
import Mathlib.Data.List.Perm.Basic
import Mathlib.Algebra.BigOperators.Group.List.Basic
import Mathlib.Algebra.Order.Ring.Nat

set_option relaxedAutoImplicit false
set_option autoImplicit false

/-- A heap: its cells by address, `none` where a cell has been freed. -/
abbrev Heap (β : Type*) := List (Option β)

namespace Heap

section Cells

variable {β : Type*}

/-- Reading a cell. -/
def load (a : ℕ) (h : Heap β) : Option β := h[a]?.join

/-- A new cell; its address is the length of the heap. -/
def alloc (x : β) (h : Heap β) : Heap β := h ++ [some x]

/-- Writing to a cell. -/
def store (a : ℕ) (x : β) (h : Heap β) : Option (Heap β) :=
  (load a h).map fun _ => h.set a (some x)

/-- Freeing a cell. -/
def free (a : ℕ) (h : Heap β) : Option (Heap β) := (load a h).map fun _ => h.set a none

/-- The number of cells that have not been freed. -/
def live (h : Heap β) : ℕ := h.countP Option.isSome

variable {h : Heap β} {a : ℕ} {x : β}

theorem load_eq_some_iff : load a h = some x ↔ h[a]? = some (some x) :=
  Option.join_eq_some_iff

theorem lt_of_load (ha : load a h = some x) : a < h.length :=
  (List.getElem?_eq_some_iff.1 (load_eq_some_iff.1 ha)).1

theorem load_alloc (x : β) (h : Heap β) (b : ℕ) :
    load b (alloc x h) = if b = h.length then some x else load b h := by
  unfold load alloc
  rcases Nat.lt_trichotomy b h.length with hlt | rfl | hgt
  · rw [if_neg hlt.ne, List.getElem?_append_left hlt]
  · simp
  · have hlength : (h ++ [some x]).length ≤ b := by
      rw [List.length_append]
      exact hgt
    rw [if_neg hgt.ne', List.getElem?_eq_none hlength, List.getElem?_eq_none hgt.le]

theorem live_alloc (x : β) (h : Heap β) : live (alloc x h) = live h + 1 := by
  simp [live, alloc]

theorem load_set (ha : a < h.length) (y : Option β) (b : ℕ) :
    load b (h.set a y) = if b = a then y else load b h := by
  unfold load
  rw [List.getElem?_set]
  by_cases hb : a = b
  · subst hb
    simp [ha]
  · rw [if_neg hb, if_neg (Ne.symm hb)]

/-- Writing to a cell that is there. -/
theorem store_spec (ha : load a h = some x) (y : β) : ∃ h', store a y h = some h' ∧
    h'.length = h.length ∧ live h' = live h ∧
      ∀ b, load b h' = if b = a then some y else load b h := by
  have hlt := lt_of_load ha
  refine ⟨h.set a (some y), by rw [store, ha, Option.map_some], List.length_set, ?_,
    load_set hlt _⟩
  have hget : h[a] = some x :=
    Option.some_inj.1 ((List.getElem?_eq_getElem hlt).symm.trans (load_eq_some_iff.1 ha))
  have hpos : 0 < h.countP Option.isSome :=
    List.countP_pos_iff.2 ⟨some x, hget ▸ List.getElem_mem hlt, rfl⟩
  rw [live, live, List.countP_set hlt, hget]
  simp only [Option.isSome_some, if_true]
  omega

/-- Freeing a cell that is there. -/
theorem free_spec (ha : load a h = some x) : ∃ h', free a h = some h' ∧
    h'.length = h.length ∧ live h' + 1 = live h ∧
      ∀ b, load b h' = if b = a then none else load b h := by
  have hlt := lt_of_load ha
  refine ⟨h.set a none, by rw [free, ha, Option.map_some], List.length_set, ?_, load_set hlt _⟩
  have hget : h[a] = some x :=
    Option.some_inj.1 ((List.getElem?_eq_getElem hlt).symm.trans (load_eq_some_iff.1 ha))
  have hpos : 0 < h.countP Option.isSome :=
    List.countP_pos_iff.2 ⟨some x, hget ▸ List.getElem_mem hlt, rfl⟩
  rw [live, live, List.countP_set hlt, hget]
  simp only [Option.isSome_some, if_true, Option.isSome_none, Bool.false_eq_true, if_false]
  omega

end Cells

/-! ### Linked lists -/

/-- A node of a linked list. -/
structure Node (α : Type*) where
  item : α
  next : Option ℕ
  deriving DecidableEq

variable {α : Type*}

/-- The nodes from `p` up to `q`, with their addresses and items. -/
def Segment (h : Heap (Node α)) : Option ℕ → List (ℕ × α) → Option ℕ → Prop
  | p, [], q => p = q
  | p, (a, x) :: l, q => p = some a ∧ ∃ next, load a h = some ⟨x, next⟩ ∧ Segment h next l q

theorem segment_append_iff {h : Heap (Node α)} {p q : Option ℕ} {l l' : List (ℕ × α)} :
    Segment h p (l ++ l') q ↔ ∃ r, Segment h p l r ∧ Segment h r l' q := by
  induction l generalizing p with
  | nil => simp [Segment]
  | cons n l ih =>
      obtain ⟨a, x⟩ := n
      simp only [List.cons_append, Segment, ih]
      constructor
      · rintro ⟨rfl, next, ha, r, hl, hl'⟩
        exact ⟨r, ⟨rfl, next, ha, hl⟩, hl'⟩
      · rintro ⟨r, ⟨rfl, next, ha, hl⟩, hl'⟩
        exact ⟨rfl, next, ha, r, hl, hl'⟩

namespace Segment

variable {h h' : Heap (Node α)} {p q : Option ℕ} {l : List (ℕ × α)}

/-- A segment stays where none of its nodes changes. -/
theorem congr (hl : Segment h p l q) (hsame : ∀ a ∈ l.map Prod.fst, load a h' = load a h) :
    Segment h' p l q := by
  induction l generalizing p with
  | nil => exact hl
  | cons n l ih =>
      obtain ⟨a, x⟩ := n
      obtain ⟨rfl, next, ha, hl⟩ := hl
      rw [List.map_cons, List.forall_mem_cons] at hsame
      exact ⟨rfl, next, hsame.1.trans ha, ih hl hsame.2⟩

theorem exists_load (hl : Segment h p l q) {a : ℕ} (ha : a ∈ l.map Prod.fst) :
    ∃ n, load a h = some n := by
  induction l generalizing p with
  | nil => simp at ha
  | cons n l ih =>
      obtain ⟨b, x⟩ := n
      obtain ⟨-, next, hb, hl⟩ := hl
      rcases List.mem_cons.1 ha with rfl | ha
      · exact ⟨_, hb⟩
      · exact ih hl ha

theorem lt (hl : Segment h p l q) {a : ℕ} (ha : a ∈ l.map Prod.fst) : a < h.length := by
  obtain ⟨n, hn⟩ := hl.exists_load ha
  exact lt_of_load hn

/-- A list that ends is determined by where it begins. -/
theorem eq_of_null {l' : List (ℕ × α)} (hl : Segment h p l none) (hl' : Segment h p l' none) :
    l = l' := by
  induction l generalizing p l' with
  | nil =>
      obtain rfl : p = none := hl
      cases l' with
      | nil => rfl
      | cons n l' => exact absurd hl'.1 (by simp)
  | cons n l ih =>
      obtain ⟨a, x⟩ := n
      obtain ⟨rfl, next, ha, hl⟩ := hl
      cases l' with
      | nil => exact absurd hl' (by simp [Segment])
      | cons n' l' =>
          obtain ⟨a', x'⟩ := n'
          obtain ⟨heq, next', ha', hl'⟩ := hl'
          obtain rfl := Option.some_inj.1 heq
          rw [ha, Option.some_inj, Node.mk.injEq] at ha'
          obtain ⟨rfl, rfl⟩ := ha'
          rw [ih hl hl']

/-- **A list that ends has no node twice.** -/
theorem nodup (hl : Segment h p l none) : (l.map Prod.fst).Nodup := by
  induction l generalizing p with
  | nil => exact List.nodup_nil
  | cons n l ih =>
      obtain ⟨a, x⟩ := n
      have hcons := hl
      obtain ⟨rfl, next, ha, hl⟩ := hl
      refine List.nodup_cons.2 ⟨fun hmem => ?_, ih hl⟩
      -- the list would begin again behind its first node
      obtain ⟨⟨b, y⟩, hby, rfl⟩ := List.mem_map.1 hmem
      obtain ⟨l₁, l₂, rfl⟩ := List.append_of_mem hby
      obtain ⟨r, -, hr⟩ := segment_append_iff.1 hl
      have heq := hcons.eq_of_null (hr.1 ▸ hr)
      have hlength := congrArg List.length heq
      simp only [List.length_cons, List.length_append] at hlength
      omega

theorem length_le (hl : Segment h p l none) : l.length ≤ h.length := by
  have hsub : l.map Prod.fst ⊆ List.range h.length := fun a ha => List.mem_range.2 (hl.lt ha)
  simpa using (List.subperm_of_subset hl.nodup hsub).length_le

end Segment

/-! ### Several lists in one heap -/

/-- Lists, by the pointers to their first nodes, that share no node; `leaked` counts the cells that
are there and belong to none of them. -/
structure Forest (h : Heap (Node α)) (roots : List (Option ℕ × List (ℕ × α))) (leaked : ℕ) :
    Prop where
  segment : ∀ r ∈ roots, Segment h r.1 r.2 none
  nodup : (roots.flatMap fun r => r.2.map Prod.fst).Nodup
  live : live h = (roots.map fun r => r.2.length).sum + leaked

namespace Forest

variable {h h' : Heap (Node α)} {roots : List (Option ℕ × List (ℕ × α))} {leaked leaked' : ℕ}
  {p p' : Option ℕ} {l l' : List (ℕ × α)}

theorem perm (hf : Forest h roots leaked) {roots' : List (Option ℕ × List (ℕ × α))}
    (hperm : roots.Perm roots') : Forest h roots' leaked where
  segment r hr := hf.segment r (hperm.mem_iff.2 hr)
  nodup := (hperm.flatMap_right _).nodup_iff.1 hf.nodup
  live := hf.live.trans (congrArg (· + leaked) (hperm.map _).sum_eq)

theorem head (hf : Forest h ((p, l) :: roots) leaked) : Segment h p l none :=
  hf.segment _ (List.mem_cons_self ..)

/-- **An operation on one list** that changes no other cell, and uses its own nodes and new ones,
leaves the other lists as they are. -/
theorem change (hf : Forest h ((p, l) :: roots) leaked)
    (hsame : ∀ b < h.length, b ∉ l.map Prod.fst → load b h' = load b h)
    (hl' : Segment h' p' l' none)
    (hnodes : ∀ a ∈ l'.map Prod.fst, a ∈ l.map Prod.fst ∨ h.length ≤ a)
    (hlive : Heap.live h' + l.length + leaked = Heap.live h + l'.length + leaked') :
    Forest h' ((p', l') :: roots) leaked' := by
  have hapart : ∀ a ∈ l.map Prod.fst, ∀ r ∈ roots, a ∉ r.2.map Prod.fst := by
    intro a ha r hr hmem
    have hdisjoint := (List.nodup_append.1 hf.nodup).2.2
    exact hdisjoint a ha a (List.mem_flatMap.2 ⟨r, hr, hmem⟩) rfl
  refine ⟨List.forall_mem_cons.2 ⟨hl', fun r hr => ?_⟩, ?_, ?_⟩
  · have hr' := hf.segment r (List.mem_cons_of_mem _ hr)
    refine hr'.congr fun b hb => hsame b (hr'.lt hb) fun hmem => ?_
    exact hapart b hmem r hr hb
  · rw [List.flatMap_cons, List.nodup_append]
    refine ⟨hl'.nodup, (List.nodup_append.1 hf.nodup).2.1, fun a ha b hb heq => ?_⟩
    subst heq
    obtain ⟨r, hr, hmem⟩ := List.mem_flatMap.1 hb
    rcases hnodes a ha with hold | hnew
    · exact hapart a hold r hr hmem
    · exact absurd ((hf.segment r (List.mem_cons_of_mem _ hr)).lt hmem) (not_lt.2 hnew)
  · have hbefore := hf.live
    rw [List.map_cons, List.sum_cons] at hbefore ⊢
    dsimp only at hbefore ⊢
    omega

/-- Freeing the first node of a list. -/
theorem free_head {a : ℕ} {x : α} (hf : Forest h ((p, (a, x) :: l) :: roots) leaked) :
    p = some a ∧ ∃ next h', load a h = some ⟨x, next⟩ ∧ free a h = some h' ∧
      Forest h' ((next, l) :: roots) leaked := by
  have hnodup : a ∉ l.map Prod.fst := (List.nodup_cons.1 hf.head.nodup).1
  obtain ⟨rfl, next, ha, hl⟩ := hf.head
  obtain ⟨h', hfree, -, hlive, hload⟩ := free_spec ha
  refine ⟨rfl, next, h', ha, hfree, hf.change (fun b _ hmem => ?_) (hl.congr fun b hb => ?_)
    (fun b hb => Or.inl (List.mem_cons_of_mem _ hb)) ?_⟩
  · rw [hload, if_neg (by rintro rfl; simp at hmem)]
  · rw [hload, if_neg (by rintro rfl; exact hnodup hb)]
  · rw [List.length_cons]
    omega

/-- Storing another item in a node. -/
theorem store_item {l₁ l₂ : List (ℕ × α)} {a : ℕ} {x : α}
    (hf : Forest h ((p, l₁ ++ (a, x) :: l₂) :: roots) leaked) (y : α) :
    ∃ next h', load a h = some ⟨x, next⟩ ∧ store a ⟨y, next⟩ h = some h' ∧
      Forest h' ((p, l₁ ++ (a, y) :: l₂) :: roots) leaked := by
  have hnodup := hf.head.nodup
  obtain ⟨r, hl₁, rfl, next, ha, hl₂⟩ := segment_append_iff.1 hf.head
  obtain ⟨h', hstore, -, hlive, hload⟩ := store_spec ha (⟨y, next⟩ : Node α)
  have hother : ∀ b ∈ (l₁ ++ l₂).map Prod.fst, b ≠ a := by
    rintro b hb rfl
    have hperm : (l₁ ++ (b, x) :: l₂).Perm ((b, x) :: (l₁ ++ l₂)) := List.perm_middle
    exact (List.nodup_cons.1 ((hperm.map Prod.fst).nodup_iff.1 hnodup)).1 hb
  rw [List.map_append, List.forall_mem_append] at hother
  refine ⟨next, h', ha, hstore, hf.change (fun b _ hmem => ?_) ?_ (fun b hb => Or.inl ?_) ?_⟩
  · rw [hload, if_neg (by rintro rfl; simp at hmem)]
  · refine segment_append_iff.2 ⟨some a, hl₁.congr fun b hb => ?_, rfl, next, ?_,
      hl₂.congr fun b hb => ?_⟩
    · rw [hload, if_neg (hother.1 b hb)]
    · rw [hload, if_pos rfl]
    · rw [hload, if_neg (hother.2 b hb)]
  · simpa using hb
  · rw [hlive, List.length_append, List.length_append]
    rfl

/-- Null pointers are lists too. -/
theorem nil_append {roots' : List (Option ℕ × List (ℕ × α))} (hf : Forest h roots leaked)
    (hnil : ∀ r ∈ roots', r = (none, [])) : Forest h (roots' ++ roots) leaked := by
  induction roots' with
  | nil => exact hf
  | cons r roots' ih =>
      rw [List.forall_mem_cons] at hnil
      obtain ⟨rfl, hnil⟩ := hnil
      have hf' := ih hnil
      exact ⟨List.forall_mem_cons.2 ⟨rfl, hf'.segment⟩, hf'.nodup, by simpa using hf'.live⟩

/-- Lists without nodes do not matter. -/
theorem of_append_nil {roots' : List (Option ℕ × List (ℕ × α))}
    (hf : Forest h (roots ++ roots') leaked) (hnil : ∀ r ∈ roots', r.2 = []) :
    Forest h roots leaked where
  segment r hr := hf.segment r (List.mem_append_left _ hr)
  nodup := by
    have hnodup := hf.nodup
    rw [List.flatMap_append, List.nodup_append] at hnodup
    exact hnodup.1
  live := by
    have hzero : (roots'.map fun r => r.2.length).sum = 0 := by
      refine List.sum_eq_zero fun n hn => ?_
      obtain ⟨r, hr, rfl⟩ := List.mem_map.1 hn
      rw [hnil r hr]
      rfl
    rw [hf.live, List.map_append, List.sum_append, hzero, Nat.add_zero]

end Forest

end Heap
