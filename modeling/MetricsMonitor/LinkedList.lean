/-
**Linked lists: `prom_linked_list.c`, with the nodes in a heap.**

The lists of libprom have a pointer to their first and to their last node and a counter.  The
functions are modelled as the code has them, pointer by pointer, and refine lists of items.

* `Monitor.Pll` and `Monitor.pllAppend`, `Monitor.pllPush`, `Monitor.pllPop`, `Monitor.pllRemove`,
  `Monitor.pllPurge` — the functions;
* `Monitor.Pll.Fits` — what the pointer to the last node and the counter are;
* `Monitor.pll_refines` — **every sequence of calls uses no freed node, frees none twice and
  computes the list**; a node is lost for every item that is taken with `pll_pop`.
-/

import MetricsMonitor.Heap

set_option relaxedAutoImplicit false
set_option autoImplicit false

namespace Monitor

open Heap (Node Segment Forest)

variable {α : Type*}

/-- The nodes of lists; an item may be a null pointer. -/
abbrev Nodes (α : Type*) := Heap (Node (Option α))

/-- `pll_t`, without its functions. -/
structure Pll where
  head : Option ℕ
  tail : Option ℕ
  size : ℕ
  deriving DecidableEq

/-! ### The functions of `prom_linked_list.c` -/

/-- `pll_new`. -/
def pllNew : Pll := ⟨none, none, 0⟩

/-- `pll_append`; `ok` is whether `malloc` works, and the result whether the function succeeds. -/
def pllAppend (ok : Bool) (item : Option α) (self : Pll) (h : Nodes α) :
    Option (Bool × Pll × Nodes α) :=
  if ok then
    let node := h.length
    let h := Heap.alloc ⟨item, none⟩ h
    match self.tail with
    | some tail =>
        (Heap.load tail h).bind fun n => (Heap.store tail { n with next := some node } h).map
          fun h => (true, ⟨self.head, some node, self.size + 1⟩, h)
    | none => some (true, ⟨some node, some node, self.size + 1⟩, h)
  else some (false, self, h)

/-- `pll_push`. -/
def pllPush (ok : Bool) (item : Option α) (self : Pll) (h : Nodes α) : Bool × Pll × Nodes α :=
  if ok then
    let node := h.length
    (true, ⟨some node, if self.tail = none then some node else self.tail, self.size + 1⟩,
      Heap.alloc ⟨item, self.head⟩ h)
  else (false, self, h)

/-- `pll_pop`: the item, and the items given to the function that frees them.  The node is not
freed. -/
def pllPop (self : Pll) (h : Nodes α) : Option (Option α × List α × Pll × Nodes α) :=
  match self.head with
  | none => some (none, [], self, h)
  | some node =>
      (Heap.load node h).bind fun n => (Heap.store node { n with item := none } h).map fun h =>
        (n.item, n.item.toList,
          ⟨n.next, if self.tail = some node then none else self.tail, self.size - 1⟩, h)

/-- The loop of `pll_remove`: the node in front of the first one with an item that is hit, and this
node. -/
def pllLocate (hit : Option α → Bool) (h : Nodes α) :
    ℕ → Option ℕ → Option ℕ → Option (Option ℕ × Option ℕ)
  | 0, _, _ => none
  | _ + 1, prev, none => some (prev, none)
  | fuel + 1, prev, some node =>
      (Heap.load node h).bind fun n =>
        if hit n.item then some (prev, some node) else pllLocate hit h fuel (some node) n.next

/-- `pll_remove`; `hit` compares an item with the one to be removed.  The result has the items
given to the function that frees them. -/
def pllRemove (hit : Option α → Bool) (self : Pll) (h : Nodes α) :
    Option (List α × Pll × Nodes α) :=
  (pllLocate hit h (h.length + 1) none self.head).bind fun
    | (_, none) => some ([], self, h)
    | (prev, some node) =>
        (Heap.load node h).bind fun n =>
          (match prev with
            | some prev =>
                (Heap.load prev h).bind fun m => Heap.store prev { m with next := n.next } h
            | none => some h).bind fun h =>
          (Heap.free node h).map fun h =>
            (n.item.toList, ⟨if prev = none then n.next else self.head,
              if n.next = none then prev else self.tail, self.size - 1⟩, h)

/-- The loop of `pll_purge`. -/
def pllPurgeLoop : ℕ → Option ℕ → List α → Nodes α → Option (List α × Nodes α)
  | 0, _, _, _ => none
  | _ + 1, none, released, h => some (released, h)
  | fuel + 1, some node, released, h =>
      (Heap.load node h).bind fun n => (Heap.free node h).bind fun h =>
        pllPurgeLoop fuel n.next (released ++ n.item.toList) h

/-- `pll_purge`, and the part of `pll_destroy` that is about the nodes. -/
def pllPurge (self : Pll) (h : Nodes α) : Option (List α × Pll × Nodes α) :=
  (pllPurgeLoop (h.length + 1) self.head [] h).map fun (released, h) => (released, pllNew, h)

/-- `pll_first`. -/
def pllFirst (self : Pll) (h : Nodes α) : Option (Option α) :=
  match self.head with
  | none => some none
  | some node => (Heap.load node h).map (·.item)

/-- `pll_last`. -/
def pllLast (self : Pll) (h : Nodes α) : Option (Option α) :=
  match self.tail with
  | none => some none
  | some node => (Heap.load node h).map (·.item)

/-- The items that those who iterate over a list meet. -/
def pllItems (h : Nodes α) : ℕ → Option ℕ → Option (List (Option α))
  | 0, _ => none
  | _ + 1, none => some []
  | fuel + 1, some node =>
      (Heap.load node h).bind fun n => (pllItems h fuel n.next).map (n.item :: ·)

/-! ### What a list is in a heap -/

/-- The pointer to the last node and the counter of a list with these nodes. -/
structure Pll.Fits (p : Pll) (l : List (ℕ × Option α)) : Prop where
  tail : p.tail = (l.map Prod.fst).getLast?
  size : p.size = l.length

theorem pllNew_fits : pllNew.Fits ([] : List (ℕ × Option α)) := ⟨rfl, rfl⟩

/-- They do not depend on the items. -/
theorem Pll.Fits.congr {p : Pll} {l l' : List (ℕ × Option α)} (h : p.Fits l)
    (hl : l'.map Prod.fst = l.map Prod.fst) : p.Fits l' where
  tail := by rw [hl, h.tail]
  size := by rw [h.size, ← List.length_map Prod.fst, ← hl, List.length_map]

section Specs

variable {h : Nodes α} {self : Pll} {l : List (ℕ × Option α)}
  {roots : List (Option ℕ × List (ℕ × Option α))} {leaked : ℕ}

/-- Appending an item. -/
theorem pllAppend_spec (hf : Forest h ((self.head, l) :: roots) leaked) (hfits : self.Fits l)
    (item : Option α) : ∃ self' h', pllAppend true item self h = some (true, self', h') ∧
      Forest h' ((self'.head, l ++ [(h.length, item)]) :: roots) leaked ∧
      self'.Fits (l ++ [(h.length, item)]) := by
  have hseg := hf.head
  have hload (b : ℕ) := Heap.load_alloc (⟨item, none⟩ : Node (Option α)) h b
  have hlive := Heap.live_alloc (⟨item, none⟩ : Node (Option α)) h
  have hnodes : ∀ a ∈ (l ++ [(h.length, item)]).map Prod.fst,
      a ∈ l.map Prod.fst ∨ h.length ≤ a := by
    intro a ha
    rw [List.map_append, List.mem_append] at ha
    exact ha.imp id fun ha => (List.mem_singleton.1 ha).ge
  rcases List.eq_nil_or_concat l with rfl | ⟨l₀, ⟨t, x⟩, rfl⟩
  · have htail : self.tail = none := hfits.tail
    refine ⟨⟨some h.length, some h.length, self.size + 1⟩, Heap.alloc ⟨item, none⟩ h, ?_, ?_, rfl,
      ?_⟩
    · rw [pllAppend, if_pos rfl, htail]
    · refine hf.change (fun b hb _ => ?_) ⟨rfl, none, ?_, rfl⟩ hnodes ?_
      · rw [hload, if_neg hb.ne]
      · rw [hload, if_pos rfl]
      · rw [hlive]
        simp
    · rw [hfits.size]
      rfl
  · have htail : self.tail = some t := by
      rw [hfits.tail]
      simp
    rw [List.concat_eq_append] at hseg hf hnodes hfits ⊢
    obtain ⟨r, hl₀, rfl, next, ht, rfl⟩ := Heap.segment_append_iff.1 hseg
    have htlt := Heap.lt_of_load ht
    have ht' : Heap.load t (Heap.alloc ⟨item, none⟩ h) = some ⟨x, none⟩ := by
      rw [hload, if_neg htlt.ne, ht]
    obtain ⟨h', hstore, hlength, hlive', hload'⟩ :=
      Heap.store_spec ht' (⟨x, some h.length⟩ : Node (Option α))
    refine ⟨⟨self.head, some h.length, self.size + 1⟩, h', ?_, ?_, ?_, ?_⟩
    · rw [pllAppend, if_pos rfl, htail]
      dsimp only
      rw [ht', Option.bind_some, hstore, Option.map_some]
    · refine hf.change (fun b hb hmem => ?_) ?_ hnodes ?_
      · rw [hload', if_neg (by rintro rfl; simp at hmem), hload, if_neg hb.ne]
      · rw [List.append_assoc]
        refine Heap.segment_append_iff.2 ⟨some t, hl₀.congr fun a ha => ?_, rfl, some h.length, ?_,
          rfl, none, ?_, rfl⟩
        · have hne : a ≠ t := by
            rintro rfl
            have hnodup := hseg.nodup
            rw [List.map_append, List.nodup_append] at hnodup
            exact hnodup.2.2 a ha a (by simp) rfl
          rw [hload', if_neg hne, hload, if_neg (hl₀.lt ha).ne]
        · rw [hload', if_pos rfl]
        · rw [hload', if_neg htlt.ne', hload, if_pos rfl]
      · rw [hlive', hlive, List.length_append, List.length_append, List.length_append]
        simp only [List.length_singleton]
        omega
    · simp
    · rw [hfits.size, List.length_append, List.length_append, List.length_append]
      rfl

/-- Pushing an item. -/
theorem pllPush_spec (hf : Forest h ((self.head, l) :: roots) leaked) (hfits : self.Fits l)
    (item : Option α) : ∃ self' h', pllPush true item self h = (true, self', h') ∧
      Forest h' ((self'.head, (h.length, item) :: l) :: roots) leaked ∧
      self'.Fits ((h.length, item) :: l) := by
  have hseg := hf.head
  have hload (b : ℕ) := Heap.load_alloc (⟨item, self.head⟩ : Node (Option α)) h b
  refine ⟨_, _, rfl, ?_, ?_, ?_⟩
  · refine hf.change (fun b hb _ => ?_) ⟨rfl, self.head, ?_, hseg.congr fun a ha => ?_⟩
      (fun a ha => ?_) ?_
    · rw [hload, if_neg hb.ne]
    · rw [hload, if_pos rfl]
    · rw [hload, if_neg (hseg.lt ha).ne]
    · exact (List.mem_cons.1 ha).elim (fun ha => Or.inr ha.ge) Or.inl
    · rw [Heap.live_alloc, List.length_cons]
      omega
  · rw [hfits.tail, List.map_cons, List.getLast?_cons]
    cases (l.map Prod.fst).getLast? <;> rfl
  · rw [hfits.size]
    rfl

/-- Taking the first item: the node is lost. -/
theorem pllPop_spec {a : ℕ} {x : Option α}
    (hf : Forest h ((self.head, (a, x) :: l) :: roots) leaked) (hfits : self.Fits ((a, x) :: l)) :
    ∃ self' h', pllPop self h = some (x, x.toList, self', h') ∧
      Forest h' ((self'.head, l) :: roots) (leaked + 1) ∧ self'.Fits l := by
  have hseg := hf.head
  obtain ⟨hhead, next, ha, hl⟩ := hseg
  obtain ⟨h', hstore, hlength, hlive, hload⟩ :=
    Heap.store_spec ha (⟨none, next⟩ : Node (Option α))
  have hnodup : a ∉ l.map Prod.fst := (List.nodup_cons.1 hf.head.nodup).1
  refine ⟨⟨next, if self.tail = some a then none else self.tail, self.size - 1⟩, h', ?_, ?_, ?_, ?_⟩
  · rw [pllPop, hhead]
    dsimp only
    rw [ha, Option.bind_some, hstore, Option.map_some]
  · refine hf.change (fun b hb hmem => ?_) (hl.congr fun b hb => ?_) (fun b hb => ?_) ?_
    · rw [hload, if_neg (by rintro rfl; simp at hmem)]
    · rw [hload, if_neg (by rintro rfl; exact hnodup hb)]
    · exact Or.inl (List.mem_cons_of_mem _ hb)
    · rw [hlive, List.length_cons]
      omega
  · dsimp only
    rw [hfits.tail, List.map_cons, List.getLast?_cons]
    cases hlast : (l.map Prod.fst).getLast? with
    | none => simp
    | some b =>
        have hne : b ≠ a := by
          rintro rfl
          exact hnodup (List.mem_of_getLast? hlast)
        simp [hne]
  · dsimp only
    rw [hfits.size]
    rfl

/-- **The loop of `pll_remove`** finds the first node with an item that is hit, and the node in
front of it. -/
theorem pllLocate_eq {hit : Option α → Bool} {p : Option ℕ} (hl : Segment h p l none) {fuel : ℕ}
    (hfuel : l.length < fuel) (prev : Option ℕ) :
    pllLocate hit h fuel prev p =
      some ((((l.takeWhile fun n => !hit n.2).map Prod.fst).getLast?).or prev,
        (l.find? fun n => hit n.2).map Prod.fst) := by
  induction l generalizing p fuel prev with
  | nil =>
      obtain rfl : p = none := hl
      obtain ⟨fuel, rfl⟩ := Nat.exists_eq_succ_of_ne_zero (Nat.ne_of_gt hfuel)
      rfl
  | cons n l ih =>
      obtain ⟨a, x⟩ := n
      obtain ⟨rfl, next, ha, hl⟩ := hl
      obtain ⟨fuel, rfl⟩ := Nat.exists_eq_succ_of_ne_zero (Nat.ne_zero_of_lt hfuel)
      rw [pllLocate, ha, Option.bind_some]
      cases hhit : hit x with
      | true => simp [hhit]
      | false =>
          rw [if_neg Bool.false_ne_true, ih hl (Nat.lt_of_succ_lt_succ hfuel)]
          rw [List.takeWhile_cons_of_pos (by simp [hhit]), List.find?_cons_of_neg (by simp [hhit]),
            List.map_cons, List.getLast?_cons]
          cases ((l.takeWhile fun n => !hit n.2).map Prod.fst).getLast? <;> rfl

/-- Removing an item that is not there. -/
theorem pllRemove_of_not_hit {hit : Option α → Bool}
    (hf : Forest h ((self.head, l) :: roots) leaked) (hnone : ∀ n ∈ l, hit n.2 = false) :
    pllRemove hit self h = some ([], self, h) := by
  have hfind : (l.find? fun n => hit n.2) = none := List.find?_eq_none.2 fun n hn => by
    simp [hnone n hn]
  rw [pllRemove, pllLocate_eq hf.head (Nat.lt_succ_of_le hf.head.length_le), hfind]
  rfl

/-- Removing the first item that is hit. -/
theorem pllRemove_of_hit {hit : Option α → Bool} {l₁ l₂ : List (ℕ × Option α)} {a : ℕ}
    {x : Option α} (hf : Forest h ((self.head, l₁ ++ (a, x) :: l₂) :: roots) leaked)
    (hfits : self.Fits (l₁ ++ (a, x) :: l₂)) (hl₁ : ∀ n ∈ l₁, hit n.2 = false)
    (hx : hit x = true) :
    ∃ self' h', pllRemove hit self h = some (x.toList, self', h') ∧
      Forest h' ((self'.head, l₁ ++ l₂) :: roots) leaked ∧ self'.Fits (l₁ ++ l₂) := by
  have hseg := hf.head
  have hnodup := hseg.nodup
  have htake : ((l₁ ++ (a, x) :: l₂).takeWhile fun n => !hit n.2) = l₁ := by
    rw [List.takeWhile_append_of_pos fun n hn => by simp [hl₁ n hn],
      List.takeWhile_cons_of_neg (by simp [hx]), List.append_nil]
  have hfind : ((l₁ ++ (a, x) :: l₂).find? fun n => hit n.2) = some (a, x) :=
    List.find?_eq_some_iff_append.2 ⟨hx, l₁, l₂, rfl, fun n hn => by simp [hl₁ n hn]⟩
  have hlocate : pllLocate hit h (h.length + 1) none self.head =
      some ((l₁.map Prod.fst).getLast?, some a) := by
    rw [pllLocate_eq hseg (Nat.lt_succ_of_le hseg.length_le), htake, hfind, Option.or_none]
    rfl
  obtain ⟨r, hl₁seg, rfl, next, ha, hl₂seg⟩ := Heap.segment_append_iff.1 hseg
  have hmem (b : ℕ) (hb : b ∈ (l₁ ++ l₂).map Prod.fst) : b ≠ a := by
    rintro rfl
    have hperm : (l₁ ++ (b, x) :: l₂).Perm ((b, x) :: (l₁ ++ l₂)) := List.perm_middle
    exact (List.nodup_cons.1 ((hperm.map Prod.fst).nodup_iff.1 hnodup)).1 hb
  have hnodes : ∀ b ∈ (l₁ ++ l₂).map Prod.fst,
      b ∈ (l₁ ++ (a, x) :: l₂).map Prod.fst ∨ h.length ≤ b := by
    intro b hb
    rw [List.map_append, List.mem_append] at hb
    refine Or.inl ?_
    rw [List.map_append, List.mem_append, List.map_cons]
    exact hb.imp id (List.mem_cons_of_mem _)
  have hsize : self.size - 1 = (l₁ ++ l₂).length := by
    rw [hfits.size]
    simp
  have hnext : next = (l₂.map Prod.fst).head? := by
    cases l₂ with
    | nil => exact hl₂seg
    | cons n l₂ => exact hl₂seg.1
  rcases List.eq_nil_or_concat l₁ with rfl | ⟨l₀, ⟨t, y⟩, rfl⟩
  · -- the first node goes
    obtain ⟨h', hfree, hlength, hlive, hload⟩ := Heap.free_spec ha
    refine ⟨⟨next, if next = none then none else self.tail, self.size - 1⟩, h', ?_, ?_, ?_, hsize⟩
    · rw [pllRemove, hlocate, Option.bind_some]
      dsimp only
      rw [ha, Option.bind_some, List.map_nil, List.getLast?_nil]
      dsimp only
      rw [Option.bind_some, hfree, Option.map_some, if_pos rfl]
    · refine hf.change (fun b hb hbmem => ?_) (hl₂seg.congr fun b hb => ?_) hnodes ?_
      · rw [hload, if_neg (by rintro rfl; simp at hbmem)]
      · rw [hload, if_neg (hmem b hb)]
      · simp only [List.nil_append, List.length_cons]
        omega
    · dsimp only
      rw [hfits.tail, hnext]
      cases l₂ with
      | nil => rfl
      | cons n l₂ => simp
  · -- the node in front is linked to the one behind
    rw [List.concat_eq_append] at *
    obtain ⟨r, hl₀, hr, next', ht, hlink⟩ := Heap.segment_append_iff.1 hl₁seg
    subst hr
    obtain rfl : next' = some a := hlink
    obtain ⟨h₁, hstore, hlength₁, hlive₁, hload₁⟩ :=
      Heap.store_spec ht (⟨y, next⟩ : Node (Option α))
    have hta : t ≠ a := hmem t (by simp)
    have ha₁ : Heap.load a h₁ = some ⟨x, next⟩ := by
      rw [hload₁, if_neg hta.symm, ha]
    obtain ⟨h', hfree, hlength, hlive, hload⟩ := Heap.free_spec ha₁
    have hother (b : ℕ) (hbt : b ≠ t) (hba : b ≠ a) : Heap.load b h' = Heap.load b h := by
      rw [hload, if_neg hba, hload₁, if_neg hbt]
    have ht₀ : ∀ b ∈ l₀.map Prod.fst, b ≠ t := by
      rintro b hb rfl
      rw [List.map_append, List.map_append, List.nodup_append, List.nodup_append] at hnodup
      exact hnodup.1.2.2 b hb b (by simp) rfl
    have ht₂ : ∀ b ∈ l₂.map Prod.fst, b ≠ t := by
      rintro b hb rfl
      rw [List.map_append, List.nodup_append] at hnodup
      exact hnodup.2.2 b (by simp) b (List.mem_cons_of_mem _ hb) rfl
    refine ⟨⟨self.head, if next = none then some t else self.tail, self.size - 1⟩, h', ?_, ?_, ?_,
      hsize⟩
    · rw [pllRemove, hlocate, Option.bind_some]
      dsimp only
      rw [ha, Option.bind_some, List.map_append, List.map_singleton, List.getLast?_concat]
      dsimp only
      rw [ht, Option.bind_some, hstore, Option.bind_some, hfree, Option.map_some,
        if_neg (by simp)]
    · refine hf.change (fun b hb hbmem => ?_) ?_ hnodes ?_
      · refine hother b ?_ ?_ <;> rintro rfl <;> simp at hbmem
      · rw [List.append_assoc]
        refine Heap.segment_append_iff.2 ⟨some t, hl₀.congr fun b hb => ?_, rfl, next, ?_,
          hl₂seg.congr fun b hb => ?_⟩
        · exact hother b (ht₀ b hb) (hmem b (by simp [List.mem_map.1 hb]))
        · rw [hload, if_neg hta, hload₁, if_pos rfl]
        · exact hother b (ht₂ b hb) (hmem b (by simp [List.mem_map.1 hb]))
      · simp only [List.length_append, List.length_cons]
        omega
    · dsimp only
      rw [hfits.tail, hnext]
      cases l₂ with
      | nil => simp
      | cons n l₂ => simp [List.getLast?_append]

/-- Freeing all nodes. -/
theorem pllPurgeLoop_eq {p : Option ℕ} (hf : Forest h ((p, l) :: roots) leaked) {fuel : ℕ}
    (hfuel : l.length < fuel) (released : List α) :
    ∃ h', pllPurgeLoop fuel p released h = some (released ++ l.filterMap Prod.snd, h') ∧
      Forest h' ((none, []) :: roots) leaked := by
  induction l generalizing p h fuel released with
  | nil =>
      obtain rfl : p = none := hf.head
      obtain ⟨fuel, rfl⟩ := Nat.exists_eq_succ_of_ne_zero (Nat.ne_of_gt hfuel)
      exact ⟨h, by rw [pllPurgeLoop, List.filterMap_nil, List.append_nil], hf⟩
  | cons n l ih =>
      obtain ⟨a, x⟩ := n
      obtain ⟨rfl, next, h₁, ha, hfree, hf₁⟩ := hf.free_head
      obtain ⟨fuel, rfl⟩ := Nat.exists_eq_succ_of_ne_zero (Nat.ne_zero_of_lt hfuel)
      obtain ⟨h', hloop, hf'⟩ := ih hf₁ (Nat.lt_of_succ_lt_succ hfuel) (released ++ x.toList)
      refine ⟨h', ?_, hf'⟩
      rw [pllPurgeLoop, ha, Option.bind_some, hfree, Option.bind_some, hloop, List.append_assoc]
      cases x <;> rfl

/-- Purging a list. -/
theorem pllPurge_spec (hf : Forest h ((self.head, l) :: roots) leaked) :
    ∃ h', pllPurge self h = some (l.filterMap Prod.snd, pllNew, h') ∧
      Forest h' ((none, []) :: roots) leaked := by
  obtain ⟨h', hloop, hf'⟩ := pllPurgeLoop_eq hf (Nat.lt_succ_of_le hf.head.length_le) []
  exact ⟨h', by rw [pllPurge, hloop]; rfl, hf'⟩

/-- Iterating over a list. -/
theorem pllItems_eq {p : Option ℕ} (hl : Segment h p l none) {fuel : ℕ} (hfuel : l.length < fuel) :
    pllItems h fuel p = some (l.map Prod.snd) := by
  induction l generalizing p fuel with
  | nil =>
      obtain rfl : p = none := hl
      obtain ⟨fuel, rfl⟩ := Nat.exists_eq_succ_of_ne_zero (Nat.ne_of_gt hfuel)
      rfl
  | cons n l ih =>
      obtain ⟨a, x⟩ := n
      obtain ⟨rfl, next, ha, hl⟩ := hl
      obtain ⟨fuel, rfl⟩ := Nat.exists_eq_succ_of_ne_zero (Nat.ne_zero_of_lt hfuel)
      rw [pllItems, ha, Option.bind_some, ih hl (Nat.lt_of_succ_lt_succ hfuel)]
      rfl

/-- The first item. -/
theorem pllFirst_eq (hl : Segment h self.head l none) :
    pllFirst self h = some (l.map Prod.snd).head?.join := by
  cases l with
  | nil =>
      rw [pllFirst, show self.head = none from hl]
      rfl
  | cons n l =>
      obtain ⟨a, x⟩ := n
      obtain ⟨hhead, next, ha, -⟩ := hl
      rw [pllFirst, hhead]
      dsimp only
      rw [ha]
      rfl

/-- The last item. -/
theorem pllLast_eq (hl : Segment h self.head l none) (hfits : self.Fits l) :
    pllLast self h = some (l.map Prod.snd).getLast?.join := by
  rcases List.eq_nil_or_concat l with rfl | ⟨l₀, ⟨a, x⟩, rfl⟩
  · rw [pllLast, hfits.tail]
    rfl
  · rw [List.concat_eq_append] at hl hfits ⊢
    obtain ⟨r, -, -, next, ha, -⟩ := Heap.segment_append_iff.1 hl
    have htail : self.tail = some a := by
      rw [hfits.tail]
      simp
    rw [pllLast, htail]
    dsimp only
    rw [ha]
    simp

end Specs

/-! ### Sequences of calls -/

/-- A call of a function that changes a list. -/
inductive PllCall (α : Type*)
  | append (ok : Bool) (item : Option α)
  | push (ok : Bool) (item : Option α)
  | pop
  | remove (hit : Option α → Bool)
  | purge

/-- A list, its nodes, and the items given to the function that frees them so far. -/
structure PllState (α : Type*) where
  list : Pll
  nodes : Nodes α
  released : List α

/-- Performing a call; `none` is undefined behaviour. -/
def PllCall.perform (s : PllState α) : PllCall α → Option (PllState α)
  | append ok item =>
      (pllAppend ok item s.list s.nodes).map fun r => { s with list := r.2.1, nodes := r.2.2 }
  | push ok item =>
      let r := pllPush ok item s.list s.nodes
      some { s with list := r.2.1, nodes := r.2.2 }
  | pop =>
      (pllPop s.list s.nodes).map fun r => ⟨r.2.2.1, r.2.2.2, s.released ++ r.2.1⟩
  | remove hit =>
      (pllRemove hit s.list s.nodes).map fun r => ⟨r.2.1, r.2.2, s.released ++ r.1⟩
  | purge =>
      (pllPurge s.list s.nodes).map fun r => ⟨r.2.1, r.2.2, s.released ++ r.1⟩

/-- Calls one after another on a new list. -/
def pllRun (calls : List (PllCall α)) : Option (PllState α) :=
  calls.foldlM PllCall.perform ⟨pllNew, [], []⟩

/-- A list of items, what has been freed, and how many items have been popped. -/
structure Items (α : Type*) where
  items : List (Option α)
  released : List α
  popped : ℕ

/-- What a call means for the items. -/
def PllCall.apply (t : Items α) : PllCall α → Items α
  | append ok item => if ok then { t with items := t.items ++ [item] } else t
  | push ok item => if ok then { t with items := item :: t.items } else t
  | pop =>
      match t.items with
      | [] => t
      | x :: items => ⟨items, t.released ++ x.toList, t.popped + 1⟩
  | remove hit =>
      ⟨t.items.eraseP hit, t.released ++ (t.items.find? hit).join.toList, t.popped⟩
  | purge => ⟨[], t.released ++ t.items.reduceOption, t.popped⟩

/-- What calls mean for the items of a new list. -/
def itemsAfter (calls : List (PllCall α)) : Items α := calls.foldl PllCall.apply ⟨[], [], 0⟩

/-- A list in its heap, with these items; the nodes of the popped ones are lost. -/
structure PllState.Represents (s : PllState α) (t : Items α) (l : List (ℕ × Option α)) : Prop where
  forest : Forest s.nodes [(s.list.head, l)] t.popped
  fits : s.list.Fits l
  items : l.map Prod.snd = t.items
  released : s.released = t.released

/-- **One call.** -/
theorem PllState.Represents.perform {s : PllState α} {t : Items α} {l : List (ℕ × Option α)}
    (h : s.Represents t l) (c : PllCall α) :
    ∃ s' l', c.perform s = some s' ∧ s'.Represents (c.apply t) l' := by
  obtain ⟨list, nodes, released⟩ := s
  obtain ⟨items, released', popped⟩ := t
  obtain ⟨hforest, hfits, hitems, hreleased⟩ := h
  dsimp only at hforest hfits hitems hreleased
  subst hitems hreleased
  cases c with
  | append ok item =>
      cases ok with
      | false => exact ⟨_, l, rfl, hforest, hfits, rfl, rfl⟩
      | true =>
          obtain ⟨list', nodes', hcall, hforest', hfits'⟩ := pllAppend_spec hforest hfits item
          refine ⟨⟨list', nodes', released⟩, _, ?_, hforest', hfits', ?_, rfl⟩
          · rw [PllCall.perform, hcall]
            rfl
          · rw [List.map_append]
            rfl
  | push ok item =>
      cases ok with
      | false => exact ⟨_, l, rfl, hforest, hfits, rfl, rfl⟩
      | true =>
          obtain ⟨list', nodes', hcall, hforest', hfits'⟩ := pllPush_spec hforest hfits item
          refine ⟨⟨list', nodes', released⟩, _, ?_, hforest', hfits', rfl, rfl⟩
          rw [PllCall.perform, hcall]
  | pop =>
      cases l with
      | nil =>
          have hhead : list.head = none := hforest.head
          refine ⟨⟨list, nodes, released⟩, [], ?_, hforest, hfits, rfl, rfl⟩
          rw [PllCall.perform, pllPop]
          dsimp only
          rw [hhead, Option.map_some, List.append_nil]
      | cons n l =>
          obtain ⟨a, x⟩ := n
          obtain ⟨list', nodes', hcall, hforest', hfits'⟩ := pllPop_spec hforest hfits
          refine ⟨⟨list', nodes', released ++ x.toList⟩, l, ?_, hforest', hfits', rfl, rfl⟩
          rw [PllCall.perform, hcall]
          rfl
  | remove hit =>
      cases hfind : l.find? fun n => hit n.2 with
      | none =>
          have hnone : ∀ n ∈ l, hit n.2 = false := fun n hn => by
            simpa using List.find?_eq_none.1 hfind n hn
          have hitems : ∀ x ∈ l.map Prod.snd, ¬ hit x = true := by
            intro x hx
            obtain ⟨n, hn, rfl⟩ := List.mem_map.1 hx
            simp [hnone n hn]
          refine ⟨⟨list, nodes, released⟩, l, ?_, hforest, hfits, ?_, ?_⟩
          · rw [PllCall.perform, pllRemove_of_not_hit hforest hnone, Option.map_some,
              List.append_nil]
          · exact (List.eraseP_of_forall_not hitems).symm
          · rw [PllCall.apply, List.find?_eq_none.2 hitems]
            exact (List.append_nil _).symm
      | some n =>
          obtain ⟨a, x⟩ := n
          obtain ⟨hx, l₁, l₂, rfl, hl₁⟩ := List.find?_eq_some_iff_append.1 hfind
          have hl₁' : ∀ n ∈ l₁, hit n.2 = false := fun n hn => by simpa using hl₁ n hn
          have hitems : ∀ y ∈ l₁.map Prod.snd, ¬ hit y = true := by
            intro y hy
            obtain ⟨n, hn, rfl⟩ := List.mem_map.1 hy
            simp [hl₁' n hn]
          obtain ⟨list', nodes', hcall, hforest', hfits'⟩ :=
            pllRemove_of_hit hforest hfits hl₁' hx
          refine ⟨⟨list', nodes', released ++ x.toList⟩, l₁ ++ l₂, ?_, hforest', hfits', ?_, ?_⟩
          · rw [PllCall.perform, hcall]
            rfl
          · rw [PllCall.apply, List.map_append, List.map_append, List.map_cons,
              List.eraseP_append_right _ hitems, List.eraseP_cons_of_pos hx]
          · rw [PllCall.apply, List.map_append, List.map_cons, List.find?_append,
              List.find?_eq_none.2 hitems, Option.none_or, List.find?_cons_of_pos hx]
            rfl
  | purge =>
      obtain ⟨nodes', hcall, hforest'⟩ := pllPurge_spec hforest
      have hreduce : (l.map Prod.snd).reduceOption = l.filterMap Prod.snd := List.filterMap_map
      refine ⟨⟨pllNew, nodes', released ++ l.filterMap Prod.snd⟩, [], ?_, hforest', pllNew_fits, rfl,
        ?_⟩
      · rw [PllCall.perform, hcall]
        rfl
      · rw [PllCall.apply, hreduce]

/-- The run. -/
theorem PllState.Represents.run {s : PllState α} {t : Items α} {l : List (ℕ × Option α)}
    (h : s.Represents t l) (calls : List (PllCall α)) :
    ∃ s' l', calls.foldlM PllCall.perform s = some s' ∧
      s'.Represents (calls.foldl PllCall.apply t) l' := by
  induction calls generalizing s t l with
  | nil => exact ⟨s, l, rfl, h⟩
  | cons c calls ih =>
      obtain ⟨s₁, l₁, hcall, h₁⟩ := h.perform c
      obtain ⟨s', l', hcalls, h'⟩ := ih h₁
      exact ⟨s', l', by rw [List.foldlM_cons, hcall]; exact hcalls, h'⟩

/-- **Every sequence of calls computes the list.**  It uses no freed node and frees none twice;
those who iterate meet the items, the first and the last item and the size are those of the items;
the function that frees items gets each of those removed, in their order; and the nodes that are
still there are those of the items and one for each item that was popped. -/
theorem pll_refines (calls : List (PllCall α)) : ∃ s, pllRun calls = some s ∧
    pllItems s.nodes (s.nodes.length + 1) s.list.head = some (itemsAfter calls).items ∧
    pllFirst s.list s.nodes = some (itemsAfter calls).items.head?.join ∧
    pllLast s.list s.nodes = some (itemsAfter calls).items.getLast?.join ∧
    s.list.size = (itemsAfter calls).items.length ∧
    s.released = (itemsAfter calls).released ∧
    Heap.live s.nodes = (itemsAfter calls).items.length + (itemsAfter calls).popped := by
  have hstart : PllState.Represents (⟨pllNew, [], []⟩ : PllState α) ⟨[], [], 0⟩ [] :=
    ⟨⟨List.forall_mem_singleton.2 rfl, List.nodup_nil, rfl⟩, pllNew_fits, rfl, rfl⟩
  obtain ⟨s, l, hrun, hs⟩ := hstart.run calls
  have hseg := hs.forest.head
  have hitems : l.map Prod.snd = (itemsAfter calls).items := hs.items
  have hlength : l.length = (itemsAfter calls).items.length := by
    rw [← hitems, List.length_map]
  refine ⟨s, hrun, ?_, ?_, ?_, ?_, hs.released, ?_⟩
  · rw [pllItems_eq hseg (Nat.lt_succ_of_le hseg.length_le), hitems]
  · rw [pllFirst_eq hseg, hitems]
  · rw [pllLast_eq hseg hs.fits, hitems]
  · rw [hs.fits.size, hlength]
  · rw [hs.forest.live, ← hlength]
    rfl

end Monitor
