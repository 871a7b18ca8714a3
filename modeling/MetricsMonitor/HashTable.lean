/-
**Hash tables with chaining.**

A table is a list of chains; a node stands in the chain whose number is the slot of its key.  The
slot function belongs to the table and not to the keys, so the same nodes can be put into a larger
table with another slot function.

Main definitions:

* `HashTable.put` — putting a node into a chain: it takes the place of the node with its key, or
  the end of the chain;
* `HashTable.lookup`, `HashTable.insert` — the operations on a table;
* `HashTable.WellFormed` — every node stands in the chain of its slot, and no chain holds two
  nodes with one key.

Main results:

* `HashTable.WellFormed.lookup_eq_some_iff` — a lookup finds exactly the nodes of the table;
* `HashTable.WellFormed.insert`, `HashTable.WellFormed.lookup_insert` — **inserting**: the table
  stays well formed, the key is found with the new node and every other key as before;
* `HashTable.WellFormed.insert_perm` — a new key adds one node, wherever its chain stands.
-/

import Mathlib.Data.List.Basic
import Mathlib.Data.List.Nodup
import Mathlib.Data.List.Perm.Basic

set_option relaxedAutoImplicit false
set_option autoImplicit false

namespace HashTable

variable {κ ν : Type*}

/-! ### Tables -/

section Tables

variable (key : ν → κ) (slot : κ → ℕ)

/-- The nodes stand in the chains of their slots, every key once. -/
structure WellFormed (t : List (List ν)) : Prop where
  slot_lt : ∀ k, slot k < t.length
  placed : ∀ i chain, t[i]? = some chain → ∀ n ∈ chain, slot (key n) = i
  nodup : ∀ chain ∈ t, (chain.map key).Nodup

variable {key slot}

/-- An empty table is well formed. -/
theorem wellFormed_replicate {chains : ℕ} (h : ∀ k, slot k < chains) :
    WellFormed key slot (List.replicate chains []) where
  slot_lt := by simpa using h
  placed := by
    intro i chain hi n hn
    rw [List.getElem?_replicate] at hi
    split at hi
    · simp only [Option.some.injEq] at hi
      simp [← hi] at hn
    · simp at hi
  nodup := by
    intro chain hchain
    simp [List.eq_of_mem_replicate hchain]

namespace WellFormed

variable {t : List (List ν)} {n : ν} {k : κ}

/-- The chain of a slot. -/
theorem exists_chain (h : WellFormed key slot t) (k : κ) : ∃ chain, t[slot k]? = some chain :=
  ⟨_, List.getElem?_eq_getElem (h.slot_lt k)⟩

/-- A node of the table is a node of the chain of its slot. -/
theorem mem_flatten_iff (h : WellFormed key slot t) {chain : List ν}
    (hchain : t[slot (key n)]? = some chain) : n ∈ t.flatten ↔ n ∈ chain := by
  constructor
  · intro hn
    obtain ⟨c, hc, hnc⟩ := List.mem_flatten.1 hn
    obtain ⟨i, hi⟩ := List.mem_iff_getElem?.1 hc
    rw [h.placed i c hi n hnc, hi, Option.some_inj] at hchain
    exact hchain ▸ hnc
  · intro hn
    exact List.mem_flatten.2 ⟨chain, List.mem_of_getElem? hchain, hn⟩

/-- No two nodes of the table have one key. -/
theorem nodup_flatten (h : WellFormed key slot t) : (t.flatten.map key).Nodup := by
  rw [List.map_flatten, List.nodup_flatten]
  refine ⟨?_, ?_⟩
  · intro keys hkeys
    obtain ⟨chain, hchain, rfl⟩ := List.mem_map.1 hkeys
    exact h.nodup chain hchain
  · -- the slot of a key tells in which chain it stands
    rw [List.pairwise_map, List.pairwise_iff_getElem]
    intro i j hi hj hij k hk hk'
    obtain ⟨n, hn, rfl⟩ := List.mem_map.1 hk
    obtain ⟨m, hm, hkey⟩ := List.mem_map.1 hk'
    have hslot := h.placed i _ (List.getElem?_eq_getElem hi) n hn
    have hslot' := h.placed j _ (List.getElem?_eq_getElem hj) m hm
    rw [hkey] at hslot'
    omega

end WellFormed

end Tables

variable [DecidableEq κ] (key : ν → κ)

/-! ### Chains -/

/-- The first node of a chain with this key. -/
def find (k : κ) (chain : List ν) : Option ν := chain.find? (key · = k)

/-- The first node with the same key is replaced; without one, the chain grows at its end. -/
def put (n : ν) : List ν → List ν
  | [] => [n]
  | m :: chain => if key m = key n then n :: chain else m :: put n chain

variable {key}

theorem put_eq_append {n : ν} {chain : List ν} (h : ∀ m ∈ chain, key m ≠ key n) :
    put key n chain = chain ++ [n] := by
  induction chain with
  | nil => rfl
  | cons m chain ih =>
      rw [put, if_neg (h m (List.mem_cons_self ..)),
        ih fun m' hm' => h m' (List.mem_cons_of_mem _ hm'), List.cons_append]

/-- The keys of a chain change only by a new one at the end. -/
theorem map_put (n : ν) (chain : List ν) :
    (put key n chain).map key =
      if key n ∈ chain.map key then chain.map key else chain.map key ++ [key n] := by
  induction chain with
  | nil => simp [put]
  | cons m chain ih =>
      by_cases hm : key m = key n
      · simp [put, hm]
      · rw [put, if_neg hm, List.map_cons, ih]
        have hn : key n ≠ key m := fun h => hm h.symm
        by_cases hmem : key n ∈ chain.map key
        · simp only [List.map_cons, List.mem_cons, hmem, or_true, if_true]
        · simp only [List.map_cons, List.mem_cons, hmem, hn, or_self, if_false, List.cons_append]

theorem nodup_put {n : ν} {chain : List ν} (h : (chain.map key).Nodup) :
    ((put key n chain).map key).Nodup := by
  rw [map_put]
  split
  · exact h
  · rename_i hn
    exact List.nodup_append.2 ⟨h, List.nodup_singleton _, fun a ha b hb hab => by
      rw [List.mem_singleton.1 hb] at hab
      exact hn (hab ▸ ha)⟩

/-- What a chain holds after a node was put into it. -/
theorem mem_put {n m : ν} {chain : List ν} (h : (chain.map key).Nodup) :
    m ∈ put key n chain ↔ m = n ∨ m ∈ chain ∧ key m ≠ key n := by
  induction chain with
  | nil => simp [put]
  | cons a chain ih =>
      obtain ⟨ha, hchain⟩ := List.nodup_cons.1 (List.map_cons ▸ h)
      by_cases hkey : key a = key n
      · rw [put, if_pos hkey]
        have hrest : ∀ b ∈ chain, key b ≠ key n := fun b hb hbn =>
          ha (List.mem_map.2 ⟨b, hb, hbn.trans hkey.symm⟩)
        grind
      · rw [put, if_neg hkey, List.mem_cons, ih hchain, List.mem_cons]
        grind

/-- A key that a chain holds once is found with its node. -/
theorem find_eq_some_iff {k : κ} {n : ν} {chain : List ν} (h : (chain.map key).Nodup) :
    find key k chain = some n ↔ n ∈ chain ∧ key n = k := by
  constructor
  · intro hfind
    exact ⟨List.mem_of_find?_eq_some hfind, by simpa using List.find?_some hfind⟩
  · rintro ⟨hn, rfl⟩
    cases hfind : find key (key n) chain with
    | none => simpa using List.find?_eq_none.1 hfind n hn
    | some m =>
        have hm : m ∈ chain := List.mem_of_find?_eq_some hfind
        have hkey : key m = key n := by simpa using List.find?_some hfind
        rw [List.inj_on_of_nodup_map h hm hn hkey]

/-! ### Operations -/

variable (key) (slot : κ → ℕ)

/-- The node of the table with this key. -/
def lookup (t : List (List ν)) (k : κ) : Option ν := t[slot k]?.bind (find key k)

/-- Putting a node into the chain of its slot. -/
def insert (n : ν) (t : List (List ν)) : List (List ν) := t.modify (slot (key n)) (put key n)

variable {key slot}

namespace WellFormed

variable {t : List (List ν)} {n m : ν} {k : κ}

/-- **A lookup finds exactly the nodes of the table.** -/
theorem lookup_eq_some_iff (h : WellFormed key slot t) :
    lookup key slot t k = some n ↔ n ∈ t.flatten ∧ key n = k := by
  obtain ⟨chain, hchain⟩ := h.exists_chain k
  have hnodup := h.nodup chain (List.mem_of_getElem? hchain)
  rw [lookup, hchain, Option.bind_some, find_eq_some_iff hnodup]
  constructor
  · rintro ⟨hn, rfl⟩
    exact ⟨(h.mem_flatten_iff hchain).2 hn, rfl⟩
  · rintro ⟨hn, rfl⟩
    exact ⟨(h.mem_flatten_iff hchain).1 hn, rfl⟩

theorem lookup_eq_none_iff (h : WellFormed key slot t) :
    lookup key slot t k = none ↔ ∀ n ∈ t.flatten, key n ≠ k := by
  rw [Option.eq_none_iff_forall_ne_some]
  constructor
  · intro hne n hn hk
    exact hne n (h.lookup_eq_some_iff.2 ⟨hn, hk⟩)
  · intro hne n hn
    obtain ⟨hn, hk⟩ := h.lookup_eq_some_iff.1 hn
    exact hne n hn hk

/-! ### Inserting -/

/-- **The table stays well formed.** -/
theorem insert (h : WellFormed key slot t) (n : ν) :
    WellFormed key slot (insert key slot n t) where
  slot_lt k := by
    rw [HashTable.insert, List.length_modify]
    exact h.slot_lt k
  placed := by
    intro i chain hi m hm
    rw [HashTable.insert, List.getElem?_modify, Option.map_eq_map, Option.map_eq_some_iff] at hi
    obtain ⟨c, hc, rfl⟩ := hi
    have hnodup := h.nodup c (List.mem_of_getElem? hc)
    split at hm
    · rename_i hslot
      rcases (mem_put hnodup).1 hm with rfl | ⟨hm, -⟩
      · exact hslot
      · exact h.placed i c hc m hm
    · exact h.placed i c hc m hm
  nodup := by
    intro chain hchain
    obtain ⟨i, hi⟩ := List.mem_iff_getElem?.1 hchain
    rw [HashTable.insert, List.getElem?_modify, Option.map_eq_map, Option.map_eq_some_iff] at hi
    obtain ⟨c, hc, rfl⟩ := hi
    have hnodup := h.nodup c (List.mem_of_getElem? hc)
    split
    · exact nodup_put hnodup
    · exact hnodup

/-- What the table holds after an insertion. -/
theorem mem_insert (h : WellFormed key slot t) :
    m ∈ (HashTable.insert key slot n t).flatten ↔ m = n ∨ m ∈ t.flatten ∧ key m ≠ key n := by
  obtain ⟨chain, hchain⟩ := h.exists_chain (key m)
  have hafter : (HashTable.insert key slot n t)[slot (key m)]? =
      some (if slot (key n) = slot (key m) then put key n chain else chain) := by
    rw [HashTable.insert, List.getElem?_modify, hchain]
    rfl
  have hnodup := h.nodup chain (List.mem_of_getElem? hchain)
  rw [(h.insert n).mem_flatten_iff hafter, h.mem_flatten_iff hchain]
  split
  · exact mem_put hnodup
  · rename_i hslot
    -- another slot: the chain is untouched and its nodes have other keys
    grind

/-- **A lookup after an insertion.** -/
theorem lookup_insert (h : WellFormed key slot t) (n : ν) (k : κ) :
    lookup key slot (HashTable.insert key slot n t) k =
      if k = key n then some n else lookup key slot t k := by
  refine Option.ext fun m => ?_
  rw [(h.insert n).lookup_eq_some_iff, h.mem_insert]
  split
  · rename_i hk
    subst hk
    grind
  · rw [h.lookup_eq_some_iff]
    grind

/-- **A new key adds one node**, wherever its chain stands. -/
theorem insert_perm (h : WellFormed key slot t) (hn : ∀ m ∈ t.flatten, key m ≠ key n) :
    (HashTable.insert key slot n t).flatten.Perm (n :: t.flatten) := by
  obtain ⟨chain, hchain⟩ := h.exists_chain (key n)
  obtain ⟨hlt, hget⟩ := List.getElem?_eq_some_iff.1 hchain
  have hput : put key n chain = chain ++ [n] := put_eq_append fun m hm =>
    hn m (List.mem_flatten.2 ⟨chain, List.mem_of_getElem? hchain, hm⟩)
  have hsplit : t = t.take (slot (key n)) ++ chain :: t.drop (slot (key n) + 1) := by
    rw [← hget, List.getElem_cons_drop, List.take_append_drop]
  have hinsert : HashTable.insert key slot n t =
      t.take (slot (key n)) ++ (chain ++ [n]) :: t.drop (slot (key n) + 1) := by
    rw [HashTable.insert, List.modify_eq_take_cons_drop hlt, hget, hput]
  calc (HashTable.insert key slot n t).flatten
      = (t.take (slot (key n))).flatten ++ (chain ++ [n] ++
          (t.drop (slot (key n) + 1)).flatten) := by
        rw [hinsert, List.flatten_append, List.flatten_cons]
    _ = ((t.take (slot (key n))).flatten ++ chain) ++ n ::
          (t.drop (slot (key n) + 1)).flatten := by
        simp
    List.Perm _ (n :: (((t.take (slot (key n))).flatten ++ chain) ++
          (t.drop (slot (key n) + 1)).flatten)) := List.perm_middle
    _ = n :: t.flatten := by
        conv_rhs => rw [hsplit, List.flatten_append, List.flatten_cons]
        rw [List.append_assoc]

/-- A key the table knows keeps the number of nodes. -/
theorem length_insert (h : WellFormed key slot t) (n : ν) :
    (HashTable.insert key slot n t).flatten.length =
      if (lookup key slot t (key n)).isSome then t.flatten.length else t.flatten.length + 1 := by
  obtain ⟨chain, hchain⟩ := h.exists_chain (key n)
  obtain ⟨hlt, hget⟩ := List.getElem?_eq_some_iff.1 hchain
  cases hlookup : lookup key slot t (key n) with
  | none =>
      have hnew := h.lookup_eq_none_iff.1 hlookup
      simpa using (h.insert_perm hnew).length_eq
  | some m =>
      obtain ⟨hm, hkey⟩ := h.lookup_eq_some_iff.1 hlookup
      have hmem : key n ∈ chain.map key :=
        List.mem_map.2 ⟨m, (h.mem_flatten_iff (hkey ▸ hchain)).1 hm, hkey⟩
      have hlength : (put key n chain).length = chain.length := by
        rw [← List.length_map key, map_put, if_pos hmem, List.length_map]
      rw [HashTable.insert, List.modify_eq_take_cons_drop hlt, hget, List.flatten_append,
        List.flatten_cons, List.length_append, List.length_append, hlength]
      conv_rhs => rw [← List.take_append_drop (slot (key n)) t, List.drop_eq_getElem_cons hlt,
        hget, List.flatten_append, List.flatten_cons, List.length_append, List.length_append]
      rfl

end WellFormed

end HashTable
