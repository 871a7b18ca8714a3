/-
**The map of libprom: `prom_map.c`.**

A map is an array of linked lists of nodes, and a list `keys` of the keys in it for those who
iterate.  `keys` does not hold copies: its entries are the addresses of the keys that the nodes
own.  When `prom_map_set` meets a key that the map has, it frees the old node together with its
key and leaves `keys` as it is, so the address in `keys` is stale from then on; only the growth of
the map, which builds a new list, gets rid of it.  Memory lasts here: the errors that failing
allocations lead to are not modelled, nor are those that `prom_map_set` does not look at.

* `Monitor.PromMap` and its functions `Monitor.promMapGet`, `Monitor.promMapSetInternal`,
  `Monitor.promMapEnsureSpace`, `Monitor.promMapSet`;
* `Monitor.promMapKeys` — what an iteration over `keys` reads;
* `Monitor.PromMap.Chained`, `Monitor.PromMap.Valid` — the invariant;
* `Monitor.PromMap.Valid.set` — **a map remembers**: what `prom_map_set` does to the invariant and
  to every later `prom_map_get`, through collisions and growth;
* `Monitor.PromMap.Valid.isSome_keys_set_iff` — when the iteration is safe after `prom_map_set`;
* `Monitor.promMap_refines` — **the map is a finite map**, after any calls;
* `Monitor.promMap_iteration` — when an iteration is safe, and what it reads then.
-/

import MetricsMonitor.HashTable
import Mathlib.Algebra.Order.Ring.Nat
import Mathlib.Data.List.Induction
import Mathlib.Data.List.Perm.Lattice
import Mathlib.Data.List.Dedup

set_option relaxedAutoImplicit false
set_option autoImplicit false

namespace Monitor

/-- A C string, without its null byte. -/
abbrev CString := List Char

/-- `prom_map_node_t`: the address of its copy of the key, the key, the value. -/
structure MapNode (α : Type*) where
  addr : ℕ
  key : CString
  value : α
  deriving DecidableEq

/-- `prom_map_t`.  A linked list is the list of its items; no address is used twice. -/
structure PromMap (α : Type*) where
  size : ℕ
  maxSize : ℕ
  /-- The addresses of the keys, for those who iterate. -/
  keys : List ℕ
  addrs : List (List (MapNode α))
  /-- The address the next copy of a key gets. -/
  fresh : ℕ
  deriving DecidableEq

variable {α : Type*}

/-! ### The functions of `prom_map.c` -/

/-- `PROM_MAP_INITIAL_SIZE`. -/
def promMapInitialSize : ℕ := 32

/-- `prom_map_new`. -/
def promMapNew : PromMap α :=
  ⟨0, promMapInitialSize, [], List.replicate promMapInitialSize [], 0⟩

/-- A `char`, which is signed, converted to `size_t`. -/
def sizeOfChar (c : Char) : ℕ :=
  if c.toNat % 256 < 128 then c.toNat % 256 else 2 ^ 64 - 256 + c.toNat % 256

/-- The loop of `prom_map_get_index_internal`, in the arithmetic of `size_t`. -/
def promMapIndexLoop (maxSize : ℕ) : CString → ℕ → ℕ → ℕ
  | [], _, index => index
  | c :: key, a, index =>
      promMapIndexLoop maxSize key (a * 27183 % 2 ^ 64 % (maxSize - 1))
        ((a * index + sizeOfChar c) % 2 ^ 64 % maxSize)

/-- `prom_map_get_index_internal`. -/
def promMapGetIndex (maxSize : ℕ) (key : CString) : ℕ := promMapIndexLoop maxSize key 31415 0

/-- `prom_map_get_internal`. -/
def promMapGet (m : PromMap α) (key : CString) : Option α :=
  ((m.addrs.getD (promMapGetIndex m.maxSize key) []).find? (·.key = key)).map (·.value)

/-- The loop of `prom_map_set_internal`: the first node with the key of the new one is replaced. -/
def replaceNode (node : MapNode α) : List (MapNode α) → Option (List (MapNode α))
  | [] => none
  | current :: rest =>
      if current.key = node.key then some (node :: rest)
      else (replaceNode node rest).map (current :: ·)

/-- `prom_map_set_internal`.  The node it replaces is freed, and so is the key of that node. -/
def promMapSetInternal (key : CString) (value : α) (m : PromMap α) : PromMap α :=
  let node : MapNode α := ⟨m.fresh, key, value⟩
  let index := promMapGetIndex m.maxSize key
  let list := m.addrs.getD index []
  match replaceNode node list with
  | some list => { m with addrs := m.addrs.set index list, fresh := m.fresh + 1 }
  | none =>
      { size := m.size + 1
        maxSize := m.maxSize
        keys := m.keys ++ [node.addr]
        addrs := m.addrs.set index (list ++ [node])
        fresh := m.fresh + 1 }

/-- The map into which `prom_map_ensure_space` puts the nodes. -/
def promMapDoubled (m : PromMap α) : PromMap α :=
  ⟨0, m.maxSize * 2, [], List.replicate (m.maxSize * 2) [], m.fresh⟩

/-- Whether `prom_map_ensure_space` enlarges the map. -/
def PromMap.grows (m : PromMap α) : Bool := !(m.size ≤ m.maxSize / 2)

/-- `prom_map_ensure_space`: every node is copied, list after list, into a map of twice the
size. -/
def promMapEnsureSpace (m : PromMap α) : PromMap α :=
  if m.grows then
    m.addrs.foldl
      (fun new list => list.foldl (fun new node => promMapSetInternal node.key node.value new) new)
      (promMapDoubled m)
  else m

/-- `prom_map_set`. -/
def promMapSet (key : CString) (value : α) (m : PromMap α) : PromMap α :=
  promMapSetInternal key value (promMapEnsureSpace m)

/-- The nodes of a map, list after list. -/
def PromMap.nodes (m : PromMap α) : List (MapNode α) := m.addrs.flatten

/-- The key at an address; `none` when the key there has been freed. -/
def PromMap.keyAt (m : PromMap α) (addr : ℕ) : Option CString :=
  (m.nodes.find? (·.addr = addr)).map (·.key)

/-- What an iteration over `keys` reads; `none` when it reads a key that has been freed. -/
def promMapKeys (m : PromMap α) : Option (List CString) := m.keys.mapM m.keyAt

/-! ### The index -/

theorem promMapIndexLoop_lt {maxSize : ℕ} (key : CString) {a index : ℕ} (h : index < maxSize) :
    promMapIndexLoop maxSize key a index < maxSize := by
  induction key generalizing a index with
  | nil => exact h
  | cons c key ih => exact ih (Nat.mod_lt _ (by omega))

theorem promMapGetIndex_lt {maxSize : ℕ} (h : 0 < maxSize) (key : CString) :
    promMapGetIndex maxSize key < maxSize :=
  promMapIndexLoop_lt key h

namespace PromMap

/-! ### The invariant -/

/-- The nodes stand in the lists of their indices, `size` counts them, and no two keys have one
address. -/
structure Chained (m : PromMap α) : Prop where
  length : m.addrs.length = m.maxSize
  wellFormed : HashTable.WellFormed MapNode.key (promMapGetIndex m.maxSize) m.addrs
  size : m.size = m.nodes.length
  keys_length : m.keys.length = m.size
  keys_nodup : m.keys.Nodup
  keys_lt : ∀ a ∈ m.keys, a < m.fresh
  addr_nodup : (m.nodes.map (·.addr)).Nodup
  addr_lt : ∀ n ∈ m.nodes, n.addr < m.fresh

/-- The invariant of a map between two calls: its size is the initial one doubled some times, and
it is at most half full, but for one node. -/
structure Valid (m : PromMap α) : Prop extends Chained m where
  maxSize : ∃ j, m.maxSize = promMapInitialSize * 2 ^ j
  load : m.size ≤ m.maxSize / 2 + 1

theorem chained_empty {maxSize : ℕ} (h : 0 < maxSize) (fresh : ℕ) :
    Chained (⟨0, maxSize, [], List.replicate maxSize [], fresh⟩ : PromMap α) where
  length := List.length_replicate
  wellFormed := HashTable.wellFormed_replicate (promMapGetIndex_lt h)
  size := by simp [nodes]
  keys_length := rfl
  keys_nodup := List.nodup_nil
  keys_lt := by simp
  addr_nodup := by simp [nodes]
  addr_lt := by simp [nodes]

/-- A new map. -/
theorem valid_new : (promMapNew : PromMap α).Valid :=
  { chained_empty (by decide) 0 with
    maxSize := ⟨0, rfl⟩
    load := Nat.zero_le _ }

namespace Chained

variable {m : PromMap α} {key : CString} {value : α} {n : MapNode α}

theorem maxSize_pos (h : m.Chained) : 0 < m.maxSize :=
  h.length ▸ Nat.lt_of_le_of_lt (Nat.zero_le _) (h.wellFormed.slot_lt [])

/-! ### `prom_map_get` -/

theorem get_eq_lookup (h : m.Chained) (key : CString) :
    promMapGet m key =
      (HashTable.lookup MapNode.key (promMapGetIndex m.maxSize) m.addrs key).map (·.value) := by
  obtain ⟨chain, hchain⟩ := h.wellFormed.exists_chain key
  rw [promMapGet, HashTable.lookup, List.getD_eq_getElem?_getD, hchain]
  rfl

/-- `prom_map_get` finds exactly the values of the nodes. -/
theorem get_eq_some_iff (h : m.Chained) :
    promMapGet m key = some value ↔ ∃ n ∈ m.nodes, n.key = key ∧ n.value = value := by
  rw [h.get_eq_lookup, Option.map_eq_some_iff]
  simp only [h.wellFormed.lookup_eq_some_iff, and_assoc]
  rfl

theorem get_eq_none_iff (h : m.Chained) :
    promMapGet m key = none ↔ ∀ n ∈ m.nodes, n.key ≠ key := by
  rw [h.get_eq_lookup, Option.map_eq_none_iff, h.wellFormed.lookup_eq_none_iff]
  rfl

/-! ### Iterating -/

/-- The keys that can still be read are those of the nodes. -/
theorem keyAt_eq_some_iff (h : m.Chained) {a : ℕ} :
    m.keyAt a = some key ↔ ∃ n ∈ m.nodes, n.addr = a ∧ n.key = key := by
  rw [keyAt, Option.map_eq_some_iff]
  have hfind (n : MapNode α) : m.nodes.find? (·.addr = a) = some n ↔ n ∈ m.nodes ∧ n.addr = a :=
    HashTable.find_eq_some_iff h.addr_nodup
  simp only [hfind, and_assoc]

theorem isSome_keyAt_iff (h : m.Chained) {a : ℕ} :
    (m.keyAt a).isSome ↔ a ∈ m.nodes.map (·.addr) := by
  rw [Option.isSome_iff_exists, List.mem_map]
  constructor
  · rintro ⟨key, hkey⟩
    obtain ⟨n, hn, rfl, -⟩ := h.keyAt_eq_some_iff.1 hkey
    exact ⟨n, hn, rfl⟩
  · rintro ⟨n, hn, rfl⟩
    exact ⟨n.key, h.keyAt_eq_some_iff.2 ⟨n, hn, rfl, rfl⟩⟩

end Chained

/-! ### `prom_map_set_internal` -/

/-- The loop that looks for a node to replace does what putting a node into a chain does, unless
the key is new. -/
theorem replaceNode_eq (node : MapNode α) (list : List (MapNode α)) :
    replaceNode node list =
      if ∃ n ∈ list, n.key = node.key then some (HashTable.put MapNode.key node list) else none := by
  induction list with
  | nil => simp [replaceNode]
  | cons current rest ih =>
      by_cases hkey : current.key = node.key
      · simp [replaceNode, HashTable.put, hkey]
      · rw [replaceNode, if_neg hkey, ih, HashTable.put, if_neg hkey]
        by_cases hrest : ∃ n ∈ rest, n.key = node.key
        · rw [if_pos hrest, if_pos (by simpa [hkey] using hrest), Option.map_some]
        · rw [if_neg hrest, if_neg (by simpa [hkey] using hrest), Option.map_none]

namespace Chained

variable {m : PromMap α} {key : CString} {n : MapNode α}

/-- Both branches of `prom_map_set_internal` in one. -/
theorem setInternal_eq (h : m.Chained) (key : CString) (value : α) :
    promMapSetInternal key value m =
      { size := if (promMapGet m key).isSome then m.size else m.size + 1
        maxSize := m.maxSize
        keys := if (promMapGet m key).isSome then m.keys else m.keys ++ [m.fresh]
        addrs := HashTable.insert MapNode.key (promMapGetIndex m.maxSize) ⟨m.fresh, key, value⟩
          m.addrs
        fresh := m.fresh + 1 } := by
  obtain ⟨chain, hchain⟩ := h.wellFormed.exists_chain key
  obtain ⟨hlt, hget⟩ := List.getElem?_eq_some_iff.1 hchain
  have hgetD : m.addrs.getD (promMapGetIndex m.maxSize key) [] = chain := by
    rw [List.getD_eq_getElem?_getD, hchain, Option.getD_some]
  have hset (list : List (MapNode α)) (f : List (MapNode α) → List (MapNode α))
      (hf : f chain = list) :
      m.addrs.set (promMapGetIndex m.maxSize key) list =
        m.addrs.modify (promMapGetIndex m.maxSize key) f := by
    rw [List.modify_eq_set_getElem?, hchain, ← hf]
    rfl
  have hfind : (promMapGet m key).isSome ↔ ∃ n ∈ chain, n.key = key := by
    rw [promMapGet, hgetD, Option.isSome_map, List.find?_isSome]
    simp
  simp only [promMapSetInternal, hgetD, replaceNode_eq, ← hfind]
  by_cases hsome : (promMapGet m key).isSome = true
  · simp only [if_pos hsome]
    rw [HashTable.insert, hset _ _ rfl]
  · simp only [if_neg hsome]
    rw [HashTable.insert, hset _ _ (HashTable.put_eq_append fun n hn hkey =>
      hsome (hfind.2 ⟨n, hn, hkey⟩))]

/-- What the map holds after `prom_map_set_internal`. -/
theorem mem_nodes_setInternal (h : m.Chained) {value : α} :
    n ∈ (promMapSetInternal key value m).nodes ↔
      n = ⟨m.fresh, key, value⟩ ∨ n ∈ m.nodes ∧ n.key ≠ key := by
  rw [h.setInternal_eq]
  exact h.wellFormed.mem_insert

/-- **`prom_map_set_internal` keeps the invariant.** -/
theorem setInternal (h : m.Chained) (key : CString) (value : α) :
    (promMapSetInternal key value m).Chained := by
  have hmem (n : MapNode α) : n ∈ (promMapSetInternal key value m).nodes ↔
      n = ⟨m.fresh, key, value⟩ ∨ n ∈ m.nodes ∧ n.key ≠ key := h.mem_nodes_setInternal
  have hlookup : (HashTable.lookup MapNode.key (promMapGetIndex m.maxSize) m.addrs key).isSome =
      (promMapGet m key).isSome := by
    rw [h.get_eq_lookup, Option.isSome_map]
  have hwellFormed := h.wellFormed.insert ⟨m.fresh, key, value⟩
  have hlength := h.wellFormed.length_insert ⟨m.fresh, key, value⟩
  rw [h.setInternal_eq] at hmem ⊢
  refine ⟨?_, hwellFormed, ?_, ?_, ?_, ?_, ?_, ?_⟩
  · rw [HashTable.insert, List.length_modify]
    exact h.length
  · rw [nodes, hlength, hlookup, ← nodes, ← h.size]
  · split
    · exact h.keys_length
    · simp [h.keys_length]
  · split
    · exact h.keys_nodup
    · exact List.nodup_append.2 ⟨h.keys_nodup, List.nodup_singleton _, fun a ha b hb => by
        have := h.keys_lt a ha
        have := List.mem_singleton.1 hb
        omega⟩
  · intro a ha
    have hlt : a < m.fresh ∨ a = m.fresh := by
      split at ha
      · exact Or.inl (h.keys_lt a ha)
      · rcases List.mem_append.1 ha with ha | ha
        · exact Or.inl (h.keys_lt a ha)
        · exact Or.inr (List.mem_singleton.1 ha)
    change a < m.fresh + 1
    omega
  · refine List.Nodup.map_on ?_ hwellFormed.nodup_flatten.of_map
    intro n hn n' hn' haddr
    rcases (hmem n).1 hn with rfl | ⟨hn, -⟩
    · rcases (hmem n').1 hn' with rfl | ⟨hn', -⟩
      · rfl
      · exact absurd haddr (h.addr_lt n' hn').ne'
    · rcases (hmem n').1 hn' with rfl | ⟨hn', -⟩
      · exact absurd haddr (h.addr_lt n hn).ne
      · exact List.inj_on_of_nodup_map h.addr_nodup hn hn' haddr
  · intro n hn
    rcases (hmem n).1 hn with rfl | ⟨hn, -⟩
    · exact Nat.lt_succ_self _
    · exact (h.addr_lt n hn).trans (Nat.lt_succ_self _)

@[simp] theorem maxSize_setInternal (h : m.Chained) (key : CString) (value : α) :
    (promMapSetInternal key value m).maxSize = m.maxSize := by
  rw [h.setInternal_eq]

/-- **`prom_map_get` after `prom_map_set_internal`.** -/
theorem get_setInternal (h : m.Chained) (key key' : CString) (value : α) :
    promMapGet (promMapSetInternal key value m) key' =
      if key' = key then some value else promMapGet m key' := by
  rw [(h.setInternal key value).get_eq_lookup, h.get_eq_lookup, h.setInternal_eq]
  change Option.map _ (HashTable.lookup _ _ (HashTable.insert _ _ _ m.addrs) key') = _
  rw [h.wellFormed.lookup_insert]
  split
  · rfl
  · rfl

/-- The addresses that can be read after `prom_map_set_internal`: the new one, and those of the
nodes with other keys. -/
theorem keyAt_setInternal (h : m.Chained) (key : CString) (value : α) {a : ℕ}
    (ha : a < m.fresh) :
    (promMapSetInternal key value m).keyAt a = (m.keyAt a).filter (· ≠ key) := by
  refine Option.ext fun k => ?_
  rw [(h.setInternal key value).keyAt_eq_some_iff, Option.filter_eq_some_iff, h.keyAt_eq_some_iff]
  simp only [h.mem_nodes_setInternal, decide_eq_true_eq]
  constructor
  · rintro ⟨n, rfl | ⟨hn, hkey⟩, rfl, rfl⟩
    · exact absurd ha (lt_irrefl _)
    · exact ⟨⟨n, hn, rfl, rfl⟩, hkey⟩
  · rintro ⟨⟨n, hn, rfl, rfl⟩, hkey⟩
    exact ⟨n, Or.inr ⟨hn, hkey⟩, rfl, rfl⟩

theorem keyAt_setInternal_fresh (h : m.Chained) (key : CString) (value : α) :
    (promMapSetInternal key value m).keyAt m.fresh = some key :=
  (h.setInternal key value).keyAt_eq_some_iff.2
    ⟨_, h.mem_nodes_setInternal.2 (Or.inl rfl), rfl, rfl⟩

end Chained

/-! ### What an iteration reads -/

theorem mapM_eq_some_iff {β γ : Type*} {f : β → Option γ} {xs : List β} {l : List γ} :
    xs.mapM f = some l ↔ xs.map f = l.map some := by
  induction xs generalizing l with
  | nil => cases l <;> simp
  | cons x xs ih =>
      cases hx : f x with
      | none => cases l <;> simp [hx]
      | some y =>
          rw [List.mapM_cons, hx, Option.pure_def, Option.bind_eq_bind, Option.bind_some,
            Option.bind_eq_bind, Option.bind_eq_some_iff]
          simp only [Option.some_inj, ih, List.map_cons, hx]
          cases l with
          | nil => simp
          | cons z l =>
              simp only [List.map_cons, List.cons.injEq, Option.some_inj]
              constructor
              · rintro ⟨l', hl', rfl, rfl⟩
                exact ⟨rfl, hl'⟩
              · rintro ⟨rfl, hl⟩
                exact ⟨l, hl, rfl, rfl⟩

theorem isSome_keys_iff {m : PromMap α} :
    (promMapKeys m).isSome ↔ ∀ a ∈ m.keys, (m.keyAt a).isSome := by
  constructor
  · intro h a ha
    obtain ⟨l, hl⟩ := Option.isSome_iff_exists.1 h
    have hmem : m.keyAt a ∈ l.map some := mapM_eq_some_iff.1 hl ▸ List.mem_map_of_mem ha
    obtain ⟨key, -, hkey⟩ := List.mem_map.1 hmem
    exact hkey ▸ rfl
  · intro h
    rw [Option.isSome_iff_exists]
    refine ⟨m.keys.filterMap m.keyAt, mapM_eq_some_iff.2 ?_⟩
    rw [List.map_filterMap]
    refine (List.filterMap_eq_map_iff_forall_eq_some.2 fun a ha => ?_).symm
    obtain ⟨key, hkey⟩ := Option.isSome_iff_exists.1 (h a ha)
    rw [hkey]
    rfl

namespace Chained

variable {m : PromMap α} {key : CString} {l : List CString}

/-- An iteration that reads no freed key reads the key of every node once. -/
theorem keys_perm (h : m.Chained) (hl : promMapKeys m = some l) :
    l.Perm (m.nodes.map (·.key)) := by
  have hlive := isSome_keys_iff.1 (Option.isSome_iff_exists.2 ⟨l, hl⟩)
  have hkeys : m.keys.Perm (m.nodes.map (·.addr)) := by
    refine List.Subperm.perm_of_length_le ?_ ?_
    · exact List.subperm_of_subset h.keys_nodup fun a ha => h.isSome_keyAt_iff.1 (hlive a ha)
    · rw [List.length_map, h.keys_length, h.size]
  have hleft : l = m.keys.filterMap m.keyAt := by
    have := congrArg (List.filterMap id) (mapM_eq_some_iff.1 hl)
    simpa [List.filterMap_map] using this.symm
  have hright : m.nodes.map (·.key) = (m.nodes.map (·.addr)).filterMap m.keyAt := by
    rw [List.filterMap_map, ← List.filterMap_eq_map]
    refine List.filterMap_congr fun n hn => ?_
    exact (h.keyAt_eq_some_iff.2 ⟨n, hn, rfl, rfl⟩).symm
  rw [hleft, hright]
  exact hkeys.filterMap _

theorem nodup_keys (h : m.Chained) (hl : promMapKeys m = some l) : l.Nodup :=
  (h.keys_perm hl).nodup_iff.2 h.wellFormed.nodup_flatten

theorem mem_keys_iff (h : m.Chained) (hl : promMapKeys m = some l) :
    key ∈ l ↔ (promMapGet m key).isSome := by
  rw [(h.keys_perm hl).mem_iff, Option.isSome_iff_ne_none, Ne, h.get_eq_none_iff, List.mem_map]
  simp

/-- A new key is read last. -/
theorem keys_setInternal (h : m.Chained) (value : α) (hnew : promMapGet m key = none)
    (hl : promMapKeys m = some l) :
    promMapKeys (promMapSetInternal key value m) = some (l ++ [key]) := by
  have hkeys : (promMapSetInternal key value m).keys = m.keys ++ [m.fresh] := by
    rw [h.setInternal_eq]
    simp [hnew]
  have hold : m.keys.map (promMapSetInternal key value m).keyAt = m.keys.map m.keyAt := by
    refine List.map_congr_left fun a ha => ?_
    rw [h.keyAt_setInternal key value (h.keys_lt a ha)]
    cases hk : m.keyAt a with
    | none => rfl
    | some k =>
        obtain ⟨n, hn, -, rfl⟩ := h.keyAt_eq_some_iff.1 hk
        exact Option.filter_some_pos (decide_eq_true (h.get_eq_none_iff.1 hnew n hn))
  rw [promMapKeys, mapM_eq_some_iff, hkeys, List.map_append, hold, mapM_eq_some_iff.1 hl]
  simp [h.keyAt_setInternal_fresh]

/-- **An iteration is safe after `prom_map_set_internal` when it was before and the key is new.** -/
theorem isSome_keys_setInternal_iff (h : m.Chained) (key : CString) (value : α) :
    (promMapKeys (promMapSetInternal key value m)).isSome ↔
      (promMapKeys m).isSome ∧ promMapGet m key = none := by
  constructor
  · intro hsome
    have hkeyAt : ∀ a ∈ m.keys, ∃ k, m.keyAt a = some k ∧ k ≠ key := by
      intro a ha
      have hmem : a ∈ (promMapSetInternal key value m).keys := by
        rw [h.setInternal_eq]
        dsimp only
        split
        · exact ha
        · exact List.mem_append_left _ ha
      have hk := isSome_keys_iff.1 hsome a hmem
      rw [h.keyAt_setInternal key value (h.keys_lt a ha)] at hk
      obtain ⟨k, hk⟩ := Option.isSome_iff_exists.1 hk
      obtain ⟨hk, hne⟩ := Option.filter_eq_some_iff.1 hk
      exact ⟨k, hk, by simpa using hne⟩
    have hsafe : (promMapKeys m).isSome := isSome_keys_iff.2 fun a ha => by
      obtain ⟨k, hk, -⟩ := hkeyAt a ha
      exact hk ▸ rfl
    refine ⟨hsafe, h.get_eq_none_iff.2 fun n hn hkey => ?_⟩
    -- the key of the node that was replaced is among those an iteration reads
    obtain ⟨l, hl⟩ := Option.isSome_iff_exists.1 hsafe
    have hmem : key ∈ l := (h.keys_perm hl).mem_iff.2 (List.mem_map.2 ⟨n, hn, hkey⟩)
    have hread : some key ∈ m.keys.map m.keyAt :=
      mapM_eq_some_iff.1 hl ▸ List.mem_map_of_mem hmem
    obtain ⟨a, ha, hak⟩ := List.mem_map.1 hread
    obtain ⟨k, hk, hne⟩ := hkeyAt a ha
    exact hne (Option.some_inj.1 (hk.symm.trans hak))
  · rintro ⟨hsome, hnew⟩
    obtain ⟨l, hl⟩ := Option.isSome_iff_exists.1 hsome
    rw [h.keys_setInternal value hnew hl]
    rfl

end Chained

/-! ### Growing -/

/-- What putting nodes with new keys into a map leaves. -/
structure Filled (m r : PromMap α) (l : List CString) (ns : List (MapNode α)) : Prop where
  chained : r.Chained
  maxSize : r.maxSize = m.maxSize
  size : r.size = m.size + ns.length
  keys : promMapKeys r = some (l ++ ns.map (·.key))
  get : ∀ key value, promMapGet r key = some value ↔
    promMapGet m key = some value ∨ ∃ n ∈ ns, n.key = key ∧ n.value = value

/-- Nodes with new keys are put into a map one after another. -/
theorem Chained.fill {m : PromMap α} {l : List CString} (h : m.Chained)
    (hl : promMapKeys m = some l) {ns : List (MapNode α)} (hns : (ns.map (·.key)).Nodup)
    (hnew : ∀ n ∈ ns, promMapGet m n.key = none) :
    Filled m (ns.foldl (fun new node => promMapSetInternal node.key node.value new) m) l ns := by
  induction ns generalizing m l with
  | nil => exact ⟨h, rfl, rfl, by simpa using hl, by simp⟩
  | cons n ns ih =>
      obtain ⟨hn, hns⟩ := List.nodup_cons.1 (List.map_cons ▸ hns)
      have hnone := hnew n (List.mem_cons_self ..)
      have hne : ∀ n' ∈ ns, n'.key ≠ n.key := fun n' hn' hkey =>
        hn (List.mem_map.2 ⟨n', hn', hkey⟩)
      have hfilled := ih (h.setInternal n.key n.value) (h.keys_setInternal n.value hnone hl) hns
        fun n' hn' => by
          rw [h.get_setInternal, if_neg (hne n' hn')]
          exact hnew n' (List.mem_cons_of_mem _ hn')
      refine ⟨hfilled.chained, ?_, ?_, ?_, ?_⟩
      · exact hfilled.maxSize.trans (h.maxSize_setInternal ..)
      · have hsize : (promMapSetInternal n.key n.value m).size = m.size + 1 := by
          rw [h.setInternal_eq]
          simp [hnone]
        rw [List.foldl_cons, hfilled.size, hsize, List.length_cons]
        omega
      · simpa using hfilled.keys
      · intro key value
        rw [List.foldl_cons, hfilled.get, h.get_setInternal]
        by_cases hkey : key = n.key
        · subst hkey
          simp only [if_true, Option.some_inj, hnone, reduceCtorEq, false_or, List.mem_cons,
            exists_eq_or_imp, true_and]
        · simp only [if_neg hkey, List.mem_cons, exists_eq_or_imp, Ne.symm hkey, false_and,
            false_or]

/-- **`prom_map_ensure_space`**: nothing is lost and there is room for one more node; when the map
grows, an iteration reads the keys in the order of the lists, and reads no freed key. -/
structure Ensured (m r : PromMap α) : Prop extends Chained r where
  maxSize : ∃ j, r.maxSize = promMapInitialSize * 2 ^ j
  room : r.size ≤ r.maxSize / 2
  size_eq : r.size = m.size
  get : ∀ key, promMapGet r key = promMapGet m key
  keys_eq : promMapKeys r = if m.grows then some (m.nodes.map (·.key)) else promMapKeys m

theorem Valid.ensureSpace {m : PromMap α} (h : m.Valid) : Ensured m (promMapEnsureSpace m) := by
  unfold promMapEnsureSpace
  cases hgrows : m.grows with
  | false =>
      have hroom : m.size ≤ m.maxSize / 2 := by simpa [grows] using hgrows
      refine { h.toChained with
        maxSize := h.maxSize
        room := hroom
        size_eq := rfl
        get := fun _ => rfl
        keys_eq := ?_ }
      rw [hgrows]
      rfl
  | true =>
      have hpos := h.maxSize_pos
      have hempty : (promMapDoubled m).Chained := chained_empty (by omega) m.fresh
      have hnone (key : CString) : promMapGet (promMapDoubled m) key = none :=
        hempty.get_eq_none_iff.2 (by simp [nodes, promMapDoubled])
      have hfilled := hempty.fill (l := []) rfl h.wellFormed.nodup_flatten fun n _ => hnone n.key
      rw [if_pos rfl, ← List.foldl_flatten]
      have hload := h.load
      have hsize : (m.addrs.flatten.foldl
          (fun new node => promMapSetInternal node.key node.value new)
          (promMapDoubled m)).size = m.size := by
        rw [hfilled.size, promMapDoubled, Nat.zero_add]
        exact h.size.symm
      refine { hfilled.chained with
        maxSize := ?_
        room := ?_
        size_eq := ?_
        get := ?_
        keys_eq := ?_ }
      · obtain ⟨j, hj⟩ := h.maxSize
        exact ⟨j + 1, by rw [hfilled.maxSize, promMapDoubled, hj, pow_succ, Nat.mul_assoc]⟩
      · rw [hsize, hfilled.maxSize, promMapDoubled]
        dsimp only
        omega
      · exact hsize
      · intro key
        refine Option.ext fun value => ?_
        rw [hfilled.get, h.get_eq_some_iff, hnone]
        simp only [reduceCtorEq, false_or]
        rfl
      · rw [hfilled.keys, hgrows]
        rfl

namespace Valid

variable {m : PromMap α}

/-- **`prom_map_set` keeps the invariant.** -/
theorem set (h : m.Valid) (key : CString) (value : α) : (promMapSet key value m).Valid := by
  have hensured := h.ensureSpace
  refine { hensured.setInternal key value with
    maxSize := ?_
    load := ?_ }
  · rw [promMapSet, hensured.maxSize_setInternal]
    exact hensured.maxSize
  · have hroom := hensured.room
    rw [promMapSet, hensured.setInternal_eq]
    dsimp only
    split <;> omega

/-- **A map remembers.** -/
theorem get_set (h : m.Valid) (key key' : CString) (value : α) :
    promMapGet (promMapSet key value m) key' =
      if key' = key then some value else promMapGet m key' := by
  rw [promMapSet, h.ensureSpace.get_setInternal, h.ensureSpace.get]

theorem size_set (h : m.Valid) (key : CString) (value : α) :
    (promMapSet key value m).size =
      if (promMapGet m key).isSome then m.size else m.size + 1 := by
  rw [promMapSet, h.ensureSpace.setInternal_eq, h.ensureSpace.get, h.ensureSpace.size_eq]

/-- **When an iteration is safe after `prom_map_set`.** -/
theorem isSome_keys_set_iff (h : m.Valid) (key : CString) (value : α) :
    (promMapKeys (promMapSet key value m)).isSome ↔
      (m.grows = true ∨ (promMapKeys m).isSome) ∧ promMapGet m key = none := by
  rw [promMapSet, h.ensureSpace.isSome_keys_setInternal_iff, h.ensureSpace.get,
    h.ensureSpace.keys_eq]
  cases m.grows <;> simp

/-- While a map does not grow, a new key is read last. -/
theorem keys_set (h : m.Valid) {key : CString} (value : α) (hgrows : m.grows = false)
    (hnew : promMapGet m key = none) {l : List CString} (hl : promMapKeys m = some l) :
    promMapKeys (promMapSet key value m) = some (l ++ [key]) := by
  refine h.ensureSpace.keys_setInternal value ((h.ensureSpace.get key).trans hnew) ?_
  rw [h.ensureSpace.keys_eq, hgrows]
  exact hl

end Valid

end PromMap

/-! ### Runs -/

/-- The map after these calls of `prom_map_set` on a new one. -/
def setAll (sets : List (CString × α)) : PromMap α :=
  sets.foldl (fun m s => promMapSet s.1 s.2 m) promMapNew

theorem setAll_append_singleton (sets : List (CString × α)) (s : CString × α) :
    setAll (sets ++ [s]) = promMapSet s.1 s.2 (setAll sets) := by
  simp [setAll]

theorem valid_setAll (sets : List (CString × α)) : (setAll sets).Valid := by
  induction sets using List.reverseRecOn with
  | nil => exact PromMap.valid_new
  | append_singleton sets s ih =>
      rw [setAll_append_singleton]
      exact ih.set s.1 s.2

/-- **`prom_map_get` returns what was set last under the key**, through all collisions and
growth. -/
theorem setAll_get (sets : List (CString × α)) (key : CString) :
    promMapGet (setAll sets) key = sets.reverse.lookup key := by
  induction sets using List.reverseRecOn with
  | nil => exact PromMap.valid_new.get_eq_none_iff.2 (by simp [PromMap.nodes, promMapNew])
  | append_singleton sets s ih =>
      rw [setAll_append_singleton, (valid_setAll sets).get_set, ih, List.reverse_append,
        List.reverse_singleton, List.singleton_append, List.lookup_cons]
      cases hkey : key == s.1 with
      | false => simp [beq_eq_false_iff_ne.1 hkey]
      | true => simp [beq_iff_eq.1 hkey]

theorem setAll_get_eq_none_iff {sets : List (CString × α)} {key : CString} :
    promMapGet (setAll sets) key = none ↔ key ∉ sets.map Prod.fst := by
  rw [setAll_get, List.lookup_eq_none_iff]
  simp only [List.mem_reverse, bne_iff_ne, List.mem_map, not_exists, not_and]
  exact ⟨fun h s hs hkey => h s hs hkey.symm, fun h s hs hkey => h s hs hkey.symm⟩

/-- Keys that are set once. -/
theorem setAll_get_of_nodup {sets : List (CString × α)} (h : (sets.map Prod.fst).Nodup)
    {s : CString × α} (hs : s ∈ sets) : promMapGet (setAll sets) s.1 = some s.2 := by
  induction sets using List.reverseRecOn with
  | nil => simp at hs
  | append_singleton sets t ih =>
      rw [List.map_append, List.nodup_append] at h
      rw [setAll_append_singleton, (valid_setAll sets).get_set]
      rcases List.mem_append.1 hs with hs | hs
      · rw [if_neg (h.2.2 s.1 (List.mem_map_of_mem hs) t.1 (by simp))]
        exact ih h.1 hs
      · rw [List.mem_singleton.1 hs, if_pos rfl]

/-- **When an iteration is safe**: the map has grown since the last time that a key it had was set
again. -/
theorem setAll_keys_iff (sets : List (CString × α)) :
    (promMapKeys (setAll sets)).isSome ↔
      ∀ before s after, sets = before ++ s :: after → s.1 ∈ before.map Prod.fst →
        ∃ mid s' rest, after = mid ++ s' :: rest ∧ (setAll (before ++ s :: mid)).grows = true := by
  induction sets using List.reverseRecOn with
  | nil =>
      refine ⟨fun _ before s after h => ?_, fun _ => rfl⟩
      simp at h
  | append_singleton sets t ih =>
      rw [setAll_append_singleton, (valid_setAll sets).isSome_keys_set_iff, ih,
        setAll_get_eq_none_iff]
      constructor
      · rintro ⟨hsafe, hnew⟩ before s after hsets hold
        rcases List.eq_nil_or_concat after with rfl | ⟨after, t', rfl⟩
        · -- the last call sets a new key
          obtain ⟨rfl, ht⟩ := List.append_inj' hsets rfl
          obtain rfl : t = s := by simpa using ht
          exact absurd hold hnew
        · have hsplit : sets ++ [t] = (before ++ s :: after) ++ [t'] := by
            simpa using hsets
          obtain ⟨rfl, ht⟩ := List.append_inj' hsplit rfl
          obtain rfl : t = t' := by simpa using ht
          rcases hsafe with hgrows | hsafe
          · exact ⟨after, t, [], by simp, hgrows⟩
          · obtain ⟨mid, s', rest, rfl, hgrows⟩ := hsafe before s after rfl hold
            exact ⟨mid, s', rest ++ [t], by simp, hgrows⟩
      · intro h
        refine ⟨?_, fun hold => ?_⟩
        · by_cases hgrows : (setAll sets).grows = true
          · exact Or.inl hgrows
          · refine Or.inr fun before s after hsets hold => ?_
            obtain ⟨mid, s', rest, hafter, hmid⟩ :=
              h before s (after ++ [t]) (by simp [hsets]) hold
            rcases List.eq_nil_or_concat rest with rfl | ⟨rest, t', rfl⟩
            · obtain ⟨rfl, -⟩ := List.append_inj' hafter rfl
              exact absurd (hsets ▸ hmid) hgrows
            · have hsplit : after ++ [t] = (mid ++ s' :: rest) ++ [t'] := by
                simpa using hafter
              obtain ⟨rfl, -⟩ := List.append_inj' hsplit rfl
              exact ⟨mid, s', rest, rfl, hmid⟩
        · obtain ⟨mid, s', rest, hafter, -⟩ := h sets t [] rfl hold
          simp at hafter

/-- **A safe iteration visits every key that was set, and visits it once.** -/
theorem setAll_keys {sets : List (CString × α)} {l : List CString}
    (hl : promMapKeys (setAll sets) = some l) :
    l.Nodup ∧ ∀ key, key ∈ l ↔ key ∈ sets.map Prod.fst := by
  refine ⟨(valid_setAll sets).nodup_keys hl, fun key => ?_⟩
  rw [(valid_setAll sets).mem_keys_iff hl, Option.isSome_iff_ne_none, Ne, setAll_get_eq_none_iff,
    not_not]

/-- **As long as at most seventeen keys are set, each once, an iteration visits them in the order
of the calls.** -/
theorem setAll_keys_of_nodup {sets : List (CString × α)} (hsets : (sets.map Prod.fst).Nodup)
    (hlength : sets.length ≤ 17) :
    promMapKeys (setAll sets) = some (sets.map Prod.fst) ∧ (setAll sets).size = sets.length ∧
      (setAll sets).maxSize = promMapInitialSize := by
  induction sets using List.reverseRecOn with
  | nil => exact ⟨rfl, rfl, rfl⟩
  | append_singleton sets s ih =>
      rw [List.map_append, List.nodup_append] at hsets
      rw [List.length_append, List.length_singleton] at hlength
      obtain ⟨hkeys, hsize, hmax⟩ := ih hsets.1 (by omega)
      have hnew : promMapGet (setAll sets) s.1 = none :=
        setAll_get_eq_none_iff.2 fun hs => hsets.2.2 s.1 hs s.1 (by simp) rfl
      have hgrows : (setAll sets).grows = false := by
        simp [PromMap.grows, hsize, hmax, promMapInitialSize]
        omega
      have hvalid := valid_setAll sets
      have hensure : promMapEnsureSpace (setAll sets) = setAll sets := by
        rw [promMapEnsureSpace, hgrows]
        rfl
      rw [setAll_append_singleton]
      refine ⟨?_, ?_, ?_⟩
      · rw [hvalid.keys_set s.2 hgrows hnew hkeys, List.map_append, List.map_singleton]
      · rw [hvalid.size_set, hnew, hsize, List.length_append]
        rfl
      · rw [promMapSet, hensure, hvalid.maxSize_setInternal, hmax]

/-- The number of keys. -/
theorem setAll_size (sets : List (CString × α)) :
    (setAll sets).size = (sets.map Prod.fst).dedup.length := by
  induction sets using List.reverseRecOn with
  | nil => rfl
  | append_singleton sets s ih =>
      have hlength : (sets.map Prod.fst ++ [s.1]).dedup.length =
          (s.1 :: sets.map Prod.fst).dedup.length :=
        (List.perm_append_singleton s.1 (sets.map Prod.fst)).dedup.length_eq
      rw [setAll_append_singleton, (valid_setAll sets).size_set, ih, List.map_append,
        List.map_singleton, hlength]
      by_cases hkey : s.1 ∈ sets.map Prod.fst
      · have hget : promMapGet (setAll sets) s.1 ≠ none := fun hnone =>
          setAll_get_eq_none_iff.1 hnone hkey
        rw [if_pos (Option.isSome_iff_ne_none.2 hget), List.dedup_cons_of_mem hkey]
      · have hget : promMapGet (setAll sets) s.1 = none := setAll_get_eq_none_iff.2 hkey
        rw [hget, List.dedup_cons_of_notMem hkey]
        rfl

/-- **The map of libprom is a finite map.**  After any calls of `prom_map_set` on a new map, a look
up returns what was set last under the key, the size is the number of keys, and the lists are few
enough: their number is the initial one doubled some times, and the keys are at most half as many,
but for one. -/
theorem promMap_refines (sets : List (CString × α)) :
    (∀ key, promMapGet (setAll sets) key = sets.reverse.lookup key) ∧
      (setAll sets).size = (sets.map Prod.fst).dedup.length ∧
      (∃ j, (setAll sets).maxSize = promMapInitialSize * 2 ^ j) ∧
      (setAll sets).size ≤ (setAll sets).maxSize / 2 + 1 :=
  ⟨setAll_get sets, setAll_size sets, (valid_setAll sets).maxSize, (valid_setAll sets).load⟩

/-- **Iterating over a map of libprom**, as the formatter does.  It reads a freed key unless the map
has grown since the last time that a key it had was set again; when it does not, it reads every key
that was set, and reads it once. -/
theorem promMap_iteration (sets : List (CString × α)) :
    ((promMapKeys (setAll sets)).isSome ↔
      ∀ before s after, sets = before ++ s :: after → s.1 ∈ before.map Prod.fst →
        ∃ mid s' rest, after = mid ++ s' :: rest ∧ (setAll (before ++ s :: mid)).grows = true) ∧
      ∀ l ∈ promMapKeys (setAll sets),
        l.Nodup ∧ ∀ key, key ∈ l ↔ key ∈ sets.map Prod.fst :=
  ⟨setAll_keys_iff sets, fun _ hl => setAll_keys hl⟩

end Monitor
