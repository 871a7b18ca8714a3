/-
**The memory of a map: `prom_map.c`, with the nodes of its lists in a heap.**

The functions of maps go through lists of nodes, replace items in them, and free the nodes of the
old lists one by one when a map grows.  Here they are modelled pointer by pointer, and refine those
of `MetricsMonitor.PromMap`, where a list is the list of its items.  As there, no allocation fails.

* `Monitor.MapMemory.promMapGet`, `Monitor.MapMemory.promMapSetInternal`,
  `Monitor.MapMemory.promMapEnsureSpace`, `Monitor.MapMemory.promMapSet`,
  `Monitor.MapMemory.promMapDestroy` — the functions;
* `Monitor.MapMemory.Represents` — the lists and the heap of a map;
* `Monitor.MapMemory.Represents.setInternal`, `Monitor.MapMemory.Represents.moveList`,
  `Monitor.MapMemory.Represents.ensureSpace` — each function refines the one on lists;
* `Monitor.MapMemory.Represents.destroy` — nothing is left of a map that is destroyed;
* `Monitor.mapMemory_refines` — **every sequence of calls uses no freed node, frees none twice and
  loses none**.
-/

import MetricsMonitor.PromMap
import MetricsMonitor.LinkedList

set_option relaxedAutoImplicit false
set_option autoImplicit false

namespace Monitor

namespace MapMemory

open Heap (Node Segment Forest)

variable {α : Type*}

/-- `prom_map_t`, without its nodes. -/
structure MapTable where
  size : ℕ
  maxSize : ℕ
  keys : Pll
  addrs : List Pll
  deriving DecidableEq

/-- The nodes of the lists of maps; the items of the lists of keys are of another type. -/
structure MapHeap (α : Type*) where
  chains : Nodes (MapNode α)
  keyNodes : Nodes ℕ
  /-- The address the next copy of a key gets. -/
  fresh : ℕ

/-! ### The functions of `prom_map.c` -/

/-- `prom_map_new`. -/
def promMapNew : MapTable :=
  ⟨0, promMapInitialSize, pllNew, List.replicate promMapInitialSize pllNew⟩

/-- `prom_map_node_compare` with a node of a key: whether they are equal. -/
def hasKey (key : CString) (item : Option (MapNode α)) : Bool := item.any (·.key = key)

/-- The loop of `prom_map_get_internal`. -/
def findLoop (key : CString) (h : Nodes (MapNode α)) :
    ℕ → Option ℕ → Option (Option (MapNode α))
  | 0, _ => none
  | _ + 1, none => some none
  | fuel + 1, some node =>
      (Heap.load node h).bind fun n =>
        if hasKey key n.item then some n.item else findLoop key h fuel n.next

/-- `prom_map_get_internal`. -/
def promMapGet (key : CString) (t : MapTable) (m : MapHeap α) : Option (Option α) :=
  t.addrs[promMapGetIndex t.maxSize key]?.bind fun list =>
    (findLoop key m.chains (m.chains.length + 1) list.head).map (·.map (·.value))

/-- The loop of `prom_map_set_internal`: the item of the first node with the key is replaced. -/
def replaceLoop (node : MapNode α) (h : Nodes (MapNode α)) :
    ℕ → Option ℕ → Option (Option (Nodes (MapNode α)))
  | 0, _ => none
  | _ + 1, none => some none
  | fuel + 1, some current =>
      (Heap.load current h).bind fun n =>
        if hasKey node.key n.item then
          (Heap.store current { n with item := some node } h).map some
        else replaceLoop node h fuel n.next

/-- `prom_map_set_internal`. -/
def promMapSetInternal (key : CString) (value : α) (t : MapTable) (m : MapHeap α) :
    Option (MapTable × MapHeap α) :=
  let node : MapNode α := ⟨m.fresh, key, value⟩
  let index := promMapGetIndex t.maxSize key
  t.addrs[index]?.bind fun list =>
    (replaceLoop node m.chains (m.chains.length + 1) list.head).bind fun
      | some chains => some (t, { m with chains := chains, fresh := m.fresh + 1 })
      | none =>
          (pllAppend true (some node) list m.chains).bind fun (_, list, chains) =>
            (pllAppend true (some node.addr) t.keys m.keyNodes).map fun (_, keys, keyNodes) =>
              ({ t with size := t.size + 1, keys := keys, addrs := t.addrs.set index list },
                ⟨chains, keyNodes, m.fresh + 1⟩)

/-- The loop of `prom_map_ensure_space` over a list: every node is copied into the new map and
freed. -/
def moveList : ℕ → Option ℕ → MapTable × MapHeap α → Option (MapTable × MapHeap α)
  | 0, _, _ => none
  | _ + 1, none, s => some s
  | fuel + 1, some current, (t, m) =>
      (Heap.load current m.chains).bind fun n => n.item.bind fun node =>
        (promMapSetInternal node.key node.value t m).bind fun (t, m) =>
          (Heap.load current m.chains).bind fun n =>
            (Heap.free current m.chains).bind fun chains =>
              moveList fuel n.next (t, { m with chains := chains })

/-- The loop of `prom_map_ensure_space` over the lists. -/
def moveLists (lists : List Pll) (s : MapTable × MapHeap α) : Option (MapTable × MapHeap α) :=
  lists.foldlM (fun s list => moveList (s.2.chains.length + 1) list.head s) s

/-- `prom_map_ensure_space`. -/
def promMapEnsureSpace (t : MapTable) (m : MapHeap α) : Option (MapTable × MapHeap α) :=
  if t.size ≤ t.maxSize / 2 then some (t, m)
  else
    (moveLists t.addrs
      (⟨0, t.maxSize * 2, pllNew, List.replicate (t.maxSize * 2) pllNew⟩, m)).bind
        fun (new, m) => (pllPurge t.keys m.keyNodes).map fun (_, _, keyNodes) =>
          (new, { m with keyNodes := keyNodes })

/-- `prom_map_set`. -/
def promMapSet (key : CString) (value : α) (t : MapTable) (m : MapHeap α) :
    Option (MapTable × MapHeap α) :=
  (promMapEnsureSpace t m).bind fun (t, m) => promMapSetInternal key value t m

/-- The loop of `prom_map_destroy` over the lists; the result has the nodes given to
`prom_map_node_free`. -/
def destroyLists (lists : List Pll) (s : List (MapNode α) × Nodes (MapNode α)) :
    Option (List (MapNode α) × Nodes (MapNode α)) :=
  lists.foldlM (fun s list => (pllPurge list s.2).map fun (released, _, chains) =>
    (s.1 ++ released, chains)) s

/-- `prom_map_destroy`. -/
def promMapDestroy (t : MapTable) (m : MapHeap α) : Option (List (MapNode α) × MapHeap α) :=
  (pllPurge t.keys m.keyNodes).bind fun (_, _, keyNodes) =>
    (destroyLists t.addrs ([], m.chains)).map fun (released, chains) =>
      (released, { m with chains := chains, keyNodes := keyNodes })

/-! ### The loops over a list -/

section Loops

variable {h : Nodes (MapNode α)} {p : Option ℕ} {l : List (ℕ × Option (MapNode α))}

theorem findLoop_eq {key : CString} (hl : Segment h p l none) {fuel : ℕ} (hfuel : l.length < fuel) :
    findLoop key h fuel p = some ((l.find? fun n => hasKey key n.2).bind Prod.snd) := by
  induction l generalizing p fuel with
  | nil =>
      obtain rfl : p = none := hl
      obtain ⟨fuel, rfl⟩ := Nat.exists_eq_succ_of_ne_zero (Nat.ne_of_gt hfuel)
      rfl
  | cons n l ih =>
      obtain ⟨a, x⟩ := n
      obtain ⟨rfl, next, ha, hl⟩ := hl
      obtain ⟨fuel, rfl⟩ := Nat.exists_eq_succ_of_ne_zero (Nat.ne_zero_of_lt hfuel)
      rw [findLoop, ha, Option.bind_some]
      cases hkey : hasKey key x with
      | true => simp [hkey]
      | false =>
          rw [if_neg Bool.false_ne_true, ih hl (Nat.lt_of_succ_lt_succ hfuel),
            List.find?_cons_of_neg (by simp [hkey])]

theorem replaceLoop_of_none {node : MapNode α} (hl : Segment h p l none) {fuel : ℕ}
    (hfuel : l.length < fuel) (hnone : ∀ n ∈ l, hasKey node.key n.2 = false) :
    replaceLoop node h fuel p = some none := by
  induction l generalizing p fuel with
  | nil =>
      obtain rfl : p = none := hl
      obtain ⟨fuel, rfl⟩ := Nat.exists_eq_succ_of_ne_zero (Nat.ne_of_gt hfuel)
      rfl
  | cons n l ih =>
      obtain ⟨a, x⟩ := n
      obtain ⟨rfl, next, ha, hl⟩ := hl
      obtain ⟨fuel, rfl⟩ := Nat.exists_eq_succ_of_ne_zero (Nat.ne_zero_of_lt hfuel)
      rw [List.forall_mem_cons] at hnone
      rw [replaceLoop, ha, Option.bind_some, hnone.1, if_neg Bool.false_ne_true]
      exact ih hl (Nat.lt_of_succ_lt_succ hfuel) hnone.2

theorem replaceLoop_of_some {node : MapNode α} {l₁ l₂ : List (ℕ × Option (MapNode α))} {a : ℕ}
    {x : Option (MapNode α)} (hl : Segment h p (l₁ ++ (a, x) :: l₂) none) {fuel : ℕ}
    (hfuel : (l₁ ++ (a, x) :: l₂).length < fuel) (hnone : ∀ n ∈ l₁, hasKey node.key n.2 = false)
    (hx : hasKey node.key x = true) : replaceLoop node h fuel p =
      (Heap.load a h).bind fun n => (Heap.store a { n with item := some node } h).map some := by
  induction l₁ generalizing p fuel with
  | nil =>
      obtain ⟨rfl, next, ha, -⟩ := hl
      obtain ⟨fuel, rfl⟩ := Nat.exists_eq_succ_of_ne_zero (Nat.ne_zero_of_lt hfuel)
      rw [replaceLoop, ha, Option.bind_some, Option.bind_some, hx, if_pos rfl]
  | cons n l₁ ih =>
      obtain ⟨b, y⟩ := n
      obtain ⟨rfl, next, hb, hl⟩ := hl
      obtain ⟨fuel, rfl⟩ := Nat.exists_eq_succ_of_ne_zero (Nat.ne_zero_of_lt hfuel)
      rw [List.forall_mem_cons] at hnone
      rw [replaceLoop, hb, Option.bind_some, hnone.1, if_neg Bool.false_ne_true]
      exact ih hl (Nat.lt_of_succ_lt_succ hfuel) hnone.2

end Loops

/-- The first node with a key, among the items of the nodes of a list. -/
theorem find_items {l : List (ℕ × Option (MapNode α))} {chain : List (MapNode α)}
    (hitems : l.map Prod.snd = chain.map some) (key : CString) :
    (l.find? fun n => hasKey key n.2).bind Prod.snd = chain.find? (·.key = key) := by
  have hleft : (l.map Prod.snd).find? (hasKey key) =
      (l.find? fun n => hasKey key n.2).map Prod.snd := List.find?_map ..
  have hright : (chain.map some).find? (hasKey key) = (chain.find? (·.key = key)).map some :=
    List.find?_map ..
  rw [hitems, hright] at hleft
  generalize (l.find? fun n => hasKey key n.2) = found at hleft ⊢
  generalize chain.find? (·.key = key) = found' at hleft ⊢
  cases found with
  | none => exact (Option.map_eq_none_iff.1 hleft).symm
  | some n =>
      obtain ⟨node, rfl, hn⟩ := Option.map_eq_some_iff.1 hleft
      exact hn.symm

/-- The lists around the first node with a key. -/
theorem exists_split {l : List (ℕ × Option (MapNode α))} {chain : List (MapNode α)}
    (hitems : l.map Prod.snd = chain.map some) {key : CString} {n : ℕ × Option (MapNode α)}
    (hfind : l.find? (fun n => hasKey key n.2) = some n) :
    ∃ l₁ l₂ chain₁ chain₂ current, l = l₁ ++ (n.1, some current) :: l₂ ∧
      chain = chain₁ ++ current :: chain₂ ∧ l₁.map Prod.snd = chain₁.map some ∧
      l₂.map Prod.snd = chain₂.map some ∧ (∀ n ∈ l₁, hasKey key n.2 = false) ∧
      (∀ n ∈ chain₁, n.key ≠ key) ∧ current.key = key := by
  obtain ⟨a, x⟩ := n
  obtain ⟨hx, l₁, l₂, rfl, hl₁⟩ := List.find?_eq_some_iff_append.1 hfind
  have hl₁' : ∀ n ∈ l₁, hasKey key n.2 = false := fun n hn => by simpa using hl₁ n hn
  rw [List.map_append, List.map_cons] at hitems
  obtain ⟨chain₁, rest, rfl, hitems₁, hrest⟩ := List.map_eq_append_iff.1 hitems.symm
  obtain ⟨current, chain₂, rfl, rfl, hitems₂⟩ := List.map_eq_cons_iff.1 hrest
  refine ⟨l₁, l₂, chain₁, chain₂, current, rfl, rfl, hitems₁.symm, hitems₂.symm, hl₁', ?_, ?_⟩
  · intro n hn
    obtain ⟨n', hn', heq⟩ := List.mem_map.1 (hitems₁ ▸ List.mem_map_of_mem hn)
    simpa [hasKey, heq] using hl₁' n' hn'
  · simpa [hasKey] using hx

theorem replaceNode_of_none {node : MapNode α} {chain : List (MapNode α)}
    (h : ∀ n ∈ chain, n.key ≠ node.key) : replaceNode node chain = none := by
  rw [PromMap.replaceNode_eq, if_neg]
  rintro ⟨n, hn, hkey⟩
  exact h n hn hkey

theorem replaceNode_append {node current : MapNode α} {chain₁ chain₂ : List (MapNode α)}
    (h : ∀ n ∈ chain₁, n.key ≠ node.key) (hkey : current.key = node.key) :
    replaceNode node (chain₁ ++ current :: chain₂) = some (chain₁ ++ node :: chain₂) := by
  induction chain₁ with
  | nil => rw [List.nil_append, replaceNode, if_pos hkey, List.nil_append]
  | cons n chain₁ ih =>
      rw [List.forall_mem_cons] at h
      rw [List.cons_append, replaceNode, if_neg h.1, ih h.2]
      rfl

/-! ### What a map is in a heap -/

/-- A list of map nodes: its pointers, and its nodes with their addresses and items. -/
abbrev Chain (α : Type*) := Pll × List (ℕ × Option (MapNode α))

/-- Where a list begins, and its nodes. -/
def Chain.root (c : Chain α) : Option ℕ × List (ℕ × Option (MapNode α)) := (c.1.head, c.2)

/-- The lists of a map, in a heap with other lists. -/
structure Represents (t : MapTable) (m : MapHeap α) (pm : PromMap α) (cs : List (Chain α))
    (ks : List (ℕ × Option ℕ)) (others : List (Option ℕ × List (ℕ × Option (MapNode α))))
    (otherKeys : List (Option ℕ × List (ℕ × Option ℕ))) : Prop where
  size : t.size = pm.size
  maxSize : t.maxSize = pm.maxSize
  fresh : m.fresh = pm.fresh
  addrs : t.addrs = cs.map Prod.fst
  fits : ∀ c ∈ cs, c.1.Fits c.2
  chains : cs.map (fun c => c.2.map Prod.snd) = pm.addrs.map (·.map some)
  forest : Forest m.chains (cs.map Chain.root ++ others) 0
  keyForest : Forest m.keyNodes ((t.keys.head, ks) :: otherKeys) 0
  keyFits : t.keys.Fits ks
  keys : ks.map Prod.snd = pm.keys.map some

/-- One of the lists comes first. -/
theorem roots_perm {cs : List (Chain α)} {i : ℕ} (hi : i < cs.length)
    (others : List (Option ℕ × List (ℕ × Option (MapNode α)))) (c : Chain α) :
    ((cs.set i c).map Chain.root ++ others).Perm
      (c.root :: ((cs.eraseIdx i).map Chain.root ++ others)) := by
  have hi' : i < (cs.set i c).length := by rwa [List.length_set]
  have hperm := (List.getElem_cons_eraseIdx_perm hi').symm
  rw [List.getElem_set_self, List.eraseIdx_set_eq] at hperm
  exact (hperm.map Chain.root).append_right others

section Represents

variable {t : MapTable} {m : MapHeap α} {pm : PromMap α} {cs : List (Chain α)}
  {ks : List (ℕ × Option ℕ)} {others : List (Option ℕ × List (ℕ × Option (MapNode α)))}
  {otherKeys : List (Option ℕ × List (ℕ × Option ℕ))}

/-- The list of an index. -/
theorem Represents.exists_chain (h : Represents t m pm cs ks others otherKeys) (hpm : pm.Chained)
    (key : CString) : ∃ list l chain, ∃ hi : promMapGetIndex t.maxSize key < cs.length,
      cs[promMapGetIndex t.maxSize key] = (list, l) ∧
      t.addrs[promMapGetIndex t.maxSize key]? = some list ∧
      pm.addrs[promMapGetIndex pm.maxSize key]? = some chain ∧ l.map Prod.snd = chain.map some := by
  have hlength : cs.length = pm.addrs.length := by
    simpa using congrArg List.length h.chains
  have hi : promMapGetIndex t.maxSize key < cs.length := by
    rw [hlength, hpm.length, h.maxSize]
    exact promMapGetIndex_lt hpm.maxSize_pos key
  rw [← h.maxSize]
  generalize promMapGetIndex t.maxSize key = i at hi ⊢
  have hi' : i < pm.addrs.length := hlength ▸ hi
  have hchain := congrArg (·[i]?) h.chains
  simp only [List.getElem?_map] at hchain
  rw [List.getElem?_eq_getElem hi, List.getElem?_eq_getElem hi'] at hchain
  refine ⟨cs[i].1, cs[i].2, pm.addrs[i], hi, rfl, ?_, List.getElem?_eq_getElem hi',
    Option.some_inj.1 hchain⟩
  rw [h.addrs, List.getElem?_map, List.getElem?_eq_getElem hi]
  rfl

/-- The list of an index comes first. -/
theorem Represents.focus (h : Represents t m pm cs ks others otherKeys) {i : ℕ}
    (hi : i < cs.length) {list : Pll} {l : List (ℕ × Option (MapNode α))}
    (hcs : cs[i] = (list, l)) :
    Forest m.chains ((list.head, l) :: ((cs.eraseIdx i).map Chain.root ++ others)) 0 := by
  have hperm := roots_perm hi others (list, l)
  rw [← hcs, List.set_getElem_self, hcs] at hperm
  exact h.forest.perm hperm

/-- **`prom_map_get`.** -/
theorem Represents.get (h : Represents t m pm cs ks others otherKeys) (hpm : pm.Chained)
    (key : CString) : promMapGet key t m = some (Monitor.promMapGet pm key) := by
  obtain ⟨list, l, chain, hi, hcs, haddr, hchain, hitems⟩ := h.exists_chain hpm key
  have hseg : Segment m.chains list.head l none := (h.focus hi hcs).head
  rw [promMapGet, haddr, Option.bind_some, findLoop_eq hseg (Nat.lt_succ_of_le hseg.length_le),
    find_items hitems, Option.map_some, Monitor.promMapGet, List.getD_eq_getElem?_getD, hchain,
    Option.getD_some]

/-- One list is changed. -/
theorem Represents.update (h : Represents t m pm cs ks others otherKeys) {i : ℕ}
    (hi : i < cs.length) {list : Pll} {l : List (ℕ × Option (MapNode α))}
    {chain : List (MapNode α)} {chains : Nodes (MapNode α)}
    (hforest : Forest chains
      ((list.head, l) :: ((cs.eraseIdx i).map Chain.root ++ others)) 0)
    (hfits : list.Fits l) (hitems : l.map Prod.snd = chain.map some) :
    Represents { t with addrs := t.addrs.set i list }
      { m with chains := chains, fresh := pm.fresh + 1 }
      { pm with addrs := pm.addrs.set i chain, fresh := pm.fresh + 1 }
      (cs.set i (list, l)) ks others otherKeys where
  size := h.size
  maxSize := h.maxSize
  fresh := rfl
  addrs := by
    rw [List.map_set, ← h.addrs]
  fits := by
    intro c hc
    rcases List.mem_or_eq_of_mem_set hc with hc | rfl
    · exact h.fits c hc
    · exact hfits
  chains := by
    rw [List.map_set, List.map_set, h.chains, hitems]
  forest := hforest.perm (roots_perm hi others (list, l)).symm
  keyForest := h.keyForest
  keyFits := h.keyFits
  keys := h.keys

/-- **`prom_map_set_internal`.** -/
theorem Represents.setInternal (h : Represents t m pm cs ks others otherKeys) (hpm : pm.Chained)
    (key : CString) (value : α) :
    ∃ t' m' cs' ks', promMapSetInternal key value t m = some (t', m') ∧
      Represents t' m' (Monitor.promMapSetInternal key value pm) cs' ks' others otherKeys := by
  obtain ⟨list, l, chain, hi, hcs, haddr, hchain, hitems⟩ := h.exists_chain hpm key
  have hfits : list.Fits l := h.fits (list, l) (hcs ▸ List.getElem_mem hi)
  have hforest := h.focus hi hcs
  have hseg : Segment m.chains list.head l none := hforest.head
  have hfuel : l.length < m.chains.length + 1 := Nat.lt_succ_of_le hseg.length_le
  rw [promMapSetInternal, haddr, Option.bind_some, Monitor.promMapSetInternal,
    List.getD_eq_getElem?_getD, hchain, Option.getD_some, h.fresh, ← h.maxSize]
  generalize promMapGetIndex t.maxSize key = i at hi hforest haddr ⊢
  cases hfind : l.find? fun n => hasKey key n.2 with
  | none =>
      -- a new key: a node at the end of the list and one at the end of the keys
      have hnone : ∀ n ∈ l, hasKey key n.2 = false := fun n hn => by
        simpa using List.find?_eq_none.1 hfind n hn
      have hnone' : ∀ n ∈ chain, n.key ≠ key := by
        have hfind' := find_items hitems key
        rw [hfind] at hfind'
        simpa using hfind'.symm
      obtain ⟨list', chains', hlist, hforest', hfits'⟩ :=
        pllAppend_spec hforest hfits (some ⟨pm.fresh, key, value⟩)
      obtain ⟨keys', keyNodes', hkeys, hkeyForest, hkeyFits⟩ :=
        pllAppend_spec h.keyForest h.keyFits (some pm.fresh)
      have hitems' : (l ++ [(m.chains.length, some (MapNode.mk pm.fresh key value))]).map
          Prod.snd = (chain ++ [MapNode.mk pm.fresh key value]).map some := by
        rw [List.map_append, List.map_append, hitems]
        rfl
      have hupdate := h.update hi hforest' hfits' hitems'
      rw [replaceLoop_of_none hseg hfuel hnone, Option.bind_some, replaceNode_of_none hnone']
      dsimp only
      rw [hlist, Option.bind_some]
      dsimp only
      rw [hkeys, Option.map_some]
      refine ⟨_, _, _, _, rfl, { hupdate with
        size := congrArg (· + 1) h.size
        maxSize := rfl
        keyForest := hkeyForest
        keyFits := hkeyFits
        keys := ?_ }⟩
      rw [List.map_append, List.map_append, h.keys]
      rfl
  | some n =>
      -- the item of the first node with the key is replaced
      obtain ⟨l₁, l₂, chain₁, chain₂, current, rfl, rfl, hitems₁, hitems₂, hl₁, hchain₁,
        hcurrent⟩ := exists_split hitems hfind
      obtain ⟨next, chains', hload, hstore, hforest'⟩ :=
        hforest.store_item (some ⟨pm.fresh, key, value⟩)
      have hitems' : (l₁ ++ (n.1, some ⟨pm.fresh, key, value⟩) :: l₂).map Prod.snd =
          (chain₁ ++ ⟨pm.fresh, key, value⟩ :: chain₂).map some := by
        rw [List.map_append, List.map_append, List.map_cons, List.map_cons, hitems₁, hitems₂]
      have hfits' : list.Fits (l₁ ++ (n.1, some ⟨pm.fresh, key, value⟩) :: l₂) :=
        hfits.congr (by rw [List.map_append, List.map_append]; rfl)
      have hupdate := h.update hi hforest' hfits' hitems'
      have hlist : t.addrs.set i list = t.addrs := by
        obtain ⟨hlt, hget⟩ := List.getElem?_eq_some_iff.1 haddr
        rw [← hget, List.set_getElem_self]
      rw [hlist] at hupdate
      have hx : hasKey key (some current) = true := by simpa [hasKey] using hcurrent
      rw [replaceLoop_of_some hseg hfuel hl₁ hx, hload, Option.bind_some, hstore, Option.map_some,
        Option.bind_some, replaceNode_append hchain₁ hcurrent]
      exact ⟨_, _, _, _, rfl, { hupdate with maxSize := rfl }⟩

/-! ### Growing -/

/-- The nodes of an old list are copied into the map, and freed. -/
theorem Represents.moveList {p : Option ℕ} {l : List (ℕ × Option (MapNode α))}
    {chain : List (MapNode α)} (h : Represents t m pm cs ks ((p, l) :: others) otherKeys)
    (hpm : pm.Chained) (hitems : l.map Prod.snd = chain.map some) {fuel : ℕ}
    (hfuel : l.length < fuel) :
    let pm' := chain.foldl (fun new node => Monitor.promMapSetInternal node.key node.value new) pm
    pm'.Chained ∧ ∃ t' m' cs' ks', moveList fuel p (t, m) = some (t', m') ∧
      Represents t' m' pm' cs' ks' ((none, []) :: others) otherKeys := by
  induction l generalizing p chain t m pm cs ks fuel with
  | nil =>
      obtain rfl : chain = [] := by simpa using hitems.symm
      have hseg : Segment m.chains p [] none := h.forest.segment (p, []) (by simp)
      obtain rfl : p = none := hseg
      obtain ⟨fuel, rfl⟩ := Nat.exists_eq_succ_of_ne_zero (Nat.ne_of_gt hfuel)
      exact ⟨hpm, t, m, cs, ks, rfl, h⟩
  | cons n l ih =>
      obtain ⟨a, x⟩ := n
      rw [List.map_cons] at hitems
      obtain ⟨node, chain, rfl, rfl, hrest⟩ := List.map_eq_cons_iff.1 hitems.symm
      obtain ⟨fuel, rfl⟩ := Nat.exists_eq_succ_of_ne_zero (Nat.ne_zero_of_lt hfuel)
      have hseg : Segment m.chains p ((a, some node) :: l) none :=
        h.forest.segment (p, (a, some node) :: l) (by simp)
      obtain ⟨rfl, next, hload, -⟩ := hseg
      obtain ⟨t₁, m₁, cs₁, ks₁, hset, h₁⟩ := h.setInternal hpm node.key node.value
      -- the old node is still there, and now it is freed
      obtain ⟨-, next', chains', hload', hfree, hforest⟩ :=
        (h₁.forest.perm List.perm_middle).free_head
      have h₂ : Represents t₁ { m₁ with chains := chains' }
          (Monitor.promMapSetInternal node.key node.value pm) cs₁ ks₁ ((next', l) :: others)
          otherKeys := { h₁ with forest := hforest.perm List.perm_middle.symm }
      obtain ⟨hchained, t', m', cs', ks', hmove, h'⟩ := ih h₂ (hpm.setInternal node.key node.value)
        hrest.symm (Nat.lt_of_succ_lt_succ hfuel)
      refine ⟨hchained, t', m', cs', ks', ?_, h'⟩
      rw [MapMemory.moveList, hload, Option.bind_some, Option.bind_some, hset, Option.bind_some]
      dsimp only
      rw [hload', Option.bind_some, hfree, Option.bind_some]
      exact hmove

/-- All old lists. -/
theorem Represents.moveLists {old : List (Chain α)} {addrs : List (List (MapNode α))}
    {done : List (Option ℕ × List (ℕ × Option (MapNode α)))}
    (h : Represents t m pm cs ks (old.map Chain.root ++ done) otherKeys) (hpm : pm.Chained)
    (hold : old.map (fun c => c.2.map Prod.snd) = addrs.map (·.map some))
    (hdone : ∀ r ∈ done, r.2 = []) :
    let pm' := addrs.foldl (fun new list =>
      list.foldl (fun new node => Monitor.promMapSetInternal node.key node.value new) new) pm
    pm'.Chained ∧ ∃ t' m' cs' ks', moveLists (old.map Prod.fst) (t, m) = some (t', m') ∧
      Represents t' m' pm' cs' ks' [] otherKeys := by
  induction old generalizing addrs done t m pm cs ks with
  | nil =>
      obtain rfl : addrs = [] := by simpa using hold.symm
      refine ⟨hpm, t, m, cs, ks, rfl, { h with forest := ?_ }⟩
      rw [List.append_nil]
      exact h.forest.of_append_nil hdone
  | cons c old ih =>
      rw [List.map_cons] at hold
      obtain ⟨chain, addrs, rfl, hchain, haddrs⟩ := List.map_eq_cons_iff.1 hold.symm
      have hseg : Segment m.chains c.1.head c.2 none :=
        h.forest.segment c.root (by simp)
      obtain ⟨hchained, t₁, m₁, cs₁, ks₁, hmove, h₁⟩ :=
        h.moveList hpm hchain.symm (Nat.lt_succ_of_le hseg.length_le)
      have h₁' : Represents t₁ m₁ _ cs₁ ks₁ (old.map Chain.root ++ (none, []) :: done) otherKeys :=
        { h₁ with forest := h₁.forest.perm (List.perm_middle.symm.append_left _) }
      obtain ⟨hchained', t', m', cs', ks', hmoves, h'⟩ :=
        ih h₁' hchained haddrs.symm (List.forall_mem_cons.2 ⟨rfl, hdone⟩)
      refine ⟨hchained', t', m', cs', ks', ?_, h'⟩
      rw [MapMemory.moveLists, List.map_cons, List.foldlM_cons]
      dsimp only
      rw [hmove]
      exact hmoves

/-- **`prom_map_ensure_space`.** -/
theorem Represents.ensureSpace (h : Represents t m pm cs ks [] []) (hpm : pm.Chained) :
    ∃ t' m' cs' ks', promMapEnsureSpace t m = some (t', m') ∧
      Represents t' m' (Monitor.promMapEnsureSpace pm) cs' ks' [] [] := by
  rw [promMapEnsureSpace, Monitor.promMapEnsureSpace, PromMap.grows, ← h.size, ← h.maxSize]
  by_cases hroom : t.size ≤ t.maxSize / 2
  · rw [if_pos hroom, if_neg (by simpa using hroom)]
    exact ⟨t, m, cs, ks, rfl, h⟩
  · rw [if_neg hroom, if_pos (by simpa using hroom)]
    have hdoubled : (promMapDoubled pm).Chained :=
      PromMap.chained_empty (Nat.mul_pos hpm.maxSize_pos Nat.zero_lt_two) pm.fresh
    have hstart : Represents ⟨0, t.maxSize * 2, pllNew, List.replicate (t.maxSize * 2) pllNew⟩ m
        (promMapDoubled pm) (List.replicate (t.maxSize * 2) (pllNew, [])) []
        (cs.map Chain.root ++ []) [(t.keys.head, ks)] := {
      size := rfl
      maxSize := congrArg (· * 2) h.maxSize
      fresh := h.fresh
      addrs := by rw [List.map_replicate]
      fits := fun c hc => List.eq_of_mem_replicate hc ▸ pllNew_fits
      chains := by
        rw [promMapDoubled, List.map_replicate, List.map_replicate, h.maxSize]
        rfl
      forest := by
        refine h.forest.nil_append fun r hr => ?_
        rw [List.map_replicate] at hr
        exact List.eq_of_mem_replicate hr
      keyForest := h.keyForest.nil_append (List.forall_mem_singleton.2 rfl)
      keyFits := pllNew_fits
      keys := rfl }
    obtain ⟨-, t', m', cs', ks', hmove, h'⟩ :=
      hstart.moveLists hdoubled h.chains (List.forall_mem_nil _)
    obtain ⟨keyNodes', hpurge, hkeyForest⟩ :=
      pllPurge_spec (h'.keyForest.perm (List.Perm.swap ..))
    refine ⟨t', { m' with keyNodes := keyNodes' }, cs', ks', ?_, { h' with
      keyForest := ?_ }⟩
    · rw [h.addrs, hmove, Option.bind_some]
      dsimp only
      rw [hpurge, Option.map_some]
    · have hforest : Forest keyNodes' ([(t'.keys.head, ks')] ++ [(none, [])]) 0 :=
        hkeyForest.perm (List.Perm.swap ..)
      exact hforest.of_append_nil (List.forall_mem_singleton.2 rfl)

/-- **`prom_map_set`.** -/
theorem Represents.set (h : Represents t m pm cs ks [] []) (hpm : pm.Valid) (key : CString)
    (value : α) : ∃ t' m' cs' ks', promMapSet key value t m = some (t', m') ∧
      Represents t' m' (Monitor.promMapSet key value pm) cs' ks' [] [] := by
  obtain ⟨t₁, m₁, cs₁, ks₁, hensure, h₁⟩ := h.ensureSpace hpm.toChained
  obtain ⟨t', m', cs', ks', hset, h'⟩ := h₁.setInternal hpm.ensureSpace.toChained key value
  exact ⟨t', m', cs', ks', by rw [promMapSet, hensure]; exact hset, h'⟩

/-! ### What is in the heap -/

/-- The nodes of a map, and nothing else, are in the heap. -/
theorem Represents.live (h : Represents t m pm cs ks [] []) (hpm : pm.Chained) :
    Heap.live m.chains = t.size ∧ Heap.live m.keyNodes = t.size := by
  constructor
  · have hlengths : cs.map (fun c => c.2.length) = pm.addrs.map List.length := by
      simpa [Function.comp_def] using congrArg (List.map List.length) h.chains
    have hforest := h.forest.live
    rw [List.append_nil, List.map_map] at hforest
    change Heap.live m.chains = (cs.map fun c => c.2.length).sum at hforest
    rw [hforest, hlengths, ← List.length_flatten, h.size, hpm.size,
      PromMap.nodes]
  · have hlength : ks.length = pm.keys.length := by
      simpa using congrArg List.length h.keys
    rw [h.keyForest.live, h.size, ← hpm.keys_length, ← hlength]
    rfl

/-- Destroying the lists. -/
theorem destroyLists_eq {chains : Nodes (MapNode α)} {addrs : List (List (MapNode α))}
    {done : List (Option ℕ × List (ℕ × Option (MapNode α)))} (released : List (MapNode α))
    (hforest : Forest chains (cs.map Chain.root ++ done) 0) (hdone : ∀ r ∈ done, r.2 = [])
    (hitems : cs.map (fun c => c.2.map Prod.snd) = addrs.map (·.map some)) :
    ∃ chains', destroyLists (cs.map Prod.fst) (released, chains) =
      some (released ++ addrs.flatten, chains') ∧ Heap.live chains' = 0 := by
  induction cs generalizing chains addrs done released with
  | nil =>
      obtain rfl : addrs = [] := by simpa using hitems.symm
      refine ⟨chains, by rw [List.flatten_nil, List.append_nil]; rfl, ?_⟩
      have hnil : Forest chains ([] ++ done) 0 := hforest
      exact (hnil.of_append_nil hdone).live
  | cons c cs ih =>
      rw [List.map_cons] at hitems
      obtain ⟨chain, addrs, rfl, hchain, haddrs⟩ := List.map_eq_cons_iff.1 hitems.symm
      obtain ⟨chains₁, hpurge, hforest₁⟩ :
          ∃ chains', pllPurge c.1 chains = some (c.2.filterMap Prod.snd, pllNew, chains') ∧
            Forest chains' ((none, []) :: (cs.map Chain.root ++ done)) 0 := pllPurge_spec hforest
      have hforest₁' : Forest chains₁ (cs.map Chain.root ++ (none, []) :: done) 0 :=
        hforest₁.perm List.perm_middle.symm
      obtain ⟨chains', hlists, hlive⟩ := ih (released ++ chain) hforest₁'
        (List.forall_mem_cons.2 ⟨rfl, hdone⟩) haddrs.symm
      have hreleased : c.2.filterMap Prod.snd = chain := by
        have hmap := congrArg (List.filterMap id) hchain
        simpa [List.filterMap_map, Function.comp_def] using hmap.symm
      refine ⟨chains', ?_, hlive⟩
      rw [destroyLists, List.map_cons, List.foldlM_cons, hpurge, hreleased]
      rw [List.append_assoc] at hlists
      exact hlists

/-- **`prom_map_destroy`**: every node is destroyed, in the order of the lists, and the heap is
empty. -/
theorem Represents.destroy (h : Represents t m pm cs ks [] []) :
    ∃ m', promMapDestroy t m = some (pm.nodes, m') ∧
      Heap.live m'.chains = 0 ∧ Heap.live m'.keyNodes = 0 := by
  obtain ⟨keyNodes', hpurge, hkeyForest⟩ := pllPurge_spec h.keyForest
  obtain ⟨chains', hlists, hlive⟩ :=
    destroyLists_eq [] h.forest (List.forall_mem_nil _) h.chains
  refine ⟨{ m with chains := chains', keyNodes := keyNodes' }, ?_, hlive, hkeyForest.live⟩
  rw [promMapDestroy, hpurge, Option.bind_some]
  dsimp only
  rw [h.addrs, hlists]
  rfl

end Represents

/-! ### Runs -/

/-- A new map. -/
theorem represents_new : Represents promMapNew (⟨[], [], 0⟩ : MapHeap α) Monitor.promMapNew
    (List.replicate promMapInitialSize (pllNew, [])) [] [] [] where
  size := rfl
  maxSize := rfl
  fresh := rfl
  addrs := rfl
  fits := fun c hc => List.eq_of_mem_replicate hc ▸ pllNew_fits
  chains := rfl
  forest := by
    have hempty : Forest ([] : Nodes (MapNode α)) [] 0 :=
      ⟨List.forall_mem_nil _, List.nodup_nil, rfl⟩
    have hroots : ∀ r ∈ List.replicate promMapInitialSize ((none, []) :
        Option ℕ × List (ℕ × Option (MapNode α))), r = (none, []) :=
      fun r hr => List.eq_of_mem_replicate hr
    exact hempty.nil_append hroots
  keyForest := ⟨List.forall_mem_singleton.2 rfl, List.nodup_nil, rfl⟩
  keyFits := pllNew_fits
  keys := rfl

/-- The map and its heap after these calls of `prom_map_set` on a new one. -/
def setAll (sets : List (CString × α)) : Option (MapTable × MapHeap α) :=
  sets.foldlM (fun s set => promMapSet set.1 set.2 s.1 s.2) (promMapNew, ⟨[], [], 0⟩)

/-- The run. -/
theorem represents_setAll (sets : List (CString × α)) : ∃ t m cs ks, setAll sets = some (t, m) ∧
    Represents t m (Monitor.setAll sets) cs ks [] [] := by
  induction sets using List.reverseRecOn with
  | nil => exact ⟨_, _, _, _, rfl, represents_new⟩
  | append_singleton sets s ih =>
      obtain ⟨t, m, cs, ks, hsets, h⟩ := ih
      obtain ⟨t', m', cs', ks', hset, h'⟩ := h.set (valid_setAll sets) s.1 s.2
      refine ⟨t', m', cs', ks', ?_, ?_⟩
      · rw [setAll] at hsets ⊢
        rw [List.foldlM_append, hsets]
        exact (bind_pure _).trans hset
      · rw [setAll_append_singleton]
        exact h'

end MapMemory

/-- **The map of libprom, in its heap.**  Any calls of `prom_map_set` on a new map use no node that
has been freed and free none twice; a look up then finds what was set last under the key, the size
is the number of keys, and the nodes that are still there are one for every key in the lists and one
in the list of keys: the growth of the map loses none.  `prom_map_destroy` frees them all, and
destroys what was set last under every key, once. -/
theorem mapMemory_refines {α : Type*} (sets : List (CString × α)) :
    ∃ t m released m', MapMemory.setAll sets = some (t, m) ∧
      (∀ key, MapMemory.promMapGet key t m = some (sets.reverse.lookup key)) ∧
      t.size = (sets.map Prod.fst).dedup.length ∧
      Heap.live m.chains = t.size ∧ Heap.live m.keyNodes = t.size ∧
      MapMemory.promMapDestroy t m = some (released, m') ∧
      (released.map (·.key)).Nodup ∧
      (∀ key value, (∃ n ∈ released, n.key = key ∧ n.value = value) ↔
        sets.reverse.lookup key = some value) ∧
      Heap.live m'.chains = 0 ∧ Heap.live m'.keyNodes = 0 := by
  obtain ⟨t, m, cs, ks, hsets, h⟩ := MapMemory.represents_setAll sets
  have hvalid := valid_setAll sets
  obtain ⟨hchains, hkeyNodes⟩ := h.live hvalid.toChained
  obtain ⟨m', hdestroy, hchains', hkeyNodes'⟩ := h.destroy
  refine ⟨t, m, (setAll sets).nodes, m', hsets, fun key => ?_, h.size.trans (setAll_size sets),
    hchains, hkeyNodes, hdestroy, hvalid.wellFormed.nodup_flatten, fun key value => ?_, hchains',
    hkeyNodes'⟩
  · rw [h.get hvalid.toChained, setAll_get]
  · rw [← hvalid.get_eq_some_iff, setAll_get]

end Monitor
