/-
**Blocks of memory.**

A block is what an allocation returns: a number of cells, each of them indeterminate until
something is stored in it.  An access outside the block has no result, and neither has reading a
cell that is indeterminate, so a program that computes a result over blocks makes no such access.

* `Block.alloc`, `Block.resize` — `malloc` and `realloc`;
* `Block.store`, `Block.copyIn`, `Block.copyOut` — a store, and `memcpy` into and out of a block;
* `Block.Begins` — what a block is known to begin with;
* `Block.Begins.store`, `Block.Begins.copyIn`, `Block.Begins.resize`, `Block.Begins.copyOut` — the
  accesses, when they stay inside the block.
-/

import Mathlib.Data.List.Basic
import Mathlib.Data.List.TakeDrop

set_option relaxedAutoImplicit false
set_option autoImplicit false

/-- A block of memory: its cells, `none` where nothing has been stored. -/
abbrev Block (β : Type*) := List (Option β)

namespace Block

variable {β : Type*}

/-- A new block. -/
def alloc (n : ℕ) : Block β := List.replicate n none

/-- Resizing: what fits is kept. -/
def resize (n : ℕ) (b : Block β) : Block β := b.take n ++ List.replicate (n - b.length) none

/-- Storing into a cell. -/
def store (i : ℕ) (x : β) (b : Block β) : Option (Block β) :=
  if i < b.length then some (b.set i (some x)) else none

/-- Copying into the cells from `i` on. -/
def copyIn (i : ℕ) (xs : List β) (b : Block β) : Option (Block β) :=
  if i + xs.length ≤ b.length then
    some (b.take i ++ xs.map some ++ b.drop (i + xs.length))
  else none

/-- Copying the first `n` cells out. -/
def copyOut (n : ℕ) (b : Block β) : Option (List β) :=
  if n ≤ b.length then (b.take n).mapM id else none

/-- The first cells of the block hold these values. -/
def Begins (b : Block β) (xs : List β) : Prop := xs.map some <+: b

theorem begins_nil (b : Block β) : Begins b [] := List.nil_prefix

theorem length_resize (n : ℕ) (b : Block β) : (resize n b).length = n := by
  rw [resize, List.length_append, List.length_take, List.length_replicate]
  omega

namespace Begins

variable {b : Block β} {xs : List β}

theorem length_le (h : Begins b xs) : xs.length ≤ b.length := by
  simpa using List.IsPrefix.length_le h

theorem take_eq (h : Begins b xs) : b.take xs.length = xs.map some := by
  simpa using (List.prefix_iff_eq_take.1 h).symm

/-- Less is known. -/
theorem take (h : Begins b xs) (n : ℕ) : Begins b (xs.take n) := by
  rw [Begins, List.map_take]
  exact (List.take_prefix _ _).trans h

/-- A resize that keeps the known cells. -/
theorem resize (h : Begins b xs) {n : ℕ} (hn : xs.length ≤ n) : Begins (resize n b) xs := by
  have hprefix : xs.map some <+: b.take n := List.prefix_take_iff.2 ⟨h, by simpa using hn⟩
  exact hprefix.trans (List.prefix_append _ _)

/-- Storing at or before the end of what is known. -/
theorem store (h : Begins b xs) {i : ℕ} (hi : i ≤ xs.length) (hlt : i < b.length) (x : β) :
    ∃ b', store i x b = some b' ∧ b'.length = b.length ∧ Begins b' (xs.take i ++ [x]) := by
  refine ⟨b.set i (some x), if_pos hlt, List.length_set, ?_⟩
  have htake : b.take i = (xs.take i).map some := by
    have := (h.take i).take_eq
    rwa [List.length_take, Nat.min_eq_left hi] at this
  rw [Begins, List.set_eq_take_append_cons_drop, if_pos hlt, htake, List.map_append]
  exact (List.prefix_append_right_inj _).2 ⟨_, rfl⟩

/-- Copying to the end of what is known. -/
theorem copyIn (h : Begins b xs) {ys : List β} (hfit : xs.length + ys.length ≤ b.length) :
    ∃ b', copyIn xs.length ys b = some b' ∧ b'.length = b.length ∧ Begins b' (xs ++ ys) := by
  refine ⟨_, if_pos hfit, ?_, ?_⟩
  · simp only [List.length_append, List.length_take, List.length_map, List.length_drop]
    omega
  · rw [Begins, h.take_eq, List.map_append]
    exact List.prefix_append _ _

/-- Copying known cells out. -/
theorem copyOut (h : Begins b xs) : copyOut xs.length b = some xs := by
  rw [Block.copyOut, if_pos h.length_le, h.take_eq]
  clear h
  induction xs with
  | nil => rfl
  | cons x xs ih => simp [ih]

end Begins

end Block
