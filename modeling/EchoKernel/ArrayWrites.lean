import Mathlib.Data.List.GetD
import Mathlib.Data.List.Range
import Mathlib.Algebra.Group.Nat.Defs

namespace EchoKernel.ArrayWrites

open List

/-!
# Sequences of writes to an array

A write puts values into adjacent cells. After a sequence of writes a range
holds the values of the last write to it.
-/

variable {α : Type*}

/-- Values, and the cell that takes the first of them. -/
abbrev Write (α : Type*) := Nat × List α

/-- The cell is one of those that are written. -/
def Write.Covers (write : Write α) (cell : Nat) : Prop :=
  write.1 ≤ cell ∧ cell < write.1 + write.2.length

/-- The array after a write. -/
def store (array : Nat → α) (write : Write α) (cell : Nat) : α :=
  if write.1 ≤ cell then write.2.getD (cell - write.1) (array cell)
  else array cell

def storeAll (array : Nat → α) (writes : List (Write α)) : Nat → α := writes.foldl store array

/-- The values of cells that lie next to each other. -/
def load (array : Nat → α) (start count : Nat) : List α :=
  (range count).map fun index => array (start + index)

variable {array other : Nat → α} {write : Write α} {start count cell : Nat}
variable {writes before after : List (Write α)} {values : List α}

theorem store_of_not_covers
    (outside : ¬ write.Covers cell) :
    store array write cell = array cell := by
  rw [store]
  split
  · refine getD_eq_default _ _ ?_
    rw [Write.Covers] at outside
    omega
  · rfl

theorem storeAll_append :
    storeAll array (before ++ after) = storeAll (storeAll array before) after :=
  foldl_append

/-- A cell that no write covers keeps its value. -/
theorem storeAll_of_not_covers
    (outside : ∀ write ∈ writes, ¬ Write.Covers write cell) :
    storeAll array writes cell = array cell := by
  induction writes generalizing array with
  | nil => rfl
  | cons write rest inductionHypothesis =>
    have later := @inductionHypothesis (store array write)
      fun other member => outside other (mem_cons_of_mem _ member)
    rw [store_of_not_covers (outside write mem_cons_self)] at later
    exact later

@[simp]
theorem length_load : (load array start count).length = count := by
  rw [load, length_map, length_range]

theorem load_congr
    (same : ∀ cell, start ≤ cell → cell < start + count → array cell = other cell) :
    load array start count = load other start count := by
  refine map_congr_left fun index member => ?_
  rw [mem_range] at member
  exact same _ (Nat.le_add_right _ _) (by omega)

theorem load_add
    (more : Nat) :
    load array start (count + more) =
    load array start count ++ load array (start + count) more := by
  rw [load, range_add, map_append, map_map, load]
  refine congrArg _ (map_congr_left fun index _ => ?_)
  rw [Function.comp_apply, Nat.add_assoc]

theorem load_store
    (array : Nat → α)
    (start : Nat)
    (values : List α) :
    load (store array (start, values)) start values.length = values := by
  refine ext_getElem (by rw [length_load]) fun index _ inside => ?_
  simp only [load, getElem_map, getElem_range]
  rw [store, if_pos (Nat.le_add_right _ _), Nat.add_sub_cancel_left, getD_eq_getElem _ _ inside]

/-- A range holds the values of the last write to it. -/
theorem load_storeAll
    (apart : ∀ write ∈ after, ∀ cell, start ≤ cell → cell < start + values.length →
      ¬ Write.Covers write cell) :
    load (storeAll array (before ++ (start, values) :: after)) start values.length = values := by
  rw [storeAll_append]
  have last : load (storeAll (storeAll array before) ((start, values) :: after))
      start values.length = load (store (storeAll array before) (start, values)) start
      values.length := by
    refine load_congr fun cell reaches inside => ?_
    exact storeAll_of_not_covers fun write member => apart write member cell reaches inside
  rw [last, load_store]

end EchoKernel.ArrayWrites
