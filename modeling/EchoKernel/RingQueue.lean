import Mathlib.Data.List.Nodup
import Mathlib.Algebra.Group.Nat.Defs

namespace EchoKernel.RingQueue

open Function List

/-!
# Queues in a ring of slots

Elements are stored at the write index and taken from the read index; an index
wraps to zero at the end. One slot is always free, so equal indices mean an
empty queue. The entries are the occupied slots in order, with what they hold.
-/

/-- A ring of slots with its two indices. -/
structure Ring (α : Type*) where
  size : Nat
  element : Nat → α
  idxR : Nat
  idxW : Nat
  readInside : idxR < size
  writeInside : idxW < size

namespace Ring

variable {α : Type*} (ring : Ring α)

def next (index : Nat) : Nat := if index + 1 = ring.size then 0 else index + 1

theorem next_lt {index : Nat} (inside : index < ring.size) : ring.next index < ring.size := by
  unfold next
  split
  · omega
  · omega

def isEmpty : Bool := ring.idxR == ring.idxW

/-- Another element would make the indices equal. -/
def toBeFull : Bool := ring.next ring.idxW == ring.idxR

def push (element : α) : Ring α where
  size := ring.size
  element := update ring.element ring.idxW element
  idxR := ring.idxR
  idxW := ring.next ring.idxW
  readInside := ring.readInside
  writeInside := ring.next_lt ring.writeInside

def pop : Ring α where
  size := ring.size
  element := ring.element
  idxR := ring.next ring.idxR
  idxW := ring.idxW
  readInside := ring.next_lt ring.readInside
  writeInside := ring.writeInside

def count : Nat :=
  if ring.idxR ≤ ring.idxW then ring.idxW - ring.idxR
  else ring.size - ring.idxR + ring.idxW

/-- A slot, counted from the read index. -/
def slot (index : Nat) : Nat :=
  if ring.idxR + index < ring.size then ring.idxR + index
  else ring.idxR + index - ring.size

/-- The occupied slots in order. -/
def slots : List Nat := (range ring.count).map ring.slot

/-- The occupied slots with what they hold. -/
def entries : List (Nat × α) := ring.slots.map fun slot => (slot, ring.element slot)

theorem count_lt : ring.count < ring.size := by
  have writeInside := ring.writeInside
  unfold count
  split
  · omega
  · omega

/-- No slot is occupied twice. -/
theorem nodup_slots : ring.slots.Nodup := by
  have few := ring.count_lt
  refine List.Nodup.map_on ?_ nodup_range
  intro first isFirst second isSecond same
  rw [mem_range] at isFirst isSecond
  unfold slot at same
  split at same <;> split at same <;> omega

variable {ring}

theorem isEmpty_iff_entries : ring.isEmpty = true ↔ ring.entries = [] := by
  have readInside := ring.readInside
  simp only [isEmpty, entries, slots, map_eq_nil_iff, range_eq_nil, beq_iff_eq, count]
  split
  · omega
  · omega

theorem slots_push
    {element : α}
    (room : ring.toBeFull = false) :
    (ring.push element).slots = ring.slots ++ [ring.idxW] := by
  have readInside := ring.readInside
  have writeInside := ring.writeInside
  have apart : ring.next ring.idxW ≠ ring.idxR := by simpa [toBeFull] using room
  have counted : (ring.push element).count = ring.count + 1 := by
    unfold next at apart
    simp only [count, push, next]
    split at apart
    all_goals
      repeat' split
      all_goals omega
  have last : ring.slot ring.count = ring.idxW := by
    unfold slot count
    split <;> split <;> omega
  rw [slots, counted, range_succ, map_append, slots]
  have same : (ring.push element).slot = ring.slot := rfl
  rw [same, map_singleton, last]

theorem entries_push
    {element : α}
    (room : ring.toBeFull = false) :
    (ring.push element).entries = ring.entries ++ [(ring.idxW, element)] := by
  have fresh : ring.idxW ∉ ring.slots := by
    have nodup := (ring.push element).nodup_slots
    rw [slots_push room] at nodup
    intro member
    exact (nodup_append.mp nodup).2.2 _ member _ (by simp) rfl
  rw [entries, slots_push room, map_append]
  congr 1
  · refine map_congr_left ?_
    intro slot member
    have other : slot ≠ ring.idxW := by
      rintro rfl
      exact fresh member
    simp only [push, update_of_ne other]
  · simp [push]

theorem slots_pop (nonempty : ring.isEmpty = false) : ring.slots = ring.idxR :: ring.pop.slots := by
  have readInside := ring.readInside
  have writeInside := ring.writeInside
  have few := ring.count_lt
  have apart : ring.idxR ≠ ring.idxW := by simpa [isEmpty] using nonempty
  have counted : ring.count = ring.pop.count + 1 := by
    simp only [count, pop, next]
    split <;> split <;> split <;> omega
  rw [slots, counted, range_succ_eq_map, map_cons, map_map]
  have first : ring.slot 0 = ring.idxR := by
    unfold slot
    split <;> omega
  rw [first]
  refine congrArg (cons ring.idxR) (map_congr_left ?_)
  intro index member
  rw [mem_range] at member
  simp only [comp, slot, pop, next]
  split <;> split <;> split <;> omega

theorem entries_pop
    (nonempty : ring.isEmpty = false) :
    ring.entries = (ring.idxR, ring.element ring.idxR) :: ring.pop.entries := by
  rw [entries, slots_pop nonempty]
  rfl

theorem element_push
    {element : α}
    {slot : Nat} :
    (ring.push element).element slot = if slot = ring.idxW then element else ring.element slot :=
  update_apply ..

theorem element_push_of_isEmpty
    {element : α}
    (empty : ring.isEmpty = true) :
    (ring.push element).element (ring.push element).idxR = element := by
  have same : ring.idxR = ring.idxW := by simpa [isEmpty] using empty
  simp [push, same]

theorem isEmpty_push
    {element : α}
    (room : ring.toBeFull = false) :
    (ring.push element).isEmpty = false := by
  rw [Bool.eq_false_iff, Ne, isEmpty_iff_entries, entries_push room]
  exact append_ne_nil_of_right_ne_nil _ (cons_ne_nil _ _)

theorem nonempty_of_mem
    {entry : Nat × α}
    (member : entry ∈ ring.entries) :
    ring.isEmpty = false := by
  rw [Bool.eq_false_iff, Ne, isEmpty_iff_entries]
  intro isNil
  rw [isNil] at member
  cases member

theorem element_of_mem
    {slot : Nat}
    {element : α}
    (member : (slot, element) ∈ ring.entries) :
    ring.element slot = element := by
  obtain ⟨_, _, same⟩ := mem_map.mp member
  rw [Prod.mk.injEq] at same
  rw [← same.2, same.1]

theorem mem_pop
    {slot : Nat}
    {element : α}
    (member : (slot, element) ∈ ring.entries)
    (later : slot ≠ ring.idxR) :
    (slot, element) ∈ ring.pop.entries := by
  rw [entries_pop (nonempty_of_mem member)] at member
  rcases mem_cons.mp member with same | behind
  · exact absurd (congrArg Prod.fst same) later
  · exact behind

theorem mem_of_mem_pop
    {entry : Nat × α}
    (nonempty : ring.isEmpty = false)
    (member : entry ∈ ring.pop.entries) :
    entry ∈ ring.entries := by
  rw [entries_pop nonempty]
  exact mem_cons_of_mem _ member

section
variable {β : Type*} (view : α → β)

/-- What the entries look like, in order. -/
def contents (ring : Ring α) : List β := ring.entries.map fun entry => view entry.2

/-- The value of a slot is changed in place. -/
def store (ring : Ring α) (slot : Nat) (value : α) : Ring α :=
  { ring with element := update ring.element slot value }

/-- Elements are taken until the queue is empty. -/
def drain : Nat → Ring α → Ring α
  | 0, ring => ring
  | fuel + 1, ring => if ring.isEmpty then ring else drain fuel ring.pop

variable {view}

theorem element_store
    {slot other : Nat}
    {value : α} :
    (ring.store slot value).element other = if other = slot then value else ring.element other :=
  update_apply ..

theorem isEmpty_iff_contents : ring.isEmpty = true ↔ ring.contents view = [] := by
  rw [isEmpty_iff_entries, contents, map_eq_nil_iff]

theorem contents_push
    {element : α}
    (room : ring.toBeFull = false) :
    (ring.push element).contents view = ring.contents view ++ [view element] := by
  rw [contents, entries_push room, map_append]
  rfl

theorem contents_pop
    (nonempty : ring.isEmpty = false) :
    ring.contents view = view (ring.element ring.idxR) :: ring.pop.contents view := by
  rw [contents, entries_pop nonempty]
  rfl

theorem view_store
    {slot : Nat}
    {value : α}
    (same : view value = view (ring.element slot))
    (other : Nat) :
    view ((ring.store slot value).element other) = view (ring.element other) := by
  by_cases isSlot : other = slot
  · rw [isSlot]
    simpa [store] using same
  · simp only [store, update_of_ne isSlot]

theorem contents_store
    {slot : Nat}
    {value : α}
    (same : view value = view (ring.element slot)) :
    (ring.store slot value).contents view = ring.contents view := by
  rw [contents, contents, entries, entries, map_map, map_map]
  exact map_congr_left fun other _ => view_store same other

theorem length_entries : ring.entries.length = ring.count := by
  simp [entries, slots]

/-- Nothing is left when there is enough fuel. -/
theorem isEmpty_drain
    {fuel : Nat}
    (enough : ring.count ≤ fuel) :
    (drain fuel ring).isEmpty = true := by
  induction fuel generalizing ring with
  | zero =>
    rw [drain, isEmpty_iff_entries, ← length_eq_zero_iff, length_entries]
    omega
  | succ fuel inductionHypothesis =>
    rw [drain]
    split
    case isTrue empty => exact empty
    case isFalse nonempty =>
      have popped := entries_pop (Bool.eq_false_iff.mpr nonempty)
      have counted := congrArg length popped
      rw [length_entries, length_cons, length_entries] at counted
      exact inductionHypothesis (by omega)

theorem element_drain {fuel : Nat} : (drain fuel ring).element = ring.element := by
  induction fuel generalizing ring with
  | zero => rfl
  | succ fuel inductionHypothesis =>
    rw [drain]
    split
    case isTrue => rfl
    case isFalse => exact inductionHypothesis

end

end Ring

end EchoKernel.RingQueue
