import Mathlib.Data.Nat.Basic
import Mathlib.Algebra.Group.Nat.Defs

namespace EchoKernel.ByteMemory

/-!
# Byte-addressed memory

A memory maps machine addresses to bytes. Multi-byte values are little-endian
and addresses wrap at the address width.
-/

/-- The bytes at every address of width `w`. -/
abbrev Memory (w : Nat) := BitVec w → BitVec 8

variable {w : Nat}

/-- Read `count` bytes at `addr` as one little-endian number. -/
def read (mem : Memory w) : BitVec w → Nat → Nat
  | _, 0 => 0
  | addr, count + 1 => (mem addr).toNat + 256 * read mem (addr + 1) count

/-- Write the low `count` bytes of `value` at `addr`, little-endian. -/
def write (mem : Memory w) : BitVec w → Nat → Nat → Memory w
  | _, 0, _ => mem
  | addr, count + 1, value =>
    fun query =>
      if query = addr then BitVec.ofNat 8 value
      else write mem (addr + 1) count (value / 256) query

/-- `query` is one of the `count` bytes at `addr`. -/
def InRange (addr : BitVec w) (count : Nat) (query : BitVec w) : Prop :=
  ∃ index < count, query = addr + BitVec.ofNat w index

theorem add_one_add_ofNat
    (addr : BitVec w)
    (index : Nat) :
    addr + 1 + BitVec.ofNat w index = addr + BitVec.ofNat w (index + 1) := by
  rw [BitVec.ofNat_add, BitVec.add_assoc, BitVec.add_comm 1 (BitVec.ofNat w index)]
  rfl

theorem InRange.tail
    {addr query : BitVec w}
    {count : Nat}
    (inTail : InRange (addr + 1) count query) :
    InRange addr (count + 1) query := by
  obtain ⟨index, bound, shape⟩ := inTail
  exact ⟨index + 1, by omega, shape.trans (add_one_add_ofNat addr index)⟩

/-- A write keeps every byte outside its range. -/
theorem write_of_not_inRange
    (mem : Memory w)
    {addr query : BitVec w}
    {count : Nat}
    (value : Nat)
    (outside : ¬ InRange addr count query) :
    write mem addr count value query = mem query := by
  induction count generalizing addr value with
  | zero => rfl
  | succ count inductionHypothesis =>
    have notHead : query ≠ addr := by
      rintro rfl
      exact outside ⟨0, by omega, by simp⟩
    simp only [write, notHead]
    exact inductionHypothesis (value / 256) (fun inTail => outside inTail.tail)

/-- Memories that agree on a range read the same there. -/
theorem read_congr
    {first second : Memory w}
    {addr : BitVec w}
    {count : Nat}
    (agree : ∀ query, InRange addr count query → first query = second query) :
    read first addr count = read second addr count := by
  induction count generalizing addr with
  | zero => rfl
  | succ count inductionHypothesis =>
    have head : first addr = second addr := agree addr ⟨0, by omega, by simp⟩
    have tail : read first (addr + 1) count = read second (addr + 1) count :=
      inductionHypothesis (fun query inTail => agree query inTail.tail)
    simp only [read, head, tail]

/-- Two ranges that share no byte. -/
def Disjoint (first : BitVec w) (firstCount : Nat) (second : BitVec w) (secondCount : Nat) : Prop :=
  ∀ query, InRange first firstCount query → ¬ InRange second secondCount query

theorem read_write_of_disjoint
    (mem : Memory w)
    {readAddr writeAddr : BitVec w}
    {readCount writeCount : Nat}
    (value : Nat)
    (apart : Disjoint readAddr readCount writeAddr writeCount) :
    read (write mem writeAddr writeCount value) readAddr readCount =
    read mem readAddr readCount := by
  apply read_congr
  intro query inRead
  exact write_of_not_inRange mem value (apart query inRead)

/-- A read of a whole write returns the value, cut to its size. -/
theorem read_write_same
    (mem : Memory w)
    (addr : BitVec w)
    {count : Nat}
    (value : Nat)
    (fits : count ≤ 2 ^ w) :
    read (write mem addr count value) addr count = value % 256 ^ count := by
  induction count generalizing addr value with
  | zero => simp [read, Nat.mod_one]
  | succ count inductionHypothesis =>
    have tailAgrees : read (write mem addr (count + 1) value) (addr + 1) count =
        read (write mem (addr + 1) count (value / 256)) (addr + 1) count := by
      apply read_congr
      rintro query ⟨index, bound, rfl⟩
      have notHead : addr + 1 + BitVec.ofNat w index ≠ addr := by
        rw [add_one_add_ofNat]
        intro same
        have zero : BitVec.ofNat w (index + 1) = 0 := by simpa using same
        have small := congrArg BitVec.toNat zero
        rw [BitVec.toNat_ofNat, Nat.mod_eq_of_lt (by omega)] at small
        simp at small
      simp only [write, notHead, ↓reduceIte]
    have head : (write mem addr (count + 1) value addr).toNat = value % 256 := by simp [write]
    rw [read, head, tailAgrees, inductionHypothesis (addr + 1) (value / 256) (by omega),
      Nat.pow_succ, Nat.mul_comm (256 ^ count) 256, Nat.mod_mul]

end EchoKernel.ByteMemory
