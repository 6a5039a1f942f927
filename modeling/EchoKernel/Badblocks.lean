import EchoKernel.Bisection
import EchoKernel.Errno

namespace EchoKernel.Block

open Bisection

/-!
# The table of bad blocks

`block/badblocks.c`. The table is one page of 64-bit entries, sorted by block
number: a block number of 54 bits, a length from 1 to 512 and the acknowledged
flag. With a shift the blocks are larger than sectors. `sector_t` has 64 bits,
`int` has 32. The list `page` holds the entries in use, so `count` is its
length.
-/

def bbMaxLen : Nat := 512

/-- `MAX_BADBLOCKS`: the entries of one page. -/
def maxBadblocks : Nat := 512

/-- `BB_OFFSET`. -/
def bbOffset (x : BitVec 64) : BitVec 64 := (x &&& 0x7FFFFFFFFFFFFE00) >>> 9

/-- `BB_LEN`. -/
def bbLen (x : BitVec 64) : BitVec 64 := (x &&& 0x00000000000001FF) + 1

/-- `BB_ACK`. -/
def bbAck (x : BitVec 64) : Bool := x &&& 0x8000000000000000 != 0

/-- `BB_MAKE`. -/
def bbMake (a l : BitVec 64) (ack : Bool) : BitVec 64 :=
  (a <<< 9) ||| (l - 1) ||| (if ack then 0x8000000000000000 else 0)

/-- `struct badblocks`. -/
structure Badblocks where
  page : List (BitVec 64)
  unackedExist : Bool
  shift : Int
  changed : Bool
  deriving Repr, DecidableEq

/-- The entry at an index below `count`. -/
def entryAt (page : List (BitVec 64)) (index : Nat) : BitVec 64 := page.getD index 0

/--
`(1<<bb->shift) - 1`. Signed arithmetic wraps in the kernel, so 31 gives the
largest `int`; shifts by 32 and more are undefined.
-/
def shiftMask (shift : Nat) : Option (BitVec 64) :=
  if shift < 32 then some (BitVec.ofNat 64 (2 ^ shift - 1)) else none

/-- The search for the last entry before a block. -/
def lastBefore (before : BitVec 64 → Bool) (page : List (BitVec 64)) : Nat × Nat :=
  bisect (fun index => before (bbOffset (entryAt page index))) page.length 0 page.length

/-- `badblocks_update_acked`. -/
def badblocksUpdateAcked (bb : Badblocks) : Badblocks :=
  if bb.unackedExist && bb.page.all bbAck then { bb with unackedExist := false }
  else bb

/-- The local variables of `badblocks_set`. -/
structure SetState where
  page : List (BitVec 64)
  s : BitVec 64
  sectors : BitVec 32
  lo : Nat
  hi : Nat
  deriving Repr, DecidableEq

section
variable (acknowledged : Bool) (state : SetState)

/-- The end of the range that is left. -/
def SetState.target : BitVec 64 := state.s + state.sectors.signExtend 64

/-- Round the start down and the end up: the block and the number of blocks. -/
def roundOut (shift : Nat) (s : BitVec 64) (sectors : BitVec 32) : Option (BitVec 64 × BitVec 32) :=
  if shift = 0 then some (s, sectors)
  else
    match shiftMask shift with
    | none => none
    | some mask =>
      let next := (s + sectors.signExtend 64 + mask) >>> shift
      some (s >>> shift, (next - s >>> shift).setWidth 32)

/-- Merge with the range that starts at or before `s`. -/
def mergeLow : SetState :=
  if state.lo < state.hi then
    let entry := entryAt state.page state.lo
    let a := bbOffset entry
    let e := a + bbLen entry
    if state.s ≤ e then
      let ack :=
        if state.s = a ∧ e ≤ state.target then acknowledged
        else bbAck entry && acknowledged
      let e := if e < state.target then state.target else e
      if e - a ≤ BitVec.ofNat 64 bbMaxLen then
        { state with
          page := state.page.set state.lo (bbMake a (e - a) ack)
          s := e
          sectors := 0 }
      else
        -- does not all fit in one range, make p[lo] maximal
        let s := a + BitVec.ofNat 64 bbMaxLen
        { state with
          page :=
            if bbLen entry ≠ BitVec.ofNat 64 bbMaxLen then
              state.page.set state.lo (bbMake a (BitVec.ofNat 64 bbMaxLen) ack)
            else state.page
          s := s
          sectors := (e - s).setWidth 32 }
    else state
  else state

/-- Merge with the range that starts after `s`. -/
def mergeHigh : SetState :=
  if state.sectors ≠ 0 ∧ state.hi < state.page.length then
    let entry := entryAt state.page state.hi
    let a := bbOffset entry
    let e := a + bbLen entry
    if a ≤ state.target then
      let ack := if e ≤ state.target then acknowledged else bbAck entry && acknowledged
      let e := if e ≤ state.target then state.target else e
      let a := state.s
      if e - a ≤ BitVec.ofNat 64 bbMaxLen then
        { page := state.page.set state.hi (bbMake a (e - a) ack)
          s := e
          sectors := 0
          lo := state.hi
          hi := state.hi + 1 }
      else
        let s := a + BitVec.ofNat 64 bbMaxLen
        { page := state.page.set state.hi (bbMake a (BitVec.ofNat 64 bbMaxLen) ack)
          s := s
          sectors := (e - s).setWidth 32
          lo := state.hi
          hi := state.hi + 1 }
    else state
  else state

/-- Combine the range ending at `s` with the next one. -/
def combine : SetState :=
  if state.sectors = 0 ∧ state.hi < state.page.length then
    let low := entryAt state.page state.lo
    let high := entryAt state.page state.hi
    let a := bbOffset high
    let newlen := (bbLen low + bbLen high - (state.s - a)).setWidth 32
    if a ≤ state.s ∧ newlen.slt (BitVec.ofNat 32 bbMaxLen) then
      let entry := bbMake (bbOffset low) (newlen.signExtend 64) (bbAck low && bbAck high)
      { state with page := (state.page.set state.lo entry).eraseIdx state.hi }
    else state
  else state

/-- The part of the sectors that fits into one range. -/
def thisSectors (sectors : BitVec 32) : BitVec 32 :=
  if (BitVec.ofNat 32 bbMaxLen).slt sectors then BitVec.ofNat 32 bbMaxLen
  else sectors

/-- Add ranges just before `hi` while there is room. -/
def addRanges (acknowledged : Bool) (hi : Nat) : Nat → List (BitVec 64) → BitVec 64 → BitVec 32 →
      List (BitVec 64) × Int
  | 0, page, _, sectors => (page, if sectors = 0 then 0 else 1)
  | room + 1, page, s, sectors =>
    if sectors = 0 then (page, 0)
    else
      addRanges acknowledged hi room (page.insertIdx hi
          (bbMake s ((thisSectors sectors).signExtend 64) acknowledged))
        (s + (thisSectors sectors).signExtend 64) (sectors - thisSectors sectors)

/-- Add what did not merge. -/
def addRest : List (BitVec 64) × Int :=
  addRanges acknowledged state.hi (maxBadblocks - state.page.length)
    state.page state.s state.sectors

end

/-- What `badblocks_set` does with the table and the rounded range. -/
def setBlocks (page : List (BitVec 64)) (s : BitVec 64) (sectors : BitVec 32)
    (acknowledged : Bool) : List (BitVec 64) × Int :=
  let (lo, hi) := lastBefore (fun a => a ≤ s) page
  let hi := if lo < hi ∧ s < bbOffset (entryAt page lo) then lo else hi
  addRest acknowledged (combine (mergeHigh acknowledged
        (mergeLow acknowledged ⟨page, s, sectors, lo, hi⟩)))

/-- `badblocks_set`; none for an undefined shift. -/
def badblocksSet (bb : Badblocks) (s : BitVec 64) (sectors : BitVec 32)
    (acknowledged : Bool) : Option (Badblocks × Int) :=
  if bb.shift < 0 then
    -- badblocks are disabled
    some (bb, 1)
  else
    match roundOut bb.shift.toNat s sectors with
    | none => none
    | some (s, sectors) =>
      let (page, rv) := setBlocks bb.page s sectors acknowledged
      let bb := { bb with page := page, changed := true }
      let bb :=
        if acknowledged then badblocksUpdateAcked bb
        else { bb with unackedExist := true }
      some (bb, rv)

/-- The variables of `badblocks_clear`; `lo` can be one below zero. -/
structure ClearState where
  page : List (BitVec 64)
  lo : Int
  hi : Nat
  deriving Repr, DecidableEq

/-- Round the start up and the end down. -/
def roundIn (shift : Nat) (s : BitVec 64) (sectors : BitVec 32) : Option (BitVec 64 × BitVec 64) :=
  let target := s + sectors.signExtend 64
  if shift = 0 then some (s, target)
  else
    match shiftMask shift with
    | none => none
    | some mask => some ((s + mask) >>> shift, target >>> shift)

/-- Leave the tail of the last range; none without room to split. -/
def keepTail (s target : BitVec 64) (page : List (BitVec 64)) (lo hi : Nat) : Option ClearState :=
  let entry := entryAt page lo
  let a := bbOffset entry
  let finish := a + bbLen entry
  let ack := bbAck entry
  let tail := bbMake target (finish - target) ack
  if target < finish ∧ a < target then
    if a < s then
      -- we need to split this range
      if maxBadblocks ≤ page.length then none
      else some ⟨(page.set lo (bbMake a (s - a) ack)).insertIdx (lo + 1) tail, lo, lo + 1⟩
    else some ⟨page.set lo tail, (lo : Int) - 1, lo⟩
  else some ⟨page, lo, hi⟩

/-- Go down past the cleared ranges, from `lo = remaining - 1`. -/
def dropRanges (s target : BitVec 64) : Nat → List (BitVec 64) → List (BitVec 64) × Nat
  | 0, page => (page, 0)
  | remaining + 1, page =>
    let entry := entryAt page remaining
    let a := bbOffset entry
    if s < a + bbLen entry ∧ a < target then
      if a < s then
        -- keep the early parts of this range
        (page.set remaining (bbMake a (s - a) (bbAck entry)), remaining + 1)
      else dropRanges s target remaining page
    else (page, remaining + 1)

/-- What `badblocks_clear` does; none is `-ENOSPC`. -/
def clearBlocks (page : List (BitVec 64)) (s target : BitVec 64) : Option (List (BitVec 64)) :=
  let (lo, hi) := lastBefore (fun a => a < target) page
  if lo < hi then
    match keepTail s target page lo hi with
    | none => none
    | some state =>
      let (page, keep) := dropRanges s target (state.lo + 1).toNat state.page
      -- anything between needs to be discarded
      if keep < state.hi then some (page.take keep ++ page.drop state.hi)
      else some page
  else some page

/-- `badblocks_clear`; none for an undefined shift. -/
def badblocksClear (bb : Badblocks) (s : BitVec 64)
    (sectors : BitVec 32) : Option (Badblocks × Option Errno) :=
  match roundIn bb.shift.toNat s sectors with
  | none => none
  | some (s, target) =>
    match clearBlocks bb.page s target with
    | none => some (bb, some .enospc)
    | some page =>
      let bb := badblocksUpdateAcked { bb with page := page }
      some ({ bb with changed := true }, none)

end EchoKernel.Block
