import EchoKernel.NandIoPages

namespace EchoKernel.Nandx

/-!
# Indices into the array of operations

The indices that `read_pages`, `write_pages` and `operation_sequent` prepare
for one request of an idle descriptor. The entry checks count the pages of the
length, not those that the range touches, and bytes of data also for spare
bytes.
-/

section
variable (core : CoreInfo)

/-- A request outside the multi mode; `len` is a `size_t`. -/
inductive IoRequest where
  | read (data oob : Bool) (offset : BitVec 64) (len : BitVec 32)
  | write (data oob : Bool) (offset : BitVec 64) (len : BitVec 32)
  | erase (offset : BitVec 64) (len : BitVec 32)
  deriving Repr, DecidableEq

/-- The checks of the three calls. -/
def IoRequest.accepted : IoRequest → Bool
  | .read data oob _ len => transferAccepted core data oob len.toNat
  | .write data oob _ len => transferAccepted core data oob len.toNat
  | .erase offset len =>
    len.toNat != 0 && len.toNat ≤ core.totalSize && len.toNat / core.blockSize ≤ core.opsLen &&
      offset.toNat % core.blockSize == 0 && len.toNat % core.blockSize == 0

/-- The rounds of a loop with an `int` bound; none if negative. -/
def intRounds (bound : Nat) : Nat := if bound % 2 ^ 32 < 2 ^ 31 then bound % 2 ^ 32 else 0

/-- The indices of some `prepare_op`, each advancing `ops_current`. -/
def prepareIndices (opsCurrent count : Nat) : List Nat := (List.range count).map (opsCurrent + ·)

/-- The indices of `read_pages` and `write_pages` with data. -/
def pagesIndices (opsCurrent offset len : Nat) : List Nat :=
  let head := prepareIndices opsCurrent (if splitHead offset len core.pageSize = 0 then 0 else 1)
  let body :=
    prepareIndices (opsCurrent + head.length)
      (intRounds (splitBody offset len core.pageSize / core.pageSize))
  let tail :=
    prepareIndices (opsCurrent + head.length + body.length)
      (if splitTail offset len core.pageSize = 0 then 0 else 1)
  head ++ body ++ tail

/-- The indices of `operation_sequent` for a unit. -/
def sequentIndices (opsCurrent len unit : Nat) : List Nat :=
  prepareIndices opsCurrent (intRounds (len / unit))

/-- The indices that a call prepares; a write goes on from before. -/
def IoRequest.indices (nandx : NandxDesc) : IoRequest → List Nat
  | .read data _ offset len =>
    if data then pagesIndices core 0 offset.toNat len.toNat
    else sequentIndices 0 len.toNat core.oobUpperSize
  | .write data _ offset len =>
    if data then pagesIndices core nandx.ops.length offset.toNat len.toNat
    else sequentIndices nandx.ops.length len.toNat core.oobUpperSize
  | .erase _ len => sequentIndices 0 len.toNat core.blockSize

/-- The touched pages, or the spare areas, have room. -/
def IoRequest.HasRoom : IoRequest → Prop
  | .read data _ offset len =>
    if data then pageCount core offset.toNat len.toNat ≤ core.opsLen
    else intRounds (len.toNat / core.oobUpperSize) ≤ core.opsLen
  | .write data _ offset len =>
    if data then pageCount core offset.toNat len.toNat ≤ core.opsLen
    else intRounds (len.toNat / core.oobUpperSize) ≤ core.opsLen
  | .erase _ _ => True

end

variable {core : CoreInfo} {offset len : Nat}

/-- Prepared indices are below the limit when their number is. -/
theorem prepareIndices_lt_iff
    {count limit : Nat} :
    (∀ index ∈ prepareIndices 0 count, index < limit) ↔ count ≤ limit := by
  simp only [prepareIndices, List.mem_map, List.mem_range]
  constructor
  · intro below
    by_contra tooMany
    have last := below (0 + limit) ⟨limit, by omega, rfl⟩
    omega
  · omega

theorem prepareIndices_append
    (first second third : Nat) :
    prepareIndices first second ++ prepareIndices (first + second) third =
    prepareIndices first (second + third) := by
  simp [prepareIndices, List.range_add, Nat.add_assoc]

theorem length_prepareIndices
    (opsCurrent count : Nat) :
    (prepareIndices opsCurrent count).length = count := by
  simp [prepareIndices]

theorem intRounds_eq {bound : Nat} (small : bound < 2 ^ 31) : intRounds bound = bound := by
  unfold intRounds
  split <;> omega

theorem intRounds_le (bound : Nat) : intRounds bound ≤ bound := by
  unfold intRounds
  split <;> omega

theorem pagesIndices_eq
    (nonempty : 0 < len)
    (small : splitBody offset len core.pageSize / core.pageSize < 2 ^ 31) :
    pagesIndices core 0 offset len = prepareIndices 0 (pageCount core offset len) := by
  have count := @pageCount_eq core (blank len) offset none (by simpa [blank] using nonempty)
  simp only [blank, List.length_replicate, headOps, tailOps,
    apply_ite List.length, List.length_nil, List.length_singleton] at count
  simp only [pagesIndices, intRounds_eq small, length_prepareIndices, count]
  rw [prepareIndices_append, Nat.add_assoc, prepareIndices_append]

/-- The whole pages of an accepted request fit into an `int`. -/
theorem body_lt_of_accepted
    (isInt : core.opsLen < 2 ^ 31)
    (isSize : len < 2 ^ 32)
    (accepted : lengthAccepted core len = true) :
    splitBody offset len core.pageSize / core.pageSize < 2 ^ 31 := by
  have positive := core.pagePositive
  have total := (@splitParts core.pageSize offset len positive).total
  have bodyLe : splitBody offset len core.pageSize / core.pageSize ≤ len / core.pageSize :=
    Nat.div_le_div_right (by omega)
  simp only [lengthAccepted, Bool.and_eq_true, decide_eq_true_eq] at accepted
  by_cases one : core.pageSize = 1
  · rw [one] at accepted bodyLe ⊢
    omega
  · have half : len / core.pageSize ≤ len / 2 := Nat.div_le_div_left (by omega) (by omega)
    omega

/--
Every prepared index of an accepted request of an idle descriptor is inside
the array iff the array has room for what the request touches.
-/
theorem indices_lt_opsLen_iff
    {nandx : NandxDesc}
    {request : IoRequest}
    (isInt : core.opsLen < 2 ^ 31)
    (idle : nandx.mode = .idle ∧ nandx.ops = [])
    (accepted : request.accepted core = true) :
    (∀ index ∈ request.indices core nandx, index < core.opsLen) ↔ request.HasRoom core := by
  have transfer (data oob : Bool) (offset : BitVec 64) (len : BitVec 32)
      (isAccepted : transferAccepted core data oob len.toNat = true) : (∀ index ∈
      (if data then pagesIndices core 0 offset.toNat len.toNat
      else sequentIndices 0 len.toNat core.oobUpperSize), index < core.opsLen) ↔
      if data then pageCount core offset.toNat len.toNat ≤ core.opsLen
      else intRounds (len.toNat / core.oobUpperSize) ≤ core.opsLen := by
    simp only [transferAccepted, Bool.and_eq_true] at isAccepted
    have lengthOk := isAccepted.1.1
    have nonempty : 0 < len.toNat := by
      simp only [lengthAccepted, Bool.and_eq_true, bne_iff_ne] at lengthOk
      exact Nat.pos_of_ne_zero lengthOk.1.1
    cases data with
    | false => exact prepareIndices_lt_iff
    | true =>
      rw [pagesIndices_eq nonempty (body_lt_of_accepted isInt len.isLt lengthOk)]
      exact prepareIndices_lt_iff
  cases request with
  | read data oob offset len => exact transfer data oob offset len accepted
  | write data oob offset len =>
    simp only [IoRequest.indices, idle.2]
    exact transfer data oob offset len accepted
  | erase offset len =>
    simp only [IoRequest.accepted, Bool.and_eq_true, decide_eq_true_eq] at accepted
    refine ⟨fun _ => trivial, fun _ => ?_⟩
    refine prepareIndices_lt_iff.mpr ?_
    exact Nat.le_trans (intRounds_le _) accepted.1.1.2

/-- A block of 64 pages of 2048 bytes with 64 spare bytes. -/
def blockCore : CoreInfo :=
  ⟨2048, 64, 131072, 134217728, 64, 1, by decide, by decide, by decide, by decide⟩

/-- A read of one page in the middle of another. -/
theorem indices_lt_opsLen_one_page :
    (IoRequest.read true false 1 2048).accepted blockCore = true ∧
    ∀ index ∈ (IoRequest.read true false 1 2048).indices blockCore (nandxInit blockCore), index <
    64 :=
  ⟨by decide, (indices_lt_opsLen_iff (by decide) ⟨rfl, rfl⟩ (by decide)).mpr
    (show pageCount blockCore 1 2048 ≤ 64 by decide)⟩

/--
A read of 64 pages from the second byte on prepares 65 operations, one of 65
spare areas prepares 65.
-/
theorem indices_behind_array :
    (IoRequest.read true false 1 131072).accepted blockCore = true ∧
    64 ∈ (IoRequest.read true false 1 131072).indices blockCore (nandxInit blockCore) ∧
    (IoRequest.read false true 0 4160).accepted blockCore = true ∧
    64 ∈ (IoRequest.read false true 0 4160).indices blockCore (nandxInit blockCore) := by
  decide +kernel

end EchoKernel.Nandx
