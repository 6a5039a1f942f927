import EchoKernel.VerityFecParity

namespace EchoKernel.VerityFec

/-!
# The blocks of a Reed-Solomon block

`verity_fec_decode`, `fec_read_bufs` and `fec_decode_rsb` of `dm-verity-fec.c`:
which blocks are read to correct a block, and which bytes the decoder gets and
returns. Devices end below the end of the addresses, and nothing fails. The
decoder is any function that returns an uncorrupted codeword.
-/

/-- `enum verity_block_type`. -/
inductive BlockType where
  | data
  | metadata
  deriving DecidableEq

/-- The layout that `verity_fec_ctr` accepts. -/
structure Layout extends Fec where
  dataBlocks : ℕ
  hashStart : ℕ
  hashBlocks : ℕ
  blocks : ℕ
  isBlocks : dataBlocks + (hashBlocks - hashStart) ≤ blocks ∧ blocks ≠ 0
  isAddressed : (blocks / (255 - roots) + 1) * 2 ^ dataDevBlockBits * roots ≤ 2 ^ 64

/-- The bytes of the blocks, and which have a zero block's digest. -/
structure Device where
  bytes : BlockType → ℕ → ℕ → BitVec 8
  isZero : ℕ → Bool
  zeros : ∀ block k, isZero block = true → bytes .data block k = 0

namespace Layout

variable (v : Layout)

/-- The data symbols of a codeword. -/
def rsn : ℕ := 255 - v.roots

/-- The blocks between two symbols of a codeword. -/
def rounds : ℕ := v.blocks / v.rsn + if v.blocks % v.rsn = 0 then 0 else 1

/-- `fec_interleave`. -/
def fecInterleave (offset : ℕ) : ℕ := offset / v.rsn + offset % v.rsn * (v.rounds * v.blockSize)

/-- The block that is read for a position. -/
def source (ileaved : ℕ) : Option (BlockType × ℕ) :=
  let block := ileaved / v.blockSize
  if block < v.dataBlocks then some (.data, block)
  else if block - v.dataBlocks < v.blocks - v.dataBlocks then
    some (.metadata, block - v.dataBlocks + v.hashStart)
  -- blocks outside the area were assumed to contain zeros
  else none

/-- The index that `fec_read_bufs` returns: the target's last one. -/
def targetIndex (rsb target : ℕ) : Option ℕ :=
  (List.range v.rsn).reverse.find? fun i => v.fecInterleave (rsb * v.rsn + i) = target

/-- What `fec_read_bufs` stores for block `rs_block[i]` in the RS block `j`. -/
def rsBlock (dev : Device) (rsb blockOffset j i : ℕ) : BitVec 8 :=
  let k := j + blockOffset
  match v.source (v.fecInterleave (rsb * v.rsn + i)) with
  | none => 0
  | some (type, block) =>
    -- known zero blocks are skipped
    if type = .data ∧ dev.isZero block then 0
    else if v.blockSize ≤ k then 0 else dev.bytes type block k

/-- A block's position, as `verity_fec_decode` computes it. -/
def offset : BlockType → ℕ → ℕ
  | .data, block => block * v.blockSize
  | .metadata, block => (block + v.dataBlocks) * v.blockSize

/-- The base RS block for a block. -/
def rsb (type : BlockType) (block : ℕ) : ℕ :=
  v.offset type block - v.offset type block / (v.rounds * v.blockSize) * (v.rounds * v.blockSize)

/-- Data blocks and blocks of the hash tree. -/
def Requested : BlockType → ℕ → Prop
  | .data, block => block < v.dataBlocks
  | .metadata, block => v.hashStart ≤ block ∧ block < v.hashBlocks

/-- A byte of the area that the parity was computed for. -/
def areaByte (dev : Device) (position : ℕ) : BitVec 8 :=
  match v.source position with
  | none => 0
  | some (type, block) => dev.bytes type block (position % v.blockSize)

/-- The data symbols of an RS block. -/
def codeword (dev : Device) (rsBlock : ℕ) : List (BitVec 8) :=
  (List.range v.rsn).map fun i => v.areaByte dev (rsBlock + i * (v.rounds * v.blockSize))

end Layout

/-- An encoder, and a decoder that returns an uncorrupted codeword. -/
structure Code (roots : ℕ) where
  encode : List (BitVec 8) → List (BitVec 8)
  decode : List (BitVec 8) → List (BitVec 8) → Option (List (BitVec 8))
  isParity : ∀ data, (encode data).length = roots
  isDecoder : ∀ data, decode data (encode data) = some data

namespace Layout

section
variable (v : Layout) (code : Code v.roots) (dev : Device)
  -- the memory behind the buffer of a parity block
  (behind : Parity → ℕ → BitVec 8)

/-- A byte of the parity area, which is not corrupted. -/
def parityByte (position : ℕ) : BitVec 8 :=
  (code.encode (v.codeword dev (position / v.roots))).getD (position % v.roots) 0

/-- The parity bytes that `fec_decode_rs8` copies. -/
def parityRead (par : Parity) : List (BitVec 8) :=
  (List.range v.roots).map fun i =>
    if par.offset + i < v.blockSize then
      v.parityByte code dev (par.block * v.blockSize + par.offset + i)
    else behind par i

/-- `fec_decode_bufs`: the bytes of the output from `blockOffset` on. -/
def decodeBufs (rsb index count blockOffset : ℕ) : Option (List (BitVec 8)) :=
  (Fec.fecDecodeBufs v.toFec rsb count blockOffset).mapM fun call =>
    (code.decode
      ((List.range v.rsn).map (v.rsBlock dev rsb blockOffset (call.blockOffset - blockOffset)))
      (v.parityRead code dev behind call.parity)).map fun data => data.getD index 0

/-- The loop of `fec_decode_rsb`, with one buffer of 16 RS blocks and `extra` ones. -/
def fecDecodeRsb (rsb index extra pos : ℕ) : Option (List (BitVec 8)) :=
  if pos < v.blockSize then do
    let part ← v.decodeBufs code dev behind rsb index (16 * (extra + 1)) pos
    let rest ← fecDecodeRsb rsb index extra (pos + 16 * (extra + 1))
    return part ++ rest
  else some []
termination_by v.blockSize - pos

/-- `verity_fec_decode`: the bytes of `fio->output`. -/
def verityFecDecode (extra : ℕ) (type : BlockType) (block : ℕ) : Option (List (BitVec 8)) :=
  (v.targetIndex (v.rsb type block) (v.offset type block)).bind fun index =>
    v.fecDecodeRsb code dev behind (v.rsb type block) index extra 0

end

variable (v : Layout)

/-- The right symbols are decoded for a block. -/
structure Decodes (type : BlockType) (block index : ℕ) : Prop where
  isIndex : v.targetIndex (v.rsb type block) (v.offset type block) = some index
  isSource : v.source (v.fecInterleave (v.rsb type block * v.rsn + index)) = some (type, block)
  distinct : ∀ i < v.rsn, ∀ j < v.rsn, v.fecInterleave (v.rsb type block * v.rsn + i) =
    v.fecInterleave (v.rsb type block * v.rsn + j) → i = j
  isByte : ∀ dev blockOffset j, j + blockOffset < v.blockSize →
    v.rsBlock dev (v.rsb type block) blockOffset j index = dev.bytes type block (j + blockOffset)

variable {v} {rsb i target index block : ℕ} {type : BlockType}

/-- A codeword has data symbols. -/
theorem rsn_pos : 0 < v.rsn := by
  have := v.isRoots
  rw [rsn]
  omega

/-- The codewords cover all blocks. -/
theorem blocks_le : v.blocks ≤ v.rounds * v.rsn := by
  have split := Nat.div_add_mod' v.blocks v.rsn
  have below := Nat.mod_lt v.blocks (rsn_pos (v := v))
  rw [rounds, Nat.add_mul]
  split <;> omega

/-- Symbols of a codeword are apart. -/
theorem round_pos : 0 < v.rounds * v.blockSize := by
  have covers := blocks_le (v := v)
  refine Nat.mul_pos (Nat.pos_of_ne_zero fun isZero => v.isBlocks.2 ?_) Fec.blockSize_pos
  rw [isZero, Nat.zero_mul] at covers
  omega

/-- The symbols of an RS block are a round apart. -/
theorem fecInterleave_eq
    (inside : i < v.rsn) :
    v.fecInterleave (rsb * v.rsn + i) = rsb + i * (v.rounds * v.blockSize) := by
  rw [fecInterleave, Nat.mul_comm rsb, Nat.mul_add_div rsn_pos, Nat.div_eq_of_lt inside,
    Nat.mul_add_mod, Nat.mod_eq_of_lt inside, Nat.add_zero]

/-- The symbols of an RS block have different positions. -/
theorem fecInterleave_inj
    {j : ℕ}
    (insideI : i < v.rsn)
    (insideJ : j < v.rsn)
    (same : v.fecInterleave (rsb * v.rsn + i) = v.fecInterleave (rsb * v.rsn + j)) :
    i = j := by
  rw [fecInterleave_eq insideI, fecInterleave_eq insideJ] at same
  exact Nat.eq_of_mul_eq_mul_right round_pos (Nat.add_left_cancel same)

/-- The index is that of the target. -/
theorem fecInterleave_of_targetIndex
    (found : v.targetIndex rsb target = some index) :
    v.fecInterleave (rsb * v.rsn + index) = target := by
  simpa using List.find?_some found

/-- The only symbol at the target gives the index. -/
theorem targetIndex_eq
    (inside : index < v.rsn)
    (isTarget : v.fecInterleave (rsb * v.rsn + index) = target) :
    v.targetIndex rsb target = some index := by
  have isFound : (v.targetIndex rsb target).isSome :=
    List.find?_isSome.mpr ⟨index, by simpa using inside, decide_eq_true isTarget⟩
  obtain ⟨i, found⟩ := Option.isSome_iff_exists.mp isFound
  have member : i < v.rsn := by simpa using List.mem_of_find?_eq_some found
  have same := (fecInterleave_of_targetIndex found).trans isTarget.symm
  rw [← fecInterleave_inj member inside same]
  exact found

/-- The block at the position of a hash block. -/
theorem source_offset :
    v.source (v.offset .metadata block) =
    if block < v.blocks - v.dataBlocks then some (.metadata, block + v.hashStart) else none := by
  have notData : ¬ block + v.dataBlocks < v.dataBlocks := by omega
  simp only [source, offset, Nat.mul_div_cancel _ Fec.blockSize_pos, if_neg notData,
    Nat.add_sub_cancel]

/-- A block that is the source at its position is decoded. -/
theorem exists_decodes
    (covered : v.offset type block < v.blocks * v.blockSize)
    (isSource : v.source (v.offset type block) = some (type, block)) :
    ∃ index, v.Decodes type block index := by
  have inside : v.offset type block / (v.rounds * v.blockSize) < v.rsn := by
    rw [Nat.div_lt_iff_lt_mul round_pos, Nat.mul_comm v.rsn, Nat.mul_right_comm]
    exact Nat.lt_of_lt_of_le covered (Nat.mul_le_mul_right _ blocks_le)
  have isPlace : v.fecInterleave (v.rsb type block * v.rsn +
      v.offset type block / (v.rounds * v.blockSize)) = v.offset type block := by
    rw [fecInterleave_eq inside, rsb]
    exact Nat.sub_add_cancel (Nat.div_mul_le_self ..)
  refine ⟨_, targetIndex_eq inside isPlace, by rw [isPlace, isSource], ?_, ?_⟩
  · exact fun i below j => fecInterleave_inj below
  intro dev blockOffset j inBlock
  simp only [rsBlock, isPlace, isSource, if_neg (Nat.not_le.mpr inBlock)]
  split
  case isTrue zero => rw [zero.1, dev.zeros _ _ zero.2]
  case isFalse => rfl

section
variable {code : Code v.roots} {dev : Device} {behind : Parity → ℕ → BitVec 8} {k extra pos : ℕ}

/-- The base RS block begins at a block. -/
theorem dvd_rsb (type : BlockType) (block : ℕ) : v.blockSize ∣ v.rsb type block := by
  refine Nat.dvd_sub ?_ (Nat.dvd_mul_left_of_dvd (Nat.dvd_mul_left ..) _)
  cases type <;> exact Nat.dvd_mul_left ..

/-- Bytes of one block have one source. -/
theorem areaByte_add
    {position : ℕ}
    (starts : v.blockSize ∣ position)
    (inBlock : k < v.blockSize) :
    v.areaByte dev (position + k) =
      match v.source position with
      | none => 0
      | some (type, block) => dev.bytes type block k := by
  obtain ⟨number, rfl⟩ := starts
  have isBlock : (v.blockSize * number + k) / v.blockSize = v.blockSize * number / v.blockSize := by
    rw [Nat.mul_add_div Fec.blockSize_pos, Nat.div_eq_of_lt inBlock,
      Nat.mul_div_cancel_left _ Fec.blockSize_pos, Nat.add_zero]
  rw [areaByte, Nat.mul_add_mod, Nat.mod_eq_of_lt inBlock, source, isBlock]
  rfl

/-- `fec_read_bufs` stores the symbols of the RS blocks. -/
theorem rsBlock_eq
    (starts : v.blockSize ∣ rsb)
    (inside : i < v.rsn)
    {blockOffset j : ℕ}
    (inBlock : j + blockOffset < v.blockSize) :
    v.rsBlock dev rsb blockOffset j i =
      v.areaByte dev (rsb + (j + blockOffset) + i * (v.rounds * v.blockSize)) := by
  have atBlock : v.blockSize ∣ rsb + i * (v.rounds * v.blockSize) :=
    Nat.dvd_add starts (Nat.dvd_mul_left_of_dvd (Nat.dvd_mul_left ..) _)
  rw [Nat.add_right_comm, areaByte_add atBlock inBlock, rsBlock, fecInterleave_eq inside]
  cases v.source (rsb + i * (v.rounds * v.blockSize)) with
  | none => rfl
  | some found =>
    dsimp only
    split
    case isTrue zero => rw [zero.1, dev.zeros _ _ zero.2]
    case isFalse => rw [if_neg (Nat.not_le.mpr inBlock)]

/-- Parity inside the buffer is that of its RS block. -/
theorem parityRead_eq
    {par : Parity}
    (placed : Fec.Placed v.toFec rsb k par)
    (inside : par.offset + v.roots ≤ v.blockSize) :
    v.parityRead code dev behind par = code.encode (v.codeword dev (rsb + k)) := by
  have roots : 0 < v.roots := by
    have isRoots := v.isRoots
    omega
  refine List.ext_getElem (by simp [parityRead, code.isParity]) fun i below isByte => ?_
  have isRoot : i < v.roots := by simpa [parityRead] using below
  have place : par.block * v.blockSize + par.offset = (rsb + k) * v.roots := placed.place
  simp only [parityRead, List.getElem_map, List.getElem_range]
  rw [if_pos (by omega), place, parityByte, Nat.mul_comm, Nat.mul_add_div roots,
    Nat.div_eq_of_lt isRoot, Nat.add_zero, Nat.mul_add_mod, Nat.mod_eq_of_lt isRoot,
    List.getD_eq_getElem?_getD, List.getElem?_eq_getElem isByte, Option.getD_some]

/-- The parity area of a base RS block is below the end of the addresses. -/
theorem inArea
    (type : BlockType)
    (block : ℕ) :
    (v.rsb type block + v.blockSize) * v.roots ≤ 2 ^ 64 := by
  have isRounds : v.rounds ≤ v.blocks / (255 - v.roots) + 1 := by
    unfold rounds rsn
    split <;> omega
  have below : v.rsb type block < v.rounds * v.blockSize := by
    rw [rsb, ← Nat.mod_eq_sub_div_mul]
    exact Nat.mod_lt _ round_pos
  obtain ⟨number, isNumber⟩ := v.dvd_rsb type block
  have whole : v.rsb type block + v.blockSize ≤ v.rounds * v.blockSize := by
    rw [isNumber, Nat.mul_comm, ← Nat.succ_mul]
    rw [isNumber, Nat.mul_comm] at below
    exact Nat.mul_le_mul_right _ (Nat.lt_of_mul_lt_mul_right below)
  refine Nat.le_trans (Nat.mul_le_mul_right _ (Nat.le_trans whole ?_)) v.isAddressed
  exact Nat.mul_le_mul_right _ isRounds

/-- A list of computations that all succeed. -/
theorem mapM_eq_some
    {α β : Type*}
    {list : List α}
    {f : α → Option β}
    {g : α → β}
    (all : ∀ x ∈ list, f x = some (g x)) :
    list.mapM f = some (list.map g) := by
  induction list with
  | nil => rfl
  | cons x list inductionHypothesis =>
    rw [List.mapM_cons, all x List.mem_cons_self,
      inductionHypothesis fun y member => all y (List.mem_cons_of_mem _ member)]
    rfl

/-- A list of computations of which one fails. -/
theorem mapM_eq_none
    {α β : Type*}
    {list : List α}
    {f : α → Option β}
    {x : α}
    (member : x ∈ list)
    (fails : f x = none) :
    list.mapM f = none := by
  induction list with
  | nil => cases member
  | cons y list inductionHypothesis =>
    rw [List.mapM_cons]
    rcases List.mem_cons.mp member with rfl | later
    · rw [fails]
      rfl
    · rw [inductionHypothesis later]
      cases f y <;> rfl

section
variable (divides : v.roots ∣ v.blockSize) (isIndex : index < v.rsn)
include divides isIndex

/-- The buffers from a position on are decoded to the symbols at the index. -/
theorem decodeBufs_eq
    {count : ℕ}
    (inBlock : pos < v.blockSize) :
    v.decodeBufs code dev behind (v.rsb type block) index count pos =
      some ((List.range' pos (min count (v.blockSize - pos))).map fun k =>
        v.areaByte dev (v.rsb type block + k + index * (v.rounds * v.blockSize))) := by
  have first := Fec.placed_fecReadParity (v.inArea type block) inBlock
  have offsets := Fec.map_blockOffset_decodeLoop (v.rsb type block) count
    (Fec.fecReadParity v.toFec (v.rsb type block) pos) inBlock
  rw [← offsets, List.map_map]
  refine mapM_eq_some fun call member => ?_
  have placed := Fec.placed_of_mem_decodeLoop (v.inArea type block) first member
  have isOffset : call.blockOffset ∈ List.range' pos (min count (v.blockSize - pos)) :=
    offsets ▸ List.mem_map_of_mem member
  have bounds := List.mem_range'_1.mp isOffset
  have isData : (List.range v.rsn).map
      (v.rsBlock dev (v.rsb type block) pos (call.blockOffset - pos)) =
      v.codeword dev (v.rsb type block + call.blockOffset) := by
    refine List.map_congr_left fun i isSymbol => ?_
    rw [rsBlock_eq (v.dvd_rsb type block) (List.mem_range.mp isSymbol) (by omega),
      Nat.sub_add_cancel bounds.1]
  rw [isData, parityRead_eq placed (placed.inside divides), code.isDecoder]
  simp [codeword, isIndex]

/-- All bytes of the output are symbols at the index. -/
theorem fecDecodeRsb_eq
    (inBlock : pos ≤ v.blockSize) :
    v.fecDecodeRsb code dev behind (v.rsb type block) index extra pos =
      some ((List.range' pos (v.blockSize - pos)).map fun k =>
        v.areaByte dev (v.rsb type block + k + index * (v.rounds * v.blockSize))) := by
  generalize isLeft : v.blockSize - pos = left
  induction left using Nat.strongRecOn generalizing pos with
  | ind left inductionHypothesis =>
    rw [fecDecodeRsb]
    split
    case isFalse ends =>
      have isZero : left = 0 := by omega
      rw [isZero]
      rfl
    case isTrue more =>
      rw [decodeBufs_eq divides isIndex more]
      by_cases isLast : left ≤ 16 * (extra + 1)
      · rw [fecDecodeRsb, if_neg (by omega), isLeft, Nat.min_eq_right isLast]
        simp
      · rw [@inductionHypothesis (left - 16 * (extra + 1)) (by omega) _ (by omega) (by omega),
          isLeft, Nat.min_eq_left (by omega)]
        have joined := @List.range'_append_1 pos (16 * (extra + 1)) (left - 16 * (extra + 1))
        rw [Nat.add_sub_cancel' (by omega)] at joined
        rw [← joined, List.map_append]
        rfl

end

/-- A code whose decoder refuses everything but codewords. -/
def strictCode (roots : ℕ) : Code roots where
  encode _ := List.replicate roots 0
  decode data parity := if parity = List.replicate roots 0 then some data else none
  isParity _ := List.length_replicate
  isDecoder _ := if_pos rfl

/-- If the roots do not divide the block size, a decoder gets a wrong byte. -/
theorem fecDecodeRsb_eq_none
    (notDivides : ¬ v.roots ∣ v.blockSize) :
    v.fecDecodeRsb (strictCode v.roots) dev (fun _ _ => 1) (v.rsb type block) index v.blockSize 0 =
      none := by
  have roots := v.isRoots
  have positive := Fec.blockSize_pos (v := v.toFec)
  have early : v.blockSize / v.roots < v.blockSize := Nat.div_lt_self positive v.isRoots.1
  have offsets := Fec.map_blockOffset_decodeLoop (v.rsb type block) (16 * (v.blockSize + 1))
    (Fec.fecReadParity v.toFec (v.rsb type block) 0) positive
  have isOffset : v.blockSize / v.roots ∈
      (Fec.decodeLoop v.toFec (v.rsb type block) (16 * (v.blockSize + 1)) 0
        (Fec.fecReadParity v.toFec (v.rsb type block) 0)).map (·.blockOffset) := by
    rw [offsets, List.mem_range'_1, Nat.min_eq_right (by omega)]
    exact ⟨Nat.zero_le _, by rwa [Nat.zero_add, Nat.sub_zero]⟩
  obtain ⟨call, member, isCall⟩ := List.mem_map.mp isOffset
  have placed := Fec.placed_of_mem_decodeLoop (v.inArea type block)
    (Fec.placed_fecReadParity (v.inArea type block) positive) member
  -- the RS block whose parity begins at the end of its buffer
  have straddles : ¬ call.parity.offset + v.roots ≤ v.blockSize := by
    rw [placed.inside_iff, isCall]
    obtain ⟨number, isNumber⟩ := v.dvd_rsb type block
    have below : v.blockSize / v.roots * v.roots < v.blockSize := by
      refine Nat.lt_of_le_of_ne (Nat.div_mul_le_self ..) fun same => notDivides ?_
      rw [← same]
      exact Nat.dvd_mul_left ..
    have next := Nat.lt_div_mul_add (a := v.blockSize) (b := v.roots) (by omega)
    rw [isNumber, Nat.add_mul, Nat.mul_assoc, Nat.mul_add_mod, Nat.mod_eq_of_lt below]
    omega
  have wrong : v.parityRead (strictCode v.roots) dev (fun _ _ => 1) call.parity ≠
      List.replicate v.roots 0 := by
    intro same
    have atLast := congrArg (fun list => list.getD (v.roots - 1) 0) same
    have isRoot : v.roots - 1 < v.roots := by omega
    simp [parityRead, isRoot, show ¬ call.parity.offset + (v.roots - 1) < v.blockSize by omega]
      at atLast
  rw [fecDecodeRsb, if_pos positive, decodeBufs, Fec.fecDecodeBufs, mapM_eq_none member]
  · rfl
  · exact congrArg (Option.map _) (if_neg wrong)

end

/-- Data blocks and hash blocks are in the area of the codewords. -/
theorem Requested.covered
    (requested : v.Requested type block)
    (starts : type = .data ∨ v.hashStart = 0) :
    v.offset type block < v.blocks * v.blockSize := by
  have fits := v.isBlocks.1
  cases type with
  | data =>
    have inData : block < v.dataBlocks := requested
    exact Nat.mul_lt_mul_of_pos_right (by omega) Fec.blockSize_pos
  | metadata =>
    obtain ⟨above, below⟩ := requested
    have isStart := starts.resolve_left nofun
    exact Nat.mul_lt_mul_of_pos_right (by omega) Fec.blockSize_pos

/--
A block has a right target index and distinct symbols, and every decoder turns
its uncorrupted codewords into the block, iff the roots divide the block size
and it is a data block or the hash tree begins at block zero.
-/
theorem verityFecDecode_iff
    {v : Layout}
    {type : BlockType}
    {block : ℕ}
    (requested : v.Requested type block) :
    ((∃ index, v.Decodes type block index) ∧
      ∀ code dev behind extra, v.verityFecDecode code dev behind extra type block =
        some ((List.range v.blockSize).map (dev.bytes type block))) ↔
      v.roots ∣ v.blockSize ∧ (type = .data ∨ v.hashStart = 0) := by
  have isSource (starts : type = .data ∨ v.hashStart = 0) :
      v.source (v.offset type block) = some (type, block) := by
    cases type with
    | data =>
      have inData : block < v.dataBlocks := requested
      simp only [source, offset, Nat.mul_div_cancel _ Fec.blockSize_pos, if_pos inData]
    | metadata =>
      have fits := v.isBlocks.1
      have isStart := starts.resolve_left nofun
      obtain ⟨above, below⟩ := requested
      rw [source_offset, if_pos (by omega), isStart, Nat.add_zero]
  constructor
  · rintro ⟨⟨index, decodes⟩, outputs⟩
    have starts : type = .data ∨ v.hashStart = 0 := by
      cases type with
      | data => exact .inl rfl
      | metadata =>
        have same := decodes.isSource
        rw [fecInterleave_of_targetIndex decodes.isIndex, source_offset] at same
        split at same
        · rw [Option.some.injEq, Prod.mk.injEq] at same
          omega
        · cases same
    refine ⟨Decidable.byContradiction fun notDivides => ?_, starts⟩
    have output := outputs (strictCode v.roots) ⟨fun _ _ _ => 0, fun _ => false, nofun⟩
      (fun _ _ => 1) v.blockSize
    rw [verityFecDecode, decodes.isIndex, Option.bind_some,
      fecDecodeRsb_eq_none notDivides] at output
    cases output
  · rintro ⟨divides, starts⟩
    have covered := requested.covered starts
    obtain ⟨index, decodes⟩ := exists_decodes covered (isSource starts)
    refine ⟨⟨index, decodes⟩, fun code dev behind extra => ?_⟩
    have isIndex : index < v.rsn := by
      simpa using List.mem_of_find?_eq_some decodes.isIndex
    have isPlace := fecInterleave_of_targetIndex decodes.isIndex
    rw [fecInterleave_eq isIndex] at isPlace
    rw [verityFecDecode, decodes.isIndex, Option.bind_some,
      fecDecodeRsb_eq divides isIndex (Nat.zero_le _), Nat.sub_zero, ← List.range_eq_range']
    refine congrArg some (List.map_congr_left fun k below => ?_)
    have atBlock : v.blockSize ∣ v.offset type block := by
      cases type <;> exact Nat.dvd_mul_left ..
    rw [Nat.add_right_comm, isPlace, areaByte_add atBlock (List.mem_range.mp below),
      isSource starts]

/-- Sixteen roots, two data blocks and two blocks of a hash tree at block zero. -/
def treeAtZero : Layout :=
  { Fec.pageFec with
    roots := 16
    isRoots := by decide
    dataBlocks := 2
    hashStart := 0
    hashBlocks := 2
    blocks := 4
    isBlocks := by decide
    isAddressed := by decide }

/-- The second block of the hash tree is decoded. -/
theorem verityFecDecode_iff_treeAtZero :
    (∃ index, treeAtZero.Decodes .metadata 1 index) ∧
      ∀ code dev behind extra, treeAtZero.verityFecDecode code dev behind extra .metadata 1 =
        some ((List.range treeAtZero.blockSize).map (dev.bytes .metadata 1)) :=
  (@verityFecDecode_iff treeAtZero .metadata 1 ⟨by decide, by decide⟩).mpr ⟨by decide, .inr rfl⟩

/-- Two data blocks, and a one-block hash tree behind a superblock. -/
def behindSuperblock : Layout :=
  { Fec.pageFec with
    dataBlocks := 2
    hashStart := 1
    hashBlocks := 2
    blocks := 4
    isBlocks := by decide
    isAddressed := by decide }

/-- The target index is that of another block of the hash tree. -/
theorem source_behindSuperblock :
    behindSuperblock.Requested .metadata 1 ∧
    behindSuperblock.targetIndex (behindSuperblock.rsb .metadata 1)
      (behindSuperblock.offset .metadata 1) = some 3 ∧
    behindSuperblock.source (behindSuperblock.fecInterleave
      (behindSuperblock.rsb .metadata 1 * behindSuperblock.rsn + 3)) = some (.metadata, 2) :=
  ⟨⟨by decide, by decide⟩, by decide +kernel, by decide +kernel⟩

end Layout

end EchoKernel.VerityFec
