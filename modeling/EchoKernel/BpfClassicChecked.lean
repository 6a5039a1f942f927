import EchoKernel.BpfClassic

namespace EchoKernel.Bpf

open Simulation Function BitVec List

/-!
# What an accepted classic program guarantees

`bpf_check_classic` accepts only known opcodes with operands in range, so an
accepted program stays inside its instructions and ends.
`check_load_and_stores` is a forward data-flow analysis: an instruction gets
the scratch words that are written on every path to it, and only such a word
may be loaded.
-/

theorem classicOp_code
    {op : ClassicOp}
    (member : op ∈ ClassicOp.all) :
    classicOp op.code = some op := by
  have selected : ∀ entry ∈ ClassicOp.all, classicOp entry.code = some entry := by decide +kernel
  exact selected op member

theorem classicOp_of_chkCodeAllowed
    {code : BitVec 16}
    (allowed : chkCodeAllowed code = true) :
    ∃ op ∈ ClassicOp.codes, classicOp code = some op := by
  obtain ⟨op, member, same⟩ := List.any_eq_true.mp allowed
  have sameCode : op.code = code := by simpa using same
  refine ⟨op, member, ?_⟩
  rw [← sameCode]
  exact classicOp_code (mem_cons_of_mem _ member)

/-- The loop checks every instruction. -/
theorem checkInsns_getElem?
    {flen start j : Nat}
    {filter : List SockFilter}
    {fp : SockFilter}
    (accepted : checkInsns flen start filter = true)
    (found : filter[j]? = some fp) :
    chkCodeAllowed fp.code = true ∧ checkInsn flen (start + j) fp = true := by
  induction filter generalizing start j with
  | nil => simp at found
  | cons head rest inductionHypothesis =>
    simp only [checkInsns, Bool.and_eq_true] at accepted
    obtain ⟨⟨allowed, checked⟩, later⟩ := accepted
    cases j with
    | zero =>
      simp only [List.getElem?_cons_zero, Option.some.injEq] at found
      subst found
      exact ⟨allowed, checked⟩
    | succ j =>
      have tail := inductionHypothesis later found
      rwa [Nat.add_assoc, Nat.add_comm 1 j] at tail

/-- `outer` has every bit that `inner` has. -/
def Covers (outer inner : BitVec 16) : Prop :=
  ∀ word, inner.getLsbD word = true → outer.getLsbD word = true

namespace Covers

theorem refl (mask : BitVec 16) : Covers mask mask := fun _ set => set

theorem trans
    {first second third : BitVec 16}
    (outer : Covers first second)
    (inner : Covers second third) :
    Covers first third :=
  fun word set => outer word (inner word set)

theorem and_left (first second : BitVec 16) : Covers first (first &&& second) := by
  intro word set
  simp only [getLsbD_and, Bool.and_eq_true] at set
  exact set.1

theorem and_right (first second : BitVec 16) : Covers second (first &&& second) := by
  intro word set
  simp only [getLsbD_and, Bool.and_eq_true] at set
  exact set.2

end Covers

/-- Restricting one mask only removes bits. -/
theorem covers_restrictMask
    (masks : Nat → BitVec 16)
    (target : Nat)
    (memvalid : BitVec 16)
    (query : Nat) :
    Covers (masks query) (restrictMask masks target memvalid query) := by
  unfold restrictMask
  by_cases same : query = target
  · subst same
    rw [update_self]
    exact Covers.and_left _ _
  · rw [update_of_ne same]
    exact Covers.refl _

theorem restrictMask_self_covered
    (masks : Nat → BitVec 16)
    (target : Nat)
    (memvalid : BitVec 16) :
    Covers memvalid (restrictMask masks target memvalid target) := by
  rw [restrictMask, update_self]
  exact Covers.and_right _ _

/-- Instructions that may run after instruction `pc`. -/
def successors (pc : Nat) (fp : SockFilter) : ClassicOp → List Nat
  | .ja => [pc + 1 + fp.k.toNat]
  | .jmp _ _ => [pc + 1 + fp.jt.toNat, pc + 1 + fp.jf.toNat]
  | .retK => []
  | .retA => []
  | _ => [pc + 1]

/-- The words known to be written after it. -/
def scratchAfter (op : ClassicOp) (k : Nat) (valid : BitVec 16) : BitVec 16 :=
  match op with
  | .st => valid ||| 1 <<< k
  | .stx => valid ||| 1 <<< k
  | _ => valid

/-- What the analysis says about the instruction at `pc`. -/
structure ScratchFlow (valid : Nat → BitVec 16) (pc : Nat) (fp : SockFilter)
    (op : ClassicOp) : Prop where
  flows : ∀ next ∈ successors pc fp op, Covers (scratchAfter op fp.k.toNat (valid pc)) (valid next)
  loads : op = .ldMem ∨ op = .ldxMem → valid pc &&& 1 <<< fp.k.toNat ≠ 0

/-- The facts at `pc` read `valid` at `pc` and after it only. -/
theorem ScratchFlow.congr
    {first second : Nat → BitVec 16}
    {pc : Nat}
    {fp : SockFilter}
    {op : ClassicOp}
    (flow : ScratchFlow first pc fp op)
    (agree : ∀ query, pc ≤ query → second query = first query) :
    ScratchFlow second pc fp op := by
  have forward : ∀ next ∈ successors pc fp op, pc ≤ next := by
    intro next member
    cases op <;> simp [successors] at member <;> omega
  constructor
  · intro next member
    rw [agree pc (Nat.le_refl pc), agree next (forward next member)]
    exact flow.flows next member
  · intro isLoad
    rw [agree pc (Nat.le_refl pc)]
    exact flow.loads isLoad

/-- The analysis of the instructions `rest`, which begin at `pc`. -/
structure ScratchAnalysis (masks : Nat → BitVec 16) (memvalid : BitVec 16) (pc : Nat)
    (rest : List SockFilter) (valid : Nat → BitVec 16) : Prop where
  start : Covers memvalid (valid pc)
  masked : ∀ query, pc ≤ query → Covers (masks query) (valid query)
  flow : ∀ j fp op, rest[j]? = some fp → classicOp fp.code = some op →
      ScratchFlow valid (pc + j) fp op

/-- Extend the analysis by the instruction before. -/
private theorem ScratchAnalysis.cons
    {masks laterMasks : Nat → BitVec 16}
    {memvalid laterValid : BitVec 16}
    {pc : Nat}
    {insn : SockFilter}
    {rest : List SockFilter}
    {valid : Nat → BitVec 16}
    (later : ScratchAnalysis laterMasks laterValid (pc + 1) rest valid)
    (shrinks : ∀ query, Covers (masks query) (laterMasks query))
    (head : ∀ op, classicOp insn.code = some op →
      (∀ next ∈ successors pc insn op, next = pc + 1 ∧
      Covers (scratchAfter op insn.k.toNat (memvalid &&& masks pc)) laterValid ∨ pc + 1 ≤ next ∧
      Covers (scratchAfter op insn.k.toNat (memvalid &&& masks pc)) (laterMasks next)) ∧
      (op = .ldMem ∨ op = .ldxMem → memvalid &&& masks pc &&& 1 <<< insn.k.toNat ≠ 0)) :
    ∃ extended, ScratchAnalysis masks memvalid pc (insn :: rest) extended := by
  refine ⟨update valid pc (memvalid &&& masks pc), ?_, ?_, ?_⟩
  · rw [update_self]
    exact Covers.and_left _ _
  · intro query bound
    by_cases same : query = pc
    · subst same
      rw [update_self]
      exact Covers.and_right _ _
    · rw [update_of_ne same]
      exact (shrinks query).trans (later.masked query (by omega))
  intro j fp op found selected
  cases j with
  | zero =>
    simp only [List.getElem?_cons_zero, Option.some.injEq] at found
    subst found
    obtain ⟨flows, loads⟩ := head op selected
    constructor
    · intro next member
      rw [Nat.add_zero] at member ⊢
      rw [update_self]
      rcases flows next member with
        ⟨isNext, covered⟩ | ⟨forward, covered⟩
      · subst isNext
        rw [update_of_ne (by omega)]
        exact covered.trans later.start
      · rw [update_of_ne (by omega)]
        exact covered.trans (later.masked next forward)
    · intro isLoad
      rw [Nat.add_zero, update_self]
      exact loads isLoad
  | succ j =>
    have tail := later.flow j fp op found selected
    rw [Nat.add_assoc, Nat.add_comm 1 j] at tail
    apply tail.congr
    intro query bound
    exact update_of_ne (by omega) _ _

/-- An instruction that falls through or ends passes its words on. -/
private theorem ScratchAnalysis.cons_fallthrough
    {masks valid : Nat → BitVec 16}
    {memvalid : BitVec 16}
    {pc : Nat}
    {insn : SockFilter}
    {rest : List SockFilter}
    {op : ClassicOp}
    (later : ScratchAnalysis masks (scratchAfter op insn.k.toNat (memvalid &&& masks pc)) (pc + 1)
      rest valid)
    (selected : classicOp insn.code = some op)
    (falls : successors pc insn op = [pc + 1] ∨ successors pc insn op = [])
    (loads : op = .ldMem ∨ op = .ldxMem → memvalid &&& masks pc &&& 1 <<< insn.k.toNat ≠ 0) :
    ∃ extended, ScratchAnalysis masks memvalid pc (insn :: rest) extended := by
  apply later.cons (fun query => Covers.refl _)
  intro other same
  rw [selected] at same
  cases same
  refine ⟨fun next member => ?_, loads⟩
  rcases falls with falls | falls
  · rw [falls, mem_singleton] at member
    exact .inl ⟨member, Covers.refl _⟩
  · rw [falls] at member
    cases member

/-- An accepted scan gives every instruction a set of written words. -/
theorem checkLoadAndStoresFrom_sound
    (filter : List SockFilter)
    (masks : Nat → BitVec 16)
    (memvalid : BitVec 16)
    (pc : Nat)
    (accepted : checkLoadAndStoresFrom masks memvalid pc filter = true) :
    ∃ valid, ScratchAnalysis masks memvalid pc filter valid := by
  induction filter generalizing masks memvalid pc with
  | nil =>
    exact ⟨fun _ => 0, by simp [Covers], by simp [Covers], by simp⟩
  | cons insn rest inductionHypothesis =>
    unfold checkLoadAndStoresFrom at accepted
    cases selected : classicOp insn.code with
    | none =>
      simp only [selected] at accepted
      obtain ⟨valid, later⟩ := inductionHypothesis _ _ _ accepted
      apply later.cons (fun query => Covers.refl _)
      intro op same
      rw [selected] at same
      cases same
    | some op =>
      cases op with
      | ldMem | ldxMem =>
        simp only [selected, Bool.and_eq_true] at accepted
        obtain ⟨valid, later⟩ := inductionHypothesis _ _ _ accepted.2
        exact later.cons_fallthrough selected (.inl rfl) fun _ => by simpa using accepted.1
      | ja =>
        simp only [selected] at accepted
        obtain ⟨valid, later⟩ := inductionHypothesis _ _ _ accepted
        apply later.cons (covers_restrictMask _ _ _)
        intro op same
        rw [selected] at same
        cases same
        refine ⟨?_, by simp⟩
        intro next member
        simp only [successors, mem_singleton] at member
        subst member
        exact .inr ⟨by omega, restrictMask_self_covered _ _ _⟩
      | jmp jmpOp src =>
        simp only [selected] at accepted
        obtain ⟨valid, later⟩ := inductionHypothesis _ _ _ accepted
        apply later.cons
        · intro query
          exact (covers_restrictMask _ _ _ query).trans (covers_restrictMask _ _ _ query)
        intro op same
        rw [selected] at same
        cases same
        refine ⟨?_, by simp⟩
        intro next member
        simp only [successors, mem_cons, not_mem_nil, or_false] at member
        rcases member with isTrue | isFalse
        · subst isTrue
          exact .inr ⟨by omega,
            (restrictMask_self_covered _ _ _).trans (covers_restrictMask _ _ _ _)⟩
        · subst isFalse
          exact .inr ⟨by omega, restrictMask_self_covered _ _ _⟩
      | retK | retA =>
        simp only [selected] at accepted
        obtain ⟨valid, later⟩ := inductionHypothesis _ _ _ accepted
        exact later.cons_fallthrough selected (.inr rfl) (by simp)
      | st | stx | alu | neg | ldAbs | ldInd | ldLen | ldImm | ldxLen | ldxMsh
      | ldxImm | ldxAbs | tax | txa =>
        simp only [selected] at accepted
        obtain ⟨valid, later⟩ := inductionHypothesis _ _ _ accepted
        exact later.cons_fallthrough selected (.inl rfl) (by simp)

/-- What later proofs use about an accepted program. -/
structure AcceptedFilter (filter : List SockFilter) : Prop where
  allowed : ∀ {pc : Nat} {fp : SockFilter}, filter[pc]? = some fp →
      ∃ op ∈ ClassicOp.codes, classicOp fp.code = some op
  checked : ∀ {pc : Nat} {fp : SockFilter}, filter[pc]? = some fp →
      checkInsn filter.length pc fp = true
  endsInReturn : ∃ fp, filter.getLast? = some fp ∧
        (classicOp fp.code = some .retK ∨ classicOp fp.code = some .retA)
  scratch : ∃ valid : Nat → BitVec 16, valid 0 = 0 ∧ ∀ pc fp op, filter[pc]? = some fp →
          classicOp fp.code = some op →
          ScratchFlow valid pc fp op

/-- Acceptance by `bpf_check_classic` gives all of it. -/
theorem acceptedFilter_of_bpfCheckClassic
    {allocated : Bool}
    {filter : List SockFilter}
    (accepted : bpfCheckClassic allocated filter = .ok ()) :
    AcceptedFilter filter := by
  unfold bpfCheckClassic at accepted
  split at accepted
  · rename_i insnsChecked
    have scanned : ∀ loads : checkLoadAndStores allocated filter = .ok (),
        ∃ valid : Nat → BitVec 16, valid 0 = 0 ∧ ∀ pc fp op, filter[pc]? = some fp →
        classicOp fp.code = some op → ScratchFlow valid pc fp op := by
      intro loads
      unfold checkLoadAndStores at loads
      split at loads
      · split at loads
        · rename_i scan
          obtain ⟨valid, analysis⟩ := checkLoadAndStoresFrom_sound filter _ _ _ scan
          refine ⟨valid, ?_, ?_⟩
          · apply eq_of_getLsbD_eq
            intro word bound
            have covered := analysis.start word
            simp only [ofNat_eq_ofNat, getLsbD_zero] at covered ⊢
            cases bit : (valid 0).getLsbD word with
            | false => rfl
            | true => exact (covered bit).symm
          · intro pc fp op found selected
            have flow := analysis.flow pc fp op found selected
            rwa [Nat.zero_add] at flow
        · cases loads
      · cases loads
    have ends : ∃ fp, filter.getLast? = some fp ∧ (classicOp fp.code = some .retK ∨
        classicOp fp.code = some .retA) ∧ checkLoadAndStores allocated filter = .ok () := by
      cases last : filter.getLast? with
      | none => simp [last] at accepted
      | some fp =>
        simp only [last] at accepted
        split at accepted
        · rename_i isRetK
          exact ⟨fp, rfl, .inl isRetK, accepted⟩
        · rename_i isRetA
          exact ⟨fp, rfl, .inr isRetA, accepted⟩
        · cases accepted
    obtain ⟨lastFp, last, isReturn, loads⟩ := ends
    exact {
      allowed := fun found => classicOp_of_chkCodeAllowed (checkInsns_getElem? insnsChecked found).1
      checked := fun found => by
        have checked := (checkInsns_getElem? insnsChecked found).2
        rwa [Nat.zero_add] at checked
      endsInReturn := ⟨lastFp, last, isReturn⟩
      scratch := scanned loads
    }
  · cases accepted

end EchoKernel.Bpf
