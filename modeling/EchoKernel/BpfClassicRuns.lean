import EchoKernel.BpfConvertCorrect
import EchoKernel.LabelledRun

namespace EchoKernel.Bpf

open LabelledRun Simulation List ClassicOp

/-!
# Runs of accepted classic programs

An accepted program runs forward to its end. What an ancillary load gives is
left open, as the path does not depend on it.
-/

section
variable (host : Host) (skb : SkBuff) (ancillary : SockFilter → ClassicState → BitVec 32)
variable (filter : List SockFilter)

/-- A classic step that may load ancillary data. -/
def ancillaryStep (config : ClassicConfig) : StepResult ClassicConfig (Option (BitVec 32)) :=
  match filter[config.pc]? with
  | none => .halt none
  | some insn =>
    if isAncillary insn then
      .next ⟨config.pc + 1, { config.state with a := ancillary insn config.state }⟩
    else classicStep host skb filter config

/-- An instruction is executed and the program goes on. -/
def Executes (config : ClassicConfig) (insn : SockFilter) (next : ClassicConfig) : Prop :=
  filter[config.pc]? = some insn ∧ ancillaryStep host skb ancillary filter config = .next next

/-- An instruction that writes a scratch word. -/
def Stores (insn : SockFilter) (word : Nat) : Prop :=
  (classicOp insn.code = some .st ∨ classicOp insn.code = some .stx) ∧ insn.k.toNat = word

/--
After a path, the next instruction is one of the program, at most the last
that may be executed, goes on or ends, and loads only a scratch word that the
path has written.
-/
structure SafeAfter (path : List SockFilter) (config : ClassicConfig) : Prop where
  inside : config.pc < filter.length
  few : path.length < filter.length
  proceeds : ancillaryStep host skb ancillary filter config ≠ .halt none
  written : ∀ insn, filter[config.pc]? = some insn →
      classicOp insn.code = some .ldMem ∨ classicOp insn.code = some .ldxMem →
        ∃ earlier ∈ path, Stores earlier insn.k.toNat

end

variable {host : Host} {skb : SkBuff} {ancillary : SockFilter → ClassicState → BitVec 32}
variable {filter path : List SockFilter} {config next : ClassicConfig} {insn : SockFilter}
variable {op : ClassicOp} {valid : Nat → BitVec 16}

/-- A step goes to a successor, or ends with a verdict. -/
theorem ancillaryStep_cases
    (found : filter[config.pc]? = some insn)
    (selected : classicOp insn.code = some op)
    (allowed : op ∈ codes) :
    (∃ next, ancillaryStep host skb ancillary filter config = .next next ∧
    next.pc ∈ successors config.pc insn op) ∨
    ∃ verdict, ancillaryStep host skb ancillary filter config = .halt (some verdict) := by
  rw [ancillaryStep, found]
  dsimp only
  split
  case isTrue isLoad =>
    rw [isAncillary, selected] at isLoad
    cases op with
    | ldAbs size => exact .inl ⟨_, rfl, mem_cons_self⟩
    | _ => cases isLoad
  case isFalse =>
    have notAbs : op ≠ .ldxAbs := by
      rintro rfl
      exact absurd allowed (by decide)
    rw [classicStep]
    simp only [classicLoad]
    cases op with
    | ldxAbs => exact absurd rfl notAbs
    | _ => grind [successors]

/-- An accepted program's scratch words are among sixteen. -/
theorem AcceptedFilter.word_lt
    {pc : Nat}
    (accepted : AcceptedFilter filter)
    (found : filter[pc]? = some insn)
    (selected : classicOp insn.code = some op)
    (isMem : op ∈ [.st, .stx, .ldMem, .ldxMem]) :
    insn.k.toNat < bpfMemwords := by
  have checked := accepted.checked found
  simp only [mem_cons, not_mem_nil, or_false] at isMem
  rcases isMem with rfl | rfl | rfl | rfl <;>
    simpa only [checkInsn, selected, decide_eq_true_eq] using checked

/-- An instruction adds the word that it stores in. -/
theorem getLsbD_scratchAfter
    {mask : BitVec 16}
    {k word : Nat}
    (inRange : op ∈ [.st, .stx, .ldMem, .ldxMem] → k < bpfMemwords)
    (bound : word < 16)
    (inMask : (scratchAfter op k mask).getLsbD word = true) :
    mask.getLsbD word = true ∨ (op = .st ∨ op = .stx) ∧ k = word := by
  cases op with
  | st | stx =>
    rw [scratchAfter, BitVec.getLsbD_or, getLsbD_scratchBit (inRange (by simp)) bound] at inMask
    rw [Bool.or_eq_true, decide_eq_true_eq] at inMask
    exact inMask.imp_right fun isWord => ⟨by simp, isWord.symm⟩
  | _ => exact .inl inMask

/-- What a path leaves to know about a configuration. -/
structure Traced (filter : List SockFilter) (valid : Nat → BitVec 16) (path : List SockFilter)
    (config : ClassicConfig) : Prop where
  inside : config.pc < filter.length
  few : path.length ≤ config.pc
  written : ∀ word < 16, (valid config.pc).getLsbD word = true → ∃ earlier ∈ path,
      Stores earlier word

theorem Traced.execute
    (accepted : AcceptedFilter filter)
    (analysed : ScratchValid filter valid)
    (traced : Traced filter valid path config)
    (executes : Executes host skb ancillary filter config insn next) :
    Traced filter valid (path ++ [insn]) next := by
  obtain ⟨found, steps⟩ := executes
  obtain ⟨op, allowed, selected⟩ := accepted.allowed found
  have successor : next.pc ∈ successors config.pc insn op := by
    rcases ancillaryStep_cases found selected allowed with
      ⟨other, goes, successor⟩ | ⟨verdict, halts⟩
    · rw [steps] at goes
      cases goes
      exact successor
    · rw [steps] at halts
      cases halts
  obtain ⟨forward, inside⟩ := accepted.successor_inside found selected successor
  refine ⟨inside, ?_, ?_⟩
  · have few := traced.few
    rw [length_append, length_singleton]
    omega
  intro word bound isValid
  have inMask := (analysed _ _ _ found selected).flows _ successor word isValid
  rcases getLsbD_scratchAfter (accepted.word_lt found selected) bound inMask with
    isOld | ⟨isStore, isWord⟩
  · obtain ⟨earlier, member, stores⟩ := traced.written word bound isOld
    exact ⟨earlier, mem_append_left _ member, stores⟩
  · exact ⟨insn, by simp, by simpa [selected] using isStore, isWord⟩

/--
An accepted program stays inside its instructions, executes each at most once,
and loads only scratch words written before.
-/
theorem safeAfter_of_bpfCheckClassic
    {allocated : Bool}
    {scratch : Nat → BitVec 32}
    (accepted : bpfCheckClassic allocated filter = .ok ())
    (run : Run (Executes host skb ancillary filter) (classicInitial scratch) path config) :
    SafeAfter host skb ancillary filter path config := by
  have checked := acceptedFilter_of_bpfCheckClassic accepted
  obtain ⟨valid, unwritten, analysed⟩ := checked.scratch
  have traced : Traced filter valid path config := by
    induction run with
    | start =>
      refine ⟨?_, Nat.le_refl 0, ?_⟩
      · obtain ⟨last, isLast, -⟩ := checked.endsInReturn
        exact length_pos_of_mem (mem_of_getLast? isLast)
      intro word bound isValid
      rw [show valid (classicInitial scratch).pc = 0 from unwritten] at isValid
      simp at isValid
    | after run executes inductionHypothesis =>
      exact inductionHypothesis.execute checked analysed executes
  obtain ⟨inside, few, written⟩ := traced
  have found : filter[config.pc]? = some filter[config.pc] := List.getElem?_eq_getElem inside
  obtain ⟨op, allowed, selected⟩ := checked.allowed found
  refine ⟨inside, by omega, ?_, ?_⟩
  · rcases ancillaryStep_cases found selected allowed with
      ⟨next, goes, -⟩ | ⟨verdict, halts⟩
    · rw [goes]
      nofun
    · rw [halts]
      nofun
  intro insn isInsn isLoad
  obtain ⟨load, isOp, isLoad⟩ : ∃ load, classicOp insn.code = some load ∧
      (load = .ldMem ∨ load = .ldxMem) := by
    rcases isLoad with isLoad | isLoad
    · exact ⟨_, isLoad, .inl rfl⟩
    · exact ⟨_, isLoad, .inr rfl⟩
  have isWord := checked.word_lt isInsn isOp (by rcases isLoad with rfl | rfl <;> simp)
  have inMask := (analysed _ _ _ isInsn isOp).loads isLoad
  exact written _ isWord (getLsbD_of_scratchBit isWord inMask)

/-- `st M[0]; ld M[0]; ret A`. -/
def storeLoadFilter : List SockFilter :=
  [⟨ClassicOp.st.code, 0, 0, 0⟩, ⟨ldMem.code, 0, 0, 0⟩, ⟨retA.code, 0, 0, 0⟩]

theorem safeAfter_of_bpfCheckClassic_storeLoadFilter :
    bpfCheckClassic true storeLoadFilter = .ok () ∧
    SafeAfter emptyPacketHost emptyPacketContext.skb (fun _ _ => 0) storeLoadFilter
    [⟨ClassicOp.st.code, 0, 0, 0⟩] ⟨1, ⟨0, 0, Function.update (fun _ => 0) 0 0⟩⟩ := by
  have accepted : bpfCheckClassic true storeLoadFilter = .ok () := by decide +kernel
  exact ⟨accepted, safeAfter_of_bpfCheckClassic accepted (.after .start ⟨rfl, rfl⟩)⟩

end EchoKernel.Bpf
