import IlsCompiler.Proofs.Assembly.Steps

namespace IlsCompiler

/-!
# Properties of operand resolution

The operand of a variable is found by following references, loading temporaries, addressing
elements and making calls, which resolve operands in turn. A relation between the code in front
of a step and the code behind it that holds for the parts of resolution holds for all of it.
-/

/-- An operand that lies in the frame is a parameter or one of the slots given to locals. -/
def Operand.InFrame (slots : Nat) : Operand → Prop
  | .memory (.frame offset) width =>
      width = StackFrame.slotSize ∧
        ((∃ number < slots, StackFrame.slotAddress number = .frame offset) ∨
          ∃ position, StackFrame.parameterAddress position = .frame offset)
  | _ => True

theorem Operand.InFrame.mono
    {slots more : Nat}
    {operand : Operand}
    (inFrame : operand.InFrame slots)
    (grown : slots ≤ more) :
    operand.InFrame more := by
  cases operand with
  | memory address width =>
      cases address with
      | frame offset =>
          obtain ⟨isSlot, place⟩ := inFrame
          refine ⟨isSlot, place.imp_left ?_⟩
          rintro ⟨number, inSlots, isAddress⟩
          exact ⟨number, by omega, isAddress⟩
      | _ => trivial
  | _ => trivial

/-- An operand lies in the frame as it is laid out so far. -/
def FunctionCode.Reaches (code : FunctionCode) (operand : Operand) : Prop :=
  operand.InFrame code.frame.slots.length

namespace Emit

open Stateful

/-- A step of making code relates the code in front of it to the code behind it. -/
def Respects (related : FunctionCode → FunctionCode → Prop) (step : Emit α) : Prop :=
  ∀ ⦃before : FunctionCode⦄ ⦃result : α⦄ ⦃after : FunctionCode⦄,
    step before = .ok (result, after) → related before after

/-- Whether a register is one that values pass through without being kept there. -/
def isPassing (reg : Reg) : Prop :=
  reg = .rax ∨ reg = .rsi ∨ reg = .rdi

theorem noPointer_of_passing
    {reg : Reg}
    (passing : isPassing reg) :
    reg ≠ .rsp ∧ reg ≠ .rbp := by
  rcases passing with rfl | rfl | rfl <;> decide

variable
    {scratch : Reg}
    {array : String}
    {width : Nat}

section Reaching

variable
    {listing : Listing}
    {depth : Nat}
    {before after : FunctionCode}
    {operand : Operand}

theorem namedOperand_reaches
    {v : Variable}
    {name : String}
    {isGlobal isParam : Bool}
    {position : Nat}
    (run : namedOperand v name isGlobal isParam position before = .ok (operand, after)) :
    after.Reaches operand := by
  rcases namedOperand_cases run with
    ⟨_, rfl, rfl⟩ | ⟨_, _, rfl, rfl⟩ | ⟨_, _, frame, address, placed, rfl, rfl⟩
  · trivial
  · exact ⟨rfl, .inr ⟨position, rfl⟩⟩
  · rcases slot_ok placed with ⟨number, known, rfl, rfl⟩ | ⟨_, _, rfl, rfl⟩
    · have inSlots : number < before.frame.slots.length := by
        obtain ⟨below, _⟩ := List.findIdx?_eq_some_iff_findIdx_eq.mp known
        exact below
      exact ⟨rfl, .inl ⟨number, inSlots, rfl⟩⟩
    · exact ⟨rfl, .inl ⟨before.frame.slots.length, by simp, rfl⟩⟩

/-- The memory of an element does not lie in the frame. -/
theorem elementAt_cases
    {index : Operand}
    (run : elementAt array width scratch index before = .ok (operand, after)) :
    (∃ offset, operand = .memory (.symbol array offset) width) ∨
      ∃ reg, operand = .memory (.indexed array reg width) width := by
  cases index with
  | immediate text =>
      unfold elementAt constantElement at run
      cases read : Text.integer? 64 text with
      | none =>
          simp only [read] at run
          exact (fail_ok_iff.mp run).elim
      | some number =>
          simp only [read] at run
          split at run
          · exact .inl ⟨_, (pure_ok_iff.mp run).1.symm⟩
          · exact .inl ⟨_, (pure_ok_iff.mp run).1.symm⟩
  | register reg bytes => exact .inr ⟨_, (pure_ok_iff.mp run).1.symm⟩
  | memory address bytes =>
      obtain ⟨_, _, _, returned⟩ := bind_ok_iff.mp run
      exact .inr ⟨_, (pure_ok_iff.mp returned).1.symm⟩

theorem element_cases
    {array index : VarId}
    (run : element listing depth array index scratch before = .ok (operand, after)) :
    ∃ name width,
      (∃ offset, operand = .memory (.symbol name offset) width) ∨
        ∃ reg, operand = .memory (.indexed name reg width) width := by
  obtain ⟨_, v, name, _, _, _, _, _, _, _, _, _, addressed⟩ := element_ok run
  exact ⟨name, v.type.element.width, elementAt_cases addressed⟩

theorem resolve_reaches
    {id : VarId}
    (run : resolve listing depth id scratch before = .ok (operand, after)) :
    after.Reaches operand := by
  obtain ⟨v, less, _, _, resolved⟩ := resolve_ok run
  split at resolved
  · rw [resolved.1]
    trivial
  · exact namedOperand_reaches resolved
  · obtain ⟨reg, _, rfl⟩ := resolved
    trivial
  · obtain ⟨name, width, ⟨offset, rfl⟩ | ⟨reg, rfl⟩⟩ := element_cases resolved <;> trivial
  · rw [resolved.2]
    trivial
  · exact resolved.elim

theorem stored_reaches
    {value : Value}
    (run : stored listing depth value before = .ok (operand, after)) :
    after.Reaches operand := by
  cases value with
  | literal text =>
      rw [(stored_literal_ok run).1]
      trivial
  | reference id =>
      obtain ⟨less, _, resolved⟩ := stored_reference_ok run
      exact resolve_reaches resolved

end Reaching

/--
What a relation has to satisfy to hold for resolution: it composes, and it holds when a local
gets its slot, when a passing register is loaded, when a temporary that held no register gets
one and is loaded, and when a call is made whose arguments are resolved within the relation.
Operands that are loaded lie in the frame, and the calls are of a kind that all pending calls are.
-/
structure Law (listing : Listing) (called : Call → Prop)
    (related : FunctionCode → FunctionCode → Prop) : Prop where
  refl : ∀ code, related code code
  trans : ∀ ⦃first second third⦄, related first second → related second third →
    related first third
  slot : ∀ (code : FunctionCode) (id : VarId), code.frame.slots.length < code.frame.locals →
    related code { code with frame := { code.frame with slots := code.frame.slots ++ [id] } }
  load : ∀ {before after : FunctionCode} {reg : Reg} {source : Operand},
    isPassing reg → before.Reaches source → moveInto reg source before = .ok ((), after) →
      related before after
  fill : ∀ {before middle between after : FunctionCode} {v : Variable} {name : String}
    {source : Operand} {reg : Reg},
    related before middle → before.pool.held? v.id = none → middle.Reaches source →
      takeRegister name v middle = .ok (reg, between) →
      moveInto reg source between = .ok ((), after) → related before after
  pending : ∀ {id : VarId} {v : Variable} {function : Signature} {call : Call},
    listing.lookup? id = some v → v.storage = .result function call → called call
  call : ∀ {depth : Nat} {call : Call} {saved : Saved}
    {before first second third fourth after : FunctionCode},
    called call →
      (∀ id ∈ call.arguments, Respects related (resolve listing depth id Reg.sourceIndex)) →
      saveLive call.arguments.length { before with calls := before.calls ++ [call.id] } =
        .ok (saved, first) →
      pushArguments listing depth call.arguments.reverse first = .ok ((), second) →
      ins (.call call.name) second = .ok ((), third) →
      dropArguments call.arguments.length third = .ok ((), fourth) →
      restoreLive saved fourth = .ok ((), after) → related before after

section Sequencing

variable
    {related : FunctionCode → FunctionCode → Prop}

theorem respects_pure
    (refl : ∀ code, related code code)
    (value : α) :
    Respects related (pure value : Emit α) := by
  intro before result after run
  obtain ⟨-, rfl⟩ := pure_ok_iff.mp run
  exact refl before

theorem respects_bind
    (trans : ∀ ⦃first second third⦄, related first second → related second third →
      related first third)
    {step : Emit α}
    {next : α → Emit β}
    (first : Respects related step)
    (second : ∀ value, Respects related (next value)) :
    Respects related (step >>= next) := by
  intro before result after run
  obtain ⟨_, _, stepped, later⟩ := bind_ok_iff.mp run
  exact trans (first stepped) (second _ later)

end Sequencing

namespace Law

variable
    {listing : Listing}
    {called : Call → Prop}
    {related : FunctionCode → FunctionCode → Prop}
    (law : Law listing called related)

include law

theorem namedOperand
    (v : Variable)
    (name : String)
    (isGlobal isParam : Bool)
    (position : Nat) :
    Respects related (Emit.namedOperand v name isGlobal isParam position) := by
  intro before operand after run
  rcases namedOperand_cases run with
    ⟨_, _, rfl⟩ | ⟨_, _, _, rfl⟩ | ⟨_, _, frame, address, placed, _, rfl⟩
  · exact law.refl after
  · exact law.refl after
  · rcases slot_ok placed with ⟨_, _, rfl, _⟩ | ⟨_, room, rfl, _⟩
    · exact law.refl before
    · exact law.slot before v.id room

theorem elementAt
    (passing : isPassing scratch)
    {index operand : Operand}
    {before after : FunctionCode}
    (reaches : before.Reaches index)
    (run : Emit.elementAt array width scratch index before = .ok (operand, after)) :
    related before after := by
  cases index with
  | immediate text =>
      unfold Emit.elementAt constantElement at run
      cases read : Text.integer? 64 text with
      | none =>
          simp only [read] at run
          exact (fail_ok_iff.mp run).elim
      | some number =>
          simp only [read] at run
          split at run
          · obtain ⟨-, rfl⟩ := pure_ok_iff.mp run
            exact law.refl before
          · obtain ⟨-, rfl⟩ := pure_ok_iff.mp run
            exact law.refl before
  | register reg bytes =>
      obtain ⟨-, rfl⟩ := pure_ok_iff.mp run
      exact law.refl before
  | memory address bytes =>
      obtain ⟨_, _, moved, returned⟩ := bind_ok_iff.mp run
      obtain ⟨-, rfl⟩ := pure_ok_iff.mp returned
      exact law.load passing reaches moved

/-- The law holds for all of resolution, however deep references lead. -/
theorem resolution
    (depth : Nat) :
    (∀ id scratch, isPassing scratch →
      Respects related (resolve listing depth id scratch)) ∧
    (∀ value, Respects related (stored listing depth value)) ∧
    (∀ v name, Respects related (temporary listing depth v name)) ∧
    (∀ array index scratch, isPassing scratch →
      Respects related (element listing depth array index scratch)) ∧
    ∀ call, called call → Respects related (userCall listing depth call) := by
  induction depth using Nat.strongRecOn with
  | _ depth inductionHypothesis =>
    refine ⟨?_, ?_, ?_, ?_, ?_⟩
    · intro id scratch passing before operand after run
      obtain ⟨v, less, isLess, found, resolved⟩ := resolve_ok run
      obtain ⟨_, _, loads, addresses, calls⟩ := inductionHypothesis less isLess
      split at resolved
      · obtain ⟨-, rfl⟩ := resolved
        exact law.refl after
      · exact law.namedOperand _ _ _ _ _ resolved
      · obtain ⟨reg, loaded, -⟩ := resolved
        exact loads _ _ loaded
      · exact addresses _ _ _ passing resolved
      next storage => exact calls _ (law.pending found storage) resolved.1
      · exact resolved.elim
    · intro value before operand after run
      cases value with
      | literal text =>
          obtain ⟨-, rfl⟩ := stored_literal_ok run
          exact law.refl after
      | reference id =>
          obtain ⟨less, isLess, resolved⟩ := stored_reference_ok run
          exact (inductionHypothesis less isLess).1 id _ (.inr (.inl rfl)) resolved
    · intro v name before reg after run
      rcases temporary_ok run with
        ⟨_, rfl⟩ | ⟨free, less, _, middle, between, isLess, loaded, taken, moved⟩
      · exact law.refl after
      · have earlier := (inductionHypothesis less isLess).2.1 _ loaded
        exact law.fill earlier free (stored_reaches loaded) taken moved
    · intro array index scratch passing before operand after run
      obtain ⟨less, _, _, _, _, _, _, between, isLess, _, _, resolved, addressed⟩ :=
        element_ok run
      have earlier := (inductionHypothesis less isLess).1 index scratch passing resolved
      exact law.trans earlier (law.elementAt passing (resolve_reaches resolved) addressed)
    · intro call isCalled before done after run
      rcases userCall_ok run with
        ⟨_, rfl⟩ | ⟨_, less, saved, first, second, third, fourth, isLess, saves, pushes, jumps,
          drops, restores⟩
      · exact law.refl after
      · have arguments := (inductionHypothesis less isLess).1
        exact law.call isCalled (fun id _ => arguments id _ (.inr (.inl rfl))) saves pushes jumps drops
          restores

end Law

end Emit

end IlsCompiler
