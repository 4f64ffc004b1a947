import IlsCompiler.Proofs.Assembly.FrameWalks

namespace IlsCompiler

/-!
# Registers that functions preserve

A function writes to a preserved register only if its start has saved it, and the slots of its
locals lie above the saved registers. So whichever way a run of a function goes, it returns with
the preserved registers and the two pointers as they were when it was called.
-/

variable
    {reg : Reg}
    {next : Instruction}

namespace Instruction

/-- Whether an instruction writes a register, be it its target or one that it always writes. -/
def writes (instruction : Instruction) (reg : Reg) : Prop :=
  instruction.target? = some reg ∨
    match instruction with
    | .cqo => reg = .rdx
    | .idiv _ => reg = .rax ∨ reg = .rdx
    | .syscall => reg = .rax ∨ reg = .rcx ∨ reg = .r11
    | .push _ => reg = .rsp
    | .pop _ => reg = .rsp
    | .call _ => reg = .rsp ∨ reg ∈ Reg.callerSaved
    | .ret => reg = .rsp
    | .verbatim _ => True
    | _ => False

end Instruction

variable
    {code : String → Option Body}
    {name : String}

namespace Shaped

open FunctionCode

variable
    {listing : Listing}
    {function : Signature}
    {locals : Nat}
    {frame : StackFrame}
    {saved : List Reg}
    {lines : List Line}
    {body : Body}
    {link : Linkage}
    {bottom : Int}
    {entry cpu : Cpu}
    {position : Nat}

/-- The lines at the start and at the end of a function are plain. -/
theorem plain
    (function : Signature)
    (frame : StackFrame)
    (saved : List Reg) :
    ∀ line ∈ opening function ++ Emit.setup (frame.size saved.length) saved ++
      ending function.isVoid (frame.size saved.length) saved, line.isPlain := by
  intro line member
  rcases List.mem_append.mp member with isStart | isEnd
  · exact plain_start _ _ _ line isStart
  · exact plain_end _ _ _ line isEnd

/-- A walk that is at the return of a function has given back what it was called with. -/
theorem returns
    (shaped : Shaped listing function locals frame saved lines body)
    (inside : entry.top + 8 ≤ bottom)
    (within : Whereabouts link (layout frame saved function bottom)
      (opening function ++ Emit.setup (frame.size saved.length) saved) lines
      (ending function.isVoid (frame.size saved.length) saved) entry position cpu)
    (found : body.lines[position]? = some (.instruction .ret)) :
    entry.Returns function.params.length bottom cpu := by
  cases within with
  | @start front here rest _ isHead passes =>
      cases Whereabouts.line_of_start shaped.lines_eq isHead found
      have member : Line.instruction .ret ∈
          opening function ++ Emit.setup (frame.size saved.length) saved := by
        rw [isHead]
        simp
      simp only [opening, Emit.setup, List.mem_append, List.mem_cons, List.mem_map] at member
      rcases member with (isName | isPush | isMove | isNone) | isReserve | ⟨_, _, isSave⟩
      · cases isName
      · cases isPush
      · cases isMove
      · cases isNone
      · split at isReserve
        · cases isReserve
        · cases List.mem_singleton.mp isReserve
      · cases isSave
  | @middle front here rest level begun _ isLines known _ _ _ =>
      cases (Body.Within.line_eq shaped.lines_eq isLines).symm.trans found
      obtain ⟨_, fits⟩ := shaped.fit front .ret rest level isLines known
      cases fits.common with
      | compute member => simp [Instruction.computations] at member
  | @finish front rest begun last _ isTail enters shelters passes =>
      obtain ⟨more, rfl⟩ := Whereabouts.line_of_finish shaped.lines_eq isTail found
      have isFront : front =
          (Emit.closing function.isVoid (frame.size saved.length) saved).map .instruction := by
        rcases List.eq_nil_or_concat more with rfl | ⟨between, final, rfl⟩
        · exact (List.append_inj' isTail rfl).1.symm
        · -- A return in front of the last line would be one of the closing instructions.
          exfalso
          have split : (Emit.closing function.isVoid (frame.size saved.length) saved).map
              Line.instruction = front ++ .instruction .ret :: between := by
            have both : (Emit.closing function.isVoid (frame.size saved.length) saved).map
                Line.instruction ++ [.instruction .ret] =
                (front ++ .instruction .ret :: between) ++ [final] := by
              simpa [ending] using isTail
            exact (List.append_inj' both rfl).1
          have member : Line.instruction .ret ∈
              (Emit.closing function.isVoid (frame.size saved.length) saved).map
                Line.instruction := by
            rw [split]
            simp
          obtain ⟨instruction, isClosing, isRet⟩ := List.mem_map.mp member
          cases isRet
          simp only [Emit.closing, List.mem_append] at isClosing
          rcases isClosing with (isClear | isRestore) | isLast
          · split at isClear
            · cases List.mem_singleton.mp isClear
            · cases isClear
          · split at isRestore
            · cases isRestore
            · simp at isRestore
          · simp at isLast
      subst isFront
      have begunBase := enters.base
      exact Line.Passes.returns shaped.saved_sublist (shaped.holds (by omega)) enters shelters passes

end Shaped

/-- The words at the places that hold them. -/
theorem Memory.Holds.word_eq
    {memory : Memory}
    {address : Int}
    {words : List (BitVec 64)}
    (holds : memory.Holds address words)
    {number : Nat}
    {word : BitVec 64}
    (found : words[number]? = some word) :
    memory.word (address + 8 * (number : Int)) = word := by
  induction words generalizing address number with
  | nil => simp at found
  | cons first rest inductionHypothesis =>
      obtain ⟨isFirst, others⟩ := holds
      cases number with
      | zero =>
          rw [List.getElem?_cons_zero, Option.some.injEq] at found
          rw [← found, ← isFirst]
          simp
      | succ number =>
          have later := inductionHypothesis others (by simpa using found)
          rwa [show address + 8 * ((number + 1 : Nat) : Int) = address + 8 + 8 * (number : Int) by
            omega]

/-- Where a function saves a register, at a distance from the frame pointer. -/
def StackFrame.savedOffset (frame : StackFrame) (saved number : Nat) : Int :=
  -((frame.size saved + slotSize * (number + 1) : Nat) : Int)

variable
    {function : Signature}

/-- In the middle of a function the saved registers are where its start put them. -/
theorem Whereabouts.saved
    {link : Linkage}
    {head lines tail : List Line}
    {frame : StackFrame}
    {saved : List Reg}
    {bottom : Int}
    {entry cpu : Cpu}
    {position : Nat}
    (within : Whereabouts link (Shaped.layout frame saved function bottom) head lines tail entry
      position cpu)
    (behind : head.length ≤ position)
    (before : position < head.length + lines.length)
    {number : Nat}
    (found : saved[number]? = some reg) :
    cpu.memory.word (entry.top - 8 + frame.savedOffset saved.length number) = entry.regs reg := by
  have inside := (List.getElem?_eq_some_iff.mp found).1
  cases within with
  | start isHead =>
      rw [isHead, List.length_append, List.length_cons] at behind
      omega
  | finish => omega
  | @middle front line rest level begun _ _ _ enters shelters =>
      have reversed : (saved.reverse.map entry.regs)[saved.length - 1 - number]? =
          some (entry.regs reg) := by
        rw [List.getElem?_map, List.getElem?_reverse (by omega)]
        rw [show saved.length - 1 - (saved.length - 1 - number) = number by omega, found]
        rfl
      have lies := enters.saves.word_eq reversed
      have base := enters.base
      have top := enters.top
      simp only [Shaped.layout, Layout.floor] at top
      have place : entry.top - 8 + frame.savedOffset saved.length number =
          begun.top + 8 * ((saved.length - 1 - number : Nat) : Int) := by
        simp only [StackFrame.savedOffset, StackFrame.slotSize]
        omega
      rw [place, ← lies]
      refine Memory.word_of_same fun other above below => shelters.memory other (.inl ?_)
      simp only [Shaped.layout, Layout.floor]
      omega

namespace Lower

end Lower

end IlsCompiler
