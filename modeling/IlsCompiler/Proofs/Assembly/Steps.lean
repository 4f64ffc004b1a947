import IlsCompiler.Assembly.Emission
import IlsCompiler.Proofs.Stateful

namespace IlsCompiler.Emit

open Stateful

/-!
# Emission steps that succeed

What a step of emission that succeeds went through: the inversions that later proofs
read code through.
-/

variable
    {listing : Listing}
    {depth : Nat}
    {before after : FunctionCode}
    {line : Nat}

theorem fail_ok_iff
    {fault : EmissionFault}
    {result : α} :
    (fail fault line : Emit α) before = .ok (result, after) ↔ False :=
  throw_ok_iff

theorem atLine_ok_iff
    {step : Emit α}
    {result : α} :
    atLine line step before = .ok (result, after) ↔ step before = .ok (result, after) := by
  unfold atLine
  cases step before <;> simp

theorem ins_ok_iff
    {instruction : Instruction}
    {done : Unit} :
    ins instruction before = .ok (done, after) ↔
      after = { before with body := before.body.add instruction } := by
  rw [ins, modify_ok_iff]
  exact eq_comm

variable
    {operand : Operand}

theorem stored_literal_ok
    {text : String}
    (run : stored listing depth (.literal text) before = .ok (operand, after)) :
    operand = .immediate text ∧ after = before := by
  cases depth with
  | zero =>
      rw [stored] at run
      exact (fail_ok_iff.mp run).elim
  | succ depth =>
      rw [stored] at run
      obtain ⟨rfl, rfl⟩ := pure_ok_iff.mp run
      exact ⟨rfl, rfl⟩

variable
    {id : VarId}

/-- A reference is followed. -/
theorem stored_reference_ok
    (run : stored listing depth (.reference id) before = .ok (operand, after)) :
    ∃ less < depth, resolve listing less id Reg.sourceIndex before = .ok (operand, after) := by
  cases depth with
  | zero =>
      rw [stored] at run
      exact (fail_ok_iff.mp run).elim
  | succ depth =>
      rw [stored] at run
      cases found : listing.lookup? id with
      | none =>
          simp only [found] at run
          exact (fail_ok_iff.mp run).elim
      | some v =>
          simp only [found] at run
          exact ⟨depth, Nat.lt_succ_self depth, run⟩

variable
    {name : String}
    {v : Variable}
    {reg : Reg}

/-- A temporary is in its register, or its value is loaded into one. -/
theorem temporary_ok
    (run : temporary listing depth v name before = .ok (reg, after)) :
    (before.pool.held? v.id = some reg ∧ after = before) ∨
      (before.pool.held? v.id = none ∧
        ∃ less source middle between,
          less < depth ∧ stored listing less v.value before = .ok (source, middle) ∧
            takeRegister name v middle = .ok (reg, between) ∧
            moveInto reg source between = .ok ((), after)) := by
  cases depth with
  | zero =>
      rw [temporary] at run
      exact (fail_ok_iff.mp run).elim
  | succ depth =>
      rw [temporary] at run
      obtain ⟨_, _, got, later⟩ := bind_ok_iff.mp run
      obtain ⟨rfl, rfl⟩ := get_ok_iff.mp got
      cases held : before.pool.held? v.id with
      | some known =>
          simp only [held] at later
          obtain ⟨rfl, rfl⟩ := pure_ok_iff.mp later
          exact .inl ⟨rfl, rfl⟩
      | none =>
          simp only [held, bind_ok_iff] at later
          obtain ⟨source, middle, loaded, taken, between, took, _, _, moved, returned⟩ := later
          obtain ⟨rfl, rfl⟩ := pure_ok_iff.mp returned
          exact .inr ⟨rfl, depth, source, middle, between, Nat.lt_succ_self depth, loaded, took,
            moved⟩

variable
    {scratch : Reg}

/-- An element is addressed through its index, and its array is global. -/
theorem element_ok
    {array index : VarId}
    (run : element listing depth array index scratch before = .ok (operand, after)) :
    ∃ less v name isParam place scope position between,
      less < depth ∧ listing.lookup? array = some v ∧ v.storage = .named name true isParam place scope ∧
        resolve listing less index scratch before = .ok (position, between) ∧
        elementAt name v.type.element.width scratch position between = .ok (operand, after) := by
  cases depth with
  | zero =>
      rw [element] at run
      exact (fail_ok_iff.mp run).elim
  | succ depth =>
      rw [element] at run
      cases found : listing.lookup? array with
      | none =>
          simp only [found] at run
          exact (fail_ok_iff.mp run).elim
      | some v =>
          rcases v with ⟨number, type, value, preserved, lastUse, storage⟩
          cases storage with
          | named name isGlobal isParam place scope =>
              cases isGlobal with
              | true =>
                  simp only [found, ↓reduceIte] at run
                  obtain ⟨position, between, resolved, addressed⟩ := bind_ok_iff.mp run
                  exact ⟨depth, _, name, isParam, place, scope, position, between,
                    Nat.lt_succ_self depth, rfl, rfl, resolved, addressed⟩
              | false =>
                  simp only [found, Bool.false_eq_true, ↓reduceIte] at run
                  exact (fail_ok_iff.mp run).elim
          | _ =>
              simp only [found] at run
              exact (fail_ok_iff.mp run).elim

/-- Push the arguments of a call from the last to the first. -/
def pushArguments (listing : Listing) (depth : Nat) (ids : List VarId) : Emit Unit :=
  ids.forM fun id => do
    let operand ← resolve listing depth id Reg.sourceIndex
    push (← settle Reg.returned (operand.isNarrow || operand.isWide) operand)

/-- A call is made once: when its result was taken before, nothing happens. -/
theorem userCall_ok
    {call : Call}
    {done : Unit}
    (run : userCall listing depth call before = .ok (done, after)) :
    (call.id ∈ before.calls ∧ after = before) ∨
      (call.id ∉ before.calls ∧
        ∃ less saved first second third fourth,
          less < depth ∧
            saveLive call.arguments.length { before with calls := before.calls ++ [call.id] } =
              .ok (saved, first) ∧
            pushArguments listing less call.arguments.reverse first = .ok ((), second) ∧
            ins (.call call.name) second = .ok ((), third) ∧
            dropArguments call.arguments.length third = .ok ((), fourth) ∧
            restoreLive saved fourth = .ok ((), after)) := by
  cases depth with
  | zero =>
      rw [userCall] at run
      exact (fail_ok_iff.mp run).elim
  | succ depth =>
      rw [userCall] at run
      obtain ⟨_, _, got, later⟩ := bind_ok_iff.mp run
      obtain ⟨rfl, rfl⟩ := get_ok_iff.mp got
      by_cases made : call.id ∈ before.calls
      · simp only [made, ↓reduceIte] at later
        obtain ⟨-, rfl⟩ := pure_ok_iff.mp later
        exact .inl ⟨made, rfl⟩
      · simp only [made, ↓reduceIte] at later
        obtain ⟨_, _, counted, called⟩ := bind_ok_iff.mp later
        cases modify_ok_iff.mp counted
        cases known : call.function with
        | none =>
            simp only [known] at called
            exact (fail_ok_iff.mp called).elim
        | some function =>
            simp only [known] at called
            by_cases arity : call.arguments.length = function.params.length
            · simp only [arity, ne_eq, not_true_eq_false, ↓reduceIte, bind_ok_iff] at called
              obtain ⟨saved, first, savedRun, _, second, pushed, _, third, jumped, _, fourth,
                dropped, restored⟩ := called
              rw [← arity] at savedRun dropped
              exact .inr ⟨made, depth, saved, first, second, third, fourth,
                Nat.lt_succ_self depth, savedRun, pushed, jumped, dropped, restored⟩
            · simp only [arity, ne_eq, not_false_eq_true, ↓reduceIte] at called
              obtain ⟨_, _, failed, -⟩ := bind_ok_iff.mp called
              exact (fail_ok_iff.mp failed).elim

/-- A register that a temporary takes is the one that the pool gives out. -/
theorem takeRegister_ok
    (run : takeRegister name v before = .ok (reg, after)) :
    ∃ pool,
      before.pool.assign v.id v.preserved = .ok (pool, reg) ∧
        after = { before with pool := pool } := by
  unfold takeRegister at run
  obtain ⟨_, _, got, later⟩ := bind_ok_iff.mp run
  obtain ⟨rfl, rfl⟩ := get_ok_iff.mp got
  cases assigned : before.pool.assign v.id v.preserved with
  | error shortage =>
      simp only [assigned] at later
      exact (fail_ok_iff.mp later).elim
  | ok result =>
      simp only [assigned, bind_ok_iff, set_ok_iff] at later
      obtain ⟨_, _, rfl, returned⟩ := later
      obtain ⟨rfl, rfl⟩ := pure_ok_iff.mp returned
      exact ⟨result.1, rfl, rfl⟩

/-- Pass a format and the value to print to the routine that prints. -/
def passFormat (listing : Listing) (format : String) (argument : VarId) : Emit Unit := do
  ins (.mov (.whole .rdi) (.immediate format))
  load listing .rsi argument
  ins (.xor (.whole .rax) (.whole .rax))

/-- Printing is a call that passes its arguments in registers. -/
theorem print_ok
    {argument : Variable}
    {newline : Bool}
    {done : Unit}
    (run : print listing argument newline before = .ok (done, after)) :
    ∃ format saved first second third,
      PrintFormat.nameFor? argument.type newline = some format ∧
        saveLive 0 before = .ok (saved, first) ∧
        passFormat listing format argument.id first = .ok ((), second) ∧
        ins (.call PrintFormat.routine) second = .ok ((), third) ∧
        restoreLive saved third = .ok ((), after) := by
  unfold print at run
  cases format : PrintFormat.nameFor? argument.type newline with
  | none =>
      simp only [format] at run
      exact (fail_ok_iff.mp run).elim
  | some name =>
      simp only [format, bind_ok_iff] at run
      obtain ⟨saved, first, saves, _, moved, isMoved, _, loaded, isLoaded, _, second, cleared, _,
        third, jumps, restores⟩ := run
      refine ⟨name, saved, first, second, third, rfl, saves, ?_, jumps, restores⟩
      exact bind_ok_iff.mpr ⟨_, moved, isMoved, bind_ok_iff.mpr ⟨_, loaded, isLoaded, cleared⟩⟩

/-- What the operand of a variable is depends on where the variable lives. -/
theorem resolve_ok
    (run : resolve listing depth id scratch before = .ok (operand, after)) :
    ∃ v less,
      less < depth ∧ listing.lookup? id = some v ∧
        match v.storage with
        | .literal => operand = .immediate v.value.text ∧ after = before
        | .named name isGlobal isParam position _ =>
            namedOperand v name isGlobal isParam position before = .ok (operand, after)
        | .temporary name _ =>
            ∃ reg, temporary listing less v name before = .ok (reg, after) ∧
              operand = .whole reg
        | .element array index => element listing less array index scratch before =
            .ok (operand, after)
        | .result _ call =>
            userCall listing less call before = .ok ((), after) ∧ operand = .whole Reg.returned
        | .array _ _ _ => False := by
  cases depth with
  | zero =>
      rw [resolve] at run
      exact (fail_ok_iff.mp run).elim
  | succ depth =>
      rw [resolve] at run
      cases found : listing.lookup? id with
      | none =>
          simp only [found] at run
          exact (fail_ok_iff.mp run).elim
      | some v =>
          simp only [found] at run
          refine ⟨v, depth, Nat.lt_succ_self depth, rfl, ?_⟩
          cases storage : v.storage with
          | literal =>
              simp only [storage] at run
              obtain ⟨rfl, rfl⟩ := pure_ok_iff.mp run
              exact ⟨rfl, rfl⟩
          | named =>
              simp only [storage] at run
              exact run
          | temporary =>
              simp only [storage] at run
              obtain ⟨reg, _, loaded, returned⟩ := bind_ok_iff.mp run
              obtain ⟨rfl, rfl⟩ := pure_ok_iff.mp returned
              exact ⟨reg, loaded, rfl⟩
          | element =>
              simp only [storage] at run
              exact run
          | result =>
              simp only [storage] at run
              obtain ⟨_, _, called, returned⟩ := bind_ok_iff.mp run
              obtain ⟨rfl, rfl⟩ := pure_ok_iff.mp returned
              exact ⟨called, rfl⟩
          | array =>
              simp only [storage] at run
              exact fail_ok_iff.mp run

/-- A local has its slot already, or gets the next one if there is room. -/
theorem slot_ok
    {frame later : StackFrame}
    {address : Address}
    (placed : frame.slot id name = .ok (later, address)) :
    (∃ number,
      frame.slots.idxOf? id = some number ∧ later = frame ∧
        address = StackFrame.slotAddress number) ∨
      (frame.slots.idxOf? id = none ∧ frame.slots.length < frame.locals ∧
        later = { frame with slots := frame.slots ++ [id] } ∧
        address = StackFrame.slotAddress frame.slots.length) := by
  unfold StackFrame.slot at placed
  cases known : frame.slots.idxOf? id with
  | some number =>
      simp only [known, Except.ok.injEq, Prod.mk.injEq] at placed
      exact .inl ⟨number, rfl, placed.1.symm, placed.2.symm⟩
  | none =>
      simp only [known] at placed
      split at placed
      next room =>
        simp only [Except.ok.injEq, Prod.mk.injEq] at placed
        exact .inr ⟨rfl, room, placed.1.symm, placed.2.symm⟩
      next => cases placed

/-- A named variable that is no array lies at its symbol, at its parameter or in its slot. -/
theorem namedOperand_cases
    {isGlobal isParam : Bool}
    {position : Nat}
    (run : namedOperand v name isGlobal isParam position before = .ok (operand, after)) :
    (isGlobal ∧ operand = .memory (.symbol name none) v.type.width ∧ after = before) ∨
      (isGlobal = false ∧ isParam ∧
        operand = .memory (StackFrame.parameterAddress position) StackFrame.slotSize ∧
        after = before) ∨
      (isGlobal = false ∧ isParam = false ∧
        ∃ frame address,
          before.frame.slot v.id name = .ok (frame, address) ∧
            operand = .memory address StackFrame.slotSize ∧
            after = { before with frame := frame }) := by
  unfold namedOperand at run
  split at run
  · exact (fail_ok_iff.mp run).elim
  · split at run
    · exact (fail_ok_iff.mp run).elim
    · cases isGlobal with
      | true =>
          obtain ⟨rfl, rfl⟩ := pure_ok_iff.mp run
          exact .inl ⟨rfl, rfl, rfl⟩
      | false =>
          simp only [Bool.false_eq_true, ↓reduceIte, slotOperand] at run
          cases isParam with
          | true =>
              obtain ⟨rfl, rfl⟩ := pure_ok_iff.mp run
              exact .inr (.inl ⟨rfl, rfl, rfl, rfl⟩)
          | false =>
              simp only [Bool.false_eq_true, ↓reduceIte] at run
              obtain ⟨_, _, got, later⟩ := bind_ok_iff.mp run
              obtain ⟨rfl, rfl⟩ := get_ok_iff.mp got
              cases placed : before.frame.slot v.id name with
              | error failure =>
                  simp only [placed] at later
                  exact (throw_ok_iff.mp later).elim
              | ok result =>
                  simp only [placed, bind_ok_iff, set_ok_iff] at later
                  obtain ⟨_, _, rfl, returned⟩ := later
                  obtain ⟨rfl, rfl⟩ := pure_ok_iff.mp returned
                  exact .inr (.inr ⟨rfl, rfl, result.1, result.2, rfl, rfl, rfl⟩)

end IlsCompiler.Emit
