import IlsCompiler.Assembly.Line
import IlsCompiler.Assembly.Pool
import IlsCompiler.Assembly.StackFrame
import IlsCompiler.Assembly.Data
import IlsCompiler.IR.Dump

namespace IlsCompiler

/-!
# Code for the nodes of a function

Inside a function, nodes become instructions. Named variables live in memory,
temporaries in registers from the first time they are touched, and the result of a
pending call comes into being when it is needed, which is when the call is made.
-/

/-- The function whose code is being made, and the calls made so far in the file. -/
structure FunctionCode where
  signature : Signature
  frame : StackFrame
  body : Body
  pool : Pool
  calls : List Nat
deriving Repr, Inhabited

/-- A step of making code: it adds to the function or fails. -/
abbrev Emit := StateT FunctionCode (Except Failure)

namespace Emit

/-- Fail with a fault on a line. -/
def fail (fault : EmissionFault) (line : Nat) : Emit α :=
  throw (fault.failure line)

/-- Append an instruction. -/
def ins (instruction : Instruction) : Emit Unit :=
  modify fun code => { code with body := code.body.add instruction }

/-- Load an operand into a register: 4-byte memory by sign, smaller memory by zeros. -/
def moveInto (reg : Reg) (source : Operand) : Emit Unit :=
  match source with
  | .register other 8 =>
      if other = reg then
        pure ()
      else
        ins (.mov (.whole reg) source)
  | .memory _ width =>
      if width = 4 then
        ins (.movsxd reg source)
      else if width < 4 then
        ins (.movzx reg source)
      else
        ins (.mov (.whole reg) source)
  | _ => ins (.mov (.whole reg) source)

/-- An operand that is memory or too wide goes through a register. -/
def settle (scratch : Reg) (mustMove : Bool) (operand : Operand) : Emit Operand := do
  if mustMove then
    moveInto scratch operand
    return .whole scratch
  else
    return operand

/-- The address of a local or parameter. -/
def slotOperand (id : VarId) (name : String) (isParam : Bool) (position : Nat) :
    Emit Operand := do
  if isParam then
    return .memory (StackFrame.parameterAddress position) StackFrame.slotSize
  else
    let code ← get
    match code.frame.slot id name with
    | .error failure => throw failure
    | .ok (frame, address) =>
        set { code with frame := frame }
        return .memory address StackFrame.slotSize

/-- The memory of a named variable; arrays and global strings have none. -/
def namedOperand (v : Variable) (name : String) (isGlobal isParam : Bool) (position : Nat) :
    Emit Operand := do
  if v.type.isArray then
    fail (.arrayValue name) 0
  else if isGlobal && v.type = .str then
    fail (.globalStringStorage name) 0
  else if isGlobal then
    return .memory (.symbol name none) v.type.width
  else
    slotOperand v.id name isParam position

/-- Take a register for a temporary. -/
def takeRegister (name : String) (v : Variable) : Emit Reg := do
  let code ← get
  match code.pool.assign v.id v.preserved with
  | .error shortage => fail (shortage.fault name) 0
  | .ok (pool, reg) =>
      set { code with pool := pool }
      return reg

/-- What was pushed around a call: the live registers and whether there is padding. -/
structure Saved where
  regs : List Reg
  padded : Bool
deriving DecidableEq, Repr

/-- Change the number of words pushed. -/
def countPushed (change : Nat → Nat) : Emit Unit :=
  modify fun code =>
    { code with frame := { code.frame with pushed := change code.frame.pushed } }

/-- Push an operand. -/
def push (operand : Operand) : Emit Unit := do
  ins (.push operand)
  countPushed (· + 1)

/-- Push the live registers, and pad the stack so that it is aligned behind the arguments. -/
def saveLive (arguments : Nat) : Emit Saved := do
  let live := (← get).pool.live
  live.forM fun reg => push (.whole reg)
  if ((← get).frame.pushed + arguments) % 2 = 0 then
    return { regs := live, padded := false }
  else
    ins (.sub (.whole .rsp) (.number StackFrame.slotSize))
    countPushed (· + 1)
    return { regs := live, padded := true }

/-- Drop the arguments of a call from the stack. -/
def dropArguments (arguments : Nat) : Emit Unit := do
  if arguments ≠ 0 then
    ins (.add (.whole .rsp) (.number (StackFrame.slotSize * arguments)))
    countPushed (· - arguments)

/-- Take the padding and the live registers back from the stack. -/
def restoreLive (saved : Saved) : Emit Unit := do
  if saved.padded then
    ins (.add (.whole .rsp) (.number StackFrame.slotSize))
    countPushed (· - 1)
  saved.regs.reverse.forM fun reg => do
    ins (.pop reg)
    countPushed (· - 1)

/-- The address of an element at a constant index. -/
def constantElement (array : String) (width : Nat) (index : String) : Emit Operand :=
  match Text.integer? 64 index with
  | none => fail (.indexText index) 0
  | some position =>
      if position = 0 then
        pure (.memory (.symbol array none) width)
      else
        pure (.memory (.symbol array (some (Text.wrap64 (position * width)))) width)

/-- The address of an element at an index that has been resolved. -/
def elementAt (array : String) (width : Nat) (scratch : Reg) (index : Operand) :
    Emit Operand := do
  match index with
  | .immediate text => constantElement array width text
  | .register reg _ => return .memory (.indexed array reg width) width
  | .memory _ _ =>
      moveInto scratch index
      return .memory (.indexed array scratch width) width

mutual

/--
The operand of a variable, following at most the given number of references. The
register is where the index of an element may be loaded.
-/
def resolve (listing : Listing) : Nat → VarId → Reg → Emit Operand
  | 0, id, _ => fail (.circularReference id) 0
  | depth + 1, id, scratch =>
      match listing.lookup? id with
      | none => fail .missingOperand 0
      | some v =>
          match v.storage with
          | .literal => pure (.immediate v.value.text)
          | .named name isGlobal isParam position _ =>
              namedOperand v name isGlobal isParam position
          | .temporary name _ => do
              let reg ← temporary listing depth v name
              return .whole reg
          | .element array index => element listing depth array index scratch
          | .result _ call => do
              userCall listing depth call
              return .whole Reg.returned
          | .array _ _ _ => fail (.arrayConstructor (listing.describe id)) 0

/-- The operand of a stored value. -/
def stored (listing : Listing) : Nat → Value → Emit Operand
  | 0, value => fail (.circularReference (value.reference?.getD 0)) 0
  | depth + 1, value =>
      match value with
      | .literal text => pure (.immediate text)
      | .reference id =>
          match listing.lookup? id with
          | none => fail (.unknownReference id) 0
          | some _ => resolve listing depth id Reg.sourceIndex

/-- The register of a temporary; its value is loaded the first time. -/
def temporary (listing : Listing) : Nat → Variable → String → Emit Reg
  | 0, v, _ => fail (.circularReference v.id) 0
  | depth + 1, v, name => do
      match (← get).pool.held? v.id with
      | some reg => return reg
      | none =>
          let source ← stored listing depth v.value
          let reg ← takeRegister name v
          moveInto reg source
          return reg

/-- The memory of an element. Only global arrays have storage. -/
def element (listing : Listing) : Nat → VarId → VarId → Reg → Emit Operand
  | 0, array, _, _ => fail (.circularReference array) 0
  | depth + 1, array, index, scratch =>
      match listing.lookup? array with
      | some { storage := .named name isGlobal _ _ _, type := type, .. } =>
          if isGlobal then do
            let position ← resolve listing depth index scratch
            elementAt name type.element.width scratch position
          else
            fail (.localArrayStorage name) 0
      | _ => fail .missingOperand 0

/--
Call a function: arguments are pushed from right to left and dropped by the caller.
A call whose result was already taken is not made twice.
-/
def userCall (listing : Listing) : Nat → Call → Emit Unit
  | 0, call => fail (.undeclaredFunction call.name) call.line
  | depth + 1, call => do
      if call.id ∈ (← get).calls then
        return ()
      modify fun code => { code with calls := code.calls ++ [call.id] }
      match call.function with
      | none => fail (.undeclaredFunction call.name) call.line
      | some function =>
          let given := call.arguments.length
          if given ≠ function.params.length then
            fail (.arity call.name function.params.length given) call.line
          let saved ← saveLive given
          call.arguments.reverse.forM fun id => do
            let operand ← resolve listing depth id Reg.sourceIndex
            push (← settle Reg.returned (operand.isNarrow || operand.isWide) operand)
          ins (.call call.name)
          dropArguments given
          restoreLive saved

end

/-- How many references can follow each other before one repeats. -/
def depth (listing : Listing) : Nat :=
  4 * (listing.vars.size + 2)

/-- Load a variable into a register. -/
def load (listing : Listing) (reg : Reg) (id : VarId) : Emit Unit := do
  let source ← resolve listing (depth listing) id Reg.sourceIndex
  moveInto reg source

/-- A variable as an operand beside a register: small memory and wide numbers are loaded first. -/
def operable (listing : Listing) (id : VarId) (scratch : Reg) : Emit Operand := do
  let operand ← resolve listing (depth listing) id scratch
  settle scratch (operand.isNarrow || operand.isWide) operand

/-- Write a register or constant into memory, of a register only the low bytes. -/
def store (target source : Operand) : Emit Unit :=
  match target, source with
  | .memory _ width, .register reg _ => ins (.mov target (.register reg width))
  | _, _ => ins (.mov target source)

/--
Write a value into a variable or an element of it. The value comes first, since
getting it may make a call that would overwrite an index already loaded.
-/
def storeValue (listing : Listing) (target : Variable) (selected : VarId) (value : Value) :
    Emit Unit := do
  let operand ← stored listing (depth listing) value
  let source ← settle Reg.returned (operand.isMemory || operand.isWide) operand
  match target.storage with
  | .named name isGlobal isParam position _ =>
      if selected = 0 then
        store (← namedOperand target name isGlobal isParam position) source
      else
        match listing.lookup? selected with
        | some { storage := .element array index, .. } =>
            store (← element listing (depth listing) array index Reg.targetIndex) source
        | _ => fail .missingOperand 0
  | _ => fail (.notAssignable (listing.describe target.id)) 0

/-- The code of a declaration. -/
def declare (listing : Listing) (id : VarId) : Emit Unit := do
  match listing.lookup? id with
  | none => pure ()
  | some v =>
      match v.storage with
      | .temporary name _ =>
          let _ ← temporary listing (depth listing) v name
      | .named name isGlobal isParam _ _ =>
          if isGlobal then
            fail (.globalInside name (← get).signature.name) 0
          else if !isParam then
            storeValue listing v 0 v.value
      | _ => pure ()

/-- The code of an assignment. -/
def assign (listing : Listing) (target : VarId) (value : Value) (selected : VarId) :
    Emit Unit := do
  match listing.lookup? target with
  | some v =>
      match v.storage with
      | .named _ _ _ _ _ => storeValue listing v selected value
      | _ => fail (.notAssignable (listing.describe target)) 0
  | none => fail (.notAssignable (listing.describe target)) 0

/-- The register of the result of an operation. -/
def resultRegister (listing : Listing) (result : VarId) : Emit Reg :=
  match listing.lookup? result with
  | some v =>
      match v.storage with
      | .temporary name _ => temporary listing (depth listing) v name
      | _ => fail .missingOperand 0
  | none => fail .missingOperand 0

/-- The code of a division, which leaves quotient and remainder in fixed registers. -/
def divide (listing : Listing) (target : Reg) (left right : VarId) (answer : Reg) :
    Emit Unit := do
  load listing .rax left
  load listing Reg.sourceIndex right
  ins .cqo
  ins (.idiv Reg.sourceIndex)
  ins (.mov (.whole target) (.whole answer))

/-- The code of an operation. -/
def arith (listing : Listing) (result left right : VarId) (op : ArithOp) : Emit Unit := do
  let target ← resultRegister listing result
  match op with
  | .div => divide listing target left right .rax
  | .mod => divide listing target left right Reg.remainder
  | _ =>
      load listing target left
      let operand ← operable listing right Reg.sourceIndex
      match op with
      | .add => ins (.add (.whole target) operand)
      | .sub => ins (.sub (.whole target) operand)
      | .mul => ins (.imul (.whole target) operand)
      | _ => fail (.unknownOperator op) 0

/-- Whether the left side of a comparison has to be loaded before it can be compared. -/
def mustLoadLeft (left right : Operand) : Bool :=
  left.isImmediate || (left.isMemory && right.isMemory) ||
    (left.isNarrow && !right.isImmediate)

/-- The code of a comparison. -/
def compare (listing : Listing) (left right : VarId) : Emit Unit := do
  let rightOperand ← operable listing right Reg.sourceIndex
  let operand ← resolve listing (depth listing) left Reg.targetIndex
  let leftOperand ← settle .rax (mustLoadLeft operand rightOperand) operand
  ins (.cmp leftOperand rightOperand)

/-- Print a value with the routine of the C library. -/
def print (listing : Listing) (argument : Variable) (newline : Bool) : Emit Unit := do
  match PrintFormat.nameFor? argument.type newline with
  | none => fail (.unprintable argument.type) 0
  | some format =>
      let saved ← saveLive 0
      ins (.mov (.whole .rdi) (.immediate format))
      load listing .rsi argument.id
      ins (.xor (.whole .rax) (.whole .rax))
      ins (.call PrintFormat.routine)
      restoreLive saved

/-- The number of the system call that ends the process. -/
def exitCall : Nat := 60

/-- End the process with an exit code. -/
def exit (listing : Listing) (code : VarId) : Emit Unit := do
  ins (.mov (.whole .rax) (.number exitCall))
  load listing .rdi code
  ins .syscall

/-- The code of a builtin call. -/
def builtinCall (listing : Listing) (call : Call) : Emit Unit := do
  match Builtin.ofName? call.name with
  | none => fail (.unknownBuiltin call.name) call.line
  | some builtin =>
      if call.arguments.length ≠ builtin.arity then
        fail (.arity (Builtin.sigil ++ builtin.name) builtin.arity call.arguments.length)
          call.line
      match (call.arguments.head?).bind listing.lookup? with
      | none => fail .missingOperand call.line
      | some argument =>
          if !builtin.accepts argument.type then
            fail (.builtinArgument builtin.name argument.type) call.line
          if builtin.name = "exit" then
            exit listing argument.id
          else
            print listing argument builtin.newline

/-- The code of a call. -/
def call (listing : Listing) (invoked : Call) : Emit Unit :=
  if invoked.builtin then
    builtinCall listing invoked
  else
    userCall listing (depth listing) invoked

/-- The code of a return: the value goes to its register. -/
def leave (listing : Listing) (value : VarId) : Emit Unit := do
  if (listing.lookup? value).isSome then
    load listing Reg.returned value

/-- The start of a function. Reserving its frame waits until its registers are known. -/
def prologue (locals : Nat) : Emit Unit := do
  ins (.push (.whole .rbp))
  ins (.mov (.whole .rbp) (.whole .rsp))
  modify fun code =>
    let (body, reserved) := code.body.reserve
    { code with body := body, frame := { code.frame with locals := locals, reserved := reserved } }

/-- The lines that reserve a frame and save registers. -/
def setup (size : Nat) (saved : List Reg) : List Line :=
  (if size = 0 then [] else [.instruction (.sub (.whole .rsp) (.number size))]) ++
    saved.map fun reg => .instruction (.push (.whole reg))

/-- The end of a function, and the reservation at its start. -/
def epilogue : Emit Unit := do
  let code ← get
  let saved := code.pool.touched
  let size := code.frame.size saved.length
  if code.signature.isVoid then
    ins (.xor (.whole .rax) (.whole .rax))
  if !saved.isEmpty then
    ins (.lea .rsp (.frame (-((size + StackFrame.slotSize * saved.length : Nat) : Int))))
    saved.reverse.forM fun reg => ins (.pop reg)
  ins (.mov (.whole .rsp) (.whole .rbp))
  ins (.pop .rbp)
  modify fun current =>
    { current with body := current.body.fill current.frame.reserved (setup size saved) }

/-- Run a step; a failure in it that has no line gets the given one. -/
def atLine (line : Nat) (step : Emit α) : Emit α :=
  fun code =>
    match step code with
    | .ok result => .ok result
    | .error failure => .error (failure.atLine line)

/-- The code of a node inside a function. -/
def node (listing : Listing) (step : Node) : Emit Unit := do
  match step with
  | .label name => modify fun code => { code with body := code.body.label name }
  | .entry function =>
      fail (.nestedFunction function.name (← get).signature.name) function.line
  | .prologue _ locals => prologue locals
  | .epilogue _ => epilogue
  | .openScope _ _ => pure ()
  | .closeScope _ _ _ => pure ()
  | .declare id line => atLine line (declare listing id)
  | .assign target value _ selected line => atLine line (assign listing target value selected)
  | .arith result left right op line => atLine line (arith listing result left right op)
  | .compare left right line => atLine line (compare listing left right)
  | .jump label condition => ins (.jump condition label)
  | .call invoked => atLine invoked.line (call listing invoked)
  | .leave value line => atLine line (leave listing value)
  | .destroy id => modify fun code => { code with pool := code.pool.release id }

end Emit

end IlsCompiler
