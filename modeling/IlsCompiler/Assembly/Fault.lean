import IlsCompiler.IR.Listing

namespace IlsCompiler

/-!
# Faults of emission

Everything that can be wrong with a node sequence when code is made from it.
-/

/-- Why no code can be made for a node. -/
inductive EmissionFault where
  | outsideFunction (node : String)
  | nestedFunction (name outer : String)
  | noEpilogue (function : String)
  | globalInside (name function : String)
  | duplicateGlobal (name : String)
  | globalString (name : String)
  | globalReference (name : String)
  | registerName (name : String)
  | duplicateSymbol (name : String)
  | noPreservedRegister (name : String)
  | noRegister (name : String)
  | noSlot (name function : String) (reserved : Nat)
  | arrayConstructor (name : String)
  | missingOperand
  | unknownReference (id : VarId)
  | circularReference (id : VarId)
  | arrayValue (name : String)
  | globalStringStorage (name : String)
  | localArrayStorage (name : String)
  | indexText (text : String)
  | notAssignable (name : String)
  | unknownOperator (op : ArithOp)
  | undeclaredFunction (name : String)
  | arity (name : String) (wanted given : Nat)
  | unknownBuiltin (name : String)
  | builtinArgument (name : String) (type : Ty)
  | unprintable (type : Ty)
deriving DecidableEq, Repr

namespace EmissionFault

/-- The code of an emission fault. -/
def code : EmissionFault → Code
  | .outsideFunction _ => .misplacedStatement
  | .nestedFunction _ _ => .misplacedStatement
  | .noEpilogue _ => .unresolvedOperand
  | .globalInside _ _ => .misplacedStatement
  | .duplicateGlobal _ => .duplicateGlobal
  | .globalString _ => .unsupportedFeature
  | .globalReference _ => .unsupportedFeature
  | .registerName _ => .unsupportedFeature
  | .duplicateSymbol _ => .duplicateLabel
  | .noPreservedRegister _ => .registerExhaustion
  | .noRegister _ => .registerExhaustion
  | .noSlot _ _ _ => .unresolvedOperand
  | .arrayConstructor _ => .invalidOperandType
  | .missingOperand => .unresolvedOperand
  | .unknownReference _ => .unresolvedOperand
  | .circularReference _ => .unresolvedOperand
  | .arrayValue _ => .invalidOperandType
  | .globalStringStorage _ => .unsupportedFeature
  | .localArrayStorage _ => .unsupportedFeature
  | .indexText _ => .invalidOperandType
  | .notAssignable _ => .invalidOperandType
  | .unknownOperator _ => .invalidOperandType
  | .undeclaredFunction _ => .undeclaredFunction
  | .arity _ _ _ => .arityMismatch
  | .unknownBuiltin _ => .unknownBuiltin
  | .builtinArgument _ _ => .invalidOperandType
  | .unprintable _ => .invalidOperandType

/-- The message of an emission fault. -/
def message : EmissionFault → String
  | .outsideFunction node => node ++ " outside of a function"
  | .nestedFunction name outer => "function " ++ name ++ " starts inside " ++ outer
  | .noEpilogue function => "function " ++ function ++ " has no epilogue"
  | .globalInside name function => "global " ++ name ++ " declared inside " ++ function
  | .duplicateGlobal name => "global " ++ name ++ " is declared twice"
  | .globalString name => "global " ++ name ++ ": strings can only live in locals"
  | .globalReference name => "global " ++ name ++ " must be initialized with a constant"
  | .registerName name =>
      Text.quote name ++ " is a register name and cannot be used as a symbol"
  | .duplicateSymbol name => "symbol " ++ Text.quote name ++ " is already defined"
  | .noPreservedRegister name => "no callee-saved register left for " ++ name
  | .noRegister name => "no register left for " ++ name
  | .noSlot name function reserved =>
      "no stack slot left for " ++ name ++ " in " ++ function ++ " (" ++ toString reserved ++
        " reserved)"
  | .arrayConstructor name => "array constructor " ++ name ++ " used as a value"
  | .missingOperand => "missing operand"
  | .unknownReference id => "reference to unknown variable #" ++ toString id
  | .circularReference id => "variable #" ++ toString id ++ " refers to itself"
  | .arrayValue name => "array " ++ name ++ " used as a value"
  | .globalStringStorage name => "global string " ++ name ++ " has no storage"
  | .localArrayStorage name => "local array " ++ name ++ " has no storage"
  | .indexText text => "array index " ++ Text.quote text ++ " is not a number"
  | .notAssignable name => "cannot assign to " ++ name
  | .unknownOperator op => "unknown arithmetic operator " ++ op.symbol
  | .undeclaredFunction name => "function " ++ Text.quote name ++ " is not declared"
  | .arity name wanted given =>
      name ++ " expects " ++ toString wanted ++ " arguments, got " ++ toString given
  | .unknownBuiltin name => "unknown builtin " ++ Builtin.sigil ++ name
  | .builtinArgument name type =>
      Builtin.sigil ++ name ++ " cannot take a " ++ type.name ++ " argument"
  | .unprintable type => "cannot print a " ++ type.name ++ " value"

/-- An emission fault on a line. -/
def failure (fault : EmissionFault) (line : Nat) : Failure :=
  .report fault.code line fault.message

end EmissionFault

end IlsCompiler
