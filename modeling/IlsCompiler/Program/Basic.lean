import IlsCompiler.Text.Bytes
import IlsCompiler.Ty
import IlsCompiler.Program.Operator

namespace IlsCompiler

/-!
# Program trees

The tree of statements and expressions that reading a source file gives and that
lowering consumes. Every node records the line it starts on.
-/

/--
A constant. Numbers, characters and truth values are written as decimal text,
strings by their contents.
-/
inductive Literal where
  | scalar (type : Ty) (text : String)
  | string (contents : Bytes)
deriving DecidableEq, Repr

/-- The type of a constant. -/
def Literal.type : Literal → Ty
  | .scalar type _ => type
  | .string _ => .str

/-- An expression; `missing` stands where one was left out. -/
inductive Expr where
  | missing
  | name (line : Nat) (name : String)
  | literal (line : Nat) (value : Literal)
  | binary (line : Nat) (op : ArithOp) (left right : Expr)
  | element (line : Nat) (array : String) (index : Expr)
  | array (line : Nat) (elements : List Expr)
  | call (line : Nat) (name : String) (builtin : Bool) (arguments : List Expr)
deriving Repr, Inhabited

/-- The line an expression starts on; a missing one has none. -/
def Expr.line : Expr → Nat
  | .missing => 0
  | .name line _ => line
  | .literal line _ => line
  | .binary line _ _ _ => line
  | .element line _ _ => line
  | .array line _ => line
  | .call line _ _ _ => line

/-- One term of a condition. Without a right side it tests its left side against one. -/
structure Comparison where
  line : Nat
  left : Expr
  op : Option CmpOp
  right : Option Expr
deriving Repr, Inhabited

/-- Terms joined from left to right; there is one join fewer than there are terms. -/
structure Condition where
  line : Nat
  terms : List Comparison
  joins : List Logic
deriving Repr, Inhabited

/-- A parameter of a function. -/
structure Param where
  line : Nat
  name : String
  type : Ty
deriving DecidableEq, Repr, Inhabited

mutual

/-- A statement. A body is a list of statements with the line of its opening brace. -/
inductive Stmt where
  | block (line : Nat) (body : List Stmt)
  | declare (line : Nat) (name : String) (type : Ty) (value : Option Expr)
  | function (line : Nat) (name : String) (params : List Param) (result : Ty)
      (bodyLine : Nat) (body : List Stmt)
  | assign (line : Nat) (name : String) (index : Option Expr) (value : Expr)
  | call (line : Nat) (callLine : Nat) (name : String) (builtin : Bool) (arguments : List Expr)
  | leave (line : Nat) (value : Option Expr)
  | choose (line : Nat) (condition : Option Condition) (bodyLine : Nat) (body : List Stmt)
      (next : Branch)
  | loop (line : Nat) (condition : Option Condition) (bodyLine : Nat) (body : List Stmt)
  | exit (line : Nat)

/-- What follows the first arm of a choice. -/
inductive Branch where
  | none
  | elif (line : Nat) (condition : Option Condition) (bodyLine : Nat) (body : List Stmt)
      (next : Branch)
  | otherwise (line : Nat) (bodyLine : Nat) (body : List Stmt)

end

instance : Inhabited Stmt := ⟨.exit 0⟩

instance : Inhabited Branch := ⟨.none⟩

/-- The line a statement starts on. -/
def Stmt.line : Stmt → Nat
  | .block line _ => line
  | .declare line _ _ _ => line
  | .function line _ _ _ _ _ => line
  | .assign line _ _ _ => line
  | .call line _ _ _ _ => line
  | .leave line _ => line
  | .choose line _ _ _ _ => line
  | .loop line _ _ _ => line
  | .exit line => line

/-- Whether some arm of a choice follows. -/
def Branch.exists : Branch → Bool
  | .none => false
  | _ => true

/-- The statements of one source file. -/
structure Program where
  file : String
  statements : List Stmt

/-!
## Induction over program trees

Trees have lists of trees in them. These are the principles that proofs about all trees
use, with a hypothesis for every part.
-/

/-- Induction over expressions, with the parts of a list as expressions of their own. -/
@[elab_as_elim] theorem Expr.inductionOn
    {motive : Expr → Prop}
    (expr : Expr)
    (missing : motive .missing)
    (name : ∀ line name, motive (.name line name))
    (literal : ∀ line value, motive (.literal line value))
    (binary : ∀ line op left right,
      motive left → motive right → motive (.binary line op left right))
    (element : ∀ line array index, motive index → motive (.element line array index))
    (array : ∀ line elements, (∀ part ∈ elements, motive part) → motive (.array line elements))
    (call : ∀ line name builtin arguments,
      (∀ part ∈ arguments, motive part) → motive (.call line name builtin arguments)) :
    motive expr := by
  refine @Expr.rec motive (fun parts => ∀ part ∈ parts, motive part)
    missing name literal binary element array call ?nil ?cons expr
  case nil => simp
  case cons =>
    intro first rest firstHolds restHolds
    simpa using ⟨firstHolds, restHolds⟩

/-- Induction over statements, the arms of choices and the bodies of scopes at once. -/
theorem Stmt.induction
    {motive : Stmt → Prop}
    {branchMotive : Branch → Prop}
    {bodyMotive : List Stmt → Prop}
    (block : ∀ line body, bodyMotive body → motive (.block line body))
    (declare : ∀ line name type value, motive (.declare line name type value))
    (function : ∀ line name params result bodyLine body, bodyMotive body →
      motive (.function line name params result bodyLine body))
    (assign : ∀ line name index value, motive (.assign line name index value))
    (call : ∀ line callLine name builtin arguments,
      motive (.call line callLine name builtin arguments))
    (leave : ∀ line value, motive (.leave line value))
    (choose : ∀ line condition bodyLine body next, bodyMotive body → branchMotive next →
      motive (.choose line condition bodyLine body next))
    (loop : ∀ line condition bodyLine body, bodyMotive body →
      motive (.loop line condition bodyLine body))
    (exit : ∀ line, motive (.exit line))
    (none : branchMotive .none)
    (elif : ∀ line condition bodyLine body next, bodyMotive body → branchMotive next →
      branchMotive (.elif line condition bodyLine body next))
    (otherwise : ∀ line bodyLine body, bodyMotive body →
      branchMotive (.otherwise line bodyLine body))
    (nil : bodyMotive [])
    (cons : ∀ first rest, motive first → bodyMotive rest → bodyMotive (first :: rest)) :
    (∀ statement, motive statement) ∧ (∀ branch, branchMotive branch) ∧
      ∀ body, bodyMotive body :=
  ⟨@Stmt.rec motive branchMotive bodyMotive block declare function assign call leave choose loop
      exit none elif otherwise nil cons,
    @Branch.rec motive branchMotive bodyMotive block declare function assign call leave choose
      loop exit none elif otherwise nil cons,
    @Stmt.rec_1 motive branchMotive bodyMotive block declare function assign call leave choose
      loop exit none elif otherwise nil cons⟩

end IlsCompiler
