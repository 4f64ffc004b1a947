namespace IlsCompiler

/-!
# Types

The closed set of value types, how they are spelled, and how wide each of them is
in the generated program.
-/

/--
A value type. `ident` marks a value that refers to another variable, `invalid` is
a type nobody resolved, and `absent` stands where no type was given at all.
-/
inductive Ty where
  | absent
  | invalid
  | int
  | str
  | char
  | bool
  | ident
  | void
  | array (element : Ty) (length : Int)
deriving DecidableEq, Repr, Inhabited

namespace Ty

/-- The spelling of a type. -/
def name : Ty → String
  | .absent => "<nil>"
  | .invalid => "invalid"
  | .int => "int"
  | .str => "str"
  | .char => "char"
  | .bool => "bool"
  | .ident => "ident"
  | .void => "void"
  | .array element length => element.name ++ "[" ++ toString length ++ "]"

/-- The type a type word names. -/
def ofWord? (word : String) : Option Ty :=
  match word with
  | "int" => some .int
  | "str" => some .str
  | "char" => some .char
  | "bool" => some .bool
  | "void" => some .void
  | _ => none

/-- Whether a type is an array. -/
def isArray : Ty → Bool
  | .array _ _ => true
  | _ => false

/-- The type of an array's elements; other types have none. -/
def element : Ty → Ty
  | .array element _ => element
  | _ => .absent

/-- The number of elements of an array; other types have none. -/
def length : Ty → Int
  | .array _ length => length
  | _ => 0

/--
The size in bytes of a value in the data section. Strings are stored as a pointer, and a
length below zero takes no space.
-/
def width : Ty → Nat
  | .char => 1
  | .bool => 1
  | .int => 4
  | .str => 8
  | .array element length => element.width * length.toNat
  | _ => 0

/-- The data directive for one item of the given width. -/
def directiveFor (width : Nat) : String :=
  match width with
  | 1 => "db"
  | 2 => "dw"
  | 4 => "dd"
  | _ => "dq"

/-- The size keyword for one item of the given width. -/
def qualifierFor (width : Nat) : String :=
  match width with
  | 1 => "byte"
  | 2 => "word"
  | 4 => "dword"
  | _ => "qword"

/-- The type of one item: an array stands for its innermost elements. -/
def item : Ty → Ty
  | .array element _ => element.item
  | type => type

/-- The data directive that declares one item of a type. -/
def directive (type : Ty) : String :=
  directiveFor type.item.width

/-- The size keyword of one item of a type. -/
def qualifier (type : Ty) : String :=
  qualifierFor type.item.width

/-- The constant a declaration without an initializer gets. -/
def defaultText : Ty → String
  | .array _ length => ", ".intercalate (List.replicate length.toNat "0")
  | .str => ""
  | _ => "0"

/-- Whether values of a type may be added, multiplied and so on. -/
def isArithmetic (type : Ty) : Bool :=
  type = .int || type = .char

end Ty

end IlsCompiler
