import IlsCompiler.Proofs.Assembly.FileSymbols
import IlsCompiler.Proofs.Assembly.Rules
import IlsCompiler.Proofs.Lowering.NameResolution
import IlsCompiler.Proofs.Lowering.ProgramTyping
import IlsCompiler.Proofs.Program.Folding

namespace IlsCompiler

/-!
# What code accesses in the data section

Wherever an instruction reads or writes memory behind a symbol, it was made for a global variable or
for an element of a global array. The operand for an element goes back to the variable of the
index: a constant index is turned into a distance, any other one is in a register.
-/

/-- A variable of a listing is an element of a global array with a name. -/
structure Listing.Selects (listing : Listing) (name : String) (array index : Variable) : Prop where
  element : ∃ id v arrayId indexId,
    listing.lookup? id = some v ∧ v.storage = .element arrayId indexId ∧
      listing.lookup? arrayId = some array ∧ listing.lookup? indexId = some index
  storage : ∃ isParam position scope, array.storage = .named name true isParam position scope

/-- The operands that the variables of a listing give rise to. -/
inductive Listing.Addresses (listing : Listing) : Operand → Prop
  | immediate (text : String) : Addresses listing (.immediate text)
  | register (reg : Reg) (width : Nat) : Addresses listing (.register reg width)
  | frame (offset : Int) (width : Nat) : Addresses listing (.memory (.frame offset) width)
  | global {id : VarId} {v : Variable} {name : String} {isParam : Bool} {position scope : Nat} :
      listing.lookup? id = some v → v.storage = .named name true isParam position scope →
        v.type.isArray = false → Addresses listing (.memory (.symbol name none) v.type.width)
  | constant {name : String} {array index : Variable} {number : Int} {offset : Option Int} :
      listing.Selects name array index → index.storage = .literal →
        Text.integer? 64 index.value.text = some number →
        offset.getD 0 = Text.wrap64 (number * array.type.element.width) →
        Addresses listing (.memory (.symbol name offset) array.type.element.width)
  | computed {name : String} {array index : Variable} (reg : Reg) :
      listing.Selects name array index → index.storage ≠ .literal →
        Addresses listing
          (.memory (.indexed name reg array.type.element.width) array.type.element.width)

/-- Whatever the instructions of a function read or write goes back to variables of a listing. -/
def FunctionCode.Accounted (listing : Listing) (code : FunctionCode) : Prop :=
  ∀ instruction, .instruction instruction ∈ code.body.lines.toList →
    ∀ operand ∈ instruction.operands, listing.Addresses operand

variable
    {position scope : Nat}
    {isParam : Bool}
    {name : String}
    {id : VarId}
    {operand : Operand}
    {array index : Variable}
    {v : Variable}

namespace Emit

open Stateful

/-- A step of making code adds operands that are accounted for only, and its result is as wanted. -/
def Accounts (listing : Listing) (wanted : α → Prop) (step : Emit α) : Prop :=
  ∀ ⦃before value after⦄, step before = .ok (value, after) → before.Accounted listing →
    after.Accounted listing ∧ wanted value

/-- What stands for a variable: a constant as it is, anything else in a register or in memory. -/
structure Resolved (listing : Listing) (id : VarId) (operand : Operand) : Prop where
  addresses : listing.Addresses operand
  located : ∃ v, listing.lookup? id = some v ∧
    if v.storage = .literal then operand = .immediate v.value.text else operand.isImmediate = false

variable
    {listing : Listing}
    {wanted : α → Prop}
    {step : Emit α}
    {instruction : Instruction}

section Sequencing

theorem accounts_pure
    {value : α}
    (isWanted : wanted value) :
    Accounts listing wanted (pure value : Emit α) := by
  intro before result after run accounted
  obtain ⟨rfl, rfl⟩ := pure_ok_iff.mp run
  exact ⟨accounted, isWanted⟩

theorem accounts_fail
    (fault : EmissionFault)
    (line : Nat) :
    Accounts listing wanted (fail fault line : Emit α) :=
  fun _ _ _ run => (fail_ok_iff.mp run).elim

theorem accounts_bind
    {between : α → Prop}
    {wanted : β → Prop}
    {next : α → Emit β}
    (first : Accounts listing between step)
    (second : ∀ value, between value → Accounts listing wanted (next value)) :
    Accounts listing wanted (step >>= next) := by
  intro before result after run accounted
  obtain ⟨value, middle, stepped, later⟩ := bind_ok_iff.mp run
  obtain ⟨still, isBetween⟩ := first stepped accounted
  exact second value isBetween later still

theorem accounts_get
    {next : FunctionCode → Emit α}
    (each : ∀ code, Accounts listing wanted (next code)) :
    Accounts listing wanted (get >>= next) := by
  intro before result after run accounted
  obtain ⟨_, _, got, later⟩ := bind_ok_iff.mp run
  obtain ⟨rfl, rfl⟩ := get_ok_iff.mp got
  exact each _ later accounted

/-- A step that leaves the lines alone. -/
theorem accounts_of_body
    (same : ∀ ⦃before value after⦄, step before = .ok (value, after) → after.body = before.body) :
    Accounts listing (fun _ => True) step :=
  fun _ _ _ run accounted => ⟨by
    unfold FunctionCode.Accounted
    rwa [same run], trivial⟩

/-- An instruction is issued whose operands are accounted for. -/
theorem accounts_ins
    (addressed : ∀ operand ∈ instruction.operands, listing.Addresses operand) :
    Accounts listing (fun _ => True) (ins instruction) := by
  intro before result after run accounted
  cases ins_ok_iff.mp run
  refine ⟨fun other member operand isOperand => ?_, trivial⟩
  rw [Body.lines_add, List.mem_append, List.mem_singleton] at member
  rcases member with isOld | isNew
  · refine accounted other ?_ operand isOperand
    rcases before.body.keptFor_cases instruction with same | ⟨last, dropped, _⟩
    · exact same ▸ isOld
    · exact dropped ▸ List.mem_append_left _ isOld
  · cases isNew
    exact addressed operand isOperand

end Sequencing

section Parts

theorem accounts_sequences :
    Sequences listing.Addresses fun _ wanted step => Accounts listing wanted step where
  register := .register
  immediate := .immediate
  pure := accounts_pure
  bind := accounts_bind
  read _ := accounts_get
  ins _ := accounts_ins
  countPushed _ := accounts_of_body fun _ _ _ run => by cases modify_ok_iff.mp run; rfl

/-- A named variable that has memory is a variable of the frame or a global one that is no array. -/
theorem accounts_namedOperand
    {isGlobal isParam : Bool}
    (found : listing.lookup? id = some v)
    (storage : v.storage = .named name isGlobal isParam position scope) :
    Accounts listing (fun operand => listing.Addresses operand ∧ operand.isImmediate = false)
      (namedOperand v name isGlobal isParam position) := by
  intro before operand after run accounted
  have noArray : v.type.isArray = false := by
    unfold namedOperand at run
    split at run
    · exact (fail_ok_iff.mp run).elim
    next noArray => simpa using noArray
  rcases namedOperand_cases run with
    ⟨rfl, rfl, rfl⟩ | ⟨_, _, rfl, rfl⟩ | ⟨_, _, frame, address, placed, rfl, rfl⟩
  · exact ⟨accounted, .global found storage noArray, rfl⟩
  · exact ⟨accounted, .frame _ _, rfl⟩
  · refine ⟨accounted, ?_, rfl⟩
    rcases slot_ok placed with ⟨number, _, _, rfl⟩ | ⟨_, _, _, rfl⟩ <;> exact .frame _ _

theorem accounts_takeRegister
    (name : String)
    (v : Variable) :
    Accounts listing (fun _ => True) (takeRegister name v) :=
  accounts_of_body fun _ _ _ run => by
    obtain ⟨_, _, rfl⟩ := takeRegister_ok run
    rfl

/-- The memory of an element: a constant index is a distance, any other one a register. -/
theorem accounts_elementAt
    {position : Operand}
    {indexId : VarId}
    (scratch : Reg)
    (selects : listing.Selects name array index)
    (found : listing.lookup? indexId = some index)
    (locates : Resolved listing indexId position) :
    Accounts listing (fun operand => listing.Addresses operand ∧ operand.isImmediate = false)
      (elementAt name array.type.element.width scratch position) := by
  obtain ⟨addressed, v, isIndex, form⟩ := locates
  cases found.symm.trans isIndex
  unfold elementAt
  cases position with
  | immediate text =>
      split at form
      next isLiteral =>
        cases form
        simp only [constantElement]
        split
        · exact accounts_fail _ _
        next number read =>
          split
          next zero =>
            refine accounts_pure ⟨.constant selects isLiteral read ?_, rfl⟩
            rw [zero, Int.zero_mul]
            rfl
          · exact accounts_pure ⟨.constant selects isLiteral read rfl, rfl⟩
      next => cases form
  | register reg bytes =>
      refine accounts_pure ⟨.computed reg selects fun isLiteral => ?_, rfl⟩
      rw [if_pos isLiteral] at form
      cases form
  | memory address bytes =>
      refine accounts_bind (accounts_sequences.moveInto scratch addressed) fun _ _ => ?_
      refine accounts_pure ⟨.computed scratch selects fun isLiteral => ?_, rfl⟩
      rw [if_pos isLiteral] at form
      cases form

end Parts

theorem selects_of_element
    {id arrayId indexId : VarId}
    (found : listing.lookup? id = some v)
    (storage : v.storage = .element arrayId indexId)
    (isArray : listing.lookup? arrayId = some array)
    (named : array.storage = .named name true isParam position scope)
    (isIndex : listing.lookup? indexId = some index) :
    listing.Selects name array index :=
  ⟨⟨id, v, arrayId, indexId, found, storage, isArray, isIndex⟩, isParam, position, scope, named⟩

/-- What instructions read or write is accounted for, and what stands for a variable is known. -/
def accounting (listing : Listing) : Rule where
  owned _ := True
  called _ := True
  placed _ := True
  fits := listing.Addresses
  isPlace operand := listing.Addresses operand ∧ operand.isImmediate = false
  located := Resolved listing
  has _ wanted step := Accounts listing wanted step

theorem accounting_lawful
    (listing : Listing) :
    (accounting listing).Lawful listing :=
  { accounts_sequences with
    leads := ⟨fun _ _ => trivial, fun _ _ _ _ => trivial, fun _ _ _ => trivial,
      fun _ _ _ => trivial⟩
    unplaced := trivial
    line := fun _ => trivial
    fail := fun _ _ => accounts_fail _ _
    calls := fun {depth call} _ resolves => by
      refine accounts_sequences.userCall (fun _ _ located => located.addresses)
        (fun _ => accounts_fail _ _) (accounts_ins (by simp [Instruction.operands])) (fun accounts => ?_)
        fun _ _ => resolves trivial
      refine accounts_get fun code => ?_
      split
      · exact accounts_pure trivial
      · refine accounts_bind (accounts_of_body fun _ _ _ run => ?_) fun _ _ => accounts
        cases modify_ok_iff.mp run
        rfl
    take := fun name _ _ => accounts_takeRegister name _
    whole := fun reg => ⟨.register _ _, rfl⟩
    placeFits := fun isPlace => isPlace.1
    constant := fun found storage => ⟨.immediate _, _, found, by rw [if_pos storage]⟩
    place := fun found storage isPlace => ⟨isPlace.1, _, found, by rw [if_neg storage]; exact isPlace.2⟩
    fitting := fun located => located.addresses
    named := accounts_namedOperand
    addressed := fun scratch found storage isArray named located => by
      obtain ⟨w, isIndex, _⟩ := located.located
      have selects := selects_of_element found storage isArray named isIndex
      exact accounts_elementAt scratch selects isIndex located }

section Nodes

/-- What fills a gap of a body is accounted for if it only saves registers in a frame. -/
theorem accounted_fill
    {code : FunctionCode}
    (accounted : code.Accounted listing)
    (size : Nat)
    (saved : List Reg) :
    FunctionCode.Accounted listing
      { code with body := code.body.fill code.frame.reserved (setup size saved) } := by
  intro instruction member operand isOperand
  simp only [Body.fill, Array.toList_append, List.mem_append, Array.take_eq_extract,
    Array.drop_eq_extract, Array.toList_extract, List.extract_eq_take_drop] at member
  rcases member with (inFront | isNew) | behind
  · exact accounted instruction (List.mem_of_mem_drop (List.mem_of_mem_take inFront)) operand isOperand
  · simp only [setup, List.mem_append, List.mem_map] at isNew
    rcases isNew with reserves | ⟨reg, _, saves⟩
    · split at reserves
      · cases reserves
      · cases List.mem_singleton.mp reserves
        simp only [Instruction.operands, List.mem_cons, List.not_mem_nil, or_false] at isOperand
        rcases isOperand with rfl | rfl
        · exact .register _ _
        · exact .immediate _
    · cases saves
      cases List.mem_singleton.mp isOperand
      exact .register _ _
  · exact accounted instruction (List.mem_of_mem_drop (List.mem_of_mem_take behind)) operand isOperand

theorem accounts_node
    (step : Node) :
    Accounts listing (fun _ => True) (node listing step) := by
  have lawful := accounting_lawful listing
  refine lawful.node lawful.toSequences (accounts_ins (by simp [Instruction.operands]))
    ⟨fun _ _ => trivial, fun _ _ _ _ => trivial, fun _ _ => trivial⟩ (fun _ _ => trivial)
    (fun _ accounts _ _ _ run => accounts (atLine_ok_iff.mp run)) (fun _ => accounts_fail _ _)
    fun adjusts before done after run accounted => ?_
  cases modify_ok_iff.mp run
  refine ⟨?_, trivial⟩
  cases adjusts with
  | label name =>
      exact fun instruction member => accounted instruction (by simpa [Body.label] using member)
  | release id => exact accounted
  | reserve locals =>
      exact fun instruction member => accounted instruction (by simpa [Body.reserve] using member)
  | fill size saved => exact accounted_fill accounted size saved

end Nodes

end Emit

namespace AssemblyFile

variable
    {listing : Listing}
    {file final : AssemblyFile}

theorem step_accounted
    {node : Node}
    (stepped : file.step listing node = .ok final)
    (accounted : ∀ code, file.current = some code → code.Accounted listing) :
    ∀ code, final.current = some code → code.Accounted listing := by
  intro code isOpen
  unfold step at stepped
  split at stepped
  next outside =>
    split at stepped
    next function =>
      cases (openFunction_ok_iff.mp stepped).2
      cases isOpen
      intro instruction member
      simp [FunctionCode.opened, Body.raw, Body.empty] at member
    next id line =>
      rw [(addGlobal_ok stepped).2.2, outside] at isOpen
      cases isOpen
    next => cases stepped
  next before inside =>
    split at stepped
    next =>
      cases stepped
      cases isOpen
    next =>
      split at stepped
      next => cases stepped
      next after run =>
        cases stepped
        cases isOpen
        exact (Emit.accounts_node _ run (accounted before inside)).1

variable
    {nodes : List Node}

/-- While a file takes nodes, the code of the open function is accounted for. -/
theorem takes_accounted
    (taken : Takes listing nodes file final)
    (accounted : ∀ code, file.current = some code → code.Accounted listing) :
    ∀ code, final.current = some code → code.Accounted listing := by
  induction nodes generalizing file with
  | nil =>
      cases taken
      exact accounted
  | cons node rest inductionHypothesis =>
      obtain ⟨between, one, others⟩ := taken
      exact inductionHypothesis others (step_accounted one accounted)

/-- The entry of a global variable is made of its name, its type and its constant. -/
theorem addGlobal_entry
    {line : Nat}
    (added : file.addGlobal listing id line = .ok final) :
    ∃ v name isParam position scope text,
      listing.lookup? id = some v ∧ v.storage = .named name true isParam position scope ∧
        v.value = .literal text ∧ final.data = file.data ++ [.ofGlobal name v.type text] := by
  unfold addGlobal at added
  split at added
  next number type value _ _ name isParam position scope found =>
    split at added
    · cases added
    · split at added
      · cases added
      · split at added
        · cases added
        next text =>
          cases declared : file.declareSymbol name line with
          | error failure => simp [declared, bind, Except.bind] at added
          | ok named =>
              rw [declared] at added
              obtain ⟨_, rfl⟩ := declareSymbol_ok_iff.mp declared
              cases added
              exact ⟨_, name, isParam, position, scope, text, found, rfl, rfl, rfl⟩
  · cases added

/-- Every global variable that is declared has its entry. -/
theorem takes_entries
    (declares : ∀ node ∈ nodes, ∃ id line, node = .declare id line)
    (outside : file.current = none)
    (taken : Takes listing nodes file final) :
    (∀ entry ∈ file.data, entry ∈ final.data) ∧
      ∀ id line, .declare id line ∈ nodes →
        ∃ v name isParam position scope text,
          listing.lookup? id = some v ∧ v.storage = .named name true isParam position scope ∧
            v.value = .literal text ∧ .ofGlobal name v.type text ∈ final.data := by
  induction nodes generalizing file with
  | nil =>
      cases taken
      exact ⟨fun _ member => member, nofun⟩
  | cons node rest inductionHypothesis =>
      obtain ⟨between, one, others⟩ := taken
      obtain ⟨id, line, rfl⟩ := declares node List.mem_cons_self
      have added : file.addGlobal listing id line = .ok between := by
        rw [← one]
        simp [step, outside]
      obtain ⟨v, name, isParam, position, scope, text, found, storage, isValue, data⟩ :=
        addGlobal_entry added
      obtain ⟨kept, each⟩ := inductionHypothesis
        (fun other member => declares other (List.mem_cons_of_mem _ member))
        ((addGlobal_ok added).2.2.trans outside) others
      refine ⟨fun entry member => kept entry (data ▸ List.mem_append_left _ member), ?_⟩
      intro other otherLine member
      rcases List.mem_cons.mp member with isFirst | inRest
      · cases isFirst
        exact ⟨v, name, isParam, position, scope, text, found, storage, isValue,
          kept _ (data ▸ List.mem_append_right _ (List.mem_singleton.mpr rfl))⟩
      · exact each other otherLine inRest

end AssemblyFile

/-!
## Arrays

The entry of an array defines as many elements as the array is long, and an element at a constant
index lies between them.
-/

/--
A line of the data section for an array: all elements are zero and only counted, or each of them is
written out.
-/
def IsArrayLine (name : String) (element : Ty) (length : Int) (line : String) : Prop :=
  line = name ++ " times " ++ toString length ++ " " ++ Ty.directiveFor element.width ++ " 0" ∨
    ∃ items : List String,
      (items.length : Int) = length ∧ (∀ item ∈ items, (Text.integer? 32 item).isSome) ∧
        line = name ++ " " ++ Ty.directiveFor element.width ++ " " ++ ", ".intercalate items

/-- The symbol of the data section that an operand is in memory behind. -/
def Operand.symbol? : Operand → Option String
  | .memory (.symbol name _) _ => some name
  | .memory (.indexed name _ _) _ => some name
  | _ => none

/--
An operand is an element of an array of a listing. A constant index is a distance that stays inside of
the array, and any other one is in a register.
-/
inductive Operand.IsElement (listing : Listing) (name : String) (element : Ty) (length : Int) :
    Operand → Prop
  | constant {array index : Variable} {number : Int} {offset : Option Int} :
      listing.Selects name array index → index.storage = .literal →
        Text.integer? 64 index.value.text = some number →
        offset.getD 0 = number * element.width → 0 ≤ offset.getD 0 →
        offset.getD 0 + element.width ≤ length * element.width →
        IsElement listing name element length (.memory (.symbol name offset) element.width)
  | computed {array index : Variable} (reg : Reg) :
      listing.Selects name array index → index.storage ≠ .literal →
        element.width = 1 ∨ element.width = 4 →
        IsElement listing name element length (.memory (.indexed name reg element.width) element.width)

variable
    {type : Ty}
    {strings : StringTable}
    {text : String}

namespace Ty

theorem IsItem.width
    (isItem : type.IsItem) :
    type.width = 1 ∨ type.width = 4 := by
  rcases isItem with rfl | rfl | rfl
  · exact .inr rfl
  · exact .inl rfl
  · exact .inl rfl

theorem IsItem.item
    (isItem : type.IsItem) :
    type.item = type := by
  rcases isItem with rfl | rfl | rfl <;> rfl

/-- A constant of a type of items is a number of 32 bits. -/
theorem IsItem.integer?_of_spells
    (isItem : type.IsItem)
    (spells : type.Spells strings text) :
    (Text.integer? 32 text).isSome := by
  rcases isItem with rfl | rfl | rfl
  · exact spells
  · exact spells
  · rcases spells with rfl | rfl <;> decide

end Ty

variable
    {length : Int}

/-- The entry of a global array defines the elements of the array. -/
theorem DataEntry.isArrayLine_ofGlobal
    {element : Ty}
    (isItem : element.IsItem)
    (positive : 0 < length)
    (spells : Ty.Spells strings (.array element length) text) :
    IsArrayLine name element length (DataEntry.ofGlobal name (.array element length) text).text := by
  have written : ∃ items : List String,
      (items.length : Int) = length ∧ (∀ item ∈ items, (Text.integer? 32 item).isSome) ∧
        (DataEntry.ofGlobal name (.array element length) text).init = ", ".intercalate items := by
    unfold DataEntry.ofGlobal
    dsimp only
    split
    · obtain ⟨items, isText, isLength, each⟩ :=
        @Ty.spells_default (.array element length) ⟨isItem, positive⟩ nofun strings
      exact ⟨items, isLength, fun item member => isItem.integer?_of_spells (each item member), isText⟩
    · obtain ⟨items, isText, isLength, each⟩ := spells
      exact ⟨items, isLength, fun item member => isItem.integer?_of_spells (each item member), isText⟩
  obtain ⟨items, isLength, each, isInit⟩ := written
  have directive : Ty.directive (.array element length) = Ty.directiveFor element.width := by
    rw [Ty.directive, Ty.item, isItem.item]
  have times : (ofGlobal name (.array element length) text).times = length ∨
      (ofGlobal name (.array element length) text).times = 0 := by
    unfold ofGlobal
    dsimp only
    generalize (if text = "" then _ else text) = init
    split
    · exact .inl rfl
    · exact .inr rfl
  unfold DataEntry.text
  split
  next isCounted =>
    have same := times.resolve_right (Int.ne_of_gt isCounted)
    refine .inl ?_
    rw [same, ← directive]
    rfl
  next => exact .inr ⟨items, isLength, each, by rw [isInit, ← directive]; rfl⟩

namespace Text

/-- A number of 32 bits is also one of 64 bits. -/
theorem integer?_of_word
    {number : Int}
    (isNumber : (Text.integer? 32 text).isSome)
    (read : Text.integer? 64 text = some number) :
    fits 32 number := by
  unfold Text.integer? at isNumber read
  split at read
  next value same =>
    rw [same] at isNumber
    split at read
    · cases read
      by_contra outside
      simp [outside] at isNumber
    · cases read
  next => cases read

end Text

/-- The name under which a global variable is declared. -/
theorem Listing.globalName?_of_lookup?
    {listing : Listing}
    {position scope line : Nat}
    (found : listing.lookup? id = some v)
    (storage : v.storage = .named name true isParam position scope) :
    listing.globalName? (.declare id line) = some name := by
  simp only [globalName?, fixed?, found, Option.map_some, Option.bind_some, Variable.fixed, storage]
  cases isParam <;> rfl

namespace Lower

open LoweringState AssemblyFile

section Arrays

variable
    {program : Program}
    {listing : Listing}
    {declared last : LoweringState}
    {parts : List FunctionSection}
    {known : Nat → Prop}
    {name : String}
    {id : VarId}
    {v : Variable}

/-- A global variable of a program is declared in front of the functions. -/
theorem Row.declares_global
    (row : Row program listing declared last parts)
    (sound : listing.Sound known)
    (found : listing.lookup? id = some v)
    (storage : v.storage = .named name true isParam position scope) :
    ∃ line, .declare id line ∈ declared.listing.nodes.toList := by
  have isFixed : listing.fixed? id = some v.fixed := by simp [Listing.fixed?, found]
  have anchored := sound.anchored id v.fixed isFixed
  have number := sound.numbered id v.fixed isFixed
  obtain ⟨place, fixedStorage⟩ :
      ∃ place, v.fixed.storage = .named name true isParam position place := by
    rw [Variable.fixed, storage]
    cases isParam <;> exact ⟨_, rfl⟩
  simp only [Variable.Anchored, fixedStorage, number, forall_true_left] at anchored
  obtain ⟨line, member⟩ := anchored
  rw [row.nodes_eq] at member
  rcases List.mem_append.mp member with inFront | inParts
  · exact ⟨line, inFront⟩
  · obtain ⟨part, isPart, isNode⟩ := List.mem_flatMap.mp inParts
    have formed := row.laid.forms row.ready.grounded part isPart _ isNode
    rw [← row.listing_eq] at formed
    obtain ⟨w, isFound, isLocal⟩ := formed
    cases isFixed.symm.trans isFound
    simp [Variable.needsDestroy, fixedStorage] at isLocal

/-- No two global variables have the same name. -/
theorem Row.global_unique
    (row : Row program listing declared last parts)
    (sound : listing.Sound known)
    {other : VarId}
    {w : Variable}
    {isParam isOtherParam : Bool}
    {position scope otherPosition otherScope : Nat}
    (found : listing.lookup? id = some v)
    (storage : v.storage = .named name true isParam position scope)
    (otherFound : listing.lookup? other = some w)
    (otherStorage : w.storage = .named name true isOtherParam otherPosition otherScope) :
    v = w := by
  obtain ⟨line, member⟩ := row.declares_global sound found storage
  obtain ⟨otherLine, otherMember⟩ := row.declares_global sound otherFound otherStorage
  have grown : declared.listing.Extends listing := row.listing_eq ▸ row.laid.extends_
  have declares := row.ready.declaresGlobals
  have names := globalNames_grown declares grown
  have distinct : (declared.listing.nodes.toList.map listing.globalName?).Nodup := by
    have apart := List.Nodup.map (fun _ _ => Option.some.inj) declares.distinct
    rwa [List.map_map, Function.comp_def, ← names] at apart
  have same := List.inj_on_of_nodup_map distinct member otherMember (by
    rw [Listing.globalName?_of_lookup? found storage,
      Listing.globalName?_of_lookup? otherFound otherStorage])
  cases same
  exact Option.some.inj (found.symm.trans otherFound)

/-- The first declaration of a name gives a global variable with its type. -/
theorem Row.first_global
    (row : Row program listing declared last parts)
    {front rest : List Stmt}
    {line : Nat}
    {initial : Option Expr}
    (split : program.statements = front ++ .declare line name type initial :: rest)
    (isFirst : name ∉ declaredNames front) :
    ∃ id v, listing.lookup? id = some v ∧ v.storage = .named name true false 0 0 ∧ v.type = type := by
  obtain ⟨globals, globalsLowered, functionsLowered⟩ := row.ready.reached
  rw [split] at globalsLowered
  obtain ⟨reached, lead, later⟩ := moduleVariables_append_ok globalsLowered
  rw [moduleVariables] at later
  obtain ⟨_, behind, adds, others⟩ := Stateful.bind_ok_iff.mp later
  have grounded := moduleVariables_grounded (grounded_start program.file) lead
  rcases declare_module_ok grounded.isOutermost adds with
    ⟨isKnown, _⟩ | ⟨_, stored, between, constantFound, rfl⟩
  · have isOld := (moduleVariables_known (grounded_start program.file) rfl lead name).mp isKnown
    exact (isFirst isOld).elim
  · obtain ⟨scopes, frames⟩ := constant_scopes constantFound
    have isOutermost : between.scope = 0 := by
      rw [LoweringState.scope, frames, grounded.frames]
      rfl
    obtain ⟨v, found, storage, _, isType⟩ := fixed?_withGlobal between name type stored line
    have grown : (between.withGlobal name type stored line).listing.Extends listing := by
      rw [row.listing_eq]
      exact ((moduleVariables_proceeds others).extends_.trans
        (moduleFunctions_ok functionsLowered).1.extends_).trans row.laid.extends_
    obtain ⟨w, isFound, rfl⟩ := Listing.lookup?_of_fixed? (grown.fixed?_of found)
    refine ⟨_, w, isFound, ?_, isType⟩
    rw [isOutermost] at storage
    rcases w.storage.fixed_cases with same | ⟨_, _, _, _, isStorage, isFixed⟩
    · exact same.symm.trans storage
    · rw [Variable.fixed, isFixed] at storage
      cases storage

/-- A constant index of an element is a number that lies inside of the array. -/
theorem constant_inside
    (sound : listing.Sound known)
    {element : Ty}
    {length number : Int}
    (selects : listing.Selects name array index)
    (isType : array.type = .array element length)
    (isLiteral : index.storage = .literal)
    (read : Text.integer? 64 index.value.text = some number) :
    Text.fits 32 number ∧ 0 ≤ number ∧ number < length := by
  obtain ⟨id, v, arrayId, indexId, found, storage, isArray, isIndex⟩ := selects.element
  have isPlace : listing.fixed? id = some v.fixed := by simp [Listing.fixed?, found]
  have isFixed : listing.fixed? indexId = some index.fixed := by simp [Listing.fixed?, isIndex]
  have arrayFixed : listing.fixed? arrayId = some array.fixed := by simp [Listing.fixed?, isArray]
  have anchored := sound.anchored id v.fixed isPlace
  have typed := sound.typed indexId index.fixed isFixed
  simp only [Variable.Anchored, Variable.fixed, storage, Storage.fixed] at anchored
  obtain ⟨a, i, aFound, iFound, inside⟩ := anchored
  cases arrayFixed.symm.trans aFound
  cases isFixed.symm.trans iFound
  simp only [Variable.fixed, isLiteral, Storage.fixed, forall_true_left, isType, Ty.length] at inside
  simp only [Variable.Typed, Variable.fixed, isLiteral, Storage.fixed] at typed
  obtain ⟨isNumber, inRange⟩ := inside
  obtain ⟨_, text, isText, spells⟩ := typed
  have isItem : index.type.IsItem := by
    simp only [Ty.isArithmetic, Bool.or_eq_true, decide_eq_true_eq] at isNumber
    exact isNumber.imp_right .inl
  have isWord := isItem.integer?_of_spells spells
  rw [isText, Value.text] at read inRange
  refine ⟨Text.integer?_of_word isWord read, ?_⟩
  simpa [indexOutside, read] using inRange

/-- Whatever code accesses behind the name of an array is an element of the array. -/
theorem Row.isElement_of_addresses
    (row : Row program listing declared last parts)
    (sound : listing.Sound known)
    {element : Ty}
    (found : listing.lookup? id = some v)
    (storage : v.storage = .named name true isParam position scope)
    (isType : v.type = .array element length)
    (isItem : element.IsItem)
    (addressed : listing.Addresses operand)
    (named : operand.symbol? = some name) :
    operand.IsElement listing name element length := by
  cases addressed with
  | immediate => cases named
  | register => cases named
  | frame => cases named
  | global otherFound otherStorage noArray =>
      cases named
      cases row.global_unique sound found storage otherFound otherStorage
      rw [isType] at noArray
      cases noArray
  | @constant _ array index number offset selects isLiteral read isOffset =>
      cases named
      obtain ⟨_, _, _, otherStorage⟩ := selects.storage
      obtain ⟨_, _, _, _, _, _, isArray, _⟩ := selects.element
      cases row.global_unique sound found storage isArray otherStorage
      obtain ⟨isWord, positive, inside⟩ := constant_inside sound selects isType isLiteral read
      have sameWidth : v.type.element = element := by rw [isType, Ty.element]
      rw [sameWidth] at isOffset ⊢
      have exact_ : offset.getD 0 = number * element.width := by
        rw [isOffset]
        simp only [Text.fits, Nat.pow_eq, Bool.and_eq_true, decide_eq_true_eq] at isWord
        refine Expr.wrap64_of_bounded ?_
        rcases isItem.width with width | width <;> rw [width] <;> omega
      refine .constant selects isLiteral read exact_ ?_ ?_ <;> rw [exact_]
      · exact Int.mul_nonneg positive (Int.natCast_nonneg _)
      · calc number * element.width + element.width = (number + 1) * element.width := by
              rw [Int.add_mul, Int.one_mul]
          _ ≤ length * element.width :=
              Int.mul_le_mul_of_nonneg_right inside (Int.natCast_nonneg _)
  | @computed _ array index reg selects isComputed =>
      cases named
      obtain ⟨_, _, _, otherStorage⟩ := selects.storage
      obtain ⟨_, _, _, _, _, _, isArray, _⟩ := selects.element
      cases row.global_unique sound found storage isArray otherStorage
      have sameWidth : v.type.element = element := by rw [isType, Ty.element]
      rw [sameWidth]
      exact .computed reg selects isComputed isItem.width

/-- An array has one entry, which defines its elements. -/
theorem Row.entry_of_array
    (row : Row program listing declared last parts)
    (sound : listing.Sound known)
    {globals : AssemblyFile}
    (taken : Takes listing declared.listing.nodes.toList (.start listing) globals)
    {element : Ty}
    (found : listing.lookup? id = some v)
    (storage : v.storage = .named name true false position scope)
    (isType : v.type = .array element length) :
    element.IsItem ∧ ∃ before entry after,
      globals.data = before ++ entry :: after ∧ entry.name = name ∧
        IsArrayLine name element length entry.text ∧
        ∀ other ∈ before ++ after, other.name ≠ name := by
  have typed := sound.typed id v.fixed (by simp [Listing.fixed?, found])
  simp only [Variable.Typed, Variable.fixed, storage, Storage.fixed, isType, forall_true_left] at typed
  obtain ⟨⟨isItem, positive⟩, stores, _⟩ := typed
  obtain ⟨line, member⟩ := row.declares_global sound found storage
  have declares : ∀ node ∈ declared.listing.nodes.toList, ∃ id line, node = .declare id line := by
    intro node inFront
    have kind := row.ready.globals node inFront
    cases node with
    | declare id line => exact ⟨id, line, rfl⟩
    | _ => cases kind
  obtain ⟨_, each⟩ := takes_entries declares rfl taken
  obtain ⟨w, other, isParam, _, _, text, isFound, isGlobal, isValue, isEntry⟩ := each id line member
  cases found.symm.trans isFound
  cases storage.symm.trans isGlobal
  rw [isValue] at stores
  rw [isType] at isEntry
  obtain ⟨before, after, data⟩ := List.append_of_mem isEntry
  obtain ⟨distinct, _⟩ := row.globals_distinct taken
  have apart := (List.nodup_append.mp (distinct.symbols ▸ distinct.nodup)).2.1
  rw [data, List.map_append, List.map_cons, List.nodup_middle, List.nodup_cons,
    ← List.map_append] at apart
  refine ⟨isItem, before, _, after, data, rfl,
    DataEntry.isArrayLine_ofGlobal isItem positive stores, fun entry isOther same => ?_⟩
  exact apart.1 (List.mem_map.mpr ⟨entry, isOther, same⟩)

end Arrays

/--
Accesses to arrays stay inside of them. The entry of an array defines as many elements as it is long,
and it is the only one with the name. At any time while a file takes the nodes of a listing, what the
code accesses behind that name is an element: with a constant index it lies between the first and
the last one.
-/
theorem array_accesses_stay_inside
    (file : String)
    (source : Bytes)
    {listing : Listing}
    {pruned : Pruned}
    {text : String}
    (isRead : (Reading.ofSource file source).problem = none)
    (lowered : (Reading.ofSource file source).program.lower = .ok listing)
    (choice : pruned = .whole listing ∨ pruned = .ofListing listing)
    (emitted : listing.emit pruned.nodes = .ok text) :
    ∃ final : AssemblyFile,
      Takes listing pruned.nodes (.start listing) final ∧ text = final.text listing ∧
        ∀ ⦃front rest line name element length initial⦄,
          (Reading.ofSource file source).program.statements =
              front ++ .declare line name (.array element length) initial :: rest →
            name ∉ declaredNames front →
              (∃ before entry after,
                final.data = before ++ entry :: after ∧ entry.name = name ∧
                  IsArrayLine name element length entry.text ∧
                  ∀ other ∈ before ++ after, other.name ≠ name) ∧
              ∀ ⦃nodes others reached code⦄,
                pruned.nodes = nodes ++ others → Takes listing nodes (.start listing) reached →
                  reached.current = some code →
                    ∀ instruction, .instruction instruction ∈ code.body.lines.toList →
                      ∀ operand ∈ instruction.operands, operand.symbol? = some name →
                        operand.IsElement listing name element length := by
  have outcome := Reading.ofSource_outcome file source
  rw [isRead] at outcome
  obtain ⟨written, lines⟩ := Reading.tree_of_whole outcome
  obtain ⟨sound, _⟩ := lower_sound written lines lowered
  obtain ⟨declared, last, parts, row⟩ := lower_row lowered
  obtain ⟨final, taken, isText⟩ := takes_of_emit emitted
  have functions := taken
  rw [row.pruned choice] at functions
  obtain ⟨globals, globalsTaken, functions⟩ := takes_append_iff.mp functions
  obtain ⟨_, _, rfl⟩ := (row.takes_sections_iff globalsTaken _).mp functions
  obtain ⟨_, data, _⟩ := closedAll_eq listing globals
    (parts.filter fun part => !pruned.removed.contains part.name)
  obtain ⟨distinct, names⟩ := row.globals_distinct globalsTaken
  refine ⟨_, taken, isText, fun front rest line name element length initial split isFirst => ?_⟩
  obtain ⟨id, v, found, storage, isType⟩ := row.first_global split isFirst
  obtain ⟨isItem, entry⟩ := row.entry_of_array sound globalsTaken found storage isType
  rw [← data] at entry
  refine ⟨entry, fun nodes others reached code _ frontTaken isOpen instruction member operand
    isOperand named => ?_⟩
  have accounted := takes_accounted frontTaken (by simp [AssemblyFile.start]) code isOpen
  exact row.isElement_of_addresses sound found storage isType isItem
    (accounted instruction member operand isOperand) named

/-- The name and the type of the variable that a statement declares. -/
def declaredName? : Stmt → Option (String × Ty)
  | .declare _ name type _ => some (name, type)
  | _ => none

/-- A text that accesses an array of integers and one of characters, at constant and other indices. -/
def accessingSource : Bytes :=
  Bytes.ofString ("a: int[3] = [7, 0, 9]; c: char[2]; " ++
    "fn main() { i: int = 1; a[1 + 1] = a[i]; c[1] = a[0]; }")

theorem accessingSource_inside :
    ∃ listing text,
      (Reading.ofSource "t.ils" accessingSource).problem = none ∧
        (Reading.ofSource "t.ils" accessingSource).program.lower = .ok listing ∧
        listing.emit (Pruned.whole listing).nodes = .ok text ∧
        ∃ final : AssemblyFile,
          Takes listing (Pruned.whole listing).nodes (.start listing) final ∧
            text = final.text listing ∧
            ∃ entry ∈ final.data, entry.name = "a" ∧ IsArrayLine "a" .int 3 entry.text := by
  have accepted : (Reading.ofSource "t.ils" accessingSource).problem.isNone ∧
      (Reading.ofSource "t.ils" accessingSource).program.statements.head?.bind declaredName? =
        some ("a", .array .int 3) ∧
      ((Reading.ofSource "t.ils" accessingSource).program.lower.toOption.map fun listing =>
        (listing.emit (Pruned.whole listing).nodes).toBool) = some true := by
    decide +kernel
  obtain ⟨isRead, isFirst, isEmitted⟩ := accepted
  cases lowered : (Reading.ofSource "t.ils" accessingSource).program.lower with
  | error failure => simp [lowered, Except.toOption] at isEmitted
  | ok listing =>
      cases emitted : listing.emit (Pruned.whole listing).nodes with
      | error failure => simp [lowered, emitted, Except.toOption, Except.toBool] at isEmitted
      | ok text =>
          obtain ⟨final, taken, isText, each⟩ := array_accesses_stay_inside "t.ils" accessingSource
            (Option.isNone_iff_eq_none.mp isRead) lowered (.inl rfl) emitted
          refine ⟨listing, text, Option.isNone_iff_eq_none.mp isRead, rfl, emitted, final, taken,
            isText, ?_⟩
          cases split : (Reading.ofSource "t.ils" accessingSource).program.statements with
          | nil => simp [split] at isFirst
          | cons first rest =>
              cases first with
              | declare line name type initial =>
                  rw [split] at isFirst
                  cases isFirst
                  obtain ⟨⟨before, entry, after, data, named, isLine, _⟩, _⟩ :=
                    @each [] _ _ _ _ _ _ split List.not_mem_nil
                  exact ⟨entry, data ▸ List.mem_append_right _ List.mem_cons_self, named, isLine⟩
              | _ => simp [split, declaredName?] at isFirst

end Lower

end IlsCompiler
