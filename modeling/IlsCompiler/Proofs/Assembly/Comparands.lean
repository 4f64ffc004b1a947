import IlsCompiler.Proofs.Assembly.StorageClasses
import IlsCompiler.Proofs.Program.Words

namespace IlsCompiler

/-!
# The sides of a comparison

Numbers, named variables, temporaries and elements of global arrays can be compared. Each stands for
a word, which is the one that loading it gives. The code that locates an operand for one of them
changes nothing but a register for an index, and behind it the operand stands for this word.
-/

namespace Cpu

/-- A processor differs from another one in nothing but some registers. -/
structure SameBut (changed : Reg → Prop) (cpu later : Cpu) : Prop where
  top : later.top = cpu.top
  base : later.base = cpu.base
  regs : ∀ reg, ¬changed reg → later.regs reg = cpu.regs reg
  memory : later.memory = cpu.memory

namespace SameBut

variable
    {changed : Reg → Prop}
    {cpu between later : Cpu}

theorem refl
    (changed : Reg → Prop)
    (cpu : Cpu) :
    SameBut changed cpu cpu :=
  ⟨rfl, rfl, fun _ _ => rfl, rfl⟩

theorem trans
    (earlier : SameBut changed cpu between)
    (others : SameBut changed between later) :
    SameBut changed cpu later :=
  { top := others.top.trans earlier.top
    base := others.base.trans earlier.base
    regs := fun reg same => (others.regs reg same).trans (earlier.regs reg same)
    memory := others.memory.trans earlier.memory }

theorem symm
    (same : SameBut changed cpu later) :
    SameBut changed later cpu :=
  { top := same.top.symm
    base := same.base.symm
    regs := fun reg kept => (same.regs reg kept).symm
    memory := same.memory.symm }

theorem set
    (cpu : Cpu)
    {reg : Reg}
    (isChanged : changed reg)
    (word : BitVec 64) :
    SameBut changed cpu (cpu.set reg word) :=
  ⟨rfl, rfl, fun _ kept => cpu.regs_set_of_ne _ _ fun same => kept (same ▸ isChanged), rfl⟩

end SameBut

theorem set_regs_self
    (cpu : Cpu)
    (reg : Reg) :
    cpu.set reg (cpu.regs reg) = cpu := by
  unfold set
  congr 1
  funext other
  split
  next same => rw [same]
  next => rfl

end Cpu

namespace Operand

/-- The registers that an operand is made with. -/
def reads : Operand → List Reg
  | .register reg _ => [reg]
  | .memory (.indexed _ index _) _ => [index]
  | _ => []

variable
    {link : Linkage}
    {changed : Reg → Prop}
    {cpu later : Cpu}
    {operand : Operand}

/-- An operand stands for the same word while its registers are the same. -/
theorem fetched_of_sameBut
    (same : cpu.SameBut changed later)
    (kept : ∀ reg ∈ operand.reads, ¬changed reg) :
    operand.fetched link later = operand.fetched link cpu := by
  cases operand with
  | immediate text => rfl
  | register reg width => rw [fetched, same.regs reg (kept reg (by simp [reads])), fetched]
  | memory address width =>
      have place : address.place link later = address.place link cpu := by
        cases address with
        | frame offset => rw [Address.place, same.base, Address.place]
        | symbol name offset => rfl
        | indexed name index scale =>
            rw [Address.place, same.regs index (kept index (by simp [reads])), Address.place]
      rw [fetched, place, same.memory, fetched]

theorem widened_of_sameBut
    (same : cpu.SameBut changed later)
    (kept : ∀ reg ∈ operand.reads, ¬changed reg) :
    operand.widened link later = operand.widened link cpu := by
  have fetched := @fetched_of_sameBut link changed cpu later operand same kept
  unfold widened
  split <;> rw [fetched]

/-- Memory at one place stands for one word, whatever its address is made with. -/
theorem widened_of_place
    {first second : Address}
    {width : Nat}
    (samePlace : first.place link cpu = second.place link later)
    (sameMemory : cpu.memory = later.memory) :
    (Operand.memory first width).widened link cpu =
      (Operand.memory second width).widened link later := by
  have fetched : (Operand.memory first width).fetched link cpu =
      (Operand.memory second width).fetched link later := by
    rw [Operand.fetched, samePlace, sameMemory, Operand.fetched]
  by_cases isFour : width = 4
  · subst isFour
    simp only [widened, fetched]
  · rw [widened_of_ne_four _ _ _ isFour, widened_of_ne_four _ _ _ isFour, fetched]

end Operand

theorem Instruction.performAll_append
    {link : Linkage}
    {bottom : Int}
    (first second : List Instruction)
    (cpu : Cpu) :
    performAll link bottom (first ++ second) cpu =
      (performAll link bottom first cpu).bind (performAll link bottom second) := by
  induction first generalizing cpu with
  | nil => rfl
  | cons instruction rest inductionHypothesis =>
      simp only [List.cons_append, performAll, Option.bind_assoc]
      exact congrArg _ (funext inductionHypothesis)

namespace Listing

/-- Whether a variable is a constant. -/
def isLiteral (listing : Listing) (id : VarId) : Bool :=
  (listing.lookup? id).any fun v => v.storage == .literal

/-- The variables that can be compared, where some temporaries have been loaded. -/
inductive Comparand (listing : Listing) (isLoaded : VarId → Prop) : VarId → Prop
  | literal {id : VarId} {v : Variable} {number : Int} :
      listing.lookup? id = some v → v.storage = .literal →
        Text.integer? 64 v.value.text = some number → Comparand listing isLoaded id
  | named {id : VarId} {v : Variable} {name : String} {isGlobal isParam : Bool}
      {position scope : Nat} :
      listing.lookup? id = some v → v.storage = .named name isGlobal isParam position scope →
        v.type.IsScalar → Comparand listing isLoaded id
  | temporary {id : VarId} {v : Variable} {name : String} {scope : Nat} :
      listing.lookup? id = some v → v.storage = .temporary name scope → isLoaded v.id →
        Comparand listing isLoaded id
  | element {id array index : VarId} {v owner : Variable} {name : String} {isParam : Bool}
      {position scope : Nat} :
      listing.lookup? id = some v → v.storage = .element array index →
        listing.lookup? array = some owner →
        owner.storage = .named name true isParam position scope →
        owner.type.element.IsScalar → Comparand listing isLoaded index →
        Comparand listing isLoaded id

/-- How far behind the start of its array an element lies; constant distances wrap around. -/
def distance (listing : Listing) (index : VarId) (word : BitVec 64) (width : Nat) : Int :=
  if listing.isLiteral index then
    Text.wrap64 (word.toInt * width)
  else
    word.toInt * width

/--
The words that variables stand for on a processor, each as it is loaded: constants, slots and
registers as they are, four bytes of data with their sign and single bytes without.
-/
inductive StandsFor (listing : Listing) (pool : Pool) (frame : StackFrame) (link : Linkage)
    (cpu : Cpu) : VarId → BitVec 64 → Prop
  | literal {id : VarId} {v : Variable} {number : Int} :
      listing.lookup? id = some v → v.storage = .literal →
        Text.integer? 64 v.value.text = some number →
        StandsFor listing pool frame link cpu id (.ofInt 64 number)
  | slot {id : VarId} {v : Variable} {offset : Int} :
      listing.lookup? id = some v → frame.offset? v = some offset →
        StandsFor listing pool frame link cpu id
          ((Operand.memory (.frame offset) 8).widened link cpu)
  | datum {id : VarId} {v : Variable} {name : String} {isParam : Bool} {position scope : Nat} :
      listing.lookup? id = some v → v.storage = .named name true isParam position scope →
        StandsFor listing pool frame link cpu id
          ((Operand.memory (.symbol name none) v.type.width).widened link cpu)
  | temporary {id : VarId} {v : Variable} {name : String} {scope : Nat} {reg : Reg} :
      listing.lookup? id = some v → v.storage = .temporary name scope →
        pool.held? v.id = some reg →
        StandsFor listing pool frame link cpu id (cpu.regs reg)
  | element {id array index : VarId} {v owner : Variable} {name : String} {isParam : Bool}
      {position scope : Nat} {word : BitVec 64} :
      listing.lookup? id = some v → v.storage = .element array index →
        listing.lookup? array = some owner →
        owner.storage = .named name true isParam position scope →
        StandsFor listing pool frame link cpu index word →
        StandsFor listing pool frame link cpu id
          ((Operand.memory (.symbol name
            (some (listing.distance index word owner.type.element.width)))
            owner.type.element.width).widened link cpu)

variable
    {listing : Listing}
    {pool : Pool}
    {frame : StackFrame}
    {link : Linkage}
    {cpu : Cpu}
    {id : VarId}

/-- A variable stands for one word only. -/
theorem StandsFor.unique
    {first second : BitVec 64}
    (one : listing.StandsFor pool frame link cpu id first)
    (other : listing.StandsFor pool frame link cpu id second) :
    first = second := by
  induction one generalizing second with
  | literal found storage read =>
      cases other <;> simp_all [StackFrame.offset?]
  | slot found place =>
      cases other <;> simp_all [StackFrame.offset?]
  | datum found storage =>
      cases other <;> simp_all [StackFrame.offset?]
  | temporary found storage held =>
      cases other <;> simp_all [StackFrame.offset?]
  | element found storage isArray isGlobal _ inductionHypothesis =>
      cases other with
      | element otherFound otherStorage otherArray otherGlobal stands =>
          cases found.symm.trans otherFound
          cases storage.symm.trans otherStorage
          cases isArray.symm.trans otherArray
          cases isGlobal.symm.trans otherGlobal
          rw [inductionHypothesis stands]
      | _ => simp_all [StackFrame.offset?]

/-- What a variable stands for stays while slots are given out and other registers change. -/
theorem StandsFor.mono
    {later : Cpu}
    {changed : Reg → Prop}
    {laterFrame : StackFrame}
    {word : BitVec 64}
    (stands : listing.StandsFor pool frame link cpu id word)
    (same : Cpu.SameBut changed cpu later)
    (kept : ∀ reg ∈ pool.heldRegs, ¬changed reg)
    (grown : frame.slots <+: laterFrame.slots) :
    listing.StandsFor pool laterFrame link later id word := by
  have constant : ∀ {operand : Operand}, operand.reads = [] →
      operand.widened link cpu = operand.widened link later := by
    intro operand unread
    refine (Operand.widened_of_sameBut same ?_).symm
    simp [unread]
  induction stands with
  | literal found storage read => exact .literal found storage read
  | slot found place =>
      rw [constant rfl]
      exact .slot found (StackFrame.offset?_of_prefix grown place)
  | datum found storage =>
      rw [constant rfl]
      exact .datum found storage
  | @temporary _ _ _ _ reg found storage held =>
      have isHeld : reg ∈ pool.heldRegs := List.mem_map_of_mem (Pool.mem_held_of_held? held)
      rw [← same.regs reg (kept reg isHeld)]
      exact .temporary found storage held
  | element found storage isArray isGlobal _ inductionHypothesis =>
      rw [constant rfl]
      exact .element found storage isArray isGlobal inductionHypothesis

end Listing

/-- The operands that are found for what can be compared, where an index may be in one register. -/
inductive Operand.Found (pool : Pool) (scratch : Reg) : Operand → Prop
  | constant {text : String} {number : Int} :
      Text.integer? 64 text = some number → Found pool scratch (.immediate text)
  | register {reg : Reg} :
      reg ∈ pool.heldRegs → Found pool scratch (.whole reg)
  | slot (offset : Int) : Found pool scratch (.memory (.frame offset) 8)
  | datum {type : Ty} (name : String) (offset : Option Int) :
      type.IsScalar → Found pool scratch (.memory (.symbol name offset) type.width)
  | element {type : Ty} {index : Reg} (name : String) :
      type.IsScalar → index ∈ scratch :: pool.heldRegs →
        Found pool scratch (.memory (.indexed name index type.width) type.width)

variable
    {operand : Operand}
    {scratch : Reg}

theorem Operand.Found.reads_subset
    {pool : Pool}
    (found : operand.Found pool scratch) :
    operand.reads ⊆ scratch :: pool.heldRegs := by
  cases found <;> simp_all [reads, whole]

namespace Emit

open Stateful

variable
    {listing : Listing}
    {before after : FunctionCode}

/-- A load puts the word of an operand into a register and changes nothing else. -/
theorem moveInto_performs
    {reg : Reg}
    (noPointer : reg ≠ .rsp ∧ reg ≠ .rbp)
    (run : moveInto reg operand before = .ok ((), after)) :
    ∃ loading, after = { before with body := before.body.addAll loading } ∧
      ∀ link bottom cpu, Instruction.performAll link bottom loading cpu =
        some (cpu.set reg (operand.widened link cpu)) := by
  have one : ∀ {instruction : Instruction},
      ins instruction before = .ok ((), after) →
      (∀ link bottom cpu, instruction.perform link bottom cpu =
        some (cpu.set reg (operand.widened link cpu))) →
      ∃ loading, after = { before with body := before.body.addAll loading } ∧
        ∀ link bottom cpu, Instruction.performAll link bottom loading cpu =
          some (cpu.set reg (operand.widened link cpu)) := by
    intro instruction added performs
    refine ⟨[instruction], ins_ok_iff.mp added, fun link bottom cpu => ?_⟩
    rw [Instruction.performAll, performs]
    rfl
  have puts : ∀ (cpu : Cpu) word, cpu.put reg word = some (cpu.set reg word) := by
    intro cpu word
    simp [Cpu.put, noPointer]
  have moved : ∀ source link bottom cpu,
      (Instruction.mov (.whole reg) source).perform link bottom cpu =
        some (cpu.set reg (source.fetched link cpu)) := by
    intro source link bottom cpu
    rw [← puts]
    cases reg <;> first | exact absurd rfl noPointer.1 | exact absurd rfl noPointer.2 | rfl
  cases operand with
  | immediate text => exact one run (moved _)
  | register other width =>
      by_cases isTarget : width = 8 ∧ other = reg
      · obtain ⟨rfl, rfl⟩ := isTarget
        simp only [moveInto, ↓reduceIte] at run
        obtain ⟨-, rfl⟩ := pure_ok_iff.mp run
        refine ⟨[], rfl, fun link bottom cpu => congrArg some ?_⟩
        exact ((congrArg _ (Operand.fetched_whole link cpu other)).trans
          (cpu.set_regs_self other)).symm
      · have isMove : moveInto reg (.register other width) =
            ins (.mov (.whole reg) (.register other width)) := by
          unfold moveInto
          split
          next same =>
            cases same
            exact if_neg fun same => isTarget ⟨rfl, same⟩
          next same => cases same
          next => rfl
        rw [isMove] at run
        exact one run (moved _)
  | memory address width =>
      simp only [moveInto] at run
      split at run
      next isFour =>
        subst isFour
        exact one run fun _ _ _ => puts _ _
      next notFour =>
        have isPlain := fun link cpu => Operand.widened_of_ne_four link cpu address notFour
        simp only [isPlain] at one ⊢
        split at run
        · exact one run fun _ _ _ => puts _ _
        · exact one run (moved _)

/-- An operand that has to be moved is moved into a register, any other one stays. -/
theorem settle_ok
    {mustMove : Bool}
    {operand settled : Operand}
    (run : settle scratch mustMove operand before = .ok (settled, after)) :
    (mustMove = true ∧ settled = .whole scratch ∧
        moveInto scratch operand before = .ok ((), after)) ∨
      (mustMove = false ∧ settled = operand ∧ after = before) := by
  unfold settle at run
  cases mustMove with
  | true =>
      simp only [↓reduceIte] at run
      obtain ⟨_, between, moves, returned⟩ := bind_ok_iff.mp run
      obtain ⟨rfl, rfl⟩ := pure_ok_iff.mp returned
      exact .inl ⟨rfl, rfl, moves⟩
  | false =>
      simp only [Bool.false_eq_true, ↓reduceIte] at run
      obtain ⟨rfl, rfl⟩ := pure_ok_iff.mp run
      exact .inr ⟨rfl, rfl, rfl⟩

/-- A local or parameter is found in its slot. -/
theorem namedOperand_slot
    {v : Variable}
    {name : String}
    {isParam : Bool}
    {position scope : Nat}
    (storage : v.storage = .named name false isParam position scope)
    (scalar : v.type.IsScalar)
    (run : namedOperand v name false isParam position before = .ok (operand, after)) :
    before.Slotted after ∧ ∃ offset,
      operand = .memory (.frame offset) 8 ∧ after.frame.offset? v = some offset := by
  have noArray : v.type.isArray = false := by
    rcases scalar with same | same | same <;> rw [same] <;> rfl
  simp only [namedOperand, noArray, Bool.false_eq_true, ↓reduceIte, Bool.false_and] at run
  obtain ⟨slotted, offset, isSlot, _, place⟩ := slotOperand_ok storage run
  exact ⟨slotted, offset, isSlot, place⟩

/--
Code that locates an operand for a variable: it may give a slot to a local and load an index, and
behind it the operand stands for the word of the variable.
-/
structure Locates (listing : Listing) (scratch : Reg) (id : VarId) (operand : Operand)
    (issued : List Instruction) (before after : FunctionCode) : Prop where
  code : after = { before with frame := after.frame, body := before.body.addAll issued }
  slots : before.frame.slots <+: after.frame.slots
  found : operand.Found before.pool scratch
  constant : operand.isImmediate = listing.isLiteral id
  stands : ∀ link bottom cpu, ∃ ready,
    Instruction.performAll link bottom issued cpu = some ready ∧
      Cpu.SameBut (· = scratch) cpu ready ∧
      listing.StandsFor before.pool after.frame link cpu id (operand.widened link ready)

/-- An operand that needs no code. -/
theorem locates_at_once
    {id : VarId}
    (same : after = { before with frame := after.frame })
    (slots : before.frame.slots <+: after.frame.slots)
    (found : operand.Found before.pool scratch)
    (constant : operand.isImmediate = listing.isLiteral id)
    (stands : ∀ link cpu,
      listing.StandsFor before.pool after.frame link cpu id (operand.widened link cpu)) :
    ∃ issued, Locates listing scratch id operand issued before after :=
  ⟨[], same, slots, found, constant, fun link _ cpu => ⟨cpu, rfl, .refl _ cpu, stands link cpu⟩⟩

/-- The operand of an element is at its distance behind the start of the array. -/
theorem Locates.element
    {scratch : Reg}
    {id array index : VarId}
    {v owner : Variable}
    {name : String}
    {isParam : Bool}
    {position scope : Nat}
    {place : Operand}
    {issued : List Instruction}
    {between : FunctionCode}
    (locates : Locates listing scratch index place issued before between)
    (found : listing.lookup? id = some v)
    (storage : v.storage = .element array index)
    (isArray : listing.lookup? array = some owner)
    (isGlobal : owner.storage = .named name true isParam position scope)
    {address : Address}
    (loading : List Instruction)
    (added : after = { between with body := between.body.addAll loading })
    (isFound : (Operand.memory address owner.type.element.width).Found before.pool scratch)
    (placed : ∀ link bottom ready, ∃ last,
      Instruction.performAll link bottom loading ready = some last ∧
        Cpu.SameBut (· = scratch) ready last ∧
        address.place link last = link.address name +
          listing.distance index (place.widened link ready) owner.type.element.width) :
    ∃ issued, Locates listing scratch id (.memory address owner.type.element.width) issued before
      after := by
  refine ⟨issued ++ loading, ?_, ?_, isFound, ?_, fun link bottom cpu => ?_⟩
  · rw [added, locates.code, Body.addAll_append]
  · rw [added]
    exact locates.slots
  · simp [Operand.isImmediate, Listing.isLiteral, found, storage]
  · obtain ⟨ready, performed, same, stands⟩ := locates.stands link bottom cpu
    obtain ⟨last, others, more, isPlace⟩ := placed link bottom ready
    have both := same.trans more
    refine ⟨last, ?_, both, ?_⟩
    · rw [Instruction.performAll_append, performed, Option.bind_some, others]
    · have word := Listing.StandsFor.element found storage isArray isGlobal stands
      have samePlace : (Address.symbol name (some (listing.distance index
          (place.widened link ready) owner.type.element.width))).place link cpu =
            address.place link last := isPlace.symm
      rw [added]
      rwa [Operand.widened_of_place samePlace both.memory.symm] at word

theorem constantElement_ok
    {array text : String}
    {width : Nat}
    {number : Int}
    (read : Text.integer? 64 text = some number)
    (run : constantElement array width text before = .ok (operand, after)) :
    after = before ∧ ∃ offset : Option Int,
      offset.getD 0 = Text.wrap64 (number * width) ∧
        operand = .memory (.symbol array offset) width := by
  unfold constantElement at run
  simp only [read] at run
  split at run
  next isZero =>
    obtain ⟨rfl, rfl⟩ := pure_ok_iff.mp run
    refine ⟨rfl, none, ?_, rfl⟩
    rw [isZero, Int.zero_mul]
    rfl
  next =>
    obtain ⟨rfl, rfl⟩ := pure_ok_iff.mp run
    exact ⟨rfl, _, rfl, rfl⟩

/-- What can be compared is found. -/
theorem resolve_locates
    {id : VarId}
    (comparand : listing.Comparand (fun id => (before.pool.held? id).isSome) id)
    (noPointer : scratch ≠ .rsp ∧ scratch ≠ .rbp)
    {depth : Nat}
    (run : resolve listing depth id scratch before = .ok (operand, after)) :
    ∃ issued, Locates listing scratch id operand issued before after := by
  induction comparand generalizing depth operand after with
  | @literal id v number found storage read =>
      obtain ⟨_, _, _, known, resolved⟩ := resolve_ok run
      cases found.symm.trans known
      simp only [storage] at resolved
      obtain ⟨rfl, rfl⟩ := resolved
      refine locates_at_once rfl (List.prefix_refl _) (.constant read) ?_ fun link cpu => ?_
      · simp [Operand.isImmediate, Listing.isLiteral, found, storage]
      · have word : (Operand.immediate v.value.text).widened link cpu = .ofInt 64 number := by
          simp only [Operand.widened, Operand.fetched, read]
        rw [word]
        exact .literal found storage read
  | @named id v name isGlobal isParam position scope found storage scalar =>
      obtain ⟨_, _, _, known, resolved⟩ := resolve_ok run
      cases found.symm.trans known
      simp only [storage] at resolved
      have noConstant : listing.isLiteral id = false := by
        simp [Listing.isLiteral, found, storage]
      cases isGlobal with
      | true =>
          obtain rfl := namedOperand_global scalar resolved
          rcases namedOperand_cases resolved with
            ⟨_, _, rfl⟩ | ⟨isLocal, _⟩ | ⟨isLocal, _⟩
          · exact locates_at_once rfl (List.prefix_refl _) (.datum name none scalar)
              noConstant.symm fun link cpu => .datum found storage
          · cases isLocal
          · cases isLocal
      | false =>
          obtain ⟨⟨frame, same, slots⟩, offset, rfl, place⟩ :=
            namedOperand_slot storage scalar resolved
          refine locates_at_once (by rw [same]) (by rw [same]; exact slots) (.slot offset)
            noConstant.symm fun link cpu => .slot found place
  | @temporary id v name scope found storage held =>
      obtain ⟨_, _, _, known, resolved⟩ := resolve_ok run
      cases found.symm.trans known
      simp only [storage] at resolved
      obtain ⟨reg, loads, rfl⟩ := resolved
      rcases temporary_ok loads with ⟨isHeld, rfl⟩ | ⟨isFree, _⟩
      · have member : reg ∈ after.pool.heldRegs :=
          List.mem_map_of_mem (Pool.mem_held_of_held? isHeld)
        refine locates_at_once rfl (List.prefix_refl _) (.register member) ?_ fun link cpu => ?_
        · simp [Operand.isImmediate, Operand.whole, Listing.isLiteral, found, storage]
        · have word : (Operand.whole reg).widened link cpu = cpu.regs reg :=
            Operand.fetched_whole link cpu reg
          rw [word]
          exact .temporary found storage isHeld
      · simp [isFree] at held
  | @element id array index v owner name isParam place scope found storage isArray isGlobal scalar
      _ inductionHypothesis =>
      obtain ⟨_, _, _, known, resolved⟩ := resolve_ok run
      cases found.symm.trans known
      simp only [storage] at resolved
      obtain ⟨_, _, _, _, _, _, position, between, _, known, isNamed, isResolved, addressed⟩ :=
        element_ok resolved
      cases isArray.symm.trans known
      cases isGlobal.symm.trans isNamed
      have noConstant : listing.isLiteral id = false := by
        simp [Listing.isLiteral, found, storage]
      obtain ⟨issued, locates⟩ := inductionHypothesis isResolved
      have constant := locates.constant
      cases position with
      | immediate text =>
          have isLiteral : listing.isLiteral index = true := constant.symm
          cases locates.found with
          | @constant _ number read =>
              obtain ⟨rfl, offset, isDistance, rfl⟩ := constantElement_ok read addressed
              refine locates.element found storage isArray isGlobal [] rfl (.datum name offset scalar)
                fun link bottom ready => ⟨ready, rfl, .refl _ ready, ?_⟩
              have word : (Operand.immediate text).widened link ready = .ofInt 64 number := by
                simp only [Operand.widened, Operand.fetched, read]
              rw [Address.place, isDistance, Listing.distance, if_pos isLiteral, word,
                Expr.toInt_ofInt_of_fits (Expr.fits_of_integer? read)]
      | register reg width =>
          have noLiteral : ¬listing.isLiteral index = true := by simp [← constant, Operand.isImmediate]
          cases locates.found with
          | register held =>
              obtain ⟨rfl, rfl⟩ := pure_ok_iff.mp addressed
              refine locates.element found storage isArray isGlobal [] rfl
                (.element name scalar (List.mem_cons_of_mem _ held))
                fun link bottom ready => ⟨ready, rfl, .refl _ ready, ?_⟩
              have word : (Operand.register reg 8).widened link ready = ready.regs reg :=
                Operand.fetched_whole link ready reg
              rw [Address.place, Listing.distance, if_neg noLiteral, word]
      | memory address width =>
          have noLiteral : ¬listing.isLiteral index = true := by simp [← constant, Operand.isImmediate]
          obtain ⟨_, loaded, moves, returned⟩ := bind_ok_iff.mp addressed
          obtain ⟨rfl, rfl⟩ := pure_ok_iff.mp returned
          obtain ⟨loading, rfl, performs⟩ := moveInto_performs noPointer moves
          refine locates.element found storage isArray isGlobal loading rfl
            (.element name scalar List.mem_cons_self)
            fun link bottom ready => ⟨_, performs link bottom ready, Cpu.SameBut.set ready (by rfl) _, ?_⟩
          rw [Address.place, Listing.distance, if_neg noLiteral, Cpu.regs_set_same]

end Emit

end IlsCompiler
