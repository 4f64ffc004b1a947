import IlsCompiler.Proofs.Assembly.ExpressionCode
import IlsCompiler.Proofs.Assembly.FileSections

namespace IlsCompiler

/-!
# Code for arithmetic statements

A declaration or an assignment of an arithmetic expression ends with a move of its word
into the slot of the variable. The lines written for it leave every other slot, every
global variable and every register that was held as they were.
-/

/-- Whether a variable is a local or a parameter of a function. -/
def Variable.isLocal (v : Variable) : Bool :=
  match v.storage with
  | .named _ false _ _ _ => true
  | _ => false

variable
    {done : Unit}
    {v target : Variable}

namespace Emit

open Stateful FunctionCode

variable
    {listing : Listing}
    {before after : FunctionCode}
    {id : Nat}

/-- The operand of a stored value stands for the word of the variable it was taken from. -/
theorem stored_atHand
    (numbered : listing.Numbered)
    (sound : before.pool.Sound)
    (atHand : listing.AtHand before.pool id)
    (found : listing.fixed? id = some v)
    {depth : Nat}
    {operand : Operand}
    (run : stored listing depth (Lower.bound v) before = .ok (operand, after)) :
    before.Slotted after ∧
      ∀ frame : StackFrame, after.frame.slots <+: frame.slots → ∀ machine,
        operand.loaded? machine = some (listing.wordOf before.pool frame machine id) := by
  have number : v.id = id := numbered id v found
  cases atHand with
  | literal known storage read =>
      cases found.symm.trans known
      simp only [Lower.bound, storage] at run
      obtain ⟨rfl, rfl⟩ := stored_literal_ok run
      refine ⟨.refl _, fun frame _ machine => ?_⟩
      simp [Operand.loaded?, Operand.word?, Listing.wordOf, found, storage, read]
  | named known storage arithmetic =>
      cases found.symm.trans known
      simp only [Lower.bound, storage] at run
      rw [number] at run
      obtain ⟨less, _, resolved⟩ := stored_reference_ok run
      obtain ⟨slotted, loaded, _⟩ :=
        resolve_atHand numbered sound (.named found storage arithmetic) resolved
      exact ⟨slotted, loaded⟩
  | temporary known storage held =>
      cases found.symm.trans known
      simp only [Lower.bound, storage] at run
      rw [number] at run
      obtain ⟨less, _, resolved⟩ := stored_reference_ok run
      obtain ⟨slotted, loaded, _⟩ :=
        resolve_atHand numbered sound (.temporary found storage held) resolved
      exact ⟨slotted, loaded⟩

/-- An operand that is neither memory nor too wide can be written into a slot. -/
theorem store_ok
    {offset : Int}
    {source : Operand}
    (aligned : Operand.isAligned offset)
    (notMemory : source.isMemory = false)
    (notWide : source.isWide = false)
    (run : store (.memory (.frame offset) 8) source before = .ok (done, after)) :
    ∃ instruction : Instruction,
      after = { before with body := before.body.add instruction } ∧ instruction.isStore ∧
        ∀ (machine : Machine) (word : BitVec 64), source.word? machine = some word →
          instruction.execute machine = .next (machine.store offset word) := by
  cases source with
  | memory address width => cases notMemory
  | immediate text =>
      refine ⟨_, ins_ok_iff.mp run, rfl, ?_⟩
      intro machine word read
      simp [Instruction.execute, Instruction.move, aligned, notWide, read, Operand.isMemory]
  | register reg width =>
      refine ⟨_, ins_ok_iff.mp run, rfl, ?_⟩
      intro machine word read
      have whole : width = 8 := by
        by_cases same : width = 8
        · exact same
        · simp [Operand.word?, same] at read
      subst whole
      simp [Instruction.execute, Instruction.move, aligned, read, Operand.isMemory,
        Operand.isWide]

/--
Storing the value of a variable that is at hand moves its word into the slot of the target;
beside that slot only the register for results changes.
-/
theorem storeValue_atHand
    (numbered : listing.Numbered)
    (sound : before.pool.Sound)
    (atHand : listing.AtHand before.pool id)
    (found : listing.fixed? id = some v)
    (isLocal : target.isLocal)
    (isInt : target.type = .int)
    (run : storeValue listing target 0 (Lower.bound v) before = .ok (done, after)) :
    ∃ loads instruction offset,
      after.body = before.body.addAll (loads ++ [instruction]) ∧
        before.frame.slots <+: after.frame.slots ∧ after.pool = before.pool ∧
        (∀ load ∈ loads, load.isScalar) ∧ instruction.isStore ∧
        after.frame.offset? target = some offset ∧
        ∀ machine : Machine, ∃ later,
          machine.run (loads ++ [instruction]) =
              .next (later.store offset
                (listing.wordOf before.pool after.frame machine id)) ∧
            Machine.SameBut (fun reg => reg = Reg.returned) machine later := by
  unfold Variable.isLocal at isLocal
  split at isLocal <;> try contradiction
  next name isParam position scope storage =>
    unfold storeValue at run
    obtain ⟨operand, first, valued, run⟩ := bind_ok_iff.mp run
    obtain ⟨source, second, settled, run⟩ := bind_ok_iff.mp run
    simp only [storage, ↓reduceIte] at run
    obtain ⟨place, third, placed, written⟩ := bind_ok_iff.mp run
    obtain ⟨firstSlotted, loaded⟩ := stored_atHand numbered sound atHand found valued
    obtain ⟨firstIssues, firstPool⟩ := Issues.of_slotted firstSlotted
    unfold namedOperand at placed
    simp only [isInt, Ty.isArray, Bool.false_eq_true, ↓reduceIte, Bool.false_and] at placed
    obtain ⟨thirdSlotted, offset, rfl, aligned, known⟩ := slotOperand_ok storage placed
    obtain ⟨thirdIssues, thirdPool⟩ := Issues.of_slotted thirdSlotted
    -- Whichever way the word is brought, it ends in an operand that can be stored.
    have finish : ∀ {loads : List Instruction},
        Issues loads first second → second.pool = first.pool → source.isMemory = false →
        source.isWide = false →
        (∀ machine : Machine, ∃ later,
          machine.run loads = .next later ∧
            Machine.SameBut (fun reg => reg = Reg.returned) machine later ∧
            source.word? later = operand.loaded? machine) →
        ∃ loads instruction offset,
          after.body = before.body.addAll (loads ++ [instruction]) ∧
            before.frame.slots <+: after.frame.slots ∧ after.pool = before.pool ∧
            (∀ load ∈ loads, load.isScalar) ∧ instruction.isStore ∧
            after.frame.offset? target = some offset ∧
            ∀ machine : Machine, ∃ later,
              machine.run (loads ++ [instruction]) =
                  .next (later.store offset
                    (listing.wordOf before.pool after.frame machine id)) ∧
                Machine.SameBut (fun reg => reg = Reg.returned) machine later := by
      intro loads loadIssues loadPool notMemory notWide loadRuns
      obtain ⟨instruction, rfl, isStore, executes⟩ := store_ok aligned notMemory notWide written
      have issues := firstIssues.trans (loadIssues.trans thirdIssues)
      refine ⟨loads, instruction, offset, ?_, issues.slots,
        thirdPool.trans (loadPool.trans firstPool), loadIssues.scalar, isStore, known, ?_⟩
      · have body := issues.body
        simp only [List.append_nil, List.nil_append] at body
        rw [Body.addAll_append, ← body]
        rfl
      · intro machine
        obtain ⟨later, runs, same, word⟩ := loadRuns machine
        have firstFrame := loadIssues.slots.trans thirdIssues.slots
        rw [loaded third.frame firstFrame machine] at word
        refine ⟨later, ?_, same⟩
        rw [Machine.run_append, runs]
        show Machine.run later [instruction] = _
        rw [Machine.run_singleton, executes later _ word]
    unfold settle at settled
    cases mustMove : operand.isMemory || operand.isWide with
    | true =>
        simp only [mustMove, ↓reduceIte] at settled
        obtain ⟨_, _, moved, returned⟩ := bind_ok_iff.mp settled
        obtain ⟨rfl, rfl⟩ := pure_ok_iff.mp returned
        obtain ⟨issued, rfl, scalar, runs⟩ := moveInto_ok (by decide) moved
        refine finish ⟨rfl, List.prefix_refl _, scalar⟩ rfl rfl rfl ?_
        intro machine
        have word := loaded (third.frame) thirdIssues.slots machine
        refine ⟨_, runs machine _ word, .set _ _ rfl, ?_⟩
        simp [Operand.whole, Operand.word?, word]
    | false =>
        simp only [mustMove, Bool.false_eq_true, ↓reduceIte] at settled
        obtain ⟨rfl, rfl⟩ := pure_ok_iff.mp settled
        simp only [Bool.or_eq_false_iff] at mustMove
        refine finish (.refl _) rfl mustMove.1 mustMove.2 ?_
        intro machine
        refine ⟨machine, rfl, .refl _, ?_⟩
        have word := loaded third.frame thirdIssues.slots machine
        rw [word]
        refine Operand.word?_of_loaded? word ?_
        cases operand with
        | memory => cases mustMove.1
        | _ => rfl

end Emit

namespace Lower

open LoweringState FunctionCode

/-- Statements that store an expression in a variable. -/
inductive Stores (name : String) (expr : Expr) : Stmt → Prop
  | declare (line : Nat) : Stores name expr (.declare line name .int (some expr))
  | assign (line : Nat) : Stores name expr (.assign line name none expr)

/--
The code of a statement that stores an expression: instructions on registers and a move
into the slot of the variable. Running them leaves the word of the expression in that slot
and changes no other slot, nothing in the data section and no register that was held.
-/
structure Stored (listing : Listing) (expr : Expr) (target : Variable) (start : LoweringState)
    (code final : FunctionCode) (loads : List Instruction) (instruction : Instruction)
    (offset : Int) : Prop where
  body : final.body = code.body.addAll (loads ++ [instruction])
  scalar : ∀ load ∈ loads, load.isScalar
  isStore : instruction.isStore
  place : final.frame.offset? target = some offset
  reaches : ∀ machine : Machine,
    machine.Reaches (loads ++ [instruction]) fun later =>
      later.slots offset =
          expr.word (listing.reads start.listing.scopes start.scope final.frame machine) ∧
        (∀ other, other ≠ offset → later.slots other = machine.slots other) ∧
        later.data = machine.data ∧
        ∀ reg ∈ code.pool.heldRegs, later.regs reg = machine.regs reg

variable
    {listing : Listing}
    {before middle : LoweringState}
    {code between final : FunctionCode}
    {expr : Expr}

/-- An expression that has been computed is stored in a local variable. -/
theorem computed_stored
    (numbered : listing.Numbered)
    {id : Nat}
    {issued : List Instruction}
    (computed : Computed listing expr before middle code between id issued)
    (arithmetic : (typeIn middle id).isArithmetic)
    (sound : code.pool.Sound)
    (soundBetween : between.pool.Sound)
    (found : listing.fixed? id = some v)
    (isLocal : target.isLocal)
    (isInt : target.type = .int)
    (run : Emit.storeValue listing target 0 (Lower.bound v) between = .ok (done, final)) :
    ∃ loads instruction offset,
      Stored listing expr target before code final loads instruction offset := by
  obtain ⟨loads, instruction, offset, body, slots, pool, scalar, isStore, place, runs⟩ :=
    Emit.storeValue_atHand numbered soundBetween (computed.atHand arithmetic) found isLocal isInt
      run
  refine ⟨issued ++ loads, instruction, offset, ?_⟩
  exact
    { body := by
        rw [body, computed.issues.body, List.append_assoc, Body.addAll_append _ issued]
      scalar := by
        intro load member
        rcases List.mem_append.mp member with inIssued | inLoads
        · exact computed.issues.scalar load inIssued
        · exact scalar load inLoads
      isStore := isStore
      place := place
      reaches := by
        intro machine
        rw [List.append_assoc]
        refine (computed.reaches arithmetic final.frame slots machine).append ?_
        rintro computedMachine ⟨same, word⟩
        obtain ⟨loaded, stores, sameLoaded⟩ := runs computedMachine
        refine .of_next stores ⟨?_, ?_, ?_, ?_⟩
        · simp [Machine.store, word]
        · intro other apart
          simp [Machine.store, apart, sameLoaded.slots, same.slots]
        · rw [Machine.store, sameLoaded.data, same.data]
        · intro reg held
          have pooled : reg ∈ Reg.pooled := by
            obtain ⟨entry, member, rfl⟩ := List.mem_map.mp held
            exact sound.mem_pooled member
          have apart : reg ≠ Reg.returned := by
            rintro rfl
            exact (Reg.not_scratch_of_pooled pooled).1 (.inl rfl)
          rw [Machine.store, sameLoaded.regs reg apart]
          exact same.regs reg fun free => free held }

variable
    {line : Nat}

/-- A type that an integer variable can be given is that of a number. -/
theorem arithmetic_of_assignable
    {given : Ty}
    (fits : assignable .int given line = .ok ()) :
    given.isArithmetic := by
  unfold assignable at fits
  split at fits
  · cases fits
  · split at fits
    next same =>
      rcases same with rfl | ⟨_, arithmetic⟩
      · rfl
      · exact arithmetic
    · cases fits

variable
    {name : String}
    {initial : Option Expr}
    {type : Ty}

/-- Behind a declaration the name refers to the variable that was declared. -/
theorem lookup?_declared
    {start between : LoweringState}
    {stored : Value}
    (inside : Inside start.listing.scopes start.scope)
    (initialized : initializer line type initial start = .ok (stored, between))
    (unseen : start.listing.scopes.lookup? start.scope name = none)
    (value : Value) :
    (between.withLocal name type value line).listing.scopes.lookup?
        (between.withLocal name type value line).scope name =
      some (between.listing.vars.size + 1) := by
  obtain ⟨scope, inTree, _⟩ := inside
  obtain ⟨sameScopes, sameScope⟩ := initializer_scopes initialized
  have bound := ScopeTree.lookup?_bind_same inTree unseen (between.listing.vars.size + 1)
  rw [← sameScopes, ← sameScope] at bound
  rw [scope_of_proceeds (proceeds_withLocal between name type value line)]
  simpa [withLocal, appended, Listing.addNamed, Listing.addVariable] using bound

/-- Behind a declaration the name refers to a local of the type that was declared. -/
theorem declare_refers
    {start finish : LoweringState}
    (inside : Inside start.listing.scopes start.scope)
    (lowered : statement (.declare line name type initial) start = .ok ((), finish))
    (grown : finish.listing.Extends listing) :
    ∃ id target,
      finish.listing.scopes.lookup? finish.scope name = some id ∧
        listing.lookup? id = some target ∧ target.isLocal ∧ target.type = type := by
  rw [statement] at lowered
  obtain ⟨_, stored, between, initialized, unseen, rfl⟩ :=
    declare_local_ok inside.isModule lowered
  obtain ⟨v, found, storage, _, sameType⟩ := fixed?_withLocal between name type stored line
  obtain ⟨target, known, rfl⟩ := Listing.lookup?_of_fixed? (grown.fixed?_of found)
  refine ⟨_, target, lookup?_declared inside initialized unseen _, known, ?_, ?_⟩
  · simp [Variable.isLocal, Variable.storage_of_fixed_local storage]
  · exact sameType

/-- The code of a statement that stores an arithmetic expression in an integer local. -/
theorem statement_stored
    (numbered : listing.Numbered)
    {start finish : LoweringState}
    {stmt : Stmt}
    (stores : Stores name expr stmt)
    (arithmetic : expr.isArithmetic)
    (inside : Inside start.listing.scopes start.scope)
    (lowered : statement stmt start = .ok ((), finish))
    (grown : finish.listing.Extends listing)
    (emits : listing.Emits start.listing finish.listing code final)
    (agrees : start.Agrees code)
    (tidy : start.Tidy)
    {id : VarId}
    (refers : finish.listing.scopes.lookup? finish.scope name = some id)
    (known : listing.lookup? id = some target)
    (isLocal : target.isLocal)
    (isInt : target.type = .int) :
    ∃ loads instruction offset,
      Stored listing expr target start code final loads instruction offset := by
  cases stores with
  | declare line =>
      rw [statement] at lowered
      obtain ⟨_, stored, between, initialized, unseen, rfl⟩ :=
        declare_local_ok inside.isModule lowered
      rcases initializer_ok initialized with
        ⟨absent, _⟩ | ⟨_, value, same, exprLowered, fits, rfl⟩
      · cases absent
      · cases same
        have computes := expression_computes exprLowered
        have second := (proceeds_withLocal between name .int (boundIn between value) line).extends_
        obtain ⟨valued, valueEmits, declareEmits⟩ := emits.split computes.extends_ second
        have whole := second.trans grown
        obtain ⟨issued, computed⟩ :=
          expression_computed numbered arithmetic exprLowered whole valueEmits agrees tidy
        have traced := expression_traced numbered exprLowered whole valueEmits agrees
        have agreesLater := traced.agrees agrees computes.extends_
        obtain ⟨v, found⟩ := expression_found (whole.numbered_of numbered) exprLowered
        cases refers.symm.trans (lookup?_declared inside initialized unseen _)
        obtain ⟨w, wFound, wStorage, wValue, _⟩ :=
          fixed?_withLocal between name .int (boundIn between value) line
        have isTarget : target.fixed = w := by
          have fixedTarget : listing.fixed? (between.listing.vars.size + 1) =
              some target.fixed := by
            simp [Listing.fixed?, known]
          exact Option.some.inj (fixedTarget.symm.trans (grown.fixed?_of wFound))
        have run := declareEmits.declare_of_push (nodes_withLocal between name .int _ line)
        subst isTarget
        have storage := Variable.storage_of_fixed_local wStorage
        unfold Emit.declare at run
        simp only [known, storage, Bool.false_eq_true, ↓reduceIte, Bool.not_false] at run
        change target.value = _ at wValue
        rw [wValue, boundIn, found] at run
        exact computed_stored numbered computed (arithmetic_of_assignable fits) agrees.pool
          agreesLater.pool (whole.fixed?_of found) isLocal isInt run
  | assign line =>
      rw [statement] at lowered
      obtain ⟨named, wanted, selected, middle, value, between, resolved, chosen, exprLowered, fits,
        stored⟩ := assign_ok lowered
      rcases chosen with ⟨_, _, rfl, rfl, rfl⟩ | ⟨_, absent, _⟩
      · have computes := expression_computes exprLowered
        obtain ⟨_, number, sees, isFound, _⟩ := resolve_ok resolved
        rcases stored with ⟨v, found, rfl⟩ | ⟨absent, rfl⟩
        · have second := extends_appended between
            (.assign named.id (bound v) (boundType v) 0 line)
          obtain ⟨valued, valueEmits, run⟩ := emits.split_appended computes.extends_
          have whole := second.trans grown
          obtain ⟨issued, computed⟩ :=
            expression_computed numbered arithmetic exprLowered whole valueEmits agrees tidy
          have traced := expression_traced numbered exprLowered whole valueEmits agrees
          have agreesLater := traced.agrees agrees computes.extends_
          -- The name refers to the same variable in front of the statement and behind it.
          have seen : between.listing.scopes.lookup? between.scope name = some id := by
            simpa [appended, LoweringState.scope] using refers
          rw [computes.scopes, scope_of_proceeds computes.toProceeds] at seen
          cases seen.symm.trans sees
          have fixedNamed : middle.listing.fixed? id = some named.fixed := by
            simp [Listing.fixed?, isFound]
          have fixedTarget : listing.fixed? id = some target.fixed := by
            simp [Listing.fixed?, known]
          have sameFixed := (computes.extends_.trans whole).fixed?_of fixedNamed
          have same : target.fixed = named.fixed :=
            Option.some.inj (fixedTarget.symm.trans sameFixed)
          have sameId : named.id = id := by
            have bounded := computes.extends_.trans whole
            exact bounded.numbered_of numbered id named.fixed fixedNamed
          have sameType : target.type = named.type := by
            simpa [Variable.fixed] using congrArg Variable.type same
          rw [← sameType, isInt] at fits
          have stores := Emit.atLine_ok_iff.mp run
          unfold Emit.assign at stores
          rw [sameId] at stores
          unfold Variable.isLocal at isLocal
          split at isLocal <;> try contradiction
          next storage =>
            simp only [known, storage] at stores
            refine computed_stored numbered computed (arithmetic_of_assignable fits) agrees.pool
              agreesLater.pool (whole.fixed?_of found) ?_ isInt stores
            simp [Variable.isLocal, storage]
        · obtain ⟨v, found⟩ := expression_found (grown.numbered_of numbered) exprLowered
          rw [absent] at found
          cases found
      · cases absent

end Lower

end IlsCompiler

namespace IlsCompiler.Lower

open LoweringState AssemblyFile

/-!
## The words that statements store

A declaration or an assignment of an arithmetic expression, wherever it stands in a function,
has lines of its own at the end of the code made so far. Run on any machine they leave the word
of the expression in the slot of the variable, unless a division faults, and change no other
slot, no global variable and no register that a temporary held.
-/

variable
    {listing : Listing}
    {code final : FunctionCode}
    {instruction : Instruction}
    {loads : List Instruction}
    {target : Variable}
    {offset : Int}
    {expr : Expr}

/-- The lines that were there stay, but for a last move that the first new line makes useless. -/
theorem lines_of_stored
    {start : LoweringState}
    (stored : Stored listing expr target start code final loads instruction offset) :
    ∃ kept,
      (kept = code.body.lines.toList ∨ kept = code.body.lines.toList.dropLast) ∧
        final.body.lines.toList =
          kept ++ (Instruction.written (loads ++ [instruction])).map .instruction := by
  rw [stored.body]
  cases shape : loads ++ [instruction] with
  | nil => simp at shape
  | cons first rest =>
      refine ⟨code.body.keptFor first, ?_, Body.lines_addAll code.body first rest⟩
      unfold Body.keptFor
      split
      · split
        · exact .inr rfl
        · exact .inl rfl
      · exact .inl rfl

/-- The peephole changes nothing about a run of the lines of a statement. -/
theorem run_of_stored
    {start : LoweringState}
    (stored : Stored listing expr target start code final loads instruction offset)
    (machine : Machine) :
    machine.run (Instruction.written (loads ++ [instruction])) =
      machine.run (loads ++ [instruction]) := by
  refine Instruction.run_written ?_ ?_ (stored.reaches machine).known
  · simpa using stored.scalar
  · intro issued member
    rcases List.mem_append.mp member with isLoad | isLast
    · exact .inl (stored.scalar issued isLoad)
    · rw [List.mem_singleton.mp isLast]
      exact .inr stored.isStore

/-- Behind a declaration in a function the name refers to a local of the declared type. -/
theorem VisitedIn.declaration_refers
    {program : Program}
    {pruned : Pruned}
    {text : String}
    (choice : pruned = .whole listing ∨ pruned = .ofListing listing)
    (emitted : listing.emit pruned.nodes = .ok text)
    {function : String}
    {line : Nat}
    {name : String}
    {type : Ty}
    {initial : Option Expr}
    {start finish : LoweringState}
    (visited : VisitedIn program listing function (.declare line name type initial) start finish)
    (isKept : function ∉ pruned.removed) :
    ∃ id target,
      finish.listing.scopes.lookup? finish.scope name = some id ∧
        listing.lookup? id = some target ∧ target.isLocal ∧ target.type = type := by
  obtain ⟨_, declared, last, parts, row, part, member, rfl, bound, begins, visits⟩ := visited
  obtain ⟨_, _, _, _, _, _, inside, lowered, grown⟩ :=
    row.makes choice emitted member isKept begins visits
  exact declare_refers inside lowered grown

/-- The lines of a statement leave the word of its expression in the slot of its variable. -/
theorem statement_lines_store_word
    {program : Program}
    {listing : Listing}
    {pruned : Pruned}
    {text : String}
    (choice : pruned = .whole listing ∨ pruned = .ofListing listing)
    (emitted : listing.emit pruned.nodes = .ok text)
    {function : String}
    {stmt : Stmt}
    {start finish : LoweringState}
    (visited : VisitedIn program listing function stmt start finish)
    (isKept : function ∉ pruned.removed)
    {name : String}
    {expr : Expr}
    (stores : Stores name expr stmt)
    (arithmetic : expr.isArithmetic)
    {id : VarId}
    {target : Variable}
    (refers : finish.listing.scopes.lookup? finish.scope name = some id)
    (known : listing.lookup? id = some target)
    (isLocal : target.isLocal)
    (isInt : target.type = .int) :
    ∃ code final kept lines offset,
      Makes listing pruned.nodes start finish code final ∧
        (kept = code.body.lines.toList ∨ kept = code.body.lines.toList.dropLast) ∧
        final.body.lines.toList = kept ++ lines.map .instruction ∧
        final.frame.offset? target = some offset ∧
        ∀ machine : Machine, machine.run lines ≠ .fault →
          ∃ later,
            machine.run lines = .next later ∧
              later.slots offset =
                expr.word
                  (listing.reads start.listing.scopes start.scope final.frame machine) ∧
              (∀ other, other ≠ offset → later.slots other = machine.slots other) ∧
              later.data = machine.data ∧
              ∀ entry ∈ code.pool.held, later.regs entry.2 = machine.regs entry.2 := by
  obtain ⟨_, declared, last, parts, row, part, member, rfl, bound, begins, visits⟩ := visited
  obtain ⟨code, final, makes, emits, agrees, tidy, inside, lowered, grown⟩ :=
    row.makes choice emitted member isKept begins visits
  obtain ⟨loads, instruction, offset, stored⟩ :=
    statement_stored row.numbered stores arithmetic inside lowered grown emits agrees tidy refers
      known isLocal isInt
  obtain ⟨kept, isFront, lines⟩ := lines_of_stored stored
  refine ⟨code, final, kept, _, offset, makes, isFront, lines, stored.place, ?_⟩
  intro machine runs
  rw [run_of_stored stored machine] at runs ⊢
  rcases stored.reaches machine with faults | ⟨later, same, word, slots, data, held⟩
  · exact (runs faults).elim
  · exact ⟨later, same, word, slots, data, fun entry member =>
      held entry.2 (List.mem_map_of_mem member)⟩

/-- The expression `(g + 2) * g / 2` over a global variable. -/
def halvedProduct : Expr :=
  .binary 2 .div
    (.binary 2 .mul (.binary 2 .add (.name 2 "g") (.literal 2 (.scalar .int "2")))
      (.name 2 "g"))
    (.literal 2 (.scalar .int "2"))

/-- A program that declares a local with that expression in the body of a loop. -/
def halvingProgram : Program :=
  { file := "t.ils"
    statements := [
      .declare 1 "g" .int (some (.literal 1 (.scalar .int "4"))),
      .function 2 "main" [] .absent 2 [
        .loop 2 (some ⟨2, [⟨2, .name 2 "g", none, none⟩], []⟩) 2
          [.declare 2 "x" .int (some halvedProduct)]]] }

theorem halvingProgram_stores_word :
    ∃ listing text start finish code final lines offset,
      halvingProgram.lower = .ok listing ∧
        listing.emit (Pruned.ofListing listing).nodes = .ok text ∧
        Makes listing (Pruned.ofListing listing).nodes start finish code final ∧
        (lines.map .instruction) <:+ final.body.lines.toList ∧
        ∀ machine : Machine, machine.run lines ≠ .fault →
          ∃ later,
            machine.run lines = .next later ∧
              later.slots offset =
                halvedProduct.word
                  (listing.reads start.listing.scopes start.scope final.frame machine) := by
  have accepted : (halvingProgram.lower.toOption.map fun listing =>
      (listing.emit (Pruned.ofListing listing).nodes).toBool &&
        !(Pruned.ofListing listing).removed.contains "main") = some true := by
    decide +kernel
  cases lowered : halvingProgram.lower with
  | error failure => simp [lowered, Except.toOption] at accepted
  | ok listing =>
      cases emitted : listing.emit (Pruned.ofListing listing).nodes with
      | error failure => simp [lowered, emitted, Except.toOption, Except.toBool] at accepted
      | ok text =>
          have isKept : "main" ∉ (Pruned.ofListing listing).removed := by
            simpa [lowered, emitted, Except.toOption, Except.toBool] using accepted
          obtain ⟨start, finish, visited⟩ := visitedIn_of_occurs lowered
            (List.mem_of_getElem? (show halvingProgram.statements[1]? = some _ from rfl))
            (.first (.loop (.first (@Occurs.here (.declare 2 "x" .int (some halvedProduct))))))
          obtain ⟨id, target, refers, known, isLocal, isInt⟩ :=
            visited.declaration_refers (.inr rfl) emitted isKept
          obtain ⟨code, final, kept, lines, offset, makes, _, shape, _, runs⟩ :=
            statement_lines_store_word (.inr rfl) emitted visited isKept (.declare 2)
              (by decide) refers known isLocal isInt
          refine ⟨listing, text, start, finish, code, final, lines, offset, rfl, emitted, makes,
            ⟨kept, shape.symm⟩, fun machine noFault => ?_⟩
          obtain ⟨later, run, word, _⟩ := runs machine noFault
          exact ⟨later, run, word⟩

end IlsCompiler.Lower
