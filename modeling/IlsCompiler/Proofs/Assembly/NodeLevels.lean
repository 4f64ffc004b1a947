import IlsCompiler.Proofs.Assembly.CodeSteps

namespace IlsCompiler

/-!
# The level of the stack at nodes

The code of every node inside a function starts and ends at level zero, so that labels and jumps
stand at level zero.
-/

/-- Some code is made from level zero to level zero. -/
def FunctionCode.Steady (permitted : Permitted) (before after : FunctionCode) : Prop :=
  before.frame.pushed = 0 → after.frame.pushed = 0 ∧ Writes permitted before after

namespace FunctionCode.Steady

variable
    {permitted : Permitted}
    {first second third : FunctionCode}

theorem refl
    (code : FunctionCode) :
    Steady permitted code code :=
  fun zero => ⟨zero, .refl⟩

theorem trans
    (earlier : Steady permitted first second)
    (later : Steady permitted second third) :
    Steady permitted first third := by
  intro zero
  obtain ⟨between, writes⟩ := earlier zero
  obtain ⟨last, more⟩ := later between
  exact ⟨last, writes.trans more⟩

theorem of_rises
    (rises : Rises permitted 0 first second) :
    Steady permitted first second := by
  intro zero
  have pushed := rises.pushed
  exact ⟨by omega, rises.writes⟩

end FunctionCode.Steady

/-- What a node calls and assigns to is permitted. -/
def Node.IsPermitted (permitted : Permitted) (listing : Listing) : Node → Prop
  | .assign target _ _ _ _ =>
      ∀ v name position scope,
        listing.lookup? target = some v → v.storage = .named name false true position scope →
          permitted.parameters position
  | .call invoked => invoked.builtin = false → permitted.calls invoked
  | _ => True

theorem Node.isPermitted_everything
    (listing : Listing)
    (node : Node) :
    node.IsPermitted .everything listing := by
  cases node with
  | assign => exact fun _ _ _ _ _ _ => trivial
  | call => exact fun _ => trivial
  | _ => trivial

namespace Emit

open Stateful FunctionCode

variable
    {permitted : Permitted}
    {listing : Listing}
    {before after : FunctionCode}
    {done : Unit}
    {nodes : List Node}

section Pending

variable
    (pending : listing.Pends permitted)

include pending

variable
    {id : VarId}
    {reg : Reg}

theorem load_rises
    (uses : before.Uses reg)
    (run : load listing reg id before = .ok (done, after)) :
    Rises permitted 0 before after := by
  obtain ⟨source, between, resolved, moved⟩ := bind_ok_iff.mp run
  have resolves := ((law_rises pending).resolution _).1 id _ (.inr (.inl rfl)) resolved
  exact resolves.still
    (moveInto_rises (uses.imp_right fun held => resolves.held held) (resolve_reaches resolved)
      moved)

variable
    {scratch : Reg}

theorem operable_rises
    {operand : Operand}
    (passing : isPassing scratch)
    (run : operable listing id scratch before = .ok (operand, after)) :
    Rises permitted 0 before after ∧ after.Reaches operand := by
  obtain ⟨source, between, resolved, settled⟩ := bind_ok_iff.mp run
  obtain ⟨settles, reaches⟩ := @settle_rises permitted _ _ _ passing _ _ _
    (resolve_reaches resolved) settled
  exact ⟨(((law_rises pending).resolution _).1 id _ passing resolved).still settles, reaches⟩

omit pending in
/-- Writing to memory that may be overwritten. -/
theorem store_rises
    {address : Address}
    {width : Nat}
    {source : Operand}
    (reaches : before.Reaches (.memory address width))
    (owned : ∀ position, address = StackFrame.parameterAddress position →
      permitted.parameters position)
    (notMemory : source.isMemory = false)
    (run : store (.memory address width) source before = .ok (done, after)) :
    Rises permitted 0 before after := by
  have writes : ∀ written : Operand, written.isMemory = false →
      Rises permitted 0 before
        { before with body := before.body.add (.mov (.memory address width) written) } := by
    intro written noMemory
    refine rises_still (fun _ => ?_) ⟨.store _ _ _, ?_, fun operand isOperand => ?_, ?_, nofun⟩
    · simp [Line.level?, Instruction.pushes?, Instruction.writesPointer, Instruction.target?]
    · simp [Instruction.target?]
    · simp only [Instruction.operands, List.mem_cons, List.not_mem_nil, or_false] at isOperand
      rcases isOperand with rfl | rfl
      · exact reaches
      · cases operand with
        | memory => cases noMemory
        | _ => trivial
    · rintro position bytes other isStore
      cases isStore
      exact owned position rfl
  cases source with
  | register reg bytes =>
      cases ins_ok_iff.mp run
      exact writes _ rfl
  | immediate text =>
      cases ins_ok_iff.mp run
      exact writes _ rfl
  | memory => cases notMemory

omit pending in
/-- What has been settled in a register if it is memory is no memory. -/
theorem notMemory_of_settle
    {isWide : Bool}
    {operand settled : Operand}
    (run : settle scratch (operand.isMemory || isWide) operand before = .ok (settled, after)) :
    settled.isMemory = false := by
  unfold settle at run
  split at run
  · obtain ⟨_, _, _, returned⟩ := bind_ok_iff.mp run
    obtain ⟨rfl, -⟩ := pure_ok_iff.mp returned
    rfl
  next stays =>
    obtain ⟨rfl, -⟩ := pure_ok_iff.mp run
    simp only [Bool.or_eq_true, not_or, Bool.not_eq_true] at stays
    exact stays.1

variable
    {selected : VarId}

theorem storeValue_rises
    {target : Variable}
    {value : Value}
    (owned : ∀ name position scope, target.storage = .named name false true position scope →
      permitted.parameters position)
    (run : storeValue listing target selected value before = .ok (done, after)) :
    Rises permitted 0 before after := by
  have law := law_rises pending
  unfold storeValue at run
  obtain ⟨operand, first, isStored, run⟩ := bind_ok_iff.mp run
  obtain ⟨source, second, settled, run⟩ := bind_ok_iff.mp run
  have valued := (law.resolution _).2.1 value isStored
  obtain ⟨settles, -⟩ := @settle_rises permitted _ _ _ (.inl rfl) _ _ _
    (stored_reaches isStored) settled
  have earlier := valued.still settles
  have notMemory := notMemory_of_settle settled
  cases storage : target.storage with
  | named name isGlobal isParam position scope =>
      simp only [storage] at run
      split at run
      · obtain ⟨place, between, named, written⟩ := bind_ok_iff.mp run
        have names := law.namedOperand _ _ _ _ _ named
        have reaches := namedOperand_reaches named
        refine (earlier.still names).still ?_
        rcases namedOperand_cases named with
          ⟨_, rfl, _⟩ | ⟨rfl, rfl, rfl, _⟩ | ⟨_, _, frame, address, placed, rfl, _⟩
        · exact store_rises reaches (fun _ isParameter => by cases isParameter) notMemory written
        · refine store_rises reaches (fun other same => ?_) notMemory written
          have isPosition : position = other := by
            simp only [StackFrame.parameterAddress, Address.frame.injEq, Int.natCast_inj,
              StackFrame.slotSize] at same
            omega
          exact isPosition ▸ owned _ _ _ storage
        · refine store_rises reaches (fun other same => ?_) notMemory written
          -- Slots lie below the frame pointer and parameters above it.
          have below : ∃ number, address = StackFrame.slotAddress number := by
            rcases slot_ok placed with ⟨number, _, _, isSlot⟩ | ⟨_, _, _, isSlot⟩
            · exact ⟨number, isSlot⟩
            · exact ⟨_, isSlot⟩
          obtain ⟨number, rfl⟩ := below
          simp only [StackFrame.parameterAddress, StackFrame.slotAddress, Address.frame.injEq,
            StackFrame.slotSize] at same
          omega
      · cases found : listing.lookup? selected with
        | none =>
            simp only [found] at run
            exact (fail_ok_iff.mp run).elim
        | some v =>
            obtain ⟨number, type, initial, preserved, lastUse, place⟩ := v
            cases place with
            | element array index =>
                simp only [found] at run
                obtain ⟨place, between, addressed, written⟩ := bind_ok_iff.mp run
                have addresses := (law.resolution _).2.2.2.1 _ _ _ (.inr (.inr rfl)) addressed
                refine (earlier.still addresses).still ?_
                obtain ⟨name, width, ⟨offset, rfl⟩ | ⟨reg, rfl⟩⟩ := element_cases addressed
                · exact @store_rises permitted _ _ _ (.symbol name offset) width _ trivial
                    (fun _ isParameter => by cases isParameter) notMemory written
                · exact @store_rises permitted _ _ _ (.indexed name reg width) width _ trivial
                    (fun _ isParameter => by cases isParameter) notMemory written
            | _ =>
                simp only [found] at run
                exact (fail_ok_iff.mp run).elim
  | _ =>
      simp only [storage] at run
      exact (fail_ok_iff.mp run).elim

theorem declare_rises
    (run : declare listing id before = .ok (done, after)) :
    Rises permitted 0 before after := by
  unfold declare at run
  cases found : listing.lookup? id with
  | none =>
      simp only [found] at run
      obtain ⟨-, rfl⟩ := pure_ok_iff.mp run
      exact .refl _
  | some v =>
      cases storage : v.storage with
      | temporary name scope =>
          simp only [found, storage] at run
          obtain ⟨_, _, loaded, returned⟩ := bind_ok_iff.mp run
          obtain ⟨-, rfl⟩ := pure_ok_iff.mp returned
          exact ((law_rises pending).resolution _).2.2.1 _ _ loaded
      | named name isGlobal isParam position scope =>
          simp only [found, storage] at run
          split at run
          · obtain ⟨_, _, _, failed⟩ := bind_ok_iff.mp run
            exact (fail_ok_iff.mp failed).elim
          · split at run
            next isLocal =>
              refine storeValue_rises pending (fun other place inner same => ?_) run
              rw [storage] at same
              cases same
              cases isLocal
            · obtain ⟨-, rfl⟩ := pure_ok_iff.mp run
              exact .refl _
      | _ =>
          simp only [found, storage] at run
          obtain ⟨-, rfl⟩ := pure_ok_iff.mp run
          exact .refl _

theorem assign_rises
    {target : VarId}
    {value : Value}
    (owned : ∀ v name position scope,
      listing.lookup? target = some v → v.storage = .named name false true position scope →
        permitted.parameters position)
    (run : assign listing target value selected before = .ok (done, after)) :
    Rises permitted 0 before after := by
  unfold assign at run
  cases found : listing.lookup? target with
  | none =>
      simp only [found] at run
      exact (fail_ok_iff.mp run).elim
  | some v =>
      cases storage : v.storage with
      | named name isGlobal isParam position scope =>
          simp only [found, storage] at run
          exact storeValue_rises pending
            (fun name position scope => owned v name position scope found) run
      | _ =>
          simp only [found, storage] at run
          exact (fail_ok_iff.mp run).elim

/-- A temporary holds the register that it is in. -/
theorem temporary_rises
    {depth : Nat}
    {v : Variable}
    {name : String}
    (run : temporary listing depth v name before = .ok (reg, after)) :
    Rises permitted 0 before after ∧ reg ∈ after.pool.heldRegs := by
  refine ⟨((law_rises pending).resolution _).2.2.1 _ _ run, ?_⟩
  rcases temporary_ok run with ⟨held, rfl⟩ | ⟨_, less, source, middle, between, _, _, taken, moved⟩
  · exact List.mem_map_of_mem (Pool.mem_held_of_held? held)
  · obtain ⟨pool, assigned, rfl⟩ := takeRegister_ok taken
    have isHeld := (Pool.held_of_assign assigned).1
    rcases moveInto_cases moved with rfl | ⟨_, _, rfl⟩ <;> exact isHeld

variable
    {left right : VarId}

theorem divide_rises
    {target answer : Reg}
    (uses : before.Uses target)
    (run : divide listing target left right answer before = .ok (done, after)) :
    Rises permitted 0 before after := by
  simp only [divide, bind_ok_iff] at run
  obtain ⟨_, first, leftLoaded, _, second, rightLoaded, _, third, extended, _, fourth, divided,
    moved⟩ := run
  have loads := (load_rises pending (.inl (.inl rfl)) leftLoaded).still
    (load_rises pending (.inl (.inr (.inl rfl))) rightLoaded)
  have divides := (loads.still (bare_rises (by simp) extended)).still
    (bare_rises (by simp) divided)
  cases ins_ok_iff.mp moved
  exact divides.still
    (@computes_rises _ _ target (.whole answer) _ (uses.imp_right fun held => divides.held held)
      trivial (List.mem_cons_self ..))

/-- An operation on two variables that one instruction does. -/
theorem combine_rises
    {target : Reg}
    {left right : VarId}
    {op : ArithOp}
    (uses : before.Uses target)
    (run : (do
      load listing target left
      let operand ← operable listing right Reg.sourceIndex
      match op with
      | .add => ins (.add (.whole target) operand)
      | .sub => ins (.sub (.whole target) operand)
      | .mul => ins (.imul (.whole target) operand)
      | _ => fail (.unknownOperator op) 0 : Emit Unit) before = .ok (done, after)) :
    Rises permitted 0 before after := by
  obtain ⟨_, first, loaded, run⟩ := bind_ok_iff.mp run
  obtain ⟨operand, second, operated, run⟩ := bind_ok_iff.mp run
  obtain ⟨operates, reaches⟩ := operable_rises pending (.inr (.inl rfl)) operated
  have earlier := (load_rises pending uses loaded).still operates
  have stillUses : second.Uses target := uses.imp_right fun held => earlier.held held
  have computes : ∀ instruction ∈ ([.add (.whole target) operand, .sub (.whole target) operand,
      .imul (.whole target) operand] : List Instruction),
      ins instruction second = .ok (done, after) → Rises permitted 0 before after := by
    intro instruction member added
    cases ins_ok_iff.mp added
    refine earlier.still (computes_rises stillUses reaches ?_)
    simp only [Instruction.computations, List.mem_cons, List.not_mem_nil, or_false] at member ⊢
    rcases member with rfl | rfl | rfl <;> simp
  cases op with
  | add => exact computes _ (by simp) run
  | sub => exact computes _ (by simp) run
  | mul => exact computes _ (by simp) run
  | _ => exact (fail_ok_iff.mp run).elim

theorem arith_rises
    {result left right : VarId}
    {op : ArithOp}
    (run : arith listing result left right op before = .ok (done, after)) :
    Rises permitted 0 before after := by
  unfold arith resultRegister at run
  obtain ⟨target, between, registered, later⟩ := bind_ok_iff.mp run
  cases found : listing.lookup? result with
  | none =>
      simp only [found] at registered
      exact (fail_ok_iff.mp registered).elim
  | some v =>
      simp only [found] at registered
      cases storage : v.storage with
      | temporary name scope =>
          simp only [storage] at registered
          obtain ⟨first, held⟩ := temporary_rises pending registered
          refine first.still ?_
          cases op with
          | div => exact divide_rises pending (.inr held) later
          | mod => exact divide_rises pending (.inr held) later
          | add => exact @combine_rises _ _ _ _ _ pending _ _ _ .add (.inr held) later
          | sub => exact @combine_rises _ _ _ _ _ pending _ _ _ .sub (.inr held) later
          | mul => exact @combine_rises _ _ _ _ _ pending _ _ _ .mul (.inr held) later
          | unknown => exact @combine_rises _ _ _ _ _ pending _ _ _ .unknown (.inr held) later
      | _ =>
          simp only [storage] at registered
          exact (fail_ok_iff.mp registered).elim

theorem compare_rises
    (run : compare listing left right before = .ok (done, after)) :
    Rises permitted 0 before after := by
  unfold compare at run
  obtain ⟨rightOperand, first, operated, run⟩ := bind_ok_iff.mp run
  obtain ⟨operand, second, resolved, run⟩ := bind_ok_iff.mp run
  obtain ⟨leftOperand, third, settled, run⟩ := bind_ok_iff.mp run
  cases ins_ok_iff.mp run
  obtain ⟨operates, rightReaches⟩ := operable_rises pending (.inr (.inl rfl)) operated
  have resolves := ((law_rises pending).resolution _).1 left _ (.inr (.inr rfl)) resolved
  obtain ⟨settles, leftReaches⟩ := @settle_rises permitted _ _ _ (.inl rfl) _ _ _
    (resolve_reaches resolved) settled
  refine ((operates.still resolves).still settles).still (rises_still (fun _ => ?_)
    ⟨.cmp _ _, ?_, fun operand isOperand => ?_, nofun, nofun⟩)
  · simp [Line.level?, Instruction.pushes?, Instruction.writesPointer, Instruction.target?]
  · simp [Instruction.target?]
  · simp only [Instruction.operands, List.mem_cons, List.not_mem_nil, or_false] at isOperand
    rcases isOperand with rfl | rfl
    · exact leftReaches
    · exact settles.reaches (resolves.reaches rightReaches)

theorem passFormat_rises
    {format : String}
    {argument : VarId}
    (run : passFormat listing format argument before = .ok (done, after)) :
    Rises permitted 0 before after := by
  simp only [passFormat, bind_ok_iff] at run
  obtain ⟨_, first, moved, _, second, loaded, cleared⟩ := run
  cases ins_ok_iff.mp moved
  cases ins_ok_iff.mp cleared
  have formats := @computes_rises permitted before .rdi (.immediate format) _
    (.inl (.inr (.inr rfl))) trivial (List.mem_cons_self ..)
  have loads := formats.still (load_rises pending (.inl (.inr (.inl rfl))) loaded)
  exact loads.still
    (@computes_rises _ _ .rax (.whole .rax) _ (.inl (.inl rfl)) trivial
      (by simp [Instruction.computations]))

theorem print_rises
    {argument : Variable}
    {newline : Bool}
    (run : print listing argument newline before = .ok (done, after)) :
    Rises permitted 0 before after := by
  obtain ⟨format, saved, first, second, third, _, saves, passes, jumps, restores⟩ := print_ok run
  exact call_rises (.inl rfl) saves (passFormat_rises pending passes) jumps rfl restores

theorem exit_rises
    {code : VarId}
    (run : exit listing code before = .ok (done, after)) :
    Rises permitted 0 before after := by
  simp only [exit, bind_ok_iff] at run
  obtain ⟨_, first, numbered, _, second, loaded, called⟩ := run
  cases ins_ok_iff.mp numbered
  have numbers := @computes_rises permitted before .rax (.number exitCall) _
    (.inl (.inl rfl)) trivial (List.mem_cons_self ..)
  exact (numbers.still (load_rises pending (.inl (.inr (.inr rfl))) loaded)).still
    (bare_rises (by simp) called)

theorem builtinCall_rises
    {invoked : Call}
    (run : builtinCall listing invoked before = .ok (done, after)) :
    Rises permitted 0 before after := by
  unfold builtinCall at run
  cases known : Builtin.ofName? invoked.name with
  | none =>
      simp only [known] at run
      exact (fail_ok_iff.mp run).elim
  | some builtin =>
      simp only [known] at run
      split at run
      · obtain ⟨_, _, failed, _⟩ := bind_ok_iff.mp run
        exact (fail_ok_iff.mp failed).elim
      · cases argument : (invoked.arguments.head?).bind listing.lookup? with
        | none =>
            simp only [argument] at run
            exact (fail_ok_iff.mp run).elim
        | some v =>
            simp only [argument] at run
            split at run
            · obtain ⟨_, _, failed, _⟩ := bind_ok_iff.mp run
              exact (fail_ok_iff.mp failed).elim
            · split at run
              · exact exit_rises pending run
              · exact print_rises pending run

theorem leave_rises
    {value : VarId}
    (run : leave listing value before = .ok (done, after)) :
    Rises permitted 0 before after := by
  unfold leave at run
  split at run
  · exact load_rises pending (.inl (.inl rfl)) run
  · obtain ⟨-, rfl⟩ := pure_ok_iff.mp run
    exact .refl _

/--
A node inside a function adds a label or a jump, takes back the register of a temporary, or makes
code that adds no label.
-/
theorem node_cases
    {node : Node}
    (inner : node.isInner)
    (isPermitted : node.IsPermitted permitted listing)
    (run : Emit.node listing node before = .ok (done, after)) :
    (∃ name, node = .label name ∧ after = { before with body := before.body.label name }) ∨
      (∃ label condition, node = .jump label condition ∧
        after = { before with body := before.body.add (.jump condition label) }) ∨
      (∃ id, node = .destroy id ∧ after = { before with pool := before.pool.release id }) ∨
      (Listing.labelsOf [node] = [] ∧ Rises permitted 0 before after) := by
  cases node with
  | label name => exact .inl ⟨name, rfl, (modify_ok_iff.mp run).symm⟩
  | jump label condition => exact .inr (.inl ⟨label, condition, rfl, ins_ok_iff.mp run⟩)
  | destroy id => exact .inr (.inr (.inl ⟨id, rfl, (modify_ok_iff.mp run).symm⟩))
  | openScope scope kind =>
      cases (pure_ok_iff.mp run).2
      exact .inr (.inr (.inr ⟨rfl, .refl _⟩))
  | declare id line =>
      exact .inr (.inr (.inr ⟨rfl, declare_rises pending (atLine_ok_iff.mp run)⟩))
  | assign target value type selected line =>
      exact .inr (.inr (.inr ⟨rfl, assign_rises pending isPermitted (atLine_ok_iff.mp run)⟩))
  | arith result left right op line =>
      exact .inr (.inr (.inr ⟨rfl, arith_rises pending (atLine_ok_iff.mp run)⟩))
  | compare left right line =>
      exact .inr (.inr (.inr ⟨rfl, compare_rises pending (atLine_ok_iff.mp run)⟩))
  | call invoked =>
      refine .inr (.inr (.inr ⟨rfl, ?_⟩))
      have called := atLine_ok_iff.mp run
      unfold call at called
      split at called
      · exact builtinCall_rises pending called
      next notBuiltin =>
        have known : permitted.calls invoked := isPermitted (by simpa using notBuiltin)
        exact ((law_rises pending).resolution _).2.2.2.2 invoked known called
  | leave value line =>
      exact .inr (.inr (.inr ⟨rfl, leave_rises pending (atLine_ok_iff.mp run)⟩))
  | entry | prologue | epilogue | closeScope => cases inner

/-- The code of a node inside a function starts and ends at level zero. -/
theorem node_steady
    {node : Node}
    (inner : node.isInner)
    (isPermitted : node.IsPermitted permitted listing) :
    Respects (Steady permitted) (Emit.node listing node) := by
  intro before done after run
  rcases node_cases pending inner isPermitted run with ⟨name, _, rfl⟩ | ⟨label, condition, _, rfl⟩ |
    ⟨id, _, rfl⟩ | ⟨_, rises⟩
  · exact fun zero => ⟨zero, .single (.label before name zero)⟩
  · intro zero
    refine Steady.of_rises (rises_still (fun _ => by simp [Line.level?, zero])
      ⟨.jump _ _, ?_, ?_, nofun, nofun⟩) zero
    · simp [Instruction.target?]
    · simp [Instruction.operands]
  · exact fun zero => ⟨zero, .single (.release before id)⟩
  · exact .of_rises rises

/-- The code of nodes inside a function starts and ends at level zero. -/
theorem nodes_steady
    (inner : ∀ node ∈ nodes, node.isInner)
    (arePermitted : ∀ node ∈ nodes, node.IsPermitted permitted listing) :
    Respects (Steady permitted) (Emit.nodes listing nodes) := by
  induction nodes with
  | nil =>
      intro before done after run
      cases nodes_nil_ok_iff.mp run
      exact .refl _
  | cons first rest inductionHypothesis =>
      intro before done after run
      obtain ⟨between, one, others⟩ := nodes_cons_ok_iff.mp run
      have start := node_steady pending (inner first (by simp)) (arePermitted first (by simp)) one
      exact start.trans (inductionHypothesis (fun node member => inner node (by simp [member]))
        (fun node member => arePermitted node (by simp [member])) others)

end Pending

/-- Nodes inside a function add their labels to its code. -/
theorem nodes_labels
    (inner : ∀ node ∈ nodes, node.isInner)
    (run : Emit.nodes listing nodes before = .ok (done, after)) :
    after.body.labels = before.body.labels ++ Listing.labelsOf nodes := by
  induction nodes generalizing before with
  | nil =>
      cases nodes_nil_ok_iff.mp run
      exact (List.append_nil _).symm
  | cons first rest inductionHypothesis =>
      obtain ⟨between, one, others⟩ := nodes_cons_ok_iff.mp run
      have more := inductionHypothesis (fun node member => inner node (by simp [member])) others
      have split : Listing.labelsOf (first :: rest) =
          Listing.labelsOf [first] ++ Listing.labelsOf rest :=
        List.filterMap_append (l := [first])
      rw [more, split, ← List.append_assoc]
      congr 1
      rcases node_cases listing.pends_everything (inner first (by simp))
        (first.isPermitted_everything listing) one with ⟨name, rfl, rfl⟩ |
          ⟨label, condition, rfl, rfl⟩ | ⟨id, rfl, rfl⟩ | ⟨noLabel, rises⟩
      · exact Body.labels_label _ _
      · simp [Listing.labelsOf]
      · exact (List.append_nil _).symm
      · rw [noLabel, List.append_nil, rises.labels]

end Emit

end IlsCompiler
