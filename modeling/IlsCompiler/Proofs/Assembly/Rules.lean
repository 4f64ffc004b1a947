import IlsCompiler.Proofs.Assembly.Steps
import IlsCompiler.Proofs.Lowering.References

namespace IlsCompiler

/-!
# What all code keeps to

The code of every node is put together in the same way: operands are resolved, loaded and pushed,
and instructions are issued. A property of steps that holds for these parts, and for a sequence
if it holds for what the sequence consists of, holds for the code of nodes.
-/

/-- The operands of an instruction. -/
def Instruction.operands : Instruction → List Operand
  | .mov target source => [target, source]
  | .movsxd _ source => [source]
  | .movzx _ source => [source]
  | .add target source => [target, source]
  | .sub target source => [target, source]
  | .imul target source => [target, source]
  | .cmp left right => [left, right]
  | .xor target source => [target, source]
  | .push source => [source]
  | _ => []

namespace Emit

open Stateful

/-- A property of steps, which may depend on what is wanted of their results. -/
abbrev Property :=
  (α : Type) → (α → Prop) → Emit α → Prop

/-- A property holds for a step whatever comes of it. -/
abbrev Property.Of {α : Type} (has : Property) (step : Emit α) : Prop :=
  has α (fun _ => True) step

/-- The changes of code that add no instruction at its end. -/
inductive Adjusts : (FunctionCode → FunctionCode) → Prop
  | label (name : String) : Adjusts fun code => { code with body := code.body.label name }
  | release (id : VarId) : Adjusts fun code => { code with pool := code.pool.release id }
  | reserve (locals : Nat) : Adjusts fun code =>
      { code with
        body := code.body.reserve.1
        frame := { code.frame with locals := locals, reserved := code.body.reserve.2 } }
  | fill (size : Nat) (saved : List Reg) : Adjusts fun code =>
      { code with body := code.body.fill code.frame.reserved (setup size saved) }

/--
A property holds for the parts that neither fail nor call, if their operands fit, and for
sequences of steps that it holds for. What is read does not depend on the calls made so far.
-/
structure Sequences (fits : Operand → Prop) (has : Property) : Prop where
  register : ∀ reg width, fits (.register reg width)
  immediate : ∀ text, fits (.immediate text)
  pure : ∀ {α : Type} {wanted : α → Prop} {value : α}, wanted value → has α wanted (pure value)
  bind : ∀ {α β : Type} {between : α → Prop} {wanted : β → Prop} {step : Emit α}
    {next : α → Emit β},
    has α between step → (∀ value, between value → has β wanted (next value)) →
      has β wanted (step >>= next)
  read : ∀ {β : Type} {wanted : β → Prop} {next : FunctionCode → Emit β},
    (∀ code calls, next { code with calls := calls } = next code) →
      (∀ code, has β wanted (next code)) → has β wanted (get >>= next)
  ins : ∀ {instruction : Instruction},
    (∀ name, instruction ≠ .call name) → (∀ operand ∈ instruction.operands, fits operand) →
      has.Of (ins instruction)
  countPushed : ∀ change, has.Of (countPushed change)

namespace Sequences

variable
    {fits : Operand → Prop}
    {has : Property}
    (sequences : Sequences fits has)

include sequences

/-- What is known of a result may be forgotten. -/
theorem weaken
    {α : Type}
    {wanted weaker : α → Prop}
    {step : Emit α}
    (holds : has α wanted step)
    (implies : ∀ value, wanted value → weaker value) :
    has α weaker step := by
  rw [← bind_pure step]
  exact sequences.bind holds fun value isWanted => sequences.pure (implies value isWanted)

theorem forM
    {α : Type}
    {items : List α}
    {step : α → Emit PUnit}
    (each : ∀ item ∈ items, has.Of (step item)) :
    has.Of (items.forM step) := by
  induction items with
  | nil => exact sequences.pure trivial
  | cons first rest inductionHypothesis =>
      refine sequences.bind (each first List.mem_cons_self) fun _ _ => ?_
      exact inductionHypothesis fun item member => each item (List.mem_cons_of_mem _ member)

variable
    {operand : Operand}

theorem moveInto
    (reg : Reg)
    (fitting : fits operand) :
    has.Of (moveInto reg operand) := by
  have loads : ∀ instruction ∈ [.mov (.whole reg) operand, .movsxd reg operand,
      .movzx reg operand], has.Of (Emit.ins instruction) := by
    intro instruction member
    simp only [List.mem_cons, List.not_mem_nil, or_false] at member
    rcases member with rfl | rfl | rfl <;>
      exact sequences.ins nofun
        (by simp [Instruction.operands, Operand.whole, sequences.register, fitting])
  unfold Emit.moveInto
  split
  · split
    · exact sequences.pure trivial
    · exact loads _ (by simp)
  · split
    · exact loads _ (by simp)
    · split <;> exact loads _ (by simp)
  · exact loads _ (by simp)

theorem settle
    (scratch : Reg)
    (mustMove : Bool)
    (fitting : fits operand) :
    has Operand fits (settle scratch mustMove operand) := by
  unfold Emit.settle
  split
  · exact sequences.bind (sequences.moveInto scratch fitting) fun _ _ =>
      sequences.pure (sequences.register _ _)
  · exact sequences.pure fitting

theorem push
    (fitting : fits operand) :
    has.Of (push operand) :=
  sequences.bind (sequences.ins nofun (by simp [Instruction.operands, fitting])) fun _ _ =>
    sequences.countPushed _

theorem saveLive
    (arguments : Nat) :
    has.Of (saveLive arguments) := by
  refine sequences.read (fun _ _ => rfl) fun code => ?_
  refine sequences.bind (sequences.forM fun reg _ =>
    sequences.push (sequences.register _ _)) fun _ _ => ?_
  refine sequences.read (fun _ _ => rfl) fun later => ?_
  split
  · exact sequences.pure trivial
  · refine sequences.bind (sequences.ins nofun ?_) fun _ _ =>
      sequences.bind (sequences.countPushed _) fun _ _ => sequences.pure trivial
    simp [Instruction.operands, Operand.whole, Operand.number, sequences.register,
      sequences.immediate]

theorem adjust
    (bytes : Nat)
    (change : Nat → Nat) :
    has.Of (do
      Emit.ins (.add (.whole .rsp) (.number bytes))
      Emit.countPushed change) := by
  refine sequences.bind (sequences.ins nofun ?_) fun _ _ => sequences.countPushed _
  simp [Instruction.operands, Operand.whole, Operand.number, sequences.register,
    sequences.immediate]

theorem dropArguments
    (arguments : Nat) :
    has.Of (dropArguments arguments) := by
  unfold Emit.dropArguments
  split
  · exact sequences.adjust _ _
  · exact sequences.pure trivial

theorem restoreLive
    (saved : Saved) :
    has.Of (restoreLive saved) := by
  have pops : has.Of
      (saved.regs.reverse.forM fun reg => do Emit.ins (.pop reg); Emit.countPushed (· - 1)) :=
    sequences.forM fun reg _ => sequences.bind
      (sequences.ins nofun (by simp [Instruction.operands])) fun _ _ => sequences.countPushed _
  unfold Emit.restoreLive
  dsimp only
  split
  · rw [← bind_assoc]
    exact sequences.bind (sequences.adjust _ _) fun _ _ => pops
  · exact pops

theorem store
    {target source : Operand}
    (isTarget : fits target)
    (isSource : fits source) :
    has.Of (store target source) := by
  unfold Emit.store
  split <;>
    exact sequences.ins nofun
      (by simp [Instruction.operands, sequences.register, isTarget, isSource])

/-- Where nothing is wanted of an address, it is found if a constant that is no number may fail. -/
theorem elementAt
    {array : String}
    {width : Nat}
    {scratch : Reg}
    {wanted : Operand → Prop}
    (refuse : ∀ fault, has Operand wanted (fail fault 0))
    (fitting : fits operand)
    (any : ∀ place, wanted place) :
    has Operand wanted (elementAt array width scratch operand) := by
  unfold Emit.elementAt
  split
  · unfold constantElement
    split
    · exact refuse _
    · split <;> exact sequences.pure (any _)
  · exact sequences.pure (any _)
  · exact sequences.bind (sequences.moveInto _ fitting) fun _ _ => sequences.pure (any _)

/-- The epilogue is made of plain instructions, but that it fills the gap of the prologue. -/
theorem epilogue
    (fills : ∀ size saved, has.Of (modify fun code =>
      { code with body := code.body.fill code.frame.reserved (setup size saved) })) :
    has.Of epilogue := by
  refine sequences.read (fun _ _ => rfl) fun code => ?_
  have ends : has.Of (do
      Emit.ins (.mov (.whole .rsp) (.whole .rbp))
      Emit.ins (.pop .rbp)
      modify fun current =>
        { current with
          body := current.body.fill current.frame.reserved
            (setup (code.frame.size code.pool.touched.length) code.pool.touched) }) := by
    refine sequences.bind (sequences.ins nofun ?_) fun _ _ =>
      sequences.bind (sequences.ins nofun (by simp [Instruction.operands])) fun _ _ => fills _ _
    simp [Instruction.operands, Operand.whole, sequences.register]
  have restores : has.Of (do
      if !code.pool.touched.isEmpty then
        Emit.ins (.lea .rsp (.frame (-((code.frame.size code.pool.touched.length +
          StackFrame.slotSize * code.pool.touched.length : Nat) : Int))))
        code.pool.touched.reverse.forM fun reg => Emit.ins (.pop reg)
      Emit.ins (.mov (.whole .rsp) (.whole .rbp))
      Emit.ins (.pop .rbp)
      modify fun current =>
        { current with
          body := current.body.fill current.frame.reserved
            (setup (code.frame.size code.pool.touched.length) code.pool.touched) }) := by
    dsimp only
    split
    · refine sequences.bind (sequences.ins nofun (by simp [Instruction.operands])) fun _ _ => ?_
      exact sequences.bind (sequences.forM fun reg _ =>
        sequences.ins nofun (by simp [Instruction.operands])) fun _ _ => ends
    · exact ends
  dsimp only
  split
  · refine sequences.bind (sequences.ins nofun ?_) fun _ _ => restores
    simp [Instruction.operands, Operand.whole, sequences.register]
  · exact restores

/-- A step that may be refused before it is taken. -/
theorem refusable
    {β : Type}
    {wanted : β → Prop}
    {found : Prop}
    [Decidable found]
    {fault : EmissionFault}
    {line : Nat}
    {next : Unit → Emit β}
    (fails : has.Of (fail fault line : Emit Unit))
    (each : has β wanted (next ())) :
    has β wanted (if found then fail fault line >>= next else next ()) := by
  split
  · exact sequences.bind fails fun _ _ => each
  · exact each

variable
    {listing : Listing}
    {depth : Nat}
    {located : VarId → Operand → Prop}
    (fitting : ∀ id operand, located id operand → fits operand)

include fitting

theorem pushArguments
    {ids : List VarId}
    (resolves : ∀ id ∈ ids, has Operand (located id) (resolve listing depth id Reg.sourceIndex)) :
    has.Of (pushArguments listing depth ids) :=
  sequences.forM fun id member => sequences.bind (resolves id member) fun _ isLocated =>
    sequences.bind (sequences.settle _ _ (fitting _ _ isLocated)) fun _ fits => sequences.push fits

/-- A call that is made at most once, where the call itself and its refusal have the property. -/
theorem userCall
    {call : Call}
    (fails : ∀ fault, has.Of (fail fault call.line : Emit Unit))
    (jump : has.Of (Emit.ins (.call call.name)))
    (once : ∀ {rest : Emit Unit}, has.Of rest → has.Of (do
      if call.id ∈ (← get).calls then
        return ()
      modify fun code => { code with calls := code.calls ++ [call.id] }
      rest))
    (resolves : ∀ id ∈ call.arguments,
      has Operand (located id) (resolve listing depth id Reg.sourceIndex)) :
    has.Of (userCall listing (depth + 1) call) := by
  have makes : has.Of (do
      let saved ← Emit.saveLive call.arguments.length
      Emit.pushArguments listing depth call.arguments.reverse
      Emit.ins (.call call.name)
      Emit.dropArguments call.arguments.length
      Emit.restoreLive saved) := by
    refine sequences.bind (sequences.saveLive _) fun _ _ => sequences.bind
      (sequences.pushArguments fitting fun id member => ?_) fun _ _ => ?_
    · exact resolves id (List.mem_reverse.mp member)
    · exact sequences.bind jump fun _ _ => sequences.bind (sequences.dropArguments _) fun _ _ =>
        sequences.restoreLive _
  rw [Emit.userCall]
  refine once ?_
  split
  · exact fails _
  · exact sequences.refusable (fails _) makes

end Sequences

/-- The results of a step are as wanted. -/
def Yields {α : Type} (wanted : α → Prop) (step : Emit α) : Prop :=
  ∀ ⦃before value after⦄, step before = .ok (value, after) → wanted value

/-- A property that does not depend on results holds for the parts and for sequences. -/
structure Closed (has : (α : Type) → Emit α → Prop) : Prop where
  pure : ∀ {α : Type} (value : α), has α (pure value)
  bind : ∀ {α β : Type} {step : Emit α} {next : α → Emit β},
    has α step →
      (∀ ⦃before value after⦄, step before = .ok (value, after) → has β (next value)) →
        has β (step >>= next)
  read : ∀ {β : Type} {next : FunctionCode → Emit β},
    (∀ code calls, next { code with calls := calls } = next code) →
      (∀ code, has β (next code)) → has β (get >>= next)
  ins : ∀ {instruction}, (∀ name, instruction ≠ .call name) → has Unit (ins instruction)
  countPushed : ∀ change, has Unit (countPushed change)

/-- What is wanted of results goes along with a property that does not depend on it. -/
theorem Closed.sequences
    {has : (α : Type) → Emit α → Prop}
    (closed : Closed has) :
    Sequences (fun _ => True) fun α wanted step => has α step ∧ Yields wanted step where
  register _ _ := trivial
  immediate _ := trivial
  pure isWanted := ⟨closed.pure _, fun _ _ _ run => (pure_ok_iff.mp run).1 ▸ isWanted⟩
  bind first second := by
    refine ⟨closed.bind first.1 fun _ _ _ run => (second _ (first.2 run)).1, ?_⟩
    intro before result after run
    obtain ⟨value, middle, stepped, later⟩ := bind_ok_iff.mp run
    exact (second value (first.2 stepped)).2 later
  read blind each := by
    refine ⟨closed.read blind fun code => (each code).1, fun before result after run => ?_⟩
    obtain ⟨code, middle, _, later⟩ := bind_ok_iff.mp run
    exact (each code).2 later
  ins noCall _ := ⟨closed.ins noCall, fun _ _ _ _ => trivial⟩
  countPushed change := ⟨closed.countPushed change, fun _ _ _ _ => trivial⟩

/--
A property of the steps that make code, with the variables that they may ask for, the calls that
they may make, the lines that they may be refused for, the operands that instructions may have,
those that are registers or memory, and those that may stand for a variable.
-/
structure Rule where
  owned : VarId → Prop
  called : Call → Prop
  placed : Nat → Prop
  fits : Operand → Prop
  isPlace : Operand → Prop
  located : VarId → Operand → Prop
  has : Property

namespace Rule

variable
    {rule : Rule}
    {listing : Listing}

/-- What one may ask for leads to what one may ask for and to calls that may be made. -/
structure Leads (rule : Rule) (listing : Listing) : Prop where
  number : ∀ {id v}, rule.owned id → listing.lookup? id = some v → rule.owned v.id
  temporary : ∀ {id v name scope next},
    rule.owned id → listing.lookup? id = some v → v.storage = .temporary name scope →
      v.value.reference? = some next → rule.owned next
  element : ∀ {id v array index},
    rule.owned id → listing.lookup? id = some v → v.storage = .element array index →
      rule.owned index
  result : ∀ {id v function call},
    rule.owned id → listing.lookup? id = some v → v.storage = .result function call →
      rule.called call

/-- What a node is about may be asked for, and what it calls may be called. -/
structure Allows (rule : Rule) (listing : Listing) (step : Node) : Prop where
  uses : ∀ id ∈ step.uses, rule.owned id
  declared : ∀ {id line v next},
    step = .declare id line → listing.lookup? id = some v → v.storage.isNamed →
      v.value.reference? = some next → rule.owned next
  call : ∀ {call}, step = .call call → call.builtin = false → rule.called call

/-- What a rule has to satisfy to be kept by the code of nodes. -/
structure Lawful (rule : Rule) (listing : Listing) : Prop extends
    Sequences rule.fits rule.has where
  leads : rule.Leads listing
  unplaced : rule.placed 0
  line : ∀ {call}, rule.called call → rule.placed call.line
  fail : ∀ {α : Type} {wanted : α → Prop} {line} fault,
    rule.placed line → rule.has α wanted (fail fault line)
  calls : ∀ {depth call},
    rule.called call →
      (∀ {id}, rule.owned id →
        rule.has Operand (rule.located id) (resolve listing depth id Reg.sourceIndex)) →
        rule.has.Of (userCall listing (depth + 1) call)
  take : ∀ name {v}, rule.owned v.id → rule.has.Of (takeRegister name v)
  whole : ∀ reg, rule.isPlace (.whole reg)
  placeFits : ∀ {operand}, rule.isPlace operand → rule.fits operand
  constant : ∀ {id v}, listing.lookup? id = some v → v.storage = .literal →
    rule.located id (.immediate v.value.text)
  place : ∀ {id v operand}, listing.lookup? id = some v → v.storage ≠ .literal →
    rule.isPlace operand → rule.located id operand
  fitting : ∀ {id operand}, rule.located id operand → rule.fits operand
  named : ∀ {id v name isGlobal isParam position scope},
    listing.lookup? id = some v → v.storage = .named name isGlobal isParam position scope →
      rule.has Operand rule.isPlace (namedOperand v name isGlobal isParam position)
  addressed : ∀ {id v array index owner name isParam position scope operand} scratch,
    listing.lookup? id = some v → v.storage = .element array index →
      listing.lookup? array = some owner → owner.storage = .named name true isParam position scope →
        rule.located index operand →
          rule.has Operand rule.isPlace
            (elementAt name owner.type.element.width scratch operand)

/-- Whatever can be asked for up to a depth keeps to a rule. -/
structure Within (rule : Rule) (listing : Listing) (depth : Nat) : Prop where
  resolve : ∀ {id} scratch, rule.owned id →
    rule.has Operand (rule.located id) (Emit.resolve listing depth id scratch)
  stored : ∀ {value : Value}, (∀ id, value.reference? = some id → rule.owned id) →
    rule.has Operand rule.fits (Emit.stored listing depth value)
  temporary : ∀ {id v name scope},
    rule.owned id → listing.lookup? id = some v → v.storage = .temporary name scope →
      rule.has.Of (Emit.temporary listing depth v name)
  element : ∀ {id v array index} scratch,
    rule.owned index → listing.lookup? id = some v → v.storage = .element array index →
      rule.has Operand rule.isPlace (Emit.element listing depth array index scratch)
  userCall : ∀ {call}, rule.called call → rule.has.Of (Emit.userCall listing depth call)

/-- A rule for a property that does not depend on results, with no demands on operands. -/
def closed (owned : VarId → Prop) (called : Call → Prop) (placed : Nat → Prop)
    (has : (α : Type) → Emit α → Prop) : Rule where
  owned := owned
  called := called
  placed := placed
  fits _ := True
  isPlace _ := True
  located _ _ := True
  has α wanted step := has α step ∧ Yields wanted step

theorem closed_lawful
    {owned : VarId → Prop}
    {called : Call → Prop}
    {placed : Nat → Prop}
    {has : (α : Type) → Emit α → Prop}
    (isClosed : Closed has)
    (leads : (closed owned called placed has).Leads listing)
    (unplaced : placed 0)
    (line : ∀ {call}, called call → placed call.line)
    (fail : ∀ {α : Type} {line} fault, placed line → has α (fail fault line))
    (calls : ∀ {depth call},
      called call → (∀ {id}, owned id → has Operand (resolve listing depth id Reg.sourceIndex)) →
        has Unit (userCall listing (depth + 1) call))
    (take : ∀ name {v : Variable}, owned v.id → has Reg (takeRegister name v))
    (named : ∀ v name isGlobal isParam position,
      has Operand (namedOperand v name isGlobal isParam position)) :
    (closed owned called placed has).Lawful listing :=
  have fails : ∀ {α : Type} {wanted : α → Prop} {line} fault, placed line →
      has α (Emit.fail fault line) ∧ Yields wanted (Emit.fail fault line : Emit α) :=
    fun fault here => ⟨fail fault here, fun _ _ _ run => (fail_ok_iff.mp run).elim⟩
  { isClosed.sequences with
    leads := leads
    unplaced := unplaced
    line := line
    fail := fails
    calls := fun isCalled resolves =>
      ⟨calls isCalled fun isOwned => (resolves isOwned).1, fun _ _ _ _ => trivial⟩
    take := fun name _ isOwned => ⟨take name isOwned, fun _ _ _ _ => trivial⟩
    whole := fun _ => trivial
    placeFits := fun _ => trivial
    constant := fun _ _ => trivial
    place := fun _ _ _ => trivial
    fitting := fun _ => trivial
    named := fun _ _ => ⟨named _ _ _ _ _, fun _ _ _ _ => trivial⟩
    addressed := fun _ _ _ _ _ _ =>
      isClosed.sequences.elementAt (fun _ => fails _ unplaced) trivial fun _ => trivial }

namespace Lawful

variable
    (lawful : rule.Lawful listing)

include lawful

/-- Whatever is asked for keeps to the rule. -/
theorem within
    (depth : Nat) :
    rule.Within listing depth := by
  induction depth with
  | zero =>
      constructor
      case userCall =>
        intro call called
        rw [Emit.userCall]
        exact lawful.fail _ (lawful.line called)
      all_goals
        intros
        simp only [Emit.resolve, Emit.stored, Emit.temporary, Emit.element]
        exact lawful.fail _ lawful.unplaced
  | succ depth inductionHypothesis =>
      obtain ⟨resolves, stores, temporaries, elements, calls⟩ := inductionHypothesis
      constructor
      case resolve =>
        intro id scratch isOwned
        rw [Emit.resolve]
        split
        · exact lawful.fail _ lawful.unplaced
        next v found =>
          split
          next storage => exact lawful.pure (lawful.constant found storage)
          next storage =>
            exact lawful.weaken (lawful.named found storage) fun _ =>
              lawful.place found (by simp [storage])
          next storage =>
            exact lawful.bind (temporaries isOwned found storage) fun reg _ => lawful.pure
              (lawful.place found (by simp [storage]) (lawful.whole reg))
          next storage =>
            exact lawful.weaken
              (elements _ (lawful.leads.element isOwned found storage) found storage) fun _ =>
                lawful.place found (by simp [storage])
          next storage =>
            exact lawful.bind (calls (lawful.leads.result isOwned found storage)) fun _ _ => lawful.pure
              (lawful.place found (by simp [storage]) (lawful.whole _))
          · exact lawful.fail _ lawful.unplaced
      case stored =>
        intro value isOwned
        cases value with
        | literal text =>
            rw [Emit.stored]
            exact lawful.pure (lawful.immediate _)
        | reference id =>
            rw [Emit.stored]
            split
            · exact lawful.fail _ lawful.unplaced
            · exact lawful.weaken (resolves _ (isOwned id rfl)) fun _ => lawful.fitting
      case temporary =>
        intro id v name scope isOwned found storage
        rw [Emit.temporary]
        refine lawful.read (fun _ _ => rfl) fun code => ?_
        split
        · exact lawful.pure trivial
        · refine lawful.bind (stores fun _ => lawful.leads.temporary isOwned found storage)
            fun source fitting => ?_
          refine lawful.bind (lawful.take _ (lawful.leads.number isOwned found)) fun reg _ => ?_
          exact lawful.bind (lawful.moveInto _ fitting) fun _ _ => lawful.pure trivial
      case element =>
        intro id v array index scratch isOwned found storage
        rw [Emit.element]
        split
        next _ _ _ _ name isGlobal isParam position scope isArray =>
          cases isGlobal with
          | false =>
              rw [if_neg Bool.false_ne_true]
              exact lawful.fail _ lawful.unplaced
          | true =>
              rw [if_pos rfl]
              refine lawful.bind (resolves _ isOwned) fun place located => ?_
              have addressed := lawful.addressed scratch found storage isArray rfl located
              exact addressed
        · exact lawful.fail _ lawful.unplaced
      case userCall => exact fun called => lawful.calls called fun isOwned => resolves _ isOwned

variable
    {id left right : VarId}

theorem load
    (reg : Reg)
    (isOwned : rule.owned id) :
    rule.has.Of (load listing reg id) :=
  lawful.bind ((lawful.within _).resolve _ isOwned) fun _ located =>
    lawful.moveInto reg (lawful.fitting located)

theorem operable
    (scratch : Reg)
    (isOwned : rule.owned id) :
    rule.has Operand rule.fits (operable listing id scratch) :=
  lawful.bind ((lawful.within _).resolve _ isOwned) fun _ located =>
    lawful.settle _ _ (lawful.fitting located)

theorem storeValue
    {target : Variable}
    {selected : VarId}
    {value : Value}
    (found : listing.lookup? id = some target)
    (isValue : ∀ next, value.reference? = some next → rule.owned next)
    (isSelected : selected ≠ 0 → rule.owned selected) :
    rule.has.Of (storeValue listing target selected value) := by
  refine lawful.bind ((lawful.within _).stored isValue) fun operand fitting => ?_
  refine lawful.bind (lawful.settle _ _ fitting) fun source isSource => ?_
  split
  next storage =>
    split
    · exact lawful.bind (lawful.named found storage) fun place isPlace =>
        lawful.store (lawful.placeFits isPlace) isSource
    next isElement =>
      split
      next known =>
        have isIndex := lawful.leads.element (isSelected isElement) known rfl
        exact lawful.bind ((lawful.within _).element _ isIndex known rfl) fun place isPlace =>
           lawful.store (lawful.placeFits isPlace) isSource
      · exact lawful.fail _ lawful.unplaced
  · exact lawful.fail _ lawful.unplaced

theorem declare
    (isOwned : rule.owned id)
    (declared : ∀ {v name isGlobal isParam position scope next},
      listing.lookup? id = some v → v.storage = .named name isGlobal isParam position scope →
        v.value.reference? = some next → rule.owned next) :
    rule.has.Of (declare listing id) := by
  unfold Emit.declare
  split
  · exact lawful.pure trivial
  next v found =>
    split
    next storage =>
      exact lawful.bind ((lawful.within _).temporary isOwned found storage) fun _ _ =>
        lawful.pure trivial
    next storage =>
      split
      · exact lawful.read (fun _ _ => rfl) fun _ => lawful.fail _ lawful.unplaced
      · split
        · exact lawful.storeValue found (fun _ => declared found storage) fun differs =>
            absurd rfl differs
        · exact lawful.pure trivial
    · exact lawful.pure trivial

theorem assign
    {selected : VarId}
    {value : Value}
    (target : VarId)
    (isValue : ∀ next, value.reference? = some next → rule.owned next)
    (isSelected : selected ≠ 0 → rule.owned selected) :
    rule.has.Of (assign listing target value selected) := by
  unfold Emit.assign
  split
  next v found =>
    split
    · exact lawful.storeValue found isValue isSelected
    · exact lawful.fail _ lawful.unplaced
  · exact lawful.fail _ lawful.unplaced

theorem divide
    (target answer : Reg)
    (isLeft : rule.owned left)
    (isRight : rule.owned right) :
    rule.has.Of (divide listing target left right answer) := by
  refine lawful.bind (lawful.load _ isLeft) fun _ _ => lawful.bind (lawful.load _ isRight) fun _ _ =>
    lawful.bind (lawful.ins nofun ?_) fun _ _ => lawful.bind (lawful.ins nofun ?_) fun _ _ =>
      lawful.ins nofun ?_ <;>
    simp [Instruction.operands, Operand.whole, lawful.register]

theorem arith
    {result : VarId}
    (op : ArithOp)
    (isResult : rule.owned result)
    (isLeft : rule.owned left)
    (isRight : rule.owned right) :
    rule.has.Of (arith listing result left right op) := by
  have results : rule.has.Of (resultRegister listing result) := by
    unfold resultRegister
    split
    next v found =>
      split
      next storage => exact (lawful.within _).temporary isResult found storage
      · exact lawful.fail _ lawful.unplaced
    · exact lawful.fail _ lawful.unplaced
  refine lawful.bind results fun target _ => ?_
  split
  · exact lawful.divide _ _ isLeft isRight
  · exact lawful.divide _ _ isLeft isRight
  · refine lawful.bind (lawful.load _ isLeft) fun _ _ => ?_
    refine lawful.bind (lawful.operable _ isRight) fun operand fitting => ?_
    have computes : ∀ instruction ∈ [.add (.whole target) operand, .sub (.whole target) operand,
        .imul (.whole target) operand],
        rule.has.Of (Emit.ins instruction) := by
      intro instruction member
      simp only [List.mem_cons, List.not_mem_nil, or_false] at member
      rcases member with rfl | rfl | rfl <;>
        exact lawful.ins nofun
          (by simp [Instruction.operands, Operand.whole, lawful.register, fitting])
    split
    · exact computes _ (by simp)
    · exact computes _ (by simp)
    · exact computes _ (by simp)
    · exact lawful.fail _ lawful.unplaced

theorem compare
    (isLeft : rule.owned left)
    (isRight : rule.owned right) :
    rule.has.Of (compare listing left right) := by
  refine lawful.bind (lawful.operable _ isRight) fun _ rightFits => ?_
  refine lawful.bind ((lawful.within _).resolve _ isLeft) fun _ located => ?_
  refine lawful.bind (lawful.settle _ _ (lawful.fitting located)) fun _ leftFits => ?_
  exact lawful.ins nofun (by simp [Instruction.operands, leftFits, rightFits])

theorem print
    (jump : rule.has.Of (Emit.ins (.call PrintFormat.routine)))
    {argument : Variable}
    (newline : Bool)
    (isOwned : rule.owned argument.id) :
    rule.has.Of (print listing argument newline) := by
  unfold Emit.print
  split
  · exact lawful.fail _ lawful.unplaced
  · refine lawful.bind (lawful.saveLive _) fun saved _ => ?_
    refine lawful.bind (lawful.ins nofun ?_) fun _ _ => ?_
    · simp [Instruction.operands, Operand.whole, lawful.register, lawful.immediate]
    refine lawful.bind (lawful.load _ isOwned) fun _ _ => ?_
    refine lawful.bind (lawful.ins nofun ?_) fun _ _ => ?_
    · simp [Instruction.operands, Operand.whole, lawful.register]
    exact lawful.bind jump fun _ _ => lawful.restoreLive _

theorem exit
    (isOwned : rule.owned id) :
    rule.has.Of (exit listing id) := by
  refine lawful.bind (lawful.ins nofun ?_) fun _ _ => lawful.bind (lawful.load _ isOwned) fun _ _ =>
    lawful.ins nofun (by simp [Instruction.operands])
  simp [Instruction.operands, Operand.whole, Operand.number, lawful.register, lawful.immediate]

theorem builtinCall
    (jump : rule.has.Of (Emit.ins (.call PrintFormat.routine)))
    {invoked : Call}
    (here : rule.placed invoked.line)
    (isOwned : ∀ id ∈ invoked.arguments, rule.owned id) :
    rule.has.Of (builtinCall listing invoked) := by
  have acts : ∀ (builtin : Builtin) (argument : Variable),
      (invoked.arguments.head?).bind listing.lookup? = some argument →
        rule.has.Of
          (if builtin.name = "exit" then Emit.exit listing argument.id
            else Emit.print listing argument builtin.newline) := by
    intro builtin argument isArgument
    obtain ⟨id, isHead, known⟩ := Option.bind_eq_some_iff.mp isArgument
    have isGiven : rule.owned argument.id :=
      lawful.leads.number (isOwned id (List.mem_of_mem_head? isHead)) known
    split
    · exact lawful.exit isGiven
    · exact lawful.print jump _ isGiven
  unfold Emit.builtinCall
  split
  · exact lawful.fail _ here
  next builtin _ =>
    refine lawful.refusable (lawful.fail _ here) ?_
    split
    · exact lawful.fail _ here
    next argument isArgument =>
      exact lawful.refusable (lawful.fail _ here) (acts builtin argument isArgument)

theorem leave
    {value : VarId}
    (isOwned : value ≠ 0 → rule.owned value) :
    rule.has.Of (leave listing value) := by
  unfold Emit.leave
  split
  next isSome =>
    refine lawful.load _ (isOwned fun none_ => ?_)
    simp [none_, Listing.lookup?] at isSome
  next => exact lawful.pure trivial

/--
The code of a node keeps to a rule, up to what a line that is told for its failures makes of that,
if changes that add no instruction do.
-/
theorem node
    {fits : Operand → Prop}
    {has : Property}
    {step : Node}
    (sequences : Sequences fits has)
    (jump : rule.has.Of (Emit.ins (.call PrintFormat.routine)))
    (allows : rule.Allows listing step)
    (placed : ∀ line ∈ step.lines, rule.placed line)
    (atLine : ∀ {line} {inner : Emit Unit},
      line ∈ step.lines → rule.has.Of inner → has.Of (atLine line inner))
    (fail : ∀ {line fault}, line ∈ step.lines → has.Of (Emit.fail fault line : Emit Unit))
    (adjusts : ∀ {change}, Adjusts change → has.Of (modify change)) :
    has.Of (node listing step) := by
  have uses := allows.uses
  cases step with
  | label name => exact adjusts (.label name)
  | entry function =>
      exact sequences.read (fun _ _ => rfl) fun _ => fail (List.mem_singleton.mpr rfl)
  | prologue function locals =>
      refine sequences.bind (sequences.ins nofun ?_) fun _ _ =>
        sequences.bind (sequences.ins nofun ?_) fun _ _ => adjusts (.reserve locals)
      · simp [Instruction.operands, Operand.whole, sequences.register]
      · simp [Instruction.operands, Operand.whole, sequences.register]
  | epilogue function => exact sequences.epilogue fun _ _ => adjusts (.fill _ _)
  | openScope scope kind => exact sequences.pure trivial
  | closeScope scope kind endsFunction => exact sequences.pure trivial
  | declare id line =>
      refine atLine (List.mem_singleton.mpr rfl) (lawful.declare
        (uses id (by simp [Node.uses, Node.operands])) fun found storage => ?_)
      exact allows.declared rfl found (by simp [storage, Storage.isNamed])
  | assign target value type selected line =>
      refine atLine (List.mem_singleton.mpr rfl) (lawful.assign target (fun id refers => ?_)
        fun isElement => ?_)
      · exact uses id (List.mem_append_right _ (by simp [refers]))
      · exact uses selected (List.mem_append_left _ (by simp [Node.operands, isElement]))
  | arith result left right op line =>
      exact atLine (List.mem_singleton.mpr rfl) (lawful.arith op
        (uses result (by simp [Node.uses, Node.operands]))
        (uses left (by simp [Node.uses, Node.operands]))
        (uses right (by simp [Node.uses, Node.operands])))
  | compare left right line =>
      exact atLine (List.mem_singleton.mpr rfl) (lawful.compare
        (uses left (by simp [Node.uses, Node.operands]))
        (uses right (by simp [Node.uses, Node.operands])))
  | jump label condition => exact sequences.ins nofun (by simp [Instruction.operands])
  | call invoked =>
      refine atLine (List.mem_singleton.mpr rfl) ?_
      unfold call
      cases isBuiltin : invoked.builtin with
      | true => exact lawful.builtinCall jump (placed _ (List.mem_singleton.mpr rfl)) uses
      | false => exact (lawful.within _).userCall (allows.call rfl isBuiltin)
  | leave value line =>
      exact atLine (List.mem_singleton.mpr rfl) (lawful.leave fun isValue =>
        uses value (by simp [Node.uses, Node.operands, isValue]))
  | destroy id => exact adjusts (.release id)

end Lawful

end Rule

end Emit

end IlsCompiler
