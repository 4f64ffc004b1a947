import IlsCompiler.Proofs.Assembly.Functions
import IlsCompiler.Proofs.Assembly.NodeRefusals
import IlsCompiler.Proofs.Lowering.SoundLifetimes

namespace IlsCompiler

/-!
# What emission finds at nodes

When emission comes to a node, what the node is about is there: the variables exist, the
temporaries hold registers, and the locals have slots. So the nodes of a function become code or
are refused for something that emission does not support.
-/

variable
    {node : Node}
    {nodes : List Node}

namespace Ledger

variable
    {listing : Listing}
    {ledger : Ledger}

/-- What is pending behind nodes was pending before or is declared by one of them. -/
theorem declared_of_pending
    {id : VarId}
    (isPending : id ∈ (ledger.behind listing nodes).pending) :
    id ∈ ledger.pending ∨ ∃ line, .declare id line ∈ nodes := by
  induction nodes generalizing ledger with
  | nil => exact .inl isPending
  | cons node rest inductionHypothesis =>
      rcases inductionHypothesis isPending with later | ⟨line, member⟩
      · cases node with
        | declare other line =>
            simp only [after] at later
            split at later
            · rcases List.mem_append.mp later with old | new
              · exact .inl old
              · exact .inr ⟨line, by simp [List.mem_singleton.mp new]⟩
            · exact .inl later
        | destroy other => exact .inl (List.mem_of_mem_erase later)
        | _ => exact .inl later
      · exact .inr ⟨line, List.mem_cons_of_mem _ member⟩

/-- What an allowed node leads to exists, and is pending or what the node declares. -/
theorem Allows.touched
    (allows : ledger.Allows listing node)
    {id next : VarId}
    (member : id ∈ node.uses)
    (touches : listing.Touches id next) :
    ∃ v, listing.fixed? next = some v ∧
      (v.needsDestroy → next ∈ ledger.pending ∨ ∃ line, node = .declare next line) := by
  cases node with
  | declare other line =>
      have isOther : id = other := by simpa [Node.uses, Node.operands] using member
      subst isOther
      obtain ⟨v, found, held⟩ := (allows.2.touched touches).found
      refine ⟨v, found, fun destroyed => ?_⟩
      have isPending := held destroyed
      simp only [after] at isPending
      split at isPending
      · rcases List.mem_append.mp isPending with old | new
        · exact .inl old
        · exact .inr ⟨line, by rw [List.mem_singleton.mp new]⟩
      · exact .inl isPending
  | destroy other => simp [Node.uses, Node.operands] at member
  | _ =>
      obtain ⟨v, found, held⟩ := ((allows id member).touched touches).found
      exact ⟨v, found, fun destroyed => .inl (held destroyed)⟩

end Ledger

namespace AssemblyFile

/--
What emission finds when it comes to a node. Everything that the node leads to exists. A temporary
among it holds a register since it was declared, if it is not the node that declares it, and a
local has one of the slots that the prologue of the function makes room for.
-/
structure Provides (listing : Listing) (earlier : List Node) (node : Node) (file : AssemblyFile) :
    Prop where
  known : ∀ id ∈ node.uses, ∀ next, listing.Touches id next →
    ∃ v, listing.lookup? next = some v
  registers : ∀ code, file.current = some code →
    ∀ id ∈ node.uses, ∀ next, listing.Touches id next → listing.IsTemporary next →
      ((∃ line, node = .declare next line) ∧ code.pool.held? next = none) ∨
        ((∃ line, .declare next line ∈ earlier) ∧ (code.pool.held? next).isSome)
  slots : ∀ code, file.current = some code →
    ∀ id ∈ node.uses, ∀ next, listing.Touches id next → listing.hasSlot next = true →
      ∃ front function locals inner,
        earlier = front ++ .entry function :: .prologue function locals :: inner ∧
          (∀ other ∈ inner, other.isInner) ∧
          ∀ name, ∃ frame number,
            code.frame.slot next name = .ok (frame, StackFrame.slotAddress number) ∧
              number < locals

/-- A node that is about no variable finds all it needs. -/
theorem provides_of_uses
    {listing : Listing}
    {earlier : List Node}
    {file : AssemblyFile}
    (unused : node.uses = []) :
    file.Provides listing earlier node where
  known id member := by
    rw [unused] at member
    cases member
  registers _ _ id member := by
    rw [unused] at member
    cases member
  slots _ _ id member := by
    rw [unused] at member
    cases member

/--
Emission goes on from a file: each node finds what it needs and is taken or refused, and behind the
last node the file is as wanted.
-/
def Goes (listing : Listing) (odd : Prop) (wanted : AssemblyFile → Prop) :
    List Node → List Node → AssemblyFile → Prop
  | _, [], file => wanted file
  | earlier, node :: rest, file =>
      file.Provides listing earlier node ∧
        (∀ failure, file.step listing node = .error failure → Emit.Refusal odd failure) ∧
        ∀ between, file.step listing node = .ok between →
          Goes listing odd wanted (earlier ++ [node]) rest between

section Goes

variable
    {listing : Listing}
    {odd : Prop}
    {wanted : AssemblyFile → Prop}
    {earlier : List Node}
    {file : AssemblyFile}

theorem goes_append
    {middle : AssemblyFile → Prop}
    {first second : List Node}
    (goes : Goes listing odd middle earlier first file)
    (others : ∀ between, middle between → Goes listing odd wanted (earlier ++ first) second between) :
    Goes listing odd wanted earlier (first ++ second) file := by
  induction first generalizing earlier file with
  | nil => simpa using others file goes
  | cons node rest inductionHypothesis =>
      obtain ⟨provides, refused, later⟩ := goes
      refine ⟨provides, refused, fun between taken => inductionHypothesis (later between taken) ?_⟩
      intro last isMiddle
      simpa using others last isMiddle

/-- A node that is about no variable is taken without fail. -/
theorem goes_cons
    {rest : List Node}
    {next : AssemblyFile}
    (unused : node.uses = [])
    (taken : file.step listing node = .ok next)
    (goes : Goes listing odd wanted (earlier ++ [node]) rest next) :
    Goes listing odd wanted earlier (node :: rest) file := by
  refine ⟨provides_of_uses unused, fun failure failed => ?_, fun between isTaken => ?_⟩
  · rw [taken] at failed
    cases failed
  · rw [taken, Except.ok.injEq] at isTaken
    exact isTaken ▸ goes

/-- Each node finds what it needs in the file that has taken the nodes in front of it. -/
theorem Goes.provides
    {front back : List Node}
    {between : AssemblyFile}
    (goes : Goes listing odd wanted earlier (front ++ node :: back) file)
    (taken : Takes listing front file between) :
    between.Provides listing (earlier ++ front) node := by
  induction front generalizing earlier file with
  | nil =>
      cases taken
      simpa using goes.1
  | cons first rest inductionHypothesis =>
      obtain ⟨next, one, others⟩ := taken
      simpa using inductionHypothesis (goes.2.2 next one) others

/-- Emission is refused for what is allowed, or the file that it makes is as wanted. -/
theorem Goes.steps
    (goes : Goes listing odd wanted earlier nodes file)
    (number : Nat) :
    match (Emission.steps listing (fun _ => false) number nodes file).2 with
    | .error failure => Emit.Refusal odd failure
    | .ok final => wanted final := by
  induction nodes generalizing earlier file number with
  | nil => exact goes
  | cons node rest inductionHypothesis =>
      obtain ⟨_, refused, later⟩ := goes
      simp only [Emission.steps, Bool.false_eq_true, ↓reduceIte]
      cases one : file.step listing node with
      | error failure => exact refused failure one
      | ok between => exact inductionHypothesis (later between one) (number + 1)

end Goes

/--
Code in which the function that is open has got behind its prologue: the registers and slots are as
the ledger of the nodes says.
-/
structure Inside (listing : Listing) (function : Signature) (locals : List VarId)
    (earlier : List Node) (code : FunctionCode) : Prop where
  holds : code.Holds listing locals (Ledger.blank.behind listing earlier).pending
  shape : ∃ front inner,
    earlier = front ++ .entry function :: .prologue function locals.length :: inner ∧
      ∀ other ∈ inner, other.isInner

section Functions

variable
    {listing : Listing}
    {odd : Prop}
    {function : Signature}
    {locals : List VarId}
    {earlier : List Node}
    {code : FunctionCode}
    {file : AssemblyFile}

/-- A node inside a function that the ledger allows finds what it needs. -/
theorem Inside.provides
    (inside : Inside listing function locals earlier code)
    (isOpen : file.current = some code)
    (allows : (Ledger.blank.behind listing earlier).Allows listing node)
    (known : ∀ id line, node = .declare id line → listing.hasSlot id = true → id ∈ locals) :
    file.Provides listing earlier node where
  known id member next touches := by
    obtain ⟨v, found, _⟩ := allows.touched member touches
    obtain ⟨w, isFound, _⟩ := Listing.lookup?_of_fixed? found
    exact ⟨w, isFound⟩
  registers other isOther id member next touches isTemporary := by
    cases isOpen.symm.trans isOther
    obtain ⟨v, found, pends⟩ := allows.touched member touches
    obtain ⟨w, name, scope, isFound, storage⟩ := isTemporary
    rw [found, Option.some.injEq] at isFound
    subst isFound
    have destroyed : v.needsDestroy = true := by simp [Variable.needsDestroy, storage]
    rcases pends destroyed with isPending | ⟨line, rfl⟩
    · refine .inr ⟨?_, inside.holds.held next isPending ⟨v, name, scope, found, storage⟩⟩
      exact (Ledger.declared_of_pending isPending).resolve_left fun none_ => by cases none_
    · refine .inl ⟨⟨line, rfl⟩, inside.holds.unheld ?_⟩
      exact (allows.1 ((Listing.isDestroyed_eq found).trans destroyed)).1
  slots other isOther id member next touches isLocal := by
    cases isOpen.symm.trans isOther
    obtain ⟨v, found, pends⟩ := allows.touched member touches
    have destroyed : v.needsDestroy = true := by
      refine Variable.needsDestroy_of_hasSlot ?_
      simpa [Listing.hasSlot, found] using isLocal
    have isKnown : next ∈ locals := by
      rcases pends destroyed with isPending | ⟨line, isDeclared⟩
      · exact inside.holds.known next isPending isLocal
      · exact known next line isDeclared isLocal
    obtain ⟨front, inner, shape, isInner⟩ := inside.shape
    refine ⟨front, function, locals.length, inner, shape, isInner, fun name => ?_⟩
    obtain ⟨frame, number, placed, fits, _⟩ := inside.holds.slot isKnown name
    exact ⟨frame, number, placed, inside.holds.room ▸ fits⟩

/-- Inside a function a node is taken as its code is made. -/
theorem step_inside
    (isOpen : file.current = some code)
    (goesOn : node.endsFunction = false) :
    file.step listing node =
      match Emit.node listing node code with
      | .error failure => .error failure
      | .ok (_, after) => .ok { file with current := some after } := by
  unfold step
  simp only [isOpen]
  split
  · simp [Node.endsFunction] at goesOn
  · rfl

variable
    {inner : List Node}

/-- The nodes of a body that the ledger accepts find what they need, one after the other. -/
theorem goes_inside
    (numbered : listing.Numbered)
    (formed : listing.WellFormed)
    (isInner : ∀ node ∈ inner, node.isInner)
    (wellFormed : ∀ node ∈ inner, node.WellFormed (some function) listing)
    (allowed : ∀ node ∈ inner, node.IsOdd listing function → odd)
    (known : ∀ id line, .declare id line ∈ inner → listing.hasSlot id = true → id ∈ locals)
    (accepted : (Ledger.blank.behind listing earlier).Accepts listing inner)
    (isOpen : file.current = some code)
    (inside : Inside listing function locals earlier code) :
    Goes listing odd (fun final => ∃ last, final.current = some last) earlier inner file := by
  induction inner generalizing earlier file code with
  | nil => exact ⟨code, isOpen⟩
  | cons node rest inductionHypothesis =>
      obtain ⟨allows, others⟩ := accepted
      have member : node ∈ node :: rest := List.mem_cons_self
      have isKnown : ∀ id line, node = .declare id line → listing.hasSlot id = true →
          id ∈ locals := fun id line same => known id line (same ▸ member)
      have ensures := Emit.node_ensures numbered formed (isInner node member)
        (wellFormed node member) allows (allowed node member) isKnown inside.holds
      have goesOn : node.endsFunction = false := by
        have kind := isInner node member
        cases node <;> first | rfl | cases kind
      have behind : Ledger.blank.behind listing (earlier ++ [node]) =
          (Ledger.blank.behind listing earlier).after listing node := by
        rw [Ledger.behind_append]
        rfl
      refine ⟨inside.provides isOpen allows isKnown, ?_, ?_⟩
      · intro failure failed
        rw [step_inside isOpen goesOn] at failed
        cases run : Emit.node listing node code with
        | ok result => simp [run] at failed
        | error found =>
            simp only [run, Except.error.injEq] at failed
            exact failed ▸ ensures.fails found run
      · intro between taken
        rw [step_inside isOpen goesOn] at taken
        cases run : Emit.node listing node code with
        | error failure => simp [run] at taken
        | ok result =>
            simp only [run, Except.ok.injEq] at taken
            subst taken
            obtain ⟨front, inner, shape, wereInner⟩ := inside.shape
            refine inductionHypothesis
              (fun other later => isInner other (List.mem_cons_of_mem _ later))
              (fun other later => wellFormed other (List.mem_cons_of_mem _ later))
              (fun other later => allowed other (List.mem_cons_of_mem _ later))
              (fun id line later => known id line (List.mem_cons_of_mem _ later))
              (behind ▸ others) rfl ⟨behind ▸ ensures.holds _ _ run, ?_⟩
            refine ⟨front, inner ++ [node], by simp [shape], fun other later => ?_⟩
            rcases List.mem_append.mp later with old | new
            · exact wereInner other old
            · exact List.mem_singleton.mp new ▸ isInner node member

/-- A symbol is refused because it is the name of a register or because it is there already. -/
theorem declareSymbol_refused
    {name : String}
    {line : Nat}
    {failure : Failure}
    (failed : file.declareSymbol name line = .error failure) :
    Emit.Refusal odd failure := by
  unfold declareSymbol at failed
  split at failed
  · cases failed
    exact ⟨rfl, .inl rfl⟩
  · split at failed
    · cases failed
      exact ⟨rfl, .inr (.inl rfl)⟩
    · cases failed

/-- A function that is opened has nothing pending and all registers free behind its prologue. -/
theorem inside_prologued
    (calls : List Nat)
    (rested : (Ledger.blank.behind listing earlier).pending = []) :
    Inside listing function locals
      (earlier ++ [.entry function] ++ [.prologue function locals.length])
      (.prologued function calls locals.length) := by
  have none_ : (Ledger.blank.behind listing
      (earlier ++ [.entry function] ++ [.prologue function locals.length])).pending = [] := by
    rw [Ledger.behind_append, Ledger.behind_append]
    exact rested
  refine ⟨?_, earlier, [], by simp, by simp⟩
  rw [none_]
  exact
    { sound := Pool.sound_full
      held := fun _ member => (List.not_mem_nil member).elim
      only := fun _ member => (List.not_mem_nil member).elim
      distinct := List.nodup_nil
      known := fun _ member => (List.not_mem_nil member).elim
      slots := List.nodup_nil
      given := List.nil_subset _
      room := rfl }

/-- The nodes of a whole function find what they need, and behind them it is closed. -/
theorem goes_function
    {scope : Nat}
    {kind : Scope.Kind}
    (numbered : listing.Numbered)
    (formed : listing.WellFormed)
    (isInner : ∀ node ∈ inner, node.isInner)
    (wellFormed : ∀ node ∈ inner, node.WellFormed (some function) listing)
    (allowed : ∀ node ∈ inner, node.IsOdd listing function → odd)
    (known : ∀ id line, .declare id line ∈ inner → listing.hasSlot id = true → id ∈ locals)
    (accepted : (Ledger.blank.behind listing earlier).Accepts listing
      (.entry function :: .prologue function locals.length ::
        (inner ++ [.epilogue function, .closeScope scope kind true])))
    (rested : (Ledger.blank.behind listing earlier).pending = [])
    (isClosed : file.current = none) :
    Goes listing odd (fun final => final.current = none) earlier
      (.entry function :: .prologue function locals.length ::
        (inner ++ [.epilogue function, .closeScope scope kind true])) file := by
  have enters : file.step listing (.entry function) = file.openFunction function := by
    simp [step, isClosed]
  refine ⟨provides_of_uses rfl, fun failure failed => ?_, fun opened isOpened => ?_⟩
  · rw [enters, openFunction] at failed
    cases declared : file.declareSymbol function.name function.line with
    | error found =>
        simp only [declared, bind, Except.bind, Except.error.injEq] at failed
        exact failed ▸ declareSymbol_refused declared
    | ok named => simp [declared, bind, Except.bind, pure, Except.pure] at failed
  · obtain ⟨calls, isOpen⟩ : ∃ calls, opened.current = some (.opened function calls) := by
      rw [enters, openFunction] at isOpened
      cases declared : file.declareSymbol function.name function.line with
      | error found => simp [declared, bind, Except.bind] at isOpened
      | ok named =>
          simp only [declared, bind, Except.bind, pure, Except.pure, Except.ok.injEq] at isOpened
          subst isOpened
          exact ⟨_, rfl⟩
    have begins : opened.step listing (.prologue function locals.length) =
        .ok { opened with current := some (.prologued function calls locals.length) } := by
      obtain ⟨after, run⟩ : ∃ after, Emit.node listing (.prologue function locals.length)
          (.opened function calls) = .ok ((), after) := ⟨_, rfl⟩
      rw [step_inside isOpen rfl, run]
      cases Emit.prologue_ok run
      rfl
    have acceptsInner : (Ledger.blank.behind listing (earlier ++ [.entry function] ++
        [.prologue function locals.length])).Accepts listing inner := by
      rw [Ledger.behind_append, Ledger.behind_append]
      exact (Ledger.accepts_append.mp accepted.2.2).1
    refine goes_cons rfl begins (goes_append (goes_inside numbered formed isInner wellFormed
      allowed known acceptsInner rfl (inside_prologued calls rested)) ?_)
    rintro last ⟨code, isLast⟩
    obtain ⟨⟨⟩, closed, closes, _⟩ := Emit.plain_epilogue code
    have ends : last.step listing (.epilogue function) =
        .ok { last with current := some closed } := by
      have run : Emit.node listing (.epilogue function) code = .ok ((), closed) := closes
      rw [step_inside isLast rfl, run]
    exact goes_cons rfl ends (goes_cons rfl rfl rfl)

end Functions

end AssemblyFile

end IlsCompiler
