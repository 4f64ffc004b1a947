import IlsCompiler.Proofs.Lowering.NameRefusals
import IlsCompiler.Proofs.Lowering.Globals

namespace IlsCompiler

/-!
# Names are resolved lexically

In front of every function the names that are known are those of the global variables, each with
the variable of its first declaration. A function begins with these and its parameters, so
everything that happens in a lowered program is what its tree says, and a program that is refused
for a name has a point at which its tree is to blame.
-/

/-- Variables are those of parameters, in order and under their names. -/
def Listing.NamesParameters (listing : Listing) (ids : List VarId) (params : List Param) : Prop :=
  List.Forall₂
    (fun id param => ∃ v position,
      listing.fixed? id = some v ∧ v.storage = .named param.name false true position 0) ids params

variable
    {params : List Param}
    {ids : List VarId}
    {earlier later : Listing}

theorem Listing.NamesParameters.grown
    (named : earlier.NamesParameters ids params)
    (grown : earlier.Extends later) :
    later.NamesParameters ids params :=
  named.imp fun _ _ ⟨v, position, found, storage⟩ => ⟨v, position, grown.fixed?_of found, storage⟩

variable
    {moments : List Moment}
    {line : Nat}
    {name : String}
    {result : Ty}

namespace Lower

open Stateful LoweringState

section Parameters

variable
    {before after : LoweringState}
    {done : Unit}
    {stmts : List Stmt}

theorem parameters_named
    {position : Nat}
    (lowered : parameters position params before = .ok (ids, after)) :
    after.listing.NamesParameters ids params := by
  induction params generalizing before position ids with
  | nil =>
      rw [parameters] at lowered
      obtain ⟨rfl, rfl⟩ := pure_ok_iff.mp lowered
      exact .nil
  | cons param rest inductionHypothesis =>
      obtain ⟨_, _, others, rfl, restLowered⟩ := parameters_cons_ok lowered
      have grown := (parameters_ok restLowered).1.extends_
      have found := fixed?_withParameter before param position
      exact .cons ⟨_, position, grown.fixed?_of found, rfl⟩ (inductionHypothesis restLowered)

/-- Every function among module statements has the parameters that the tree gives it. -/
def Named (stmts : List Stmt) (listing : Listing) : Prop :=
  ∀ ⦃line name params result bodyLine body⦄,
    Stmt.function line name params result bodyLine body ∈ stmts →
      ∃ signature,
        listing.signature? name = some signature ∧
          listing.NamesParameters signature.params params

theorem Named.grown
    (named : Named stmts earlier)
    (grown : earlier.Extends later) :
    Named stmts later := by
  intro line name params result bodyLine body member
  obtain ⟨signature, known, parameters⟩ := named member
  exact ⟨signature, grown.signatures name signature known, parameters.grown grown⟩

theorem Named.tail
    {first : Stmt}
    {listing : Listing}
    (named : Named (first :: stmts) listing) :
    Named stmts listing :=
  fun _ _ _ _ _ _ member => named (List.mem_cons_of_mem _ member)

theorem declareFunction_named
    (lowered : declareFunction line name params result before = .ok (done, after)) :
    ∃ signature,
      after.listing.signature? name = some signature ∧
        after.listing.NamesParameters signature.params params := by
  obtain ⟨ids, between, created, _, free, rfl⟩ := declareFunction_steps lowered
  have isKnown : ∀ signature : Signature, signature.name = name →
      (between.withFunction signature).listing.signature? name = some signature := by
    intro signature isName
    unfold Listing.signature? Listing.function? at *
    simp [withFunction, List.find?_append, free, isName]
  exact ⟨_, isKnown _ rfl, (parameters_named created).grown (extends_withFunction between _)⟩

theorem moduleFunctions_named
    (lowered : moduleFunctions stmts before = .ok (done, after)) :
    Named stmts after.listing := by
  induction stmts generalizing before with
  | nil => exact fun _ _ _ _ _ _ member => (List.not_mem_nil member).elim
  | cons first rest inductionHypothesis =>
      cases first with
      | function line name params result bodyLine body =>
          rw [moduleFunctions] at lowered
          obtain ⟨_, between, declared, others⟩ := bind_ok_iff.mp lowered
          have grown := (moduleFunctions_ok others).1.extends_
          intro _ _ _ _ _ _ member
          rcases List.mem_cons.mp member with isFirst | inRest
          · cases isFirst
            obtain ⟨signature, known, named⟩ := declareFunction_named declared
            exact ⟨signature, grown.signatures _ signature known, named.grown grown⟩
          · exact inductionHypothesis others inRest
      | _ =>
          intro _ _ _ _ _ _ member
          rcases List.mem_cons.mp member with isFirst | inRest
          · cases isFirst
          · exact inductionHypothesis lowered inRest

end Parameters

section Globals

variable
    {before after : LoweringState}
    {done : Unit}
    {line : Nat}
    {name : String}
    {type : Ty}
    {initial : Option Expr}

/--
A declaration outside of functions adds a global variable and enters its name, unless the name has
been entered before.
-/
theorem declare_outside
    (grounded : before.Grounded)
    (formed : before.listing.scopes.Formed)
    (lowered : declare line name type initial before = .ok (done, after)) :
    after.listing.scopes.Formed ∧
      ((before.listing.scopes.isModuleName name ∧ after = before) ∨
        before.listing.scopes.isModuleName name = false ∧ ∃ v,
          after.listing.scopes.moduleNames = before.listing.scopes.moduleNames ++ [(name, v.id)] ∧
            after.listing.fixed? v.id = some v ∧ v.storage = .named name true false 0 0) := by
  have numbered := (declare_grounded grounded lowered).numbered
  rcases declare_module_ok grounded.isOutermost lowered with
    ⟨known, rfl⟩ | ⟨isNew, stored, between, found, rfl⟩
  · exact ⟨formed, .inl ⟨known, rfl⟩⟩
  · obtain ⟨scopes, frames⟩ := constant_scopes found
    have isOutermost : between.scope = 0 := by
      rw [LoweringState.scope, frames, grounded.frames]
      rfl
    have names : (between.withGlobal name type stored line).listing.scopes =
        before.listing.scopes.entered 0 name (between.listing.vars.size + 1) := by
      simp [LoweringState.withGlobal, Listing.addNamed, Listing.addVariable, appended, scopes,
        isOutermost, ScopeTree.entered]
    obtain ⟨v, isFound, storage, _⟩ := fixed?_withGlobal between name type stored line
    have unseen : before.listing.scopes.lookup? 0 name = none := by
      rw [formed.lookup?_outermost]
      simpa [ScopeTree.isModuleName] using isNew
    refine ⟨?_, .inr ⟨isNew, v, ?_, ?_, isOutermost ▸ storage⟩⟩
    · rw [names]
      exact formed.entered (grounded.scope ▸ grounded.inside) unseen _
    · rw [names, numbered _ v isFound]
      rfl
    · rw [numbered _ v isFound]
      exact isFound

variable
    {stmts : List Stmt}

/-- Where global variables are declared, names are entered behind those that are known. -/
theorem moduleVariables_formed
    (grounded : before.Grounded)
    (formed : before.listing.scopes.Formed)
    (lowered : moduleVariables stmts before = .ok (done, after)) :
    after.listing.scopes.Formed ∧
      before.listing.scopes.moduleNames <+: after.listing.scopes.moduleNames := by
  induction stmts generalizing before with
  | nil =>
      rw [moduleVariables] at lowered
      obtain ⟨-, rfl⟩ := pure_ok_iff.mp lowered
      exact ⟨formed, List.prefix_rfl⟩
  | cons first rest inductionHypothesis =>
      cases first with
      | declare line name type initial =>
          rw [moduleVariables] at lowered
          obtain ⟨_, between, declared, others⟩ := bind_ok_iff.mp lowered
          obtain ⟨formedThere, enters⟩ := declare_outside grounded formed declared
          obtain ⟨formedLater, later⟩ :=
            inductionHypothesis (declare_grounded grounded declared) formedThere others
          refine ⟨formedLater, List.IsPrefix.trans ?_ later⟩
          rcases enters with ⟨_, rfl⟩ | ⟨_, v, names, _⟩
          · exact List.prefix_rfl
          · exact names ▸ List.prefix_append _ _
      | _ => exact inductionHypothesis grounded formed lowered

theorem moduleVariables_append_ok
    {front rest : List Stmt}
    (lowered : moduleVariables (front ++ rest) before = .ok (done, after)) :
    ∃ between,
      moduleVariables front before = .ok ((), between) ∧
        moduleVariables rest between = .ok (done, after) := by
  induction front generalizing before with
  | nil => exact ⟨before, rfl, lowered⟩
  | cons first others inductionHypothesis =>
      cases first with
      | declare line name type initial =>
          rw [List.cons_append, moduleVariables] at lowered
          obtain ⟨_, middle, declared, later⟩ := bind_ok_iff.mp lowered
          obtain ⟨between, lead, behind⟩ := inductionHypothesis later
          rw [moduleVariables]
          exact ⟨between, bind_ok_iff.mpr ⟨(), middle, declared, lead⟩, behind⟩
      | _ => exact inductionHypothesis lowered

/-- The names that module statements enter where none is known are those that they declare. -/
theorem moduleVariables_known
    (grounded : before.Grounded)
    (none : before.listing.scopes.moduleNames = [])
    (lowered : moduleVariables stmts before = .ok (done, after))
    (name : String) :
    after.listing.scopes.isModuleName name = true ↔ name ∈ declaredNames stmts := by
  have names := moduleVariables_names grounded.isOutermost lowered
  have all : (declaredNames stmts).filter (fun name =>
      !before.listing.scopes.isModuleName name) = declaredNames stmts :=
    List.filter_eq_self.mpr fun name _ => by simp [ScopeTree.isModuleName, none]
  rw [isModuleName_iff, names, none, all]
  simp [List.mem_eraseDups]

/--
Every global variable is the one that the first declaration of its name adds, which makes the name
known.
-/
def FirstDeclared (stmts : List Stmt) (begin : LoweringState) (listing : Listing) : Prop :=
  ∀ ⦃front rest line name type initial⦄,
    stmts = front ++ .declare line name type initial :: rest → name ∉ declaredNames front →
      ∃ before after v,
        moduleVariables front begin = .ok ((), before) ∧
          declare line name type initial before = .ok ((), after) ∧
          before.listing.scopes.lookup? before.scope name = none ∧
          after.listing.scopes.lookup? after.scope name = some v.id ∧
          listing.scopes.moduleNames.lookup name = some v.id ∧
          listing.fixed? v.id = some v ∧ v.storage = .named name true false 0 0

theorem FirstDeclared.grown
    (declared : FirstDeclared stmts before earlier)
    (grown : earlier.Extends later)
    (names : later.scopes.moduleNames = earlier.scopes.moduleNames) :
    FirstDeclared stmts before later := by
  intro front rest line name type initial split isFirst
  obtain ⟨reached, behind, v, lead, adds, unseen, seen, isKnown, found, storage⟩ :=
    declared split isFirst
  exact ⟨reached, behind, v, lead, adds, unseen, seen, names ▸ isKnown, grown.fixed?_of found,
    storage⟩

theorem moduleVariables_first
    (grounded : before.Grounded)
    (formed : before.listing.scopes.Formed)
    (none : before.listing.scopes.moduleNames = [])
    (lowered : moduleVariables stmts before = .ok (done, after)) :
    FirstDeclared stmts before after.listing := by
  rintro front rest line name type initial rfl isFirst
  obtain ⟨reached, lead, later⟩ := moduleVariables_append_ok lowered
  rw [moduleVariables] at later
  obtain ⟨_, behind, adds, others⟩ := bind_ok_iff.mp later
  have groundedThere := moduleVariables_grounded grounded lead
  have groundedBehind := declare_grounded groundedThere adds
  obtain ⟨formedThere, _⟩ := moduleVariables_formed grounded formed lead
  obtain ⟨formedBehind, enters⟩ := declare_outside groundedThere formedThere adds
  obtain ⟨_, more, names⟩ := moduleVariables_formed groundedBehind formedBehind others
  have isNew : reached.listing.scopes.isModuleName name = false := by
    rw [← Bool.not_eq_true, moduleVariables_known grounded none lead]
    exact isFirst
  obtain ⟨known, _⟩ | ⟨_, v, entered, found, storage⟩ := enters
  · cases isNew.symm.trans known
  have unseen : reached.listing.scopes.moduleNames.lookup name = Option.none := by
    simpa [ScopeTree.isModuleName] using isNew
  have seen : behind.listing.scopes.moduleNames.lookup name = some v.id := by
    rw [entered, List.lookup_append, unseen]
    simp
  refine ⟨reached, behind, v, lead, adds, ?_, ?_, ?_,
    (moduleVariables_proceeds others).extends_.fixed?_of found, storage⟩
  · rw [groundedThere.scope, formedThere.lookup?_outermost]
    exact unseen
  · rw [groundedBehind.scope, formedBehind.lookup?_outermost]
    exact seen
  · rw [← names, List.lookup_append, seen]
    rfl

/-- The first declaration of a name that is declared. -/
theorem exists_first
    (member : name ∈ declaredNames stmts) :
    ∃ front line type initial rest,
      stmts = front ++ .declare line name type initial :: rest ∧ name ∉ declaredNames front := by
  induction stmts with
  | nil => cases member
  | cons first rest inductionHypothesis =>
      cases first with
      | declare line other type initial =>
          by_cases isFirst : name = other
          · subst isFirst
            exact ⟨[], line, type, initial, rest, rfl, List.not_mem_nil⟩
          · obtain ⟨front, _, _, _, _, rfl, absent⟩ :=
              inductionHypothesis ((List.mem_cons.mp member).resolve_left isFirst)
            refine ⟨.declare line other type initial :: front, _, _, _, _, rfl, ?_⟩
            exact fun inside => (List.mem_cons.mp inside).elim isFirst absent
      | _ =>
          obtain ⟨front, _, _, _, _, rfl, absent⟩ := inductionHypothesis member
          exact ⟨_ :: front, _, _, _, _, rfl, absent⟩

end Globals

/-- The variables that can be used outside of functions. -/
def outerReferents (table : List (String × VarId)) : Referents :=
  { parameters := [], inner := [], globals := table }

/-- Between functions the names that are known are those of the global variables. -/
structure Settled (globals : List String) (table : List (String × VarId)) (state : LoweringState) :
    Prop where
  grounded : state.Grounded
  formed : state.listing.scopes.Formed
  moduleNames : state.listing.scopes.moduleNames = table
  each : ∀ name, Agrees globals (outerReferents table) state .start name

theorem Ready.settled
    {program : Program}
    {declared : LoweringState}
    (ready : Ready program declared) :
    Settled (declaredNames program.statements) declared.listing.scopes.moduleNames declared ∧
      FirstDeclared program.statements (start program.file) declared.listing ∧
      Named program.statements declared.listing := by
  obtain ⟨globals, globalsLowered, functionsLowered⟩ := ready.reached
  obtain ⟨declares, _⟩ := moduleFunctions_ok functionsLowered
  have scopes : declared.listing.scopes = globals.listing.scopes :=
    congrArg Listing.Frozen.scopes declares.frozen
  have grounded := grounded_start program.file
  have formed : (start program.file).listing.scopes.Formed := ScopeTree.Formed.empty
  have formedThere := (moduleVariables_formed grounded formed globalsLowered).1
  have firsts : FirstDeclared program.statements (start program.file) declared.listing :=
    (moduleVariables_first grounded formed rfl globalsLowered).grown declares.extends_
      (congrArg ScopeTree.moduleNames scopes)
  rw [← scopes] at formedThere
  refine ⟨⟨ready.grounded, formedThere, rfl, fun name => ?_⟩, firsts,
    moduleFunctions_named functionsLowered⟩
  have seen : declared.listing.scopes.lookup? declared.scope name =
      declared.listing.scopes.moduleNames.lookup name := by
    rw [ready.grounded.scope, formedThere.lookup?_outermost]
  by_cases member : name ∈ declaredNames program.statements
  · obtain ⟨_, _, _, _, _, split, isFirst⟩ := exists_first member
    obtain ⟨_, _, v, _, _, _, _, isKnown, found, storage⟩ := firsts split isFirst
    have isCandidate : InForce.start.candidates (declaredNames program.statements) name =
        [.global name] := by
      simp [InForce.candidates, InForce.start, member]
    exact .known isCandidate isKnown (seen.trans isKnown) found (by rw [storage]; rfl)
  · refine .unknown (by simp [InForce.candidates, InForce.start, member]) (seen.trans ?_)
    have known := moduleVariables_known grounded rfl globalsLowered name
    rw [← scopes] at known
    exact Option.not_isSome_iff_eq_none.mp (mt known.mp member)

section Functions

variable
    {globals : List String}
    {table : List (String × VarId)}
    {before after : LoweringState}
    {referents : Referents}
    {point : InForce}
    {done : Unit}

/-- Where a function begins the names are known that were known in front of it. -/
theorem Settled.begun
    (settled : Settled globals table before)
    (function : Signature)
    (locals : Nat) :
    Knows globals (outerReferents table) (before.begun function locals) .start where
  numbered := (extends_begun function locals before).numbered settled.grounded.numbered
  formed := by
    rw [scopes_begun]
    exact settled.formed.addChild settled.grounded.inside .function
  inside := by
    rw [scope_begun]
    exact inside_begun before function locals
  moduleNames := by
    rw [scopes_begun]
    exact settled.moduleNames
  count := rfl
  each name := (settled.each name).of_seen (extends_begun function locals before) rfl (by
    rw [scopes_begun, scope_begun]
    exact ScopeTree.lookup?_addChild settled.formed.rooted settled.grounded.inside .function name)

/-- A parameter is what its name stands for once it is bound. -/
theorem Knows.bound
    {id : VarId}
    {v : Variable}
    {name : String}
    {position : Nat}
    (knows : Knows globals referents before point)
    (count : point.names.length = referents.parameters.length)
    (found : before.listing.fixed? id = some v)
    (storage : v.storage = .named name false true position 0)
    (unseen : before.listing.scopes.lookup? before.scope name = none) :
    Knows globals (referents.binding [id]) (before.bound before.scope id name false true position)
      (point.withParameter name) := by
  have proceeds := proceeds_bound before.scope found storage
  obtain rfl : v.id = id := knows.numbered id v found
  refine knows.bind proceeds rfl unseen rfl (referents.within_binding _) rfl knows.count ?_
    (proceeds.extends_.fixed?_of found) (by rw [storage]; rfl)
  show (referents.parameters ++ [v.id])[point.names.length]? = some v.id
  rw [count, List.getElem?_concat_length]

theorem bindParameters_knows
    (knows : Knows globals referents before point)
    (count : point.names.length = referents.parameters.length)
    (named : before.listing.NamesParameters ids params)
    (lowered : bindParameters before.scope line ids before = .ok (done, after)) :
    Knows globals (referents.binding ids) after (point.withParameters params) := by
  induction ids generalizing before referents point params with
  | nil =>
      cases named
      rw [bindParameters] at lowered
      obtain ⟨-, rfl⟩ := pure_ok_iff.mp lowered
      simpa [Referents.binding, InForce.withParameters] using knows
  | cons id rest inductionHypothesis =>
      obtain - | ⟨⟨v, position, found, storage⟩, others⟩ := named
      obtain ⟨unseen, restLowered⟩ :=
        bindParameters_cons_ok knows.inside.isModule found storage lowered
      have grown := (proceeds_bound before.scope found storage).extends_
      have more := inductionHypothesis (knows.bound count found storage unseen)
        (by simp [InForce.withParameter, Referents.binding, count])
        (Listing.NamesParameters.grown others grown) restLowered
      simpa [Referents.binding, InForce.withParameters] using more

/-- Parameters are refused only where the name of one stands for something already. -/
theorem bindParameters_blames
    (knows : Knows globals referents before point)
    (count : point.names.length = referents.parameters.length)
    (named : before.listing.NamesParameters ids params)
    (inside : point.parameterMoments params ⊆ moments) :
    FailsWith (Failure.Blames globals moments) (bindParameters before.scope line ids) before := by
  induction ids generalizing before referents point params with
  | nil => exact alwaysFailsWith_pure _ _
  | cons id rest inductionHypothesis =>
      obtain - | ⟨⟨v, position, found, storage⟩, others⟩ := named
      rw [InForce.parameterMoments, List.cons_subset] at inside
      intro failure failed
      rw [bindParameters_parameter knows.inside.isModule found storage] at failed
      cases knows.each _ with
      | unknown _ unseen =>
          rw [unseen] at failed
          have grown := (proceeds_bound before.scope found storage).extends_
          exact inductionHypothesis (knows.bound count found storage unseen)
            (by simp [InForce.withParameter, Referents.binding, count])
            (Listing.NamesParameters.grown others grown) inside.2 failure failed
      | known isCandidate _ seen _ _ =>
          rw [seen] at failed
          cases failed
          refine ⟨nofun, fun _ => ⟨point, _, inside.1, ?_⟩⟩
          rw [isCandidate]
          exact List.cons_ne_nil _ _

variable
    {function : Signature}
    {params : List Param}
    {body : List Stmt}

/-- Where the body of a function begins its parameters and the global variables are known. -/
theorem functionBody_knows
    {bound : LoweringState}
    {line locals : Nat}
    (settled : Settled globals table before)
    (named : before.listing.NamesParameters function.params params)
    (parametersBound : bindParameters before.listing.scopes.size line function.params
      (before.begun function locals) = .ok (done, bound)) :
    Knows globals ((outerReferents table).binding function.params) bound
      (InForce.start.withParameters params) := by
  rw [← scope_begun before function locals] at parametersBound
  exact bindParameters_knows (settled.begun function locals) rfl
    (named.grown (extends_begun function locals before)) parametersBound

/-- Behind a function the names are known that were known in front of it. -/
theorem functionBody_settled
    (settled : Settled globals table before)
    (known : before.listing.Parameters function)
    (named : before.listing.NamesParameters function.params params)
    (lowered : functionBody function body before = .ok (done, after)) :
    Settled globals table after := by
  have grounded := functionBody_grounded settled.grounded known lowered
  have grown := (functionBody_tags known lowered).1
  obtain ⟨bound, between, parametersBound, bodyLowered, _, rfl⟩ := functionBody_ok lowered
  have behindBody := (lowering_follows.2.2 body bodyLowered).knows
    (functionBody_knows settled named parametersBound)
  have scopes := scopes_outside between function before.listing.scopes.size
  have formed := behindBody.formed
  have names : between.listing.scopes.moduleNames = table := behindBody.moduleNames
  rw [← scopes] at formed names
  refine ⟨grounded, formed, names, fun name => (settled.each name).of_seen grown rfl ?_⟩
  rw [grounded.scope, settled.grounded.scope, formed.lookup?_outermost,
    settled.formed.lookup?_outermost, names, settled.moduleNames]

/-- A function is refused for a name only where its parameters or its body are to blame. -/
theorem functionBody_blames
    (settled : Settled globals table before)
    (named : before.listing.NamesParameters function.params params) :
    FailsWith (Failure.Blames globals (functionMoments params body)) (functionBody function body)
      before := by
  unfold functionBody
  refine failsWith_bind (failsWith_of_ok rfl) fun _ _ run => ?_
  cases modify_ok_iff.mp run
  refine failsWith_bind ((confined_emit _).fails _) fun _ _ run => ?_
  cases emit_ok_iff.mp run
  refine failsWith_bind (failsWith_of_ok rfl) fun current _ run => ?_
  obtain ⟨rfl, rfl⟩ := openScope_ok_iff.mp run
  refine failsWith_bind (failsWith_of_ok rfl) fun _ _ run => ?_
  cases modify_ok_iff.mp run
  refine failsWith_bind ((confined_emit _).fails _) fun _ _ run => ?_
  cases emit_ok_iff.mp run
  refine failsWith_bind ((confined_label admitsLabels_blames _).fails _) fun _ _ run => ?_
  obtain ⟨-, rfl⟩ := label_ok_iff.mp run
  refine failsWith_bind ((confined_emit _).fails _) fun _ _ run => ?_
  cases emit_ok_iff.mp run
  change FailsWith _ _ (before.begun function (declarationsIn body))
  have begun := settled.begun function (declarationsIn body)
  have isScope : (before.enteredBy function).listing.scopes.size =
      (before.begun function (declarationsIn body)).scope := by
    rw [scope_begun]
    simp [enteredBy, appended]
  change FailsWith _ (bindParameters (before.enteredBy function).listing.scopes.size _ _ >>= _) _
  rw [isScope]
  refine failsWith_bind (bindParameters_blames begun rfl
    (named.grown (extends_begun function (declarationsIn body) before))
    (List.subset_append_left _ _)) fun _ bound parametersBound => ?_
  rw [scope_begun] at parametersBound
  refine failsWith_bind (lowering_blames.2.2 body
    (functionBody_knows settled named parametersBound) (List.subset_append_right _ _))
    fun _ _ _ => ?_
  refine failsWith_bind ((confined_closeScope admitsLabels_blames).fails _) fun _ _ _ => ?_
  refine failsWith_bind ((confined_emit _).fails _) fun _ _ _ => ?_
  refine failsWith_bind ((confined_emit _).fails _) fun _ _ _ => ?_
  exact failsWith_bind (failsWith_of_ok rfl) fun _ _ _ => alwaysFailsWith_modify _ _

end Functions

section Programs

variable
    {globals : List String}
    {table : List (String × VarId)}
    {before after : LoweringState}
    {stmts : List Stmt}

/-- Outside of functions no declaration is refused because of its name. -/
theorem declare_module_blames
    {type : Ty}
    {initial : Option Expr}
    (isModule : before.listing.scopes.isModule before.scope = true) :
    FailsWith (Failure.Blames globals moments) (declare line name type initial) before := by
  have isOuter : before.listing.scopes.isModule (before.frames.headD .outermost).scope = true :=
    isModule
  unfold declare
  refine failsWith_bind (failsWith_of_ok rfl) fun current _ run => ?_
  obtain ⟨rfl, rfl⟩ := frame_ok_iff.mp run
  refine failsWith_bind (failsWith_of_ok rfl) fun state _ run => ?_
  obtain ⟨rfl, rfl⟩ := get_ok_iff.mp run
  simp only [isOuter, Bool.true_and, Bool.not_true, Bool.false_and, Bool.false_eq_true, ↓reduceIte]
  split
  · exact alwaysFailsWith_pure _ _
  refine failsWith_after (Failure.blames_of_other nofun nofun) ?_
  refine failsWith_bind ((confined_constant (admitsOther_blames _)
    (fun _ _ => admitsOther_blames _) _ _).fails _) fun stored between run => ?_
  have scopes := (constant_scopes run).1
  refine failsWith_bind (failsWith_of_ok rfl) fun id _ run => ?_
  obtain ⟨rfl, rfl⟩ := onListing_ok_iff.mp run
  refine failsWith_bind (failsWith_of_ok rfl) fun state _ run => ?_
  obtain ⟨rfl, rfl⟩ := get_ok_iff.mp run
  split
  next fault refused =>
    change between.listing.scopes.declare _ name _ = .error fault at refused
    rw [scopes, ScopeTree.declare, if_pos isOuter] at refused
    split at refused <;> cases refused
  next =>
    exact failsWith_bind (failsWith_of_ok rfl) fun _ _ _ => (confined_emit _).fails _

theorem moduleVariables_blames
    (grounded : before.Grounded) :
    FailsWith (Failure.Blames globals moments) (moduleVariables stmts) before := by
  induction stmts generalizing before with
  | nil => exact alwaysFailsWith_pure _ _
  | cons first rest inductionHypothesis =>
      cases first with
      | declare line name type initial =>
          rw [moduleVariables]
          refine failsWith_bind (declare_module_blames grounded.isOutermost) fun _ _ run => ?_
          exact inductionHypothesis (declare_grounded grounded run)
      | _ => exact inductionHypothesis grounded

/-- What stands in front of the bodies is not refused for a name of a variable. -/
theorem declarations_blames
    (program : Program) :
    FailsWith (Failure.Blames globals moments) (declarations program) (start program.file) := by
  unfold declarations
  refine failsWith_bind (moduleVariables_blames (grounded_start program.file)) fun _ _ _ => ?_
  refine failsWith_bind ((confined_moduleFunctions fun _ _ => admitsOther_blames _).fails _)
    fun _ _ _ => ?_
  refine failsWith_bind (failsWith_of_ok rfl) fun _ _ _ => ?_
  split
  · exact failsWith_throw (Failure.blames_of_other nofun nofun)
  · exact alwaysFailsWith_pure _ _

variable
    {interrupted : Nat → Bool}
    {failure : Failure}

/-- Bodies are refused for a name only where the tree of one of them is to blame. -/
theorem bodies_blames
    {number : Nat}
    (declared : Declared stmts before.listing)
    (named : Named stmts before.listing)
    (settled : Settled globals table before)
    (failed : (Lowering.bodies interrupted number stmts before).2 = .error failure) :
    failure.Blames globals (momentsOf stmts) := by
  induction stmts generalizing before number with
  | nil => cases failed
  | cons first rest inductionHypothesis =>
      cases first with
      | declare line name type initial =>
          exact inductionHypothesis declared.tail named.tail settled failed
      | function line name params result bodyLine body =>
          rw [Lowering.bodies] at failed
          split at failed
          next isInterrupted =>
            cases failed
            exact Failure.blames_of_other (by rintro ⟨⟩) (by rintro ⟨⟩)
          obtain ⟨signature, known, parameters, -⟩ := declared (List.mem_cons_self ..)
          obtain ⟨other, isOther, parameterNames⟩ := named (List.mem_cons_self ..)
          cases known.symm.trans isOther
          obtain ⟨lowered, isLowered, rfl⟩ := Option.map_eq_some_iff.mp known
          rw [isLowered] at failed
          cases run : functionBody lowered.signature body before with
          | error other =>
              simp only [run, Except.error.injEq] at failed
              subst failed
              have blames := functionBody_blames settled parameterNames other run
              exact (blames.of_code (Failure.code_wrap _ _)).mono (List.subset_append_left _ _)
          | ok pair =>
              simp only [run] at failed
              have grown := (functionBody_tags parameters run).1
              refine (inductionHypothesis (Declared.grown grown declared.tail)
                (named.tail.grown grown) ?_ failed).mono (List.subset_append_right _ _)
              exact functionBody_settled settled parameters parameterNames run
      | _ =>
          cases failed
          exact Failure.blames_of_other (by rintro ⟨⟩) (by rintro ⟨⟩)

/-- A program is refused for a name only where one of its functions is to blame. -/
theorem ofProgram_blames
    {program : Program}
    (failed : (Lowering.ofProgram program interrupted).result = .error failure) :
    failure.Blames (declaredNames program.statements) (momentsOf program.statements) := by
  unfold Lowering.ofProgram at failed
  cases first : declarations program (start program.file) with
  | error other =>
      simp only [first, Except.error.injEq] at failed
      subst failed
      exact (declarations_blames program other first).of_code (Failure.code_inFile _ _)
  | ok pair =>
      rcases pair with ⟨_, declared⟩
      obtain ⟨_, globalsLowered, functionsDeclared, _⟩ := declarations_ok first
      have ready := ready_of_passes globalsLowered functionsDeclared
      obtain ⟨settled, _, named⟩ := ready.settled
      cases run : Lowering.bodies interrupted 0 program.statements declared with
      | mk started result =>
          cases result with
          | ok final => simp [first, run] at failed
          | error other =>
              simp only [first, run, Except.error.injEq] at failed
              subst failed
              have blames := bodies_blames ready.functions named settled (by rw [run])
              exact blames.of_code (Failure.code_inFile _ _)

/-- Behind a row of functions the names are known that were known in front of it. -/
theorem Laid.settled
    {parts : List FunctionSection}
    (laid : Laid parts before after)
    (settled : Settled globals table before)
    (named : ∀ part ∈ parts, ∃ params,
      before.listing.NamesParameters part.function.params params) :
    Settled globals table after := by
  induction laid with
  | nil => exact settled
  | cons _ known lowered _ inductionHypothesis =>
      have grown := (functionBody_tags known lowered).1
      obtain ⟨params, parameters⟩ := named _ (List.mem_cons_self ..)
      refine inductionHypothesis (functionBody_settled settled known parameters lowered) ?_
      intro part member
      obtain ⟨others, otherParameters⟩ := named part (List.mem_cons_of_mem _ member)
      exact ⟨others, otherParameters.grown grown⟩

end Programs

end Lower

namespace FunctionSection

open Lower LoweringState

/-- The state in which the parameters of a function have been bound and its body begins. -/
def bound (part : FunctionSection) : LoweringState :=
  behind (bindParameters part.start.listing.scopes.size part.function.line part.function.params)
    (part.start.begun part.function (declarationsIn part.body))

/-- What happens in the body of a function. -/
def events (part : FunctionSection) : List Event :=
  bodyTrace part.body part.bound

/-- The variables that a function can use. -/
def referents (part : FunctionSection) (listing : Listing) : Referents :=
  { parameters := part.function.params
    inner := variablesOf part.events
    globals := listing.scopes.moduleNames }

/--
A function was lowered as its tree says: its parameters have the names in the tree, a name has one
candidate at most wherever the body has come to, and everything that happened in the body is what
the tree says of it.
-/
structure ResolvesIn (globals : List String) (listing : Listing)
    (params : List Param) (part : FunctionSection) : Prop where
  parameters : listing.NamesParameters part.function.params params
  single : ∀ moment ∈ momentsIn (InForce.start.withParameters params) part.body, ∀ name,
    (moment.point.candidates globals name).length ≤ 1
  meets : List.Forall₂ (Meets globals (part.referents listing))
    (momentsIn (InForce.start.withParameters params) part.body) part.events

end FunctionSection

namespace Lower

open Stateful LoweringState

section Rows

variable
    {program : Program}
    {listing : Listing}
    {declared final : LoweringState}
    {parts : List FunctionSection}

theorem candidates_le_of_meets
    {globals : List String}
    {referents : Referents}
    {events : List Event}
    (meets : List.Forall₂ (Meets globals referents) moments events) :
    ∀ moment ∈ moments, ∀ name, (moment.point.candidates globals name).length ≤ 1 := by
  induction meets with
  | nil => exact fun _ member => (List.not_mem_nil member).elim
  | cons met _ inductionHypothesis =>
      intro moment member name
      rcases List.mem_cons.mp member with rfl | later
      · exact (met.1 name).candidates_le
      · exact inductionHypothesis moment later name

/-- The section of a function has the parameters that the tree gives the function. -/
theorem Row.named
    (row : Row program listing declared final parts)
    (named : Named program.statements declared.listing)
    {part : FunctionSection}
    (isPart : part ∈ parts)
    {line : Nat}
    {params : List Param}
    {result : Ty}
    {bodyLine : Nat}
    {body : List Stmt}
    (member : .function line part.name params result bodyLine body ∈ program.statements) :
    declared.listing.NamesParameters part.function.params params := by
  obtain ⟨_, _, _, front, isFunction, _⟩ := row.laid.split isPart
  obtain ⟨signature, known, parameters⟩ := named member
  have same := (front.extends_.signatures _ _ known).symm.trans isFunction
  rw [Option.some.injEq] at same
  exact same ▸ parameters

/-- Every section of a program has the parameters of some function of the tree. -/
theorem Row.allNamed
    (row : Row program listing declared final parts)
    (named : Named program.statements declared.listing) :
    ∀ part ∈ parts, ∃ params, declared.listing.NamesParameters part.function.params params := by
  intro part isPart
  have inBodies : (part.name, part.body) ∈ functionBodies program.statements :=
    row.same ▸ List.mem_map_of_mem isPart
  obtain ⟨_, params, _, _, isFunction⟩ := mem_functionBodies_iff.mp inBodies
  exact ⟨params, row.named named isPart isFunction⟩

/-- The names of the global variables stay what they are in front of the functions. -/
theorem Row.moduleNames
    (row : Row program listing declared final parts) :
    listing.scopes.moduleNames = declared.listing.scopes.moduleNames := by
  obtain ⟨settled, _, named⟩ := row.ready.settled
  rw [row.listing_eq]
  exact (row.laid.settled settled (row.allNamed named)).moduleNames

/-- What happens in a function of a lowered program is what its tree says. -/
theorem Row.resolves
    (row : Row program listing declared final parts)
    {bodyLine : Nat}
    {body : List Stmt}
    (member : .function line name params result bodyLine body ∈ program.statements) :
    ∃ part ∈ parts, part.name = name ∧ part.body = body ∧
      part.ResolvesIn (declaredNames program.statements) listing params := by
  obtain ⟨part, isPart, rfl, rfl⟩ := row.section_of_function member
  obtain ⟨settled, _, named⟩ := row.ready.settled
  have parameters := row.named named isPart member
  obtain ⟨front, back, isSplit, before, _, _, lowered, _⟩ := row.laid.split isPart
  have settledThere := before.settled settled fun other isOther =>
    row.allNamed named other (isSplit ▸ List.mem_append_left _ isOther)
  obtain ⟨bound, between, parametersBound, bodyLowered, _⟩ := functionBody_ok lowered
  have isBound : part.bound = bound := behind_of_ok parametersBound
  have knows := functionBody_knows settledThere (parameters.grown before.extends_) parametersBound
  have meets := (lowering_follows.2.2 part.body bodyLowered).meets knows
  refine ⟨part, isPart, rfl, rfl, ?_, candidates_le_of_meets meets, ?_⟩
  · rw [row.listing_eq]
    exact parameters.grown row.laid.extends_
  · rw [FunctionSection.referents, FunctionSection.events, isBound, row.moduleNames]
    exact meets

end Rows

/--
Names of variables are resolved lexically. In a program that is lowered every name stands, wherever
a function has come to, for one declaration at most: a parameter of the function, one that is
completed in the same block or in a block around it, or the first one of its name outside of
functions. Whatever is looked up is found there. A program is refused for an undeclared name only
if a name is used that stands for nothing, and for one that is declared twice only if a name is
declared that stands for something.
-/
theorem names_resolve_lexically
    (program : Program) :
    (∀ listing, program.lower = .ok listing →
      FirstDeclared program.statements (start program.file) listing ∧
        ∃ declared final parts, Row program listing declared final parts ∧
          ∀ ⦃line name params result bodyLine body⦄,
            .function line name params result bodyLine body ∈ program.statements →
              ∃ part ∈ parts, part.name = name ∧ part.body = body ∧
                part.ResolvesIn (declaredNames program.statements) listing params) ∧
    ∀ interrupted failure,
      (Lowering.ofProgram program interrupted).result = .error failure →
        failure.Blames (declaredNames program.statements) (momentsOf program.statements) := by
  refine ⟨fun listing lowered => ?_, fun _ _ failed => ofProgram_blames failed⟩
  obtain ⟨declared, final, parts, row⟩ := lower_row lowered
  obtain ⟨_, firsts, _⟩ := row.ready.settled
  have grown : declared.listing.Extends listing := row.listing_eq ▸ row.laid.extends_
  exact ⟨firsts.grown grown row.moduleNames, declared, final, parts, row,
    fun _ _ _ _ _ _ member => row.resolves member⟩

/--
The name `x` is declared in a block and again behind it, and `g` is used in front of its first
declaration.
-/
def blocksProgram (last : String) : Program :=
  { file := "t.ils"
    statements := [
      .function 1 "main" [] .absent 1 [
        .block 2 [
          .declare 3 "x" .int (some (.name 3 "g")),
          .assign 4 "g" none (.name 4 "x")],
        .declare 5 "x" .int none,
        .assign 6 "x" none (.name 6 last)],
      .declare 7 "g" .int none,
      .declare 8 "g" .str none] }

theorem blocksProgram_resolves :
    (∃ listing declared final parts,
      (blocksProgram "x").lower = .ok listing ∧
        Row (blocksProgram "x") listing declared final parts ∧
        ∃ part ∈ parts, part.name = "main" ∧ part.ResolvesIn ["g", "g"] listing []) ∧
    ∃ failure,
      (blocksProgram "y").lower = .error failure ∧ failure.code = .undeclaredVariable ∧
        ∃ point name, .use point name ∈ momentsOf (blocksProgram "y").statements ∧
          point.candidates ["g", "g"] name = [] := by
  constructor
  · have accepted : (blocksProgram "x").lower.toBool = true := by decide +kernel
    cases lowered : (blocksProgram "x").lower with
    | error failure => simp [lowered, Except.toBool] at accepted
    | ok listing =>
        obtain ⟨_, declared, final, parts, row, resolves⟩ :=
          (names_resolve_lexically (blocksProgram "x")).1 listing lowered
        obtain ⟨part, isPart, isMain, _, resolved⟩ := resolves List.mem_cons_self
        exact ⟨listing, declared, final, parts, rfl, row, part, isPart, isMain, resolved⟩
  · have refused : ((blocksProgram "y").lower.mapError Failure.code).map (fun _ => ()) =
        .error .undeclaredVariable := by
      decide +kernel
    cases failed : (blocksProgram "y").lower with
    | ok listing => simp [failed, Except.mapError, Except.map] at refused
    | error failure =>
        have isUndeclared : failure.code = .undeclaredVariable := by
          simpa [failed, Except.mapError, Except.map] using refused
        have blames :=
          (names_resolve_lexically (blocksProgram "y")).2 (fun _ => false) failure failed
        exact ⟨failure, rfl, isUndeclared, blames.use isUndeclared⟩

end Lower

end IlsCompiler
