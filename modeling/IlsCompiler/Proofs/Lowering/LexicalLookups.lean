import IlsCompiler.Proofs.Lowering.NameTraces

namespace IlsCompiler

/-!
# Names stand for what the tree says

While a function is lowered, a name is found in the open scopes exactly if the tree has a
declaration of it in force, and then there is one such declaration and its variable is found. Every
statement keeps this: a block is lowered in a scope of its own, and what the block binds is not
bound in the scopes around it.
-/

/-- The variables of the declarations that a function can use. -/
structure Referents where
  parameters : List VarId
  inner : List VarId
  globals : List (String × VarId)

namespace Referents

/-- The variable of a declaration. -/
def of? (referents : Referents) : Declaration → Option VarId
  | .parameter position => referents.parameters[position]?
  | .inner number => referents.inner[number]?
  | .global name => referents.globals.lookup name

/-- Whatever stands for a variable stands for it among more variables. -/
def Within (referents more : Referents) : Prop :=
  ∀ {declaration id}, referents.of? declaration = some id → more.of? declaration = some id

/-- The variables when more parameters have been declared. -/
def binding (referents : Referents) (ids : List VarId) : Referents :=
  { referents with parameters := referents.parameters ++ ids }

/-- The variables when more have been declared. -/
def adding (referents : Referents) (ids : List VarId) : Referents :=
  { referents with inner := referents.inner ++ ids }

variable
    {referents : Referents}

@[simp] theorem adding_nil
    (referents : Referents) :
    referents.adding [] = referents := by
  simp [adding]

theorem adding_append
    (referents : Referents)
    (ids more : List VarId) :
    referents.adding (ids ++ more) = (referents.adding ids).adding more := by
  simp [adding]

theorem within_adding
    (referents : Referents)
    (ids : List VarId) :
    referents.Within (referents.adding ids) := by
  intro declaration id known
  cases declaration with
  | inner number =>
      have inside := (List.getElem?_eq_some_iff.mp known).1
      show (referents.inner ++ ids)[number]? = some id
      rw [List.getElem?_append_left inside]
      exact known
  | parameter => exact known
  | global => exact known

theorem within_binding
    (referents : Referents)
    (ids : List VarId) :
    referents.Within (referents.binding ids) := by
  intro declaration id known
  cases declaration with
  | parameter position =>
      have inside := (List.getElem?_eq_some_iff.mp known).1
      show (referents.parameters ++ ids)[position]? = some id
      rw [List.getElem?_append_left inside]
      exact known
  | inner => exact known
  | global => exact known

theorem of?_added
    {count : Nat}
    (isCount : referents.inner.length = count)
    (id : VarId) :
    (referents.adding [id]).of? (.inner count) = some id := by
  show (referents.inner ++ [id])[count]? = some id
  rw [← isCount, List.getElem?_concat_length]

end Referents

namespace Lower

open Stateful LoweringState

/--
What is found under a name is what the tree says: nothing if the name has no candidate, and
otherwise the named variable of the only candidate.
-/
inductive Agrees (globals : List String) (referents : Referents) (state : LoweringState)
    (point : InForce) (name : String) : Prop
  | unknown :
      point.candidates globals name = [] →
        state.listing.scopes.lookup? state.scope name = none →
        Agrees globals referents state point name
  | known {declaration : Declaration} {v : Variable} :
      point.candidates globals name = [declaration] →
        referents.of? declaration = some v.id →
        state.listing.scopes.lookup? state.scope name = some v.id →
        state.listing.fixed? v.id = some v → v.storage.isNamed →
        Agrees globals referents state point name

/-- The open scopes of a function show every name as the tree does. -/
structure Knows (globals : List String) (referents : Referents) (state : LoweringState)
    (point : InForce) : Prop where
  numbered : state.listing.Numbered
  formed : state.listing.scopes.Formed
  inside : Inside state.listing.scopes state.scope
  moduleNames : state.listing.scopes.moduleNames = referents.globals
  count : referents.inner.length = point.count
  each : ∀ name, Agrees globals referents state point name

/--
What happens in a function is what the tree says: a name that is used has one candidate, and the
use comes to its variable; a name that is declared had no candidate, and its variable is found
behind the declaration.
-/
def Meets (globals : List String) (referents : Referents) (moment : Moment) (event : Event) :
    Prop :=
  (∀ name, Agrees globals referents event.state moment.point name) ∧
    match moment, event with
    | .reached _, .reached _ => True
    | .use point name, .looked use state =>
        use.name = name ∧ ∃ declaration v,
          point.candidates globals name = [declaration] ∧
            resolve name use.line state = .ok (v, state) ∧ referents.of? declaration = some v.id ∧
            use.LoweredTo v.id state
    | .declaration point name, .declared wanted _ behind =>
        wanted = name ∧ point.candidates globals name = [] ∧ ∃ v,
          behind.listing.scopes.lookup? behind.scope name = some v.id ∧
            referents.of? (.inner point.count) = some v.id ∧
            behind.listing.fixed? v.id = some v ∧
            v.storage = .named name false false 0 behind.scope
    | _, _ => False

variable
    {later : LoweringState}

section Agreement

variable
    {globals : List String}
    {referents : Referents}
    {before after state : LoweringState}
    {point : InForce}
    {name : String}
    {more : Referents}

/-- Variables that come to the known ones change nothing. -/
theorem Agrees.mono
    (agrees : Agrees globals referents state point name)
    (kept : referents.Within more) :
    Agrees globals more state point name := by
  cases agrees with
  | unknown noCandidate unseen => exact .unknown noCandidate unseen
  | known isCandidate isVariable seen found isNamed =>
      exact .known isCandidate (kept isVariable) seen found isNamed

variable
    {next : InForce}

theorem Agrees.of_seen
    (agrees : Agrees globals referents state point name)
    (grown : state.listing.Extends later.listing)
    (same : next.candidates globals name = point.candidates globals name)
    (seen : later.listing.scopes.lookup? later.scope name =
      state.listing.scopes.lookup? state.scope name) :
    Agrees globals referents later next name := by
  cases agrees with
  | unknown noCandidate unseen => exact .unknown (same.trans noCandidate) (seen.trans unseen)
  | known isCandidate isVariable isSeen found isNamed =>
      refine .known (same.trans isCandidate) isVariable (seen.trans isSeen) ?_ isNamed
      rw [grown.stable _ (Listing.le_size_of_fixed? found).2]
      exact found

theorem Agrees.candidates_le
    (agrees : Agrees globals referents state point name) :
    (point.candidates globals name).length ≤ 1 := by
  cases agrees with
  | unknown noCandidate => simp [noCandidate]
  | known isCandidate => simp [isCandidate]

theorem Agrees.candidates_of_unseen
    (agrees : Agrees globals referents state point name)
    (unseen : state.listing.scopes.lookup? state.scope name = none) :
    point.candidates globals name = [] := by
  cases agrees with
  | unknown noCandidate _ => exact noCandidate
  | known _ _ seen => cases unseen.symm.trans seen

/-- A name that resolves stands for its only candidate. -/
theorem Agrees.of_resolve
    (agrees : Agrees globals referents state point name)
    {line : Nat}
    {v : Variable}
    (resolved : resolve name line state = .ok (v, after)) :
    ∃ declaration, point.candidates globals name = [declaration] ∧
      referents.of? declaration = some v.id := by
  obtain ⟨_, id, seen, found, _⟩ := resolve_ok resolved
  cases agrees with
  | unknown _ unseen => cases unseen.symm.trans seen
  | @known declaration w isCandidate isVariable isSeen isFixed _ =>
      cases seen.symm.trans isSeen
      rw [Listing.fixed?, found, Option.map_some, Option.some.injEq] at isFixed
      have sameNumber : w.id = v.id := by
        rw [← isFixed]
        rfl
      exact ⟨declaration, isCandidate, sameNumber ▸ isVariable⟩

theorem Knows.stays
    (knows : Knows globals referents before point)
    (stays : before.Stays after) :
    Knows globals referents after point where
  numbered := stays.extends_.numbered knows.numbered
  formed := by
    rw [stays.scopes]
    exact knows.formed
  inside := knows.inside.proceeds stays.toProceeds
  moduleNames := by rw [stays.scopes, knows.moduleNames]
  count := knows.count
  each name := (knows.each name).of_seen stays.extends_ rfl
    (by rw [stays.scopes, scope_of_proceeds stays.toProceeds])

theorem Knows.isInside
    (knows : Knows globals referents state point) :
    state.scope < state.listing.scopes.size := by
  obtain ⟨_, found, _⟩ := knows.inside
  exact ScopeTree.inside_of_get? found

theorem Knows.notOutermost
    (knows : Knows globals referents state point) :
    state.scope ≠ 0 := by
  intro isOutermost
  have isModule := (knows.formed.isModule_iff knows.isInside).mpr isOutermost
  rw [knows.inside.isModule] at isModule
  cases isModule

theorem Meets.mono
    {moment : Moment}
    {event : Event}
    (meets : Meets globals referents moment event)
    (kept : referents.Within more) :
    Meets globals more moment event := by
  obtain ⟨agrees, matching⟩ := meets
  refine ⟨fun name => (agrees name).mono kept, ?_⟩
  cases moment <;> cases event
  case reached.reached => exact matching
  case use.looked =>
    obtain ⟨same, declaration, v, isCandidate, resolved, isVariable, lowered⟩ := matching
    exact ⟨same, declaration, v, isCandidate, resolved, kept isVariable, lowered⟩
  case declaration.declared =>
    obtain ⟨same, noCandidate, v, seen, isVariable, found⟩ := matching
    exact ⟨same, noCandidate, v, seen, kept isVariable, found⟩
  all_goals exact matching.elim

/-- Behind a declaration its name stands for it, and other names stand for what they did. -/
theorem Knows.bind
    {declaration : Declaration}
    {v : Variable}
    (knows : Knows globals referents before point)
    (proceeds : before.Proceeds after)
    (scopes : after.listing.scopes = before.listing.scopes.bind before.scope name v.id)
    (unseen : before.listing.scopes.lookup? before.scope name = none)
    (names : next.names = point.names ++ [(name, declaration)])
    (kept : referents.Within more)
    (globalsKept : more.globals = referents.globals)
    (count : more.inner.length = next.count)
    (isVariable : more.of? declaration = some v.id)
    (found : after.listing.fixed? v.id = some v)
    (isNamed : v.storage.isNamed) :
    Knows globals more after next where
  numbered := proceeds.extends_.numbered knows.numbered
  formed := by
    rw [scopes, ← ScopeTree.entered_of_inner knows.notOutermost]
    exact knows.formed.entered knows.isInside unseen _
  inside := knows.inside.proceeds proceeds
  moduleNames := by
    rw [scopes, globalsKept]
    exact knows.moduleNames
  count := count
  each other := by
    have sameScope := scope_of_proceeds proceeds
    by_cases isOther : other = name
    · subst isOther
      obtain ⟨_, isScope, _⟩ := knows.inside
      have seen := ScopeTree.lookup?_bind_same isScope unseen v.id
      rw [← scopes, ← sameScope] at seen
      have noCandidate := (knows.each other).candidates_of_unseen unseen
      exact .known (InForce.candidates_declared names noCandidate) isVariable seen found isNamed
    · refine ((knows.each other).mono kept).of_seen proceeds.extends_
        (InForce.candidates_other names isOther) ?_
      rw [scopes, sameScope]
      exact ScopeTree.lookup?_bind_other knows.formed.rooted knows.isInside isOther _

end Agreement

/--
Lowering goes from one point of a function to another, and what happens on the way is what the tree
says. It binds only in the scope that is open.
-/
structure Follows (globals : List String) (point next : InForce) (moments : List Moment)
    (events : List Event) (before after : LoweringState) : Prop
    extends before.Proceeds after where
  elsewhere : ∀ {referents}, Knows globals referents before point →
    SameScopes before.listing.scopes after.listing.scopes (· = before.scope)
  knows : ∀ {referents}, Knows globals referents before point →
    Knows globals (referents.adding (variablesOf events)) after next
  meets : ∀ {referents}, Knows globals referents before point →
    List.Forall₂ (Meets globals (referents.adding (variablesOf events))) moments events

variable
    {name : String}

namespace Follows

variable
    {globals : List String}
    {point between next : InForce}
    {moments more : List Moment}
    {events others : List Event}
    {before middle after : LoweringState}

theorem trans
    (earlier : Follows globals point between moments events before middle)
    (later : Follows globals between next more others middle after) :
    Follows globals point next (moments ++ more) (events ++ others) before after where
  toProceeds := earlier.toProceeds.trans later.toProceeds
  elsewhere knows :=
    (earlier.elsewhere knows).trans
      (scope_of_proceeds earlier.toProceeds ▸ later.elsewhere (earlier.knows knows))
  knows knows := by
    rw [variablesOf, List.filterMap_append, Referents.adding_append]
    exact later.knows (earlier.knows knows)
  meets knows := by
    rw [variablesOf, List.filterMap_append, Referents.adding_append]
    refine List.rel_append ((earlier.meets knows).imp fun moment event meets => ?_)
      (later.meets (earlier.knows knows))
    exact meets.mono (Referents.within_adding _ _)

variable
    {names : List String}

/-- Where names are only looked up, nothing is declared. -/
theorem variablesOf_looks
    (looks : Looks names events before after) :
    variablesOf events = [] := by
  have each := looks.each
  clear looks
  induction each with
  | nil => rfl
  | cons isLooked _ inductionHypothesis =>
      obtain ⟨_, _, _, rfl, _⟩ := isLooked
      exact inductionHypothesis

theorem of_looks
    (looks : Looks names events before after) :
    Follows globals point point (point.uses names) events before after where
  toProceeds := looks.toProceeds
  elsewhere _ := by
    rw [looks.scopes]
    exact fun _ scope _ found => ⟨scope, found, rfl, rfl⟩
  knows knows := by
    rw [variablesOf_looks looks, Referents.adding_nil]
    exact knows.stays looks.toStays
  meets {referents} knows := by
    rw [variablesOf_looks looks, Referents.adding_nil, InForce.uses, List.forall₂_map_left_iff]
    refine looks.each.imp ?_
    rintro name event ⟨use, state, v, rfl, isName, stays, resolved, lowered⟩
    have there := knows.stays stays
    obtain ⟨declaration, isCandidate, isVariable⟩ := (there.each name).of_resolve resolved
    exact ⟨there.each, isName, declaration, v, isCandidate, resolved, isVariable,
      lowered there.numbered⟩

/-- Steps that look nothing up and leave the scopes as they are. -/
theorem nothing
    (stays : before.Stays after) :
    Follows globals point point [] [] before after :=
  .of_looks (.nothing stays)

theorem behind
    (follows : Follows globals point next moments events before middle)
    (stays : middle.Stays after) :
    Follows globals point next moments events before after := by
  simpa using follows.trans (.nothing stays)

theorem front
    (stays : before.Stays middle)
    (follows : Follows globals point next moments events middle after) :
    Follows globals point next moments events before after :=
  (nothing stays).trans follows

/-- A statement begins or a body ends. -/
theorem reached
    (follows : Follows globals point next moments events before after) :
    Follows globals point next (.reached point :: moments) (.reached before :: events)
      before after where
  toProceeds := follows.toProceeds
  elsewhere := follows.elsewhere
  knows := follows.knows
  meets knows :=
    .cons ⟨fun name => ((knows.each name).mono (Referents.within_adding _ _)), trivial⟩ (follows.meets knows)

/-- A local that is declared is what its name stands for from then on. -/
theorem withLocal
    (type : Ty)
    (value : Value)
    (line : Nat)
    (unseen : before.listing.scopes.lookup? before.scope name = none) :
    Follows globals point (point.withInner name) [.declaration point name]
      [.declared name before (before.withLocal name type value line)] before
      (before.withLocal name type value line) := by
  have proceeds := proceeds_withLocal before name type value line
  have scopes := scopes_withLocal before name type value line
  have sameScope := scope_of_proceeds proceeds
  obtain ⟨v, found, storage, _⟩ := fixed?_withLocal before name type value line
  have isNumber : ∀ {referents}, Knows globals referents before point →
      v.id = before.listing.vars.size + 1 := fun knows =>
    proceeds.extends_.numbered knows.numbered _ v found
  have isBound : ∀ {referents}, Knows globals referents before point →
      (before.withLocal name type value line).listing.scopes.lookup?
        (before.withLocal name type value line).scope name = some v.id := by
    intro referents knows
    obtain ⟨_, isScope, _⟩ := knows.inside
    rw [scopes, sameScope, isNumber knows]
    exact ScopeTree.lookup?_bind_same isScope unseen _
  have isVariable : ∀ {referents}, Knows globals referents before point →
      variablesOf [.declared name before (before.withLocal name type value line)] = [v.id] := by
    intro referents knows
    simp [variablesOf, Event.variable?, isBound knows]
  refine
    { toProceeds := proceeds
      elsewhere := fun _ id scope other isFound => ?_
      knows := fun {referents} knows => ?_
      meets := fun {referents} knows => ?_ }
  · rw [scopes, ScopeTree.get?_bind, isFound, Option.map_some, if_neg other]
    exact ⟨scope, rfl, rfl, rfl⟩
  · rw [← isNumber knows] at scopes found
    rw [isVariable knows]
    refine knows.bind proceeds scopes unseen rfl (referents.within_adding _) rfl ?_
      (Referents.of?_added knows.count v.id) found (by rw [storage]; rfl)
    show (_ ++ [_]).length = _
    rw [List.length_append, knows.count]
    rfl
  · rw [← isNumber knows] at found
    have noCandidate := (knows.each name).candidates_of_unseen unseen
    rw [isVariable knows]
    refine .cons ⟨fun other => (knows.each other).mono (referents.within_adding _), rfl,
      noCandidate, v, ?_⟩ .nil
    exact ⟨isBound knows, Referents.of?_added knows.count _, found, by rw [storage, sameScope]⟩

end Follows

section Scopes

variable
    {globals : List String}
    {referents : Referents}
    {point next : InForce}
    {before between : LoweringState}

/-- A scope that has just been opened shows what the scope around it shows. -/
theorem Knows.entered
    (knows : Knows globals referents before point)
    (kind : Scope.Kind)
    (exitLabel : String) :
    Knows globals referents (before.entered kind exitLabel) point := by
  have grown := (grows_entered before kind exitLabel).extends_
  have scopes := scopes_entered before kind exitLabel
  exact
    { numbered := grown.numbered knows.numbered
      formed := by
        rw [scopes]
        exact knows.formed.addChild knows.isInside kind
      inside := inside_entered before kind exitLabel
      moduleNames := by
        rw [scopes]
        exact knows.moduleNames
      count := knows.count
      each := fun name => (knows.each name).of_seen grown rfl (by
        rw [scopes]
        exact ScopeTree.lookup?_addChild knows.formed.rooted knows.isInside kind name) }

/-- Behind a scope every name stands for what it stood for in front of it. -/
theorem Knows.left
    {ids : List VarId}
    (knows : Knows globals referents before point)
    (inner : Knows globals (referents.adding ids) between next)
    (proceeds : before.Proceeds later)
    (scopes : later.listing.scopes = between.listing.scopes)
    (same : ∀ id scope, before.listing.scopes.get? id = some scope →
      ∃ twin, between.listing.scopes.get? id = some twin ∧ twin.parent = scope.parent ∧
        twin.bindings = scope.bindings)
    {count : Nat}
    (isCount : next.count = point.count + count) :
    Knows globals (referents.adding ids) later (point.past count) where
  numbered := proceeds.extends_.numbered knows.numbered
  formed := by
    rw [scopes]
    exact inner.formed
  inside := knows.inside.proceeds proceeds
  moduleNames := by rw [scopes, inner.moduleNames]
  count := inner.count.trans isCount
  each name := ((knows.each name).mono (Referents.within_adding _ ids)).of_seen proceeds.extends_ rfl (by
    rw [scopes, scope_of_proceeds proceeds]
    exact ScopeTree.lookup?_congr knows.formed.rooted knows.isInside same
      (inner.moduleNames.trans knows.moduleNames.symm) name)

end Scopes

section Statements

variable
    {globals : List String}
    {before after : LoweringState}
    {line : Nat}
    {done : Unit}
    {point : InForce}

theorem inScope_follows
    {kind : Scope.Kind}
    {exitLabel : String}
    {body : List Stmt}
    (each : ∀ {before after : LoweringState}, statements body before = .ok ((), after) →
      Follows globals point (point.through body) (momentsIn point body) (bodyTrace body before)
        before after)
    (lowered : inScope kind exitLabel (statements body) before = .ok (done, after)) :
    Follows globals point (point.past (declarationsIn body)) (momentsIn point body)
      (bodyTrace body (before.entered kind exitLabel)) before after := by
  have proceeds := inScope_proceeds (fun bodyLowered => (each bodyLowered).toProceeds) lowered
  obtain ⟨between, _, bodyLowered, _, rfl⟩ := inScope_ok lowered
  have follows := each bodyLowered
  -- The scopes that were there before are not the new one, in which alone the body binds.
  have same : ∀ {referents}, Knows globals referents before point →
      ∀ id scope, before.listing.scopes.get? id = some scope →
        ∃ twin, between.listing.scopes.get? id = some twin ∧ twin.parent = scope.parent ∧
          twin.bindings = scope.bindings :=
    fun knows => SameScopes.of_opened (scopes_entered before kind exitLabel)
      (follows.elsewhere (knows.entered kind exitLabel))
  refine
    { toProceeds := proceeds
      elsewhere := fun knows id scope _ found => ?_
      knows := fun knows => ?_
      meets := fun knows => follows.meets (knows.entered kind exitLabel) }
  · rw [scopes_left]
    exact same knows id scope found
  · exact knows.left (follows.knows (knows.entered kind exitLabel)) proceeds (scopes_left between)
      (same knows) (InForce.count_through point body)

theorem declare_follows
    {type : Ty}
    {initial : Option Expr}
    (lowered : declare line name type initial before = .ok (done, after)) :
    Follows globals point (point.withInner name)
      (point.uses (namesOfValue initial) ++ [.declaration point name])
      (stmtTrace (.declare line name type initial) before) before after := by
  -- What a declaration does depends on where it stands, which is known only inside a function.
  have follows : ∀ {referents}, Knows globals referents before point →
      Follows globals point (point.withInner name)
        (point.uses (namesOfValue initial) ++ [.declaration point name])
        (stmtTrace (.declare line name type initial) before) before after := by
    intro referents knows
    obtain ⟨_, stored, between, initialized, unseen, isAfter⟩ :=
      declare_local_ok knows.inside.isModule lowered
    obtain ⟨scopes, sameScope⟩ := initializer_scopes initialized
    rw [← scopes, ← sameScope] at unseen
    rw [stmtTrace, behind_of_ok initialized, behind_of_ok lowered, isAfter]
    exact (Follows.of_looks (initializer_looks initialized)).trans (.withLocal type stored line unseen)
  exact
    { toProceeds := declare_proceeds lowered
      elsewhere := fun knows => (follows knows).elsewhere knows
      knows := fun knows => (follows knows).knows knows
      meets := fun knows => (follows knows).meets knows }

theorem stays_chooseBegun
    (before : LoweringState) :
    before.Stays (chooseBegun before) :=
  (Stays.numbered before).trans (.labelled _ _)

theorem stays_loopBegun
    (before : LoweringState) :
    before.Stays (loopBegun before) :=
  ((Stays.numbered before).trans (.appended _ rfl)).trans (.labelled _ _)

/-- What happens in every statement, arm and body is what the tree says. -/
theorem lowering_follows :
    (∀ statement_ : Stmt, ∀ {point : InForce} {before after : LoweringState},
      statement statement_ before = .ok ((), after) →
        Follows globals point (point.behind statement_) (statement_.moments point)
          (stmtTrace statement_ before) before after) ∧
    (∀ branch_ : Branch, ∀ {point : InForce} {number arm : Nat} {endLabel : String}
      {before after : LoweringState},
      branch number arm endLabel branch_ before = .ok ((), after) →
        Follows globals point (point.past branch_.declarations) (branch_.moments point)
          (branchTrace number arm endLabel branch_ before) before after) ∧
    ∀ body : List Stmt, ∀ {point : InForce} {before after : LoweringState},
      statements body before = .ok ((), after) →
        Follows globals point (point.through body) (momentsIn point body)
          (bodyTrace body before) before after := by
  apply Stmt.induction
  case block =>
    intro line body bodyHypothesis point before after lowered
    exact inScope_follows bodyHypothesis (statement_block_ok lowered)
  case declare =>
    intro line name type value point before after lowered
    rw [statement] at lowered
    exact declare_follows lowered
  case function =>
    intro line name params result bodyLine body _ point before after lowered
    exact (statement_function_ok.mp lowered).elim
  case assign =>
    intro line name index value point before after lowered
    rw [statement] at lowered
    exact .of_looks (assign_looks lowered)
  case call =>
    intro line callLine name builtin arguments point before after lowered
    rw [statement] at lowered
    exact .of_looks (callStatement_looks lowered)
  case leave =>
    intro line value point before after lowered
    rw [statement] at lowered
    exact .of_looks (leave_looks lowered)
  case choose =>
    intro line test bodyLine body next bodyHypothesis nextHypothesis point before after lowered
    obtain ⟨tested, chosen, branched, _, tests, _, chooses, branches, _, rfl⟩ :=
      statement_choose_ok lowered
    have isTested : behind (condition test (chooseBody before)
        (otherwiseLabel before.listing.labelCount 0 (chooseEnd before) next) false)
          (chooseBegun before) = tested := behind_of_ok tests
    have isChosen : behind (inScope .ifArm "" (statements body))
        (tested.labelled (chooseBody before)) = chosen := behind_of_ok chooses
    have testing : Follows globals point point _ _ _ _ :=
      (Follows.of_looks (condition_looks tests)).behind (.labelled tested (chooseBody before))
    have choosing := testing.trans (inScope_follows bodyHypothesis chooses)
    have whole := (choosing.behind (.skipped _ _ _)).trans (nextHypothesis branches)
    rw [InForce.past_past] at whole
    simp only [stmtTrace, isTested, isChosen]
    exact .front (stays_chooseBegun before) (whole.behind (.labelled branched (chooseEnd before)))
  case loop =>
    intro line test bodyLine body bodyHypothesis point before after lowered
    obtain ⟨looped, tested, _, loops, _, tests, _, rfl⟩ := statement_loop_ok lowered
    have isLooped : behind (inScope .loop (loopEnd before) (statements body))
        (loopBegun before) = looped := behind_of_ok loops
    have looping : Follows globals point (point.past (declarationsIn body)) _ _ _ _ :=
      (inScope_follows bodyHypothesis loops).behind
        (.labelled looped (loopStem before.listing.labelCount ++ "_COND"))
    simp only [stmtTrace, isLooped]
    exact .front (stays_loopBegun before) ((looping.trans (.of_looks (condition_looks tests))).behind
      (.labelled tested (loopEnd before)))
  case exit =>
    intro line point before after lowered
    rw [statement] at lowered
    cases exit_ok lowered
    exact .nothing (.appended _ rfl)
  case none =>
    intro point number arm endLabel before after lowered
    cases branch_none_ok lowered
    exact .nothing (.refl _)
  case elif =>
    intro line test bodyLine body next bodyHypothesis nextHypothesis point number arm endLabel
      before after lowered
    obtain ⟨tested, chosen, _, tests, _, chooses, branches⟩ := branch_elif_ok lowered
    have isTested : behind (condition test (armLabel number arm ++ "_BODY")
        (otherwiseLabel number (arm + 1) endLabel next) false)
          (before.labelled (armLabel number arm)) = tested := behind_of_ok tests
    have isChosen : behind (inScope .elifArm "" (statements body))
        (tested.labelled (armLabel number arm ++ "_BODY")) = chosen := behind_of_ok chooses
    have testing : Follows globals point point _ _ _ _ :=
      (Follows.of_looks (condition_looks tests)).behind
        (.labelled tested (armLabel number arm ++ "_BODY"))
    have choosing := testing.trans (inScope_follows bodyHypothesis chooses)
    have whole := (choosing.behind (.skipped _ _ _)).trans (nextHypothesis branches)
    rw [InForce.past_past] at whole
    simp only [branchTrace, isTested, isChosen]
    exact .front (.labelled before (armLabel number arm)) whole
  case otherwise =>
    intro line bodyLine body bodyHypothesis point number arm endLabel before after lowered
    obtain ⟨_, bodyLowered⟩ := branch_otherwise_ok lowered
    exact .front (.labelled before (armLabel number arm))
      (inScope_follows bodyHypothesis bodyLowered)
  case nil =>
    intro point before after lowered
    cases statements_nil_ok lowered
    exact (Follows.nothing (.refl _)).reached
  case cons =>
    intro first rest firstHypothesis restHypothesis point before after lowered
    obtain ⟨between, firstLowered, restLowered⟩ := statements_cons_ok lowered
    rw [bodyTrace, behind_of_ok firstLowered]
    exact ((firstHypothesis firstLowered).trans (restHypothesis restLowered)).reached

end Statements

end Lower

end IlsCompiler
