import IlsCompiler.Proofs.Lowering.ProgramLifetimes

namespace IlsCompiler

/-!
# Global variables

The nodes in front of the functions declare the global variables in the order of the module names,
each name once.
-/

/-- The name of the global variable that a node declares. -/
def Listing.globalName? (listing : Listing) (node : Node) : Option String :=
  match node with
  | .declare id _ =>
      (listing.fixed? id).bind fun v =>
        match v.storage with
        | .named name true _ _ _ => some name
        | _ => none
  | _ => none

variable
    {name : String}
    {node : Node}

theorem Listing.globalName?_ok
    {listing : Listing}
    (named : listing.globalName? node = some name) :
    ∃ id line v isParam position scope,
      node = .declare id line ∧ listing.lookup? id = some v ∧
        v.storage = .named name true isParam position scope := by
  cases node with
  | declare id line =>
      obtain ⟨w, isFixed, named⟩ := Option.bind_eq_some_iff.mp named
      obtain ⟨v, found, rfl⟩ := lookup?_of_fixed? isFixed
      obtain ⟨number, type, value, preserved, lastUse, storage⟩ := v
      cases storage with
      | named other isGlobal isParam position scope =>
          cases isGlobal <;> cases isParam <;> cases named <;>
            exact ⟨id, line, _, _, _, _, rfl, found, rfl⟩
      | _ => cases named
  | _ => cases named

variable
    {earlier later : Listing}

theorem Listing.globalName?_mono
    (grown : earlier.Extends later)
    (named : earlier.globalName? node = some name) :
    later.globalName? node = some name := by
  cases node with
  | declare id line =>
      obtain ⟨w, isFixed, isName⟩ := Option.bind_eq_some_iff.mp named
      exact Option.bind_eq_some_iff.mpr ⟨w, grown.fixed?_of isFixed, isName⟩
  | _ => cases named

/-- The nodes declare the global variables of the module names, and no name twice. -/
structure Listing.DeclaresGlobals (listing : Listing) : Prop where
  names : listing.nodes.toList.map listing.globalName? =
    listing.scopes.moduleNames.map fun entry => some entry.1
  distinct : (listing.scopes.moduleNames.map Prod.fst).Nodup

namespace Lower

open LoweringState Stateful

variable
    {before after : LoweringState}
    {done : Unit}

theorem isModuleName_iff
    {tree : ScopeTree}
    {name : String} :
    tree.isModuleName name = true ↔ name ∈ tree.moduleNames.map Prod.fst := by
  unfold ScopeTree.isModuleName
  induction tree.moduleNames with
  | nil => simp
  | cons first rest inductionHypothesis =>
      rw [List.lookup_cons, List.map_cons, List.mem_cons]
      split
      next same => simp [beq_iff_eq.mp same]
      next apart => rw [inductionHypothesis, or_iff_right (by simpa using apart)]

/-- A listing that grows does not change the names of the global variables that are declared. -/
theorem globalNames_grown
    (declares : earlier.DeclaresGlobals)
    (grown : earlier.Extends later) :
    earlier.nodes.toList.map later.globalName? =
      earlier.scopes.moduleNames.map fun entry => some entry.1 := by
  rw [← declares.names]
  refine List.map_congr_left fun node member => ?_
  have isNamed : earlier.globalName? node ∈ earlier.nodes.toList.map earlier.globalName? :=
    List.mem_map_of_mem member
  rw [declares.names] at isNamed
  obtain ⟨entry, _, named⟩ := List.mem_map.mp isNamed
  rw [← named]
  exact Listing.globalName?_mono grown named.symm

/-- Where nodes and module names stay, so do the global variables. -/
theorem declaresGlobals_grown
    (declares : earlier.DeclaresGlobals)
    (grown : earlier.Extends later)
    (nodes : later.nodes = earlier.nodes)
    (names : later.scopes.moduleNames = earlier.scopes.moduleNames) :
    later.DeclaresGlobals where
  names := by rw [nodes, names, globalNames_grown declares grown]
  distinct := names ▸ declares.distinct

/-- A global variable is declared under a name that no other one has. -/
theorem declaresGlobals_withGlobal
    {type : Ty}
    {value : Value}
    {line : Nat}
    (declares : before.listing.DeclaresGlobals)
    (isNew : before.listing.scopes.isModuleName name = false) :
    (before.withGlobal name type value line).listing.DeclaresGlobals := by
  have grown := (proceeds_withGlobal before name type value line).extends_
  obtain ⟨v, found, storage, _⟩ := fixed?_withGlobal before name type value line
  have nodes : (before.withGlobal name type value line).listing.nodes.toList =
      before.listing.nodes.toList ++ [.declare (before.listing.vars.size + 1) line] := by
    simp [LoweringState.withGlobal, Listing.addNamed, Listing.addVariable]
  have names : (before.withGlobal name type value line).listing.scopes.moduleNames =
      before.listing.scopes.moduleNames ++ [(name, before.listing.vars.size + 1)] := by
    simp [LoweringState.withGlobal, Listing.addNamed, Listing.addVariable, appended]
  have isName : (before.withGlobal name type value line).listing.globalName?
      (.declare (before.listing.vars.size + 1) line) = some name := by
    simp [Listing.globalName?, found, storage]
  refine ⟨?_, ?_⟩
  · rw [nodes, names, List.map_append, List.map_append, List.map_singleton, List.map_singleton,
      isName, globalNames_grown declares grown]
  · have absent : name ∉ before.listing.scopes.moduleNames.map Prod.fst := by
      rw [← isModuleName_iff, isNew]
      decide
    rw [names, List.map_append, List.map_singleton, List.nodup_append]
    refine ⟨declares.distinct, by simp, fun other member last isLast same => ?_⟩
    rw [same, List.mem_singleton.mp isLast] at member
    exact absent member

variable
    {stmts : List Stmt}

theorem moduleVariables_declaresGlobals
    (isModule : before.listing.scopes.isModule before.scope = true)
    (declares : before.listing.DeclaresGlobals)
    (lowered : moduleVariables stmts before = .ok (done, after)) :
    after.listing.DeclaresGlobals := by
  induction stmts generalizing before with
  | nil =>
      rw [moduleVariables] at lowered
      obtain ⟨-, rfl⟩ := pure_ok_iff.mp lowered
      exact declares
  | cons first rest inductionHypothesis =>
      cases first with
      | declare line name type initial =>
          rw [moduleVariables] at lowered
          obtain ⟨_, between, declared, others⟩ := bind_ok_iff.mp lowered
          have proceeds := declare_proceeds declared
          have stillModule : between.listing.scopes.isModule between.scope = true := by
            rw [scope_of_proceeds proceeds]
            exact isModule_grown proceeds.extends_.scopes isModule
          refine inductionHypothesis stillModule ?_ others
          rcases declare_module_ok isModule declared with ⟨_, rfl⟩ | ⟨isNew, _, _, found, rfl⟩
          · exact declares
          · obtain ⟨scopes, _⟩ := constant_scopes found
            refine declaresGlobals_withGlobal ?_ (scopes ▸ isNew)
            exact declaresGlobals_grown declares (constant_proceeds found).extends_
              (constant_nodes found) (congrArg ScopeTree.moduleNames scopes)
      | _ => exact inductionHypothesis isModule declares lowered

/-- The names that module statements declare as global variables, in order. -/
def declaredNames : List Stmt → List String
  | [] => []
  | .declare _ name _ _ :: rest => name :: declaredNames rest
  | _ :: rest => declaredNames rest

/-- Of several declarations of a name the first one counts. -/
theorem moduleVariables_names
    (isModule : before.listing.scopes.isModule before.scope = true)
    (lowered : moduleVariables stmts before = .ok (done, after)) :
    after.listing.scopes.moduleNames.map Prod.fst =
      before.listing.scopes.moduleNames.map Prod.fst ++
        ((declaredNames stmts).filter fun name =>
          !before.listing.scopes.isModuleName name).eraseDups := by
  induction stmts generalizing before with
  | nil =>
      rw [moduleVariables] at lowered
      obtain ⟨-, rfl⟩ := pure_ok_iff.mp lowered
      simp [declaredNames]
  | cons first rest inductionHypothesis =>
      cases first with
      | declare line name type initial =>
          rw [moduleVariables] at lowered
          obtain ⟨_, between, declared, others⟩ := bind_ok_iff.mp lowered
          have proceeds := declare_proceeds declared
          have stillModule : between.listing.scopes.isModule between.scope = true := by
            rw [scope_of_proceeds proceeds]
            exact isModule_grown proceeds.extends_.scopes isModule
          rw [inductionHypothesis stillModule others, declaredNames]
          rcases declare_module_ok isModule declared with
            ⟨known, rfl⟩ | ⟨isNew, stored, initialized, found, rfl⟩
          · rw [List.filter_cons_of_neg (by simp [known])]
          · obtain ⟨scopes, _⟩ := constant_scopes found
            have names : (initialized.withGlobal name type stored line).listing.scopes.moduleNames =
                before.listing.scopes.moduleNames ++ [(name, initialized.listing.vars.size + 1)] := by
              simp [LoweringState.withGlobal, Listing.addNamed, Listing.addVariable, appended,
                scopes]
            have others : ∀ other,
                (!(initialized.withGlobal name type stored line).listing.scopes.isModuleName
                  other) =
                  (!other == name && !before.listing.scopes.isModuleName other) := by
              intro other
              rw [Bool.eq_iff_iff]
              simp [Bool.eq_false_iff, isModuleName_iff, names, not_or, and_comm]
            rw [List.filter_cons_of_pos (by simp [isNew]), List.eraseDups_cons, names,
              List.map_append, List.append_assoc, List.filter_filter]
            simp only [others]
            rfl
      | _ => exact inductionHypothesis isModule lowered

variable
    {declared : LoweringState}
    {program : Program}

/-- In front of the functions of a program stand its global variables, each name once. -/
theorem Ready.declaresGlobals
    (ready : Ready program declared) :
    declared.listing.DeclaresGlobals := by
  obtain ⟨globals, globalsLowered, functionsLowered⟩ := ready.reached
  obtain ⟨declares, _⟩ := moduleFunctions_ok functionsLowered
  have begins : (start program.file).listing.DeclaresGlobals := ⟨rfl, List.nodup_nil⟩
  refine declaresGlobals_grown (moduleVariables_declaresGlobals rfl begins globalsLowered)
    declares.extends_ (congrArg Listing.Frozen.nodes declares.frozen) ?_
  exact congrArg ScopeTree.moduleNames (congrArg Listing.Frozen.scopes declares.frozen)

/-- In front of the functions stands one declaration for each name that is declared. -/
theorem Ready.globalNames
    (ready : Ready program declared)
    (grown : declared.listing.Extends later) :
    declared.listing.nodes.toList.map later.globalName? =
      (declaredNames program.statements).eraseDups.map some := by
  obtain ⟨globals, globalsLowered, functionsLowered⟩ := ready.reached
  obtain ⟨declares, _⟩ := moduleFunctions_ok functionsLowered
  have names := moduleVariables_names rfl globalsLowered
  have none : (start program.file).listing.scopes.moduleNames = [] := rfl
  have kept : declared.listing.scopes.moduleNames = globals.listing.scopes.moduleNames :=
    congrArg ScopeTree.moduleNames (congrArg Listing.Frozen.scopes declares.frozen)
  have all : (declaredNames program.statements).filter (fun name =>
      !(start program.file).listing.scopes.isModuleName name) = declaredNames program.statements :=
    List.filter_eq_self.mpr fun _ _ => rfl
  rw [none, all, List.map_nil, List.nil_append] at names
  rw [globalNames_grown ready.declaresGlobals grown, kept, ← names, List.map_map]
  rfl

end Lower

end IlsCompiler
