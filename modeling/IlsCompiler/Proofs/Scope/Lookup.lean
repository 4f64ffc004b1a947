import IlsCompiler.Scope.Tree

namespace IlsCompiler.ScopeTree

/-!
# Names and scopes

A scope sees what it binds itself and what the scopes around it see.
-/

/-- A binding changes the scope it is made in and no other. -/
theorem get?_bind
    (tree : ScopeTree)
    (id other : Nat)
    (name : String)
    (reference : Nat) :
    (tree.bind id name reference).get? other =
      (tree.get? other).map fun scope =>
        if other = id then
          { scope with bindings := scope.bindings ++ [(name, reference)] }
        else
          scope := by
  unfold get? bind
  rw [List.getElem?_modify]
  by_cases same : id = other
  · simp [same]
  · have apart : other ≠ id := fun equal => same equal.symm
    simp [same, apart]

variable
    {tree : ScopeTree}
    {id : Nat}
    {scope : Scope}
    {name : String}

/-- A name that a scope did not see is seen in it once it is bound there. -/
theorem lookup?_bind_same
    (found : tree.get? id = some scope)
    (unseen : tree.lookup? id name = none)
    (reference : Nat) :
    (tree.bind id name reference).lookup? id name = some reference := by
  have inside : id < tree.size := (List.getElem?_eq_some_iff.mp found).1
  obtain ⟨count, size⟩ : ∃ count, tree.size = count + 1 := ⟨tree.size - 1, by omega⟩
  have sizeLater : (tree.bind id name reference).size = count + 1 := by
    rw [← size]
    simp [ScopeTree.size, bind]
  have unbound : scope.bindings.lookup name = none := by
    unfold lookup? chain at unseen
    rw [size] at unseen
    simp only [chainWithin, found] at unseen
    cases own : scope.bindings.lookup name with
    | none => rfl
    | some known => cases parent : scope.parent <;> simp [parent, own] at unseen
  have bound : (scope.bindings ++ [(name, reference)]).lookup name = some reference := by
    simp [List.lookup_append, unbound]
  unfold lookup? chain
  rw [sizeLater]
  simp only [chainWithin, get?_bind, found, Option.map_some, ↓reduceIte]
  cases parent : scope.parent <;> simp [bound]

/-- Every scope but the outermost ones hangs under a scope with a lower number. -/
def Rooted (tree : ScopeTree) : Prop :=
  ∀ id scope parent, tree.get? id = some scope → scope.parent = some parent → parent < id

/-- The binding of a name along the first scopes of a chain. -/
def seenWithin (tree : ScopeTree) (count id : Nat) (name : String) : Option Nat :=
  (tree.chainWithin count id).findSome? fun entry => entry.2.bindings.lookup name

theorem lookup?_eq
    (tree : ScopeTree)
    (id : Nat)
    (name : String) :
    tree.lookup? id name =
      (tree.seenWithin tree.size id name).or (tree.moduleNames.lookup name) := by
  unfold lookup? chain seenWithin
  cases List.findSome? (fun entry : Nat × Scope => entry.2.bindings.lookup name)
    (tree.chainWithin tree.size id) <;> rfl

theorem seenWithin_succ
    (found : tree.get? id = some scope)
    (count : Nat)
    (name : String) :
    tree.seenWithin (count + 1) id name =
      (scope.bindings.lookup name).or
        (scope.parent.bind fun parent => tree.seenWithin count parent name) := by
  unfold seenWithin
  simp only [chainWithin, found]
  cases scope.parent <;> cases own : scope.bindings.lookup name <;> simp [own]

theorem seenWithin_none
    (missing : tree.get? id = none)
    (count : Nat)
    (name : String) :
    tree.seenWithin count id name = none := by
  cases count <;> simp [seenWithin, chainWithin, missing]

/-- A scope sees the same under a name in trees whose scopes bind it alike up to that number. -/
theorem seenWithin_congr
    {tree other : ScopeTree}
    (rooted : tree.Rooted)
    {id count more : Nat}
    (inside : id < tree.size)
    (enough : id < count)
    (enoughMore : id < more)
    (same : ∀ known scope, known ≤ id → tree.get? known = some scope →
      ∃ twin, other.get? known = some twin ∧ twin.parent = scope.parent ∧
        twin.bindings.lookup name = scope.bindings.lookup name) :
    other.seenWithin more id name = tree.seenWithin count id name := by
  induction id using Nat.strongRecOn generalizing count more with
  | ind id inductionHypothesis =>
      obtain ⟨scope, found⟩ : ∃ scope, tree.get? id = some scope :=
        ⟨_, List.getElem?_eq_getElem inside⟩
      obtain ⟨twin, isTwin, sameParent, sameBinding⟩ := same id scope (Nat.le_refl _) found
      obtain ⟨fewer, rfl⟩ : ∃ fewer, count = fewer + 1 := ⟨count - 1, by omega⟩
      obtain ⟨less, rfl⟩ : ∃ less, more = less + 1 := ⟨more - 1, by omega⟩
      rw [seenWithin_succ found, seenWithin_succ isTwin, sameBinding, sameParent]
      cases isParent : scope.parent with
      | none => rfl
      | some parent =>
          have below := rooted id scope parent found isParent
          have around := @inductionHypothesis parent below fewer less (by omega) (by omega)
            (by omega) fun known scope bound => same known scope (by omega)
          simp only [Option.bind_some, around]

theorem size_bind
    (tree : ScopeTree)
    (id : Nat)
    (name : String)
    (reference : Nat) :
    (tree.bind id name reference).size = tree.size := by
  simp [size, bind]

theorem rooted_bind
    (rooted : tree.Rooted)
    (id : Nat)
    (name : String)
    (reference : Nat) :
    (tree.bind id name reference).Rooted := by
  intro other scope parent found isParent
  rw [get?_bind, Option.map_eq_some_iff] at found
  obtain ⟨old, isOld, rfl⟩ := found
  refine rooted other old parent isOld ?_
  split at isParent <;> exact isParent

/-- Behind a binding a scope sees what it saw before, but for the name that is bound. -/
theorem seenWithin_bind
    (tree : ScopeTree)
    (id : Nat)
    (name : String)
    (reference count seeing : Nat)
    (wanted : String) :
    (tree.bind id name reference).seenWithin count seeing wanted =
        tree.seenWithin count seeing wanted ∨
      (tree.bind id name reference).seenWithin count seeing wanted = some reference := by
  induction count generalizing seeing with
  | zero => exact .inl rfl
  | succ count inductionHypothesis =>
      cases found : tree.get? seeing with
      | none =>
          have missing : (tree.bind id name reference).get? seeing = none := by
            rw [get?_bind, found]
            rfl
          rw [seenWithin_none found, seenWithin_none missing]
          exact .inl rfl
      | some scope =>
          have later := get?_bind tree id seeing name reference
          rw [found, Option.map_some] at later
          rw [seenWithin_succ found, seenWithin_succ later]
          have sameParent : (if seeing = id then
              { scope with bindings := scope.bindings ++ [(name, reference)] }
            else scope).parent = scope.parent := by
            split <;> rfl
          have own : (if seeing = id then
              { scope with bindings := scope.bindings ++ [(name, reference)] }
            else scope).bindings.lookup wanted = scope.bindings.lookup wanted ∨
            (if seeing = id then
              { scope with bindings := scope.bindings ++ [(name, reference)] }
            else scope).bindings.lookup wanted = some reference := by
            split
            · rw [List.lookup_append]
              cases scope.bindings.lookup wanted with
              | some known => exact .inl rfl
              | none =>
                  by_cases isName : wanted = name
                  · exact .inr (by simp [isName])
                  · have differs : (wanted == name) = false := by simp [isName]
                    exact .inl (by simp [List.lookup_cons, differs])
            · exact .inl rfl
          rw [sameParent]
          rcases own with unchanged | bound
          · rw [unchanged]
            cases scope.bindings.lookup wanted with
            | some known => exact .inl rfl
            | none =>
                cases scope.parent with
                | none => exact .inl rfl
                | some parent => exact inductionHypothesis parent
          · rw [bound]
            exact .inr rfl

theorem lookup?_bind
    {id seeing reference seen : Nat}
    {name wanted : String}
    (found : (tree.bind id name reference).lookup? seeing wanted = some seen) :
    tree.lookup? seeing wanted = some seen ∨ seen = reference := by
  rw [lookup?_eq, size_bind] at found
  rw [lookup?_eq]
  rcases seenWithin_bind tree id name reference tree.size seeing wanted with same | bound
  · rw [same] at found
    exact .inl found
  · rw [bound] at found
    exact .inr (Option.some.inj found).symm

theorem seenWithin_names
    (tree : ScopeTree)
    (names : List (String × Nat))
    (count id : Nat)
    (name : String) :
    ({ tree with moduleNames := names } : ScopeTree).seenWithin count id name =
      tree.seenWithin count id name := by
  have same : ∀ count id, ({ tree with moduleNames := names } : ScopeTree).chainWithin count id =
      tree.chainWithin count id := by
    intro count
    induction count with
    | zero => exact fun _ => rfl
    | succ count inductionHypothesis =>
        intro id
        simp only [chainWithin, inductionHypothesis]
        rfl
  rw [seenWithin, same]
  rfl

/-- A name that is entered in the table of module names as well. -/
theorem lookup?_bind_module
    {id seeing reference seen : Nat}
    {name wanted : String}
    (found : ({ tree.bind id name reference with
      moduleNames := tree.moduleNames ++ [(name, reference)] } : ScopeTree).lookup? seeing wanted =
        some seen) :
    tree.lookup? seeing wanted = some seen ∨ seen = reference := by
  rw [lookup?_eq, seenWithin_names] at found
  rw [lookup?_eq]
  have size : ({ tree.bind id name reference with
      moduleNames := tree.moduleNames ++ [(name, reference)] } : ScopeTree).size = tree.size :=
    size_bind tree id name reference
  rw [size] at found
  rcases seenWithin_bind tree id name reference tree.size seeing wanted with same | bound
  · rw [same] at found
    cases within : tree.seenWithin tree.size seeing wanted with
    | some known =>
        rw [within] at found
        exact .inl found
    | none =>
        rw [within, Option.none_or, List.lookup_append] at found
        cases listed : tree.moduleNames.lookup wanted with
        | some known =>
            rw [listed] at found
            exact .inl found
        | none =>
            rw [listed, Option.none_or, List.lookup_cons] at found
            split at found
            · exact .inr (Option.some.inj found).symm
            · cases found
  · rw [bound] at found
    exact .inr (Option.some.inj found).symm

theorem get?_addChild
    (tree : ScopeTree)
    (parent : Nat)
    (kind : Scope.Kind)
    (found : tree.get? id = some scope) :
    ∃ twin, (tree.addChild parent kind).1.get? id = some twin ∧ twin.parent = scope.parent ∧
      twin.bindings = scope.bindings := by
  have inside : id < tree.scopes.length := (List.getElem?_eq_some_iff.mp found).1
  unfold get? addChild at *
  simp only
  rw [List.getElem?_append_left (by simpa using inside), List.getElem?_modify, found]
  refine ⟨_, rfl, ?_, ?_⟩
  · split <;> rfl
  · split <;> rfl

theorem get?_addChild_new
    (tree : ScopeTree)
    (parent : Nat)
    (kind : Scope.Kind) :
    (tree.addChild parent kind).1.get? tree.size = some (.fresh kind (some parent)) := by
  simp [get?, addChild, size]

theorem size_addChild
    (tree : ScopeTree)
    (parent : Nat)
    (kind : Scope.Kind) :
    (tree.addChild parent kind).1.size = tree.size + 1 := by
  simp [size, addChild]

theorem rooted_addChild
    (rooted : tree.Rooted)
    {parent : Nat}
    (inside : parent < tree.size)
    (kind : Scope.Kind) :
    (tree.addChild parent kind).1.Rooted := by
  intro id scope above found isParent
  rcases Nat.lt_trichotomy id tree.size with old | rfl | outside
  · obtain ⟨known, isKnown⟩ : ∃ known, tree.get? id = some known :=
      ⟨_, List.getElem?_eq_getElem old⟩
    obtain ⟨twin, isTwin, sameParent, _⟩ := get?_addChild tree parent kind isKnown
    rw [isTwin, Option.some.injEq] at found
    rw [← found, sameParent] at isParent
    exact rooted id known above isKnown isParent
  · rw [get?_addChild_new, Option.some.injEq] at found
    rw [← found] at isParent
    cases isParent
    exact inside
  · have within : id < (tree.addChild parent kind).1.size :=
      (List.getElem?_eq_some_iff.mp found).1
    rw [size_addChild] at within
    omega

/-- A scope that has just been opened sees what the scope around it sees. -/
theorem lookup?_addChild
    (rooted : tree.Rooted)
    {parent : Nat}
    (inside : parent < tree.size)
    (kind : Scope.Kind)
    (name : String) :
    (tree.addChild parent kind).1.lookup? tree.size name = tree.lookup? parent name := by
  have around : (tree.addChild parent kind).1.seenWithin tree.size parent name =
      tree.seenWithin tree.size parent name := by
    refine seenWithin_congr rooted inside inside inside fun _ _ _ found => ?_
    obtain ⟨twin, isTwin, sameParent, sameBindings⟩ := get?_addChild tree parent kind found
    exact ⟨twin, isTwin, sameParent, by rw [sameBindings]⟩
  rw [lookup?_eq, lookup?_eq, size_addChild, seenWithin_succ (get?_addChild_new tree parent kind)]
  show ((none : Option Nat).or ((some parent).bind _)).or _ = _
  rw [Option.none_or, Option.bind_some, around]
  rfl

/-- A scope sees the same under a name in a tree in which the scopes bind it as they did. -/
theorem lookup?_congr_name
    {tree other : ScopeTree}
    (rooted : tree.Rooted)
    (inside : id < tree.size)
    (same : ∀ known scope, tree.get? known = some scope →
      ∃ twin, other.get? known = some twin ∧ twin.parent = scope.parent ∧
        twin.bindings.lookup name = scope.bindings.lookup name)
    (moduleNames : other.moduleNames = tree.moduleNames) :
    other.lookup? id name = tree.lookup? id name := by
  have insideOther : id < other.size := by
    obtain ⟨twin, isTwin, _⟩ := same id _ (List.getElem?_eq_getElem inside)
    exact (List.getElem?_eq_some_iff.mp isTwin).1
  rw [lookup?_eq, lookup?_eq, moduleNames,
    seenWithin_congr rooted inside inside insideOther fun known scope _ => same known scope]

/-- A scope sees the same in a tree that has grown elsewhere. -/
theorem lookup?_congr
    {tree other : ScopeTree}
    (rooted : tree.Rooted)
    (inside : id < tree.size)
    (same : ∀ known scope, tree.get? known = some scope →
      ∃ twin, other.get? known = some twin ∧ twin.parent = scope.parent ∧
        twin.bindings = scope.bindings)
    (moduleNames : other.moduleNames = tree.moduleNames)
    (name : String) :
    other.lookup? id name = tree.lookup? id name := by
  refine lookup?_congr_name rooted inside (fun known scope found => ?_) moduleNames
  obtain ⟨twin, isTwin, sameParent, sameBindings⟩ := same known scope found
  exact ⟨twin, isTwin, sameParent, by rw [sameBindings]⟩

/-- A declaration changes nothing about other names. -/
theorem lookup?_bind_other
    (rooted : tree.Rooted)
    {id seeing : Nat}
    (inside : seeing < tree.size)
    {name other : String}
    (differs : other ≠ name)
    (reference : Nat) :
    (tree.bind id name reference).lookup? seeing other = tree.lookup? seeing other := by
  refine lookup?_congr_name rooted inside (fun known scope found => ?_) rfl
  refine ⟨_, by rw [get?_bind, found, Option.map_some], ?_⟩
  split
  · have isOther : (other == name) = false := by simpa using differs
    exact ⟨rfl, by simp [List.lookup_append, List.lookup_cons, isOther]⟩
  · exact ⟨rfl, rfl⟩

end IlsCompiler.ScopeTree
