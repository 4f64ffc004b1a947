import Mathlib.Data.List.Nodup
import IlsCompiler.Proofs.Scope.Lookup

namespace IlsCompiler.ScopeTree

/-!
# The laws of scope trees

A tree grows by requests: to open a scope under another one, and to declare a name in a scope. What
holds of every tree that is reached in this way rests on one invariant: the table of module names
repeats the outermost scope, every other scope hangs under one with a lower number, and no scope
binds a name twice. Scopes around a scope may gain names after it, so that a chain can bind a name
more than once; the innermost binding is then the one that is seen.
-/

/-- A call that changes a tree. -/
inductive Request where
  | child (parent : Nat) (kind : Scope.Kind)
  | declare (scope : Nat) (name : String) (reference : Nat)

/-- The scope in which a request is made. -/
def Request.scope : Request → Nat
  | .child parent _ => parent
  | .declare scope _ _ => scope

/-- The tree behind a request; a declaration that is refused leaves no other tree. -/
def after (tree : ScopeTree) : Request → ScopeTree
  | .child parent kind => (tree.addChild parent kind).1
  | .declare scope name reference =>
      match tree.declare scope name reference with
      | .ok (later, _) => later
      | .error _ => tree

/-- The trees that requests in scopes of the tree lead to, in any number and order. -/
inductive Reaches (tree : ScopeTree) : ScopeTree → Prop
  | here : Reaches tree tree
  | step {later : ScopeTree} {request : Request} :
      Reaches tree later → request.scope < later.size → Reaches tree (later.after request)

/-- A tree with a new binding, which the table of module names repeats for the outermost scope. -/
def entered (tree : ScopeTree) (id : Nat) (name : String) (reference : Nat) : ScopeTree :=
  { tree.bind id name reference with
    moduleNames :=
      if id = 0 then tree.moduleNames ++ [(name, reference)] else tree.moduleNames }

variable
    {tree : ScopeTree}

theorem entered_of_inner
    {id : Nat}
    (inner : id ≠ 0)
    (name : String)
    (reference : Nat) :
    tree.entered id name reference = tree.bind id name reference := by
  rw [entered, if_neg inner]
  rfl

/-- A scope hangs under another one. -/
def Hangs (tree : ScopeTree) (child parent : Nat) : Prop :=
  ∃ inner, tree.get? child = some inner ∧ inner.parent = some parent

/-- What every tree keeps that has grown by requests. -/
structure Formed (tree : ScopeTree) : Prop where
  outermost : ∃ scope, tree.get? 0 = some scope ∧ scope.parent = none ∧
    scope.bindings = tree.moduleNames
  parents : ∀ id scope, tree.get? id = some scope → 0 < id →
    ∃ parent, scope.parent = some parent ∧ parent < id
  children : ∀ id scope, tree.get? id = some scope →
    ∀ child, child ∈ scope.children ↔ tree.Hangs child id
  distinct : ∀ id scope, tree.get? id = some scope → scope.names.Nodup

variable
    {request : Request}
    {later : ScopeTree}

section Requests

variable
    {tree : ScopeTree}
    {id other : Nat}
    {scope : Scope}
    {name : String}
    {reference : Nat}

theorem get?_of_inside
    (inside : id < tree.size) :
    ∃ scope, tree.get? id = some scope :=
  ⟨_, List.getElem?_eq_getElem inside⟩

theorem inside_of_get?
    (found : tree.get? id = some scope) :
    id < tree.size :=
  (List.getElem?_eq_some_iff.mp found).1

/-- A new scope is the last one, and the scope that it hangs under names it as a child. -/
theorem get?_addChild_eq
    (tree : ScopeTree)
    (parent : Nat)
    (kind : Scope.Kind)
    (id : Nat) :
    (tree.addChild parent kind).1.get? id =
      if id = tree.size then
        some (.fresh kind (some parent))
      else
        (tree.get? id).map fun scope =>
          if id = parent then { scope with children := scope.children ++ [tree.size] } else scope := by
  by_cases isNew : id = tree.size
  · rw [if_pos isNew, isNew, get?_addChild_new]
  · rw [if_neg isNew]
    unfold get? addChild size at *
    rcases Nat.lt_or_gt_of_ne isNew with old | outside
    · rw [List.getElem?_append_left (by simpa using old), List.getElem?_modify]
      congr 2
      funext scope
      simp only [eq_comm]
    · rw [List.getElem?_eq_none (by simp; omega), List.getElem?_eq_none (by omega)]
      rfl

/-- A name is bound in a scope exactly once, or not at all. -/
theorem lookup_eq_some_iff
    {bindings : List (String × Nat)}
    (distinct : (bindings.map fun binding => binding.1).Nodup) :
    bindings.lookup name = some reference ↔ (name, reference) ∈ bindings := by
  constructor
  · intro found
    obtain ⟨front, back, rfl, _⟩ := List.lookup_eq_some_iff.mp found
    simp
  · intro member
    obtain ⟨front, back, rfl⟩ := List.append_of_mem member
    refine List.lookup_eq_some_iff.mpr ⟨front, back, rfl, ?_⟩
    intro earlier inFront
    rw [List.map_append, List.map_cons, List.nodup_append] at distinct
    have differs := distinct.2.2 _ (List.mem_map_of_mem inFront) _ (List.mem_cons_self ..)
    simpa using fun same => differs same.symm

theorem lookup_eq_none_iff
    {bindings : List (String × Nat)} :
    bindings.lookup name = none ↔ name ∉ bindings.map fun binding => binding.1 := by
  simp only [List.lookup_eq_none_iff, bne_iff_ne, List.mem_map, not_exists, not_and]
  exact forall₂_congr fun _ _ => ne_comm

theorem eraseDups_of_nodup
    {names : List String}
    (distinct : names.Nodup) :
    names.eraseDups = names := by
  induction names with
  | nil => rfl
  | cons first rest inductionHypothesis =>
      obtain ⟨fresh, distinct⟩ := List.nodup_cons.mp distinct
      rw [List.eraseDups_cons, List.filter_eq_self.mpr, inductionHypothesis distinct]
      intro other member
      have differs : other ≠ first := by
        rintro rfl
        exact fresh member
      simpa using differs

theorem eraseDups_nodup : ∀ names : List String, names.eraseDups.Nodup
  | [] => List.nodup_nil
  | first :: rest => by
      rw [List.eraseDups_cons]
      refine List.nodup_cons.mpr ⟨?_, eraseDups_nodup _⟩
      simp [List.mem_eraseDups]
termination_by names => names.length
decreasing_by exact Nat.lt_succ_of_le (List.length_filter_le ..)

/-- A scope that does not see a name does not bind it. -/
theorem unbound_of_unseen
    (found : tree.get? id = some scope)
    (unseen : tree.lookup? id name = none) :
    scope.bindings.lookup name = none := by
  obtain ⟨count, size⟩ : ∃ count, tree.size = count + 1 :=
    ⟨tree.size - 1, by have := inside_of_get? found; omega⟩
  rw [lookup?_eq, size, seenWithin_succ found, Option.or_eq_none_iff, Option.or_eq_none_iff] at unseen
  exact unseen.1.1

namespace Formed

theorem rooted
    (formed : tree.Formed) :
    tree.Rooted := by
  intro id scope parent found isParent
  rcases Nat.eq_zero_or_pos id with rfl | inner
  · obtain ⟨outer, isOuter, noParent, _⟩ := formed.outermost
    cases isOuter.symm.trans found
    simp [noParent] at isParent
  · obtain ⟨above, isAbove, below⟩ := formed.parents id scope found inner
    cases isAbove.symm.trans isParent
    exact below

theorem isModule_iff
    (formed : tree.Formed)
    (inside : id < tree.size) :
    tree.isModule id ↔ id = 0 := by
  obtain ⟨scope, found⟩ := get?_of_inside inside
  rw [isModule, found]
  rcases Nat.eq_zero_or_pos id with rfl | inner
  · obtain ⟨outer, isOuter, noParent, _⟩ := formed.outermost
    cases isOuter.symm.trans found
    simp [noParent]
  · obtain ⟨parent, isParent, _⟩ := formed.parents id scope found inner
    simp [isParent, Nat.ne_of_gt inner]

/-- What the outermost scope sees is in the table of module names. -/
theorem lookup?_outermost
    (formed : tree.Formed)
    (name : String) :
    tree.lookup? 0 name = tree.moduleNames.lookup name := by
  obtain ⟨outer, isOuter, noParent, same⟩ := formed.outermost
  obtain ⟨count, size⟩ : ∃ count, tree.size = count + 1 :=
    ⟨tree.size - 1, by have := inside_of_get? isOuter; omega⟩
  rw [lookup?_eq, size, seenWithin_succ isOuter, noParent, same]
  cases tree.moduleNames.lookup name <;> rfl

/-- A declaration binds a name that the scope does not see; the outermost scope keeps what it has. -/
theorem declare_eq
    (formed : tree.Formed)
    (inside : id < tree.size)
    (name : String)
    (reference : Nat) :
    tree.declare id name reference =
      match tree.lookup? id name with
      | none => .ok (tree.entered id name reference, reference, true)
      | some known => if id = 0 then .ok (tree, known, false) else .error (.duplicate name) := by
  unfold declare entered
  by_cases isOutermost : id = 0
  · subst isOutermost
    rw [if_pos ((formed.isModule_iff inside).mpr rfl), formed.lookup?_outermost]
    cases tree.moduleNames.lookup name <;> rfl
  · rw [if_neg (mt (formed.isModule_iff inside).mp isOutermost), if_neg isOutermost]
    cases tree.lookup? id name with
    | none => rfl
    | some known => simp [isOutermost]

/-- A request in a scope opens one, binds a name that is not seen there, or leaves the tree. -/
theorem after_cases
    (formed : tree.Formed)
    (inside : request.scope < tree.size) :
    (∃ kind, tree.after request = (tree.addChild request.scope kind).1) ∨
      (∃ name reference, tree.lookup? request.scope name = none ∧
        tree.after request = tree.entered request.scope name reference) ∨
      tree.after request = tree := by
  cases request with
  | child parent kind => exact .inl ⟨kind, rfl⟩
  | declare scope name reference =>
      refine .inr ?_
      have declared := @declare_eq tree scope formed inside name reference
      unfold after Request.scope
      cases unseen : tree.lookup? scope name with
      | none => exact .inl ⟨name, reference, unseen, by simp [declared, unseen]⟩
      | some known =>
          refine .inr ?_
          simp only [declared, unseen]
          by_cases isOutermost : scope = 0 <;> simp [isOutermost]

/-- A scope that is opened hangs under its parent; all others hang where they did. -/
theorem hangs_addChild
    (tree : ScopeTree)
    (parent : Nat)
    (kind : Scope.Kind)
    (child id : Nat) :
    (tree.addChild parent kind).1.Hangs child id ↔
      (child = tree.size ∧ parent = id) ∨ tree.Hangs child id := by
  unfold Hangs
  rw [get?_addChild_eq]
  by_cases isNew : child = tree.size
  · have missing : tree.get? tree.size = none := List.getElem?_eq_none (Nat.le_refl _)
    simp [isNew, missing, Scope.fresh]
  · cases found : tree.get? child with
    | none => simp [isNew]
    | some inner =>
        have keeps : (if child = parent then
            { inner with children := inner.children ++ [tree.size] } else inner).parent =
              inner.parent := by
          split <;> rfl
        simp [isNew, keeps]

/-- Opening a scope keeps the invariant. -/
theorem addChild
    (formed : tree.Formed)
    {parent : Nat}
    (inside : parent < tree.size)
    (kind : Scope.Kind) :
    (tree.addChild parent kind).1.Formed := by
  have later := get?_addChild_eq tree parent kind
  refine ⟨?_, ?_, ?_, ?_⟩
  · obtain ⟨outer, isOuter, noParent, same⟩ := formed.outermost
    have isOld : 0 ≠ tree.size := Nat.ne_of_lt (inside_of_get? isOuter)
    rw [later, if_neg isOld, isOuter]
    exact ⟨_, rfl, by split <;> exact noParent, by split <;> exact same⟩
  · intro id scope found inner
    rw [later] at found
    split at found
    · cases found
      exact ⟨parent, rfl, by omega⟩
    · obtain ⟨old, isOld, rfl⟩ := Option.map_eq_some_iff.mp found
      obtain ⟨above, isAbove, below⟩ := formed.parents id old isOld inner
      exact ⟨above, by split <;> exact isAbove, below⟩
  · intro id scope found child
    rw [hangs_addChild]
    rw [later] at found
    split at found
    case isTrue isNew =>
      -- Nothing hangs under the new scope yet, for every parent has a number below its child's.
      cases found
      have noChild : ¬tree.Hangs child id := by
        rintro ⟨inner, isInner, isParent⟩
        have below := formed.rooted child inner id isInner isParent
        have childInside := inside_of_get? isInner
        omega
      simp [Scope.fresh, noChild]
      omega
    case isFalse =>
      obtain ⟨old, isOld, rfl⟩ := Option.map_eq_some_iff.mp found
      rw [← formed.children id old isOld child]
      by_cases isParent : id = parent
      · simp [isParent, or_comm]
      · simp [isParent, Ne.symm isParent]
  · intro id scope found
    rw [later] at found
    split at found
    · cases found
      exact List.nodup_nil
    · obtain ⟨old, isOld, rfl⟩ := Option.map_eq_some_iff.mp found
      have same := formed.distinct id old isOld
      split <;> exact same

/-- A new binding keeps the invariant. -/
theorem entered
    (formed : tree.Formed)
    (inside : id < tree.size)
    (unseen : tree.lookup? id name = none)
    (reference : Nat) :
    (tree.entered id name reference).Formed := by
  have later : ∀ other, (tree.entered id name reference).get? other = _ :=
    fun other => get?_bind tree id other name reference
  have hangs : ∀ child parent, (tree.entered id name reference).Hangs child parent ↔
      tree.Hangs child parent := by
    intro child parent
    unfold Hangs
    rw [later]
    cases tree.get? child with
    | none => simp
    | some inner => by_cases same : child = id <;> simp [same]
  refine ⟨?_, ?_, ?_, ?_⟩
  · obtain ⟨outer, isOuter, noParent, same⟩ := formed.outermost
    rw [later, isOuter]
    by_cases isOutermost : id = 0
    · subst isOutermost
      exact ⟨_, rfl, noParent, by simp [ScopeTree.entered, same]⟩
    · refine ⟨_, rfl, ?_, ?_⟩
      · split <;> exact noParent
      · simp [ScopeTree.entered, isOutermost, Ne.symm isOutermost, same]
  · intro other scope found inner
    rw [later] at found
    obtain ⟨old, isOld, rfl⟩ := Option.map_eq_some_iff.mp found
    obtain ⟨above, isAbove, below⟩ := formed.parents other old isOld inner
    exact ⟨above, by split <;> exact isAbove, below⟩
  · intro other scope found child
    rw [later] at found
    obtain ⟨old, isOld, rfl⟩ := Option.map_eq_some_iff.mp found
    rw [hangs, ← formed.children other old isOld child]
    split <;> rfl
  · intro other scope found
    rw [later] at found
    obtain ⟨old, isOld, rfl⟩ := Option.map_eq_some_iff.mp found
    have distinct := formed.distinct other old isOld
    split
    case isTrue same =>
      have fresh := lookup_eq_none_iff.mp (unbound_of_unseen (same ▸ isOld) unseen)
      have names : ({ old with bindings := old.bindings ++ [(name, reference)] } : Scope).names =
          old.names ++ [name] := by
        simp [Scope.names]
      rw [names]
      refine List.nodup_append.mpr ⟨distinct, List.nodup_singleton _, ?_⟩
      rintro known member other inLast rfl
      exact fresh (List.mem_singleton.mp inLast ▸ member)
    case isFalse => exact distinct

theorem get?_empty
    (found : ScopeTree.empty.get? id = some scope) :
    id = 0 ∧ scope = .fresh .plain none := by
  have inside : id < 1 := inside_of_get? found
  obtain rfl : id = 0 := by omega
  exact ⟨rfl, (Option.some.inj found).symm⟩

theorem empty :
    ScopeTree.empty.Formed := by
  refine ⟨⟨_, rfl, rfl, rfl⟩, ?_, ?_, ?_⟩
  · intro id scope found inner
    exact absurd (get?_empty found).1 (Nat.ne_of_gt inner)
  · intro id scope found child
    obtain ⟨rfl, rfl⟩ := get?_empty found
    refine ⟨nofun, ?_⟩
    rintro ⟨inner, isInner, isParent⟩
    rw [(get?_empty isInner).2] at isParent
    cases isParent
  · intro id scope found
    rw [(get?_empty found).2]
    exact List.nodup_nil

/-- Every request keeps the invariant. -/
theorem step
    (formed : tree.Formed)
    {request : Request}
    (inside : request.scope < tree.size) :
    (tree.after request).Formed := by
  rcases formed.after_cases inside with ⟨kind, opened⟩ | ⟨name, reference, unseen, bound⟩ | same
  · exact opened ▸ formed.addChild inside kind
  · exact bound ▸ formed.entered inside unseen reference
  · exact same.symm ▸ formed

/-- The invariant holds of every tree that requests lead to. -/
theorem run
    (formed : tree.Formed)
    (reached : tree.Reaches later) :
    later.Formed := by
  induction reached with
  | here => exact formed
  | step _ inside inductionHypothesis => exact inductionHypothesis.step inside

end Formed

end Requests

section Chains

variable
    {tree : ScopeTree}
    {id : Nat}
    {scope : Scope}
    {name : String}
    {reference : Nat}

/-- A chain does not depend on how many scopes it may have, as long as these are enough. -/
theorem chainWithin_enough
    (rooted : tree.Rooted)
    {count more : Nat}
    (enough : id < count)
    (enoughMore : id < more) :
    tree.chainWithin count id = tree.chainWithin more id := by
  induction id using Nat.strongRecOn generalizing count more with
  | ind id inductionHypothesis =>
      obtain ⟨fewer, rfl⟩ : ∃ fewer, count = fewer + 1 := ⟨count - 1, by omega⟩
      obtain ⟨less, rfl⟩ : ∃ less, more = less + 1 := ⟨more - 1, by omega⟩
      unfold chainWithin
      cases found : tree.get? id with
      | none => rfl
      | some scope =>
          cases isParent : scope.parent with
          | none => simp [isParent]
          | some parent =>
              have below := rooted id scope parent found isParent
              have around := @inductionHypothesis parent below fewer less (by omega) (by omega)
              simp [isParent, around]

/-- The chain of a scope is the scope and then the chain of its parent. -/
theorem chain_eq
    (rooted : tree.Rooted)
    (found : tree.get? id = some scope) :
    tree.chain id = (id, scope) :: scope.parent.elim [] tree.chain := by
  obtain ⟨count, size⟩ : ∃ count, tree.size = count + 1 :=
    ⟨tree.size - 1, by have := inside_of_get? found; omega⟩
  rw [chain, size, chainWithin, found]
  cases isParent : scope.parent with
  | none => simp [isParent]
  | some parent =>
      have below := rooted id scope parent found isParent
      have inside := inside_of_get? found
      have around := @chainWithin_enough tree parent rooted count tree.size (by omega) (by omega)
      simp only [isParent, Option.elim, chain, around]

namespace Formed

/-- Every chain ends at the outermost scope. -/
theorem chain_ends
    (formed : tree.Formed)
    (inside : id < tree.size) :
    ∃ front outer, tree.chain id = front ++ [(0, outer)] ∧ tree.get? 0 = some outer := by
  induction id using Nat.strongRecOn with
  | ind id inductionHypothesis =>
      obtain ⟨scope, found⟩ := get?_of_inside inside
      rw [chain_eq formed.rooted found]
      rcases Nat.eq_zero_or_pos id with rfl | inner
      · obtain ⟨outer, isOuter, noParent, _⟩ := formed.outermost
        cases isOuter.symm.trans found
        exact ⟨[], scope, by simp [noParent], found⟩
      · obtain ⟨parent, isParent, below⟩ := formed.parents id scope found inner
        obtain ⟨front, outer, ends, isOuter⟩ := inductionHypothesis parent below (by omega)
        exact ⟨(id, scope) :: front, outer, by simp [isParent, ends], isOuter⟩

/-- The scopes of a chain are scopes of the tree. -/
theorem get?_of_mem_chain
    (formed : tree.Formed)
    (inside : id < tree.size)
    {entry : Nat × Scope}
    (member : entry ∈ tree.chain id) :
    tree.get? entry.1 = some entry.2 := by
  induction id using Nat.strongRecOn with
  | ind id inductionHypothesis =>
      obtain ⟨scope, found⟩ := get?_of_inside inside
      rw [chain_eq formed.rooted found] at member
      rcases List.mem_cons.mp member with rfl | around
      · exact found
      · cases isParent : scope.parent with
        | none => simp [isParent] at around
        | some parent =>
            have below := formed.rooted id scope parent found isParent
            exact inductionHypothesis parent below (by omega) (by simpa [isParent] using around)

/-- The table of module names adds nothing to what the chain of a scope binds. -/
theorem lookup?_eq_chain
    (formed : tree.Formed)
    (inside : id < tree.size)
    (name : String) :
    tree.lookup? id name =
      (tree.chain id).findSome? fun entry => entry.2.bindings.lookup name := by
  unfold lookup?
  split
  next reference bound => exact bound.symm
  next unbound =>
    obtain ⟨front, outer, ends, isOuter⟩ := formed.chain_ends inside
    obtain ⟨known, isKnown, _, same⟩ := formed.outermost
    cases isOuter.symm.trans isKnown
    rw [List.findSome?_eq_none_iff] at unbound
    rw [List.findSome?_eq_none_iff.mpr unbound, ← same]
    exact unbound (0, outer) (by simp [ends])

/-- A scope sees the binding of a name in the nearest scope of its chain that has one. -/
theorem lookup?_eq_some_iff
    (formed : tree.Formed)
    (inside : id < tree.size) :
    tree.lookup? id name = some reference ↔
      ∃ front entry back, tree.chain id = front ++ entry :: back ∧
        (∀ inner ∈ front, name ∉ inner.2.names) ∧ (name, reference) ∈ entry.2.bindings := by
  rw [formed.lookup?_eq_chain inside, List.findSome?_eq_some_iff]
  refine exists_congr fun front => exists_congr fun entry => exists_congr fun back =>
    and_congr_right fun split => ?_
  have found := @get?_of_mem_chain _ _ formed inside entry (by simp [split])
  rw [lookup_eq_some_iff (formed.distinct _ _ found), and_comm]
  exact and_congr_left fun _ => forall₂_congr fun _ _ => lookup_eq_none_iff

/-- What a scope binds itself is what it sees. -/
theorem lookup?_of_local?
    (formed : tree.Formed)
    (bound : tree.local? id name = some reference) :
    tree.lookup? id name = some reference := by
  obtain ⟨scope, found, isBound⟩ := Option.bind_eq_some_iff.mp bound
  rw [formed.lookup?_eq_chain (inside_of_get? found), chain_eq formed.rooted found,
    List.findSome?_cons, isBound]

/-- The outermost scope sees what it binds itself. -/
theorem local?_outermost
    (formed : tree.Formed)
    (name : String) :
    tree.local? 0 name = tree.lookup? 0 name := by
  obtain ⟨outer, isOuter, _, same⟩ := formed.outermost
  rw [local?, isOuter, formed.lookup?_outermost, ← same, Option.bind_some]

/-- What is entered in a scope is bound there. -/
theorem local?_entered
    (found : tree.get? id = some scope)
    (unseen : tree.lookup? id name = none)
    (reference : Nat) :
    (tree.entered id name reference).local? id name = some reference := by
  have later : (tree.entered id name reference).get? id = _ := get?_bind tree id id name reference
  have unbound := unbound_of_unseen found unseen
  rw [local?, later, found]
  simp [List.lookup_append, unbound]

/-- A scope sees a name exactly if the name is among those that are visible in it. -/
theorem lookup?_eq_none_iff
    (formed : tree.Formed)
    (inside : id < tree.size) :
    tree.lookup? id name = none ↔ name ∉ tree.visible id := by
  rw [formed.lookup?_eq_chain inside, List.findSome?_eq_none_iff, visible, List.mem_eraseDups,
    List.mem_flatMap]
  simp only [not_exists, not_and]
  exact forall₂_congr fun _ _ => lookup_eq_none_iff

/-- No name is visible twice. -/
theorem visible_nodup
    (tree : ScopeTree)
    (id : Nat) :
    (tree.visible id).Nodup :=
  eraseDups_nodup _

/-- The names of a scope itself come first among those that are visible in it. -/
theorem own_names_first
    (formed : tree.Formed)
    (found : tree.get? id = some scope) :
    ∃ others, tree.visible id = scope.names ++ others := by
  rw [visible, chain_eq formed.rooted found, List.flatMap_cons, List.eraseDups_append,
    eraseDups_of_nodup (formed.distinct id scope found)]
  exact ⟨_, rfl⟩

end Formed

end Chains

section Growth

variable
    {tree : ScopeTree}
    {id : Nat}
    {scope : Scope}
    {name : String}
    {reference : Nat}

namespace Formed

/-- A request changes no scope but the one in which it is made. -/
theorem get?_after
    (formed : tree.Formed)
    (inside : request.scope < tree.size)
    (elsewhere : id ≠ request.scope)
    (found : tree.get? id = some scope) :
    (tree.after request).get? id = some scope := by
  rcases formed.after_cases inside with ⟨kind, opened⟩ | ⟨name, reference, unseen, bound⟩ | same
  · have isOld : id ≠ tree.size := Nat.ne_of_lt (inside_of_get? found)
    rw [opened, get?_addChild_eq, if_neg isOld, found, Option.map_some, if_neg elsewhere]
  · have later := get?_bind tree request.scope id name reference
    rw [found, Option.map_some, if_neg elsewhere] at later
    rw [bound]
    exact later
  · rw [same, found]

/-- A request keeps what the scope is in which it is made, and all of its bindings and children. -/
theorem kept_after
    (formed : tree.Formed)
    (inside : request.scope < tree.size)
    (found : tree.get? request.scope = some scope) :
    ∃ later, (tree.after request).get? request.scope = some later ∧ later.kind = scope.kind ∧
      later.parent = scope.parent ∧ scope.bindings <+: later.bindings ∧
      scope.children <+: later.children := by
  rcases formed.after_cases inside with ⟨kind, opened⟩ | ⟨name, reference, unseen, bound⟩ | same
  · have isOld : request.scope ≠ tree.size := Nat.ne_of_lt inside
    rw [opened, get?_addChild_eq, if_neg isOld, found, Option.map_some, if_pos rfl]
    exact ⟨_, rfl, rfl, rfl, List.prefix_refl _, List.prefix_append _ _⟩
  · have later := get?_bind tree request.scope request.scope name reference
    rw [found, Option.map_some, if_pos rfl] at later
    rw [bound]
    exact ⟨_, later, rfl, rfl, List.prefix_append _ _, List.prefix_refl _⟩
  · rw [same, found]
    exact ⟨scope, rfl, rfl, rfl, List.prefix_refl _, List.prefix_refl _⟩

/-- No request changes a binding. -/
theorem local?_after
    (formed : tree.Formed)
    (inside : request.scope < tree.size)
    (bound : tree.local? id name = some reference) :
    (tree.after request).local? id name = some reference := by
  unfold local? at *
  obtain ⟨scope, found, isBound⟩ := Option.bind_eq_some_iff.mp bound
  by_cases same : id = request.scope
  · subst same
    obtain ⟨later, isLater, _, _, ⟨added, grown⟩, _⟩ := formed.kept_after inside found
    rw [isLater, Option.bind_some, ← grown, List.lookup_append, isBound, Option.some_or]
  · rw [formed.get?_after inside same found, Option.bind_some, isBound]

/-- No sequence of requests changes a binding. -/
theorem local?_of_reaches
    (formed : tree.Formed)
    (reached : tree.Reaches later)
    (bound : tree.local? id name = some reference) :
    later.local? id name = some reference := by
  induction reached with
  | here => exact bound
  | step earlier inside inductionHypothesis =>
      exact (formed.run earlier).local?_after inside inductionHypothesis

end Formed

end Growth

/-- What holds of a tree of scopes and of every request that is made in it. -/
structure Lawful (tree : ScopeTree) : Prop where
  /-- A new scope has the next number, and nothing is bound in it. -/
  opens : ∀ parent kind, (tree.addChild parent kind).2 = tree.size ∧
    (tree.addChild parent kind).1.size = tree.size + 1 ∧
    (tree.addChild parent kind).1.get? tree.size = some (.fresh kind (some parent))
  /-- Every scope but the outermost one is a child of the scope that it hangs under. -/
  registered : ∀ id scope, tree.get? id = some scope → id ≠ 0 →
    ∃ parent outer, scope.parent = some parent ∧ parent < id ∧
      tree.get? parent = some outer ∧ id ∈ outer.children
  /-- A chain goes from a scope to its parent. -/
  climbs : ∀ id scope, tree.get? id = some scope →
    tree.chain id = (id, scope) :: scope.parent.elim [] tree.chain
  /-- Every chain ends at the outermost scope, whose bindings are the module names. -/
  ends : ∀ id, id < tree.size → ∃ front outer,
    tree.chain id = front ++ [(0, outer)] ∧ outer.parent = none ∧
      outer.bindings = tree.moduleNames
  /-- A name resolves where it is visible. -/
  resolves : ∀ id name, id < tree.size →
    ((∃ reference, tree.resolve id name = .ok reference) ↔ name ∈ tree.visible id)
  /-- It resolves to its binding in the nearest scope of the chain that has one. -/
  nearest : ∀ id name reference, id < tree.size →
    (tree.resolve id name = .ok reference ↔
      ∃ front entry back, tree.chain id = front ++ entry :: back ∧
        (∀ inner ∈ front, name ∉ inner.2.names) ∧ (name, reference) ∈ entry.2.bindings)
  /-- The visible names of a scope are its own, then others, each once. -/
  visible : ∀ id scope, tree.get? id = some scope →
    (tree.visible id).Nodup ∧ ∃ others, tree.visible id = scope.names ++ others
  /-- In an inner scope a name that resolves cannot be declared. -/
  refuses : ∀ id name reference, id < tree.size → id ≠ 0 →
    ((∃ fault, tree.declare id name reference = .error fault) ↔
      ∃ known, tree.resolve id name = .ok known) ∧
    ((∃ known, tree.resolve id name = .ok known) →
      tree.declare id name reference = .error (.duplicate name) ∧
        tree.after (.declare id name reference) = tree)
  /-- In the outermost scope every name can be declared, and the first declaration stays. -/
  keepsFirst : ∀ name reference, ∃ later kept isNew,
    tree.declare 0 name reference = .ok (later, kept, isNew) ∧
      later.local? 0 name = some kept ∧
      (∀ first, tree.local? 0 name = some first → later = tree ∧ kept = first ∧ isNew = false) ∧
      (tree.local? 0 name = none → kept = reference ∧ isNew = true)
  /-- A declaration that is accepted binds the name to the reference. -/
  binds : ∀ id name reference later kept,
    id < tree.size → tree.declare id name reference = .ok (later, kept, true) →
      kept = reference ∧ later.local? id name = some reference ∧
        later.resolve id name = .ok reference
  /-- A request changes no other scope, and it keeps what the scope in which it is made has. -/
  keeps : ∀ request : Request, request.scope < tree.size → ∀ id scope,
    tree.get? id = some scope →
      (id ≠ request.scope → (tree.after request).get? id = some scope) ∧
      ∃ later, (tree.after request).get? id = some later ∧ later.kind = scope.kind ∧
        later.parent = scope.parent ∧ scope.bindings <+: later.bindings ∧
        scope.children <+: later.children

theorem resolve_eq_ok_iff
    {id reference : Nat}
    {name : String} :
    tree.resolve id name = .ok reference ↔ tree.lookup? id name = some reference := by
  unfold resolve
  cases tree.lookup? id name <;> simp

/-- A tree with the invariant is lawful. -/
theorem Formed.lawful
    (formed : tree.Formed) :
    tree.Lawful where
  opens parent kind :=
    ⟨rfl, size_addChild tree parent kind, get?_addChild_new tree parent kind⟩
  registered id scope found inner := by
    obtain ⟨parent, isParent, below⟩ := formed.parents id scope found (Nat.pos_of_ne_zero inner)
    have inside := inside_of_get? found
    obtain ⟨outer, isOuter⟩ := @get?_of_inside tree parent (by omega)
    exact ⟨parent, outer, isParent, below, isOuter,
      (formed.children parent outer isOuter id).mpr ⟨scope, found, isParent⟩⟩
  climbs id scope found := chain_eq formed.rooted found
  ends id inside := by
    obtain ⟨front, outer, ends, isOuter⟩ := formed.chain_ends inside
    obtain ⟨known, isKnown, noParent, same⟩ := formed.outermost
    cases isOuter.symm.trans isKnown
    exact ⟨front, outer, ends, noParent, same⟩
  resolves id name inside := by
    simp only [resolve_eq_ok_iff, ← Option.isSome_iff_exists, ← Option.ne_none_iff_isSome, ne_eq,
      formed.lookup?_eq_none_iff inside, not_not]
  nearest id name reference inside := by
    rw [resolve_eq_ok_iff, formed.lookup?_eq_some_iff inside]
  visible id scope found :=
    ⟨visible_nodup tree id, formed.own_names_first found⟩
  refuses id name reference inside inner := by
    simp only [resolve_eq_ok_iff, after, formed.declare_eq inside]
    cases tree.lookup? id name <;> simp [inner]
  keepsFirst name reference := by
    obtain ⟨outer, isOuter, _⟩ := formed.outermost
    rw [formed.declare_eq (inside_of_get? isOuter)]
    simp only [formed.local?_outermost name]
    cases seen : tree.lookup? 0 name with
    | none => exact ⟨_, _, _, rfl, local?_entered isOuter seen reference, nofun, by simp⟩
    | some known =>
        refine ⟨tree, known, false, rfl, (formed.local?_outermost name).trans seen, ?_, nofun⟩
        exact fun first isFirst => ⟨rfl, Option.some.inj isFirst, rfl⟩
  binds id name reference later kept inside declared := by
    obtain ⟨scope, found⟩ := get?_of_inside inside
    rw [formed.declare_eq inside] at declared
    cases seen : tree.lookup? id name with
    | none =>
        simp only [seen, Except.ok.injEq, Prod.mk.injEq] at declared
        obtain ⟨rfl, rfl, _⟩ := declared
        have bound := local?_entered found seen reference
        have laterFormed := formed.entered inside seen reference
        exact ⟨rfl, bound, resolve_eq_ok_iff.mpr (laterFormed.lookup?_of_local? bound)⟩
    | some known =>
        simp only [seen] at declared
        split at declared <;> cases declared
  keeps request inside id scope found := by
    refine ⟨fun elsewhere => formed.get?_after inside elsewhere found, ?_⟩
    by_cases same : id = request.scope
    · subst same
      exact formed.kept_after inside found
    · exact ⟨scope, formed.get?_after inside same found, rfl, rfl, List.prefix_refl _,
        List.prefix_refl _⟩

/--
Every tree that requests lead to is lawful, and no later request changes a binding that it has.
-/
theorem scope_tree_lawful
    {tree : ScopeTree}
    (reached : ScopeTree.empty.Reaches tree) :
    tree.Lawful ∧
      ∀ later, tree.Reaches later → ∀ id name reference,
        tree.local? id name = some reference → later.local? id name = some reference := by
  have formed := Formed.empty.run reached
  exact ⟨formed.lawful, fun _ longer _ _ _ bound => formed.local?_of_reaches longer bound⟩

/-- Two nested scopes; the outer one gains a name that the inner one has bound before. -/
def shadowed : ScopeTree :=
  ((((empty.after (.child 0 .function)).after (.child 1 .plain)).after
    (.declare 2 "y" 3)).after (.declare 1 "y" 4)).after (.declare 1 "x" 5)

theorem shadowed_lawful :
    shadowed.visible 2 = ["y", "x"] ∧ shadowed.resolve 2 "y" = .ok 3 ∧
      shadowed.resolve 1 "y" = .ok 4 ∧
      shadowed.declare 2 "x" 6 = .error (.duplicate "x") := by
  have reached : empty.Reaches shadowed :=
    ((((Reaches.here.step (by decide)).step (by decide)).step (by decide)).step (by decide)).step
      (by decide)
  obtain ⟨lawful, _⟩ := scope_tree_lawful reached
  refine ⟨by decide, ?_, ?_, ?_⟩
  · exact (lawful.nearest 2 "y" 3 (by decide)).mpr
      ⟨[], _, _, rfl, nofun, by decide⟩
  · exact (lawful.nearest 1 "y" 4 (by decide)).mpr
      ⟨[], _, _, rfl, nofun, by decide⟩
  · exact ((lawful.refuses 2 "x" 6 (by decide) (by decide)).2
      ⟨5, (lawful.nearest 2 "x" 5 (by decide)).mpr ⟨[_], _, _, rfl, by decide, by decide⟩⟩).1

end IlsCompiler.ScopeTree
