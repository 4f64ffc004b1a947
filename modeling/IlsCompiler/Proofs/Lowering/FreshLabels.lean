import IlsCompiler.Proofs.Lowering.LabelNames
import IlsCompiler.Proofs.Lowering.Refusals
import IlsCompiler.Proofs.Scope.Lookup

namespace IlsCompiler

/-!
# Labels are set once

The numbers in labels come from two counters. A statement sets labels with numbers that it takes
itself, so a label with a number that was taken before is set by nothing inside the statement.
That is why every label is new where it is set, and lowering is never refused because of one.
-/

/-- A name is given out when the counter that its number comes from is past that number. -/
def LabelName.Below (choices scopes : Nat) : LabelName → Prop
  | .scope _ number _ => number < scopes
  | .entry _ => True
  | .choice number _ => number < choices
  | .loop number _ => number < choices

variable
    {name : LabelName}

theorem LabelName.Below.mono
    {choices moreChoices scopes moreScopes : Nat}
    (below : name.Below choices scopes)
    (enough : choices ≤ moreChoices)
    (enoughScopes : scopes ≤ moreScopes) :
    name.Below moreChoices moreScopes := by
  cases name with
  | scope kind number isEnd => exact Nat.lt_of_lt_of_le below enoughScopes
  | entry isEnd => trivial
  | choice number place => exact Nat.lt_of_lt_of_le below enough
  | loop number place => exact Nat.lt_of_lt_of_le below enough

namespace Listing

/-- A listing has given out a name. -/
def Gave (listing : Listing) (name : LabelName) : Prop :=
  name.Below listing.labelCount listing.scopes.size

/-- Every label that is set has a name that was given out. -/
def Labelled (listing : Listing) : Prop :=
  ∀ label ∈ listing.labels, ∃ name : LabelName, label = name.text ∧ listing.Gave name

/-- The labels that are set are those of the nodes, and each of them is set once. -/
def Marked (listing : Listing) : Prop :=
  labelsOf listing.nodes.toList = listing.labels ∧ listing.labels.Nodup

/-- A name that was not given out is not the name of a label that is set. -/
theorem Labelled.fresh
    {listing : Listing}
    (labelled : listing.Labelled)
    (new : ¬listing.Gave name) :
    name.text ∉ listing.labels := by
  intro isSet
  obtain ⟨other, same, given⟩ := labelled _ isSet
  cases LabelName.text_injective same
  exact new given

end Listing

namespace LoweringState

/--
Lowering sets labels: the counters only go up, labels keep having names that were given out, each
of them is set once, and of the names given out before none is set but the given ones.
-/
structure Sets (own : LabelName → Prop) (before after : LoweringState) : Prop where
  choices : before.listing.labelCount ≤ after.listing.labelCount
  scopes : before.listing.scopes.size ≤ after.listing.scopes.size
  labelled : before.listing.Labelled → after.listing.Labelled
  marked : before.listing.Marked → after.listing.Marked
  kept : ∀ name, before.listing.Gave name → ¬own name →
    name.text ∈ after.listing.labels → name.text ∈ before.listing.labels

namespace Sets

variable
    {own more : LabelName → Prop}
    {before between after : LoweringState}

theorem gave
    (sets : Sets own before after)
    (given : before.listing.Gave name) :
    after.listing.Gave name :=
  given.mono sets.choices sets.scopes

theorem trans
    (earlier : Sets own before between)
    (later : Sets own between after) :
    Sets own before after where
  choices := Nat.le_trans earlier.choices later.choices
  scopes := Nat.le_trans earlier.scopes later.scopes
  labelled := later.labelled ∘ earlier.labelled
  marked := later.marked ∘ earlier.marked
  kept := fun name given foreign isSet =>
    earlier.kept name given foreign (later.kept name (earlier.gave given) foreign isSet)

theorem mono
    (sets : Sets own before after)
    (within : ∀ name, own name → more name) :
    Sets more before after :=
  { sets with kept := fun name given foreign => sets.kept name given (foreign ∘ within name) }

/-- Names that were not given out before need not be mentioned. -/
theorem shrink
    (sets : Sets own before after)
    (new : ∀ name, own name → more name ∨ ¬before.listing.Gave name) :
    Sets more before after :=
  { sets with
    kept := fun name given foreign isSet =>
      sets.kept name given (fun isOwn => (new name isOwn).elim foreign (· given)) isSet }

/-- A label that is not set stays so where it is not among those that are set. -/
theorem stays_new
    (sets : Sets own before after)
    (given : before.listing.Gave name)
    (foreign : ¬own name)
    (new : name.text ∉ before.listing.labels) :
    name.text ∉ after.listing.labels :=
  fun isSet => new (sets.kept name given foreign isSet)

/-- A step that moves no counter forward and sets no label. -/
theorem of_same
    (labels : after.listing.labels = before.listing.labels)
    (choices : after.listing.labelCount = before.listing.labelCount)
    (scopes : after.listing.scopes.size = before.listing.scopes.size)
    (nodes : Listing.labelsOf after.listing.nodes.toList =
      Listing.labelsOf before.listing.nodes.toList) :
    Sets own before after where
  choices := Nat.le_of_eq choices.symm
  scopes := Nat.le_of_eq scopes.symm
  labelled := by
    intro labelled label isSet
    obtain ⟨name, same, given⟩ := labelled label (labels ▸ isSet)
    exact ⟨name, same, given.mono (Nat.le_of_eq choices.symm) (Nat.le_of_eq scopes.symm)⟩
  marked := by
    rintro ⟨same, distinct⟩
    exact ⟨nodes.trans (same.trans labels.symm), labels ▸ distinct⟩
  kept := fun name _ _ isSet => labels ▸ isSet

theorem refl
    (state : LoweringState) :
    Sets own state state :=
  of_same rfl rfl rfl rfl

theorem of_unlabelled
    {targets : List String}
    (unlabelled : Unlabelled targets before after) :
    Sets own before after := by
  refine of_same unlabelled.labels unlabelled.labelCount unlabelled.scopeCount ?_
  obtain ⟨added, nodes, isUnlabelled⟩ := unlabelled.unlabelled
  have noLabel : Listing.labelsOf added = [] := by
    refine List.filterMap_eq_nil_iff.mpr fun node member => ?_
    have kind := isUnlabelled node member
    cases node <;> first | rfl | cases kind
  rw [nodes, Listing.labelsOf, List.filterMap_append]
  simpa [Listing.labelsOf] using noLabel

theorem of_computes
    (computes : before.Computes after) :
    Sets own before after :=
  .of_unlabelled (Unlabelled.of_computes computes : Unlabelled [] before after)

end Sets

variable
    {own : LabelName → Prop}
    (state : LoweringState)

theorem labelsOf_appended
    (node : Node) :
    Listing.labelsOf (state.appended node).listing.nodes.toList =
      Listing.labelsOf state.listing.nodes.toList ++ Listing.labelsOf [node] := by
  simp [Listing.labelsOf]

theorem sets_appended
    {node : Node}
    (noLabel : Listing.labelsOf [node] = []) :
    Sets own state (state.appended node) := by
  refine .of_same (by simp [appended]) (by simp [appended]) (by simp [appended]) ?_
  rw [labelsOf_appended, noLabel, List.append_nil]

theorem labels_labelled
    (label : String) :
    (state.labelled label).listing.labels = state.listing.labels ++ [label] := by
  simp [labelled, appended]

theorem sets_labelled
    {name : LabelName}
    (given : state.listing.Gave name)
    (isOwn : own name)
    (new : name.text ∉ state.listing.labels) :
    Sets own state (state.labelled name.text) where
  choices := by simp [labelled, appended]
  scopes := by simp [labelled, appended]
  labelled := by
    intro allNamed label isSet
    have counters : ∀ {other : LabelName}, state.listing.Gave other →
        (state.labelled name.text).listing.Gave other := fun known =>
      known.mono (by simp [labelled, appended]) (by simp [labelled, appended])
    rw [labels_labelled] at isSet
    rcases List.mem_append.mp isSet with old | new
    · obtain ⟨other, same, known⟩ := allNamed label old
      exact ⟨other, same, counters known⟩
    · exact ⟨name, List.mem_singleton.mp new, counters given⟩
  marked := by
    rintro ⟨same, distinct⟩
    rw [Listing.Marked, labels_labelled]
    refine ⟨?_, List.nodup_append.mpr ⟨distinct, by simp, ?_⟩⟩
    · unfold labelled
      rw [labelsOf_appended]
      exact congrArg (· ++ [name.text]) same
    · intro label isSet other isName sameLabel
      cases List.mem_singleton.mp isName
      exact new (sameLabel ▸ isSet)
  kept := by
    intro other _ foreign isSet
    rw [labels_labelled] at isSet
    rcases List.mem_append.mp isSet with old | new
    · exact old
    · cases LabelName.text_injective (List.mem_singleton.mp new)
      exact (foreign isOwn).elim

theorem sets_numbered :
    Sets own state state.numbered where
  choices := Nat.le_succ _
  scopes := Nat.le_refl _
  labelled := by
    intro allNamed label isSet
    obtain ⟨name, same, known⟩ := allNamed label isSet
    exact ⟨name, same, known.mono (Nat.le_succ _) (Nat.le_refl _)⟩
  marked := fun isMarked => isMarked
  kept := fun _ _ _ isSet => isSet

theorem sets_opened
    (kind : Scope.Kind)
    (exitLabel : String) :
    Sets own state (state.opened kind exitLabel) := by
  have grows : state.listing.scopes.size ≤ (state.opened kind exitLabel).listing.scopes.size := by
    simp [opened, ScopeTree.size_addChild]
  refine ⟨Nat.le_refl _, grows, ?_, fun isMarked => isMarked, fun _ _ _ isSet => isSet⟩
  intro allNamed label isSet
  obtain ⟨name, same, known⟩ := allNamed label isSet
  exact ⟨name, same, known.mono (Nat.le_refl _) grows⟩

end LoweringState

namespace Lower

open LoweringState Stateful

variable
    {own : LabelName → Prop}
    {before after : LoweringState}
    {line : Nat}
    {done : Unit}

theorem condition_sets
    {test : Option Condition}
    {whenTrue whenFalse : String}
    {falseFollows : Bool}
    (lowered : condition test whenTrue whenFalse falseFollows before = .ok (done, after)) :
    Sets own before after :=
  .of_unlabelled (condition_unlabelled lowered)

variable
    {kind : Scope.Kind}

/-- The labels of a scope that is entered next, unless it is that of the entry function. -/
theorem newFrame_labels
    (state : LoweringState)
    (exitLabel : String)
    (inner : kind ≠ .function) :
    (state.newFrame kind exitLabel).startLabel =
        (LabelName.scope kind state.listing.scopes.size false).text ∧
      (state.newFrame kind exitLabel).endLabel =
        (LabelName.scope kind state.listing.scopes.size true).text := by
  simp [newFrame, scopeLabels, inner, LabelName.text, LabelName.edge]

variable
    {exitLabel : String}

/-- A scope sets its own two labels and what its body sets. -/
theorem inScope_sets
    {body : Lower Unit}
    (inner : kind ≠ .function)
    (proceeds : ∀ {before after : LoweringState},
      body before = .ok ((), after) → before.Proceeds after)
    (each : ∀ {before after : LoweringState},
      body before = .ok ((), after) → Sets own before after)
    (lowered : inScope kind exitLabel body before = .ok (done, after)) :
    Sets own before after := by
  obtain ⟨between, startNew, bodyLowered, endNew, rfl⟩ := inScope_ok lowered
  obtain ⟨startLabel, endLabel⟩ := newFrame_labels before exitLabel inner
  let both := fun name => own name ∨
    ∃ isEnd, name = LabelName.scope kind before.listing.scopes.size isEnd
  have isGiven : ∀ isEnd, (before.opened kind exitLabel).listing.Gave
      (.scope kind before.listing.scopes.size isEnd) := by
    intro isEnd
    show before.listing.scopes.size < (before.opened kind exitLabel).listing.scopes.size
    simp [opened, ScopeTree.size_addChild]
  have opens : Sets both before (before.entered kind exitLabel) := by
    unfold entered
    rw [startLabel]
    refine (sets_opened before kind exitLabel).trans (.trans ?_ (sets_appended _ rfl))
    exact sets_labelled _ (isGiven false) (.inr ⟨false, rfl⟩) (startLabel ▸ startNew)
  have inside : Sets both _ between := (each bodyLowered).mono fun _ isOwn => .inl isOwn
  have emptied : Sets both between between.emptied := .of_computes (computes_emptied between)
  have sameEnd : between.innermost.endLabel = (before.newFrame kind exitLabel).endLabel :=
    (proceeds bodyLowered).endLabel
  have closes : Sets both between.emptied (between.emptied.labelled between.innermost.endLabel) := by
    rw [sameEnd, endLabel] at endNew ⊢
    refine sets_labelled _ (emptied.gave (inside.gave ?_)) (.inr ⟨true, rfl⟩) endNew
    exact (isGiven true).mono (by simp [entered, labelled, appended])
      (by simp [entered, labelled, appended])
  have whole := ((opens.trans inside).trans emptied).trans closes
  refine Sets.shrink (Sets.trans whole (.of_same rfl rfl rfl rfl)) ?_
  rintro name (isOwn | ⟨isEnd, rfl⟩)
  · exact .inl isOwn
  · exact .inr (Nat.lt_irrefl _)

theorem sets_skipped
    (state : LoweringState)
    (endLabel : String)
    (next : Branch) :
    Sets own state (skipped state endLabel next) := by
  unfold skipped
  split
  · exact sets_appended _ rfl
  · exact .refl _

/-- The labels of the arms of a choice from one on. -/
def isArm (number first : Nat) (name : LabelName) : Prop :=
  ∃ arm, first ≤ arm ∧
    (name = .choice number (.arm arm) ∨ name = .choice number (.armBody arm))

/-- Any label of a choice. -/
def isChoice (number : Nat) (name : LabelName) : Prop :=
  ∃ place, name = .choice number place

/-- Any label of a loop. -/
def isLoop (number : Nat) (name : LabelName) : Prop :=
  ∃ place, name = .loop number place

theorem isChoice_of_isArm
    {number first : Nat}
    (arm : isArm number first name) :
    isChoice number name := by
  obtain ⟨arm, _, rfl | rfl⟩ := arm
  · exact ⟨_, rfl⟩
  · exact ⟨_, rfl⟩

/-- An arm sets the label of its body and what the body sets. -/
theorem arm_sets
    {name : LabelName}
    {kind : Scope.Kind}
    {test : Option Condition}
    {body : List Stmt}
    {otherwise : String}
    {tested chosen : LoweringState}
    (given : before.listing.Gave name)
    (isOwn : own name)
    (inner : kind ≠ .function)
    (each : ∀ {before after : LoweringState},
      statements body before = .ok ((), after) → Sets (fun _ => False) before after)
    (testLowered : condition test name.text otherwise false before = .ok ((), tested))
    (new : name.text ∉ tested.listing.labels)
    (bodyLowered : inScope kind "" (statements body) (tested.labelled name.text) =
      .ok ((), chosen))
    (endLabel : String)
    (next : Branch) :
    Sets own before (skipped chosen endLabel next) := by
  have tests : Sets own before tested := condition_sets testLowered
  have labels : Sets own tested (tested.labelled name.text) :=
    sets_labelled _ (tests.gave given) isOwn new
  have inside : Sets own (tested.labelled name.text) chosen :=
    (inScope_sets inner statements_proceeds each bodyLowered).mono fun _ wrong => wrong.elim
  exact ((tests.trans labels).trans inside).trans (sets_skipped _ _ _)

/-- Statements, arms and bodies set labels with numbers that they take themselves. -/
theorem lowering_sets :
    (∀ statement_ : Stmt, ∀ {before after : LoweringState},
      statement statement_ before = .ok ((), after) →
        Sets (fun _ => False) before after) ∧
    (∀ branch_ : Branch, ∀ {number arm : Nat} {endLabel : String}
      {before after : LoweringState},
      number < before.listing.labelCount →
        branch number arm endLabel branch_ before = .ok ((), after) →
          Sets (isArm number arm) before after) ∧
    ∀ body : List Stmt, ∀ {before after : LoweringState},
      statements body before = .ok ((), after) →
        Sets (fun _ => False) before after := by
  apply Stmt.induction
  case block =>
    intro line body bodyHypothesis before after lowered
    exact inScope_sets (by decide) statements_proceeds bodyHypothesis (statement_block_ok lowered)
  case declare =>
    intro line name type value before after lowered
    rw [statement] at lowered
    exact .of_unlabelled (declare_unlabelled [] lowered)
  case function =>
    intro line name params result bodyLine body _ before after lowered
    exact (statement_function_ok.mp lowered).elim
  case assign =>
    intro line name index value before after lowered
    rw [statement] at lowered
    exact .of_unlabelled (assign_unlabelled [] lowered)
  case call =>
    intro line callLine name builtin arguments before after lowered
    rw [statement] at lowered
    exact .of_computes (callStatement_computes lowered)
  case leave =>
    intro line value before after lowered
    rw [statement] at lowered
    obtain ⟨_, _, unlabelled⟩ := leave_unlabelled lowered
    exact .of_unlabelled unlabelled
  case choose =>
    intro line test bodyLine body next bodyHypothesis nextHypothesis before after lowered
    obtain ⟨tested, chosen, branched, startNew, testLowered, bodyNew, bodyLowered, branchLowered,
      endNew, rfl⟩ := statement_choose_ok lowered
    let number := before.listing.labelCount
    have given : ∀ place, before.numbered.listing.Gave (.choice number place) :=
      fun _ => Nat.lt_succ_self _
    have starts : Sets (isChoice number) before.numbered
        (before.numbered.labelled (LabelName.choice number .start).text) :=
      sets_labelled _ (given .start) ⟨_, rfl⟩ startNew
    have arm : Sets (isChoice number) _ (skipped chosen (chooseStem number ++ "_END") next) :=
      arm_sets (starts.gave (given .body)) ⟨_, rfl⟩ (by decide) bodyHypothesis testLowered
        bodyNew bodyLowered _ _
    have reached := starts.trans arm
    have branches : Sets (isChoice number) _ branched :=
      (nextHypothesis (reached.gave (given .start)) branchLowered).mono
        fun _ => isChoice_of_isArm
    have behind := reached.trans branches
    have ends : Sets (isChoice number) branched
        (branched.labelled (LabelName.choice number .finish).text) :=
      sets_labelled _ (behind.gave (given .finish)) ⟨_, rfl⟩ endNew
    refine ((sets_numbered before).trans (behind.trans ends)).shrink ?_
    rintro _ ⟨place, rfl⟩
    exact .inr (Nat.lt_irrefl _)
  case loop =>
    intro line test bodyLine body bodyHypothesis before after lowered
    obtain ⟨looped, tested, startNew, bodyLowered, testNew, testLowered, endNew, rfl⟩ :=
      statement_loop_ok lowered
    let number := before.listing.labelCount
    have given : ∀ place, before.numbered.listing.Gave (.loop number place) :=
      fun _ => Nat.lt_succ_self _
    have jumps : Sets (fun _ => False) before.numbered
        (before.numbered.appended (.jump (LabelName.loop number .test).text none)) :=
      sets_appended _ rfl
    have stillNew : (LabelName.loop number .start).text ∉
        (before.numbered.appended (.jump (LabelName.loop number .test).text none)).listing.labels :=
      jumps.stays_new (given .start) (fun wrong => wrong) startNew
    have starts := (jumps.mono fun _ wrong => wrong.elim).trans
      (@sets_labelled (isLoop number) _ (.loop number .start) (jumps.gave (given _)) ⟨_, rfl⟩ stillNew)
    have inside : Sets (isLoop number) _ looped :=
      (inScope_sets (by decide) statements_proceeds bodyHypothesis bodyLowered).mono
        fun _ wrong => wrong.elim
    have reached := starts.trans inside
    have labels : Sets (isLoop number) looped
        (looped.labelled (LabelName.loop number .test).text) :=
      sets_labelled _ (reached.gave (given _)) ⟨_, rfl⟩ testNew
    have tests : Sets (isLoop number) _ tested := condition_sets testLowered
    have behind := (reached.trans labels).trans tests
    have ends : Sets (isLoop number) tested
        (tested.labelled (LabelName.loop number .finish).text) :=
      sets_labelled _ (behind.gave (given _)) ⟨_, rfl⟩ endNew
    refine ((sets_numbered before).trans (behind.trans ends)).shrink ?_
    rintro _ ⟨place, rfl⟩
    exact .inr (Nat.lt_irrefl _)
  case exit =>
    intro line before after lowered
    rw [statement] at lowered
    cases exit_ok lowered
    exact sets_appended _ rfl
  case none =>
    intro number arm endLabel before after _ lowered
    cases branch_none_ok lowered
    exact .refl _
  case elif =>
    intro line test bodyLine body next bodyHypothesis nextHypothesis number arm endLabel before
      after known lowered
    obtain ⟨tested, chosen, new, testLowered, bodyNew, bodyLowered, branchLowered⟩ :=
      branch_elif_ok lowered
    have labels : Sets (isArm number arm) before
        (before.labelled (LabelName.choice number (.arm arm)).text) :=
      sets_labelled _ known ⟨arm, Nat.le_refl _, .inl rfl⟩ new
    have body : Sets (isArm number arm) _ (skipped chosen endLabel next) :=
      @arm_sets _ _ (.choice number (.armBody arm)) _ _ _ _ _ _ (Nat.lt_of_lt_of_le known labels.choices)
        ⟨arm, Nat.le_refl _, .inr rfl⟩ (by decide) bodyHypothesis testLowered bodyNew bodyLowered _ _
    have reached := labels.trans body
    refine reached.trans ((nextHypothesis (Nat.lt_of_lt_of_le known reached.choices) branchLowered).mono ?_)
    rintro _ ⟨other, later, isName⟩
    exact ⟨other, by omega, isName⟩
  case otherwise =>
    intro line bodyLine body bodyHypothesis number arm endLabel before after known lowered
    obtain ⟨new, bodyLowered⟩ := branch_otherwise_ok lowered
    have here : isArm number arm (.choice number (.arm arm)) := ⟨arm, Nat.le_refl _, .inl rfl⟩
    have labels : Sets (isArm number arm) before (before.labelled (armLabel number arm)) :=
      @sets_labelled _ before (.choice number (.arm arm)) known here new
    exact labels.trans
      ((inScope_sets (by decide) statements_proceeds bodyHypothesis bodyLowered).mono
        fun _ wrong => wrong.elim)
  case nil =>
    intro before after lowered
    cases statements_nil_ok lowered
    exact .refl _
  case cons =>
    intro first rest firstHypothesis restHypothesis before after lowered
    obtain ⟨between, firstLowered, restLowered⟩ := statements_cons_ok lowered
    exact (firstHypothesis firstLowered).trans (restHypothesis restLowered)

section Refusals

/-- A step that is refused, where it starts, only for other reasons than a label. -/
abbrev SparesLabelsAt (step : Lower α) (before : LoweringState) : Prop :=
  FailsWith IsRefusal step before

theorem sparesLabels_label
    {name : String}
    (new : name ∉ before.listing.labels) :
    SparesLabelsAt (label name) before := by
  have run : label name before = .ok ((), before.labelled name) := label_ok_iff.mpr ⟨new, rfl⟩
  exact failsWith_of_ok run

/-- The labels of a scope are new where they are set. -/
theorem inScope_spares
    {body : List Stmt}
    (inner : kind ≠ .function)
    (labelled : before.listing.Labelled)
    (each : ∀ {state : LoweringState},
      state.listing.Labelled → SparesLabelsAt (statements body) state) :
    SparesLabelsAt (inScope kind exitLabel (statements body)) before := by
  obtain ⟨startLabel, endLabel⟩ := newFrame_labels before exitLabel inner
  have new : ∀ isEnd, (LabelName.scope kind before.listing.scopes.size isEnd).text ∉
      (before.opened kind exitLabel).listing.labels :=
    fun isEnd => labelled.fresh (Nat.lt_irrefl _)
  have given : ∀ isEnd, (before.opened kind exitLabel).listing.Gave
      (.scope kind before.listing.scopes.size isEnd) := by
    intro isEnd
    show before.listing.scopes.size < (before.opened kind exitLabel).listing.scopes.size
    simp [opened, ScopeTree.size_addChild]
  have opens : Sets (fun name => name = .scope kind before.listing.scopes.size false)
      (before.opened kind exitLabel) (before.entered kind exitLabel) := by
    unfold entered
    rw [startLabel]
    refine Sets.trans ?_ (sets_appended _ rfl)
    exact sets_labelled _ (given false) rfl (new false)
  unfold inScope
  refine failsWith_bind (failsWith_of_ok rfl) fun current _ run => ?_
  obtain ⟨rfl, rfl⟩ := openScope_ok_iff.mp run
  refine failsWith_bind (sparesLabels_label (startLabel ▸ new false)) fun _ _ run => ?_
  obtain ⟨-, rfl⟩ := label_ok_iff.mp run
  refine failsWith_bind (sparesLabels_emit _ _) fun _ _ run => ?_
  cases emit_ok_iff.mp run
  change SparesLabelsAt _ (before.entered kind exitLabel)
  have around : Sets (fun _ => False) before (before.opened kind exitLabel) := sets_opened _ _ _
  have enteredLabelled := opens.labelled (around.labelled labelled)
  refine failsWith_bind (each enteredLabelled) fun _ between bodyLowered => ?_
  -- The end of the scope was new when the body began, and the body does not set it.
  have sets := lowering_sets.2.2 body bodyLowered
  have sameEnd : between.innermost.endLabel = (before.newFrame kind exitLabel).endLabel :=
    (statements_proceeds bodyLowered).endLabel
  have endNew : between.innermost.endLabel ∉ between.emptied.listing.labels := by
    rw [sameEnd, endLabel, (computes_emptied between).labels]
    refine sets.stays_new (opens.gave (given true)) (fun wrong => wrong) ?_
    exact opens.stays_new (given true) (by simp) (new true)
  have closed : closeScope between =
      .ok ((), between.emptied.labelled between.innermost.endLabel) :=
    closeScope_ok_iff.mpr ⟨endNew, rfl⟩
  exact failsWith_bind (failsWith_of_ok closed) fun _ _ _ => alwaysFailsWith_modify _ _

/-- The labels of an arm are new where they are set. -/
theorem arm_spares
    {name : LabelName}
    {kind : Scope.Kind}
    {test : Option Condition}
    {body : List Stmt}
    {otherwise endLabel : String}
    {isLast : Prop}
    [Decidable isLast]
    {rest : Lower Unit}
    (given : before.listing.Gave name)
    (new : name.text ∉ before.listing.labels)
    (inner : kind ≠ .function)
    (labelled : before.listing.Labelled)
    (each : ∀ {state : LoweringState},
      state.listing.Labelled → SparesLabelsAt (statements body) state)
    (later : ∀ {state : LoweringState}, Sets (· = name) before state → SparesLabelsAt rest state) :
    SparesLabelsAt (do
      condition test name.text otherwise false
      label name.text
      inScope kind "" (statements body)
      if isLast then
        emit (.jump endLabel none)
      rest) before := by
  refine failsWith_bind (sparesLabels_condition _ _ _ _ _) fun _ tested testLowered => ?_
  have quiet : Sets (fun _ => False) before tested := condition_sets testLowered
  have stillNew := quiet.stays_new given (fun wrong => wrong) new
  refine failsWith_bind (sparesLabels_label stillNew) fun _ _ run => ?_
  obtain ⟨-, rfl⟩ := label_ok_iff.mp run
  have begins : Sets (· = name) before (tested.labelled name.text) :=
    (quiet.mono fun _ wrong => wrong.elim).trans (sets_labelled tested (quiet.gave given) rfl stillNew)
  refine failsWith_bind (inScope_spares inner (begins.labelled labelled) each)
    fun _ chosen bodyLowered => ?_
  have inside : Sets (· = name) _ chosen :=
    (inScope_sets inner statements_proceeds (lowering_sets.2.2 body) bodyLowered).mono
      fun _ wrong => wrong.elim
  dsimp only
  split
  · refine failsWith_bind (sparesLabels_emit _ _) fun _ _ run => ?_
    cases emit_ok_iff.mp run
    exact later ((begins.trans inside).trans (sets_appended _ rfl))
  · exact later (begins.trans inside)

/-- Statements, arms and bodies are never refused because of a label. -/
theorem lowering_spares :
    (∀ statement_ : Stmt, ∀ {before : LoweringState},
      before.listing.Labelled → SparesLabelsAt (statement statement_) before) ∧
    (∀ branch_ : Branch, ∀ {number arm : Nat} {endLabel : String} {before : LoweringState},
      number < before.listing.labelCount → before.listing.Labelled →
        (∀ name, isArm number arm name → name.text ∉ before.listing.labels) →
          SparesLabelsAt (branch number arm endLabel branch_) before) ∧
    ∀ body : List Stmt, ∀ {before : LoweringState},
      before.listing.Labelled → SparesLabelsAt (statements body) before := by
  apply Stmt.induction
  case block =>
    intro line body bodyHypothesis before labelled
    rw [statement]
    exact inScope_spares (by decide) labelled bodyHypothesis
  case declare =>
    intro line name type value before _
    rw [statement]
    exact sparesLabels_declare _ _ _ _ _
  case function =>
    intro line name params result bodyLine body _ before _
    rw [statement]
    exact sparesLabels_fail (by rintro ⟨⟩) _
  case assign =>
    intro line name index value before _
    rw [statement]
    exact sparesLabels_assign _ _ _ _ _
  case call =>
    intro line callLine name builtin arguments before _
    rw [statement]
    exact sparesLabels_callStatement _ _ _ _ _
  case leave =>
    intro line value before _
    rw [statement]
    exact sparesLabels_leave _ _ _
  case choose =>
    intro line test bodyLine body next bodyHypothesis nextHypothesis before labelled
    rw [statement]
    refine failsWith_bind (failsWith_of_ok rfl) fun _ _ run => ?_
    obtain ⟨rfl, rfl⟩ := onListing_ok_iff.mp run
    change SparesLabelsAt _ before.numbered
    let number := before.listing.labelCount
    have numbers : Sets (fun _ => False) before before.numbered := sets_numbered before
    have given : ∀ place, before.numbered.listing.Gave (.choice number place) :=
      fun _ => Nat.lt_succ_self _
    have new : ∀ place, (LabelName.choice number place).text ∉ before.numbered.listing.labels :=
      fun _ => labelled.fresh (Nat.lt_irrefl _)
    refine failsWith_bind (sparesLabels_label (new .start)) fun _ _ run => ?_
    obtain ⟨-, rfl⟩ := label_ok_iff.mp run
    have starts : Sets (· = .choice number .start) before.numbered
        (before.numbered.labelled (LabelName.choice number .start).text) :=
      sets_labelled _ (given .start) rfl (new .start)
    refine arm_spares (starts.gave (given .body)) (starts.stays_new (given .body) (by rintro ⟨⟩) (new .body))
      (by decide) (starts.labelled (numbers.labelled labelled)) bodyHypothesis ?_
    intro state arm
    have armsNew : ∀ name, isArm number 0 name → name.text ∉ state.listing.labels := by
      rintro _ ⟨other, _, rfl | rfl⟩
      · exact arm.stays_new (starts.gave (given _)) (by rintro ⟨⟩) (starts.stays_new (given _) (by rintro ⟨⟩) (new _))
      · exact arm.stays_new (starts.gave (given _)) (by rintro ⟨⟩) (starts.stays_new (given _) (by rintro ⟨⟩) (new _))
    have finishNew : (LabelName.choice number .finish).text ∉ state.listing.labels :=
      arm.stays_new (starts.gave (given _)) (by rintro ⟨⟩) (starts.stays_new (given _) (by rintro ⟨⟩) (new _))
    have known : state.listing.Gave (.choice number .finish) := arm.gave (starts.gave (given _))
    refine failsWith_bind
      (nextHypothesis known (arm.labelled (starts.labelled (numbers.labelled labelled))) armsNew)
      fun _ branched branchLowered => sparesLabels_label ?_
    exact (lowering_sets.2.1 next known branchLowered).stays_new known
      (by rintro ⟨other, _, wrong | wrong⟩ <;> cases wrong) finishNew
  case loop =>
    intro line test bodyLine body bodyHypothesis before labelled
    rw [statement]
    refine failsWith_bind (failsWith_of_ok rfl) fun _ _ run => ?_
    obtain ⟨rfl, rfl⟩ := onListing_ok_iff.mp run
    change SparesLabelsAt _ before.numbered
    let number := before.listing.labelCount
    have numbers : Sets (fun _ => False) before before.numbered := sets_numbered before
    have given : ∀ place, before.numbered.listing.Gave (.loop number place) :=
      fun _ => Nat.lt_succ_self _
    have new : ∀ place, (LabelName.loop number place).text ∉ before.numbered.listing.labels :=
      fun _ => labelled.fresh (Nat.lt_irrefl _)
    refine failsWith_bind (sparesLabels_emit _ _) fun _ _ run => ?_
    cases emit_ok_iff.mp run
    have jumps : Sets (fun _ => False) before.numbered
        (before.numbered.appended (.jump (LabelName.loop number .test).text none)) :=
      sets_appended _ rfl
    have stillNew := fun place => jumps.stays_new (given place) (fun wrong => wrong) (new place)
    refine failsWith_bind (sparesLabels_label (stillNew .start)) fun _ _ run => ?_
    obtain ⟨-, rfl⟩ := label_ok_iff.mp run
    have starts : Sets (· = .loop number .start) before.numbered _ :=
      (jumps.mono fun _ wrong => wrong.elim).trans
        (sets_labelled _ (jumps.gave (given .start)) rfl (stillNew .start))
    refine failsWith_bind
      (inScope_spares (by decide) (starts.labelled (numbers.labelled labelled)) bodyHypothesis)
      fun _ looped bodyLowered => ?_
    have inside : Sets (· = .loop number .start) _ looped :=
      (inScope_sets (by decide) statements_proceeds (lowering_sets.2.2 body) bodyLowered).mono
        fun _ wrong => wrong.elim
    have reached := starts.trans inside
    refine failsWith_bind
      (sparesLabels_label (reached.stays_new (given .test) (by rintro ⟨⟩) (new .test))) fun _ _ run => ?_
    obtain ⟨-, rfl⟩ := label_ok_iff.mp run
    refine failsWith_bind (sparesLabels_condition _ _ _ _ _) fun _ tested testLowered => ?_
    refine sparesLabels_label ?_
    have quiet : Sets (fun _ => False) _ tested := condition_sets testLowered
    have labels : Sets (fun name => name = .loop number .test) looped
        (looped.labelled (LabelName.loop number .test).text) :=
      sets_labelled _ (reached.gave (given .test)) rfl
        (reached.stays_new (given .test) (by rintro ⟨⟩) (new .test))
    have known := reached.gave (given .finish)
    refine quiet.stays_new (labels.gave known) (fun wrong => wrong) ?_
    exact labels.stays_new known (by rintro ⟨⟩) (reached.stays_new (given .finish) (by rintro ⟨⟩) (new .finish))
  case exit =>
    intro line before _
    rw [statement]
    exact sparesLabels_exit _
  case none =>
    intro number arm endLabel before _ _ _
    rw [branch]
    exact alwaysFailsWith_pure _ _
  case elif =>
    intro line test bodyLine body next bodyHypothesis nextHypothesis number arm endLabel before
      known labelled new
    rw [branch]
    have here : isArm number arm (.choice number (.arm arm)) := ⟨arm, Nat.le_refl _, .inl rfl⟩
    have hereBody : isArm number arm (.choice number (.armBody arm)) :=
      ⟨arm, Nat.le_refl _, .inr rfl⟩
    refine failsWith_bind (sparesLabels_label (new _ here)) fun _ _ run => ?_
    obtain ⟨-, rfl⟩ := label_ok_iff.mp run
    have labels : Sets (· = .choice number (.arm arm)) before
        (before.labelled (LabelName.choice number (.arm arm)).text) :=
      sets_labelled _ known rfl (new _ here)
    have bodyKnown : before.listing.Gave (.choice number (.armBody arm)) := known
    refine @arm_spares _ (.choice number (.armBody arm)) _ _ _ _ _ _ _ _ (labels.gave bodyKnown)
      (labels.stays_new bodyKnown (by rintro ⟨⟩) (new _ hereBody)) (by decide) (labels.labelled labelled)
      bodyHypothesis ?_
    intro state chosen
    refine nextHypothesis (Nat.lt_of_lt_of_le known (Nat.le_trans labels.choices chosen.choices))
      (chosen.labelled (labels.labelled labelled)) ?_
    rintro name ⟨other, later, isName⟩
    have given : before.listing.Gave name := by
      rcases isName with rfl | rfl
      · exact known
      · exact known
    have apart : name ≠ .choice number (.arm arm) ∧ name ≠ .choice number (.armBody arm) := by
      rcases isName with rfl | rfl <;> simp <;> omega
    exact chosen.stays_new (labels.gave given) apart.2
      (labels.stays_new given apart.1 (new _ ⟨other, by omega, isName⟩))
  case otherwise =>
    intro line bodyLine body bodyHypothesis number arm endLabel before known labelled new
    rw [branch]
    have here : isArm number arm (.choice number (.arm arm)) := ⟨arm, Nat.le_refl _, .inl rfl⟩
    refine failsWith_bind (sparesLabels_label (new _ here)) fun _ _ run => ?_
    obtain ⟨-, rfl⟩ := label_ok_iff.mp run
    have labels : Sets (· = .choice number (.arm arm)) before
        (before.labelled (LabelName.choice number (.arm arm)).text) :=
      sets_labelled _ known rfl (new _ here)
    exact inScope_spares (by decide) (labels.labelled labelled) bodyHypothesis
  case nil =>
    intro before _
    rw [statements]
    exact alwaysFailsWith_pure _ _
  case cons =>
    intro first rest firstHypothesis restHypothesis before labelled
    rw [statements]
    refine failsWith_bind (sparesLabels_atLine _ (firstHypothesis labelled)) fun _ between run => ?_
    have sets := lowering_sets.1 first (atLine_ok_iff.mp run)
    exact restHypothesis (sets.labelled labelled)

end Refusals

end Lower

end IlsCompiler
