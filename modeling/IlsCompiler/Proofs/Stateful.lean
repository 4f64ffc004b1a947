import IlsCompiler.Diagnostic.Failure

namespace IlsCompiler.Stateful

/-!
# Steps that change a state or fail

Lowering and emission are sequences of steps that change a state or fail. A sequence
that succeeds went through every one of its steps.
-/

variable
    {State : Type}
    {before after : State}

/-- A sequence succeeds when its parts do, one after the other. -/
theorem bind_ok_iff
    {step : StateT State (Except Failure) α}
    {next : α → StateT State (Except Failure) β}
    {result : β} :
    (step >>= next) before = .ok (result, after) ↔
      ∃ middle between,
        step before = .ok (middle, between) ∧ next middle between = .ok (result, after) := by
  show (step before >>= fun pair => next pair.1 pair.2) = _ ↔ _
  cases step before with
  | error failure => simp [bind, Except.bind]
  | ok pair =>
      rcases pair with ⟨middle, between⟩
      constructor
      · intro later
        exact ⟨middle, between, rfl, later⟩
      · rintro ⟨other, state, same, later⟩
        cases same
        exact later

theorem pure_ok_iff
    {value result : α} :
    (pure value : StateT State (Except Failure) α) before = .ok (result, after) ↔
      value = result ∧ before = after := by
  show Except.ok (value, before) = _ ↔ _
  simp

theorem get_ok_iff
    {result : State} :
    (get : StateT State (Except Failure) State) before = .ok (result, after) ↔
      before = result ∧ before = after := by
  show Except.ok (before, before) = _ ↔ _
  simp

theorem set_ok_iff
    {state : State}
    {result : PUnit} :
    (set state : StateT State (Except Failure) PUnit) before = .ok (result, after) ↔
      state = after := by
  show Except.ok (PUnit.unit, state) = _ ↔ _
  simp

theorem modify_ok_iff
    {change : State → State}
    {result : PUnit} :
    (modify change : StateT State (Except Failure) PUnit) before = .ok (result, after) ↔
      change before = after := by
  show Except.ok (PUnit.unit, change before) = _ ↔ _
  simp

theorem throw_ok_iff
    {failure : Failure}
    {result : α} :
    (throw failure : StateT State (Except Failure) α) before = .ok (result, after) ↔ False := by
  show Except.error failure = _ ↔ _
  simp

end IlsCompiler.Stateful

namespace IlsCompiler

/-!
## How steps fail

A step that fails does so with a failure, and what is known of the failures of its parts is
known of the failures of a sequence. The code of a failure is not touched by what is added to
it on its way out.
-/

namespace Failure

/-- A failure that carries a diagnostic of error severity. -/
def IsReported (failure : Failure) : Prop :=
  failure.diagnostic?.map Diagnostic.severity = some .error

theorem diagnostic?_mapDiagnostic
    (change : Diagnostic → Diagnostic)
    (failure : Failure) :
    (failure.mapDiagnostic change).diagnostic? = failure.diagnostic?.map change := by
  induction failure with
  | diagnosed diagnostic => rfl
  | cancelled => rfl
  | plain message => rfl
  | wrapped text cause inductionHypothesis => exact inductionHypothesis
  | joined lead cause inductionHypothesis => exact inductionHypothesis

/-- Changes of a diagnostic that keep its code keep the code of a failure. -/
theorem code_mapDiagnostic
    {change : Diagnostic → Diagnostic}
    (keeps : ∀ diagnostic, (change diagnostic).code = diagnostic.code)
    (failure : Failure) :
    (failure.mapDiagnostic change).code = failure.code := by
  unfold code
  rw [diagnostic?_mapDiagnostic]
  cases failure.diagnostic? with
  | none => rfl
  | some diagnostic => exact keeps diagnostic

@[simp] theorem code_atLine
    (line : Int)
    (failure : Failure) :
    (failure.atLine line).code = failure.code :=
  code_mapDiagnostic (fun diagnostic => by unfold Diagnostic.atLine; split <;> rfl) failure

@[simp] theorem code_inFile
    (file : String)
    (failure : Failure) :
    (failure.inFile file).code = failure.code :=
  code_mapDiagnostic (fun diagnostic => by unfold Diagnostic.inFile; split <;> rfl) failure

@[simp] theorem code_wrap
    (lead : Bytes)
    (failure : Failure) :
    (failure.wrap lead).code = failure.code :=
  rfl

/-- Changes of a diagnostic that keep its severity keep a failure reported. -/
theorem isReported_mapDiagnostic
    {change : Diagnostic → Diagnostic}
    (keeps : ∀ diagnostic, (change diagnostic).severity = diagnostic.severity)
    (failure : Failure) :
    (failure.mapDiagnostic change).IsReported ↔ failure.IsReported := by
  unfold IsReported
  rw [diagnostic?_mapDiagnostic, Option.map_map,
    show Diagnostic.severity ∘ change = Diagnostic.severity from funext keeps]

@[simp] theorem isReported_atLine
    (line : Int)
    (failure : Failure) :
    (failure.atLine line).IsReported ↔ failure.IsReported :=
  isReported_mapDiagnostic (fun diagnostic => by unfold Diagnostic.atLine; split <;> rfl) failure

@[simp] theorem isReported_inFile
    (file : String)
    (failure : Failure) :
    (failure.inFile file).IsReported ↔ failure.IsReported :=
  isReported_mapDiagnostic (fun diagnostic => by unfold Diagnostic.inFile; split <;> rfl) failure

@[simp] theorem isReported_wrap
    (lead : Bytes)
    (failure : Failure) :
    (failure.wrap lead).IsReported ↔ failure.IsReported :=
  .rfl

end Failure

namespace Stateful

variable
    {State : Type}
    {allowed : Failure → Prop}
    {before : State}

/-- Where a step fails, it fails with a failure that is allowed. -/
def FailsWith (allowed : Failure → Prop) (step : StateT State (Except Failure) α)
    (before : State) : Prop :=
  ∀ failure, step before = .error failure → allowed failure

theorem failsWith_of_ok
    {step : StateT State (Except Failure) α}
    {result : α × State}
    (run : step before = .ok result) :
    FailsWith allowed step before := by
  intro failure failed
  rw [run] at failed
  cases failed

theorem failsWith_throw
    {failure : Failure}
    (isAllowed : allowed failure) :
    FailsWith allowed (throw failure : StateT State (Except Failure) α) before := by
  intro other failed
  have same : Except.error failure = Except.error other := failed
  cases same
  exact isAllowed

/-- A sequence fails where its first part fails, or where the second fails behind the first. -/
theorem failsWith_bind
    {step : StateT State (Except Failure) α}
    {next : α → StateT State (Except Failure) β}
    (first : FailsWith allowed step before)
    (second : ∀ middle between,
      step before = .ok (middle, between) → FailsWith allowed (next middle) between) :
    FailsWith allowed (step >>= next) before := by
  intro failure failed
  have unfolded : (step before >>= fun pair => next pair.1 pair.2) = .error failure := failed
  cases run : step before with
  | error other =>
      rw [run] at unfolded
      cases unfolded
      exact first failure run
  | ok pair =>
      rw [run] at unfolded
      exact second pair.1 pair.2 run failure unfolded

/--
Where a step fails, it fails with a failure that is allowed, and where it does not, its result and
the state behind it are as wanted.
-/
structure Ensures (allowed : Failure → Prop) (wanted : α → State → Prop)
    (step : StateT State (Except Failure) α) (before : State) : Prop where
  fails : FailsWith allowed step before
  holds : ∀ value after, step before = .ok (value, after) → wanted value after

theorem ensures_of_ok
    {step : StateT State (Except Failure) α}
    {wanted : α → State → Prop}
    {value : α}
    {after : State}
    (run : step before = .ok (value, after))
    (holds : wanted value after) :
    Ensures allowed wanted step before where
  fails := failsWith_of_ok run
  holds other later otherRun := by
    rw [run, Except.ok.injEq, Prod.mk.injEq] at otherRun
    obtain ⟨rfl, rfl⟩ := otherRun
    exact holds

theorem ensures_throw
    {failure : Failure}
    {wanted : α → State → Prop}
    (isAllowed : allowed failure) :
    Ensures allowed wanted (throw failure : StateT State (Except Failure) α) before where
  fails := failsWith_throw isAllowed
  holds _ _ run := by cases run

/-- What is known behind the first part of a sequence may be used for the second. -/
theorem ensures_bind
    {step : StateT State (Except Failure) α}
    {next : α → StateT State (Except Failure) β}
    {between : α → State → Prop}
    {wanted : β → State → Prop}
    (first : Ensures allowed between step before)
    (second : ∀ value middle, between value middle → Ensures allowed wanted (next value) middle) :
    Ensures allowed wanted (step >>= next) before where
  fails := failsWith_bind first.fails fun value middle run =>
    (second value middle (first.holds value middle run)).fails
  holds value after run := by
    obtain ⟨found, middle, earlier, later⟩ := bind_ok_iff.mp run
    exact (second found middle (first.holds found middle earlier)).holds value after later

/-- Reading the state goes on with what it is. -/
theorem ensures_get
    {next : State → StateT State (Except Failure) β}
    {wanted : β → State → Prop}
    (rest : Ensures allowed wanted (next before) before) :
    Ensures allowed wanted (get >>= next) before where
  fails := rest.fails
  holds := rest.holds

/-- Changing the state goes on from the changed one. -/
theorem ensures_modify
    {change : State → State}
    {next : PUnit → StateT State (Except Failure) β}
    {wanted : β → State → Prop}
    (rest : Ensures allowed wanted (next ()) (change before)) :
    Ensures allowed wanted (modify change >>= next) before where
  fails := rest.fails
  holds := rest.holds

theorem Ensures.mono
    {step : StateT State (Except Failure) α}
    {wanted weaker : α → State → Prop}
    (ensures : Ensures allowed wanted step before)
    (implies : ∀ value after, wanted value after → weaker value after) :
    Ensures allowed weaker step before where
  fails := ensures.fails
  holds value after run := implies value after (ensures.holds value after run)

/-- What each of several steps keeps, all of them keep. -/
theorem ensures_forM
    {items : List α}
    {step : α → StateT State (Except Failure) PUnit}
    {kept : State → Prop}
    (each : ∀ item ∈ items, ∀ state, kept state →
      Ensures allowed (fun _ after => kept after) (step item) state)
    (holds : kept before) :
    Ensures allowed (fun _ after => kept after) (items.forM step) before := by
  induction items generalizing before with
  | nil => exact ensures_of_ok rfl holds
  | cons first rest inductionHypothesis =>
      refine ensures_bind (each first List.mem_cons_self before holds) fun _ _ keeps => ?_
      exact inductionHypothesis (fun item member => each item (List.mem_cons_of_mem _ member)) keeps

/-- A step fails, wherever it starts, with a failure that is allowed. -/
def AlwaysFailsWith (allowed : Failure → Prop) (step : StateT State (Except Failure) α) : Prop :=
  ∀ before, FailsWith allowed step before

theorem alwaysFailsWith_pure
    (value : α) :
    AlwaysFailsWith allowed (pure value : StateT State (Except Failure) α) :=
  fun _ => failsWith_of_ok rfl

theorem alwaysFailsWith_get :
    AlwaysFailsWith allowed (get : StateT State (Except Failure) State) :=
  fun _ => failsWith_of_ok rfl

theorem alwaysFailsWith_set
    (state : State) :
    AlwaysFailsWith allowed (set state : StateT State (Except Failure) PUnit) :=
  fun _ => failsWith_of_ok rfl

theorem alwaysFailsWith_modify
    (change : State → State) :
    AlwaysFailsWith allowed (modify change : StateT State (Except Failure) PUnit) :=
  fun _ => failsWith_of_ok rfl

theorem alwaysFailsWith_bind
    {step : StateT State (Except Failure) α}
    {next : α → StateT State (Except Failure) β}
    (first : AlwaysFailsWith allowed step)
    (second : ∀ ⦃before value after⦄,
      step before = .ok (value, after) → AlwaysFailsWith allowed (next value)) :
    AlwaysFailsWith allowed (step >>= next) :=
  fun before => failsWith_bind (first before) fun _ between run => second run between

theorem alwaysFailsWith_forM
    {items : List α}
    {step : α → StateT State (Except Failure) PUnit}
    (each : ∀ item ∈ items, AlwaysFailsWith allowed (step item)) :
    AlwaysFailsWith allowed (items.forM step) := by
  induction items with
  | nil => exact alwaysFailsWith_pure _
  | cons first rest inductionHypothesis =>
      refine alwaysFailsWith_bind (each first List.mem_cons_self) fun _ _ _ _ => ?_
      exact inductionHypothesis fun item member => each item (List.mem_cons_of_mem _ member)

theorem FailsWith.mono
    {step : StateT State (Except Failure) α}
    {weaker : Failure → Prop}
    (fails : FailsWith allowed step before)
    (implies : ∀ failure, allowed failure → weaker failure) :
    FailsWith weaker step before :=
  fun failure failed => implies failure (fails failure failed)

/-!
## Steps that do not see a change

Some part of the state may be of no concern to a step. Then it does the same whether that part is
changed before or behind it.
-/

/-- A step commutes with a change of the state. -/
def Commutes (move : State → State) (step : StateT State (Except Failure) α) : Prop :=
  ∀ before, step (move before) = (step before).map fun (result, after) => (result, move after)

section Commuting

variable
    {move : State → State}

theorem commutes_pure
    (value : α) :
    Commutes move (pure value : StateT State (Except Failure) α) :=
  fun _ => rfl

theorem commutes_throw
    (failure : Failure) :
    Commutes move (throw failure : StateT State (Except Failure) α) :=
  fun _ => rfl

theorem commutes_bind
    {step : StateT State (Except Failure) α}
    {next : α → StateT State (Except Failure) β}
    (first : Commutes move step)
    (second : ∀ ⦃before value after⦄,
      step before = .ok (value, after) → Commutes move (next value)) :
    Commutes move (step >>= next) := by
  intro before
  show (step (move before) >>= fun pair => next pair.1 pair.2) = Except.map _
    (step before >>= fun pair => next pair.1 pair.2)
  rw [first before]
  cases run : step before with
  | error failure => rfl
  | ok pair => exact second run pair.2

/-- What is done with the state commutes with a change that it does not look at. -/
theorem commutes_get
    {next : State → StateT State (Except Failure) β}
    (blind : ∀ state, next (move state) = next state)
    (each : ∀ state, Commutes move (next state)) :
    Commutes move (get >>= next) := by
  intro before
  show next (move before) (move before) = Except.map _ (next before before)
  rw [blind]
  exact each before before

/-- A step that cannot fail commutes with a change if its outcome does. -/
theorem commutes_act
    {action : State → α × State}
    (blind : ∀ state, action (move state) = ((action state).1, move (action state).2)) :
    Commutes move (fun state => .ok (action state) : StateT State (Except Failure) α) := by
  intro before
  show Except.ok (action (move before)) = Except.ok ((action before).1, move (action before).2)
  rw [blind]

theorem commutes_modify
    {change : State → State}
    (blind : ∀ state, change (move state) = move (change state)) :
    Commutes move (modify change : StateT State (Except Failure) PUnit) :=
  commutes_act fun state => by rw [blind]

theorem commutes_forM
    {items : List α}
    {step : α → StateT State (Except Failure) PUnit}
    (each : ∀ item ∈ items, Commutes move (step item)) :
    Commutes move (items.forM step) := by
  induction items with
  | nil => exact commutes_pure _
  | cons first rest inductionHypothesis =>
      exact commutes_bind (each first List.mem_cons_self) fun _ _ _ _ =>
        inductionHypothesis fun item member => each item (List.mem_cons_of_mem _ member)

end Commuting

end Stateful

end IlsCompiler
