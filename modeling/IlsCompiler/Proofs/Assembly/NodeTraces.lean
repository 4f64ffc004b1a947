import IlsCompiler.Proofs.Assembly.Traces
import IlsCompiler.Proofs.Program.CallOrder

namespace IlsCompiler

/-!
# The calls that each node makes

For each kind of node, the calls its code makes, from what asking for its operands
leads to.
-/

/-- Asking for a stored value: a constant is there, a reference is followed. -/
inductive Listing.AskedValue (listing : Listing) (made : List Nat) (bound : Nat) :
    Value → List Nat → List String → Prop
  | literal (text : String) : listing.AskedValue made bound (.literal text) [] []
  | reference {id : Nat} {numbers : List Nat} {routines : List String} :
      id ≤ bound → listing.Asked made id numbers routines →
        listing.AskedValue made bound (.reference id) numbers routines

namespace FunctionCode

/-- A variable behind the bound holds no register. -/
theorem HeldUpTo.held?_eq_none
    {code : FunctionCode}
    {bound id : Nat}
    (held : code.HeldUpTo bound)
    (behind : bound < id) :
    code.pool.held? id = none := by
  unfold Pool.held?
  rw [List.lookup_eq_none_iff]
  intro entry member
  have less : entry.1 < id := Nat.lt_of_le_of_lt (held entry member) behind
  simpa [bne_iff_ne] using Nat.ne_of_gt less

end FunctionCode

namespace Emit

open Stateful FunctionCode

variable
    {listing : Listing}
    {made numbers : List Nat}
    {routines : List String}
    {bound id : Nat}
    {before after : FunctionCode}
    {done : Unit}
    {operand : Operand}

theorem stored_asked
    (numbered : listing.Numbered)
    {value : Value}
    (asked : listing.AskedValue made bound value numbers routines)
    {depth : Nat}
    (same : before.calls = made)
    (run : stored listing depth value before = .ok (operand, after)) :
    Becomes bound numbers routines before after := by
  cases asked with
  | literal text =>
      obtain ⟨_, rfl⟩ := stored_literal_ok run
      exact .refl _ _
  | reference below asked =>
      obtain ⟨_, _, resolved⟩ := stored_reference_ok run
      exact resolve_asked numbered asked below same resolved

theorem load_asked
    (numbered : listing.Numbered)
    (asked : listing.Asked made id numbers routines)
    (below : id ≤ bound)
    {reg : Reg}
    (same : before.calls = made)
    (run : load listing reg id before = .ok (done, after)) :
    Becomes bound numbers routines before after := by
  obtain ⟨source, between, resolved, moved⟩ := bind_ok_iff.mp run
  exact (resolve_asked numbered asked below same resolved).before_silent
    ((silent_sequences.moveInto _ trivial).1 moved)

variable
    {name : String}
    {v : Variable}

/-- A new temporary asks for its value. -/
theorem declare_temporary
    (numbered : listing.Numbered)
    {scope : Nat}
    (found : listing.fixed? id = some v)
    (storage : v.storage = .temporary name scope)
    (asked : listing.AskedValue made bound v.value numbers routines)
    (below : id ≤ bound)
    (free : before.pool.held? id = none)
    (same : before.calls = made)
    (run : declare listing id before = .ok (done, after)) :
    Becomes bound numbers routines before after := by
  obtain ⟨w, known, sameFixed⟩ := Listing.lookup?_of_fixed? found
  subst sameFixed
  have wStorage := Variable.fixed_temporary_iff.mp storage
  have number : w.id = id := numbered id w.fixed found
  unfold declare at run
  simp only [known, wStorage] at run
  obtain ⟨reg, _, loaded, returned⟩ := bind_ok_iff.mp run
  obtain ⟨-, rfl⟩ := pure_ok_iff.mp returned
  rcases temporary_ok loaded with ⟨held, _⟩ | ⟨_, _, _, _, _, _, storedRun, took, moved⟩
  · rw [number, free] at held
    cases held
  · have asks := stored_asked numbered asked same storedRun
    refine asks.before_silent ?_
    refine (silent_takeRegister name ?_ took).after_silent
      ((silent_sequences.moveInto _ trivial).1 moved)
    rw [number]
    exact below

variable
    {selected : Nat}

/-- Storing asks for the value first and then, in silence, for the index of the target. -/
theorem storeValue_asked
    (numbered : listing.Numbered)
    {target : Variable}
    {value : Value}
    (asked : listing.AskedValue made bound value numbers routines)
    (ready : ∀ v array index, listing.fixed? selected = some v →
      v.storage = .element array index → index ≤ bound ∧ listing.Quiet made index)
    (same : before.calls = made)
    (run : storeValue listing target selected value before = .ok (done, after)) :
    Becomes bound numbers routines before after := by
  unfold storeValue at run
  simp only [bind_ok_iff] at run
  obtain ⟨operand, first, storedRun, source, second, settled, stores⟩ := run
  have asks := (stored_asked numbered asked same storedRun).before_silent
    ((silent_sequences.settle _ _ trivial).1 settled)
  refine asks.before_silent ?_
  cases storage : target.storage with
  | named name isGlobal isParam position scope =>
      simp only [storage] at stores
      by_cases whole : selected = 0
      · simp only [whole, ↓reduceIte] at stores
        obtain ⟨_, _, addressed, written⟩ := bind_ok_iff.mp stores
        exact (silent_namedOperand _ _ _ _ _ addressed).after_silent
          ((silent_sequences.store trivial trivial).1 written)
      · simp only [whole, ↓reduceIte] at stores
        cases found : listing.lookup? selected with
        | none =>
            simp only [found] at stores
            exact (fail_ok_iff.mp stores).elim
        | some w =>
            rcases w with ⟨number, type, wValue, preserved, lastUse, wStorage⟩
            cases wStorage with
            | element array index =>
                simp only [found] at stores
                obtain ⟨_, _, addressed, written⟩ := bind_ok_iff.mp stores
                have known : listing.fixed? selected = some (Variable.fixed _) :=
                  congrArg (Option.map Variable.fixed) found
                have indexReady := ready _ array index known rfl
                have calls : made ⊆ second.calls := by simp [asks.calls, same]
                have lawful := @asking_lawful listing made bound numbered
                exact (((lawful.within _).element _ indexReady found rfl).1 calls addressed).after_silent
                  ((silent_sequences.store trivial trivial).1 written)
            | _ =>
                simp only [found] at stores
                exact (fail_ok_iff.mp stores).elim
  | _ =>
      simp only [storage] at stores
      exact (fail_ok_iff.mp stores).elim

/-- A new local variable asks for its value. -/
theorem declare_local
    (numbered : listing.Numbered)
    {position scope : Nat}
    (found : listing.fixed? id = some v)
    (storage : v.storage = .named name false false position scope)
    (asked : listing.AskedValue made bound v.value numbers routines)
    (same : before.calls = made)
    (run : declare listing id before = .ok (done, after)) :
    Becomes bound numbers routines before after := by
  obtain ⟨w, known, sameFixed⟩ := Listing.lookup?_of_fixed? found
  subst sameFixed
  have wStorage := Variable.storage_of_fixed_local storage
  unfold declare at run
  simp only [known, wStorage, Bool.false_eq_true, ↓reduceIte, Bool.not_false] at run
  refine storeValue_asked numbered asked ?_ same run
  intro u array index absent
  simp [Listing.fixed?, Listing.lookup?] at absent

theorem assign_asked
    (numbered : listing.Numbered)
    {value : Value}
    (asked : listing.AskedValue made bound value numbers routines)
    (ready : ∀ v array index, listing.fixed? selected = some v →
      v.storage = .element array index → index ≤ bound ∧ listing.Quiet made index)
    (same : before.calls = made)
    (run : assign listing id value selected before = .ok (done, after)) :
    Becomes bound numbers routines before after := by
  unfold assign at run
  cases found : listing.lookup? id with
  | none =>
      simp only [found] at run
      exact (fail_ok_iff.mp run).elim
  | some v =>
      cases storage : v.storage with
      | named =>
          simp only [found, storage] at run
          exact storeValue_asked numbered asked ready same run
      | _ =>
          simp only [found, storage] at run
          exact (fail_ok_iff.mp run).elim

theorem leave_asked
    (numbered : listing.Numbered)
    (asked : (listing.fixed? id = none ∧ numbers = [] ∧ routines = []) ∨
      (id ≤ bound ∧ listing.Asked made id numbers routines))
    (same : before.calls = made)
    (run : leave listing id before = .ok (done, after)) :
    Becomes bound numbers routines before after := by
  unfold leave at run
  rcases asked with ⟨absent, rfl, rfl⟩ | ⟨below, asked⟩
  · have missing : listing.lookup? id = none := by
      simpa [Listing.fixed?] using absent
    simp only [missing, Option.isSome_none, Bool.false_eq_true, ↓reduceIte] at run
    obtain ⟨-, rfl⟩ := pure_ok_iff.mp run
    exact .refl _ _
  · cases found : listing.lookup? id with
    | none =>
        have none_of : ∀ v, listing.fixed? id ≠ some v := by
          simp [Listing.fixed?, found]
        cases asked with
        | pending known => exact (none_of _ known).elim
        | quiet quiet =>
            cases quiet with
            | plain known => exact (none_of _ known).elim
            | constant known => exact (none_of _ known).elim
            | copy known => exact (none_of _ known).elim
            | element known => exact (none_of _ known).elim
            | made known => exact (none_of _ known).elim
    | some v =>
        simp only [found, Option.isSome_some, ↓reduceIte] at run
        exact load_asked numbered asked below same run

theorem print_quiet
    (numbered : listing.Numbered)
    {argument : Variable}
    {newline : Bool}
    (number : argument.id = id)
    (quiet : listing.Quiet made id)
    (below : id ≤ bound)
    (same : before.calls = made)
    (run : print listing argument newline before = .ok (done, after)) :
    Becomes bound [] [PrintFormat.routine] before after := by
  unfold print at run
  cases format : PrintFormat.nameFor? argument.type newline with
  | none =>
      simp only [format] at run
      exact (fail_ok_iff.mp run).elim
  | some name =>
      simp only [format, number, bind_ok_iff] at run
      obtain ⟨saved, first, savedRun, _, second, formatted, _, third, loaded, _, fourth, cleared,
        _, fifth, called, restored⟩ := run
      have saves : Becomes bound [] [] before second :=
        ((silent_sequences.saveLive 0).1 savedRun).after_silent (silent_ins rfl formatted)
      have loads := ((asking_lawful numbered).load _ ⟨below, quiet⟩).1
        (by simp [saves.calls, same]) loaded
      have prepares := (saves.after_silent loads).after_silent (silent_ins rfl cleared)
      exact (prepares.after_silent (called_becomes called)).before_silent
        ((silent_sequences.restoreLive _).1 restored)

/-- Only a builtin that prints calls a routine. -/
theorem builtinCall_quiet
    (numbered : listing.Numbered)
    {builtin : Builtin}
    {invoked : Call}
    (known : Builtin.ofName? invoked.name = some builtin)
    (ready : ∀ argument ∈ invoked.arguments, argument ≤ bound ∧ listing.Quiet made argument)
    (same : before.calls = made)
    (run : builtinCall listing invoked before = .ok (done, after)) :
    Becomes bound [] builtin.routines before after := by
  unfold builtinCall at run
  simp only [known] at run
  by_cases arity : invoked.arguments.length = builtin.arity
  case neg =>
    simp only [arity, ne_eq, not_false_eq_true, ↓reduceIte] at run
    obtain ⟨_, _, failed, -⟩ := bind_ok_iff.mp run
    exact (fail_ok_iff.mp failed).elim
  simp only [arity, ne_eq, not_true_eq_false, ↓reduceIte] at run
  cases given : invoked.arguments with
  | nil =>
      simp only [given, List.head?_nil, Option.bind_none] at run
      exact (fail_ok_iff.mp run).elim
  | cons first rest =>
      simp only [given, List.head?_cons, Option.bind_some] at run
      cases found : listing.lookup? first with
      | none =>
          simp only [found] at run
          exact (fail_ok_iff.mp run).elim
      | some argument =>
          have number : argument.id = first :=
            numbered first argument.fixed (by simp [Listing.fixed?, found])
          have argumentReady := ready first (by simp [given])
          simp only [found] at run
          cases accepted : builtin.accepts argument.type with
          | false =>
              simp only [accepted, Bool.not_false, ↓reduceIte] at run
              obtain ⟨_, _, failed, -⟩ := bind_ok_iff.mp run
              exact (fail_ok_iff.mp failed).elim
          | true =>
              simp only [accepted, Bool.not_true, Bool.false_eq_true, ↓reduceIte, number] at run
              unfold Builtin.routines
              split at run
              next isExit =>
                rw [if_pos isExit]
                exact ((asking_lawful numbered).exit argumentReady).1 (by simp [same]) run
              next prints =>
                rw [if_neg prints]
                exact print_quiet numbered number argumentReady.2 argumentReady.1 same run

/-- Destroying a variable gives its register back. -/
theorem destroy_becomes
    (code : FunctionCode)
    (id : Nat) :
    Becomes bound [] [] code { code with pool := code.pool.release id } := by
  refine ⟨by simp, by simp, ?_, rfl, rfl, .refl _, fun sound => sound.release id⟩
  intro entry member
  left
  unfold Pool.release at member
  split at member
  · exact member
  · simp only at member
    split at member <;> exact (List.mem_filter.mp member).1

end Emit

end IlsCompiler
