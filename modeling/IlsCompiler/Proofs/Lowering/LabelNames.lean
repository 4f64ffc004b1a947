import IlsCompiler.Lowering.Statement
import IlsCompiler.Proofs.Text.Numerals
import Mathlib.Data.List.Basic

namespace IlsCompiler

/-!
# Names of labels

Labels are written from a few words and one or two numbers with underscores between them. Two
labels are written alike only if they are the same label: words and numbers have no underscore
in them, so the parts can be read back, and from the parts the label.
-/

/-- A label inside a choice. -/
inductive ChoicePlace where
  | start
  | body
  | arm (number : Nat)
  | armBody (number : Nat)
  | finish
deriving DecidableEq, Repr

/-- A label of a loop. -/
inductive LoopPlace where
  | start
  | test
  | finish
deriving DecidableEq, Repr

/--
What a label stands for: the start or end of a scope with a number, that of the entry function,
or a place in the choice or loop with a number.
-/
inductive LabelName where
  | scope (kind : Scope.Kind) (number : Nat) (isEnd : Bool)
  | entry (isEnd : Bool)
  | choice (number : Nat) (place : ChoicePlace)
  | loop (number : Nat) (place : LoopPlace)
deriving DecidableEq, Repr

namespace LabelName

/-- The last word of a label at the start or end of a scope. -/
def edge (isEnd : Bool) : String :=
  if isEnd then "_END" else "_START"

/-- A label as it is written. -/
def text : LabelName → String
  | .scope kind number isEnd => kind.label ++ "_" ++ toString number ++ edge isEnd
  | .entry isEnd => "FUNC_MAIN" ++ edge isEnd
  | .choice number .start => "IF" ++ toString number ++ "_START"
  | .choice number .body => "IF" ++ toString number ++ "_BODY"
  | .choice number (.arm other) => Lower.armLabel number other
  | .choice number (.armBody other) => Lower.armLabel number other ++ "_BODY"
  | .choice number .finish => "IF" ++ toString number ++ "_END"
  | .loop number .start => "WHILE" ++ toString number ++ "_START"
  | .loop number .test => "WHILE" ++ toString number ++ "_COND"
  | .loop number .finish => "WHILE" ++ toString number ++ "_END"

/-- The digits of a number. -/
def digits (number : Nat) : List Char :=
  Nat.toDigits 10 number

/-- The parts of a label between its underscores. -/
def words : LabelName → List (List Char)
  | .scope kind number isEnd =>
      [kind.label.toList, digits number, if isEnd then "END".toList else "START".toList]
  | .entry isEnd =>
      ["FUNC".toList, "MAIN".toList, if isEnd then "END".toList else "START".toList]
  | .choice number .start => ["IF".toList ++ digits number, "START".toList]
  | .choice number .body => ["IF".toList ++ digits number, "BODY".toList]
  | .choice number (.arm other) => ["IF".toList ++ digits number, "ALT".toList ++ digits other]
  | .choice number (.armBody other) =>
      ["IF".toList ++ digits number, "ALT".toList ++ digits other, "BODY".toList]
  | .choice number .finish => ["IF".toList ++ digits number, "END".toList]
  | .loop number .start => ["WHILE".toList ++ digits number, "START".toList]
  | .loop number .test => ["WHILE".toList ++ digits number, "COND".toList]
  | .loop number .finish => ["WHILE".toList ++ digits number, "END".toList]

variable
    {number : Nat}

theorem isDigit_of_mem_digits
    {char : Char}
    (member : char ∈ digits number) :
    char.isDigit :=
  Nat.isDigit_of_mem_toDigits (by decide) (by decide) member

theorem digits_injective
    {number other : Nat}
    (same : digits number = digits other) :
    number = other := by
  have read := congrArg Text.readNatural? same
  unfold digits at read
  rw [Text.readNatural?_toDigits, Text.readNatural?_toDigits] at read
  exact Option.some.inj read

/-- Digits differ from a word that has something else in it. -/
theorem digits_ne
    {word : List Char}
    (other : ∃ char ∈ word, char.isDigit = false) :
    digits number ≠ word := by
  rintro rfl
  obtain ⟨char, member, notDigit⟩ := other
  rw [isDigit_of_mem_digits member] at notDigit
  cases notDigit

/-- A word that ends in digits differs from one without any. -/
theorem append_digits_ne
    {front word : List Char}
    (without : ∀ char ∈ word, char.isDigit = false) :
    front ++ digits number ≠ word := by
  rintro rfl
  obtain ⟨char, member⟩ := List.exists_mem_of_ne_nil (digits number) Nat.toDigits_ne_nil
  have notDigit := without char (List.mem_append_right _ member)
  rw [isDigit_of_mem_digits member] at notDigit
  cases notDigit

theorem toList_text
    (name : LabelName) :
    name.text.toList = ['_'].intercalate name.words := by
  cases name with
  | scope kind number isEnd =>
      cases isEnd <;>
        simp [text, words, edge, digits, List.intercalate, List.intersperse]
  | entry isEnd => cases isEnd <;> rfl
  | choice number place =>
      cases place <;>
        simp [text, words, Lower.armLabel, digits, List.intercalate, List.intersperse]
  | loop number place =>
      cases place <;>
        simp [text, words, digits, List.intercalate, List.intersperse]

theorem not_mem_words
    (name : LabelName) :
    ∀ word ∈ name.words, '_' ∉ word := by
  have number : ∀ number, '_' ∉ digits number := fun number member =>
    absurd (isDigit_of_mem_digits member) (by decide)
  cases name with
  | scope kind number isEnd => cases kind <;> cases isEnd <;> simp_all [words, Scope.Kind.label]
  | entry isEnd => cases isEnd <;> simp [words]
  | choice number place => cases place <;> simp_all [words]
  | loop number place => cases place <;> simp_all [words]

theorem words_ne_nil
    (name : LabelName) :
    name.words ≠ [] := by
  cases name with
  | choice number place => cases place <;> exact List.cons_ne_nil _ _
  | loop number place => cases place <;> exact List.cons_ne_nil _ _
  | _ => exact List.cons_ne_nil _ _

/-- The words of kinds of scopes differ. -/
theorem label_injective
    {kind other : Scope.Kind}
    (same : kind.label = other.label) :
    kind = other := by
  cases kind <;> cases other <;> first | rfl | exact absurd same (by decide)

/-- Every label of a choice starts with its number. -/
theorem words_choice
    (number : Nat)
    (place : ChoicePlace) :
    ∃ rest, (choice number place).words = ("IF".toList ++ digits number) :: rest := by
  cases place <;> exact ⟨_, rfl⟩

/-- Every label of a loop starts with its number. -/
theorem words_loop
    (number : Nat)
    (place : LoopPlace) :
    ∃ rest, (loop number place).words = ("WHILE".toList ++ digits number) :: rest := by
  cases place <;> exact ⟨_, rfl⟩

/-- Labels of choices with the same words are the same. -/
theorem choice_injective
    {number otherNumber : Nat}
    {place otherPlace : ChoicePlace}
    (same : (choice number place).words = (choice otherNumber otherPlace).words) :
    choice number place = choice otherNumber otherPlace := by
  obtain ⟨rest, shape⟩ := words_choice number place
  obtain ⟨otherRest, otherShape⟩ := words_choice otherNumber otherPlace
  have heads := same
  rw [shape, otherShape, List.cons.injEq] at heads
  cases digits_injective (List.append_cancel_left heads.1)
  cases place <;> cases otherPlace <;> simp [words] at same ⊢ <;> exact digits_injective same

theorem loop_injective
    {number otherNumber : Nat}
    {place otherPlace : LoopPlace}
    (same : (loop number place).words = (loop otherNumber otherPlace).words) :
    loop number place = loop otherNumber otherPlace := by
  obtain ⟨rest, shape⟩ := words_loop number place
  obtain ⟨otherRest, otherShape⟩ := words_loop otherNumber otherPlace
  have heads := same
  rw [shape, otherShape, List.cons.injEq] at heads
  cases digits_injective (List.append_cancel_left heads.1)
  cases place <;> cases otherPlace <;> simp [words] at same ⊢

/-- The words of a choice or loop start with a word that ends in digits, those of a scope not. -/
theorem words_of_scope_ne
    {plain numbered : LabelName}
    {first front : List Char}
    {rest others : List (List Char)}
    (isPlain : plain.words = first :: rest)
    (noDigit : ∀ char ∈ first, char.isDigit = false)
    (isNumbered : numbered.words = (front ++ digits number) :: others) :
    plain.words ≠ numbered.words := by
  rw [isPlain, isNumbered]
  intro same
  exact append_digits_ne noDigit (List.cons.inj same).1.symm

variable
    {name other : LabelName}

theorem words_injective
    (same : name.words = other.words) :
    name = other := by
  have scopes : ∀ (kind : Scope.Kind), ∀ char ∈ kind.label.toList, char.isDigit = false := by
    intro kind char member
    have each : kind.label.toList.all (fun char => !char.isDigit) = true := by
      cases kind <;> decide
    simpa using List.all_eq_true.mp each char member
  have entries : ∀ char ∈ "FUNC".toList, char.isDigit = false := scopes .function
  have notMain : ∀ number, digits number ≠ "MAIN".toList := fun number =>
    digits_ne ⟨'M', by decide, by decide⟩
  -- Scopes are compared with scopes, choices with choices and loops with loops.
  cases name with
  | scope kind number isEnd =>
      cases other with
      | scope otherKind otherNumber otherEnd =>
          simp only [words, List.cons.injEq, String.toList_inj, and_true] at same
          obtain ⟨sameLabel, sameDigits, sameEdge⟩ := same
          cases label_injective sameLabel
          cases digits_injective sameDigits
          cases isEnd <;> cases otherEnd <;> simp at sameEdge ⊢
      | entry otherEnd =>
          simp only [words, List.cons.injEq] at same
          exact (notMain number same.2.1).elim
      | choice otherNumber place =>
          obtain ⟨_, shape⟩ := words_choice otherNumber place
          exact (words_of_scope_ne rfl (scopes kind) shape same).elim
      | loop otherNumber place =>
          obtain ⟨_, shape⟩ := words_loop otherNumber place
          exact (words_of_scope_ne rfl (scopes kind) shape same).elim
  | entry isEnd =>
      cases other with
      | scope otherKind otherNumber otherEnd =>
          simp only [words, List.cons.injEq] at same
          exact (notMain otherNumber same.2.1.symm).elim
      | entry otherEnd => cases isEnd <;> cases otherEnd <;> simp [words] at same ⊢
      | choice otherNumber place =>
          obtain ⟨_, shape⟩ := words_choice otherNumber place
          exact (words_of_scope_ne rfl entries shape same).elim
      | loop otherNumber place =>
          obtain ⟨_, shape⟩ := words_loop otherNumber place
          exact (words_of_scope_ne rfl entries shape same).elim
  | choice number place =>
      obtain ⟨_, shape⟩ := words_choice number place
      cases other with
      | scope otherKind otherNumber otherEnd =>
          exact (words_of_scope_ne rfl (scopes otherKind) shape same.symm).elim
      | entry otherEnd => exact (words_of_scope_ne rfl entries shape same.symm).elim
      | choice otherNumber otherPlace => exact choice_injective same
      | loop otherNumber otherPlace =>
          obtain ⟨_, otherShape⟩ := words_loop otherNumber otherPlace
          rw [shape, otherShape] at same
          cases (List.cons.inj (List.cons.inj same).1).1
  | loop number place =>
      obtain ⟨_, shape⟩ := words_loop number place
      cases other with
      | scope otherKind otherNumber otherEnd =>
          exact (words_of_scope_ne rfl (scopes otherKind) shape same.symm).elim
      | entry otherEnd => exact (words_of_scope_ne rfl entries shape same.symm).elim
      | choice otherNumber otherPlace =>
          obtain ⟨_, otherShape⟩ := words_choice otherNumber otherPlace
          rw [shape, otherShape] at same
          cases (List.cons.inj (List.cons.inj same).1).1
      | loop otherNumber otherPlace => exact loop_injective same

/-- Labels that are written alike are the same. -/
theorem text_injective
    (same : name.text = other.text) :
    name = other := by
  have lists := congrArg String.toList same
  rw [toList_text, toList_text] at lists
  have split := congrArg (List.splitOn '_') lists
  rw [List.splitOn_intercalate _ name.not_mem_words name.words_ne_nil,
    List.splitOn_intercalate _ other.not_mem_words other.words_ne_nil] at split
  exact words_injective split

end LabelName

end IlsCompiler
