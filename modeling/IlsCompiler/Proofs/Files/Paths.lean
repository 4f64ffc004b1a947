import Mathlib.Data.List.Induction
import IlsCompiler.Files.Path

namespace IlsCompiler.Path

/-!
# Cleaned paths

What a text leads to is a path in its cleaned form: every step has a name, and steps to the parent
come first and only where the path does not start at the root. The text of such a path leads to the
path itself, so paths are told apart by their texts.
-/

/-! ## The steps of a text -/

variable
    {name : String}
    {names : List String}
    {chars tail : List Char}

theorem splitSlashes_of_not_mem
    (noSlash : '/' ∉ chars) :
    splitSlashes chars = [chars] := by
  induction chars with
  | nil => rfl
  | cons value rest inductionHypothesis =>
      rw [List.mem_cons, not_or] at noSlash
      rw [splitSlashes, if_neg fun same => noSlash.1 same.symm, inductionHypothesis noSlash.2]

theorem splitSlashes_append_slash
    (noSlash : '/' ∉ chars)
    (rest : List Char) :
    splitSlashes (chars ++ '/' :: rest) = chars :: splitSlashes rest := by
  induction chars with
  | nil => rw [List.nil_append, splitSlashes, if_pos rfl]
  | cons value others inductionHypothesis =>
      rw [List.mem_cons, not_or] at noSlash
      rw [List.cons_append, splitSlashes, if_neg fun same => noSlash.1 same.symm,
        inductionHypothesis noSlash.2]

/-- What has no slash goes to the last step. -/
theorem splitSlashes_append
    (chars : List Char) :
    ∃ front last, splitSlashes chars = front ++ [last] ∧
      ∀ tail, '/' ∉ tail → splitSlashes (chars ++ tail) = front ++ [last ++ tail] := by
  induction chars with
  | nil => exact ⟨[], [], rfl, fun tail noSlash => splitSlashes_of_not_mem noSlash⟩
  | cons value rest inductionHypothesis =>
      obtain ⟨front, last, split, longer⟩ := inductionHypothesis
      by_cases isSlash : value = '/'
      · refine ⟨[] :: front, last, ?_, fun tail noSlash => ?_⟩
        · rw [splitSlashes, if_pos isSlash, split, List.cons_append]
        · rw [List.cons_append, splitSlashes, if_pos isSlash, longer tail noSlash, List.cons_append]
      · cases front with
        | nil =>
            refine ⟨[], value :: last, ?_, fun tail noSlash => ?_⟩
            · rw [splitSlashes, if_neg isSlash, split]
              rfl
            · rw [List.cons_append, splitSlashes, if_neg isSlash, longer tail noSlash]
              rfl
        | cons first front =>
            refine ⟨(value :: first) :: front, last, ?_, fun tail noSlash => ?_⟩
            · rw [splitSlashes, if_neg isSlash, split]
              rfl
            · rw [List.cons_append, splitSlashes, if_neg isSlash, longer tail noSlash]
              rfl

theorem not_mem_splitSlashes
    {part : List Char}
    (member : part ∈ splitSlashes chars) :
    '/' ∉ part := by
  induction chars generalizing part with
  | nil =>
      rw [splitSlashes, List.mem_singleton] at member
      simp [member]
  | cons value rest inductionHypothesis =>
      obtain ⟨front, last, split, _⟩ := splitSlashes_append rest
      by_cases isSlash : value = '/'
      · rw [splitSlashes, if_pos isSlash, List.mem_cons] at member
        rcases member with rfl | member
        · simp
        · exact inductionHypothesis member
      · rw [splitSlashes, if_neg isSlash] at member
        split at member
        · rw [List.mem_singleton] at member
          simpa [member] using Ne.symm isSlash
        next first others same =>
          rw [List.mem_cons] at member
          rcases member with rfl | member
          · rw [List.mem_cons, not_or]
            exact ⟨Ne.symm isSlash, inductionHypothesis (by simp [same])⟩
          · exact inductionHypothesis (by simp [same, member])

theorem not_mem_steps
    {text : String}
    (member : name ∈ steps text) :
    '/' ∉ name.toList := by
  obtain ⟨part, isPart, rfl⟩ := List.mem_map.mp member
  rw [String.toList_ofList]
  exact not_mem_splitSlashes isPart

theorem steps_of_not_mem
    (noSlash : '/' ∉ name.toList) :
    steps name = [name] := by
  rw [steps, splitSlashes_of_not_mem noSlash]
  simp

theorem steps_slash
    (text : String) :
    steps ("/" ++ text) = "" :: steps text := by
  rw [steps, String.toList_append]
  rfl

/-- What has no slash goes to the last step. -/
theorem steps_append
    (text : String) :
    ∃ front last, steps text = front ++ [last] ∧
      ∀ tail : String, '/' ∉ tail.toList → steps (text ++ tail) = front ++ [last ++ tail] := by
  obtain ⟨front, last, split, longer⟩ := splitSlashes_append text.toList
  refine ⟨front.map String.ofList, String.ofList last, by simp [steps, split], ?_⟩
  intro tail noSlash
  rw [steps, String.toList_append, longer _ noSlash]
  simp [String.ofList_append]

/-- Names that are joined by slashes are the steps. -/
theorem steps_intercalate
    (named : names ≠ [])
    (noSlash : ∀ name ∈ names, '/' ∉ name.toList) :
    steps ("/".intercalate names) = names := by
  induction names with
  | nil => exact (named rfl).elim
  | cons first rest inductionHypothesis =>
      have noSlashFirst := noSlash first (by simp)
      cases rest with
      | nil => rw [String.intercalate_singleton, steps_of_not_mem noSlashFirst]
      | cons second rest =>
          have behind := inductionHypothesis (by simp) fun name member =>
            noSlash name (List.mem_cons_of_mem _ member)
          rw [String.intercalate_cons_cons, steps, String.append_assoc, String.toList_append,
            String.toList_append]
          show (splitSlashes (first.toList ++ '/' :: _)).map String.ofList = _
          rw [splitSlashes_append_slash noSlashFirst, List.map_cons, String.ofList_toList]
          exact congrArg _ behind

/-- Joined names start with the first one. -/
theorem intercalate_cons
    (name : String)
    (rest : List String) :
    ∃ more, "/".intercalate (name :: rest) = name ++ more := by
  cases rest with
  | nil => exact ⟨"", by simp⟩
  | cons other rest => exact ⟨_, by rw [String.intercalate_cons_cons, String.append_assoc]⟩

theorem startsAtRoot_intercalate
    (notEmpty : name ≠ "")
    (noSlash : '/' ∉ name.toList)
    (rest : List String) :
    startsAtRoot ("/".intercalate (name :: rest)) = false := by
  obtain ⟨more, same⟩ := intercalate_cons name rest
  rw [startsAtRoot, same, String.toList_append, decide_eq_false_iff_not]
  cases shape : name.toList with
  | nil => exact absurd (String.toList_eq_nil_iff.mp shape) notEmpty
  | cons first others =>
      rw [shape, List.mem_cons, not_or] at noSlash
      simpa using Ne.symm noSlash.1

/-! ## Taking steps -/

variable
    {way : List String}

/-- Steps that do not lead up are added, but for those that lead nowhere. -/
theorem foldl_step_of_not_mem
    (isAbsolute : Bool)
    (names : List String)
    (noUp : up ∉ way) :
    way.foldl (step isAbsolute) names =
      names ++ way.filter fun name => !(name = "" || name = here) := by
  induction way generalizing names with
  | nil => simp
  | cons name rest inductionHypothesis =>
      rw [List.mem_cons, not_or] at noUp
      rw [List.foldl_cons, inductionHypothesis _ noUp.2, step]
      split
      next stays => rw [List.filter_cons_of_neg (by simpa [or_iff_not_imp_left] using stays)]
      next leads =>
        rw [if_neg fun same => noUp.1 same.symm, List.filter_cons_of_pos (by simpa using leads),
          List.append_assoc, List.singleton_append]

/-- A path in cleaned form. -/
structure Clean (path : Path) : Prop where
  named : ∀ name ∈ path.names, name ≠ "" ∧ name ≠ here ∧ '/' ∉ name.toList
  /-- Steps to the parent come first, and only where the path does not start at the root. -/
  ups : ∀ front behind, path.names = front ++ up :: behind →
    path.isAbsolute = false ∧ ∀ name ∈ front, name = up

namespace Clean

variable
    {isAbsolute : Bool}

theorem empty
    (isAbsolute : Bool) :
    Clean ⟨isAbsolute, []⟩ where
  named := by simp
  ups := by simp

theorem init
    (clean : Clean ⟨isAbsolute, names ++ [name]⟩) :
    Clean ⟨isAbsolute, names⟩ where
  named other member := clean.named other (List.mem_append_left _ member)
  ups front behind split := clean.ups front (behind ++ [name]) (by
    show names ++ [name] = _
    rw [show names = front ++ up :: behind from split, List.append_assoc, List.cons_append])

theorem concat
    (clean : Clean ⟨isAbsolute, names⟩)
    (isNamed : name ≠ "" ∧ name ≠ here ∧ '/' ∉ name.toList)
    (isUp : name = up → isAbsolute = false ∧ ∀ other ∈ names, other = up) :
    Clean ⟨isAbsolute, names ++ [name]⟩ where
  named other member := by
    rcases List.mem_append.mp member with member | member
    · exact clean.named other member
    · rwa [List.mem_singleton.mp member]
  ups front behind split := by
    replace split : names ++ [name] = front ++ up :: behind := split
    rcases List.eq_nil_or_concat behind with rfl | ⟨others, last, rfl⟩
    · obtain ⟨rfl, same⟩ := List.append_inj' split rfl
      exact isUp (List.cons.inj same).1
    · rw [List.concat_eq_append, ← List.cons_append, ← List.append_assoc] at split
      exact clean.ups front others (List.append_inj' split rfl).1

theorem step
    (clean : Clean ⟨isAbsolute, names⟩)
    (noSlash : '/' ∉ name.toList) :
    Clean ⟨isAbsolute, Path.step isAbsolute names name⟩ := by
  unfold Path.step
  split
  · exact clean
  next leads =>
    rw [Bool.or_eq_true, decide_eq_true_eq, decide_eq_true_eq, not_or] at leads
    have isNamed : name ≠ "" ∧ name ≠ here ∧ '/' ∉ name.toList := ⟨leads.1, leads.2, noSlash⟩
    split
    next isUp =>
      rcases List.eq_nil_or_concat names with rfl | ⟨others, last, rfl⟩
      · rw [List.getLast?_nil]
        cases isAbsolute with
        | true => exact clean
        | false => exact clean.concat (isUp ▸ isNamed) fun _ => ⟨rfl, by simp⟩
      · rw [List.concat_eq_append] at clean ⊢
        rw [List.getLast?_concat]
        dsimp only
        split
        next isLastUp =>
          obtain ⟨isRelative, allUp⟩ := clean.ups others [] (by rw [isLastUp])
          refine clean.concat (isUp ▸ isNamed) fun _ => ⟨isRelative, fun other member => ?_⟩
          rcases List.mem_append.mp member with member | member
          · exact allUp other member
          · exact (List.mem_singleton.mp member).trans isLastUp
        · rw [List.dropLast_concat]
          exact clean.init
    next leadsDown => exact clean.concat isNamed fun isUp => (leadsDown isUp).elim

theorem steps
    (clean : Clean ⟨isAbsolute, names⟩)
    (noSlash : ∀ name ∈ way, '/' ∉ name.toList) :
    Clean ⟨isAbsolute, way.foldl (Path.step isAbsolute) names⟩ := by
  induction way generalizing names with
  | nil => exact clean
  | cons name rest inductionHypothesis =>
      exact inductionHypothesis (clean.step (noSlash name (by simp))) fun other member =>
        noSlash other (List.mem_cons_of_mem _ member)

theorem parse
    (text : String) :
    (parse text).Clean :=
  (empty _).steps fun _ => not_mem_steps

theorem extend
    {path : Path}
    (clean : path.Clean)
    (text : String) :
    (path.extend text).Clean :=
  clean.steps fun _ => not_mem_steps

/-- Names in cleaned form are taken as they are. -/
theorem foldl_step
    (clean : Clean ⟨isAbsolute, names⟩) :
    names.foldl (Path.step isAbsolute) [] = names := by
  induction names using List.reverseRecOn with
  | nil => rfl
  | append_singleton names name inductionHypothesis =>
      obtain ⟨notEmpty, notHere, _⟩ := clean.named name (by simp)
      rw [List.foldl_append, inductionHypothesis clean.init, List.foldl_cons, List.foldl_nil,
        Path.step, if_neg (by simp [notEmpty, notHere])]
      split
      next isUp =>
        obtain ⟨isRelative, allUp⟩ := clean.ups names [] (by rw [isUp])
        replace isRelative : isAbsolute = false := isRelative
        split
        next none =>
          rw [List.getLast?_eq_none_iff.mp none, isRelative, isUp]
          rfl
        next last isLast =>
          rw [if_pos (allUp last (List.mem_of_getLast? isLast)), isUp]
      · rfl

end Clean

/-- A cleaned path is what its text leads to. -/
theorem parse_text
    {path : Path}
    (clean : path.Clean) :
    parse path.text = path := by
  obtain ⟨isAbsolute, names⟩ := path
  have noSlash : ∀ name ∈ names, '/' ∉ name.toList := fun name member =>
    (clean.named name member).2.2
  have taken : names.foldl (step isAbsolute) [] = names := clean.foldl_step
  unfold text parse
  cases isAbsolute with
  | true =>
      have isRoot : startsAtRoot ("/" ++ "/".intercalate names) = true := by
        simp [startsAtRoot]
      simp only [if_true, isRoot, steps_slash, List.foldl_cons]
      by_cases none : names = []
      · subst none
        rfl
      · rw [steps_intercalate none noSlash]
        exact congrArg _ taken
  | false =>
      cases names with
      | nil => rfl
      | cons first rest =>
          have named : (first :: rest) ≠ [] := List.cons_ne_nil _ _
          have isRelative : startsAtRoot ("/".intercalate (first :: rest)) = false := by
            obtain ⟨notEmpty, _, noSlashFirst⟩ := clean.named first (List.mem_cons_self ..)
            exact startsAtRoot_intercalate notEmpty noSlashFirst rest
          simp only [Bool.false_eq_true, if_false, List.isEmpty_cons, isRelative]
          rw [steps_intercalate named noSlash]
          exact congrArg _ taken

theorem text_injective
    {path other : Path}
    (clean : path.Clean)
    (otherClean : other.Clean)
    (same : path.text = other.text) :
    path = other := by
  rw [← parse_text clean, ← parse_text otherClean, same]

/-- The text of a path ends with its last name. -/
theorem text_append
    (isAbsolute : Bool)
    (names : List String)
    (stem tail : String) :
    text ⟨isAbsolute, names ++ [stem ++ tail]⟩ = text ⟨isAbsolute, names ++ [stem]⟩ ++ tail := by
  have joined : "/".intercalate (names ++ [stem ++ tail]) =
      "/".intercalate (names ++ [stem]) ++ tail := by
    by_cases none : names = []
    · simp [none]
    · rw [String.intercalate_append_of_ne_nil none (by simp),
        String.intercalate_append_of_ne_nil none (by simp), String.intercalate_singleton,
        String.intercalate_singleton, String.append_assoc, String.append_assoc, String.append_assoc]
  unfold text
  cases isAbsolute <;> simp [joined, String.append_assoc]

/-- A path leads from a directory on to something inside it. -/
structure IsBelow (path directory : Path) : Prop where
  start : path.isAbsolute = directory.isAbsolute
  way : ∃ way, way ≠ [] ∧ up ∉ way ∧ path.names = directory.names ++ way

theorem isBelow_concat
    {directory : Path}
    (noUp : up ∉ names)
    (notUp : name ≠ up) :
    IsBelow ⟨directory.isAbsolute, directory.names ++ names ++ [name]⟩ directory where
  start := rfl
  way := ⟨names ++ [name], by simp, by simp [noUp, Ne.symm notUp], List.append_assoc ..⟩

end IlsCompiler.Path
