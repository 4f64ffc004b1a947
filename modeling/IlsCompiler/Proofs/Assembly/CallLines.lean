import IlsCompiler.Assembly.Emission
import IlsCompiler.Proofs.Stateful

namespace IlsCompiler

/-!
# The call lines of a body

The code of a function grows by lines, and a move that turns out useless is taken
back. A call is never taken back, nor is the line that is kept free for the frame, so
the calls of a body can be read off its lines at any time.
-/

/-- The routine that a line calls. -/
def Line.called? : Line → Option String
  | .instruction (.call name) => some name
  | _ => none

/-- The place that a line moves something to. -/
def Line.target? (line : Line) : Option String :=
  (Move.parse? (Move.withoutTab line.text)).map Prod.fst

namespace Move

@[simp] theorem withoutTab_text
    (instruction : Instruction) :
    withoutTab (Line.text (.instruction instruction)) = instruction.text := by
  simp [withoutTab, Line.text]

/-- A line is taken back only for a move to the same place. -/
theorem target?_of_isRedundant
    {last : Line}
    {instruction : Instruction}
    (redundant : isRedundant last.text instruction.text = true) :
    last.target?.isSome ∧ Line.target? (.instruction instruction) = last.target? := by
  unfold isRedundant at redundant
  unfold Line.target?
  rw [withoutTab_text]
  split at redundant
  next firstTarget _ target source first second =>
    by_cases same : firstTarget = target
    · simp [first, second, same]
    · simp [same] at redundant
  · cases redundant

/-- Only a line that starts with `mov` can be taken back. -/
theorem mov_of_isRedundant
    {previous next : String}
    (redundant : isRedundant previous next = true) :
    ∃ rest, afterStart? "mov ".toList (withoutTab previous).toList = some rest := by
  unfold isRedundant at redundant
  cases parsed : parse? (withoutTab previous) with
  | none => simp [parsed] at redundant
  | some operands =>
      unfold parse? at parsed
      cases start : afterStart? "mov ".toList (withoutTab previous).toList with
      | none =>
          rw [start] at parsed
          cases parsed
      | some rest => exact ⟨rest, rfl⟩

/-- A call is never taken back. -/
theorem not_redundant_call
    (name next : String) :
    isRedundant (Line.text (.instruction (.call name))) next = false := by
  apply eq_false_of_ne_true
  intro redundant
  obtain ⟨rest, start⟩ := mov_of_isRedundant redundant
  have written : (Line.text (.instruction (.call name))).toList =
      '\t' :: 'c' :: 'a' :: 'l' :: 'l' :: ' ' :: name.toList := by
    simp [Line.text, Instruction.text, String.toList_append]
  simp [withoutTab, written, afterStart?] at start

end Move

namespace Body

/-- The routines that the lines of a body call, in order. -/
def calls (body : Body) : List String :=
  body.lines.toList.filterMap Line.called?

@[simp] theorem calls_push
    (lines : Array Line)
    (line : Line) :
    calls ⟨lines.push line⟩ = calls ⟨lines⟩ ++ line.called?.toList := by
  unfold calls
  simp only [Array.toList_push, List.filterMap_append]
  cases known : line.called? <;> simp [known]

/-- An instruction adds its own call to those of the body. -/
@[simp] theorem calls_add
    (body : Body)
    (instruction : Instruction) :
    (body.add instruction).calls =
      body.calls ++ (Line.called? (.instruction instruction)).toList := by
  unfold add
  split
  next last found =>
    split
    next redundant =>
      have noCall : last.called? = none := by
        unfold Line.called?
        split
        next name => simp [Move.not_redundant_call] at redundant
        next => rfl
      have nonempty : body.lines.size ≠ 0 := by
        intro empty
        simp [Array.back?_eq_getElem?, empty] at found
      obtain ⟨front, other, lines⟩ := Array.eq_push_of_size_ne_zero nonempty
      have isLast : other = last := by
        simpa [lines] using found
      subst isLast
      have same : calls ⟨body.lines.pop⟩ = body.calls := by
        show _ = calls ⟨body.lines⟩
        rw [lines, Array.pop_push, calls_push, noCall]
        simp
      rw [calls_push, same]
    next => rw [calls_push]
  next => rw [calls_push]

@[simp] theorem calls_label
    (body : Body)
    (name : String) :
    (body.label name).calls = body.calls := by
  simp [label, Line.called?]

/--
A later body keeps the lines of an earlier one; only the last of them may have been taken
back, for another move to the same place.
-/
def Keeps (before after : Body) : Prop :=
  before.lines.toList <+: after.lines.toList ∨
    ∃ front last next,
      before.lines.toList = front ++ [last] ∧ front ++ [next] <+: after.lines.toList ∧
        last.target?.isSome ∧ next.target? = last.target?

variable
    {position : Nat}

namespace Keeps

theorem refl
    (body : Body) :
    body.Keeps body :=
  .inl (List.prefix_refl _)

theorem trans
    {first second third : Body}
    (earlier : first.Keeps second)
    (later : second.Keeps third) :
    first.Keeps third := by
  rcases earlier with whole | ⟨front, last, next, isFirst, inSecond, isMove, same⟩
  · rcases later with more | ⟨front, last, next, isSecond, inThird, isMove, same⟩
    · exact .inl (whole.trans more)
    · rw [isSecond, List.prefix_concat_iff] at whole
      rcases whole with all | shorter
      · exact .inr ⟨front, last, next, all, inThird, isMove, same⟩
      · exact .inl (shorter.trans ((List.prefix_append _ _).trans inThird))
  · rcases later with more | ⟨others, other, another, isSecond, inThird, _, sameOther⟩
    · exact .inr ⟨front, last, next, isFirst, inSecond.trans more, isMove, same⟩
    · rw [isSecond, List.prefix_concat_iff] at inSecond
      rcases inSecond with all | shorter
      · obtain ⟨rfl, rfl⟩ : front = others ∧ next = other := by
          simpa using all
        exact .inr ⟨front, last, another, isFirst, inThird, isMove, sameOther.trans same⟩
      · exact .inr ⟨front, last, next, isFirst,
          shorter.trans ((List.prefix_append _ _).trans inThird), isMove, same⟩

/-- What stands up to the free line is kept. -/
theorem take_of_blank
    {before after : Body}
    (kept : before.Keeps after)
    {position : Nat}
    (free : before.lines[position]? = some .blank) :
    after.lines.toList.take (position + 1) = before.lines.toList.take (position + 1) := by
  have inside : position < before.lines.toList.length := by
    simpa using (Array.getElem?_eq_some_iff.mp free).1
  rcases kept with whole | ⟨front, last, next, isBefore, inAfter, isMove, _⟩
  · obtain ⟨more, same⟩ := whole
    rw [← same, List.take_append_of_le_length inside]
  · -- The line that was taken back is a move, so it stands behind the free line.
    have short : position < front.length := by
      rw [isBefore, List.length_append, List.length_singleton] at inside
      rcases Nat.lt_or_eq_of_le (Nat.le_of_lt_succ inside) with less | isLast
      · exact less
      · have found : before.lines.toList[position]? = some last := by
          simp [isBefore, isLast]
        rw [Array.getElem?_toList, free] at found
        cases found
        cases isMove
    obtain ⟨more, same⟩ := inAfter
    rw [isBefore, ← same, List.append_assoc, List.take_append_of_le_length short,
      List.take_append_of_le_length short]

theorem blank
    {before after : Body}
    (kept : before.Keeps after)
    (free : before.lines[position]? = some .blank) :
    after.lines[position]? = some .blank := by
  have here : (after.lines.toList.take (position + 1))[position]? =
      (before.lines.toList.take (position + 1))[position]? := by
    rw [kept.take_of_blank free]
  simpa [List.getElem?_take, free] using here

/-- Lines that follow keep everything in front of them. -/
theorem push
    (lines : Array Line)
    (line : Line) :
    Keeps ⟨lines⟩ ⟨lines.push line⟩ :=
  .inl (by simp)

theorem add
    (body : Body)
    (instruction : Instruction) :
    body.Keeps (body.add instruction) := by
  unfold Body.add
  split
  next last found =>
    split
    next redundant =>
      obtain ⟨isMove, same⟩ := Move.target?_of_isRedundant redundant
      obtain ⟨front, lines⟩ : ∃ front, body.lines.toList = front ++ [last] :=
        List.getLast?_eq_some_iff.mp (by simpa using found)
      exact .inr ⟨front, last, .instruction instruction, lines, by simp [lines], isMove, same⟩
    next => exact push _ _
  next => exact push _ _

theorem label
    (body : Body)
    (name : String) :
    body.Keeps (body.label name) :=
  push _ _

end Keeps

/-- Filling a free line with lines that call nothing keeps the calls. -/
theorem calls_fill
    {body : Body}
    {filling : List Line}
    (blank : body.lines[position]? = some .blank)
    (silent : ∀ line ∈ filling, line.called? = none) :
    (body.fill position filling).calls = body.calls := by
  have inside : position < body.lines.toList.length := by
    simpa using (Array.getElem?_eq_some_iff.mp blank).1
  have here : body.lines.toList[position]? = some .blank := by
    simpa using blank
  have split : body.lines.toList =
      body.lines.toList.take position ++ .blank :: body.lines.toList.drop (position + 1) := by
    have found := List.getElem?_eq_some_iff.mp here
    rw [← found.2, ← List.drop_eq_getElem_cons inside, List.take_append_drop]
  have noCalls : filling.filterMap Line.called? = [] := by
    exact List.filterMap_eq_nil_iff.mpr silent
  have whole : (body.lines.toList.drop (position + 1)).take
      (body.lines.size - (position + 1)) = body.lines.toList.drop (position + 1) := by
    apply List.take_of_length_le
    simp
  unfold calls fill
  conv => rhs; rw [split]
  simp [List.filterMap_append, List.filterMap_cons, noCalls, whole, Line.called?]

end Body

end IlsCompiler
