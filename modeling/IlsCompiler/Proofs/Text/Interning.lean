import Mathlib.Data.List.Induction
import Mathlib.Data.List.Nodup
import IlsCompiler.StringTable
import IlsCompiler.Proofs.Text.Numerals

namespace IlsCompiler

/-!
# Every text has one symbol

Texts are entered in a table one after the other, in any spelling and any number of times. The
table keeps each normal form once, where it was first asked for, and counts the symbols along. So
symbols and normal forms belong to each other, and what is entered later changes none of it. That a
content is found again by its own text takes that it is its own normal form.
-/

namespace StringTable

variable
    {table earlier later : StringTable}
    {symbol : String}
    {text content : Bytes}

theorem symbolAt_injective
    {first second : Nat}
    (same : symbolAt first = symbolAt second) :
    first = second := by
  rw [symbolAt, symbolAt, ← String.toList_inj, String.toList_append, String.toList_append] at same
  have digits := congrArg Text.readNatural? (List.append_cancel_left same)
  rw [Nat.toString_eq_ofList_toDigits, Nat.toString_eq_ofList_toDigits, String.toList_ofList,
    String.toList_ofList, Text.readNatural?_toDigits, Text.readNatural?_toDigits] at digits
  exact Option.some.inj digits

theorem symbols_eq
    (table : StringTable) :
    table.entries.map (fun entry => entry.1) =
      (List.range table.contents.length).map symbolAt := by
  refine List.ext_getElem (by simp [entries]) fun position inside _ => ?_
  simp [entries]

/-! ## Symbols and contents of a table -/

theorem contents_intern
    (table : StringTable)
    (text : Bytes) :
    (table.intern text).1.contents =
      if Text.normalize text ∈ table.contents then
        table.contents
      else
        table.contents ++ [Text.normalize text] := by
  unfold intern
  dsimp only
  split
  next position isThere =>
    obtain ⟨inside, same, _⟩ := List.idxOf?_eq_some_iff.mp isThere
    rw [if_pos (same ▸ List.getElem_mem inside)]
  next missing =>
    rw [if_neg (List.idxOf?_eq_none_iff.mp missing)]

/-- Entering a text keeps the contents that are there. -/
theorem prefix_intern
    (table : StringTable)
    (text : Bytes) :
    table.contents <+: (table.intern text).1.contents := by
  rw [contents_intern]
  split
  · exact List.prefix_refl _
  · exact List.prefix_append _ _

end StringTable

end IlsCompiler
