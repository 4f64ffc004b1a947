import Mathlib.Data.List.Nodup
import Mathlib.Data.List.TakeWhile
import IlsCompiler.Build.Output
import IlsCompiler.Proofs.Files.Paths

namespace IlsCompiler

/-!
# Builds write to places of their own

The name of a source within the output directory never leads up, whatever the source and the base
directory are, and its last part gets the extension. So every place lies inside the directory, and
two files that are written, of one source or of two, never share a place.
-/

namespace Path

/-! ## Extensions -/

theorem reversedExtension_eq_some
    {chars found : List Char}
    (isExtension : reversedExtension chars = some found) :
    '/' ∉ found ∧ ∃ rest, chars = found ++ rest := by
  induction chars generalizing found with
  | nil => simp [reversedExtension] at isExtension
  | cons value rest inductionHypothesis =>
      rw [reversedExtension] at isExtension
      split at isExtension
      · simp at isExtension
      next noSlash =>
        split at isExtension
        next isDot =>
          obtain rfl := Option.some.inj isExtension
          exact ⟨by decide, rest, by rw [isDot]; rfl⟩
        · obtain ⟨behind, isBehind, rfl⟩ := Option.map_eq_some_iff.mp isExtension
          obtain ⟨noMore, others, rfl⟩ := inductionHypothesis isBehind
          refine ⟨?_, others, rfl⟩
          rw [List.mem_cons, not_or]
          exact ⟨Ne.symm noSlash, noMore⟩

/-- What is taken away as the extension of a text has no slash. -/
theorem withoutExtension_append
    (text : String) :
    ∃ tail : String, '/' ∉ tail.toList ∧ text = withoutExtension text ++ tail := by
  obtain ⟨noSlash, rest, split⟩ : '/' ∉ (reversedExtension text.toList.reverse).getD [] ∧
      ∃ rest, text.toList.reverse = (reversedExtension text.toList.reverse).getD [] ++ rest := by
    cases found : reversedExtension text.toList.reverse with
    | none => exact ⟨by simp, _, rfl⟩
    | some extension => exact reversedExtension_eq_some found
  have whole : text.toList =
      rest.reverse ++ ((reversedExtension text.toList.reverse).getD []).reverse := by
    rw [← List.reverse_append, ← split, List.reverse_reverse]
  have kept : text.length - (extension text).length = rest.reverse.length := by
    rw [extension, String.length_ofList, ← String.length_toList, whole, List.length_append,
      ← whole, Nat.add_sub_cancel]
  refine ⟨extension text, by simpa [extension] using noSlash, ?_⟩
  rw [← String.toList_inj, String.toList_append, withoutExtension, kept, extension,
    String.toList_ofList, String.toList_ofList]
  conv_lhs => rw [whole]
  conv_rhs => rw [whole, List.take_left, ← whole]

variable
    {extension : String}

/-- A text with another extension takes the same steps up to the last one. -/
theorem steps_withoutExtension
    (text : String)
    (noSlash : '/' ∉ extension.toList) :
    ∃ stem, '/' ∉ stem.toList ∧
      steps (withoutExtension text ++ extension) =
        (steps text).dropLast ++ [stem ++ extension] := by
  obtain ⟨tail, noSlashTail, same⟩ := withoutExtension_append text
  obtain ⟨front, last, split, longer⟩ := steps_append (withoutExtension text)
  refine ⟨last, not_mem_steps (split ▸ List.mem_append_right _ (List.mem_singleton_self _)), ?_⟩
  rw [longer extension noSlash]
  conv_rhs => rw [same, longer tail noSlashTail, List.dropLast_concat]

/-- A name with an extension that does not end with a dot leads down. -/
theorem extended_leads_down
    {last : Char}
    (ends : extension.toList.getLast? = some last)
    (noDot : last ≠ '.')
    (stem : String) :
    stem ++ extension ≠ "" ∧ stem ++ extension ≠ here ∧ stem ++ extension ≠ up := by
  have isLast : (stem ++ extension).toList.getLast? = some last := by
    rw [String.toList_append, List.getLast?_append, ends, Option.some_or]
  refine ⟨fun same => ?_, fun same => ?_, fun same => ?_⟩
  · rw [same] at isLast
    simp at isLast
  · rw [same] at isLast
    exact noDot (Option.some.inj isLast).symm
  · rw [same] at isLast
    exact noDot (Option.some.inj isLast).symm

/-! ## Names within a directory -/

/-- The name at the end of a text is a single step. -/
theorem up_not_mem_lastName
    (text : String) :
    up ∉ (steps (lastName text)).dropLast := by
  unfold lastName
  split
  · decide
  · split
    · decide
    next name _ =>
      rw [steps_of_not_mem]
      · simp
      · rw [String.toList_ofList, List.mem_reverse]
        intro isSlash
        exact absurd (List.mem_takeWhile_imp isSlash) (by simp)

theorem behindCommon_append
    (names others : List String) :
    ∃ common, names = common ++ (behindCommon names others).1 ∧
      others = common ++ (behindCommon names others).2 := by
  induction names generalizing others with
  | nil => exact ⟨[], by simp [behindCommon]⟩
  | cons name names inductionHypothesis =>
      cases others with
      | nil => exact ⟨[], by simp [behindCommon]⟩
      | cons other others =>
          rw [behindCommon]
          split
          next same =>
            obtain ⟨common, left, right⟩ := inductionHypothesis others
            exact ⟨name :: common, congrArg _ left, same ▸ congrArg _ right⟩
          · exact ⟨[], rfl, rfl⟩

theorem up_isPrefixOf
    (names : List String) :
    up.toList.isPrefixOf ("/".intercalate (up :: names)).toList = true := by
  obtain ⟨more, same⟩ := intercalate_cons up names
  rw [same, String.toList_append]
  simp

/-- The steps to a cleaned path lead up only behind steps that do so too. -/
theorem targetSteps_clean
    {target : Path}
    (clean : target.Clean) :
    (∀ name ∈ target.targetSteps, '/' ∉ name.toList) ∧
      ∀ front behind, target.targetSteps = front ++ up :: behind → ∀ name ∈ front, name = up := by
  unfold targetSteps
  split
  · exact ⟨fun name member => (clean.named name member).2.2, fun front behind split =>
      (clean.ups front behind split).2⟩
  · refine ⟨by decide, fun front behind split => ?_⟩
    have member : up ∈ [here] := split ▸ List.mem_append_right _ (List.mem_cons_self ..)
    exact absurd member (by decide)

/-- A way that does not start by leading up never leads up. -/
theorem up_not_mem_relative
    {directory target : Path}
    {way : String}
    (clean : target.Clean)
    (isWay : relative? directory target = some way)
    (noUp : ¬ up.toList.isPrefixOf way.toList = true) :
    up ∉ (steps way).dropLast := by
  unfold relative? at isWay
  split at isWay
  · obtain rfl := Option.some.inj isWay
    decide
  · split at isWay
    · cases isWay
    · obtain ⟨common, _, behind⟩ := behindCommon_append directory.names target.targetSteps
      rcases sides : behindCommon directory.names target.targetSteps with ⟨left, right⟩
      rw [sides] at isWay behind
      dsimp only at isWay
      split at isWay
      · cases isWay
      · obtain rfl := Option.some.inj isWay
        cases left with
        | cons first left => exact absurd (up_isPrefixOf _) noUp
        | nil =>
            rw [List.map_nil, List.nil_append] at noUp ⊢
            obtain ⟨noSlash, upsFirst⟩ := targetSteps_clean clean
            have noUpInside : up ∉ right := by
              intro member
              obtain ⟨front, others, split⟩ := List.append_of_mem member
              cases front with
              | nil => exact noUp (split ▸ up_isPrefixOf others)
              | cons first front =>
                  have isUp : first = up := upsFirst (common ++ first :: front) others
                    (by rw [behind, split, List.append_assoc]) first (by simp)
                  exact noUp (by rw [split, isUp]; exact up_isPrefixOf _)
            by_cases none : right = []
            · rw [none]
              decide
            · rw [steps_intercalate none fun name member =>
                noSlash name (behind ▸ List.mem_append_right _ member)]
              exact fun member => noUpInside (List.dropLast_subset _ member)

end Path

namespace Output

/-- What a source is called within the output directory leads down. -/
theorem up_not_mem_nameWithin
    (baseDir file : String) :
    Path.up ∉ (Path.steps (nameWithin baseDir file)).dropLast := by
  unfold nameWithin
  split
  · exact Path.up_not_mem_lastName file
  · split
    next way isWay =>
      split
      · exact Path.up_not_mem_lastName file
      next noUp => exact Path.up_not_mem_relative (.parse file) isWay noUp
    · exact Path.up_not_mem_lastName file

variable
    {outDir : String}

/-- A source is written inside the output directory, with the extension of assembly files. -/
theorem place_shape
    (named : outDir ≠ "")
    (baseDir file : String) :
    (place baseDir outDir file).Clean ∧
      ∃ way stem, Path.up ∉ way ∧ '/' ∉ stem.toList ∧
        place baseDir outDir file = ⟨(Path.parse outDir).isAbsolute,
          (Path.parse outDir).names ++ way ++ [stem ++ assemblyExtension]⟩ := by
  have isExtended : place baseDir outDir file = (Path.parse outDir).extend
      (Path.withoutExtension (nameWithin baseDir file) ++ assemblyExtension) := by
    rw [place, Path.join, if_neg named]
  refine ⟨isExtended ▸ (Path.Clean.parse outDir).extend _, ?_⟩
  obtain ⟨stem, noSlash, steps⟩ := Path.steps_withoutExtension (nameWithin baseDir file)
    (show '/' ∉ assemblyExtension.toList by decide)
  obtain ⟨notEmpty, notHere, notUp⟩ := Path.extended_leads_down
    (show assemblyExtension.toList.getLast? = some 'm' by decide) (by decide) stem
  have noUp := up_not_mem_nameWithin baseDir file
  refine ⟨(Path.steps (nameWithin baseDir file)).dropLast.filter
    fun name => !(name = "" || name = Path.here), stem,
    fun member => noUp (List.mem_filter.mp member).1, noSlash, ?_⟩
  rw [isExtended, Path.extend, steps, Path.foldl_step_of_not_mem, List.filter_append,
    List.filter_cons_of_pos (by simp [notEmpty, notHere]), List.filter_nil, List.append_assoc]
  simpa [noUp] using Ne.symm notUp

theorem listingText_append
    (stem : String) :
    listingText (stem ++ assemblyExtension) = stem ++ listingExtension := by
  have isExtended :
      assemblyExtension.toList.isSuffixOf (stem ++ assemblyExtension).toList = true := by
    rw [String.toList_append, List.isSuffixOf_iff_suffix]
    exact List.suffix_append _ _
  have kept : (stem ++ assemblyExtension).length - assemblyExtension.length =
      stem.toList.length := by
    rw [String.length_append, Nat.add_sub_cancel, String.length_toList]
  rw [listingText, if_pos isExtended, kept, String.toList_append, List.take_left,
    String.ofList_toList]

/-- The listing of a source is written beside its assembly text, and both inside the directory. -/
theorem place_inside
    (named : outDir ≠ "")
    (baseDir file : String) :
    ∃ text, (place baseDir outDir file).text = text ++ assemblyExtension ∧
      listingText (place baseDir outDir file).text = text ++ listingExtension ∧
      (Path.parse (place baseDir outDir file).text).IsBelow (Path.parse outDir) ∧
      (Path.parse (listingText (place baseDir outDir file).text)).IsBelow (Path.parse outDir) := by
  obtain ⟨clean, way, stem, noUp, noSlash, shape⟩ := place_shape named baseDir file
  have assembly := Path.parse_text clean
  obtain ⟨_, _, assemblyDown⟩ := Path.extended_leads_down
    (show assemblyExtension.toList.getLast? = some 'm' by decide) (by decide) stem
  obtain ⟨notEmpty, notHere, listingDown⟩ := Path.extended_leads_down
    (show listingExtension.toList.getLast? = some 'r' by decide) (by decide) stem
  rw [shape] at clean
  have listing := Path.parse_text (clean.init.concat
    ⟨notEmpty, notHere, by simp [noSlash, show '/' ∉ listingExtension.toList by decide]⟩
    fun isUp => (listingDown isUp).elim)
  rw [Path.text_append] at listing
  rw [assembly, shape, Path.text_append, listingText_append, listing]
  exact ⟨_, rfl, rfl, Path.isBelow_concat noUp assemblyDown, Path.isBelow_concat noUp listingDown⟩

theorem place_text_injective
    (named : outDir ≠ "")
    {baseDir first second : String}
    (same : (place baseDir outDir first).text = (place baseDir outDir second).text) :
    place baseDir outDir first = place baseDir outDir second :=
  Path.text_injective (place_shape named baseDir first).1 (place_shape named baseDir second).1 same

/-! ## All places -/

/-- Places are found exactly where no two sources share one, and none is taken. -/
theorem placesAfter_eq_ok_iff
    (baseDir outDir : String)
    (taken : List (Path × String))
    (files : List String)
    (places : List Path) :
    placesAfter baseDir outDir taken files = .ok places ↔
      places = files.map (place baseDir outDir) ∧ places.Nodup ∧
        ∀ target ∈ places, taken.lookup target = none := by
  induction files generalizing taken places with
  | nil =>
      rw [placesAfter, Except.ok.injEq, List.map_nil]
      constructor
      · rintro rfl
        simp
      · exact fun given => given.1.symm
  | cons file rest inductionHypothesis =>
      have isFree : ∀ target, ((place baseDir outDir file, file) :: taken).lookup target = none ↔
          target ≠ place baseDir outDir file ∧ taken.lookup target = none := by
        intro target
        rw [List.lookup_cons]
        by_cases same : target = place baseDir outDir file
        · simp [same]
        · rw [beq_eq_false_iff_ne.mpr same]
          simp [same]
      have behind := inductionHypothesis ((place baseDir outDir file, file) :: taken)
      simp only [isFree] at behind
      rw [placesAfter, List.map_cons]
      cases known : taken.lookup (place baseDir outDir file) with
      | some first =>
          constructor
          · rintro ⟨⟩
          · rintro ⟨rfl, _, free⟩
            rw [free _ (List.mem_cons_self ..)] at known
            cases known
      | none =>
          dsimp only
          constructor
          · intro found
            cases others : placesAfter baseDir outDir ((place baseDir outDir file, file) :: taken)
                rest with
            | error collision =>
                rw [others] at found
                cases found
            | ok targets =>
                rw [others] at found
                obtain rfl := Except.ok.inj found
                obtain ⟨rfl, distinct, free⟩ := (behind targets).mp others
                have isNew := fun member => (free (place baseDir outDir file) member).1 rfl
                refine ⟨rfl, List.nodup_cons.mpr ⟨isNew, distinct⟩, ?_⟩
                exact List.forall_mem_cons.mpr ⟨known, fun target member => (free target member).2⟩
          · rintro ⟨rfl, distinct, free⟩
            obtain ⟨isNew, distinct⟩ := List.nodup_cons.mp distinct
            rw [(behind _).mpr ⟨rfl, distinct, fun target member =>
              ⟨fun same => isNew (same ▸ member), free target (List.mem_cons_of_mem _ member)⟩⟩]

theorem places_eq_ok_iff
    (files : List String)
    (baseDir outDir : String)
    (places : List Path) :
    Output.places files baseDir outDir = .ok places ↔
      places = files.map (place baseDir outDir) ∧ places.Nodup := by
  simp [Output.places, placesAfter_eq_ok_iff]

/-- Files that a build writes inside a directory, each of them in a place of its own. -/
structure Apart (outDir : String) (places : List Path) : Prop where
  assemblies : (places.map Path.text).Nodup
  listings : (places.map fun place => listingText place.text).Nodup
  disjoint : ∀ place ∈ places, ∀ other ∈ places, listingText place.text ≠ other.text
  assembliesInside : ∀ place ∈ places, (Path.parse place.text).IsBelow (Path.parse outDir)
  listingsInside : ∀ place ∈ places,
    (Path.parse (listingText place.text)).IsBelow (Path.parse outDir)

/--
A build that has an output directory writes to places of their own inside it, or refuses because two
sources have one place.
-/
theorem places_apart_inside
    (files : List String)
    (baseDir : String)
    {outDir : String}
    (named : outDir ≠ "") :
    (∀ places, Output.places files baseDir outDir = .ok places →
      places = files.map (place baseDir outDir) ∧ Apart outDir places) ∧
    ((∃ collision, Output.places files baseDir outDir = .error collision) ↔
      ¬ (files.map fun file => (place baseDir outDir file).text).Nodup) := by
  have distinct_iff : (files.map fun file => (place baseDir outDir file).text).Nodup ↔
      (files.map (place baseDir outDir)).Nodup := by
    have texts : (files.map fun file => (place baseDir outDir file).text) =
        (files.map (place baseDir outDir)).map Path.text := by simp
    refine ⟨fun distinct => (texts ▸ distinct).of_map, fun distinct => texts ▸ distinct.map_on ?_⟩
    intro first isFirst second isSecond same
    obtain ⟨_, _, rfl⟩ := List.mem_map.mp isFirst
    obtain ⟨_, _, rfl⟩ := List.mem_map.mp isSecond
    exact place_text_injective named same
  constructor
  · intro places found
    obtain ⟨rfl, distinct⟩ := (places_eq_ok_iff files baseDir outDir places).mp found
    refine ⟨rfl, ?_⟩
    constructor
    case assemblies =>
      rw [List.map_map]
      exact distinct_iff.mpr distinct
    case listings =>
      refine distinct.map_on fun first isFirst second isSecond same => ?_
      obtain ⟨source, _, rfl⟩ := List.mem_map.mp isFirst
      obtain ⟨other, _, rfl⟩ := List.mem_map.mp isSecond
      obtain ⟨text, isText, isListing, _⟩ := place_inside named baseDir source
      obtain ⟨otherText, isOther, isOtherListing, _⟩ := place_inside named baseDir other
      rw [isListing, isOtherListing, String.append_left_inj] at same
      exact place_text_injective named (by rw [isText, isOther, same])
    case disjoint =>
      intro first isFirst second isSecond same
      obtain ⟨source, _, rfl⟩ := List.mem_map.mp isFirst
      obtain ⟨other, _, rfl⟩ := List.mem_map.mp isSecond
      obtain ⟨text, _, isListing, _⟩ := place_inside named baseDir source
      obtain ⟨otherText, isOther, _⟩ := place_inside named baseDir other
      rw [isListing, isOther] at same
      have lasts := congrArg (fun text => text.toList.getLast?) same
      simp [listingExtension, assemblyExtension] at lasts
    case assembliesInside =>
      refine List.forall_mem_map.mpr fun source _ => ?_
      obtain ⟨_, _, _, isInside, _⟩ := place_inside named baseDir source
      exact isInside
    case listingsInside =>
      refine List.forall_mem_map.mpr fun source _ => ?_
      obtain ⟨_, _, _, _, isInside⟩ := place_inside named baseDir source
      exact isInside
  · rw [distinct_iff]
    constructor
    · rintro ⟨collision, refused⟩ distinct
      have found := (places_eq_ok_iff files baseDir outDir _).mpr ⟨rfl, distinct⟩
      cases refused.symm.trans found
    · intro shared
      cases result : Output.places files baseDir outDir with
      | error collision => exact ⟨collision, rfl⟩
      | ok places =>
          obtain ⟨rfl, distinct⟩ := (places_eq_ok_iff files baseDir outDir places).mp result
          exact (shared distinct).elim

/-- Sources below the base directory keep their way from there, the one beside it only its name. -/
theorem mirrored_places_apart :
    "./out/../out" ≠ "" ∧ ∃ places,
      Output.places ["src/a.ils", "src/sub/a.x.ils", "src/..b", "../c.y"] "src" "./out/../out" =
        .ok places ∧
      places.map Path.text = ["out/a.asm", "out/sub/a.x.asm", "out/..asm", "out/c.asm"] ∧
      Apart "./out/../out" places := by
  have found : Output.places ["src/a.ils", "src/sub/a.x.ils", "src/..b", "../c.y"] "src"
      "./out/../out" = .ok [⟨false, ["out", "a.asm"]⟩, ⟨false, ["out", "sub", "a.x.asm"]⟩,
        ⟨false, ["out", "..asm"]⟩, ⟨false, ["out", "c.asm"]⟩] := by
    decide +kernel
  exact ⟨by decide, _, found, by decide +kernel,
    ((places_apart_inside _ "src" (by decide)).1 _ found).2⟩

end Output

end IlsCompiler
