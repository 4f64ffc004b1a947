import Mathlib.Data.List.Flatten
import Mathlib.Data.List.Induction
import Mathlib.Data.List.Nodup
import IlsCompiler.Build.Progress
import IlsCompiler.Build.Run

namespace IlsCompiler

/-!
# Steps of progress

A compilation takes its phases in order, so what a build tells of a file goes up the stages and ends
with its outcome. How far a file is shown to be depends on what was told of it alone. Only a file
that was served from the cache is told of in another order: it has its outcome first, and then it is
written like the others.
-/

/-! ## The phases of a compilation -/

namespace Compilation

variable
    {path : String}
    {passed : List Phase}
    {run : Compilation}

/-- A run of a file that was not served from the cache, with some of the phases that came up. -/
structure InOrder (path : String) (passed : List Phase) (run : Compilation) : Prop where
  path : run.compiled.path = path
  compiled : run.compiled.cached = false
  phases : (run.phases.map fun phase => phase.1).Sublist passed

/-- What a phase works on is the same file, and it adds no phase by itself. -/
structure Keeps (work : Compilation → Compilation) : Prop where
  path : ∀ run, (work run).compiled.path = run.compiled.path
  cached : ∀ run, (work run).compiled.cached = run.compiled.cached
  phases : ∀ run, (work run).phases = run.phases

theorem keeps_fail
    (failure : Failure) :
    Keeps fun run => run.fail failure := by
  constructor <;> intro run <;> unfold fail <;> split <;> rfl

theorem keeps_parsed
    (reading : Reading) :
    Keeps (parsed reading) :=
  ⟨fun _ => rfl, fun _ => rfl, fun _ => rfl⟩

theorem keeps_afterLowering
    (lowering : Lowering) :
    Keeps (afterLowering lowering) := by
  unfold afterLowering
  cases lowering.result with
  | ok listing => exact ⟨fun _ => rfl, fun _ => rfl, fun _ => rfl⟩
  | error failure =>
      have keeps := keeps_fail failure
      exact ⟨fun _ => keeps.path _, fun _ => keeps.cached _, fun _ => keeps.phases _⟩

theorem keeps_afterPruning
    (options : CompileOptions)
    (listing : Listing)
    (pruned : Pruned) :
    Keeps (afterPruning options listing pruned) := by
  constructor <;> intro run <;> unfold afterPruning <;> dsimp only <;> split <;> rfl

theorem keeps_afterEmission
    (listing : Listing)
    (emission : Emission) :
    Keeps (afterEmission listing emission) := by
  unfold afterEmission
  cases emission.result with
  | ok text => exact ⟨fun _ => rfl, fun _ => rfl, fun _ => rfl⟩
  | error failure =>
      have keeps := keeps_fail failure
      exact ⟨fun _ => keeps.path _, fun _ => keeps.cached _, fun _ => keeps.phases _⟩

namespace InOrder

theorem mono
    {more : List Phase}
    (inOrder : InOrder path passed run)
    (longer : passed.Sublist more) :
    InOrder path more run :=
  { inOrder with phases := inOrder.phases.trans longer }

/-- A phase is left out, or it comes behind the others. -/
theorem inPhase
    (inOrder : InOrder path passed run)
    (phase : Phase)
    (cancelled : Cancellation)
    {work : Compilation → Compilation}
    (keeps : Keeps work) :
    InOrder path (passed ++ [phase]) (run.inPhase phase cancelled work) := by
  have left := inOrder.mono (List.sublist_append_left passed [phase])
  unfold Compilation.inPhase
  split
  · exact left
  · split
    · exact ⟨left.path, left.compiled, left.phases⟩
    · refine ⟨(keeps.path run).trans inOrder.path, (keeps.cached run).trans inOrder.compiled, ?_⟩
      rw [finish, keeps.phases, List.map_append]
      exact inOrder.phases.append (List.Sublist.refl _)

theorem ofSource
    (path : String)
    (source : Bytes)
    (options : CompileOptions)
    (cancelled : Cancellation) :
    InOrder path Phase.all (ofSource path source options cancelled) := by
  have start : InOrder path [] (start path options) := ⟨rfl, rfl, List.Sublist.refl _⟩
  have parsed := start.inPhase .parse cancelled (keeps_parsed (Reading.ofSource path source))
  unfold Compilation.ofSource
  dsimp only
  split
  · exact parsed.mono (by decide)
  · have lowered := parsed.inPhase .lower cancelled (keeps_afterLowering
      (Lowering.ofProgram (Reading.ofSource path source).program fun number =>
        cancelled (.function number)))
    unfold fromProgram
    dsimp only
    split
    next listing _ =>
      have pruned := lowered.inPhase .prune cancelled
        (keeps_afterPruning options listing (.ofListing listing))
      exact pruned.inPhase .emit cancelled (keeps_afterEmission listing _)
    · exact lowered.mono (by decide)

end InOrder

end Compilation

namespace BuildRun

/-- What is known of the run of a file: it is served from the cache, or takes phases in order. -/
theorem compileFile_cases
    (options : CompileOptions)
    (workspace : Workspace)
    (path : String) :
    let run := (compileFile options workspace path).1
    run.compiled.path = path ∧ (run.compiled.cached = true → run.compiled.failed = false ∧
      stages run = []) ∧ (stages run).Sublist [.parse, .lower, .prune, .emit] := by
  have inOrder {run : Compilation} (known : run.InOrder path Phase.all) :
      run.compiled.path = path ∧ (run.compiled.cached = true → run.compiled.failed = false ∧
        stages run = []) ∧ (stages run).Sublist [.parse, .lower, .prune, .emit] := by
    refine ⟨known.path, fun cached => ?_, ?_⟩
    · rw [known.compiled] at cached
      cases cached
    · have ranked := known.phases.map Stage.ofPhase
      rwa [List.map_map] at ranked
  unfold compileFile
  split
  · exact inOrder ⟨rfl, rfl, List.nil_sublist _⟩
  · dsimp only
    unfold CachedCompilation.ofSource
    split
    · exact inOrder (.ofSource ..)
    · split
      · exact ⟨rfl, fun _ => ⟨rfl, rfl⟩, List.nil_sublist _⟩
      · exact inOrder (.ofSource ..)
      · exact inOrder (.ofSource ..)

end BuildRun

/-! ## One file -/

namespace BuildEvent

/-- The share of a file that an event tells of. -/
def share (event : BuildEvent) : Nat :=
  FileProgress.share { path := event.file, stage := event.stage, status := event.status }

/-- An event is no error and tells of no more than another one. -/
def Before (event other : BuildEvent) : Prop :=
  event.status ≠ .error ∧ event.share ≤ other.share

end BuildEvent

variable
    {path : String}

namespace FileProgress

variable
    {file : FileProgress}
    {front back : List BuildEvent}
    {event : BuildEvent}

/-- Exactly the files that are finished have their whole share. -/
theorem share_cases
    (file : FileProgress) :
    file.share ≤ Stage.all.length ∧ (file.isFinished = true ↔ file.share = Stage.all.length) := by
  unfold share
  split
  next finished => exact ⟨Nat.le_refl _, iff_of_true finished rfl⟩
  next unfinished =>
    have short : stagesBehind file.stage file.status < Stage.all.length := by
      obtain ⟨path, stage, status⟩ := file
      cases status <;> cases stage <;>
        first | exact (unfinished rfl).elim | exact Nat.le_of_ble_eq_true rfl
    exact ⟨Nat.le_of_lt short, iff_of_false unfinished (Nat.ne_of_lt short)⟩

/-- A file after events about it. -/
def after (file : FileProgress) (events : List BuildEvent) : FileProgress :=
  events.foldl (fun current event => current.apply event) file

theorem after_concat
    (file : FileProgress)
    (events : List BuildEvent)
    (event : BuildEvent) :
    file.after (events ++ [event]) = (file.after events).apply event :=
  List.foldl_concat ..

@[simp] theorem path_apply
    (file : FileProgress)
    (event : BuildEvent) :
    (file.apply event).path = file.path := by
  unfold apply
  split <;> rfl

@[simp] theorem path_after
    (file : FileProgress)
    (events : List BuildEvent) :
    (file.after events).path = file.path := by
  induction events using List.reverseRecOn with
  | nil => rfl
  | append_singleton events event inductionHypothesis =>
      rw [after_concat, path_apply, inductionHypothesis]

/-- Behind events without an error a file is as far as the last one tells. -/
theorem after_last
    (fresh : file.status ≠ .error)
    (noError : ∀ other ∈ front, other.status ≠ .error)
    (event : BuildEvent) :
    file.after (front ++ [event]) =
      { path := file.path, stage := event.stage, status := event.status } := by
  induction front using List.reverseRecOn generalizing event with
  | nil => exact if_neg fresh
  | append_singleton front previous inductionHypothesis =>
      have before := inductionHypothesis
        (fun other member => noError other (List.mem_append_left _ member)) previous
      have goesOn : previous.status ≠ .error := noError previous (by simp)
      rw [after_concat, before]
      exact if_neg goesOn

/-- The share of a file does not decrease where its events tell of ever later stages. -/
theorem share_after_le
    (rising : (front ++ event :: back).Pairwise BuildEvent.Before) :
    (after { path := path } front).share ≤ (after { path := path } (front ++ [event])).share := by
  have fresh : ({ path := path } : FileProgress).status ≠ .error := Status.noConfusion
  obtain ⟨inFront, _, across⟩ := List.pairwise_append.mp rising
  rw [after_last fresh fun other member => (across other member event (by simp)).1]
  rcases List.eq_nil_or_concat front with rfl | ⟨init, previous, rfl⟩
  · exact Nat.zero_le _
  · rw [List.concat_eq_append] at inFront across ⊢
    obtain ⟨_, _, onto⟩ := List.pairwise_append.mp inFront
    rw [after_last fresh fun other member => (onto other member previous (by simp)).1]
    exact (across previous (by simp) event (by simp)).2

end FileProgress

namespace BuildRun

/-- The events of writing what was made of a file. -/
def writtenEvents (run : Compilation) : List BuildEvent :=
  if run.compiled.failed then [] else BuildEvent.through run.compiled.path .write

/-- What is told of a file in a build that ends. -/
def ownEvents (run : Compilation) : List BuildEvent :=
  .waiting run.compiled.path :: stageEvents run ++ outcomeEvents run ++ writtenEvents run

/-- All that can be told of a file without problems tells of ever later stages. -/
theorem through_rising
    (path : String) :
    (BuildEvent.waiting path :: Stage.all.flatMap (BuildEvent.through path)).Pairwise
      BuildEvent.Before := by
  have stages : (BuildEvent.waiting path :: Stage.all.flatMap (BuildEvent.through path)) =
      ((.parse, .queued) :: Stage.all.flatMap fun stage =>
        [(stage, Status.working), (stage, .done)]).map
          fun told => { file := path, stage := told.1, status := told.2 } := rfl
  rw [stages, List.pairwise_map]
  show List.Pairwise (fun told other : Stage × Status => told.2 ≠ .error ∧
    FileProgress.share ⟨"", told.1, told.2⟩ ≤ FileProgress.share ⟨"", other.1, other.2⟩) _
  decide

variable
    {run : Compilation}

/-- What is told of a file before its outcome is no error. -/
theorem status_stageEvents
    {event : BuildEvent}
    (member : event ∈ BuildEvent.waiting run.compiled.path :: stageEvents run) :
    event.status ≠ .error := by
  rcases List.mem_cons.mp member with rfl | member
  · exact Status.noConfusion
  · obtain ⟨stage, _, isThere⟩ := List.mem_flatMap.mp member
    rcases List.mem_cons.mp isThere with rfl | isThere
    · exact Status.noConfusion
    · rw [List.mem_singleton.mp isThere]
      exact Status.noConfusion

/-- What is told of a file that is not served from the cache tells of ever later stages. -/
theorem ownEvents_rising
    (compiled : run.compiled.cached = false)
    (ordered : (stages run).Sublist [.parse, .lower, .prune, .emit]) :
    (ownEvents run).Pairwise BuildEvent.Before := by
  have passed : (stageEvents run).Sublist
      ([Stage.parse, .lower, .prune, .emit].flatMap (BuildEvent.through run.compiled.path)) :=
    ordered.flatMap _
  have rising := through_rising run.compiled.path
  unfold ownEvents writtenEvents outcomeEvents
  simp only [compiled, Bool.false_eq_true, ↓reduceIte]
  split
  · rw [List.append_nil, List.pairwise_append]
    refine ⟨rising.sublist ((passed.trans ?_).cons_cons _), List.pairwise_singleton _ _, ?_⟩
    · exact List.sublist_append_left _ (BuildEvent.through run.compiled.path .write)
    · intro event member other isLast
      rw [List.mem_singleton.mp isLast]
      exact ⟨status_stageEvents member, (FileProgress.share_cases _).1⟩
  · rw [List.append_nil]
    exact rising.sublist ((passed.append (List.Sublist.refl _)).cons_cons _)

/-- What is told of a file that is served from the cache. -/
theorem ownEvents_cached
    (cached : run.compiled.cached = true)
    (compiled : run.compiled.failed = false)
    (noStages : stages run = []) :
    ownEvents run = [.waiting run.compiled.path,
      { file := run.compiled.path, stage := .emit, status := .cached },
      { file := run.compiled.path, stage := .write, status := .working },
      { file := run.compiled.path, stage := .write, status := .done }] := by
  simp [ownEvents, stageEvents, noStages, outcomeEvents, cached, writtenEvents, compiled,
    BuildEvent.through]

end BuildRun

/-! ## All files -/

namespace Progress

/-- A view of a build takes a step on: no file that was finished is taken up again. -/
structure Advances (before after : Progress) : Prop where
  finished : ∀ (number : Nat) (file : FileProgress), before.files[number]? = some file →
    file.isFinished = true → ∃ later, after.files[number]? = some later ∧ later.isFinished = true
  share : before.share ≤ after.share

variable
    {files : List FileProgress}

theorem place?_eq_none_iff
    {path : String} :
    place? files path = none ↔ ∀ file ∈ files, file.path ≠ path := by
  induction files with
  | nil => simp [place?]
  | cons file rest inductionHypothesis =>
      rw [place?, List.forall_mem_cons, ← inductionHypothesis]
      cases place? rest path <;> simp

/-- An event goes to the file with its path. -/
theorem modify_place?
    {number : Nat}
    (distinct : (files.map fun file => file.path).Nodup)
    (found : place? files path = some number)
    (change : FileProgress → FileProgress) :
    files.modify number change =
      files.map fun file => if file.path = path then change file else file := by
  induction files generalizing number with
  | nil => cases found
  | cons file rest inductionHypothesis =>
      rw [List.map_cons, List.nodup_cons] at distinct
      rw [place?] at found
      rw [List.map_cons]
      cases inRest : place? rest path with
      | some place =>
          rw [inRest] at found
          obtain rfl := Option.some.inj found
          have isOther : file.path ≠ path := by
            rintro rfl
            have missing : place? rest file.path = none := place?_eq_none_iff.mpr
              fun other member same => distinct.1 (same ▸ List.mem_map_of_mem member)
            cases inRest.symm.trans missing
          rw [List.modify_succ_cons, inductionHypothesis distinct.2 inRest, if_neg isOther]
      | none =>
          rw [inRest] at found
          dsimp only at found
          split at found
          next isFile =>
            obtain rfl := Option.some.inj found
            rw [List.modify_zero_cons, if_pos isFile]
            refine congrArg _ ((List.map_id _).symm.trans (List.map_congr_left ?_))
            exact fun other member => (if_neg (place?_eq_none_iff.mp inRest other member)).symm
          · cases found

theorem files_apply
    {progress : Progress}
    (distinct : (progress.files.map fun file => file.path).Nodup)
    (event : BuildEvent) :
    (progress.apply event).files =
      progress.files.map fun file => if file.path = event.file then file.apply event else file := by
  unfold apply
  split
  next missing =>
    refine (List.map_id _).symm.trans (List.map_congr_left fun file member => ?_)
    exact (if_neg (place?_eq_none_iff.mp missing file member)).symm
  next number found => exact modify_place? distinct found _

/-- What is shown of a file depends on the events about it. -/
theorem files_foldl
    (title : String)
    {paths : List String}
    (distinct : paths.Nodup)
    (events : List BuildEvent) :
    (events.foldl apply (start title paths)).files = paths.map fun path =>
      FileProgress.after { path := path } (events.filter fun event => event.file = path) := by
  induction events using List.reverseRecOn with
  | nil => rfl
  | append_singleton events event inductionHypothesis =>
      have samePaths : ((events.foldl apply (start title paths)).files.map fun file => file.path) =
          paths := by
        rw [inductionHypothesis, List.map_map]
        exact (List.map_congr_left fun path _ => FileProgress.path_after ..).trans (List.map_id _)
      rw [List.foldl_concat, files_apply (samePaths.symm ▸ distinct), inductionHypothesis,
        List.map_map]
      refine List.map_congr_left fun path _ => ?_
      rw [Function.comp_apply, FileProgress.path_after, List.filter_append]
      by_cases isFile : path = event.file
      · rw [if_pos isFile, List.filter_cons_of_pos (by simp [isFile]), List.filter_nil,
          FileProgress.after_concat]
      · rw [if_neg isFile, List.filter_cons_of_neg (by simpa using Ne.symm isFile), List.filter_nil,
          List.append_nil]

/-- The shares of all files together do not decrease where no share does. -/
theorem foldl_share_le
    {Item : Type}
    {items : List Item}
    {shown later : Item → FileProgress}
    (rises : ∀ item ∈ items, (shown item).share ≤ (later item).share)
    {total more : Nat}
    (start : total ≤ more) :
    (items.map shown).foldl (fun total file => total + file.share) total ≤
      (items.map later).foldl (fun total file => total + file.share) more := by
  induction items generalizing total more with
  | nil => exact start
  | cons item rest inductionHypothesis =>
      obtain ⟨first, others⟩ := List.forall_mem_cons.mp rises
      exact inductionHypothesis others (Nat.add_le_add start first)

end Progress

end IlsCompiler
