import Mathlib.Data.List.Forall2
import IlsCompiler.Proofs.Build.OutputPlaces
import IlsCompiler.Proofs.Build.ProgressSteps
import IlsCompiler.Proofs.Cache.Sharing

namespace IlsCompiler

/-!
# Progress of builds that end

The files of a build go through their phases at the same time, and what is told of one of them comes
in between what is told of the others. A file that was served from the cache is shown as finished,
and then it is written. So progress falls back there and nowhere else, and in the end every file is
finished and those with problems are told apart, but not those from the cache.
-/

namespace BuildRun

/-- A run is that of a file, with whatever is in the cache. -/
def IsRunOf (options : CompileOptions) (files : FileSystem) (path : String) (run : Compilation) :
    Prop :=
  ∃ workspace : Workspace, workspace.files = files ∧ (compileFile options workspace path).1 = run

variable
    {runs : List Compilation}
    {options : CompileOptions}
    {files : FileSystem}

/-- The runs of files, each of which is served from the cache or takes its phases in order. -/
theorem runs_cases
    {paths : List String}
    (compiled : List.Forall₂ (IsRunOf options files) paths runs) :
    runs.map (fun run => run.compiled.path) = paths ∧ ∀ run ∈ runs,
      (run.compiled.cached = true → run.compiled.failed = false ∧ stages run = []) ∧
        (stages run).Sublist [.parse, .lower, .prune, .emit] := by
  induction compiled with
  | nil => simp
  | cons isRun _ inductionHypothesis =>
      obtain ⟨workspace, _, rfl⟩ := isRun
      obtain ⟨isPath, known⟩ := compileFile_cases options workspace _
      rw [List.map_cons, isPath, inductionHypothesis.1, List.forall_mem_cons]
      exact ⟨rfl, known, inductionHypothesis.2⟩

/--
What is told by a build that ends: its files wait, take their phases at the same time and get their
outcomes, and then those without problems are written. Each file is compiled by itself, with
whatever is in the cache by then.
-/
structure Ended (request : BuildRequest) (files : FileSystem) (runs : List Compilation)
    (events : List BuildEvent) : Prop where
  named : request.outDir ≠ ""
  places : ∃ places, Output.places request.files request.baseDir request.outDir = .ok places
  compiled : List.Forall₂ (IsRunOf request.options files) request.files runs
  completed : ∀ run ∈ runs, run.fatal = none
  /-- What is told of the phases of a file comes in its own order. -/
  told : ∃ phases,
    events = request.files.map .waiting ++ phases ++ runs.flatMap outcomeEvents ++
        runs.flatMap writtenEvents ∧
      ∀ path, phases.filter (fun event => event.file = path) =
        (runs.flatMap stageEvents).filter fun event => event.file = path

/-! ### Builds that compile one file after the other -/

theorem files_compileFile
    (options : CompileOptions)
    (workspace : Workspace)
    (path : String) :
    (compileFile options workspace path).2.files = workspace.files := by
  unfold compileFile
  split <;> rfl

theorem compileFiles_compiled
    (options : CompileOptions)
    (workspace : Workspace)
    (paths : List String)
    (completed : ∀ run ∈ (compileFiles options workspace paths).1, run.fatal = none) :
    List.Forall₂ (IsRunOf options workspace.files) paths
      (compileFiles options workspace paths).1 := by
  induction paths generalizing workspace with
  | nil => exact .nil
  | cons path rest inductionHypothesis =>
      unfold compileFiles at completed ⊢
      dsimp only at completed ⊢
      split at completed
      next isFatal =>
        rw [completed _ (List.mem_singleton_self _)] at isFatal
        cases isFatal
      next goesOn =>
        rw [if_neg goesOn]
        have behind := inductionHypothesis (compileFile options workspace path).2
          fun run member => completed run (List.mem_cons_of_mem _ member)
        rw [files_compileFile] at behind
        exact .cons ⟨workspace, rfl, rfl⟩ behind

/-- Writing goes on until a file cannot be written. -/
theorem writeOne_events
    (keepListing : Bool)
    (items : List (Compiled × Path))
    (run : BuildRun)
    (written : (items.foldl (writeOne keepListing) run).fatal = none) :
    run.fatal = none ∧ (items.foldl (writeOne keepListing) run).runs = run.runs ∧
      (items.foldl (writeOne keepListing) run).events = run.events ++ items.flatMap fun item =>
        if item.1.failed then [] else BuildEvent.through item.1.path .write := by
  induction items generalizing run with
  | nil => exact ⟨written, rfl, by simp⟩
  | cons item rest inductionHypothesis =>
      obtain ⟨before, sameRuns, told⟩ := inductionHypothesis _ written
      rw [List.foldl_cons, sameRuns, told, List.flatMap_cons, ← List.append_assoc]
      unfold writeOne at before ⊢
      dsimp only at before ⊢
      split at before
      next skipped =>
        rw [if_pos skipped]
        rw [before] at skipped
        refine ⟨before, rfl, ?_⟩
        rw [if_pos (by simpa using skipped), List.append_nil]
      next taken =>
        rw [if_neg taken]
        simp only [Bool.or_eq_true, not_or, Bool.not_eq_true, Option.isSome_eq_false_iff,
          Option.isNone_iff_eq_none] at taken
        split at before
        next artifact isWritten =>
          refine ⟨taken.1, rfl, ?_⟩
          rw [if_neg (by simp [taken.2])]
          rfl
        · cases before

variable
    {request : BuildRequest}
    {workspace : Workspace}

/-- A build that gets to its end has compiled every file. -/
theorem compile_completed
    (compiled : (compile request false workspace).fatal = none) :
    (compile request false workspace).runs =
        (compileFiles request.options workspace request.files).1 ∧
      (∀ run ∈ (compile request false workspace).runs, run.fatal = none) ∧
      (compile request false workspace).events = request.files.map .waiting ++
        (compile request false workspace).runs.flatMap stageEvents ++
        (compile request false workspace).runs.flatMap outcomeEvents := by
  unfold compile at compiled ⊢
  split at compiled
  · cases compiled
  next hasFiles =>
    rw [if_neg hasFiles]
    simp only [Bool.false_eq_true, ↓reduceIte, true_and] at compiled ⊢
    rw [compiled]
    exact ⟨List.findSome?_eq_none_iff.mp compiled, rfl⟩

/-- A build that compiles one file after the other and is not stopped is one that ends. -/
theorem build_ended
    {places : List Path}
    (named : request.outDir ≠ "")
    (compiled : (compile request false workspace).fatal = none)
    (placed : Output.places request.files request.baseDir request.outDir = .ok places)
    (written : (((compile request false workspace).reached.zip places).foldl
      (writeOne request.options.keepListing) (compile request false workspace)).fatal = none) :
    Ended request workspace.files (build request false workspace).runs
      (build request false workspace).events := by
  obtain ⟨isRuns, completed, isTold⟩ := compile_completed compiled
  obtain ⟨_, sameRuns, told⟩ := writeOne_events _ _ _ written
  have isBuild : build request false workspace =
      (((compile request false workspace).reached.zip places).foldl
        (writeOne request.options.keepListing) (compile request false workspace)).close := by
    rw [build, if_neg named]
    simp only [compiled, Option.isSome_none, Bool.false_eq_true, ↓reduceIte, writeAll, placed]
  have closed : ∀ run : BuildRun, run.close.runs = run.runs ∧ run.close.events = run.events := by
    intro run
    unfold close
    split <;> exact ⟨rfl, rfl⟩
  have ofFiles : List.Forall₂ (IsRunOf request.options workspace.files) request.files
      (compile request false workspace).runs :=
    isRuns ▸ compileFiles_compiled _ _ _ (isRuns ▸ completed)
  have sameLength : (compile request false workspace).reached.length ≤ places.length := by
    obtain ⟨rfl, _⟩ := (Output.places_eq_ok_iff ..).mp placed
    rw [reached, List.length_map, List.length_map, ofFiles.length_eq]
  rw [isBuild, (closed _).1, (closed _).2, sameRuns, told, isTold]
  refine ⟨named, ⟨places, placed⟩, ofFiles, completed, _, ?_, fun path => rfl⟩
  refine congrArg _ ?_
  rw [← List.flatMap_map (fun item : Compiled × Path => item.1)
    fun compiled : Compiled => if compiled.failed then [] else
      BuildEvent.through compiled.path .write, List.map_fst_zip sameLength, reached,
    List.flatMap_map]
  rfl

/-! ### What is told of a file -/

variable
    {run : Compilation}

/-- What is told of one of several files is found among what is told of all. -/
theorem filter_flatMap
    {tell : Compilation → List BuildEvent}
    (distinct : (runs.map fun run => run.compiled.path).Nodup)
    (about : ∀ run, ∀ event ∈ tell run, event.file = run.compiled.path)
    (member : run ∈ runs) :
    (runs.flatMap tell).filter (fun event => event.file = run.compiled.path) = tell run := by
  induction runs with
  | nil => cases member
  | cons first rest inductionHypothesis =>
      rw [List.map_cons, List.nodup_cons] at distinct
      rw [List.flatMap_cons, List.filter_append]
      rcases List.mem_cons.mp member with rfl | member
      · have others : ∀ event ∈ rest.flatMap tell, ¬ event.file = run.compiled.path := by
          intro event isThere same
          obtain ⟨other, isOther, tells⟩ := List.mem_flatMap.mp isThere
          rw [about other event tells] at same
          exact distinct.1 (same ▸ List.mem_map_of_mem isOther)
        rw [List.filter_eq_self.mpr (by simpa using about run),
          List.filter_eq_nil_iff.mpr (by simpa using others), List.append_nil]
      · have others : ∀ event ∈ tell first, ¬ event.file = run.compiled.path := by
          intro event isThere same
          rw [about first event isThere] at same
          exact distinct.1 (same ▸ List.mem_map_of_mem member)
        rw [List.filter_eq_nil_iff.mpr (by simpa using others),
          inductionHypothesis distinct.2 member, List.nil_append]

variable
    {event : BuildEvent}
    {path : String}

theorem file_through
    {stage : Stage}
    (member : event ∈ BuildEvent.through path stage) :
    event.file = path := by
  rcases List.mem_cons.mp member with rfl | member
  · rfl
  · rw [List.mem_singleton.mp member]

theorem file_stageEvents
    (run : Compilation)
    (event : BuildEvent)
    (member : event ∈ stageEvents run) :
    event.file = run.compiled.path := by
  obtain ⟨stage, _, isThere⟩ := List.mem_flatMap.mp member
  exact file_through isThere

theorem file_outcomeEvents
    (run : Compilation)
    (event : BuildEvent)
    (member : event ∈ outcomeEvents run) :
    event.file = run.compiled.path := by
  unfold outcomeEvents at member
  dsimp only at member
  split at member
  · rw [List.mem_singleton.mp member]
  · split at member
    · rw [List.mem_singleton.mp member]
    · cases member

theorem file_writtenEvents
    (run : Compilation)
    (event : BuildEvent)
    (member : event ∈ writtenEvents run) :
    event.file = run.compiled.path := by
  unfold writtenEvents at member
  split at member
  · cases member
  · exact file_through member

namespace Ended

variable
    {request : BuildRequest}
    {files : FileSystem}
    {runs : List Compilation}
    {run : Compilation}
    {events front back : List BuildEvent}
    {event : BuildEvent}

theorem distinct
    (ended : Ended request files runs events) :
    request.files.Nodup := by
  obtain ⟨places, placed⟩ := ended.places
  obtain ⟨rfl, distinct⟩ := (Output.places_eq_ok_iff ..).mp placed
  exact distinct.of_map

/-- What is told of a file, whatever is told of the others in between. -/
theorem filter_events
    (ended : Ended request files runs events)
    (member : run ∈ runs) :
    events.filter (fun event => event.file = run.compiled.path) = ownEvents run := by
  obtain ⟨isPaths, _⟩ := runs_cases ended.compiled
  have distinct : (runs.map fun run => run.compiled.path).Nodup := isPaths ▸ ended.distinct
  obtain ⟨phases, rfl, inOrder⟩ := ended.told
  have waiting : request.files.map BuildEvent.waiting =
      runs.flatMap fun run => [.waiting run.compiled.path] := by
    rw [← isPaths, List.map_map, List.map_eq_flatMap]
    rfl
  rw [List.filter_append, List.filter_append, List.filter_append, inOrder, waiting,
    filter_flatMap distinct file_stageEvents member,
    filter_flatMap distinct file_outcomeEvents member,
    filter_flatMap distinct file_writtenEvents member,
    filter_flatMap distinct (fun run event isThere => by rw [List.mem_singleton.mp isThere]; rfl)
      member]
  rfl

/-- How far a file is depends on what was told of it. -/
theorem files_after
    (ended : Ended request files runs events)
    (title : String)
    (front : List BuildEvent) :
    (front.foldl Progress.apply (.start title request.files)).files = runs.map fun run =>
      FileProgress.after { path := run.compiled.path }
        (front.filter fun event => event.file = run.compiled.path) := by
  obtain ⟨isPaths, _⟩ := runs_cases ended.compiled
  rw [Progress.files_foldl title ended.distinct, ← isPaths, List.map_map]
  rfl

end Ended

/-- The event of a file that begins to be written. -/
def writing (run : Compilation) : BuildEvent :=
  { file := run.compiled.path, stage := .write, status := .working }

/-- A file that is served from the cache is finished, and then it is written. -/
theorem cached_falls_back
    {front back : List BuildEvent}
    (cached : run.compiled.cached = true)
    (compiled : run.compiled.failed = false)
    (noStages : stages run = [])
    (split : ownEvents run = front ++ event :: back) :
    (event ≠ writing run ∧
        (FileProgress.after { path := run.compiled.path } front).share ≤
          (FileProgress.after { path := run.compiled.path } (front ++ [event])).share) ∨
      event = writing run ∧
        (FileProgress.after { path := run.compiled.path } front).isFinished = true ∧
        (FileProgress.after { path := run.compiled.path } (front ++ [event])).isFinished =
          false := by
  rw [ownEvents_cached cached compiled noStages] at split
  rcases front with _ | ⟨_, _ | ⟨_, _ | ⟨_, _ | ⟨_, front⟩⟩⟩⟩
  · cases split
    exact .inl ⟨fun same => Status.noConfusion (congrArg BuildEvent.status same), Nat.zero_le _⟩
  · cases split
    exact .inl ⟨fun same => Status.noConfusion (congrArg BuildEvent.status same), Nat.zero_le _⟩
  · cases split
    exact .inr ⟨rfl, rfl, rfl⟩
  · cases split
    exact .inl ⟨fun same => Status.noConfusion (congrArg BuildEvent.status same),
      Nat.le_of_ble_eq_true rfl⟩
  · simp at split

/-- What an event does to the share of a file. -/
theorem Ended.step
    {request : BuildRequest}
    {files : FileSystem}
    {runs : List Compilation}
    {run : Compilation}
    {front back : List BuildEvent}
    {event : BuildEvent}
    (ended : Ended request files runs (front ++ event :: back))
    (member : run ∈ runs) :
    let before := FileProgress.after { path := run.compiled.path }
      (front.filter fun event => event.file = run.compiled.path)
    let after := FileProgress.after { path := run.compiled.path }
      ((front ++ [event]).filter fun event => event.file = run.compiled.path)
    (¬ (run.compiled.cached = true ∧ event = writing run) ∧ before.share ≤ after.share) ∨
      (run.compiled.cached = true ∧ event = writing run) ∧ before.isFinished = true ∧
        after.isFinished = false := by
  dsimp only
  obtain ⟨fromCache, ordered⟩ := (runs_cases ended.compiled).2 run member
  by_cases isFile : event.file = run.compiled.path
  · have own := ended.filter_events member
    rw [List.filter_append, List.filter_cons_of_pos (by simpa using isFile)] at own
    rw [List.filter_append, List.filter_cons_of_pos (by simpa using isFile), List.filter_nil]
    cases cached : run.compiled.cached with
    | false =>
        have rising := ownEvents_rising cached ordered
        rw [← own] at rising
        exact .inl ⟨fun both => Bool.noConfusion both.1, FileProgress.share_after_le rising⟩
    | true =>
        obtain ⟨compiled, noStages⟩ := fromCache cached
        rcases cached_falls_back cached compiled noStages own.symm with ⟨isOther, rises⟩ | falls
        · exact .inl ⟨fun both => isOther both.2, rises⟩
        · exact .inr ⟨⟨rfl, falls.1⟩, falls.2⟩
  · refine .inl ⟨fun both => isFile (both.2 ▸ rfl), Nat.le_of_eq ?_⟩
    rw [List.filter_append, List.filter_cons_of_neg (by simpa using isFile), List.filter_nil,
      List.append_nil]

/-- How a file is shown in the end. -/
def settled (run : Compilation) : FileProgress :=
  { path := run.compiled.path,
    stage := if run.compiled.failed then lastStage run else .write,
    status := if run.compiled.failed then .error else .done }

/-- At the end a file has its outcome: an error, or that it is written. -/
theorem after_ownEvents
    (fromCache : run.compiled.cached = true → run.compiled.failed = false ∧ stages run = []) :
    FileProgress.after { path := run.compiled.path } (ownEvents run) =
      settled run := by
  unfold settled
  have fresh : ({ path := run.compiled.path } : FileProgress).status ≠ .error := Status.noConfusion
  cases cached : run.compiled.cached with
  | true =>
      obtain ⟨compiled, noStages⟩ := fromCache cached
      rw [ownEvents_cached cached compiled noStages, compiled]
      rfl
  | false =>
      unfold ownEvents writtenEvents outcomeEvents
      simp only [cached, Bool.false_eq_true, ↓reduceIte]
      cases compiled : run.compiled.failed with
      | true =>
          simp only [↓reduceIte, List.append_nil]
          exact FileProgress.after_last fresh (fun other => status_stageEvents) _
      | false =>
          simp only [Bool.false_eq_true, ↓reduceIte, List.append_nil, BuildEvent.through]
          rw [List.append_cons]
          refine FileProgress.after_last fresh (fun other isThere => ?_) _
          rcases List.mem_append.mp isThere with isThere | isThere
          · exact status_stageEvents isThere
          · rw [List.mem_singleton.mp isThere]
            exact Status.noConfusion

theorem Ended.files_last
    {events : List BuildEvent}
    (ended : Ended request files runs events)
    (title : String) :
    (events.foldl Progress.apply (.start title request.files)).files = runs.map settled := by
  rw [ended.files_after]
  refine List.map_congr_left fun run member => ?_
  rw [ended.filter_events member]
  exact after_ownEvents ((runs_cases ended.compiled).2 run member).1

theorem isFinished_settled
    (run : Compilation) :
    (settled run).isFinished = true := by
  unfold settled
  cases run.compiled.failed <;> rfl

/--
Progress falls back where a file from the cache is written, which happens once for each of them, and
at no other event. In the end every file is finished, those with problems count as failed, and none
counts as cached.
-/
theorem progress_falls_back_iff_cached
    {request : BuildRequest}
    {files : FileSystem}
    {runs : List Compilation}
    {events : List BuildEvent}
    (ended : Ended request files runs events)
    (title : String) :
    (∀ front event back, events = front ++ event :: back →
      ((front.foldl Progress.apply (.start title request.files)).Advances
          ((front ++ [event]).foldl Progress.apply (.start title request.files)) ↔
        ¬ ∃ run ∈ runs, run.compiled.cached = true ∧ event = writing run)) ∧
    (∀ run ∈ runs, run.compiled.cached = true → events.count (writing run) = 1) ∧
    let last := events.foldl Progress.apply (.start title request.files)
    last.finished = request.files.length ∧
      last.files.map (fun file => (file.path, file.status)) = runs.map (fun run =>
        (run.compiled.path, if run.compiled.failed then .error else .done)) ∧
      last.count .error = (runs.filter fun run => run.compiled.failed).length ∧
      last.count .cached = 0 := by
  refine ⟨fun front event back split => ?_, fun run member cached => ?_, ?_⟩
  · subst split
    constructor
    · rintro advances ⟨run, member, fallsBack⟩
      rcases ended.step member with ⟨isOther, _⟩ | ⟨_, finished, unfinished⟩
      · exact isOther fallsBack
      · obtain ⟨number, inside, isRun⟩ := List.getElem_of_mem member
        obtain ⟨later, isLater, stillFinished⟩ := advances.finished number _ (by
          rw [ended.files_after, List.getElem?_map, List.getElem?_eq_getElem inside, isRun]
          rfl) finished
        rw [ended.files_after, List.getElem?_map, List.getElem?_eq_getElem inside, isRun] at isLater
        rw [← Option.some.inj isLater, unfinished] at stillFinished
        cases stillFinished
    · intro noFall
      have rises : ∀ run ∈ runs, _ := fun run member => (ended.step member).resolve_right
        fun falls => noFall ⟨run, member, falls.1⟩
      constructor
      case finished =>
        intro number file isFile finished
        rw [ended.files_after, List.getElem?_map, Option.map_eq_some_iff] at isFile
        obtain ⟨run, isRun, rfl⟩ := isFile
        refine ⟨_, by rw [ended.files_after, List.getElem?_map, isRun]; rfl, ?_⟩
        have more := (rises run (List.mem_of_getElem? isRun)).2
        rw [(FileProgress.share_cases _).2] at finished ⊢
        exact Nat.le_antisymm (FileProgress.share_cases _).1 (finished ▸ more)
      case share =>
        rw [Progress.share, Progress.share, ended.files_after, ended.files_after]
        exact Progress.foldl_share_le (fun run member => (rises run member).2) (Nat.le_refl 0)
  · have fromCache := (runs_cases ended.compiled).2 run member
    obtain ⟨compiled, noStages⟩ := fromCache.1 cached
    have own := ended.filter_events member
    rw [ownEvents_cached cached compiled noStages] at own
    have counted : (events.filter fun event => event.file = run.compiled.path).count (writing run) =
        events.count (writing run) :=
      List.count_filter (by simp [writing])
    rw [← counted, own]
    simp [writing, BuildEvent.waiting]
  · have isLast := ended.files_last title
    have isPaths := (runs_cases ended.compiled).1
    dsimp only
    refine ⟨?_, ?_, ?_, ?_⟩
    · rw [Progress.finished, isLast, List.filter_eq_self.mpr (List.forall_mem_map.mpr fun run _ =>
        isFinished_settled run), List.length_map, ← isPaths, List.length_map]
    · rw [isLast, List.map_map]
      rfl
    · rw [Progress.count, isLast, List.filter_map, List.length_map]
      refine congrArg _ (List.filter_congr fun run _ => ?_)
      rw [Function.comp_apply, isFinished_settled]
      cases failed : run.compiled.failed <;> simp [settled, failed]
    · rw [Progress.count, isLast, List.filter_map, List.length_map, List.length_eq_zero_iff,
        List.filter_eq_nil_iff]
      intro run _
      cases failed : run.compiled.failed <;> simp [settled, failed]

/-- A build of a file that is in the cache and one that is missing. -/
def sharedRequest : BuildRequest :=
  { files := ["a.ils", "b.ils"], outDir := "out" }

/-- The only file that the build finds. -/
def sharedFiles : FileSystem :=
  { entries := [(["a.ils"], .file (Bytes.ofString "fn main() { }"))], directory := [] }

/-- What the cache has of it. -/
def sharedUnit : CachedUnit :=
  { schema := CachedUnit.currentSchema, path := Bytes.ofString "a.ils" }

/-- The run that takes it from there, and that of the missing file. -/
def sharedRuns : List Compilation :=
  [{ compiled := .ofUnit "a.ils" {} sharedUnit },
    { compiled := .unreadable "b.ils" {} "open b.ils: no such file or directory" }]

theorem sharedUnit_found
    (key : Digest) :
    (CacheStore.empty.put key sharedUnit).get key = .hit sharedUnit := by
  have decodes : CachedUnit.decode sharedUnit.encode = some sharedUnit := by decide +kernel
  have raw : (CacheStore.empty.put key sharedUnit).raw? key = some sharedUnit.encode := by
    rw [CacheStore.put, CacheStore.raw?_write, if_pos rfl]
    rfl
  rw [CacheStore.get, raw]
  simp only [decodes]
  exact if_pos rfl

/-- A file whose outcome is in the cache is served from there. -/
theorem compileFile_hit
    {source : Bytes}
    {entries : CacheStore}
    {stored : CachedUnit}
    (isRead : workspace.files.read path = .ok source)
    (isCache : workspace.cache = some entries)
    (found : entries.get (CachedCompilation.key source options) = .hit stored) :
    (compileFile options workspace path).1 = { compiled := .ofUnit path options stored } := by
  simp only [compileFile, isRead, CachedCompilation.ofSource, isCache, found]

theorem sharedRuns_compiled :
    List.Forall₂ (IsRunOf {} sharedFiles) ["a.ils", "b.ils"] sharedRuns := by
  have isRead : sharedFiles.read "a.ils" = .ok (Bytes.ofString "fn main() { }") := by
    decide +kernel
  have isMissing : sharedFiles.read "b.ils" =
      .error { action := "open", path := "b.ils", reason := .missing } := by
    decide +kernel
  refine .cons ⟨{ files := sharedFiles, cache := some (CacheStore.empty.put
    (CachedCompilation.key (Bytes.ofString "fn main() { }") {}) sharedUnit) }, rfl, ?_⟩
    (.cons ⟨{ files := sharedFiles }, rfl, ?_⟩ .nil)
  · exact compileFile_hit isRead rfl (sharedUnit_found _)
  · simp only [compileFile, isMissing]
    rfl

/-- What is told of the two files. -/
def sharedEvents : List BuildEvent :=
  sharedRequest.files.map .waiting ++ [] ++ sharedRuns.flatMap outcomeEvents ++
    sharedRuns.flatMap writtenEvents

theorem sharedBuild_ended :
    Ended sharedRequest sharedFiles sharedRuns sharedEvents where
  named := by decide
  places := ⟨[⟨false, ["out", "a.asm"]⟩, ⟨false, ["out", "b.asm"]⟩], by decide +kernel⟩
  compiled := sharedRuns_compiled
  completed := by simp [sharedRuns]
  told := ⟨[], rfl, fun _ => rfl⟩

/-- The file from the cache is finished until the build begins to write it. -/
theorem sharedBuild_falls_back :
    Ended sharedRequest sharedFiles sharedRuns sharedEvents ∧
      ¬ ((sharedEvents.take 4).foldl Progress.apply (.start "build" ["a.ils", "b.ils"])).Advances
        ((sharedEvents.take 5).foldl Progress.apply (.start "build" ["a.ils", "b.ils"])) ∧
      (sharedEvents.foldl Progress.apply (.start "build" ["a.ils", "b.ils"])).count .cached =
        0 := by
  obtain ⟨falls, _, _, _, _, noneCached⟩ :=
    progress_falls_back_iff_cached sharedBuild_ended "build"
  refine ⟨sharedBuild_ended, fun advances => ?_, noneCached⟩
  have split : sharedEvents = sharedEvents.take 4 ++
      writing { compiled := .ofUnit "a.ils" {} sharedUnit } :: sharedEvents.drop 5 := rfl
  exact (falls _ _ _ split).mp advances ⟨_, List.mem_cons_self .., rfl, rfl⟩

end BuildRun

end IlsCompiler
