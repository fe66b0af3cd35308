import Mathlib.Data.List.Pairwise
import WebBundle.Proofs.Output.Parallel

/-!
# What tasks leave behind

If no file of an output lies in the way of another one, the tasks that write them do not disturb
each other: each makes directories that are missing on the way to its file and then puts its file.
In whatever order the tasks take their steps, they all succeed, and what is at a place in the end
is told by the files and by what was there before.
-/

namespace WebBundle.Output

open Relation (ReflTransGen)
open Storage

variable {origin storage after : Storage} {directory : String} {base place : Place}
  {file other : File} {files : List File}

/-- The place of a file of an output whose directory is at a place. -/
def placeOf (base : Place) (file : File) : Place := base ++ stepsOf file.path

/-- Neither file is, or lies below, the other one. -/
structure Separate (file other : File) : Prop where
  notBelow : ¬stepsOf file.path <+: stepsOf other.path
  notAbove : ¬stepsOf other.path <+: stepsOf file.path

theorem Separate.symm (apart : Separate file other) : Separate other file :=
  ⟨apart.notAbove, apart.notBelow⟩

instance : Std.Symm Separate := ⟨fun _ _ => Separate.symm⟩

theorem Separate.not_prefix (apart : Separate file other) :
    ¬placeOf base file <+: placeOf base other :=
  fun below => apart.notBelow ((List.prefix_append_right_inj base).1 below)

theorem Separate.ne (apart : Separate file other) : placeOf base file ≠ placeOf base other := by
  intro same
  exact apart.not_prefix ⟨[], by rw [List.append_nil, same]⟩

/-- The path of a file is made of names, and it is short enough to be walked. -/
structure IsShort (directory : String) (file : File) : Prop where
  isNormal : Path.IsNormal file.path
  isPath : IsPath (Path.join directory file.path)
  names : ∀ step ∈ stepsOf file.path, step.utf8ByteSize ≤ nameBound

/-- Nothing but directories is on the way to a file, and nothing but a file at its place. -/
structure Agrees (storage : Storage) (base : Place) (file : File) : Prop where
  above : storage.Open (placeOf base file).dropLast
  here : storage.itemAt? (placeOf base file) = none ∨
    ∃ bytes, storage.itemAt? (placeOf base file) = some (.file bytes)

/-- Files can be written at the same time to a directory that is there. -/
structure Admits (storage : Storage) (directory : String) (base : Place) (files : List File) :
    Prop where
  tree : storage.IsTree
  inside : storage.itemAt? base = some .directory
  spells : storage.Spells directory base
  short : ∀ file ∈ files, IsShort directory file
  apart : files.Pairwise Separate
  agrees : ∀ file ∈ files, Agrees storage base file

/-! ## The place of a file -/

theorem IsShort.isName (isShort : IsShort directory file) :
    ∀ step ∈ stepsOf file.path, IsName step := by
  intro step listed
  obtain ⟨segment, member, rfl⟩ := List.mem_map.1 listed
  obtain ⟨moves, notUp⟩ := isShort.isNormal segment member
  refine ⟨not_isStill_ofList moves, fun up => notUp ?_, Nat.not_lt.2 (isShort.names _ listed)⟩
  rw [← String.toList_inj, String.toList_ofList] at up
  exact up

theorem stepsOf_ne_nil (path : String) : stepsOf path ≠ [] :=
  mt List.map_eq_nil_iff.1 (Text.pieces_ne_nil _ path.toList)

theorem placeOf_ne_nil : placeOf base file ≠ [] := by
  simp [placeOf, stepsOf_ne_nil]

theorem prefix_dropLast_placeOf : base <+: (placeOf base file).dropLast := by
  rw [placeOf, List.dropLast_append_of_ne_nil (stepsOf_ne_nil file.path)]
  exact List.prefix_append _ _

theorem exists_last (path : String) : ∃ before last, Path.segments path = before ++ [last] := by
  have nonempty : Path.segments path ≠ [] := Text.pieces_ne_nil _ path.toList
  exact ⟨_, _, (List.dropLast_append_getLast nonempty).symm⟩

/-- Paths below a directory begin with steps to its place. -/
theorem aim_front (spells : storage.Spells directory base) :
    storage.aim (storage.startOf directory)
      ((Path.frontSegments directory).map String.ofList) = some base := by
  have aims := spells.aims
  by_cases empty : directory = ""
  · subst empty
    exact aims
  · obtain ⟨more, shape, still⟩ := Path.exists_segments_eq empty
    rw [stepsOf, shape, List.map_append, aim_append, Option.bind_eq_some_iff] at aims
    obtain ⟨place, front, aims⟩ := aims
    rw [aim_stills (isStill_of_mem_map still)] at aims
    rw [front, aims]

theorem startOf_join (isShort : IsShort directory file) :
    storage.startOf (Path.join directory file.path) = storage.startOf directory := by
  rw [startOf, startOf, Path.isAbsolute_join (Path.isAbsolute_of_isNormal isShort.isNormal)]

theorem stepsOf_join (isShort : IsShort directory file) :
    stepsOf (Path.join directory file.path) =
      (Path.frontSegments directory).map String.ofList ++ stepsOf file.path := by
  rw [stepsOf, Path.segments_join (Path.isAbsolute_of_isNormal isShort.isNormal), List.map_append,
    stepsOf]

/-- A path that is put below a directory spells the place of its file. -/
theorem spells_join (isShort : IsShort directory file) (spells : storage.Spells directory base) :
    storage.Spells (Path.join directory file.path) (placeOf base file) := by
  have relative := Path.isAbsolute_of_isNormal isShort.isNormal
  have same := @startOf_join storage directory file isShort
  refine ⟨same ▸ spells.begins, ?_, .inr isShort.isPath, .inr ?_⟩
  · rw [same, stepsOf_join isShort, aim_append, aim_front spells, Option.bind_some]
    exact aim_names isShort.isName
  · obtain ⟨before, last, isLast⟩ := exists_last file.path
    obtain ⟨moves, notUp⟩ := isShort.isNormal last (by simp [isLast])
    refine ⟨Path.frontSegments directory ++ before, last, [], ?_, moves, notUp, by simp⟩
    rw [Path.segments_join relative, isLast, List.append_assoc]

theorem splitEndSlashes_join (isShort : IsShort directory file) :
    splitEndSlashes (Path.join directory file.path) = (Path.join directory file.path, false) := by
  have relative := Path.isAbsolute_of_isNormal isShort.isNormal
  have nonempty : file.path.toList ≠ [] := by
    intro empty
    have listed : [] ∈ Path.segments file.path := by
      rw [Path.segments, empty]
      exact List.mem_cons_self
    obtain ⟨moves, _⟩ := isShort.isNormal [] listed
    cases moves
  obtain ⟨before, last, text⟩ : ∃ before last, file.path.toList = before ++ [last] :=
    ⟨_, _, (List.dropLast_append_getLast nonempty).symm⟩
  have notSlash : last ≠ '/' := by
    rintro rfl
    have listed : [] ∈ Path.segments file.path := by
      rw [Path.segments, text, Text.pieces_append]
      simp [Text.pieces]
    cases (isShort.isNormal [] listed).1
  have whole : (Path.join directory file.path).toList.reverse =
      last :: (Path.front directory ++ before).reverse := by
    rw [Path.toList_join relative, text, ← List.append_assoc, List.reverse_concat]
  have kept : (Path.join directory file.path).toList.reverse.dropWhile (· = '/') =
      (Path.join directory file.path).toList.reverse := by
    rw [whole, List.dropWhile_cons_of_neg (by simpa using notSlash)]
  have length : (Path.join directory file.path).toList.length =
      (Path.join directory file.path).length := rfl
  rw [splitEndSlashes, kept, List.reverse_reverse, String.ofList_toList]
  simp [length]

/-- The last step to a file is taken from the directory above it. -/
theorem exists_walk_of_join (tree : storage.IsTree) (isShort : IsShort directory file)
    (spells : storage.Spells directory base)
    (inside : storage.itemAt? (placeOf base file).dropLast = some .directory) :
    ∃ name, IsName name ∧ placeOf base file = (placeOf base file).dropLast ++ [name] ∧
      storage.locate true (Path.join directory file.path) =
        storage.walk true linkBound (placeOf base file).dropLast [name] := by
  obtain ⟨before, last, isLast⟩ := exists_last file.path
  have steps : stepsOf file.path = before.map String.ofList ++ [String.ofList last] := by
    rw [stepsOf, isLast, List.map_append]
    rfl
  have above : (placeOf base file).dropLast = base ++ before.map String.ofList := by
    rw [placeOf, steps, ← List.append_assoc, List.dropLast_concat]
  have areNames : ∀ step ∈ before.map String.ofList, IsName step := fun step listed =>
    isShort.isName step (steps ▸ List.mem_append_left _ listed)
  have aims : storage.aim (storage.startOf directory)
      ((Path.frontSegments directory ++ before).map String.ofList) =
        some (placeOf base file).dropLast := by
    rw [List.map_append, aim_append, aim_front spells, Option.bind_some, aim_names areNames, above]
  refine ⟨String.ofList last, isShort.isName _ (by simp [steps]), ?_, ?_⟩
  · rw [above, placeOf, steps, List.append_assoc]
  · rw [locate_eq_walk_startOf isShort.isPath, startOf_join isShort, stepsOf_join isShort, steps,
      ← List.append_assoc, ← List.map_append, tree.walk_of_aim aims inside]

/-- Once its directory is there, a file can be written. -/
theorem write_join (tree : storage.IsTree) (isShort : IsShort directory file)
    (spells : storage.Spells directory base)
    (inside : storage.itemAt? (placeOf base file).dropLast = some .directory)
    (here : storage.itemAt? (placeOf base file) = none ∨
      ∃ bytes, storage.itemAt? (placeOf base file) = some (.file bytes)) (bytes : ByteArray) :
    storage.write (Path.join directory file.path) bytes =
      .ok (storage.put (placeOf base file) (.file bytes)) := by
  obtain ⟨name, isName, isPlace, leads⟩ := exists_walk_of_join tree isShort spells inside
  have bare := splitEndSlashes_join isShort
  rcases here with free | ⟨old, held⟩
  · rw [isPlace] at free
    rw [walk_vacant inside isName free rfl] at leads
    have opens : Opens storage (Path.join directory file.path)
        (.vacant (placeOf base file).dropLast name false) :=
      ⟨leads, by simp, by simp [Location.item?]⟩
    rw [opens.write bare, Location.place, ← isPlace]
  · rw [isPlace] at held
    rw [walk_on inside isName held (by simp), walk_nil held, ← isPlace] at leads
    have opens : Opens storage (Path.join directory file.path)
        (.taken (placeOf base file) (.file old)) := by
      refine ⟨leads, by simp, ?_⟩
      rintro item ⟨⟩
      exact ⟨old, rfl⟩
    rw [opens.write bare, Location.place]

theorem ne_directory_of_file (here : storage.itemAt? place = none ∨
    ∃ bytes, storage.itemAt? place = some (.file bytes)) :
    storage.itemAt? place ≠ some .directory := by
  rcases here with free | ⟨bytes, held⟩
  · exact ne_directory_of_free free
  · simp [held]

/-! ## Tasks at work -/

/-- A task is on its way to the directory of its file, or its file is there. -/
inductive Works (storage : Storage) (base : Place) : Task → Prop where
  | making {file : File} {errand : Errand}
      (heads : Heads storage (placeOf base file).dropLast errand) :
      Works storage base ⟨file, .making errand⟩
  | ended {file : File} (held : storage.itemAt? (placeOf base file) = some (.file file.bytes)) :
      Works storage base ⟨file, .ended (.ok ())⟩

theorem Works.later {task : Task} (works : Works storage base task)
    (keeps : KeepsDirectories storage after)
    (stays : ∀ bytes, storage.itemAt? (placeOf base task.file) = some (.file bytes) →
      after.itemAt? (placeOf base task.file) = some (.file bytes)) : Works after base task := by
  cases works with
  | making heads => exact .making (heads.later keeps)
  | ended held => exact .ended (stays _ held)

/-- How what is at a place has come about: it was there before, a directory was made above a file,
or a file was put. -/
inductive Turned (origin : Storage) (base : Place) (files : List File) (storage : Storage)
    (place : Place) : Prop where
  | same (kept : storage.itemAt? place = origin.itemAt? place)
  | made {file : File} (listed : file ∈ files) (above : place <+: (placeOf base file).dropLast)
      (free : origin.itemAt? place = none) (inside : storage.itemAt? place = some .directory)
  | put {file : File} (listed : file ∈ files) (here : placeOf base file = place)
      (held : storage.itemAt? place = some (.file file.bytes))

/-- What several tasks have done. -/
structure Working (origin : Storage) (base : Place) (files : List File)
    (state : Storage × List Task) : Prop where
  tree : state.1.IsTree
  keeps : KeepsDirectories origin state.1
  turned (place : Place) : Turned origin base files state.1 place
  files : state.2.map Task.file = files
  works : ∀ task ∈ state.2, Works state.1 base task

theorem not_prefix_dropLast_placeOf : ¬placeOf base file <+: (placeOf base file).dropLast := by
  intro below
  have short := below.length_le
  rw [List.length_dropLast] at short
  have long := List.length_pos_iff.2 (@placeOf_ne_nil base file)
  omega

/-- No file of an output is above another one. -/
theorem Admits.not_above (admits : Admits origin directory base files) (listed : file ∈ files)
    (listed' : other ∈ files) : ¬placeOf base file <+: (placeOf base other).dropLast := by
  intro below
  by_cases same : file = other
  · subst same
    exact not_prefix_dropLast_placeOf below
  · have apart : Separate file other := admits.apart.forall listed listed' same
    exact apart.not_prefix (below.trans (List.dropLast_prefix _))

namespace Working

variable {tasks : List Task} (admits : Admits origin directory base files)
  (working : Working origin base files (storage, tasks))

include admits working

theorem isOpen (listed : file ∈ files) : storage.Open (placeOf base file).dropLast := by
  intro place above
  cases working.turned place with
  | same kept =>
      have kept : storage.itemAt? place = origin.itemAt? place := kept
      rw [kept]
      exact (admits.agrees file listed).above place above
  | made _ _ _ inside => exact .inr inside
  | put listed' here _ => exact absurd (here ▸ above) (admits.not_above listed' listed)

theorem here (listed : file ∈ files) : storage.itemAt? (placeOf base file) = none ∨
    ∃ bytes, storage.itemAt? (placeOf base file) = some (.file bytes) := by
  cases working.turned (placeOf base file) with
  | same kept =>
      have kept : storage.itemAt? (placeOf base file) = origin.itemAt? (placeOf base file) := kept
      rw [kept]
      exact (admits.agrees file listed).here
  | made listed' above _ _ => exact absurd above (admits.not_above listed listed')
  | put _ _ held => exact .inr ⟨_, held⟩

end Working

/-! ## One step of one task -/

/-- What one step does that leads from one storage to another: it makes a directory on the way to a
file, if anything, or it puts the file. -/
inductive Progress (storage : Storage) (base : Place) (file : File) : Storage → Stage → Prop where
  | making {after : Storage} {errand : Errand}
      (widens : Widens (placeOf base file).dropLast storage after)
      (heads : Heads after (placeOf base file).dropLast errand) :
      Progress storage base file after (.making errand)
  | put (inside : storage.itemAt? (placeOf base file).dropLast = some .directory)
      (here : storage.itemAt? (placeOf base file) = none ∨
        ∃ bytes, storage.itemAt? (placeOf base file) = some (.file bytes)) :
      Progress storage base file (storage.put (placeOf base file) (.file file.bytes))
        (.ended (.ok ()))

theorem progress_of_step {tasks : List Task} {task next : Task}
    (admits : Admits origin directory base files)
    (working : Working origin base files (storage, tasks)) (listed : task ∈ tasks)
    (steps : task.step directory storage = some (after, next)) :
    next.file = task.file ∧ Progress storage base task.file after next.stage := by
  have tree : storage.IsTree := working.tree
  have spells : storage.Spells directory base := admits.spells.later working.keeps
  have isFile : task.file ∈ files := working.files ▸ List.mem_map_of_mem listed
  have isOpen := working.isOpen admits isFile
  have here := working.here admits isFile
  have isShort := admits.short task.file isFile
  cases working.works task listed with
  | ended held => cases steps
  | @making file errand heads =>
      rcases heads.step tree isOpen with done | ⟨after', errand', isNext, widens, heads'⟩
      · subst done
        have inside := heads.directory
        have finishes := step_of_write (write_join tree isShort spells inside here file.bytes)
        obtain ⟨rfl, rfl⟩ := Prod.mk.inj (Option.some.inj (finishes.symm.trans steps))
        exact ⟨rfl, .put inside here⟩
      · have lifted : (Task.mk file (.making errand)).step directory storage =
            some (after', ⟨file, .making errand'⟩) := steps_of_errand isNext
        obtain ⟨rfl, rfl⟩ := Prod.mk.inj (Option.some.inj (lifted.symm.trans steps))
        exact ⟨rfl, .making widens heads'⟩

namespace Progress

variable {stage : Stage} (progress : Progress storage base file after stage)

include progress

theorem works : Works after base ⟨file, stage⟩ := by
  cases progress with
  | making _ heads => exact .making heads
  | put =>
      refine .ended ?_
      rw [itemAt?_put placeOf_ne_nil, if_pos rfl]

theorem isTree (tree : storage.IsTree) : after.IsTree := by
  cases progress with
  | making widens _ => exact widens.isTree tree
  | put inside here =>
      exact tree.put placeOf_ne_nil inside fun there => absurd there (ne_directory_of_file here)

theorem keepsDirectories : KeepsDirectories storage after := by
  cases progress with
  | making widens _ => exact widens.keepsDirectories
  | put inside here =>
      refine ⟨fun place there => ?_, rfl⟩
      rw [itemAt?_put placeOf_ne_nil]
      split
      next same => exact absurd (same ▸ there) (ne_directory_of_file here)
      next => exact there

theorem turned (listed : file ∈ files) (turned : Turned origin base files storage place) :
    Turned origin base files after place := by
  have unchanged (same : after.itemAt? place = storage.itemAt? place) :
      Turned origin base files after place := by
    cases turned with
    | same kept => exact .same (same.trans kept)
    | made listed above free inside => exact .made listed above free (same.trans inside)
    | put listed here held => exact .put listed here (same.trans held)
  cases progress with
  | making widens _ =>
      rcases widens.itemAt?_cases place with same | ⟨above, free, inside⟩
      · exact unchanged same
      · cases turned with
        | same kept => exact .made listed above (kept.symm.trans free) inside
        | made _ _ _ there =>
            rw [free] at there
            cases there
        | put _ _ held =>
            rw [free] at held
            cases held
  | put _ _ =>
      by_cases here : placeOf base file = place
      · refine .put listed here ?_
        rw [itemAt?_put placeOf_ne_nil, if_pos here.symm]
      · refine unchanged ?_
        rw [itemAt?_put placeOf_ne_nil, if_neg (Ne.symm here)]

/-- The file of another task stays. -/
theorem stays {bytes : ByteArray} (apart : Separate file other)
    (held : storage.itemAt? (placeOf base other) = some (.file bytes)) :
    after.itemAt? (placeOf base other) = some (.file bytes) := by
  cases progress with
  | making widens _ =>
      rcases widens.itemAt?_cases (placeOf base other) with same | ⟨_, free, _⟩
      · exact same.trans held
      · rw [free] at held
        cases held
  | put _ _ => rw [itemAt?_put placeOf_ne_nil, if_neg apart.ne.symm, held]

end Progress

theorem Working.step {before behind : List Task} {task next : Task}
    (admits : Admits origin directory base files)
    (working : Working origin base files (storage, before ++ task :: behind))
    (steps : task.step directory storage = some (after, next)) :
    Working origin base files (after, before ++ next :: behind) := by
  have listed : task ∈ before ++ task :: behind := List.mem_append_right before List.mem_cons_self
  obtain ⟨sameFile, progress⟩ := progress_of_step admits working listed steps
  have isFile : task.file ∈ files := working.files ▸ List.mem_map_of_mem listed
  have apart : ∀ other ∈ before ++ behind, Separate task.file other.file := by
    have apart := admits.apart
    rw [← working.files, List.pairwise_map] at apart
    have apart := (List.pairwise_middle Separate.symm).1 apart
    exact (List.pairwise_cons.1 apart).1
  constructor
  case tree => exact progress.isTree working.tree
  case keeps => exact working.keeps.trans progress.keepsDirectories
  case turned => exact fun place => progress.turned isFile (working.turned place)
  case files =>
    have files := working.files
    rw [List.map_append, List.map_cons] at files ⊢
    rw [sameFile, files]
  case works =>
    intro other member
    have others (member : other ∈ before ++ behind) : Works after base other := by
      have works : Works storage base other := by
        refine working.works other ?_
        rw [List.mem_append, List.mem_cons]
        exact (List.mem_append.1 member).imp_right .inr
      exact works.later progress.keepsDirectories fun bytes => progress.stays (apart other member)
    rcases List.mem_append.1 member with earlier | later
    · exact others (List.mem_append_left behind earlier)
    · cases List.mem_cons.1 later with
      | inl same =>
          have works := progress.works
          rw [← sameFile] at works
          rw [same]
          exact works
      | inr later => exact others (List.mem_append_right before later)

/-! ## All steps of all tasks -/

theorem file_start (directory : String) (file : File) :
    (Task.start directory file).file = file := by
  unfold Task.start
  split
  next => rfl
  next => rfl

theorem working_start (admits : Admits origin directory base files) :
    Working origin base files (origin, files.map (Task.start directory)) where
  tree := admits.tree
  keeps := ⟨fun _ inside => inside, rfl⟩
  turned _ := .same rfl
  files := by
    rw [List.map_map]
    exact (List.map_congr_left fun file _ => file_start directory file).trans (List.map_id files)
  works := by
    intro task member
    obtain ⟨file, listed, rfl⟩ := List.mem_map.1 member
    have notThere := ne_directory_of_file (admits.agrees file listed).here
    have spells := spells_join (admits.short file listed) admits.spells
    obtain ⟨parent, isParent, spellsAbove⟩ := spells.exists_parent admits.tree notThere
    rw [Task.start, isParent]
    exact .making (.up spellsAbove .nil)

theorem Working.run {state later : Storage × List Task}
    (admits : Admits origin directory base files) (working : Working origin base files state)
    (runs : ReflTransGen (Advances directory) state later) :
    Working origin base files later := by
  induction runs with
  | refl => exact working
  | tail _ advances ih =>
      cases advances with
      | step before behind steps => exact ih.step admits steps

/-- What tasks leave: their files, and directories above them, where nothing was. -/
structure Settled (origin : Storage) (base : Place) (files : List File) (storage : Storage) :
    Prop where
  tree : storage.IsTree
  keeps : KeepsDirectories origin storage
  turned (place : Place) : Turned origin base files storage place
  held : ∀ file ∈ files, storage.itemAt? (placeOf base file) = some (.file file.bytes)

theorem firstFailures_of_ok {results : List (Except OutputError Unit)}
    (succeed : ∀ result ∈ results, result = .ok ()) : firstFailures results = .ok () := by
  induction results with
  | nil => rfl
  | cons result results ih =>
      obtain ⟨rfl, others⟩ := List.forall_mem_cons.1 succeed
      exact ih others

/-- All tasks succeed. -/
theorem settled_of_run {tasks : List Task} {results : List (Except OutputError Unit)}
    (admits : Admits origin directory base files)
    (runs : ReflTransGen (Advances directory) (origin, files.map (Task.start directory))
      (storage, tasks))
    (ended : tasks.map Task.result? = results.map some) :
    Settled origin base files storage ∧ firstFailures results = .ok () := by
  have working := (working_start admits).run admits runs
  refine ⟨⟨working.tree, working.keeps, working.turned, fun file listed => ?_⟩,
    firstFailures_of_ok fun result listed => ?_⟩
  · rw [← working.files] at listed
    obtain ⟨task, member, rfl⟩ := List.mem_map.1 listed
    have hasEnded : task.result? ∈ results.map some := ended ▸ List.mem_map_of_mem member
    obtain ⟨result, _, isResult⟩ := List.mem_map.1 hasEnded
    cases working.works task member with
    | making => cases isResult
    | ended held => exact held
  · have isResult : some result ∈ tasks.map Task.result? := ended ▸ List.mem_map_of_mem listed
    obtain ⟨task, member, isResult⟩ := List.mem_map.1 isResult
    cases working.works task member with
    | making => cases isResult
    | ended => exact (Option.some.inj isResult).symm

namespace Settled

variable (settled : Settled origin base files storage)

include settled

/-- Above a file there is a directory. -/
theorem directory_above (listed : file ∈ files) (above : place <+: (placeOf base file).dropLast) :
    storage.itemAt? place = some .directory := by
  refine settled.tree.directory_above (settled.held file listed)
    (above.trans (List.dropLast_prefix _)) ?_
  rintro rfl
  exact not_prefix_dropLast_placeOf above

/-- What is left does not depend on the order of the steps. -/
theorem itemAt?_eq (settled' : Settled origin base files after) (place : Place) :
    storage.itemAt? place = after.itemAt? place := by
  cases settled.turned place with
  | put listed here held =>
      subst here
      rw [held, settled'.held _ listed]
  | made listed above _ inside => rw [inside, settled'.directory_above listed above]
  | same kept =>
      cases settled'.turned place with
      | put listed here held =>
          subst here
          rw [held, settled.held _ listed]
      | made listed above _ inside => rw [inside, settled.directory_above listed above]
      | same kept' => rw [kept, kept']

end Settled

end WebBundle.Output
