import WebBundle.Proofs.Output.Writing
import WebBundle.Proofs.Storage.Errands

/-!
# Writing files at the same time

The files of an output are written by tasks, of which any one may take the next step. A task makes
the directory of its file and then writes the file. Writing one file after the other is one way for
the tasks to run.
-/

namespace WebBundle.Output

open Relation (ReflTransGen)
open Storage

variable {storage : Storage} {directory : String} {file : File}

/-- What is left to do for a file: to make its directory and write it, or nothing. -/
inductive Stage where
  | making (errand : Errand)
  | ended (result : Except OutputError Unit)

structure Task where
  file : File
  stage : Stage

namespace Task

/-- A task before its first step. -/
def start (directory : String) (file : File) : Task :=
  match Path.parent? (Path.join directory file.path) with
  | none => ⟨file, .making (.down [])⟩
  | some parent => ⟨file, .making (.up parent [])⟩

/-- Writes the file once its directory was made. -/
def finish (directory : String) (storage : Storage) (file : File) : Storage × Task :=
  let path := Path.join directory file.path
  match storage.write path file.bytes with
  | .ok after => (after, ⟨file, .ended (.ok ())⟩)
  | .error fault => (storage, ⟨file, .ended (.error (.inaccessible path fault))⟩)

/-- The next step of a task. -/
def step (directory : String) (storage : Storage) (task : Task) : Option (Storage × Task) :=
  match task.stage with
  | .ended _ => none
  | .making (.failed fault) =>
      let parent := (Path.parent? (Path.join directory task.file.path)).getD ""
      some (storage, ⟨task.file, .ended (.error (.inaccessible parent fault))⟩)
  | .making (.down []) => some (finish directory storage task.file)
  | .making errand =>
      (errand.step storage).map fun (after, next) => (after, ⟨task.file, .making next⟩)

/-- The result of a task that has ended. -/
def result? (task : Task) : Option (Except OutputError Unit) :=
  match task.stage with
  | .making _ => none
  | .ended result => some result

end Task

/-- One of several tasks takes its next step. -/
inductive Advances (directory : String) : Storage × List Task → Storage × List Task → Prop where
  | step {storage after : Storage} {task next : Task} (before behind : List Task)
      (steps : task.step directory storage = some (after, next)) :
      Advances directory (storage, before ++ task :: behind) (after, before ++ next :: behind)

/-- The first failure of several results. -/
def firstFailures (results : List (Except OutputError Unit)) : Except OutputError Unit :=
  results.foldr firstFailure (.ok ())

/-- An output is written by tasks that take their steps in any order. -/
inductive InParallel (storage : Storage) (directory : String) (files : List File) (clean : Bool) :
    Written → Prop where
  | unclear {left : Storage} {error : OutputError}
      (fails : clear storage directory clean = (left, .error error)) :
      InParallel storage directory files clean (left, .error error)
  | unmade {left made : Storage} {error : OutputError}
      (clears : clear storage directory clean = (left, .ok ()))
      (fails : makeDirectories left directory = (made, .error error)) :
      InParallel storage directory files clean (made, .error error)
  | written {left made after : Storage} {tasks : List Task}
      {results : List (Except OutputError Unit)}
      (clears : clear storage directory clean = (left, .ok ()))
      (makes : makeDirectories left directory = (made, .ok ()))
      (runs : ReflTransGen (Advances directory) (made, files.map (Task.start directory))
        (after, tasks))
      (ended : tasks.map Task.result? = results.map some) :
      InParallel storage directory files clean (after, firstFailures results)

/-! ## One file after the other -/

/-- The steps of one task. -/
def TaskSteps (directory : String) (before after : Storage × Task) : Prop :=
  before.2.step directory before.1 = some after

theorem step_of_write {after : Storage}
    (writes : storage.write (Path.join directory file.path) file.bytes = .ok after) :
    (Task.mk file (.making (.down []))).step directory storage =
      some (after, ⟨file, .ended (.ok ())⟩) := by
  have finishes : Task.finish directory storage file = (after, ⟨file, .ended (.ok ())⟩) := by
    unfold Task.finish
    dsimp only
    rw [writes]
  exact congrArg some finishes

theorem steps_of_errand {errand next : Errand} {after : Storage}
    (steps : Errand.Steps (storage, errand) (after, next)) :
    TaskSteps directory (storage, ⟨file, .making errand⟩) (after, ⟨file, .making next⟩) := by
  have steps : errand.step storage = some (after, next) := steps
  cases errand with
  | failed fault => cases steps
  | up path below => simp only [TaskSteps, Task.step, steps, Option.map_some]
  | check path fault below => simp only [TaskSteps, Task.step, steps, Option.map_some]
  | down below =>
      cases below with
      | nil => cases steps
      | cons path below => simp only [TaskSteps, Task.step, steps, Option.map_some]

theorem runs_of_errand {errand next : Errand} {after : Storage}
    (runs : ReflTransGen Errand.Steps (storage, errand) (after, next)) :
    ReflTransGen (TaskSteps directory) (storage, ⟨file, .making errand⟩)
      (after, ⟨file, .making next⟩) := by
  let task (state : Storage × Errand) : Storage × Task := (state.1, ⟨file, .making state.2⟩)
  exact runs.lift task fun _ _ => steps_of_errand

/-- Writing a file takes some steps. -/
theorem runs_writeFile (storage : Storage) (file : File) :
    ReflTransGen (TaskSteps directory) (storage, .start directory file)
      ((writeFile storage directory file).1,
        ⟨file, .ended (writeFile storage directory file).2⟩) := by
  have writes (made : Storage) : TaskSteps directory (made, ⟨file, .making (.down [])⟩)
      (Task.finish directory made file) := rfl
  have finished (made : Storage) (above : makeParent storage (Path.join directory file.path) =
      (made, .ok ())) : Task.finish directory made file =
        ((writeFile storage directory file).1,
          ⟨file, .ended (writeFile storage directory file).2⟩) := by
    unfold Task.finish writeFile
    dsimp only
    rw [above]
    dsimp only
    cases made.write (Path.join directory file.path) file.bytes with
    | ok after => rfl
    | error fault => rfl
  unfold Task.start
  cases isParent : Path.parent? (Path.join directory file.path) with
  | none =>
      have above : makeParent storage (Path.join directory file.path) = (storage, .ok ()) := by
        rw [makeParent, isParent]
      rw [← finished storage above]
      exact .single (writes storage)
  | some parent =>
      have runs := @runs_of_errand storage directory file _ _ _
        (@steps_makeDirectoriesIn storage parent [] _ (Nat.lt_succ_self parent.length))
      cases made : storage.makeDirectories parent with
      | mk after result =>
          have made' := made
          rw [Storage.makeDirectories] at made'
          rw [made'] at runs
          have above : makeParent storage (Path.join directory file.path) =
              (after, orInaccessible parent result) := by
            rw [makeParent, isParent]
            dsimp only
            rw [makeDirectories, made]
          cases result with
          | ok _ =>
              rw [← finished after above]
              exact runs.tail (writes after)
          | error fault =>
              have fails : writeFile storage directory file =
                  (after, .error (.inaccessible parent fault)) := by
                unfold writeFile
                dsimp only
                rw [above]
                rfl
              rw [fails]
              refine runs.tail ?_
              simp only [TaskSteps, Task.step, Errand.returned, isParent, Option.getD_some]

theorem runs_of_task {task next : Task} {after : Storage} (before behind : List Task)
    (runs : ReflTransGen (TaskSteps directory) (storage, task) (after, next)) :
    ReflTransGen (Advances directory) (storage, before ++ task :: behind)
      (after, before ++ next :: behind) := by
  let tasks (state : Storage × Task) : Storage × List Task :=
    (state.1, before ++ state.2 :: behind)
  exact runs.lift tasks fun _ _ steps => .step before behind steps

theorem runs_writeFiles (files : List File) (storage : Storage) (before : List Task) :
    ∃ tasks results, ReflTransGen (Advances directory)
        (storage, before ++ files.map (Task.start directory))
        ((writeFiles storage directory files).1, before ++ tasks) ∧
      tasks.map Task.result? = results.map some ∧
        firstFailures results = (writeFiles storage directory files).2 := by
  induction files generalizing storage before with
  | nil => exact ⟨[], [], .refl, rfl, rfl⟩
  | cons file files ih =>
      let done : Task := ⟨file, .ended (writeFile storage directory file).2⟩
      obtain ⟨tasks, results, runs, ended, first⟩ :=
        ih (writeFile storage directory file).1 (before ++ [done])
      refine ⟨done :: tasks, (writeFile storage directory file).2 :: results, ?_, ?_, ?_⟩
      · rw [List.append_assoc, List.append_assoc] at runs
        rw [writeFiles_cons]
        exact (runs_of_task before _ (runs_writeFile storage file)).trans runs
      · rw [List.map_cons, ended]
        rfl
      · rw [writeFiles]
        exact congrArg (firstFailure _) first

/-- Writing the files one after the other is one way to write them in parallel. -/
theorem inParallel_write (storage : Storage) (directory : String) (files : List File)
    (clean : Bool) :
    InParallel storage directory files clean (write storage directory files clean) := by
  fun_cases write storage directory files clean with
  | case1 left error fails => exact .unclear fails
  | case2 left clears made error fails => exact .unmade clears fails
  | case3 left clears made makes =>
      obtain ⟨tasks, results, runs, ended, first⟩ := @runs_writeFiles directory files made []
      have written := InParallel.written clears makes runs ended
      rwa [first] at written

end WebBundle.Output
