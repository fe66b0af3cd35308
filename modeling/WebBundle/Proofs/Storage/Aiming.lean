import WebBundle.Proofs.Path.Parents
import WebBundle.Proofs.Storage.Parents
import WebBundle.Proofs.Storage.Tree

/-!
# Paths that spell a place

A path spells a place if its steps lead there when missing directories are made on the way: names
go down, and `..` goes up from a directory that is there. If the way to the place is open, what a
walk of the path finds depends on the place alone: the directory at the place, a free name in the
directory above it, or nothing because that directory is missing, too. Then the parent of the path
spells the place above.
-/

namespace WebBundle.Storage

variable {storage after : Storage} {start place other : Place} {step path : String}
  {steps rest : List String}

/-! ## Where steps aim -/

/-- The place to which steps lead from another one, whether there is something on the way or not. -/
def aim (storage : Storage) : Place → List String → Option Place
  | place, [] => some place
  | place, step :: rest =>
      if step = "" || step = "." then aim storage place rest
      else if step = ".." then
        match storage.itemAt? place with
        | some .directory => aim storage place.dropLast rest
        | _ => none
      else if nameBound < step.utf8ByteSize then none
      else aim storage (place ++ [step]) rest

theorem aim_still (still : IsStill step) :
    storage.aim place (step :: rest) = storage.aim place rest := by
  rw [aim, if_pos still]

theorem aim_name (isName : IsName step) :
    storage.aim place (step :: rest) = storage.aim (place ++ [step]) rest := by
  rw [aim, if_neg isName.moves, if_neg isName.notUp, if_neg isName.short]

theorem aim_up (inside : storage.itemAt? place = some .directory) :
    storage.aim place (".." :: rest) = storage.aim place.dropLast rest := by
  rw [aim, inside]
  rfl

/-- The first step of an aim. -/
theorem cases_of_aim (aims : storage.aim place (step :: rest) = some other) :
    (IsStill step ∧ storage.aim place rest = some other) ∨
      (step = ".." ∧ storage.itemAt? place = some .directory ∧
        storage.aim place.dropLast rest = some other) ∨
      (IsName step ∧ storage.aim (place ++ [step]) rest = some other) := by
  rw [aim] at aims
  split at aims
  next still => exact .inl ⟨still, aims⟩
  next moves =>
    split at aims
    next up =>
      split at aims
      next inside => exact .inr (.inl ⟨up, inside, aims⟩)
      next => cases aims
    next notUp =>
      split at aims
      next => cases aims
      next short => exact .inr (.inr ⟨⟨moves, notUp, short⟩, aims⟩)

theorem aim_append : storage.aim place (steps ++ rest) =
    (storage.aim place steps).bind fun place => storage.aim place rest := by
  fun_induction storage.aim place steps with
  | case1 => rfl
  | case2 place step steps still ih => rw [List.cons_append, aim_still still, ih]
  | case3 place steps inside _ ih => rw [List.cons_append, aim_up inside, ih]
  | case4 place steps outside =>
      rw [List.cons_append, aim, if_neg (by decide), if_pos rfl]
      cases held : storage.itemAt? place with
      | none => rfl
      | some item =>
          cases item with
          | directory => exact absurd held outside
          | file bytes => rfl
          | link target => rfl
  | case5 place step steps moves notUp long =>
      rw [List.cons_append, aim, if_neg moves, if_neg notUp, if_pos long]
      rfl
  | case6 place step steps moves notUp short ih =>
      rw [List.cons_append, aim_name ⟨moves, notUp, short⟩, ih]

theorem aim_stills (still : ∀ step ∈ steps, IsStill step) :
    storage.aim place steps = some place := by
  induction steps with
  | nil => rfl
  | cons step steps ih =>
      rw [aim_still (still step List.mem_cons_self)]
      exact ih fun other listed => still other (List.mem_cons_of_mem step listed)

theorem aim_names (areNames : ∀ step ∈ steps, IsName step) :
    storage.aim place steps = some (place ++ steps) := by
  induction steps generalizing place with
  | nil => rw [List.append_nil, aim]
  | cons step steps ih =>
      rw [aim_name (areNames step List.mem_cons_self),
        ih fun other listed => areNames other (List.mem_cons_of_mem step listed), List.append_assoc]
      rfl

/-- Directories that are there stay. -/
structure KeepsDirectories (before after : Storage) : Prop where
  directory (place : Place) (inside : before.itemAt? place = some .directory) :
    after.itemAt? place = some .directory
  workingDirectory : after.workingDirectory = before.workingDirectory

theorem KeepsDirectories.trans {later : Storage} (first : KeepsDirectories storage after)
    (second : KeepsDirectories after later) : KeepsDirectories storage later :=
  ⟨fun place inside => second.directory place (first.directory place inside),
    second.workingDirectory.trans first.workingDirectory⟩

theorem WritesOnly.keepsDirectories {contents : List ByteArray}
    (only : WritesOnly contents storage after) : KeepsDirectories storage after :=
  ⟨fun _ => only.directory, only.workingDirectory⟩

theorem KeepsDirectories.aim (keeps : KeepsDirectories storage after)
    (aims : storage.aim place steps = some other) : after.aim place steps = some other := by
  induction steps generalizing place with
  | nil => exact aims
  | cons step steps ih =>
      rcases cases_of_aim aims with ⟨still, aims⟩ | ⟨rfl, inside, aims⟩ | ⟨isName, aims⟩
      · rw [aim_still still, ih aims]
      · rw [aim_up (keeps.directory place inside), ih aims]
      · rw [aim_name isName, ih aims]

/-! ## Walks that aim at a place -/

/-- The places above a place, and the place itself, are free or directories. -/
def Open (storage : Storage) (place : Place) : Prop :=
  ∀ other, other <+: place →
    storage.itemAt? other = none ∨ storage.itemAt? other = some .directory

theorem Open.above (isOpen : storage.Open place) (above : other <+: place) : storage.Open other :=
  fun upper inside => isOpen upper (inside.trans above)

theorem IsTree.directory_of_prefix (tree : storage.IsTree) (above : place <+: other)
    (inside : storage.itemAt? other = some .directory) :
    storage.itemAt? place = some .directory := by
  by_cases same : place = other
  · rw [same, inside]
  · exact tree.directory_above inside above same

/-- The way to a directory is open. -/
theorem IsTree.open_of_directory (tree : storage.IsTree)
    (inside : storage.itemAt? place = some .directory) : storage.Open place :=
  fun _ above => .inr (tree.directory_of_prefix above inside)

/-- Steps lead up from directories only. -/
theorem IsTree.directory_or_above (tree : storage.IsTree)
    (aims : storage.aim place steps = some other) :
    storage.itemAt? place = some .directory ∨ place <+: other := by
  induction steps generalizing place with
  | nil =>
      obtain rfl := Option.some.inj aims
      exact .inr (List.prefix_refl place)
  | cons step steps ih =>
      rcases cases_of_aim aims with ⟨_, aims⟩ | ⟨_, inside, _⟩ | ⟨_, aims⟩
      · exact ih aims
      · exact .inl inside
      · exact (ih aims).imp (tree.directory_of_prefix (List.prefix_append _ _))
          fun above => (List.prefix_append _ _).trans above

theorem IsTree.directory_of_aim (tree : storage.IsTree)
    (aims : storage.aim place steps = some other)
    (inside : storage.itemAt? other = some .directory) :
    storage.itemAt? place = some .directory := by
  rcases tree.directory_or_above aims with found | above
  · exact found
  · exact tree.directory_of_prefix above inside

/-- A walk goes on from the directory at which its first steps aim. -/
theorem IsTree.walk_of_aim {follow : Bool} {links : Nat} (tree : storage.IsTree)
    (aims : storage.aim place steps = some other)
    (inside : storage.itemAt? other = some .directory) :
    storage.walk follow links place (steps ++ rest) = storage.walk follow links other rest := by
  induction steps generalizing place with
  | nil =>
      obtain rfl := Option.some.inj aims
      rfl
  | cons step steps ih =>
      have found := tree.directory_of_aim aims inside
      rw [List.cons_append]
      rcases cases_of_aim aims with ⟨still, aims⟩ | ⟨rfl, _, aims⟩ | ⟨isName, aims⟩
      · rw [walk_still found still, ih aims]
      · rw [walk_up found, ih aims]
      · rw [walk_on found isName (tree.directory_of_aim aims inside) nofun, ih aims]

/-- A walk is lost above the free place at which its first steps aim. -/
theorem IsTree.walk_missing {follow : Bool} {links : Nat} (tree : storage.IsTree)
    (isOpen : storage.Open other) (aims : storage.aim place steps = some other)
    (free : storage.itemAt? other = none) (moves : ¬IsStill step) :
    storage.walk follow links place (steps ++ step :: rest) = .error .missing := by
  have stops {place : Place} {steps : List String} (missing : storage.itemAt? place = none) :
      storage.walk follow links place steps = .error .missing := by
    rw [walk.eq_def]
    simp only [missing]
  have found {place : Place} {steps : List String} (aims : storage.aim place steps = some other) :
      storage.itemAt? place = none ∨ storage.itemAt? place = some .directory :=
    (tree.directory_or_above aims).elim .inr (isOpen place)
  induction steps generalizing place with
  | nil =>
      obtain rfl := Option.some.inj aims
      exact stops free
  | cons first steps ih =>
      rcases found aims with missing | inside
      · exact stops missing
      · rw [List.cons_append]
        rcases cases_of_aim aims with ⟨still, aims⟩ | ⟨rfl, _, aims⟩ | ⟨isName, aims⟩
        · rw [walk_still inside still, ih aims]
        · rw [walk_up inside, ih aims]
        · rcases found aims with missing | there
          · rw [walk.eq_def]
            have goesOn : ¬((steps ++ step :: rest).all fun step => step = "") = true := by
              intro empty
              have last := List.all_eq_true.1 empty step (by simp)
              rw [of_decide_eq_true last] at moves
              exact moves rfl
            simp only [inside, isName.moves, isName.notUp, isName.short, missing, goesOn, if_false,
              Bool.false_eq_true]
          · rw [walk_on inside isName there nofun, ih aims]

/-! ## Paths -/

/-- Where the walk of a path begins. -/
def startOf (storage : Storage) (path : String) : Place :=
  if Path.isAbsolute path then [] else storage.workingDirectory

/-- The path leads to the place when the missing directories on the way are made. It ends in the
name of the place, perhaps with slashes behind it, unless there is a directory already. -/
structure Spells (storage : Storage) (path : String) (place : Place) : Prop where
  begins : storage.itemAt? (storage.startOf path) = some .directory
  aims : storage.aim (storage.startOf path) (stepsOf path) = some place
  isPath : path = "" ∨ IsPath path
  ends : storage.itemAt? place = some .directory ∨ Path.EndsInName path

theorem locate_eq_walk_startOf {follow : Bool} (isPath : IsPath path) :
    storage.locate follow path =
      storage.walk follow linkBound (storage.startOf path) (stepsOf path) :=
  locate_eq_walk isPath follow

theorem ne_directory_of_free (free : storage.itemAt? place = none) :
    storage.itemAt? place ≠ some .directory := by
  rw [free]
  exact nofun

theorem not_isStill_ofList {segment : List Char} (moves : Path.isStill segment = false) :
    ¬IsStill (String.ofList segment) := by
  rw [IsStill, Path.isStill_ofList, moves]
  exact Bool.false_ne_true

theorem KeepsDirectories.startOf_eq (keeps : KeepsDirectories storage after) :
    after.startOf path = storage.startOf path := by
  rw [startOf, startOf, keeps.workingDirectory]

namespace Spells

variable (spells : storage.Spells path place)

include spells

theorem later (keeps : KeepsDirectories storage after) : after.Spells path place where
  begins := keeps.startOf_eq ▸ keeps.directory _ spells.begins
  aims := keeps.startOf_eq ▸ keeps.aim spells.aims
  isPath := spells.isPath
  ends := spells.ends.imp_left (keeps.directory place)

theorem directory_of_empty (empty : path = "") : storage.itemAt? place = some .directory :=
  spells.ends.resolve_right fun ends => ends.ne_empty empty

theorem isPath_of_ne (notThere : storage.itemAt? place ≠ some .directory) : IsPath path :=
  spells.isPath.resolve_left fun empty => notThere (spells.directory_of_empty empty)

theorem locate_directory {follow : Bool} (tree : storage.IsTree) (nonempty : path ≠ "")
    (inside : storage.itemAt? place = some .directory) :
    storage.locate follow path = .ok (.taken place .directory) := by
  rw [locate_eq_walk_startOf (spells.isPath.resolve_left nonempty),
    ← List.append_nil (stepsOf path), tree.walk_of_aim spells.aims inside, walk_nil inside]

/-- The last step of a path to a place at which no directory is, is the name of the place. -/
theorem exists_name (notThere : storage.itemAt? place ≠ some .directory) :
    ∃ front name behind, Path.segments path = front ++ name :: behind ∧
      Path.isStill name = false ∧ (∀ segment ∈ behind, segment = []) ∧
      IsName (String.ofList name) ∧ place = place.dropLast ++ [String.ofList name] ∧
      storage.aim (storage.startOf path) (front.map String.ofList) = some place.dropLast := by
  obtain ⟨front, name, behind, shape, moves, notUp, empty⟩ := spells.ends.resolve_left notThere
  have aims := spells.aims
  have still := isStill_of_mem_map (Path.isStill_of_forall_nil empty)
  rw [stepsOf, shape, List.map_append, List.map_cons, aim_append, Option.bind_eq_some_iff] at aims
  obtain ⟨above, aimsAbove, aims⟩ := aims
  have notUp' : String.ofList name ≠ ".." := by
    intro up
    rw [← String.toList_inj, String.toList_ofList] at up
    exact notUp up
  rcases cases_of_aim aims with ⟨still, _⟩ | ⟨up, _⟩ | ⟨isName, aims⟩
  · exact absurd still (not_isStill_ofList moves)
  · exact absurd up notUp'
  · rw [aim_stills still] at aims
    obtain rfl := Option.some.inj aims
    refine ⟨front, name, behind, shape, moves, empty, isName, ?_, ?_⟩
    · rw [List.dropLast_concat]
    · rw [List.dropLast_concat, aimsAbove]

theorem locate_vacant {follow : Bool} (tree : storage.IsTree) (free : storage.itemAt? place = none)
    (inside : storage.itemAt? place.dropLast = some .directory) :
    ∃ name slash, place = place.dropLast ++ [name] ∧
      storage.locate follow path = .ok (.vacant place.dropLast name slash) := by
  have notThere := ne_directory_of_free free
  obtain ⟨front, name, behind, shape, _, empty, isName, isPlace, aims⟩ :=
    spells.exists_name notThere
  have isEnd : ((behind.map String.ofList).all fun step => step = "") = true := by
    rw [List.all_map, List.all_eq_true]
    intro segment listed
    rw [empty segment listed]
    rfl
  refine ⟨String.ofList name, !(behind.map String.ofList).isEmpty, isPlace, ?_⟩
  rw [locate_eq_walk_startOf (spells.isPath_of_ne notThere), stepsOf, shape, List.map_append,
    tree.walk_of_aim aims inside, List.map_cons, walk_vacant inside isName (isPlace ▸ free) isEnd]

theorem locate_missing {follow : Bool} (tree : storage.IsTree) (isOpen : storage.Open place)
    (missing : storage.itemAt? place.dropLast = none) :
    storage.locate follow path = .error .missing := by
  have notThere := ne_directory_of_free (tree.free_below missing (List.dropLast_prefix place))
  obtain ⟨front, name, behind, shape, moves, _, _, _, aims⟩ := spells.exists_name notThere
  rw [locate_eq_walk_startOf (spells.isPath_of_ne notThere), stepsOf, shape, List.map_append]
  exact tree.walk_missing (isOpen.above (List.dropLast_prefix place)) aims missing
    (not_isStill_ofList moves)

/-- The parent of a path spells the place above. -/
theorem exists_parent (tree : storage.IsTree)
    (notThere : storage.itemAt? place ≠ some .directory) :
    ∃ parent, Path.parent? path = some parent ∧ storage.Spells parent place.dropLast := by
  obtain ⟨front, name, behind, shape, moves, empty, _, _, aims⟩ := spells.exists_name notThere
  obtain ⟨parent, up⟩ := Path.exists_goesUp shape moves (Path.isStill_of_forall_nil empty)
  obtain ⟨kept, between, more, isFront, still, shape', empty', top⟩ := up.shape
  have same : storage.startOf parent = storage.startOf path := by
    rw [startOf, startOf, up.absolute]
  have aimsKept : storage.aim (storage.startOf path) (kept.map String.ofList) =
      some place.dropLast := by
    rw [isFront, List.map_append, aim_append, Option.bind_eq_some_iff] at aims
    obtain ⟨above, aimsKept, aims⟩ := aims
    rw [aim_stills (isStill_of_mem_map still)] at aims
    rw [aimsKept, aims]
  refine ⟨parent, up.isParent, ⟨same ▸ spells.begins, ?_, ?_, ?_⟩⟩
  · rw [same, stepsOf, shape', List.map_append, aim_append, aimsKept, Option.bind_some,
      aim_stills (isStill_of_mem_map (Path.isStill_of_forall_nil empty'))]
  · by_cases nothing : parent = ""
    · exact .inl nothing
    · exact .inr ((spells.isPath_of_ne notThere).of_shorter nothing up.sublist)
  · rcases top with stills | ⟨earlier, top, isKept, movesTop⟩
    · rw [aim_stills (isStill_of_mem_map stills)] at aimsKept
      exact .inl (Option.some.inj aimsKept ▸ spells.begins)
    · by_cases isUp : top = ['.', '.']
      · -- A step up is taken from a directory, and leads to one.
        rw [isKept, isUp, List.map_append, aim_append, Option.bind_eq_some_iff] at aimsKept
        obtain ⟨above, _, aims⟩ := aimsKept
        rcases cases_of_aim aims with ⟨still, _⟩ | ⟨_, inside, aims⟩ | ⟨isName, _⟩
        · cases still
        · rw [← Option.some.inj aims]
          exact .inl (tree.directory_of_prefix (List.dropLast_prefix _) inside)
        · exact absurd rfl isName.notUp
      · refine .inr ⟨earlier, top, more, ?_, movesTop, isUp, empty'⟩
        rw [shape', isKept, List.append_assoc]
        rfl

end Spells

end WebBundle.Storage
