import Mathlib.Data.String.Basic
import WebBundle.Proofs.Path.Parents
import WebBundle.Proofs.Storage.Steps
import WebBundle.Proofs.Storage.Writing

/-!
# Walks along a path and its parent

Where the parent of a path leads to a directory, the path leads to its last name in it. A walk that
ends at a free name ends at a directory once there is one.
-/

namespace WebBundle.Storage

variable {storage : Storage} {follow : Bool} {links : Nat} {start place : Place} {item : Item}
  {steps : List String}

/-! ## Walks in parts -/

/-- A walk goes on where its beginning leads, whatever comes then, with the links that are left. -/
theorem exists_walk_onwards
    (ends : storage.walk true links start steps = .ok (.taken place item)) :
    ∃ left, left ≤ links ∧ ∀ {follow : Bool} {rest : List String},
      ¬(rest.isEmpty && !follow) = true →
        storage.walk follow links start (steps ++ rest) = storage.walk follow left place rest := by
  fun_induction storage.walk true links start steps with
  | case2 =>
      cases ends
      exact ⟨_, Nat.le_refl _, fun _ => rfl⟩
  | case3 _ _ _ _ found still ih =>
      obtain ⟨left, le, onwards⟩ := ih ends
      refine ⟨left, le, fun goesOn => ?_⟩
      rw [List.cons_append, walk_still found still]
      exact onwards goesOn
  | case4 _ _ _ found _ ih =>
      obtain ⟨left, le, onwards⟩ := ih ends
      refine ⟨left, le, fun goesOn => ?_⟩
      rw [List.cons_append, walk_up found]
      exact onwards goesOn
  | case8 _ _ _ _ _ _ _ _ _ _ isEnd => simp at isEnd
  | case11 _ _ behind found moves notUp short _ link _ _ nonempty ih =>
      obtain ⟨left, le, onwards⟩ := ih ends
      refine ⟨left, Nat.le_succ_of_le le, fun {follow rest} goesOn => ?_⟩
      have later : ¬((behind ++ rest).isEmpty && !follow) = true := by
        cases rest with
        | nil =>
            have follows : follow = true := by simpa using goesOn
            simp [follows]
        | cons step rest => simp
      rw [List.cons_append, walk_link found ⟨moves, notUp, short⟩ link later nonempty,
        ← List.append_assoc]
      exact onwards goesOn
  | case12 _ _ _ _ found moves notUp short _ noLink there ih =>
      obtain ⟨left, le, onwards⟩ := ih ends
      refine ⟨left, le, fun goesOn => ?_⟩
      rw [List.cons_append, walk_on found ⟨moves, notUp, short⟩ there noLink]
      exact onwards goesOn
  | _ => cases ends

/-- A walk that may follow more links ends at the same place. -/
theorem walk_of_le {more : Nat} {location : Location} (le : links ≤ more)
    (ends : storage.walk follow links start steps = .ok location) :
    storage.walk follow more start steps = .ok location := by
  fun_induction storage.walk follow links start steps generalizing more with
  | case2 _ _ _ found => exact (walk_nil found).trans ends
  | case3 _ _ _ _ found still ih => exact (walk_still found still).trans (ih le ends)
  | case4 _ _ _ found _ ih => exact (walk_up found).trans (ih le ends)
  | case6 _ _ _ _ found moves notUp short free isEnd =>
      exact (walk_vacant found ⟨moves, notUp, short⟩ free isEnd).trans ends
  | case8 _ _ _ _ found moves notUp short _ link isEnd =>
      exact (walk_link_end found ⟨moves, notUp, short⟩ link isEnd).trans ends
  | case11 _ _ _ found moves notUp short _ link goesOn _ nonempty ih =>
      obtain ⟨more, rfl⟩ := Nat.exists_eq_add_of_le' (Nat.le_trans (Nat.le_add_left 1 _) le)
      exact (walk_link found ⟨moves, notUp, short⟩ link goesOn nonempty).trans
        (ih (Nat.le_of_succ_le_succ le) ends)
  | case12 _ _ _ _ found moves notUp short _ noLink there ih =>
      exact (walk_on found ⟨moves, notUp, short⟩ there noLink).trans (ih le ends)
  | _ => cases ends

theorem exists_walk_append {rest : List String}
    (ends : storage.walk true links start steps = .ok (.taken place item)) (goesOn : rest ≠ []) :
    ∃ left, storage.walk follow links start (steps ++ rest) =
      storage.walk follow left place rest := by
  obtain ⟨left, _, onwards⟩ := exists_walk_onwards ends
  exact ⟨left, onwards (by simp [goesOn])⟩

/-- The beginning of a walk to an item leads to an item, a directory if the walk goes on. -/
theorem exists_walk_of_append {before rest : List String}
    (ends : storage.walk true links start (before ++ rest) = .ok (.taken place item)) :
    ∃ place' item', storage.walk true links start before = .ok (.taken place' item') ∧
      (rest ≠ [] → item' = .directory) := by
  generalize whole : before ++ rest = steps at ends
  fun_induction storage.walk true links start steps generalizing before with
  | case2 _ _ _ found =>
      obtain ⟨rfl, rfl⟩ := List.append_eq_nil_iff.1 whole
      exact ⟨_, _, walk_nil found, fun goesOn => absurd rfl goesOn⟩
  | case3 _ _ _ _ found still ih =>
      cases before with
      | nil => exact ⟨_, _, walk_nil found, fun _ => rfl⟩
      | cons step before =>
          obtain ⟨rfl, rest⟩ := List.cons.inj whole
          rw [walk_still found still]
          exact ih rest ends
  | case4 _ _ _ found _ ih =>
      cases before with
      | nil => exact ⟨_, _, walk_nil found, fun _ => rfl⟩
      | cons step before =>
          obtain ⟨rfl, rest⟩ := List.cons.inj whole
          rw [walk_up found]
          exact ih rest ends
  | case8 _ _ _ _ _ _ _ _ _ _ isEnd => simp at isEnd
  | case11 _ _ _ found moves notUp short _ link _ _ nonempty ih =>
      cases before with
      | nil => exact ⟨_, _, walk_nil found, fun _ => rfl⟩
      | cons step before =>
          obtain ⟨rfl, rfl⟩ := List.cons.inj whole
          rw [walk_link found ⟨moves, notUp, short⟩ link (by simp) nonempty]
          exact ih (List.append_assoc _ _ _) ends
  | case12 _ _ _ _ found moves notUp short _ noLink there ih =>
      cases before with
      | nil => exact ⟨_, _, walk_nil found, fun _ => rfl⟩
      | cons step before =>
          obtain ⟨rfl, rest⟩ := List.cons.inj whole
          rw [walk_on found ⟨moves, notUp, short⟩ there noLink]
          exact ih rest ends
  | _ => cases ends

theorem walk_stills {behind : List String} (found : storage.itemAt? place = some .directory)
    (still : ∀ step ∈ steps, IsStill step) :
    storage.walk follow links place (steps ++ behind) =
      storage.walk follow links place behind := by
  induction steps with
  | nil => rfl
  | cons step steps ih =>
      rw [List.cons_append, walk_still found (still step List.mem_cons_self)]
      exact ih fun other listed => still other (List.mem_cons_of_mem step listed)

theorem walk_append_stills {stills : List String} (still : ∀ step ∈ stills, IsStill step)
    (ends : storage.walk true links start steps = .ok (.taken place .directory)) :
    storage.walk true links start (steps ++ stills) = .ok (.taken place .directory) := by
  have found : storage.itemAt? place = some .directory := stands_of_walk ends
  cases stills with
  | nil => rwa [List.append_nil]
  | cons step rest =>
      obtain ⟨left, onwards⟩ :=
        @exists_walk_append storage true _ _ _ _ _ _ ends (List.cons_ne_nil step rest)
      rw [onwards, ← List.append_nil (step :: rest), walk_stills found still, walk_nil found]

/-! ## Free names -/

theorem of_walk_vacant {name : String} {slash : Bool}
    (ends : storage.walk follow links start steps = .ok (.vacant place name slash)) :
    storage.itemAt? place = some .directory ∧ IsName name := by
  fun_induction storage.walk follow links start steps with
  | case3 _ _ _ _ _ _ ih => exact ih ends
  | case4 _ _ _ _ _ ih => exact ih ends
  | case6 _ _ _ _ found moves notUp short =>
      cases ends
      exact ⟨found, moves, notUp, short⟩
  | case11 _ _ _ _ _ _ _ _ _ _ _ _ ih => exact ih ends
  | case12 _ _ _ _ _ _ _ _ _ _ _ ih => exact ih ends
  | _ => cases ends

theorem walk_stills_ne_vacant (still : ∀ step ∈ steps, IsStill step) {name : String}
    {slash : Bool} : storage.walk follow links start steps ≠ .ok (.vacant place name slash) := by
  intro ends
  fun_induction storage.walk follow links start steps with
  | case3 _ _ step _ _ _ ih => exact ih (fun other listed => still other (.tail step listed)) ends
  | case4 => cases still ".." List.mem_cons_self
  | case6 _ _ step _ _ moves => exact moves (still step List.mem_cons_self)
  | case11 _ step _ _ moves => exact moves (still step List.mem_cons_self)
  | case12 _ _ step _ _ moves => exact moves (still step List.mem_cons_self)
  | _ => cases ends

/-- A walk whose last step is a dot step, perhaps with slashes behind it, does not end at a free
name. -/
theorem walk_dots_ne_vacant {before empties : List String} {last : String}
    (isDots : last = "." ∨ last = "..") (empty : ∀ step ∈ empties, step = "") {name : String}
    {slash : Bool} :
    storage.walk follow links start (before ++ last :: empties) ≠ .ok (.vacant place name slash) := by
  intro ends
  have still : ∀ step ∈ empties, IsStill step := fun step listed => empty step listed ▸ rfl
  generalize whole : before ++ last :: empties = steps at ends
  fun_induction storage.walk follow links start steps generalizing before with
  | case3 _ _ _ _ _ _ ih =>
      cases before with
      | nil =>
          obtain ⟨rfl, rfl⟩ := List.cons.inj whole
          exact walk_stills_ne_vacant still ends
      | cons step before => exact ih (List.cons.inj whole).2 ends
  | case4 _ _ _ _ _ ih =>
      cases before with
      | nil =>
          obtain ⟨rfl, rfl⟩ := List.cons.inj whole
          exact walk_stills_ne_vacant still ends
      | cons step before => exact ih (List.cons.inj whole).2 ends
  | case6 _ _ _ rest _ moves notUp _ _ isEnd =>
      cases before with
      | nil =>
          obtain ⟨rfl, _⟩ := List.cons.inj whole
          exact isDots.elim (fun dot => moves (by simp [dot])) notUp
      | cons step before =>
          have listed : last ∈ rest := (List.cons.inj whole).2 ▸ by simp
          obtain rfl := of_decide_eq_true (List.all_eq_true.1 isEnd last listed)
          simp at isDots
  | case11 _ _ _ _ moves notUp _ _ _ _ _ _ ih =>
      cases before with
      | nil =>
          obtain ⟨rfl, _⟩ := List.cons.inj whole
          exact isDots.elim (fun dot => moves (by simp [dot])) notUp
      | cons step before =>
          obtain ⟨rfl, rfl⟩ := List.cons.inj whole
          exact ih (List.append_assoc _ _ _) ends
  | case12 _ _ _ _ _ moves notUp _ _ _ _ ih =>
      cases before with
      | nil =>
          obtain ⟨rfl, _⟩ := List.cons.inj whole
          exact isDots.elim (fun dot => moves (by simp [dot])) notUp
      | cons step before => exact ih (List.cons.inj whole).2 ends
  | _ => cases ends

/-- A walk to a free name ends at the directory that is made there. -/
theorem WritesOnly.walk_directory {contents : List ByteArray} {after : Storage}
    (only : WritesOnly contents storage after) {name : String} {slash : Bool}
    (ends : storage.walk follow links start steps = .ok (.vacant place name slash))
    (there : after.itemAt? (place ++ [name]) = some .directory) :
    after.walk follow links start steps = .ok (.taken (place ++ [name]) .directory) := by
  fun_induction storage.walk follow links start steps with
  | case3 _ _ _ _ found still ih => exact (walk_still (only.directory found) still).trans (ih ends)
  | case4 _ _ _ found _ ih => exact (walk_up (only.directory found)).trans (ih ends)
  | case6 _ _ _ rest found moves notUp short _ isEnd =>
      cases ends
      have still : ∀ step ∈ rest, IsStill step :=
        fun step listed => of_decide_eq_true (List.all_eq_true.1 isEnd step listed) ▸ rfl
      rw [walk_on (only.directory found) ⟨moves, notUp, short⟩ there (by simp),
        ← List.append_nil rest, walk_stills there still, walk_nil there]
  | case11 _ _ _ found moves notUp short _ link goesOn _ nonempty ih =>
      exact (walk_link (only.directory found) ⟨moves, notUp, short⟩ (only.link link) goesOn
        nonempty).trans (ih ends)
  | case12 _ _ _ _ found moves notUp short _ isItem standing ih =>
      obtain ⟨later, thereLater, noLink⟩ := only.exists_item standing isItem
      exact (walk_on (only.directory found) ⟨moves, notUp, short⟩ thereLater noLink).trans (ih ends)
  | _ => cases ends

/-- Where a path that led to a free name leads to a file later, there is a file of that name. -/
theorem WritesOnly.exists_file_of_vacant {contents : List ByteArray} {after : Storage}
    {other : Place} {name : String} {slash : Bool} {bytes : ByteArray}
    (only : WritesOnly contents storage after)
    (free : storage.locate follow path = .ok (.vacant place name slash))
    (ends : after.locate follow path = .ok (.taken other (.file bytes))) :
    ∃ bytes, after.itemAt? (place ++ [name]) = some (.file bytes) := by
  have vacant : storage.itemAt? (place ++ [name]) = none := stands_of_locate free
  cases found : after.itemAt? (place ++ [name]) with
  | none =>
      rw [only.locate free found] at ends
      cases ends
  | some item =>
      cases item with
      | file bytes => exact ⟨bytes, rfl⟩
      | directory =>
          have isPath := isPath_of_locate free
          rw [locate_eq_walk isPath] at free ends
          rw [only.workingDirectory, only.walk_directory free found] at ends
          cases ends
      | link target =>
          have change := only.items (place ++ [name])
          rw [vacant, found] at change
          cases change

/-- Where a walk has lost its way in a storage from which a place was removed, it lies there. -/
theorem prefix_of_walk_removeAt {gone final : Place} {name : String} {slash : Bool}
    (lost : (storage.removeAt gone).walk follow links start steps = .ok (.vacant place name slash))
    (ends : storage.walk true links start steps = .ok (.taken final item)) :
    gone <+: place ++ [name] := by
  fun_induction (storage.removeAt gone).walk follow links start steps with
  | case3 _ _ _ _ found still ih =>
      rw [walk_still (itemAt?_of_removeAt found) still] at ends
      exact ih lost ends
  | case4 _ _ _ found _ ih =>
      rw [walk_up (itemAt?_of_removeAt found)] at ends
      exact ih lost ends
  | case6 _ _ _ _ found moves notUp short free isEnd =>
      cases lost
      by_contra outside
      rw [itemAt?_removeAt_of_not outside] at free
      rw [walk_vacant (itemAt?_of_removeAt found) ⟨moves, notUp, short⟩ free isEnd] at ends
      cases ends
  | case11 _ _ _ found moves notUp short _ link _ _ nonempty ih =>
      rw [walk_link (itemAt?_of_removeAt found) ⟨moves, notUp, short⟩ (itemAt?_of_removeAt link)
        (by simp) nonempty] at ends
      exact ih lost ends
  | case12 _ _ _ _ found moves notUp short _ noLink there ih =>
      rw [walk_on (itemAt?_of_removeAt found) ⟨moves, notUp, short⟩ (itemAt?_of_removeAt there)
        noLink] at ends
      exact ih lost ends
  | _ => cases lost

/-- What a walk reaches after a place was removed, it reached before. -/
theorem walk_of_removeAt {gone : Place}
    (ends : (storage.removeAt gone).walk follow links start steps = .ok (.taken place item)) :
    storage.walk follow links start steps = .ok (.taken place item) := by
  fun_induction (storage.removeAt gone).walk follow links start steps with
  | case2 _ _ _ found => exact (walk_nil (itemAt?_of_removeAt found)).trans ends
  | case3 _ _ _ _ found still ih =>
      exact (walk_still (itemAt?_of_removeAt found) still).trans (ih ends)
  | case4 _ _ _ found _ ih => exact (walk_up (itemAt?_of_removeAt found)).trans (ih ends)
  | case8 _ _ _ _ found moves notUp short _ link isEnd =>
      exact (walk_link_end (itemAt?_of_removeAt found) ⟨moves, notUp, short⟩
        (itemAt?_of_removeAt link) isEnd).trans ends
  | case11 _ _ _ found moves notUp short _ link goesOn _ nonempty ih =>
      exact (walk_link (itemAt?_of_removeAt found) ⟨moves, notUp, short⟩
        (itemAt?_of_removeAt link) goesOn nonempty).trans (ih ends)
  | case12 _ _ _ _ found moves notUp short _ noLink there ih =>
      exact (walk_on (itemAt?_of_removeAt found) ⟨moves, notUp, short⟩
        (itemAt?_of_removeAt there) noLink).trans (ih ends)
  | _ => cases ends

/-! ## Paths and their parents -/

variable {path parent : String}

/-- A path whose text is part of that of another one is no longer. -/
theorem IsPath.of_shorter {other : String} (isPath : IsPath other) (nonempty : path ≠ "")
    (shorter : path.toList.Sublist other.toList) : IsPath path := by
  constructor
  case nonempty => exact fun empty => nonempty (String.isEmpty_iff.1 empty)
  case valid =>
    intro invalid
    obtain ⟨c, member, zero⟩ := List.any_eq_true.1 invalid
    exact isPath.valid (List.any_eq_true.2 ⟨c, shorter.subset member, zero⟩)
  case short =>
    intro long
    refine isPath.short (Nat.le_trans long ?_)
    have size (text : String) : text.utf8ByteSize = String.utf8Len text.toList := by
      rw [← String.utf8ByteSize_ofList, String.ofList_toList]
    rw [size, size]
    exact String.utf8Len_le_of_sublist shorter

theorem isStill_of_mem_map {segments : List (List Char)}
    (still : ∀ segment ∈ segments, Path.isStill segment = true) :
    ∀ step ∈ segments.map String.ofList, IsStill step := by
  intro step listed
  obtain ⟨segment, member, rfl⟩ := List.mem_map.1 listed
  exact (Path.isStill_ofList segment).trans (still segment member)

theorem thins_append_stills {stills : List String} (still : ∀ step ∈ stills, IsStill step) :
    Thins (steps ++ stills) steps := by
  have dropped : Thins stills [] := by
    induction stills with
    | nil => exact .nil
    | cons step stills ih =>
        exact .skip (still step List.mem_cons_self)
          (ih fun other listed => still other (List.mem_cons_of_mem step listed))
  have kept := dropped.append_left steps
  rwa [List.append_nil] at kept

/-- Where a path is put below a directory, the walk comes to the directory first. -/
theorem walk_front (ends : storage.locate true path = .ok (.taken place .directory)) :
    storage.walk true linkBound (if Path.isAbsolute path then [] else storage.workingDirectory)
      ((Path.frontSegments path).map String.ofList) = .ok (.taken place .directory) := by
  have isPath := isPath_of_locate ends
  obtain ⟨more, shape, still⟩ :=
    Path.exists_segments_eq fun empty => isPath.nonempty (String.isEmpty_iff.2 empty)
  rw [locate_eq_walk isPath, stepsOf, shape, List.map_append] at ends
  exact walk_of_thins (thins_append_stills (isStill_of_mem_map still)) ends

/-- Where the parent leads to a directory, the path takes its last step from there. -/
theorem exists_walk_of_parent (isAbove : Path.IsAbove parent path) (isPath : IsPath path)
    (ends : storage.locate true parent = .ok (.taken place .directory)) :
    ∃ left last behind, Path.lastMove? path = some last ∧ Path.isStill last = false ∧
      (∀ step ∈ behind, IsStill step) ∧ storage.locate follow path =
        storage.walk follow left place (String.ofList last :: behind) := by
  obtain ⟨before, between, last, behind, shape, stillBetween, moves, stillBehind, more, shape',
    stillMore⟩ := isAbove.last
  have isLast : Path.lastMove? path = some last :=
    Path.lastMove?_eq (shape.trans (List.append_assoc _ _ _).symm) moves stillBehind
  have held : storage.itemAt? place = some .directory := stands_of_locate ends
  rw [locate_eq_walk (isPath_of_locate ends), isAbove.absolute, stepsOf, shape',
    List.map_append] at ends
  have before' := walk_of_thins (thins_append_stills (isStill_of_mem_map stillMore)) ends
  have goesOn : (between ++ last :: behind).map String.ofList ≠ [] := by simp
  obtain ⟨left, onwards⟩ := @exists_walk_append storage follow _ _ _ _ _ _ before' goesOn
  refine ⟨left, last, behind.map String.ofList, isLast, moves, isStill_of_mem_map stillBehind, ?_⟩
  rw [locate_eq_walk isPath, stepsOf, shape, List.map_append, onwards, List.map_append,
    walk_stills held (isStill_of_mem_map stillBetween), List.map_cons]

/-- Above a path to an item there is a directory. -/
theorem exists_directory_of_parent (isAbove : Path.IsAbove parent path)
    (ends : storage.locate true path = .ok (.taken place item)) :
    ∃ place', storage.locate true parent = .ok (.taken place' .directory) := by
  obtain ⟨before, between, last, behind, shape, _, _, _, more, shape', stillMore⟩ := isAbove.last
  have isPath := isPath_of_locate ends
  rw [locate_eq_walk isPath, stepsOf, shape, List.map_append] at ends
  obtain ⟨place', item', ends', isDirectory⟩ := exists_walk_of_append ends
  obtain rfl := isDirectory (by simp)
  refine ⟨place', ?_⟩
  rw [locate_eq_walk (isPath.of_shorter isAbove.nonempty isAbove.shorter), isAbove.absolute,
    stepsOf, shape', List.map_append]
  exact walk_append_stills (isStill_of_mem_map stillMore) ends'

/-! ## Steps up -/

/-- A path steps up only on its way to a directory that is there: behind it there are names. -/
structure GroundedAt (storage : Storage) (path : String) (before names : List (List Char)) :
    Prop where
  shape : Path.segments path = before ++ names
  noUp : ['.', '.'] ∉ names
  leads : before = [] ∨ ∃ place, storage.walk true linkBound
    (if Path.isAbsolute path then [] else storage.workingDirectory) (before.map String.ofList) =
      .ok (.taken place .directory)

def Grounded (storage : Storage) (path : String) : Prop :=
  ∃ before names, storage.GroundedAt path before names

theorem grounded_empty : storage.Grounded "" := ⟨[], [[]], rfl, by decide, .inl rfl⟩

/-- Names that are put below a directory do not step up. -/
theorem groundedAt_join {directory name : String}
    (leads : storage.locate true directory = .ok (.taken place .directory))
    (isNormal : Path.IsNormal name) :
    storage.GroundedAt (Path.join directory name) (Path.frontSegments directory)
      (Path.segments name) := by
  have relative := Path.isAbsolute_of_isNormal isNormal
  refine ⟨Path.segments_join relative, fun up => (isNormal _ up).2 rfl, .inr ⟨place, ?_⟩⟩
  rw [Path.isAbsolute_join relative]
  exact walk_front leads

theorem isPath_of_missing (nonempty : ¬path.isEmpty = true)
    (missing : storage.makeDirectory path = .error .missing) : IsPath path := by
  have lost : storage.locate false path = .error .missing := by
    unfold makeDirectory at missing
    split at missing
    next => cases missing
    next => cases missing
    next failed => rw [failed, Except.error.inj missing]
  revert lost
  fun_cases storage.locate false path with
  | case1 empty => exact absurd empty nonempty
  | case4 _ valid short => exact fun _ => ⟨nonempty, valid, short⟩
  | _ =>
      intro lost
      cases lost

namespace GroundedAt

variable {before names : List (List Char)} (grounded : storage.GroundedAt path before names)

include grounded

/-- If no directory can be made for want of one above it, one of the names is missing. -/
theorem moves (nonempty : ¬path.isEmpty = true) (begins : before ≠ [])
    (missing : storage.makeDirectory path = .error .missing) :
    Path.stepsBackwards names ≠ [] := by
  intro nothing
  have still := Path.stepsBackwards_eq_nil.1 nothing
  obtain ⟨place, leads⟩ := grounded.leads.resolve_left begins
  have ends := walk_append_stills (isStill_of_mem_map still) leads
  rw [← List.map_append, ← grounded.shape, ← stepsOf,
    ← locate_eq_walk (isPath_of_missing nonempty missing)] at ends
  obtain ⟨_, _, taken⟩ := exists_taken_of_locate ends
  rw [makeDirectory, taken] at missing
  cases missing

theorem lastMove?_ne (moves : Path.stepsBackwards names ≠ []) :
    Path.lastMove? path ≠ some ['.', '.'] := by
  obtain ⟨last, backwards, isLast⟩ := List.exists_cons_of_ne_nil moves
  obtain ⟨moves, behind, shape, still⟩ := Path.exists_of_stepsBackwards isLast
  have whole := grounded.shape
  rw [shape, ← List.append_assoc] at whole
  rw [Path.lastMove?_eq whole moves still]
  rintro ⟨⟩
  refine grounded.noUp ?_
  rw [shape]
  simp

/-- The parent of a path, too, steps up only on its way to a directory. -/
theorem above (moves : Path.stepsBackwards names ≠ []) (isAbove : Path.IsAbove parent path) :
    storage.Grounded parent := by
  obtain ⟨kept, between, last, behind, shape, stillBetween, _, stillBehind, more, shape',
    stillMore⟩ := isAbove.last
  have noUpMore : ['.', '.'] ∉ more := fun up => by cases stillMore _ up
  -- The last step that moves is one of the names.
  obtain ⟨rest, split, isNames⟩ : ∃ rest, kept ++ between = before ++ rest ∧
      names = rest ++ last :: behind := by
    have whole : (kept ++ between) ++ (last :: behind) = before ++ names := by
      rw [List.append_assoc, ← shape, grounded.shape]
    rcases List.append_eq_append_iff.1 whole with ⟨rest, longer, isLast⟩ | later
    · cases rest with
      | nil => exact ⟨[], by simpa using longer.symm, by simpa using isLast.symm⟩
      | cons first rest =>
          refine absurd (Path.stepsBackwards_eq_nil.2 fun segment listed => ?_) moves
          refine stillBehind segment ?_
          rw [(List.cons.inj isLast).2]
          exact List.mem_append_right rest listed
    · exact later
  rcases List.append_eq_append_iff.1 split with ⟨stills, longer, isBetween⟩ | ⟨rest', isKept, isRest⟩
  · have still : ∀ segment ∈ stills, Path.isStill segment = true := fun segment listed =>
      stillBetween segment (isBetween ▸ List.mem_append_left rest listed)
    refine ⟨kept, more, shape', noUpMore, ?_⟩
    rw [isAbove.absolute]
    refine grounded.leads.imp (fun nothing => ?_) fun ⟨place, leads⟩ => ⟨place, ?_⟩
    · rw [nothing] at longer
      exact (List.append_eq_nil_iff.1 longer.symm).1
    · rw [longer, List.map_append] at leads
      exact walk_of_thins (thins_append_stills (isStill_of_mem_map still)) leads
  · refine ⟨before, rest' ++ more, ?_, ?_, ?_⟩
    · rw [shape', isKept, List.append_assoc]
    · intro up
      refine (List.mem_append.1 up).elim (fun listed => grounded.noUp ?_) noUpMore
      rw [isNames, isRest, List.append_assoc]
      exact List.mem_append_left _ listed
    · rw [isAbove.absolute]
      exact grounded.leads

end GroundedAt

namespace Grounded

theorem of_removeAt {gone : Place} (grounded : (storage.removeAt gone).Grounded path) :
    storage.Grounded path := by
  obtain ⟨before, names, grounded⟩ := grounded
  refine ⟨before, names, grounded.shape, grounded.noUp, grounded.leads.imp_right ?_⟩
  rintro ⟨place, leads⟩
  exact ⟨place, walk_of_removeAt leads⟩

variable (grounded : storage.Grounded path) (nonempty : ¬path.isEmpty = true)
  (missing : storage.makeDirectory path = .error .missing)

include grounded nonempty missing

theorem lastMove?_ne : Path.lastMove? path ≠ some ['.', '.'] := by
  obtain ⟨before, names, grounded⟩ := grounded
  by_cases begins : before = []
  · intro up
    have listed := (List.dropWhile_sublist Path.isStill).mem (List.mem_of_head? up)
    rw [List.mem_reverse, grounded.shape, begins, List.nil_append] at listed
    exact grounded.noUp listed
  · exact grounded.lastMove?_ne (grounded.moves nonempty begins missing)

theorem above (isAbove : Path.IsAbove parent path) : storage.Grounded parent := by
  obtain ⟨before, names, grounded⟩ := grounded
  refine grounded.above ?_ isAbove
  by_cases begins : before = []
  · intro nothing
    obtain ⟨kept, between, last, behind, shape, _, moves, _⟩ := isAbove.last
    have listed : last ∈ names := by
      rw [← List.nil_append names, ← begins, ← grounded.shape, shape]
      simp
    rw [Path.stepsBackwards_eq_nil.1 nothing last listed] at moves
    cases moves
  · exact grounded.moves nonempty begins missing

end Grounded

end WebBundle.Storage
