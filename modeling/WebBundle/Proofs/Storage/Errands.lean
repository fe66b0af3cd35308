import Mathlib.Logic.Relation
import WebBundle.Proofs.Storage.Aiming
import WebBundle.Proofs.Storage.Making

/-!
# Making directories step by step

A directory is made with the missing ones above it by looking at the storage, or changing it, once
in every step. What others do between two steps does no harm as long as they only make directories
and put no files on the way: an errand that is on its way to a place stays so, and its last step
leaves a directory at the place.
-/

namespace WebBundle.Storage

open Relation (ReflTransGen)

variable {storage after : Storage} {place target : Place} {path : String} {below : List String}

/-- What is left to do when a directory is made: to make one or its parent, and then those below it;
to look whether there is one where none could be made; to make those that are left; or nothing,
because of a fault. -/
inductive Errand where
  | up (path : String) (below : List String)
  | check (path : String) (fault : Fault) (below : List String)
  | down (below : List String)
  | failed (fault : Fault)

namespace Errand

/-- The next step, which leaves a storage and an errand. -/
def step (storage : Storage) : Errand → Option (Storage × Errand)
  | .up path below =>
      if path.isEmpty then some (storage, .down below)
      else
        match storage.makeDirectory path with
        | .ok made => some (made, .down below)
        | .error .missing =>
            match Path.parent? path with
            | none => some (storage, .failed .missing)
            | some parent => some (storage, .up parent (path :: below))
        | .error fault => some (storage, .check path fault below)
  | .check path fault below =>
      some (storage, if storage.isDirectory path then .down below else .failed fault)
  | .down (path :: below) =>
      match storage.makeDirectory path with
      | .ok made => some (made, .down below)
      | .error fault => some (storage, .check path fault below)
  | .down [] => none
  | .failed _ => none

def Steps (before after : Storage × Errand) : Prop := before.2.step before.1 = some after

/-- What is left to do when a directory was made or not. -/
def returned (below : List String) : Except Fault Unit → Errand
  | .ok () => .down below
  | .error fault => .failed fault

end Errand

open Errand

/-! ## One errand after the other -/

theorem steps_ensureDirectory {made : Storage} (ensures : storage.ensureDirectory path = .ok made) :
    ReflTransGen Steps (storage, .down (path :: below)) (made, .down below) := by
  unfold ensureDirectory at ensures
  split at ensures
  next given makes =>
    obtain rfl := Except.ok.inj ensures
    refine .single ?_
    simp only [Steps, step, makes]
  next fault fails =>
    split at ensures
    next there =>
      obtain rfl := Except.ok.inj ensures
      refine .tail (b := (storage, .check path fault below)) (.single ?_) ?_
      · simp only [Steps, step, fails]
      · simp only [Steps, step, there, if_true]
    next => cases ensures

theorem steps_ensureDirectory_error {fault : Fault}
    (fails : storage.ensureDirectory path = .error fault) :
    ReflTransGen Steps (storage, .down (path :: below)) (storage, .failed fault) := by
  unfold ensureDirectory at fails
  split at fails
  next => cases fails
  next fault' occupied =>
    split at fails
    next => cases fails
    next none =>
      obtain rfl := Except.error.inj fails
      refine .tail (b := (storage, .check path fault' below)) (.single ?_) ?_
      · simp only [Steps, step, occupied]
      · simp only [Steps, step, none]
        rfl

section

variable (nonempty : ¬path.isEmpty = true)
include nonempty

theorem steps_up {parent : String} (missing : storage.makeDirectory path = .error .missing)
    (isParent : Path.parent? path = some parent) :
    Steps (storage, .up path below) (storage, .up parent (path :: below)) := by
  simp only [Steps, step, nonempty, missing, isParent]
  rfl

theorem steps_check {fault : Fault} (fails : storage.makeDirectory path = .error fault)
    (notMissing : fault ≠ .missing) :
    Steps (storage, .up path below) (storage, .check path fault below) := by
  cases fault with
  | missing => exact absurd rfl notMissing
  | _ =>
      simp only [Steps, step, nonempty, fails]
      rfl

end

/-- Making directories takes some steps. -/
theorem steps_makeDirectoriesIn {rounds : Nat} (enough : path.length < rounds) :
    ReflTransGen Steps (storage, .up path below)
      ((storage.makeDirectoriesIn rounds path).1,
        returned below (storage.makeDirectoriesIn rounds path).2) := by
  have lower {rounds : Nat} {path parent : String} (isParent : Path.parent? path = some parent)
      (enough : path.length < rounds + 1) : parent.length < rounds :=
    Nat.lt_of_lt_of_le (Path.length_lt_of_parent? isParent) (Nat.le_of_lt_succ enough)
  fun_induction storage.makeDirectoriesIn rounds path generalizing below with
  | case1 => exact absurd enough (Nat.not_lt_zero _)
  | case2 _ path empty =>
      refine .single ?_
      simp only [Steps, step, empty, if_true, returned]
  | case3 _ path nonempty made makes =>
      refine .single ?_
      simp only [Steps, step, nonempty, makes, returned]
      rfl
  | case4 _ path nonempty missing noParent =>
      refine .single ?_
      simp only [Steps, step, nonempty, missing, noParent, returned]
      rfl
  | case5 rounds path nonempty missing parent isParent made fault above ih =>
      have fails := @ih (path :: below) (lower isParent enough)
      rw [above] at fails
      exact .head (steps_up nonempty missing isParent) fails
  | case6 rounds path nonempty missing parent isParent made above last ensures ih =>
      have makes := @ih (path :: below) (lower isParent enough)
      rw [above] at makes
      exact .head (steps_up nonempty missing isParent) (makes.trans (steps_ensureDirectory ensures))
  | case7 rounds path nonempty missing parent isParent made above fault fails ih =>
      have makes := @ih (path :: below) (lower isParent enough)
      rw [above] at makes
      exact .head (steps_up nonempty missing isParent)
        (makes.trans (steps_ensureDirectory_error fails))
  | case8 _ path nonempty fault notMissing fails there =>
      refine .head (steps_check nonempty fails notMissing) (.single ?_)
      simp only [Steps, step, there, if_true, returned]
  | case9 _ path nonempty fault notMissing fails nothing =>
      refine .head (steps_check nonempty fails notMissing) (.single ?_)
      simp only [Steps, step, nothing, returned]
      rfl

/-! ## Errands on their way -/

/-- Paths spell the places from one below another down to that one, each in the one before. -/
inductive Chain (storage : Storage) (target : Place) : Place → List String → Prop where
  | nil : Chain storage target target []
  | cons {place : Place} {name path : String} {below : List String} (nonempty : path ≠ "")
      (spells : storage.Spells path (place ++ [name]))
      (rest : Chain storage target (place ++ [name]) below) :
      Chain storage target place (path :: below)

namespace Chain

theorem isPrefix (chain : Chain storage target place below) : place <+: target := by
  induction chain with
  | nil => exact List.prefix_refl target
  | cons _ _ _ ih => exact (List.prefix_append _ _).trans ih

theorem later (chain : Chain storage target place below) (keeps : KeepsDirectories storage after) :
    Chain after target place below := by
  induction chain with
  | nil => exact .nil
  | cons nonempty spells _ ih => exact .cons nonempty (spells.later keeps) ih

end Chain

/-- An errand is on its way to a directory at a place. -/
inductive Heads (storage : Storage) (target : Place) : Errand → Prop where
  | up {place : Place} {path : String} {below : List String}
      (spells : storage.Spells path place) (chain : Chain storage target place below) :
      Heads storage target (.up path below)
  | check {place : Place} {path : String} {fault : Fault} {below : List String}
      (spells : storage.Spells path place) (nonempty : path ≠ "")
      (inside : storage.itemAt? place = some .directory)
      (chain : Chain storage target place below) : Heads storage target (.check path fault below)
  | down {place : Place} {below : List String}
      (inside : storage.itemAt? place = some .directory)
      (chain : Chain storage target place below) : Heads storage target (.down below)

namespace Heads

variable {errand : Errand}

theorem later (heads : Heads storage target errand) (keeps : KeepsDirectories storage after) :
    Heads after target errand := by
  cases heads with
  | up spells chain => exact .up (spells.later keeps) (chain.later keeps)
  | check spells nonempty inside chain =>
      exact .check (spells.later keeps) nonempty (keeps.directory _ inside) (chain.later keeps)
  | down inside chain => exact .down (keeps.directory _ inside) (chain.later keeps)

/-- An errand that is at its end has made its directory. -/
theorem directory (heads : Heads storage target (.down [])) :
    storage.itemAt? target = some .directory := by
  cases heads with
  | down inside chain =>
      cases chain with
      | nil => exact inside

end Heads

theorem Grows.itemAt?_cases {first : Place} (grows : Grows first target storage after)
    (place : Place) : after.itemAt? place = storage.itemAt? place ∨ (place <+: target ∧
      storage.itemAt? place = none ∧ after.itemAt? place = some .directory) := by
  induction grows with
  | refl => exact .inl rfl
  | make _ free _ _ above ih =>
      rw [itemAt?_put (ne_nil_of_itemAt?_eq_none free)]
      split
      next same =>
        subst same
        rcases ih with kept | ⟨_, _, there⟩
        · exact .inr ⟨above, kept.symm.trans free, rfl⟩
        · rw [free] at there
          cases there
      next => exact ih

/-- A directory is made on the way to a place, or nothing is done. -/
inductive Widens (target : Place) (storage : Storage) : Storage → Prop where
  | same : Widens target storage storage
  | make {place : Place} (above : place <+: target) (free : storage.itemAt? place = none)
      (inside : storage.itemAt? place.dropLast = some .directory) :
      Widens target storage (storage.put place .directory)

namespace Widens

theorem grows {origin : Storage} (widens : Widens target storage after)
    (grows : Grows [] target origin storage) : Grows [] target origin after := by
  cases widens with
  | same => exact grows
  | make above free inside => exact .make grows free inside List.nil_prefix above

theorem keepsDirectories (widens : Widens target storage after) : KeepsDirectories storage after :=
  (@Grows.writesOnly _ _ _ _ [] (widens.grows .refl)).keepsDirectories

theorem isTree (widens : Widens target storage after) (tree : storage.IsTree) : after.IsTree :=
  (widens.grows .refl).isTree tree

theorem itemAt?_cases (widens : Widens target storage after) (place : Place) :
    after.itemAt? place = storage.itemAt? place ∨ (place <+: target ∧
      storage.itemAt? place = none ∧ after.itemAt? place = some .directory) :=
  (widens.grows .refl).itemAt?_cases place

end Widens

/-- Where a directory can be made on the way, it is, or there is one. -/
theorem makeDirectory_of_spells (tree : storage.IsTree) (spells : storage.Spells path place)
    (nonempty : path ≠ "") (above : place <+: target) (isOpen : storage.Open target)
    (inside : storage.itemAt? place.dropLast = some .directory) :
    (∃ made, storage.makeDirectory path = .ok made ∧ Widens target storage made ∧
      made.itemAt? place = some .directory) ∨
    (storage.makeDirectory path = .error .occupied ∧
      storage.itemAt? place = some .directory) := by
  rcases isOpen place above with free | there
  · obtain ⟨name, slash, isPlace, ends⟩ := @spells.locate_vacant _ _ _ false tree free inside
    refine .inl ⟨_, makeDirectory_of_vacant ends, ?_, ?_⟩
    · rw [← isPlace]
      exact .make above free inside
    · rw [← isPlace, itemAt?_put (ne_nil_of_itemAt?_eq_none free), if_pos rfl]
  · have ends := @spells.locate_directory _ _ _ false tree nonempty there
    exact .inr ⟨by rw [makeDirectory, ends], there⟩

section

variable (tree : storage.IsTree) (isOpen : storage.Open target)

include tree isOpen

/-- If the directory above is missing, too, it is made first. -/
theorem Heads.step_up (spells : storage.Spells path place)
    (chain : Chain storage target place below) :
    ∃ after next, (Errand.up path below).step storage = some (after, next) ∧
      Widens target storage after ∧ Heads after target next := by
  by_cases empty : path = ""
  · refine ⟨storage, .down below, ?_, .same, .down (spells.directory_of_empty empty) chain⟩
    rw [step, empty]
    rfl
  have nonempty : ¬path.isEmpty = true := fun nothing => empty (String.isEmpty_iff.1 nothing)
  have above := List.dropLast_prefix place
  rcases isOpen place.dropLast (above.trans chain.isPrefix) with missing | inside
  · have free := tree.free_below missing above
    have fails : storage.makeDirectory path = .error .missing := by
      rw [makeDirectory, spells.locate_missing tree (isOpen.above chain.isPrefix) missing]
    have notThere := ne_directory_of_free free
    obtain ⟨parent, isParent, spellsAbove⟩ := spells.exists_parent tree notThere
    obtain ⟨_, name, _, _, _, _, _, isPlace, _⟩ := spells.exists_name notThere
    refine ⟨storage, .up parent (path :: below), steps_up nonempty fails isParent, .same, ?_⟩
    rw [isPlace] at spells chain
    exact .up spellsAbove (.cons empty spells chain)
  · rcases makeDirectory_of_spells tree spells empty chain.isPrefix isOpen inside with
      ⟨made, makes, widens, there⟩ | ⟨occupied, there⟩
    · refine ⟨made, .down below, ?_, widens, .down there (chain.later widens.keepsDirectories)⟩
      simp only [step, nonempty, makes]
      rfl
    · exact ⟨storage, .check path .occupied below, steps_check nonempty occupied (by simp), .same,
        .check spells empty there chain⟩

theorem Heads.step_down {below : List String} (inside : storage.itemAt? place = some .directory)
    (chain : Chain storage target place (path :: below)) :
    ∃ after next, (Errand.down (path :: below)).step storage = some (after, next) ∧
      Widens target storage after ∧ Heads after target next := by
  cases chain with
  | @cons _ name _ _ nonempty spells rest =>
  have inside : storage.itemAt? (place ++ [name]).dropLast = some .directory := by
    rwa [List.dropLast_concat]
  rcases makeDirectory_of_spells tree spells nonempty rest.isPrefix isOpen inside with
    ⟨made, makes, widens, there⟩ | ⟨occupied, there⟩
  · refine ⟨made, .down below, ?_, widens, .down there (rest.later widens.keepsDirectories)⟩
    simp only [step, makes]
  · refine ⟨storage, .check path .occupied below, ?_, .same, .check spells nonempty there rest⟩
    simp only [step, occupied]

/-- Every step of an errand brings it on its way, until the directory is there. -/
theorem Heads.step {errand : Errand} (heads : Heads storage target errand) :
    errand = .down [] ∨ ∃ after next, errand.step storage = some (after, next) ∧
      Widens target storage after ∧ Heads after target next := by
  cases heads with
  | up spells chain => exact .inr (Heads.step_up tree isOpen spells chain)
  | @check place path fault below spells nonempty inside chain =>
      have ends := @spells.locate_directory _ _ _ true tree nonempty inside
      have there : storage.isDirectory path = true := by rw [isDirectory, ends]
      refine .inr ⟨storage, .down below, ?_, .same, .down inside chain⟩
      simp only [Errand.step, there, if_true]
  | @down place below inside chain =>
      cases below with
      | nil => exact .inl rfl
      | cons path below => exact .inr (Heads.step_down tree isOpen inside chain)

end

/-! ## One errand alone -/

/-- What has been done by an errand alone. -/
structure Underway (origin : Storage) (target : Place) (state : Storage × Errand) : Prop where
  grows : Grows [] target origin state.1
  isOpen : state.1.Open target
  heads : Heads state.1 target state.2

theorem Open.widens (isOpen : storage.Open target) (widens : Widens target storage after) :
    after.Open target := by
  cases widens with
  | same => exact isOpen
  | make _ free _ =>
      intro other above
      rw [itemAt?_put (ne_nil_of_itemAt?_eq_none free)]
      split
      next => exact .inr rfl
      next => exact isOpen other above

theorem Underway.steps {origin : Storage} (tree : origin.IsTree) {state later : Storage × Errand}
    (underway : Underway origin target state) (steps : Steps state later) :
    Underway origin target later := by
  obtain ⟨grows, isOpen, heads⟩ := underway
  rcases heads.step (grows.isTree tree) isOpen with done | ⟨after, next, isNext, widens, heads'⟩
  · rw [Steps, done] at steps
    cases steps
  · obtain rfl := Option.some.inj (isNext.symm.trans steps)
    exact ⟨widens.grows grows, isOpen.widens widens, heads'⟩

theorem Underway.run {origin : Storage} (tree : origin.IsTree) {state later : Storage × Errand}
    (underway : Underway origin target state) (runs : ReflTransGen Steps state later) :
    Underway origin target later := by
  induction runs with
  | refl => exact underway
  | tail _ steps ih => exact ih.steps tree steps

/-- The directory at a place is made by every path that spells the place. -/
theorem makeDirectories_of_spells (tree : storage.IsTree) (isOpen : storage.Open target)
    (spells : storage.Spells path target) :
    ∃ after, storage.makeDirectories path = (after, .ok ()) ∧ Grows [] target storage after ∧
      after.itemAt? target = some .directory := by
  have runs := @steps_makeDirectoriesIn storage path [] _ (Nat.lt_succ_self path.length)
  have begins : Underway storage target (storage, .up path []) := ⟨.refl, isOpen, .up spells .nil⟩
  obtain ⟨grows, _, heads⟩ := begins.run tree runs
  cases made : storage.makeDirectories path with
  | mk after result =>
      rw [makeDirectories] at made
      rw [made] at grows heads
      cases result with
      | error fault => cases heads
      | ok _ => exact ⟨after, rfl, grows, heads.directory⟩

end WebBundle.Storage
