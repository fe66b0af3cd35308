import WebBundle.Proofs.Storage.Parents
import WebBundle.Proofs.Storage.Tree

/-!
# Directories that are made

A path that steps up only on its way to a directory that is there is made from the first missing
directory above it down to its own place. Each directory is made in the one that was made before, so
nothing lies in the last one. What is put below it by names stays in it.
-/

namespace WebBundle.Storage

variable {storage : Storage} {path parent : String} {place first last : Place}

/-- Where a free name is stepped to, a walk ends there or nowhere. -/
theorem exists_vacant_of_walk {follow : Bool} {links : Nat} {name : String} {behind : List String}
    {location : Location} (found : storage.itemAt? place = some .directory)
    (moves : ¬IsStill name) (notUp : name ≠ "..")
    (free : storage.itemAt? (place ++ [name]) = none)
    (ends : storage.walk follow links place (name :: behind) = .ok location) :
    ∃ slash, location = .vacant place name slash := by
  rw [walk.eq_def] at ends
  simp only [found, moves, notUp, free, if_false] at ends
  split at ends
  next => cases ends
  next =>
    split at ends
    next => exact ⟨_, (Except.ok.inj ends).symm⟩
    next => cases ends

/-! ## One directory after the other -/

/-- Directories are made from one place down to another. -/
inductive Grows (first last : Place) (storage : Storage) : Storage → Prop where
  | refl : Grows first last storage storage
  | make {later : Storage} {place : Place} (grows : Grows first last storage later)
      (free : later.itemAt? place = none)
      (inside : later.itemAt? place.dropLast = some .directory)
      (below : first <+: place) (above : place <+: last) :
      Grows first last storage (later.put place .directory)

namespace Grows

variable {later : Storage}

theorem mono {last' : Place} (longer : last <+: last') (grows : Grows first last storage later) :
    Grows first last' storage later := by
  induction grows with
  | refl => exact .refl
  | make _ free inside below above ih => exact .make ih free inside below (above.trans longer)

theorem writesOnly {contents : List ByteArray} (grows : Grows first last storage later) :
    WritesOnly contents storage later := by
  induction grows with
  | refl => exact .refl contents storage
  | make _ free _ _ _ ih => exact ih.trans (writesOnly_put_directory free)

theorem isTree (tree : storage.IsTree) (grows : Grows first last storage later) :
    later.IsTree := by
  induction grows with
  | refl => exact tree
  | make _ free inside _ _ ih =>
      exact ih.put (ne_nil_of_itemAt?_eq_none free) inside fun _ => rfl

theorem alters {origin : Storage} (alters : Alters place origin storage)
    (near : ∀ other, first <+: other → other <+: last → Near place other)
    (grows : Grows first last storage later) : Alters place origin later := by
  induction grows with
  | refl => exact alters
  | make _ free _ below above ih =>
      cases near _ below above with
      | inl inside => exact .put ih inside (ne_nil_of_itemAt?_eq_none free)
      | inr upwards => exact .make ih upwards free

/-- Directories that are missing on the way to a place in a directory lie in it, too. -/
theorem puts {base : Place} (tree : storage.IsTree)
    (found : storage.itemAt? base = some .directory) (inside : base <+: last)
    (grows : Grows first last storage later) : PutsIn base storage later := by
  induction grows with
  | refl => exact .refl
  | @make later place grows free _ _ above ih =>
      refine .put ih ?_ (ne_nil_of_itemAt?_eq_none free)
      have there : later.itemAt? base = some .directory := (@writesOnly _ _ _ _ [] grows).directory found
      refine (List.prefix_or_prefix_of_prefix inside above).resolve_right fun upwards => ?_
      have missing := (grows.isTree tree).free_below free upwards
      rw [missing] at there
      cases there

end Grows

/-- What making a directory comes to: it was there before, or it is put at a free name after those
above it. If the path led to an item before a place was removed, nothing is made above that place.
-/
inductive Makes (storage : Storage) (path : String) : Storage → Prop where
  | there (found : path ≠ "" → storage.isDirectory path = true) : Makes storage path storage
  | anew {before : Storage} {first parent : Place} {name : String} {slash : Bool}
      (grows : Grows first (parent ++ [name]) storage before)
      (free : before.locate false path = .ok (.vacant parent name slash))
      (below : first <+: parent ++ [name])
      (spares : ∀ (origin : Storage) (gone : Place), origin.removeAt gone = storage →
        (∃ place item, origin.locate true path = .ok (.taken place item)) → gone <+: first) :
      Makes storage path (before.put (parent ++ [name]) .directory)

/-- The path leads to the directory that was made. -/
theorem locate_of_anew {follow : Bool} {name : String} {slash : Bool}
    (free : storage.locate false path = .ok (.vacant place name slash)) :
    (storage.put (place ++ [name]) .directory).locate follow path =
      .ok (.taken (place ++ [name]) .directory) := by
  have isPath := isPath_of_locate free
  have vacant : storage.itemAt? (place ++ [name]) = none := stands_of_locate free
  have only : WritesOnly [] storage (storage.put (place ++ [name]) .directory) :=
    writesOnly_put_directory vacant
  have there : (storage.put (place ++ [name]) .directory).itemAt? (place ++ [name]) =
      some .directory := by
    rw [itemAt?_put (ne_nil_of_itemAt?_eq_none vacant), if_pos rfl]
  have leads : (storage.put (place ++ [name]) .directory).locate false path =
      .ok (.taken (place ++ [name]) .directory) := by
    rw [locate_eq_walk isPath] at free ⊢
    exact only.walk_directory free there
  cases follow with
  | false => exact leads
  | true => exact locate_follow leads nofun

theorem directory_of_vacant {follow : Bool} {name : String} {slash : Bool}
    (free : storage.locate follow path = .ok (.vacant place name slash)) :
    storage.itemAt? place = some .directory := by
  rw [locate_eq_walk (isPath_of_locate free)] at free
  exact (of_walk_vacant free).1

/-- A directory that was just made is empty. -/
theorem IsTree.free_in_anew (tree : storage.IsTree) (free : storage.itemAt? place = none)
    (name : String) : (storage.put place .directory).itemAt? (place ++ [name]) = none := by
  rw [itemAt?_put (ne_nil_of_itemAt?_eq_none free), if_neg (by simp)]
  exact tree.free_below free (List.prefix_append place [name])

/-- In a directory that was just made, a path ends at its last name or nowhere. -/
theorem exists_vacant_of_anew {follow : Bool} {location : Location} (tree : storage.IsTree)
    (isAbove : Path.IsAbove parent path) (notUp : Path.lastMove? path ≠ some ['.', '.'])
    (free : storage.itemAt? place = none)
    (above : (storage.put place .directory).locate true parent = .ok (.taken place .directory))
    (ends : (storage.put place .directory).locate follow path = .ok location) :
    ∃ name slash, location = .vacant place name slash := by
  obtain ⟨left, last, behind, isLast, moves, _, onwards⟩ :=
    exists_walk_of_parent isAbove (isPath_of_locate ends) above
  have moves : ¬IsStill (String.ofList last) := by
    rw [IsStill, Path.isStill_ofList, moves]
    exact Bool.false_ne_true
  have notUp : String.ofList last ≠ ".." := by
    intro up
    rw [← String.toList_inj, String.toList_ofList] at up
    have up : last = ['.', '.'] := up
    exact notUp (up ▸ isLast)
  rw [onwards] at ends
  obtain ⟨slash, same⟩ := exists_vacant_of_walk (stands_of_locate above) moves notUp
    (tree.free_in_anew free _) ends
  exact ⟨_, slash, same⟩

/-- A directory is made in the one that was made above it. -/
theorem Makes.below {above after : Storage} (tree : storage.IsTree)
    (notUp : Path.lastMove? path ≠ some ['.', '.']) (isParent : Path.parent? path = some parent)
    (missing : storage.makeDirectory path = .error .missing)
    (makesAbove : Makes storage parent above) (makes : above.ensureDirectory path = .ok after) :
    Makes storage path after := by
  cases makesAbove with
  | there _ =>
      rw [ensureDirectory, missing] at makes
      dsimp only at makes
      split at makes
      next there =>
        obtain ⟨_, ends⟩ := locate_of_isDirectory there
        obtain ⟨_, _, taken⟩ := exists_taken_of_locate ends
        rw [makeDirectory, taken] at missing
        cases missing
      next => cases makes
  | @anew before first above name slash grows free below spares =>
      have vacant : before.itemAt? (above ++ [name]) = none := stands_of_locate free
      have treeBefore := grows.isTree tree
      have leads := @locate_of_anew before parent above true name slash free
      have nonempty : parent ≠ "" := fun empty =>
        (isPath_of_locate leads).nonempty (String.isEmpty_iff.2 empty)
      have isAbove := Path.isAbove_of_parent? isParent nonempty
      unfold ensureDirectory at makes
      split at makes
      next made makesIt =>
        obtain rfl := Except.ok.inj makes
        unfold makeDirectory at makesIt
        split at makesIt
        next place next _ ends =>
          obtain rfl := Except.ok.inj makesIt
          obtain ⟨_, _, same⟩ := exists_vacant_of_anew treeBefore isAbove notUp vacant leads ends
          obtain ⟨rfl, rfl, rfl⟩ := Location.vacant.inj same
          have longer : above ++ [name] <+: (above ++ [name]) ++ [next] := List.prefix_append _ _
          have inside : before.itemAt? (above ++ [name]).dropLast = some .directory := by
            rw [List.dropLast_concat]
            exact directory_of_vacant free
          refine .anew (.make (grows.mono longer) vacant inside below longer) ends
            (below.trans longer) ?_
          rintro origin gone same ⟨place, item, ends⟩
          obtain ⟨place', ends'⟩ := exists_directory_of_parent isAbove ends
          exact spares origin gone same ⟨place', .directory, ends'⟩
        all_goals cases makesIt
      next =>
        split at makes
        next there =>
          obtain ⟨_, ends⟩ := locate_of_isDirectory there
          obtain ⟨_, _, same⟩ := exists_vacant_of_anew treeBefore isAbove notUp vacant leads ends
          cases same
        next => cases makes

/-! ## Inside a directory -/

/-- There are no links below a place. -/
def Unlinked (storage : Storage) (base : Place) : Prop :=
  ∀ other target, base <+: other → other ≠ base → storage.itemAt? other ≠ some (.link target)

/-- Without steps up and links, a walk does not leave the place at which it begins. -/
theorem Unlinked.prefix_of_walk {base : Place} (unlinked : storage.Unlinked base) {follow : Bool}
    {links : Nat} {steps : List String} {location : Location} (inside : base <+: place)
    (noUp : ".." ∉ steps) (ends : storage.walk follow links place steps = .ok location) :
    base <+: location.place := by
  fun_induction storage.walk follow links place steps with
  | case2 =>
      cases ends
      exact inside
  | case3 _ _ step _ _ _ ih => exact ih inside (fun up => noUp (List.mem_cons_of_mem step up)) ends
  | case4 => exact absurd List.mem_cons_self noUp
  | case6 _ place step =>
      cases ends
      exact inside.trans (List.prefix_append place [step])
  | case8 _ place step =>
      cases ends
      exact inside.trans (List.prefix_append place [step])
  | case11 place step _ _ _ _ _ target link =>
      have longer : base <+: place ++ [step] := inside.trans (List.prefix_append place [step])
      refine absurd link (unlinked _ target longer fun same => ?_)
      have length := inside.length_le
      rw [← same, List.length_append, List.length_singleton] at length
      omega
  | case12 _ place step _ _ _ _ _ _ _ _ ih =>
      exact ih (inside.trans (List.prefix_append place [step]))
        (fun up => noUp (List.mem_cons_of_mem step up)) ends
  | _ => cases ends

/-- Names that are put below a path stay below where it leads. -/
theorem Unlinked.prefix_of_join {base : Place} (unlinked : storage.Unlinked base)
    {follow : Bool} {directory name : String} {location : Location}
    (leads : storage.locate true directory = .ok (.taken base .directory))
    (isNormal : Path.IsNormal name)
    (ends : storage.locate follow (Path.join directory name) = .ok location) :
    base <+: location.place := by
  have relative := Path.isAbsolute_of_isNormal isNormal
  have goesOn : (Path.segments name).map String.ofList ≠ [] :=
    mt List.map_eq_nil_iff.1 (Text.pieces_ne_nil _ name.toList)
  obtain ⟨left, onwards⟩ := @exists_walk_append storage follow _ _ _ _ _ _ (walk_front leads) goesOn
  rw [locate_eq_walk (isPath_of_locate ends), Path.isAbsolute_join relative, stepsOf,
    Path.segments_join relative, List.map_append, onwards] at ends
  refine unlinked.prefix_of_walk (List.prefix_refl base) ?_ ends
  intro up
  obtain ⟨segment, listed, same⟩ := List.mem_map.1 up
  refine (isNormal segment listed).2 ?_
  rw [← String.toList_inj, String.toList_ofList] at same
  exact same

/-- A file that is put where its path leads lies in a directory. -/
theorem Opens.isTree_put {location : Location} (opens : Opens storage path location)
    (tree : storage.IsTree) (bytes : ByteArray) :
    (storage.put location.place (.file bytes)).IsTree := by
  have stands : storage.itemAt? location.place = location.item? := stands_of_locate opens.leads
  have below := opens.place_ne_nil
  refine tree.put below ?_ fun found => ?_
  · cases location with
    | vacant parent name slash =>
        rw [Location.place, List.dropLast_concat]
        exact directory_of_vacant opens.leads
    | taken place item =>
        exact tree.directory_above stands (List.dropLast_prefix place) (dropLast_ne below)
  · obtain ⟨old, impossible⟩ := opens.isFile .directory (stands.symm.trans found)
    cases impossible

/-! ## Making directories -/

theorem makes_of_makeDirectoriesIn {rounds : Nat} {after : Storage} (tree : storage.IsTree)
    (grounded : storage.Grounded path)
    (made : storage.makeDirectoriesIn rounds path = (after, .ok ())) :
    Makes storage path after := by
  fun_induction storage.makeDirectoriesIn rounds path generalizing after with
  | case2 _ path empty =>
      obtain ⟨rfl, _⟩ := Prod.mk.inj made
      exact .there fun nonempty => absurd (String.isEmpty_iff.1 empty) nonempty
  | case3 _ path _ next makes =>
      obtain ⟨rfl, _⟩ := Prod.mk.inj made
      unfold makeDirectory at makes
      split at makes
      next parent name slash free =>
        obtain rfl := Except.ok.inj makes
        refine .anew .refl free (List.prefix_refl _) ?_
        rintro origin gone rfl ⟨final, item, ends⟩
        have isPath := isPath_of_locate ends
        rw [locate_eq_walk isPath] at free ends
        exact prefix_of_walk_removeAt free ends
      all_goals cases makes
  | case6 _ path nonempty missing parent isParent middle above last makes ih =>
      obtain ⟨rfl, _⟩ := Prod.mk.inj made
      have groundedAbove : storage.Grounded parent := by
        by_cases empty : parent = ""
        · rw [empty]
          exact grounded_empty
        · exact grounded.above nonempty missing (Path.isAbove_of_parent? isParent empty)
      exact (ih groundedAbove above).below tree (grounded.lastMove?_ne nonempty missing) isParent
        missing makes
  | case8 _ path _ _ _ _ there =>
      obtain ⟨rfl, _⟩ := Prod.mk.inj made
      exact .there fun _ => there
  | _ => cases (Prod.mk.inj made).2

end WebBundle.Storage
