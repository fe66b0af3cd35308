import WebBundle.Storage.Basic

/-!
# Items of a storage

What is at a place after an item was put or places were removed, and what is at the end of a walk.
-/

namespace WebBundle.Storage

variable {storage : Storage}

/-- A table without some keys. -/
theorem lookup_filter (kept : Place → Bool) (place : Place) (items : List (Place × Item)) :
    (items.filter fun (other, _) => kept other).lookup place =
      if kept place then items.lookup place else none := by
  induction items with
  | nil => simp
  | cons entry items ih =>
      obtain ⟨other, item⟩ := entry
      by_cases same : place = other
      · subst same
        cases keeps : kept place <;> simp [keeps, ih]
      · have differs : (place == other) = false := beq_false_of_ne same
        cases keeps : kept other <;> simp [keeps, ih, List.lookup_cons, differs]

theorem ne_nil_of_itemAt?_eq_none {place : Place} (free : storage.itemAt? place = none) :
    place ≠ [] := by
  rintro rfl
  cases free

theorem ne_nil_of_itemAt?_ne {place : Place} {item : Item}
    (found : storage.itemAt? place = some item) (notDirectory : item ≠ .directory) : place ≠ [] := by
  rintro rfl
  exact notDirectory (Option.some.inj found).symm

theorem itemAt?_of_ne_nil {place : Place} (below : place ≠ []) :
    storage.itemAt? place = storage.items.lookup place := by
  rw [itemAt?, if_neg (by simpa using below)]

theorem itemAt?_put {place : Place} (below : place ≠ []) (item : Item) (other : Place) :
    (storage.put place item).itemAt? other =
      if other = place then some item else storage.itemAt? other := by
  by_cases root : other = []
  · rw [root, if_neg (Ne.symm below)]
    rfl
  · rw [itemAt?_of_ne_nil root, itemAt?_of_ne_nil root, put, List.lookup_cons]
    by_cases same : other = place
    · simp [same]
    · have differs : (other == place) = false := beq_false_of_ne same
      rw [differs, if_neg same]
      exact (lookup_filter (fun kept => kept ≠ place) other storage.items).trans (by simp [same])

theorem itemAt?_removeAt {place other : Place} (inside : place <+: other) (below : other ≠ []) :
    (storage.removeAt place).itemAt? other = none := by
  rw [itemAt?_of_ne_nil below, removeAt, lookup_filter fun kept => !place.isPrefixOf kept,
    List.isPrefixOf_iff_prefix.2 inside]
  rfl

theorem itemAt?_clearAt {place other : Place} (inside : place <+: other) (ne : other ≠ place) :
    (storage.clearAt place).itemAt? other = none := by
  have below : other ≠ [] := by
    rintro rfl
    exact ne (List.prefix_nil.1 inside).symm
  rw [itemAt?_of_ne_nil below, clearAt,
    lookup_filter fun kept => decide (kept = place) || !place.isPrefixOf kept,
    List.isPrefixOf_iff_prefix.2 inside, decide_eq_false ne]
  rfl

theorem itemAt?_removeAt_of_not {place other : Place} (outside : ¬place <+: other) :
    (storage.removeAt place).itemAt? other = storage.itemAt? other := by
  by_cases root : other = []
  · rw [root]
    rfl
  · have kept : place.isPrefixOf other = false := by
      rwa [← Bool.not_eq_true, List.isPrefixOf_iff_prefix]
    rw [itemAt?_of_ne_nil root, itemAt?_of_ne_nil root, removeAt,
      lookup_filter fun other => !place.isPrefixOf other, kept]
    rfl

/-- What is left when a place is removed was there before. -/
theorem itemAt?_of_removeAt {place other : Place} {item : Item}
    (held : (storage.removeAt place).itemAt? other = some item) :
    storage.itemAt? other = some item := by
  by_cases root : other = []
  · rw [root] at held ⊢
    exact held
  · by_cases inside : place <+: other
    · rw [itemAt?_removeAt inside root] at held
      cases held
    · rwa [itemAt?_removeAt_of_not inside] at held

/-! ## Steps of a walk -/

/-- A step that names an item of a directory. -/
structure IsName (step : String) : Prop where
  moves : ¬(step = "" || step = ".") = true
  notUp : ¬step = ".."
  short : ¬nameBound < step.utf8ByteSize

section

variable {follow : Bool} {links : Nat} {place : Place} {step : String} {rest : List String}

theorem walk_nil {item : Item} (found : storage.itemAt? place = some item) :
    storage.walk follow links place [] = .ok (.taken place item) := by
  unfold walk
  simp only [found]

theorem walk_still (found : storage.itemAt? place = some .directory)
    (still : (step = "" || step = ".") = true) :
    storage.walk follow links place (step :: rest) = storage.walk follow links place rest := by
  rw [walk.eq_def storage follow links place (step :: rest)]
  simp only [found, still, if_true]

theorem walk_up (found : storage.itemAt? place = some .directory) :
    storage.walk follow links place (".." :: rest) =
      storage.walk follow links place.dropLast rest := by
  rw [walk.eq_def storage follow links place (".." :: rest)]
  simp only [found, if_true]
  rfl

theorem walk_vacant (found : storage.itemAt? place = some .directory) (isName : IsName step)
    (free : storage.itemAt? (place ++ [step]) = none)
    (isEnd : (rest.all fun step => step = "") = true) :
    storage.walk follow links place (step :: rest) = .ok (.vacant place step !rest.isEmpty) := by
  unfold walk
  simp only [found, isName.moves, isName.notUp, isName.short, free, isEnd, if_true, if_false,
    Bool.false_eq_true]

theorem walk_link_end (found : storage.itemAt? place = some .directory) (isName : IsName step)
    {target : String} (link : storage.itemAt? (place ++ [step]) = some (.link target))
    (isEnd : (rest.isEmpty && !follow) = true) :
    storage.walk follow links place (step :: rest) =
      .ok (.taken (place ++ [step]) (.link target)) := by
  unfold walk
  simp only [found, isName.moves, isName.notUp, isName.short, link, isEnd, if_true, if_false,
    Bool.false_eq_true]

theorem walk_link (found : storage.itemAt? place = some .directory) (isName : IsName step)
    {target : String} (link : storage.itemAt? (place ++ [step]) = some (.link target))
    (goesOn : ¬(rest.isEmpty && !follow) = true) (nonempty : ¬target.isEmpty = true) :
    storage.walk follow (links + 1) place (step :: rest) =
      storage.walk follow links (if Path.isAbsolute target then [] else place)
        (stepsOf target ++ rest) := by
  rw [walk.eq_def storage follow (links + 1) place (step :: rest)]
  simp only [found, isName.moves, isName.notUp, isName.short, link, goesOn, nonempty, if_false,
    Bool.false_eq_true]

theorem walk_on (found : storage.itemAt? place = some .directory) (isName : IsName step)
    {item : Item} (there : storage.itemAt? (place ++ [step]) = some item)
    (noLink : ∀ target, item ≠ .link target) :
    storage.walk follow links place (step :: rest) =
      storage.walk follow links (place ++ [step]) rest := by
  rw [walk.eq_def storage follow links place (step :: rest)]
  simp only [found, isName.moves, isName.notUp, isName.short, there, if_false, Bool.false_eq_true]

end

/-! ## The end of a walk -/

/-- The place at which a walk ends. -/
def Location.place : Location → Place
  | .taken place _ => place
  | .vacant parent name _ => parent ++ [name]

/-- What a walk found at its end. -/
def Location.item? : Location → Option Item
  | .taken _ item => some item
  | .vacant _ _ _ => none

/-- At the end of a walk there is what the walk found. -/
def Location.Stands (storage : Storage) (location : Location) : Prop :=
  storage.itemAt? location.place = location.item?

theorem stands_of_walk {follow : Bool} {links : Nat} {place : Place} {steps : List String}
    {location : Location} (ends : storage.walk follow links place steps = .ok location) :
    location.Stands storage := by
  fun_induction storage.walk follow links place steps with
  | case2 _ _ _ found =>
      cases ends
      exact found
  | case3 _ _ _ _ _ _ ih => exact ih ends
  | case4 _ _ _ _ _ ih => exact ih ends
  | case6 _ _ _ _ _ _ _ _ free =>
      cases ends
      exact free
  | case8 _ _ _ _ _ _ _ _ _ found =>
      cases ends
      exact found
  | case11 _ _ _ _ _ _ _ _ _ _ _ _ ih => exact ih ends
  | case12 _ _ _ _ _ _ _ _ _ _ _ ih => exact ih ends
  | _ => cases ends

/-- A walk that ends at no link does not depend on whether a link at the end is followed. -/
theorem walk_follow {links : Nat} {place : Place} {steps : List String} {location : Location}
    (ends : storage.walk false links place steps = .ok location)
    (noLink : ∀ place target, location ≠ .taken place (.link target)) :
    storage.walk true links place steps = .ok location := by
  fun_induction storage.walk false links place steps with
  | case2 _ _ _ found => exact (walk_nil found).trans ends
  | case3 _ _ _ _ found still ih => exact (walk_still found still).trans (ih ends)
  | case4 _ _ _ found _ ih => exact (walk_up found).trans (ih ends)
  | case6 _ _ _ _ found moves notUp short free isEnd =>
      exact (walk_vacant found ⟨moves, notUp, short⟩ free isEnd).trans ends
  | case8 _ _ _ _ _ _ _ _ target =>
      cases ends
      exact absurd rfl (noLink _ target)
  | case11 _ _ _ found moves notUp short _ link _ _ nonempty ih =>
      exact (walk_link found ⟨moves, notUp, short⟩ link (by simp) nonempty).trans (ih ends)
  | case12 _ _ _ _ found moves notUp short _ noLink there ih =>
      exact (walk_on found ⟨moves, notUp, short⟩ there noLink).trans (ih ends)
  | _ => cases ends

/-- If a walk that follows a link at its end is at an item, one that does not is so, too. -/
theorem exists_taken_of_walk {links : Nat} {place final : Place} {steps : List String} {item : Item}
    (ends : storage.walk true links place steps = .ok (.taken final item)) :
    ∃ final' item', storage.walk false links place steps = .ok (.taken final' item') := by
  fun_induction storage.walk true links place steps with
  | case2 _ _ _ found => exact ⟨_, _, walk_nil found⟩
  | case3 _ _ _ _ found still ih =>
      rw [walk_still found still]
      exact ih ends
  | case4 _ _ _ found _ ih =>
      rw [walk_up found]
      exact ih ends
  | case8 _ _ _ _ _ _ _ _ _ _ isEnd => simp at isEnd
  | case11 _ _ rest found moves notUp short target link _ _ nonempty ih =>
      cases last : rest.isEmpty with
      | true => exact ⟨_, _, walk_link_end found ⟨moves, notUp, short⟩ link (by simp [last])⟩
      | false =>
          rw [walk_link found ⟨moves, notUp, short⟩ link (by simp [last]) nonempty]
          exact ih ends
  | case12 _ _ _ _ found moves notUp short _ noLink there ih =>
      rw [walk_on found ⟨moves, notUp, short⟩ there noLink]
      exact ih ends
  | _ => cases ends

/-! ## Paths -/

/-- A path that can be walked. -/
structure IsPath (path : String) : Prop where
  nonempty : ¬path.isEmpty = true
  valid : ¬path.toList.any (·.toNat = 0) = true
  short : ¬pathBound ≤ path.utf8ByteSize

theorem isPath_of_locate {follow : Bool} {path : String} {location : Location} :
    storage.locate follow path = .ok location → IsPath path := by
  fun_cases storage.locate follow path with
  | case4 nonempty valid short => exact fun _ => ⟨nonempty, valid, short⟩
  | _ => nofun

theorem locate_eq_walk {path : String} (isPath : IsPath path) (follow : Bool) :
    storage.locate follow path = storage.walk follow linkBound
      (if Path.isAbsolute path then [] else storage.workingDirectory) (stepsOf path) := by
  rw [locate, if_neg isPath.nonempty, if_neg isPath.valid, if_neg isPath.short]

theorem stands_of_locate {follow : Bool} {path : String} {location : Location}
    (ends : storage.locate follow path = .ok location) : location.Stands storage := by
  rw [locate_eq_walk (isPath_of_locate ends)] at ends
  exact stands_of_walk ends

theorem locate_follow {path : String} {location : Location}
    (ends : storage.locate false path = .ok location)
    (noLink : ∀ place target, location ≠ .taken place (.link target)) :
    storage.locate true path = .ok location := by
  have isPath := isPath_of_locate ends
  rw [locate_eq_walk isPath] at ends ⊢
  exact walk_follow ends noLink

theorem exists_taken_of_locate {path : String} {place : Place} {item : Item}
    (ends : storage.locate true path = .ok (.taken place item)) :
    ∃ place' item', storage.locate false path = .ok (.taken place' item') := by
  have isPath := isPath_of_locate ends
  rw [locate_eq_walk isPath] at ends ⊢
  exact exists_taken_of_walk ends

theorem locate_of_exists {path : String} (there : storage.exists? path = true) :
    ∃ place item, storage.locate true path = .ok (.taken place item) := by
  unfold exists? at there
  split at there
  next place item ends => exact ⟨place, item, ends⟩
  next => cases there

theorem locate_of_isFile {path : String} (there : storage.isFile path = true) :
    ∃ place bytes, storage.locate true path = .ok (.taken place (.file bytes)) := by
  unfold isFile at there
  split at there
  next place bytes ends => exact ⟨place, bytes, ends⟩
  next => cases there

theorem locate_of_isDirectory {path : String} (there : storage.isDirectory path = true) :
    ∃ place, storage.locate true path = .ok (.taken place .directory) := by
  unfold isDirectory at there
  split at there
  next place ends => exact ⟨place, ends⟩
  next => cases there

end WebBundle.Storage
