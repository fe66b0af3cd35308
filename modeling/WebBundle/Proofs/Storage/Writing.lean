import WebBundle.Proofs.Storage.Items

/-!
# What writing changes

Making directories and writing files puts directories at free places, and files at free places or
in the place of other files. Nothing is removed, and directories and links stay.
-/

namespace WebBundle.Storage

variable {storage : Storage} {contents : List ByteArray}

/-- How the item at a place changes while files with some contents are written. -/
inductive Overwritten (contents : List ByteArray) : Option Item → Option Item → Prop where
  | kept (item : Option Item) : Overwritten contents item item
  | made : Overwritten contents none (some .directory)
  | added {bytes : ByteArray} (given : bytes ∈ contents) :
      Overwritten contents none (some (.file bytes))
  | replaced {old bytes : ByteArray} (given : bytes ∈ contents) :
      Overwritten contents (some (.file old)) (some (.file bytes))

namespace Overwritten

theorem trans {first second third : Option Item} (before : Overwritten contents first second)
    (after : Overwritten contents second third) : Overwritten contents first third := by
  cases after with
  | kept => exact before
  | made =>
      cases before
      exact .made
  | added given =>
      cases before
      exact .added given
  | replaced given =>
      cases before with
      | kept => exact .replaced given
      | added => exact .added given
      | replaced => exact .replaced given

theorem directory {after : Option Item}
    (change : Overwritten contents (some .directory) after) : after = some .directory := by
  cases change
  rfl

theorem link {target : String} {after : Option Item}
    (change : Overwritten contents (some (.link target)) after) : after = some (.link target) := by
  cases change
  rfl

theorem exists_file {old : ByteArray} {after : Option Item}
    (change : Overwritten contents (some (.file old)) after) :
    ∃ bytes, after = some (.file bytes) := by
  cases change with
  | kept => exact ⟨old, rfl⟩
  | replaced => exact ⟨_, rfl⟩

/-- A file stays if no files are written. -/
theorem file {old : ByteArray} {after : Option Item}
    (change : Overwritten [] (some (.file old)) after) : after = some (.file old) := by
  cases change with
  | kept => rfl
  | replaced given => cases given

/-- Once it has changed, a place with none of the contents does not get back what it had. -/
theorem ne_of_ne {first second third : Option Item} (before : Overwritten contents first second)
    (after : Overwritten contents second third) (changed : second ≠ first)
    (fresh : ∀ bytes ∈ contents, first ≠ some (.file bytes)) : third ≠ first := by
  cases after with
  | kept => exact changed
  | made =>
      cases before
      exact absurd rfl changed
  | added =>
      cases before
      exact absurd rfl changed
  | replaced given => exact (fresh _ given).symm

/-- At a free place there is nothing later but a directory or a file with one of the contents. -/
theorem ne_of_free {item : Item} (notDirectory : item ≠ .directory)
    (lost : ∀ bytes ∈ contents, item ≠ .file bytes) {after : Option Item}
    (change : Overwritten contents none after) : after ≠ some item := by
  rintro rfl
  cases change with
  | made => exact notDirectory rfl
  | added given => exact lost _ given rfl

end Overwritten

/-- From one storage to another only files with some contents are written, and directories made. -/
structure WritesOnly (contents : List ByteArray) (before after : Storage) : Prop where
  items (place : Place) : Overwritten contents (before.itemAt? place) (after.itemAt? place)
  workingDirectory : after.workingDirectory = before.workingDirectory

namespace WritesOnly

theorem refl (contents : List ByteArray) (storage : Storage) :
    WritesOnly contents storage storage := ⟨fun _ => .kept _, rfl⟩

theorem trans {first second third : Storage} (before : WritesOnly contents first second)
    (after : WritesOnly contents second third) : WritesOnly contents first third :=
  ⟨fun place => (before.items place).trans (after.items place),
    after.workingDirectory.trans before.workingDirectory⟩

variable {before after : Storage} {place : Place}

theorem directory (only : WritesOnly contents before after)
    (found : before.itemAt? place = some .directory) : after.itemAt? place = some .directory :=
  (found ▸ only.items place).directory

theorem link (only : WritesOnly contents before after) {target : String}
    (found : before.itemAt? place = some (.link target)) :
    after.itemAt? place = some (.link target) := (found ▸ only.items place).link

/-- What is no link is still there, and no link. -/
theorem exists_item (only : WritesOnly contents before after) {item : Item}
    (found : before.itemAt? place = some item) (noLink : ∀ target, item ≠ .link target) :
    ∃ later, after.itemAt? place = some later ∧ ∀ target, later ≠ .link target := by
  cases item with
  | directory => exact ⟨.directory, only.directory found, nofun⟩
  | file old =>
      obtain ⟨bytes, later⟩ := (found ▸ only.items place).exists_file
      exact ⟨.file bytes, later, nofun⟩
  | link target => exact absurd rfl (noLink target)

/-- A walk ends where it ended before if there is still the same. -/
theorem walk (only : WritesOnly contents before after) {follow : Bool} {links : Nat}
    {place : Place} {steps : List String} {location : Location}
    (ends : before.walk follow links place steps = .ok location)
    (stands : location.Stands after) : after.walk follow links place steps = .ok location := by
  fun_induction before.walk follow links place steps with
  | case2 =>
      cases ends
      exact walk_nil stands
  | case3 _ _ _ _ found still ih => exact (walk_still (only.directory found) still).trans (ih ends)
  | case4 _ _ _ found _ ih => exact (walk_up (only.directory found)).trans (ih ends)
  | case6 _ _ _ _ found moves notUp short _ isEnd =>
      cases ends
      exact walk_vacant (only.directory found) ⟨moves, notUp, short⟩ stands isEnd
  | case8 _ _ _ _ found moves notUp short _ link isEnd =>
      exact (walk_link_end (only.directory found) ⟨moves, notUp, short⟩ (only.link link)
        isEnd).trans ends
  | case11 _ _ _ found moves notUp short _ link goesOn _ nonempty ih =>
      exact (walk_link (only.directory found) ⟨moves, notUp, short⟩ (only.link link) goesOn
        nonempty).trans (ih ends)
  | case12 _ _ _ _ found moves notUp short _ isItem there ih =>
      obtain ⟨later, thereLater, noLink⟩ := only.exists_item there isItem
      exact (walk_on (only.directory found) ⟨moves, notUp, short⟩ thereLater noLink).trans (ih ends)
  | _ => cases ends

theorem locate (only : WritesOnly contents before after) {follow : Bool} {path : String}
    {location : Location} (ends : before.locate follow path = .ok location)
    (stands : location.Stands after) : after.locate follow path = .ok location := by
  have isPath := isPath_of_locate ends
  rw [locate_eq_walk isPath] at ends ⊢
  rw [only.workingDirectory]
  exact only.walk ends stands

theorem isDirectory (only : WritesOnly contents before after) {path : String}
    (there : before.isDirectory path = true) : after.isDirectory path = true := by
  obtain ⟨place, ends⟩ := locate_of_isDirectory there
  have later := only.locate ends (only.directory (stands_of_locate ends))
  rw [Storage.isDirectory, later]

end WritesOnly

/-- A change of one place. -/
theorem writesOnly_put {place : Place} {item : Item} (below : place ≠ [])
    (change : Overwritten contents (storage.itemAt? place) (some item)) :
    WritesOnly contents storage (storage.put place item) := by
  refine ⟨fun other => ?_, rfl⟩
  rw [itemAt?_put below]
  by_cases same : other = place
  · rw [if_pos same, same]
    exact change
  · rw [if_neg same]
    exact .kept _

theorem writesOnly_put_directory {place : Place} (free : storage.itemAt? place = none) :
    WritesOnly contents storage (storage.put place .directory) :=
  writesOnly_put (ne_nil_of_itemAt?_eq_none free) (free ▸ .made)

/-! ## Operations -/

theorem writesOnly_makeDirectory {path : String} {made : Storage} :
    storage.makeDirectory path = .ok made → WritesOnly contents storage made := by
  fun_cases storage.makeDirectory path with
  | case1 parent name _ ends =>
      rintro ⟨⟩
      exact writesOnly_put_directory (stands_of_locate ends)
  | case2 => nofun
  | case3 => nofun

theorem writesOnly_ensureDirectory {path : String} {made : Storage} :
    storage.ensureDirectory path = .ok made → WritesOnly contents storage made := by
  fun_cases storage.ensureDirectory path with
  | case1 _ makes =>
      rintro ⟨⟩
      exact writesOnly_makeDirectory makes
  | case2 =>
      rintro ⟨⟩
      exact .refl contents storage
  | case3 => nofun

/-- Directories that were made stay, even if a later one cannot be made. -/
theorem writesOnly_makeDirectoriesIn (rounds : Nat) (path : String) :
    WritesOnly contents storage (storage.makeDirectoriesIn rounds path).1 := by
  fun_induction storage.makeDirectoriesIn rounds path with
  | case3 _ _ _ _ makes => exact writesOnly_makeDirectory makes
  | case5 _ _ _ _ _ _ _ _ above ih =>
      rw [above] at ih
      exact ih
  | case6 _ _ _ _ _ _ _ above _ makes ih =>
      rw [above] at ih
      exact ih.trans (writesOnly_ensureDirectory makes)
  | case7 _ _ _ _ _ _ _ above _ _ ih =>
      rw [above] at ih
      exact ih
  | _ => exact .refl contents storage

theorem writesOnly_makeDirectories (path : String) :
    WritesOnly contents storage (storage.makeDirectories path).1 :=
  writesOnly_makeDirectoriesIn _ path

theorem makeDirectory_of_isDirectory {path : String} (there : storage.isDirectory path = true) :
    storage.makeDirectory path = .error .occupied := by
  obtain ⟨_, ends⟩ := locate_of_isDirectory there
  obtain ⟨_, _, taken⟩ := exists_taken_of_locate ends
  rw [makeDirectory, taken]

theorem makeDirectories_of_isDirectory {path : String} (there : storage.isDirectory path = true) :
    storage.makeDirectories path = (storage, .ok ()) := by
  obtain ⟨_, ends⟩ := locate_of_isDirectory there
  rw [makeDirectories, makeDirectoriesIn, if_neg (isPath_of_locate ends).nonempty,
    makeDirectory_of_isDirectory there]
  simp only [there, if_true]

theorem makeDirectory_of_vacant {path name : String} {parent : Place} {slash : Bool}
    (ends : storage.locate false path = .ok (.vacant parent name slash)) :
    storage.makeDirectory path = .ok (storage.put (parent ++ [name]) .directory) := by
  rw [makeDirectory, ends]

theorem ensureDirectory_of_vacant {path name : String} {parent : Place} {slash : Bool}
    (ends : storage.locate false path = .ok (.vacant parent name slash)) :
    storage.ensureDirectory path = .ok (storage.put (parent ++ [name]) .directory) := by
  rw [ensureDirectory, makeDirectory_of_vacant ends]

theorem ensureDirectory_of_isDirectory {path : String} (there : storage.isDirectory path = true) :
    storage.ensureDirectory path = .ok storage := by
  rw [ensureDirectory, makeDirectory_of_isDirectory there]
  simp only [there, if_true]

/-- The directory above a missing one is made first. -/
theorem makeDirectoriesIn_of_missing {rounds : Nat} {path parent : String}
    {made after : Storage} (nonempty : path.isEmpty = false)
    (ends : storage.locate false path = .error .missing)
    (isParent : Path.parent? path = some parent)
    (above : storage.makeDirectoriesIn rounds parent = (made, .ok ()))
    (ensures : made.ensureDirectory path = .ok after) :
    storage.makeDirectoriesIn (rounds + 1) path = (after, .ok ()) := by
  have missing : storage.makeDirectory path = .error .missing := by
    rw [makeDirectory, ends]
  rw [makeDirectoriesIn, nonempty, if_neg Bool.false_ne_true, missing]
  simp only [isParent, above, ensures]

theorem makeDirectoriesIn_of_vacant {path name : String} {parent : Place} {slash : Bool}
    (ends : storage.locate false path = .ok (.vacant parent name slash)) (rounds : Nat) :
    storage.makeDirectoriesIn (rounds + 1) path =
      (storage.put (parent ++ [name]) .directory, .ok ()) := by
  rw [makeDirectoriesIn, if_neg (isPath_of_locate ends).nonempty, makeDirectory_of_vacant ends]

theorem makeDirectories_of_vacant {path name : String} {parent : Place} {slash : Bool}
    (ends : storage.locate false path = .ok (.vacant parent name slash)) :
    storage.makeDirectories path = (storage.put (parent ++ [name]) .directory, .ok ()) :=
  makeDirectoriesIn_of_vacant ends path.length

theorem makeDirectories_of_file {path : String} {place : Place} {bytes : ByteArray}
    (ends : storage.locate false path = .ok (.taken place (.file bytes))) :
    storage.makeDirectories path = (storage, .error .occupied) := by
  have occupied : storage.makeDirectory path = .error .occupied := by
    rw [makeDirectory, ends]
  have isFile : storage.isDirectory path = false := by
    rw [isDirectory, locate_follow ends nofun]
  rw [makeDirectories, makeDirectoriesIn, if_neg (isPath_of_locate ends).nonempty, occupied]
  simp only [isFile, if_false, Bool.false_eq_true]

/-- A file is not written to a path with slashes at its end. -/
theorem exists_fault_of_slash {path bare : String} (split : splitEndSlashes path = (bare, true))
    (bytes : ByteArray) : ∃ fault, storage.write path bytes = .error fault := by
  rw [write, split]
  dsimp only
  split
  next fault _ => exact ⟨fault, rfl⟩
  next => exact ⟨.isDirectory, rfl⟩
  next => exact ⟨.isDirectory, rfl⟩
  next => exact ⟨.isDirectory, rfl⟩

/-! ## Paths to which a file can be written -/

/-- A path leads to a free name or to a file, over no link with slashes at its end. -/
structure Opens (storage : Storage) (path : String) (location : Location) : Prop where
  leads : storage.locate true path = .ok location
  noSlash : ∀ parent name, location ≠ .vacant parent name true
  isFile : ∀ item, location.item? = some item → ∃ bytes, item = .file bytes

namespace Opens

variable {path : String} {location : Location}

theorem place_ne_nil (opens : Opens storage path location) : location.place ≠ [] := by
  have stands : storage.itemAt? location.place = location.item? := stands_of_locate opens.leads
  cases found : location.item? with
  | none => exact ne_nil_of_itemAt?_eq_none (stands.trans found)
  | some item =>
      obtain ⟨bytes, rfl⟩ := opens.isFile item found
      exact ne_nil_of_itemAt?_ne (stands.trans found) nofun

/-- A file is put where its path leads. -/
theorem writesOnly_put (opens : Opens storage path location) {bytes : ByteArray}
    (given : bytes ∈ contents) :
    WritesOnly contents storage (storage.put location.place (.file bytes)) := by
  have stands : storage.itemAt? location.place = location.item? := stands_of_locate opens.leads
  refine Storage.writesOnly_put opens.place_ne_nil ?_
  cases found : location.item? with
  | none =>
      rw [stands, found]
      exact .added given
  | some item =>
      obtain ⟨old, rfl⟩ := opens.isFile item found
      rw [stands, found]
      exact .replaced given

end Opens

/-- A walk to a free name or to a file ends there once there is a file. -/
theorem WritesOnly.walk_file {before after : Storage} (only : WritesOnly contents before after)
    {links : Nat} {place : Place} {steps : List String} {location : Location} {bytes : ByteArray}
    (ends : before.walk true links place steps = .ok location)
    (noSlash : ∀ parent name, location ≠ .vacant parent name true)
    (there : after.itemAt? location.place = some (.file bytes)) :
    after.walk true links place steps = .ok (.taken location.place (.file bytes)) := by
  fun_induction before.walk true links place steps with
  | case2 =>
      cases ends
      exact walk_nil there
  | case3 _ _ _ _ found still ih => exact (walk_still (only.directory found) still).trans (ih ends)
  | case4 _ _ _ found _ ih => exact (walk_up (only.directory found)).trans (ih ends)
  | case6 _ place step rest found moves notUp short _ _ =>
      cases ends
      cases rest with
      | nil =>
          exact (walk_on (only.directory found) ⟨moves, notUp, short⟩ there (by simp)).trans
            (walk_nil there)
      | cons next rest => exact absurd rfl (noSlash place step)
  | case8 _ _ _ _ _ _ _ _ _ _ isEnd => simp at isEnd
  | case11 _ _ _ found moves notUp short _ link goesOn _ nonempty ih =>
      exact (walk_link (only.directory found) ⟨moves, notUp, short⟩ (only.link link) goesOn
        nonempty).trans (ih ends)
  | case12 _ _ _ _ found moves notUp short _ isItem standing ih =>
      obtain ⟨later, thereLater, noLink⟩ := only.exists_item standing isItem
      exact (walk_on (only.directory found) ⟨moves, notUp, short⟩ thereLater noLink).trans (ih ends)
  | _ => cases ends

theorem Opens.locate_file {after : Storage} {path : String} {location : Location}
    {bytes : ByteArray} (opens : Opens storage path location)
    (only : WritesOnly contents storage after)
    (there : after.itemAt? location.place = some (.file bytes)) :
    after.locate true path = .ok (.taken location.place (.file bytes)) := by
  have ends := opens.leads
  have isPath := isPath_of_locate ends
  rw [locate_eq_walk isPath] at ends ⊢
  rw [only.workingDirectory]
  exact only.walk_file ends opens.noSlash there

/-- A file may be written over, but stays a file. -/
theorem WritesOnly.isFile {after : Storage} {path : String}
    (only : WritesOnly contents storage after) (there : storage.isFile path = true) :
    after.isFile path = true := by
  unfold Storage.isFile at there
  split at there
  next place old ends =>
    have held : storage.itemAt? place = some (.file old) := stands_of_locate ends
    obtain ⟨bytes, heldAfter⟩ := (held ▸ only.items place).exists_file
    have opens : Opens storage path (.taken place (.file old)) :=
      ⟨ends, nofun, fun item same => ⟨old, (Option.some.inj same).symm⟩⟩
    rw [Storage.isFile, opens.locate_file only heldAfter]
  next => cases there

theorem splitEndSlashes_of_false {path bare : String}
    (split : splitEndSlashes path = (bare, false)) : bare = path := by
  obtain ⟨isBare, notShorter⟩ := Prod.mk.inj split
  have isPrefix : (path.toList.reverse.dropWhile (· = '/')).reverse <+: path.toList := by
    rw [← List.reverse_suffix, List.reverse_reverse]
    exact List.dropWhile_suffix _
  have long : path.toList.length ≤ (path.toList.reverse.dropWhile (· = '/')).reverse.length :=
    Nat.le_of_not_lt (of_decide_eq_false notShorter)
  rw [← isBare, isPrefix.eq_of_length_le long, String.ofList_toList]

/-- A file that was written was put where its path leads. -/
theorem exists_opens_of_write {path : String} {bytes : ByteArray} {written : Storage} :
    storage.write path bytes = .ok written →
      ∃ location, Opens storage path location ∧
        written = storage.put location.place (.file bytes) := by
  fun_cases storage.write path bytes with
  | case3 bare slash split place old ends notSlash =>
      rintro ⟨⟩
      obtain rfl : slash = false := Bool.eq_false_iff.2 notSlash
      rw [splitEndSlashes_of_false split, ite_self] at ends
      refine ⟨.taken place (.file old), ⟨ends, nofun, ?_⟩, rfl⟩
      rintro item ⟨⟩
      exact ⟨old, rfl⟩
  | case6 bare slash split parent name ending ends notSlash =>
      rintro ⟨⟩
      obtain ⟨rfl, rfl⟩ : slash = false ∧ ending = false := by simpa using notSlash
      rw [splitEndSlashes_of_false split, ite_self] at ends
      exact ⟨.vacant parent name false, ⟨ends, nofun, nofun⟩, rfl⟩
  | _ => nofun

theorem writesOnly_write {path : String} {bytes : ByteArray} {written : Storage}
    (given : bytes ∈ contents) (succeeds : storage.write path bytes = .ok written) :
    WritesOnly contents storage written := by
  obtain ⟨location, opens, rfl⟩ := exists_opens_of_write succeeds
  exact opens.writesOnly_put given

/-! ## Names that are too long -/

/-- Behind a step that is short enough for a name, the last step is the same. -/
theorem getLast?_of_short {step long : String} {rest : List String}
    (last : (step :: rest).getLast? = some long) (isLong : nameBound < long.utf8ByteSize)
    (short : ¬nameBound < step.utf8ByteSize) : rest.getLast? = some long := by
  rw [List.getLast?_cons] at last
  cases found : rest.getLast? with
  | some other =>
      rw [found] at last
      exact last
  | none =>
      rw [found] at last
      obtain rfl := Option.some.inj last
      exact absurd isLong short

/-- No walk gets to the end of steps the last of which is too long for a name. -/
theorem walk_ne_of_long {follow : Bool} {links : Nat} {place : Place} {steps : List String}
    {long : String} {location : Location} (last : steps.getLast? = some long)
    (isLong : nameBound < long.utf8ByteSize) :
    storage.walk follow links place steps ≠ .ok location := by
  fun_induction storage.walk follow links place steps with
  | case2 => cases last
  | case3 links place step rest _ still ih =>
      refine ih (getLast?_of_short last isLong ?_)
      rw [Bool.or_eq_true, decide_eq_true_eq, decide_eq_true_eq] at still
      rcases still with rfl | rfl
      · decide
      · decide
  | case4 links place rest _ _ ih => exact ih (getLast?_of_short last isLong (by decide))
  | case6 links place step rest _ _ _ short _ isEnd =>
      have last := getLast?_of_short last isLong short
      have empty := List.all_eq_true.1 isEnd long (List.mem_of_getLast? last)
      rw [of_decide_eq_true empty] at isLong
      exact absurd isLong (by decide)
  | case8 links place step rest _ _ _ short target _ isEnd =>
      have last := getLast?_of_short last isLong short
      rw [List.isEmpty_iff.1 (Bool.and_eq_true_iff.1 isEnd).1] at last
      cases last
  | case11 place step rest _ _ _ short target _ _ links _ ih =>
      refine ih ?_
      rw [List.getLast?_append, getLast?_of_short last isLong short, Option.some_or]
  | case12 links place step rest _ _ _ short _ _ _ ih =>
      exact ih (getLast?_of_short last isLong short)
  | _ =>
      intro ends
      cases ends

/-- A file is not written to a path whose last step is too long for a name. -/
theorem exists_fault_of_long {path long : String} (last : (stepsOf path).getLast? = some long)
    (isLong : nameBound < long.utf8ByteSize) (bytes : ByteArray) :
    ∃ fault, storage.write path bytes = .error fault := by
  cases written : storage.write path bytes with
  | error fault => exact ⟨fault, rfl⟩
  | ok after =>
      obtain ⟨location, opens, _⟩ := exists_opens_of_write written
      have leads := opens.leads
      rw [locate_eq_walk (isPath_of_locate leads)] at leads
      exact absurd leads (walk_ne_of_long last isLong)

/-! ## Writing where a path leads -/

/-- A file is put where its path leads. -/
theorem Opens.write {path : String} {location : Location} (opens : Opens storage path location)
    (bare : splitEndSlashes path = (path, false)) (bytes : ByteArray) :
    storage.write path bytes = .ok (storage.put location.place (.file bytes)) := by
  have leads := opens.leads
  rw [Storage.write, bare]
  simp only [ite_self]
  cases location with
  | taken place item =>
      obtain ⟨old, rfl⟩ := opens.isFile item rfl
      simp only [leads, if_false, Bool.false_eq_true]
      rfl
  | vacant parent name slash =>
      cases slash with
      | true => exact absurd rfl (opens.noSlash parent name)
      | false =>
          simp only [leads, Bool.or_self, if_false, Bool.false_eq_true]
          rfl

/-- A path without slashes at its end leads to a place for a file below a directory. -/
structure Lands (storage : Storage) (path : String) (location : Location) : Prop
    extends Opens storage path location where
  bare : splitEndSlashes path = (path, false)
  above : ∀ parent, Path.parent? path = some parent → storage.isDirectory parent = true

/-- A free name in a directory is a place for a file. -/
theorem lands_of_vacant {path directory name : String} {place : Place}
    (above : storage.isDirectory directory = true)
    (ends : storage.locate true path = .ok (.vacant place name false))
    (bare : splitEndSlashes path = (path, false)) (isParent : Path.parent? path = some directory) :
    Lands storage path (.vacant place name false) := by
  refine ⟨⟨ends, by simp, by simp [Location.item?]⟩, bare, ?_⟩
  rintro parent same
  obtain rfl := Option.some.inj (isParent.symm.trans same)
  exact above

namespace Lands

variable {path : String} {location : Location}

theorem write (lands : Lands storage path location) (bytes : ByteArray) :
    storage.write path bytes = .ok (storage.put location.place (.file bytes)) :=
  lands.toOpens.write lands.bare bytes

/-- A path still leads to its place as long as nothing has changed there. -/
theorem later {after : Storage} (lands : Lands storage path location)
    (only : WritesOnly contents storage after)
    (same : after.itemAt? location.place = storage.itemAt? location.place) :
    Lands after path location where
  leads := only.locate lands.leads (same.trans (stands_of_locate lands.leads))
  noSlash := lands.noSlash
  isFile := lands.isFile
  bare := lands.bare
  above parent isParent := only.isDirectory (lands.above parent isParent)

end Lands

end WebBundle.Storage
