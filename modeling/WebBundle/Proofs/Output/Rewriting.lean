import WebBundle.Proofs.Output.Landing
import WebBundle.Proofs.Storage.Making
import WebBundle.Proofs.Storage.Meeting

/-!
# Writing an output again

An output directory is made anew when it is emptied before, and files whose paths are plain names
are written in it, provided that its path steps up only on its way to a directory outside of it. So
what was changed lies near the directory, and the same files, written once more, come to the same
storage.
-/

namespace WebBundle.Output

open Storage

variable {storage cleared emptied prepared later after : Storage} {directory parent : String}
  {near base : Place} {file : File} {files : List File}

theorem eq_of_makeDirectories (made : makeDirectories storage directory = (after, .ok ())) :
    storage.makeDirectories directory = (after, .ok ()) := by
  rw [makeDirectories] at made
  cases makes : storage.makeDirectories directory with
  | mk next result =>
      rw [makes] at made
      obtain ⟨rfl, succeeds⟩ := Prod.mk.inj made
      cases result with
      | error fault => cases succeeds
      | ok _ => rfl

theorem makes_of_makeDirectories (tree : storage.IsTree)
    (grounded : storage.Grounded directory)
    (made : makeDirectories storage directory = (after, .ok ())) :
    Makes storage directory after :=
  makes_of_makeDirectoriesIn tree grounded (eq_of_makeDirectories made)

/-! ## A directory that was made anew -/

/-- An empty directory that is made again in the same way once it is removed. -/
structure Anew (emptied prepared : Storage) (directory : String) (base : Place) : Prop where
  tree : prepared.IsTree
  leads (follow : Bool) : prepared.locate follow directory = .ok (.taken base .directory)
  free (place : Place) (inside : base <+: place) (ne : place ≠ base) :
    prepared.itemAt? place = none
  removed : prepared.removeAt base = emptied
  again : emptied.makeDirectories directory = (prepared, .ok ())

theorem anew_of_vacant {name : String} {slash : Bool} (tree : emptied.IsTree)
    (free : emptied.locate false directory = .ok (.vacant base name slash)) :
    Anew emptied (emptied.put (base ++ [name]) .directory) directory (base ++ [name]) := by
  have vacant : emptied.itemAt? (base ++ [name]) = none := stands_of_locate free
  have below := ne_nil_of_itemAt?_eq_none vacant
  constructor
  case tree =>
    refine tree.put below ?_ fun _ => rfl
    rw [List.dropLast_concat]
    exact directory_of_vacant free
  case leads => exact fun follow => locate_of_anew free
  case free =>
    intro place inside ne
    rw [itemAt?_put below, if_neg ne]
    exact tree.free_below vacant inside
  case removed => rw [removeAt_put (List.prefix_refl _), tree.removeAt_of_free vacant]
  case again => exact makeDirectories_of_vacant free

/-- The root is emptied, but stays. -/
theorem anew_of_root (leads : storage.locate false directory = .ok (.taken [] .directory))
    (there : (storage.removeAt []).isDirectory directory = true) :
    Anew (storage.removeAt []) (storage.removeAt []) directory [] := by
  have nothing : (storage.removeAt []).items = [] := by simp [removeAt]
  obtain ⟨_, ends⟩ := locate_of_isDirectory there
  obtain ⟨place, item, taken⟩ := exists_taken_of_locate ends
  have before := taken
  rw [locate_eq_walk (isPath_of_locate taken)] at before
  have before := walk_of_removeAt before
  rw [locate_eq_walk (isPath_of_locate taken)] at leads
  obtain ⟨rfl, rfl⟩ := Location.taken.inj (Except.ok.inj (before.symm.trans leads))
  constructor
  case tree =>
    intro entry listed
    rw [nothing] at listed
    cases listed
  case leads =>
    intro follow
    cases follow with
    | false => exact taken
    | true => exact locate_follow taken (by simp)
  case free => exact fun place _ ne => itemAt?_removeAt List.nil_prefix ne
  case removed => simp [removeAt]
  case again => exact makeDirectories_of_isDirectory there

theorem isRemovable_of_vacant {name : String} {slash : Bool}
    (free : storage.locate false directory = .ok (.vacant base name slash)) :
    IsRemovable directory := by
  have noDots (last : List Char) (before : List (List Char))
      (isDots : String.ofList last = "." ∨ String.ofList last = "..")
      (isLast : (Path.segments directory).reverse.dropWhile List.isEmpty = last :: before) :
      False := by
    have whole := List.takeWhile_append_dropWhile (p := List.isEmpty)
      (l := (Path.segments directory).reverse)
    rw [isLast] at whole
    have shape : Path.segments directory = before.reverse ++
        last :: ((Path.segments directory).reverse.takeWhile List.isEmpty).reverse := by
      rw [← List.reverse_inj]
      simpa using whole.symm
    rw [locate_eq_walk (isPath_of_locate free), stepsOf, shape, List.map_append,
      List.map_cons] at free
    refine walk_dots_ne_vacant isDots (fun step listed => ?_) free
    obtain ⟨segment, member, rfl⟩ := List.mem_map.1 listed
    have empty := List.mem_takeWhile_imp (List.mem_reverse.1 member)
    rw [List.isEmpty_iff.1 empty]
  intro other place
  unfold removeEmptied
  split
  next before isLast => exact (noDots _ before (.inl rfl) isLast).elim
  next before isLast => exact (noDots _ before (.inr rfl) isLast).elim
  next => rfl

/-- The place of an output directory: where it is found, or else where it is made. -/
inductive IsOutPlace (storage after : Storage) (directory : String) (place : Place) : Prop where
  | found {item : Item} (there : storage.exists? directory = true)
      (leads : storage.locate false directory = .ok (.taken place item))
  | made (missing : storage.exists? directory = false)
      (leads : after.locate true directory = .ok (.taken place .directory))

theorem IsOutPlace.nonempty (isOut : IsOutPlace storage after directory near) :
    directory ≠ "" := by
  rintro rfl
  cases isOut with
  | found there leads => exact (isPath_of_locate leads).nonempty rfl
  | made missing leads => exact (isPath_of_locate leads).nonempty rfl

theorem IsOutPlace.unique {other : Place} (isOut : IsOutPlace storage after directory near)
    (isOut' : IsOutPlace storage after directory other) : near = other := by
  cases isOut with
  | found there leads =>
      cases isOut' with
      | found _ leads' =>
          rw [leads] at leads'
          exact (Location.taken.inj (Except.ok.inj leads')).1
      | made missing _ =>
          rw [there] at missing
          cases missing
  | made missing leads =>
      cases isOut' with
      | found there _ =>
          rw [there] at missing
          cases missing
      | made _ leads' =>
          rw [leads] at leads'
          exact (Location.taken.inj (Except.ok.inj leads')).1

theorem IsOutPlace.mono {contents : List ByteArray}
    (only : WritesOnly contents prepared after)
    (isOut : IsOutPlace storage prepared directory near) :
    IsOutPlace storage after directory near := by
  cases isOut with
  | found there leads => exact .found there leads
  | made missing leads =>
      exact .made missing (only.locate leads (only.directory (stands_of_locate leads)))

/-- How an output directory is prepared: all that changes lies near its place. -/
structure Prepares (storage prepared : Storage) (directory : String) (near base : Place) :
    Prop where
  anew : ∃ emptied, Anew emptied prepared directory base
  removable : IsRemovable directory
  above : near <+: base
  alters : Alters near storage prepared

/-- What was made where something was removed, or at a free place, was made anew. -/
theorem prepares_of_anew {first parent : Place} {name : String} {slash : Bool}
    (tree : cleared.IsTree)
    (grows : Grows first (parent ++ [name]) cleared emptied)
    (free : emptied.locate false directory = .ok (.vacant parent name slash))
    (above : near <+: parent ++ [name]) (alters : Alters near storage cleared)
    (within : ∀ other, first <+: other → other <+: parent ++ [name] → Near near other) :
    Prepares storage (emptied.put (parent ++ [name]) .directory) directory near
      (parent ++ [name]) where
  anew := ⟨emptied, anew_of_vacant (grows.isTree tree) free⟩
  removable := isRemovable_of_vacant free
  above := above
  alters := .put (grows.alters alters within) above
    (ne_nil_of_itemAt?_eq_none (stands_of_locate free))

theorem prepares_of_cleared {item : Item} (tree : storage.IsTree) (nonempty : directory ≠ "")
    (there : storage.exists? directory = true)
    (leads : storage.locate false directory = .ok (.taken near item))
    (removable : item = .directory → IsRemovable directory)
    (makes : Makes (storage.removeAt near) directory prepared) :
    ∃ base, Prepares storage prepared directory near base := by
  cases makes with
  | there found =>
      -- The path still leads somewhere, so what was removed was the root.
      obtain ⟨_, ends⟩ := locate_of_isDirectory (found nonempty)
      obtain ⟨place, left, taken⟩ := exists_taken_of_locate ends
      have stands : (storage.removeAt near).itemAt? place = some left := stands_of_locate taken
      have before := leads
      have isPath := isPath_of_locate leads
      rw [locate_eq_walk isPath] at before taken
      have same := (walk_of_removeAt taken).symm.trans before
      obtain ⟨rfl, rfl⟩ := Location.taken.inj (Except.ok.inj same)
      by_cases root : place = []
      · subst root
        obtain rfl := Option.some.inj stands
        exact ⟨[], ⟨_, anew_of_root leads (found nonempty)⟩, removable rfl, List.prefix_refl _,
          .remove .refl⟩
      · rw [itemAt?_removeAt (List.prefix_refl place) root] at stands
        cases stands
  | anew grows free below spares =>
      have above := spares storage near rfl (locate_of_exists there)
      exact ⟨_, prepares_of_anew (tree.removeAt near) grows free (above.trans below)
        (.remove .refl) fun other inside _ => .inl (above.trans inside)⟩

/-- Emptying an output directory and making it prepares it. -/
theorem exists_prepares (tree : storage.IsTree) (grounded : cleared.Grounded directory)
    (nonempty : directory ≠ "") (isCleared : clear storage directory true = (cleared, .ok ()))
    (made : makeDirectories cleared directory = (prepared, .ok ())) :
    ∃ near base, Prepares storage prepared directory near base ∧
      IsOutPlace storage prepared directory near := by
  cases there : storage.exists? directory with
  | true =>
      obtain ⟨gone, item, leads, rfl, removable⟩ :=
        exists_eq_removeAt there (removeDirectory_of_clear rfl there isCleared)
      have makes := makes_of_makeDirectories (tree.removeAt gone) grounded made
      obtain ⟨base, prepares⟩ :=
        prepares_of_cleared tree nonempty there leads removable makes
      exact ⟨gone, base, prepares, .found there leads⟩
  | false =>
      rw [clear_of_not_exists there] at isCleared
      obtain rfl := (Prod.mk.inj isCleared).1
      cases makes_of_makeDirectories tree grounded made with
      | there found =>
          obtain ⟨place, ends⟩ := locate_of_isDirectory (found nonempty)
          rw [exists?, ends] at there
          cases there
      | anew grows free below _ =>
          exact ⟨_, _, prepares_of_anew tree grows free (List.prefix_refl _) .refl
            fun other _ above => .inr above, .made there (locate_of_anew free)⟩

/-! ## Files in the directory -/

section

variable {contents : List ByteArray} (anew : Anew emptied prepared directory base)
  (only : WritesOnly contents prepared later)

include anew only

theorem Anew.directory_later : later.itemAt? base = some .directory :=
  only.directory (stands_of_locate (anew.leads true))

theorem Anew.leads_later (follow : Bool) :
    later.locate follow directory = .ok (.taken base .directory) :=
  only.locate (anew.leads follow) (anew.directory_later only)

/-- No links are written. -/
theorem Anew.unlinked : later.Unlinked base := by
  intro place target inside ne link
  have change := only.items place
  rw [anew.free place inside ne, link] at change
  cases change

end

/-- What was written since a directory was prepared lies in it. -/
structure Within (contents : List ByteArray) (base : Place) (prepared later : Storage) :
    Prop where
  puts : PutsIn base prepared later
  only : WritesOnly contents prepared later
  tree : later.IsTree

namespace Within

variable {contents : List ByteArray} (anew : Anew emptied prepared directory base)

include anew

theorem refl : Within contents base prepared prepared :=
  ⟨.refl, .refl contents prepared, anew.tree⟩

/-- The directories above a file are made in the directory. -/
theorem makes {location : Location} (within : Within contents base prepared later)
    (isNormal : Path.IsNormal file.path)
    (isParent : Path.parent? (Path.join directory file.path) = some parent)
    (makes : Makes later parent after)
    (opens : Opens after (Path.join directory file.path) location) :
    Within contents base prepared after := by
  cases makes with
  | there _ => exact within
  | @anew before first above name slash grows free below spares =>
      have vacant : before.itemAt? (above ++ [name]) = none := stands_of_locate free
      have leads := @locate_of_anew before parent above true name slash free
      have nonempty : parent ≠ "" := fun empty =>
        (isPath_of_locate leads).nonempty (String.isEmpty_iff.2 empty)
      have treeBefore := grows.isTree within.tree
      have only : WritesOnly contents prepared (before.put (above ++ [name]) .directory) :=
        within.only.trans (grows.writesOnly.trans (writesOnly_put_directory vacant))
      have inside : base <+: above ++ [name] := by
        have notUp := (groundedAt_join (anew.leads_later only true) isNormal).lastMove?_ne
          (Path.stepsBackwards_of_isNormal isNormal)
        obtain ⟨next, ending, rfl⟩ := exists_vacant_of_anew treeBefore
          (Path.isAbove_of_parent? isParent nonempty) notUp vacant leads opens.leads
        have longer : base <+: (above ++ [name]) ++ [next] :=
          (anew.unlinked only).prefix_of_join (anew.leads_later only true) isNormal opens.leads
        refine (List.prefix_concat_iff.1 longer).resolve_left fun same => ?_
        have found := anew.directory_later only
        have free := stands_of_locate opens.leads
        rw [same] at found
        rw [Location.Stands, Location.place, found] at free
        cases free
      have filled := grows.puts within.tree (anew.directory_later within.only) inside
      exact {
        puts := within.puts.trans (.put filled inside (ne_nil_of_itemAt?_eq_none vacant))
        only := only
        tree := (anew_of_vacant treeBefore free).tree }

theorem writeFile (within : Within contents base prepared later)
    (isNormal : Path.IsNormal file.path) (given : file.bytes ∈ contents)
    (written : writeFile later directory file = (after, .ok ())) :
    Within contents base prepared after := by
  obtain ⟨made, location, makesParent, opens, rfl⟩ := exists_made_of_writeFile written
  have above : Within contents base prepared made := by
    unfold makeParent at makesParent
    split at makesParent
    next =>
      obtain ⟨rfl, _⟩ := Prod.mk.inj makesParent
      exact within
    next parent isParent =>
      have grounded : later.Grounded parent := by
        by_cases empty : parent = ""
        · rw [empty]
          exact grounded_empty
        · exact (groundedAt_join (anew.leads_later within.only true) isNormal).above
            (Path.stepsBackwards_of_isNormal isNormal) (Path.isAbove_of_parent? isParent empty)
      have makes := makes_of_makeDirectories within.tree grounded makesParent
      exact within.makes anew isNormal isParent makes opens
  have inside : base <+: location.place :=
    (anew.unlinked above.only).prefix_of_join (anew.leads_later above.only true) isNormal opens.leads
  exact {
    puts := .put above.puts inside opens.place_ne_nil
    only := above.only.trans (opens.writesOnly_put given)
    tree := opens.isTree_put above.tree file.bytes }

theorem writeFiles (within : Within contents base prepared later)
    (isNormal : ∀ file ∈ files, Path.IsNormal file.path)
    (given : ∀ file ∈ files, file.bytes ∈ contents)
    (written : writeFiles later directory files = (after, .ok ())) :
    Within contents base prepared after := by
  induction files generalizing later with
  | nil =>
      obtain ⟨rfl, _⟩ := Prod.mk.inj written
      exact within
  | cons file files ih =>
      obtain ⟨next, first, rest⟩ := exists_of_writeFiles_cons written
      have within := within.writeFile anew (isNormal file List.mem_cons_self)
        (given file List.mem_cons_self) first
      exact ih within (fun other listed => isNormal other (List.mem_cons_of_mem file listed))
        (fun other listed => given other (List.mem_cons_of_mem file listed)) rest

end Within

/-! ## Writing again -/

theorem clear_of_leads (removable : IsRemovable directory)
    (leads : ∀ follow, storage.locate follow directory = .ok (.taken base .directory)) :
    clear storage directory true = (storage.removeAt base, .ok ()) := by
  have there : storage.exists? directory = true := by
    rw [exists?, leads true]
  rw [clear, there, removeDirectory, leads false]
  dsimp only
  rw [removable, removeAt_clearAt]
  rfl

theorem grounded_of_clear (grounded : (storage.removeAt near).Grounded directory)
    (isOut : IsOutPlace storage after directory near)
    (isCleared : clear storage directory true = (cleared, .ok ())) :
    cleared.Grounded directory := by
  cases isOut with
  | found there leads =>
      obtain ⟨gone, item, leads', rfl, _⟩ :=
        exists_eq_removeAt there (removeDirectory_of_clear rfl there isCleared)
      rw [leads] at leads'
      obtain ⟨rfl, _⟩ := Location.taken.inj (Except.ok.inj leads')
      exact grounded
  | made missing _ =>
      rw [clear_of_not_exists missing] at isCleared
      obtain rfl := (Prod.mk.inj isCleared).1
      exact grounded.of_removeAt

/-- What was changed in a tree lies near a place with a directory below it. -/
theorem frames_of_alters (alters : Alters near storage later) (tree : later.IsTree)
    (found : later.itemAt? base = some .directory) (above : near <+: base) :
    Frames near storage later where
  elsewhere _ apart := alters.itemAt?_eq apart
  above place inside := by
    by_cases same : place = base
    · rw [same, found]
    · exact tree.directory_above found (inside.trans above) same
  workingDirectory := alters.workingDirectory

/-- What was changed by writing an output lies near its directory, and writing it again changes
nothing. -/
theorem write_again (tree : storage.IsTree)
    (grounded : (storage.removeAt near).Grounded directory)
    (isNormal : ∀ file ∈ files, Path.IsNormal file.path)
    (written : write storage directory files true = (after, .ok ()))
    (isOut : IsOutPlace storage after directory near) :
    Frames near storage after ∧ Alters near storage after ∧
      write after directory files true = (after, .ok ()) := by
  obtain ⟨cleared, prepared, isCleared, made, writes⟩ := exists_made_of_write written
  obtain ⟨near', base, prepares, isPlace⟩ :=
    exists_prepares tree (grounded_of_clear grounded isOut isCleared) isOut.nonempty isCleared made
  obtain ⟨emptied, anew⟩ := prepares.anew
  have within : Within (contentsOf files) base prepared after :=
    (Within.refl anew).writeFiles anew isNormal (fun _ listed => List.mem_map_of_mem listed)
      writes
  have leads := anew.leads_later within.only
  obtain rfl : near = near' := isOut.unique (isPlace.mono within.only)
  have alters : Alters near storage after := within.puts.alters prepares.alters prepares.above
  refine ⟨frames_of_alters alters within.tree (anew.directory_later within.only) prepares.above,
    alters, ?_⟩
  rw [write, clear_of_leads prepares.removable leads, within.puts.removeAt_eq, anew.removed]
  dsimp only
  rw [makeDirectories, anew.again]
  exact writes

end WebBundle.Output
