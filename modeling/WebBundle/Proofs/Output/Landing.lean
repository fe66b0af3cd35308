import WebBundle.Proofs.Output.Writing
import WebBundle.Proofs.Storage.Tree

/-!
# Where the files of an output end

If an output could be written, every file of it lies where its path leads, unless a later one was
written to the same place. Everything else is as it was, but for what was in an output directory
that was emptied, and for directories that were missing.
-/

namespace WebBundle.Output

open Storage

variable {storage after : Storage} {directory : String} {file : File} {files : List File}
  {place : Place}

/-- The path leads to what is at the place. -/
def leadsTo (storage : Storage) (place : Place) (path : String) : Bool :=
  match storage.locate true path with
  | .ok (.taken other _) => other = place
  | _ => false

/-- The last file whose path leads to the place. -/
def lastAt? (after : Storage) (directory : String) (files : List File) (place : Place) :
    Option File :=
  (files.filter fun file => leadsTo after place (Path.join directory file.path)).getLast?

theorem lastAt?_cons (file : File) (files : List File) :
    lastAt? after directory (file :: files) place =
      (lastAt? after directory files place).or
        (if leadsTo after place (Path.join directory file.path) then some file else none) := by
  rw [lastAt?, List.filter_cons]
  split
  next leads =>
    rw [List.getLast?_cons, lastAt?]
    cases (files.filter fun file =>
        leadsTo after place (Path.join directory file.path)).getLast? with
    | none => rfl
    | some last => rfl
  next => rw [lastAt?, Option.or_none]

/-! ## Writing the files -/

theorem exists_made_of_writeFile
    (written : writeFile storage directory file = (after, .ok ())) :
    ∃ made location, makeParent storage (Path.join directory file.path) = (made, .ok ()) ∧
      Opens made (Path.join directory file.path) location ∧
        after = made.put location.place (.file file.bytes) := by
  unfold writeFile at written
  dsimp only at written
  split at written
  next => cases written
  next made makes =>
    split at written
    next next writes =>
      obtain ⟨rfl, _⟩ := Prod.mk.inj written
      obtain ⟨location, opens, put⟩ := exists_opens_of_write writes
      exact ⟨made, location, makes, opens, put⟩
    next => cases written

theorem exists_opens_of_writeFile
    (written : writeFile storage directory file = (after, .ok ())) :
    ∃ made location, WritesOnly [] storage made ∧
      Opens made (Path.join directory file.path) location ∧
        after = made.put location.place (.file file.bytes) := by
  obtain ⟨made, location, makes, opens, put⟩ := exists_made_of_writeFile written
  have above : WritesOnly [] storage (makeParent storage (Path.join directory file.path)).1 :=
    writesOnly_makeParent _
  rw [makes] at above
  exact ⟨made, location, above, opens, put⟩

theorem exists_of_writeFiles_cons
    (written : writeFiles storage directory (file :: files) = (after, .ok ())) :
    ∃ next, writeFile storage directory file = (next, .ok ()) ∧
      writeFiles next directory files = (after, .ok ()) := by
  cases first : writeFile storage directory file with
  | mk next result =>
      rw [writeFiles, first] at written
      obtain ⟨same, succeeds⟩ := Prod.mk.inj written
      cases result with
      | error error => cases succeeds
      | ok _ => exact ⟨next, rfl, Prod.ext same succeeds⟩

/-- A file that was put where its path leads is there in the end, or a later one is. -/
theorem leadsTo_iff {made : Storage} {location : Location}
    (opens : Opens made (Path.join directory file.path) location)
    (rest : writeFiles (made.put location.place (.file file.bytes)) directory files =
      (after, .ok ())) :
    leadsTo after place (Path.join directory file.path) = true ↔ location.place = place := by
  have there : (made.put location.place (.file file.bytes)).itemAt? location.place =
      some (.file file.bytes) := by
    rw [itemAt?_put opens.place_ne_nil, if_pos rfl]
  have later : WritesOnly (contentsOf (file :: files))
      (made.put location.place (.file file.bytes)) after := by
    have only : WritesOnly (contentsOf (file :: files))
        (made.put location.place (.file file.bytes))
        (writeFiles (made.put location.place (.file file.bytes)) directory files).1 :=
      writesOnly_writeFiles fun other listed => List.mem_map_of_mem (List.mem_cons_of_mem _ listed)
    rwa [rest] at only
  obtain ⟨bytes, there'⟩ := (there ▸ later.items location.place).exists_file
  have leads := opens.locate_file ((opens.writesOnly_put List.mem_cons_self).trans later) there'
  rw [leadsTo, leads]
  exact decide_eq_true_iff

/-- Every place has the last file whose path leads to it. All other places are as they were, but
for directories that were missing. -/
theorem itemAt?_of_writeFiles (written : writeFiles storage directory files = (after, .ok ()))
    (place : Place) :
    match lastAt? after directory files place with
    | some file => after.itemAt? place = some (.file file.bytes)
    | none => Overwritten [] (storage.itemAt? place) (after.itemAt? place) := by
  induction files generalizing storage with
  | nil =>
      obtain ⟨rfl, _⟩ := Prod.mk.inj written
      exact .kept _
  | cons file files ih =>
      obtain ⟨next, first, rest⟩ := exists_of_writeFiles_cons written
      obtain ⟨made, location, dirs, opens, rfl⟩ := exists_opens_of_writeFile first
      have later := ih rest
      rw [lastAt?_cons]
      cases last : lastAt? after directory files place with
      | some other =>
          rw [last] at later
          exact later
      | none =>
          rw [last] at later
          rw [Option.none_or]
          by_cases same : location.place = place
          · rw [if_pos ((leadsTo_iff opens rest).2 same)]
            rw [itemAt?_put opens.place_ne_nil, if_pos same.symm] at later
            exact later.file
          · rw [if_neg fun leads => same ((leadsTo_iff opens rest).1 leads)]
            rw [itemAt?_put opens.place_ne_nil, if_neg (Ne.symm same)] at later
            exact (dirs.items place).trans later

/-- The path of a file that was written leads to a place. -/
theorem exists_leadsTo (written : writeFiles storage directory files = (after, .ok ()))
    (listed : file ∈ files) :
    ∃ place, leadsTo after place (Path.join directory file.path) = true := by
  induction files generalizing storage with
  | nil => cases listed
  | cons first files ih =>
      obtain ⟨next, one, rest⟩ := exists_of_writeFiles_cons written
      cases List.mem_cons.1 listed with
      | inl same =>
          subst same
          obtain ⟨made, location, _, opens, rfl⟩ := exists_opens_of_writeFile one
          exact ⟨location.place, (leadsTo_iff opens rest).2 rfl⟩
      | inr later => exact ih rest later

/-- At the place of a file there is the last file that was written there. -/
theorem exists_lastAt (written : writeFiles storage directory files = (after, .ok ()))
    (listed : file ∈ files) :
    ∃ place last, lastAt? after directory files place = some last ∧
      after.locate true (Path.join directory file.path) =
        .ok (.taken place (.file last.bytes)) := by
  obtain ⟨place, leads⟩ := exists_leadsTo written listed
  obtain ⟨last, isLast⟩ : ∃ last, lastAt? after directory files place = some last := by
    refine Option.ne_none_iff_exists'.1 (List.getLast?_eq_none_iff.not.2 ?_)
    exact List.ne_nil_of_mem (List.mem_filter.2 ⟨listed, leads⟩)
  refine ⟨place, last, isLast, ?_⟩
  have final := itemAt?_of_writeFiles written place
  rw [isLast] at final
  unfold leadsTo at leads
  split at leads
  next other item ends =>
    obtain rfl := of_decide_eq_true leads
    have there : after.itemAt? other = some item := stands_of_locate ends
    rw [ends, Option.some.inj (there.symm.trans final)]
  next => cases leads

/-- A path that leads to a place for a file does so after another file was written. -/
theorem exists_lands_put {path other : String} {location location' : Location}
    (lands : Lands storage path location) (lands' : Lands storage other location')
    (bytes : ByteArray) :
    ∃ later, Lands (storage.put location.place (.file bytes)) other later := by
  have only : WritesOnly [bytes] storage (storage.put location.place (.file bytes)) :=
    lands.writesOnly_put List.mem_cons_self
  by_cases same : location'.place = location.place
  · have there : (storage.put location.place (.file bytes)).itemAt? location'.place =
        some (.file bytes) := by
      rw [same, itemAt?_put lands.place_ne_nil, if_pos rfl]
    refine ⟨.taken location'.place (.file bytes), ?_⟩
    exact {
      leads := lands'.locate_file only there
      noSlash := nofun
      isFile := fun item held => ⟨bytes, (Option.some.inj held).symm⟩
      bare := lands'.bare
      above := fun parent isParent => only.isDirectory (lands'.above parent isParent) }
  · refine ⟨location', lands'.later only ?_⟩
    rw [itemAt?_put lands.place_ne_nil, if_neg same]

/-- Files whose paths lead to places for them can all be written. -/
theorem exists_of_lands
    (land : ∀ file ∈ files, ∃ location, Lands storage (Path.join directory file.path) location) :
    ∃ after, writeFiles storage directory files = (after, .ok ()) := by
  induction files generalizing storage with
  | nil => exact ⟨storage, rfl⟩
  | cons file files ih =>
      obtain ⟨location, lands⟩ := land file List.mem_cons_self
      have rest : ∀ other ∈ files, ∃ later,
          Lands (storage.put location.place (.file file.bytes))
            (Path.join directory other.path) later := by
        intro other listed
        obtain ⟨location', lands'⟩ := land other (List.mem_cons_of_mem file listed)
        exact exists_lands_put lands lands' file.bytes
      obtain ⟨after, written⟩ := ih rest
      refine ⟨after, ?_⟩
      rw [writeFiles, writeFile_of_lands lands]
      simp only [written, firstFailure]

/-! ## Emptying the directory -/

/-- Nothing keeps the last step of the path from being removed. -/
def IsRemovable (path : String) : Prop :=
  ∀ storage place, removeEmptied storage path place = (storage.removeAt place, .ok ())

theorem isRemovable_of_removeEmptied {path : String}
    (removed : removeEmptied storage path place = (after, .ok ())) : IsRemovable path := by
  intro storage place
  unfold removeEmptied at removed ⊢
  split at removed
  next => cases (Prod.mk.inj removed).2
  next => cases (Prod.mk.inj removed).2
  next => rfl

/-- If the output directory could be removed, its place was. -/
theorem exists_eq_removeAt (there : storage.exists? directory = true)
    (removed : storage.removeDirectory directory = (after, .ok ())) :
    ∃ base item, storage.locate false directory = .ok (.taken base item) ∧
      after = storage.removeAt base ∧ (item = .directory → IsRemovable directory) := by
  obtain ⟨_, _, ends⟩ := locate_of_exists there
  obtain ⟨base, item, leads⟩ := exists_taken_of_locate ends
  refine ⟨base, item, leads, ?_⟩
  rw [removeDirectory, leads] at removed
  cases item with
  | file bytes => cases removed
  | link target => exact ⟨(Prod.mk.inj removed).1.symm, by simp⟩
  | directory =>
      have removable := isRemovable_of_removeEmptied removed
      dsimp only at removed
      rw [removable, removeAt_clearAt] at removed
      exact ⟨(Prod.mk.inj removed).1.symm, fun _ => removable⟩

variable {bytes : ByteArray} {clean : Bool}

theorem removeDirectory_of_clear (cleans : clean = true) (there : storage.exists? directory = true)
    (cleared : clear storage directory clean = (after, .ok ())) :
    storage.removeDirectory directory = (after, .ok ()) := by
  rw [clear, cleans, there] at cleared
  cases removed : storage.removeDirectory directory with
  | mk next result =>
      rw [removed] at cleared
      obtain ⟨rfl, succeeds⟩ := Prod.mk.inj cleared
      cases result with
      | error fault => cases succeeds
      | ok _ => rfl

theorem exists_made_of_write (written : write storage directory files clean = (after, .ok ())) :
    ∃ cleared made, clear storage directory clean = (cleared, .ok ()) ∧
      makeDirectories cleared directory = (made, .ok ()) ∧
        writeFiles made directory files = (after, .ok ()) := by
  unfold write at written
  split at written
  next => cases written
  next cleared isCleared =>
    split at written
    next => cases written
    next made makes => exact ⟨cleared, made, isCleared, makes, written⟩

end WebBundle.Output
