import WebBundle.Output.Writing
import WebBundle.Proofs.Storage.Writing

/-!
# What writing an output changes

After the output directory was emptied, only files with the contents of the output are written. So
what was lost when it was emptied does not come back, and a place that has changed stays so.
-/

namespace WebBundle.Output

open Storage

variable {storage before : Storage} {directory : String} {contents : List ByteArray}

/-! ## Writing the files -/

theorem writesOnly_makeDirectories (path : String) :
    WritesOnly contents storage (makeDirectories storage path).1 :=
  Storage.writesOnly_makeDirectories path

theorem writesOnly_makeParent (path : String) :
    WritesOnly contents storage (makeParent storage path).1 := by
  fun_cases makeParent storage path with
  | case1 => exact .refl contents storage
  | case2 parent => exact writesOnly_makeDirectories parent

theorem writesOnly_writeFile {file : File} (given : file.bytes ∈ contents) :
    WritesOnly contents storage (writeFile storage directory file).1 := by
  have above : WritesOnly contents storage
      (makeParent storage (Path.join directory file.path)).1 := writesOnly_makeParent _
  unfold writeFile
  dsimp only
  split
  next made =>
    rw [made] at above
    exact above
  next made =>
    rw [made] at above
    split
    next written => exact above.trans (Storage.writesOnly_write given written)
    next => exact above

theorem writeFiles_cons (file : File) (files : List File) :
    (writeFiles storage directory (file :: files)).1 =
      (writeFiles (writeFile storage directory file).1 directory files).1 := by
  rw [writeFiles]

theorem writesOnly_writeFiles {files : List File} (given : ∀ file ∈ files, file.bytes ∈ contents) :
    WritesOnly contents storage (writeFiles storage directory files).1 := by
  induction files generalizing storage with
  | nil => exact .refl contents storage
  | cons file files ih =>
      have first : WritesOnly contents storage (writeFile storage directory file).1 :=
        writesOnly_writeFile (given file List.mem_cons_self)
      rw [writeFiles_cons]
      exact first.trans (ih fun other listed => given other (List.mem_cons_of_mem file listed))

/-- The contents of an output. -/
def contentsOf (files : List File) : List ByteArray := files.map (·.bytes)

theorem writesOnly_write (files : List File) (clean : Bool) :
    WritesOnly (contentsOf files) (clear storage directory clean).1
      (write storage directory files clean).1 := by
  have made : WritesOnly (contentsOf files) (clear storage directory clean).1
      (makeDirectories (clear storage directory clean).1 directory).1 :=
    writesOnly_makeDirectories directory
  fun_cases write storage directory files clean with
  | case1 _ _ cleared =>
      rw [cleared]
      exact .refl _ _
  | case2 _ cleared _ _ failed =>
      rw [cleared, failed] at made
      rw [cleared]
      exact made
  | case3 _ cleared _ makes =>
      rw [cleared, makes] at made
      rw [cleared]
      exact made.trans (writesOnly_writeFiles fun file listed => List.mem_map_of_mem listed)

/-! ## Files that cannot be written -/

section

variable {file : File} (fails : ∀ (storage : Storage) (bytes : ByteArray),
  ∃ fault, storage.write (Path.join directory file.path) bytes = .error fault)
include fails

theorem exists_error_writeFile : ∃ error, (writeFile storage directory file).2 = .error error := by
  unfold writeFile
  dsimp only
  split
  next error _ => exact ⟨error, rfl⟩
  next made _ =>
    obtain ⟨fault, written⟩ := fails made file.bytes
    rw [written]
    exact ⟨_, rfl⟩

theorem exists_error_writeFiles {files : List File} (listed : file ∈ files) :
    ∃ error, (writeFiles storage directory files).2 = .error error := by
  induction files generalizing storage with
  | nil => cases listed
  | cons first files ih =>
      rw [writeFiles]
      cases List.mem_cons.1 listed with
      | inl same =>
          subst same
          obtain ⟨error, failed⟩ := @exists_error_writeFile storage directory file fails
          exact ⟨error, by simp only [failed, firstFailure]⟩
      | inr later =>
          obtain ⟨error, failed⟩ := @ih (writeFile storage directory first).1 later
          simp only [failed]
          cases (writeFile storage directory first).2 with
          | error earlier => exact ⟨earlier, rfl⟩
          | ok _ => exact ⟨error, rfl⟩

/-- A file that cannot be written to any storage makes writing an output fail. -/
theorem exists_error_of_fails {files : List File} (listed : file ∈ files) (clean : Bool) :
    ∃ error, (write storage directory files clean).2 = .error error := by
  fun_cases write storage directory files clean with
  | case1 _ error => exact ⟨error, rfl⟩
  | case2 _ _ _ error => exact ⟨error, rfl⟩
  | case3 => exact exists_error_writeFiles fails listed

end

/-- A file whose path has slashes at its end makes writing an output fail. -/
theorem exists_error_of_slash {file : File} {bare : String}
    (slashed : splitEndSlashes (Path.join directory file.path) = (bare, true)) {files : List File}
    (listed : file ∈ files) (clean : Bool) :
    ∃ error, (write storage directory files clean).2 = .error error :=
  exists_error_of_fails (fun _ bytes => exists_fault_of_slash slashed bytes) listed clean

/-! ## Places that change -/

section

variable {file : File} {location : Location}

/-- A file whose path leads to a place for it is put there. -/
theorem writeFile_of_lands (lands : Lands storage (Path.join directory file.path) location) :
    writeFile storage directory file =
      (storage.put location.place (.file file.bytes), .ok ()) := by
  have above : makeParent storage (Path.join directory file.path) = (storage, .ok ()) := by
    unfold makeParent
    split
    next => rfl
    next parent isParent =>
      rw [makeDirectories, makeDirectories_of_isDirectory (lands.above parent isParent)]
      rfl
  unfold writeFile
  dsimp only
  rw [above]
  dsimp only
  rw [lands.write]

/-- A file that can be written and is not there yet is written, unless its place has changed
before. -/
theorem ne_writeFile (only : WritesOnly contents before storage)
    (lands : Lands before (Path.join directory file.path) location)
    (given : file.bytes ∈ contents)
    (fresh : ∀ bytes ∈ contents, before.itemAt? location.place ≠ some (.file bytes)) :
    (writeFile storage directory file).1.itemAt? location.place ≠
      before.itemAt? location.place := by
  by_cases same : storage.itemAt? location.place = before.itemAt? location.place
  · rw [writeFile_of_lands (lands.later only same), itemAt?_put lands.place_ne_nil, if_pos rfl]
    exact (fresh _ given).symm
  · exact (only.items location.place).ne_of_ne ((writesOnly_writeFile given).items location.place)
      same fresh

theorem ne_writeFiles {files : List File} (only : WritesOnly contents before storage)
    (given : ∀ file ∈ files, file.bytes ∈ contents) (listed : file ∈ files)
    (lands : Lands before (Path.join directory file.path) location)
    (fresh : ∀ bytes ∈ contents, before.itemAt? location.place ≠ some (.file bytes)) :
    (writeFiles storage directory files).1.itemAt? location.place ≠
      before.itemAt? location.place := by
  induction files generalizing storage with
  | nil => cases listed
  | cons first files ih =>
      have isGiven := given first List.mem_cons_self
      have rest : ∀ file ∈ files, file.bytes ∈ contents :=
        fun other listed => given other (List.mem_cons_of_mem first listed)
      have next : WritesOnly contents before (writeFile storage directory first).1 :=
        only.trans (writesOnly_writeFile isGiven)
      rw [writeFiles_cons]
      cases List.mem_cons.1 listed with
      | inl same =>
          subst same
          exact (next.items location.place).ne_of_ne
            ((writesOnly_writeFiles rest).items location.place)
            (ne_writeFile only lands isGiven fresh) fresh
      | inr later => exact ih next rest later

end

/-! ## Emptying the directory -/

/-- What is in the directory is gone once it was emptied, even if it could not be removed itself. -/
theorem itemAt?_clear {base place : Place} {item old : Item}
    (there : storage.exists? directory = true)
    (leads : storage.locate false directory = .ok (.taken base item))
    (notFile : ∀ bytes, item ≠ .file bytes) (inside : base <+: place)
    (held : storage.itemAt? place = some old) (notDirectory : old ≠ .directory) :
    (clear storage directory true).1.itemAt? place = none := by
  have below : place ≠ [] := ne_nil_of_itemAt?_ne held notDirectory
  have removed : (storage.removeDirectory directory).1.itemAt? place = none := by
    cases item with
    | file bytes => exact absurd rfl (notFile bytes)
    | link target =>
        rw [removeDirectory, leads]
        exact itemAt?_removeAt inside below
    | directory =>
        have differs : place ≠ base := by
          rintro rfl
          have same : some old = some Item.directory := held.symm.trans (stands_of_locate leads)
          exact notDirectory (Option.some.inj same)
        rw [removeDirectory, leads]
        change (removeEmptied (storage.clearAt base) directory base).1.itemAt? place = none
        unfold removeEmptied
        split
        next => exact itemAt?_clearAt inside differs
        next => exact itemAt?_clearAt inside differs
        next => exact itemAt?_removeAt inside below
  rw [clear, there]
  exact removed

/-- What is in the directory is not in it after the output was written, unless the output has it. -/
theorem itemAt?_write_ne {files : List File} {base place : Place} {item old : Item}
    (there : storage.exists? directory = true)
    (leads : storage.locate false directory = .ok (.taken base item))
    (notFile : ∀ bytes, item ≠ .file bytes) (inside : base <+: place)
    (held : storage.itemAt? place = some old) (notDirectory : old ≠ .directory)
    (lost : ∀ bytes ∈ contentsOf files, old ≠ .file bytes) :
    (write storage directory files true).1.itemAt? place ≠ some old := by
  have change := (@writesOnly_write storage directory files true).items place
  rw [itemAt?_clear there leads notFile inside held notDirectory] at change
  exact change.ne_of_free notDirectory lost

theorem clear_of_not_exists {clean : Bool} (missing : storage.exists? directory = false) :
    clear storage directory clean = (storage, .ok ()) := by
  simp [clear, missing]

/-! ## Outputs that change a storage -/

/-- There is a file in the place of the output directory. -/
def Blocked (storage : Storage) (directory : String) : Prop :=
  ∃ place bytes, storage.locate false directory = .ok (.taken place (.file bytes))

/-- What cannot be undone while an output is written: a link or a file in the directory is removed
and the output has no file with its bytes, the directory is made, or a file of the output gets a
place where no such file was. -/
inductive Disturbs (storage : Storage) (directory : String) (files : List File) (clean : Bool) :
    Prop where
  | clears {base place : Place} {item old : Item} (cleans : clean = true)
      (there : storage.exists? directory = true)
      (leads : storage.locate false directory = .ok (.taken base item))
      (notFile : ∀ bytes, item ≠ .file bytes) (inside : base <+: place)
      (held : storage.itemAt? place = some old) (notDirectory : old ≠ .directory)
      (lost : ∀ bytes ∈ contentsOf files, old ≠ .file bytes)
  | makes {parent : Place} {name : String} {slash : Bool}
      (leads : storage.locate false directory = .ok (.vacant parent name slash))
  | writes {file : File} {location : Location} (keeps : clean = false)
      (there : storage.isDirectory directory = true) (listed : file ∈ files)
      (lands : Lands storage (Path.join directory file.path) location)
      (fresh : ∀ bytes ∈ contentsOf files, storage.itemAt? location.place ≠ some (.file bytes))

theorem write_of_blocked (blocked : Blocked storage directory) (files : List File) (clean : Bool) :
    (write storage directory files clean).1 = storage := by
  obtain ⟨place, bytes, leads⟩ := blocked
  have cleared : (clear storage directory clean).1 = storage := by
    unfold clear removeDirectory
    rw [leads]
    split
    next => rfl
    next => rfl
  have failed : ∃ error, makeDirectories storage directory = (storage, .error error) := by
    rw [makeDirectories, makeDirectories_of_file leads]
    exact ⟨_, rfl⟩
  obtain ⟨error, failed⟩ := failed
  unfold write
  split
  next error cleared' => rwa [cleared'] at cleared
  next storage' cleared' =>
    rw [cleared'] at cleared
    change storage' = storage at cleared
    rw [cleared, failed]

theorem exists_ne_of_disturbs {files : List File} {clean : Bool}
    (disturbs : Disturbs storage directory files clean) :
    ∃ place, (write storage directory files clean).1.itemAt? place ≠ storage.itemAt? place := by
  have given : ∀ file ∈ files, file.bytes ∈ contentsOf files :=
    fun file listed => List.mem_map_of_mem listed
  cases disturbs with
  | @clears base place item old cleans there leads notFile inside held notDirectory lost =>
      subst cleans
      refine ⟨place, ?_⟩
      rw [held]
      exact itemAt?_write_ne there leads notFile inside held notDirectory lost
  | @makes parent name slash leads =>
      have free : storage.itemAt? (parent ++ [name]) = none := stands_of_locate leads
      have missing : storage.exists? directory = false := by
        rw [exists?, locate_follow leads nofun]
      have made : makeDirectories storage directory =
          (storage.put (parent ++ [name]) .directory, .ok ()) := by
        rw [makeDirectories, makeDirectories_of_vacant leads]
        rfl
      refine ⟨parent ++ [name], ?_⟩
      rw [write, clear_of_not_exists missing]
      simp only [made]
      have there : (storage.put (parent ++ [name]) .directory).itemAt? (parent ++ [name]) =
          some .directory := by
        rw [itemAt?_put (ne_nil_of_itemAt?_eq_none free), if_pos rfl]
      rw [(writesOnly_writeFiles given).directory there, free]
      exact Option.some_ne_none _
  | @writes file location keeps there listed lands fresh =>
      subst keeps
      have made : makeDirectories storage directory = (storage, .ok ()) := by
        rw [makeDirectories, makeDirectories_of_isDirectory there]
        rfl
      refine ⟨location.place, ?_⟩
      have cleared : clear storage directory false = (storage, .ok ()) := rfl
      rw [write, cleared]
      simp only [made]
      exact ne_writeFiles (.refl _ _) given listed lands fresh

end WebBundle.Output
