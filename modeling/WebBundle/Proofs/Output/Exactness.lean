import WebBundle.Proofs.Output.Rewriting
import WebBundle.Proofs.Output.Tasks
import WebBundle.Proofs.Storage.Steps

/-!
# What is written

If the output directory is spelt so that it can be emptied and made, and the paths of the files do
not get in the way of each other or of what is there, then writing an output succeeds in whatever
order the files are written. The directory holds the files, and besides them what it held before,
unless it was emptied. Outside of it nothing changes but that directories above it are made.
-/

namespace WebBundle.Output

open Storage

variable {storage left made after : Storage} {directory : String} {base place : Place}
  {files : List File} {clean : Bool}

/-- The storage in which the output directory was emptied on demand. -/
def emptied (storage : Storage) (base : Place) (clean : Bool) : Storage :=
  if clean then storage.removeAt base else storage

/-- An output can be written: its directory is there or can be made, and to be emptied it has to be
called by a name; the paths of the files are short names, none below another one; and what stays in
the directory agrees with them. -/
structure Writable (storage : Storage) (directory : String) (base : Place) (files : List File)
    (clean : Bool) : Prop where
  tree : storage.IsTree
  isOpen : storage.Open base
  spells : (emptied storage base clean).Spells directory base
  named : clean = true → Path.EndsInName directory
  short : ∀ file ∈ files, IsShort directory file
  apart : files.Pairwise Separate
  agrees : clean = false → ∀ file ∈ files, Agrees storage base file

/-- What an output comes to that was written: its files, and others that were there before. -/
structure Writes (storage : Storage) (base : Place) (files : List File) (clean : Bool)
    (outcome : Written) : Prop where
  succeeds : outcome.2 = .ok ()
  inside : outcome.1.itemAt? base = some .directory
  holds (names : List String) (bytes : ByteArray) :
    outcome.1.itemAt? (base ++ names) = some (.file bytes) ↔
      (∃ file ∈ files, stepsOf file.path = names ∧ file.bytes = bytes) ∨
      (clean = false ∧ (∀ file ∈ files, stepsOf file.path ≠ names) ∧
        storage.itemAt? (base ++ names) = some (.file bytes))
  directories (names : List String) (below : names ≠ []) :
    outcome.1.itemAt? (base ++ names) = some .directory ↔
      (∃ file ∈ files, names <+: (stepsOf file.path).dropLast) ∨
      (clean = false ∧ storage.itemAt? (base ++ names) = some .directory)
  outside (place : Place) (outside : ¬base <+: place) :
    outcome.1.itemAt? place = storage.itemAt? place ∨
      (place <+: base ∧ storage.itemAt? place = none ∧ outcome.1.itemAt? place = some .directory)

/-- However the files of an output are written, they are written, and the outcome is the same. -/
structure WritesAlways (storage : Storage) (directory : String) (base : Place) (files : List File)
    (clean : Bool) : Prop where
  inTurn : InParallel storage directory files clean (write storage directory files clean)
  writes (outcome : Written) (inParallel : InParallel storage directory files clean outcome) :
    Writes storage base files clean outcome
  alike (outcome : Written) (inParallel : InParallel storage directory files clean outcome) :
    outcome.2 = (write storage directory files clean).2 ∧
      ∀ place, outcome.1.itemAt? place = (write storage directory files clean).1.itemAt? place

/-! ## The directory -/

theorem isRemovable_of_endsInName (named : Path.EndsInName directory) : IsRemovable directory := by
  obtain ⟨front, name, behind, shape, moves, notUp, empty⟩ := named
  have stays : behind.reverse.dropWhile List.isEmpty = [] := by
    rw [List.dropWhile_eq_nil_iff]
    intro segment listed
    rw [empty segment (List.mem_reverse.1 listed)]
    rfl
  have given : ¬name.isEmpty = true := by
    intro nothing
    rw [List.isEmpty_iff.1 nothing] at moves
    cases moves
  have last : (Path.segments directory).reverse.dropWhile List.isEmpty = name :: front.reverse := by
    rw [shape, List.reverse_append, List.reverse_cons, List.append_assoc, List.dropWhile_append,
      stays]
    simp [given]
  intro storage place
  unfold removeEmptied
  rw [last]
  split
  next dot =>
    rw [(List.cons.inj dot).1] at moves
    cases moves
  next up => exact absurd (List.cons.inj up).1 notUp
  next => rfl

theorem keepsDirectories_removeAt (storage : Storage) (base : Place) :
    KeepsDirectories (storage.removeAt base) storage :=
  ⟨fun _ => itemAt?_of_removeAt, rfl⟩

namespace Writable

variable (writable : Writable storage directory base files clean)

include writable

/-- The directory is emptied on demand. -/
theorem clears : clear storage directory clean = (emptied storage base clean, .ok ()) := by
  have spells := writable.spells
  cases clean with
  | false => rfl
  | true =>
      have tree := writable.tree
      have nonempty := (writable.named rfl).ne_empty
      have spells : storage.Spells directory base :=
        spells.later (keepsDirectories_removeAt storage base)
      rcases writable.isOpen base (List.prefix_refl base) with free | inside
      · have missing : storage.exists? directory = false := by
          rcases writable.isOpen base.dropLast (List.dropLast_prefix base) with none | above
          · rw [exists?, spells.locate_missing tree writable.isOpen none]
          · obtain ⟨name, slash, _, ends⟩ := @spells.locate_vacant _ _ _ true tree free above
            rw [exists?, ends]
        rw [clear_of_not_exists missing, emptied, if_pos rfl, tree.removeAt_of_free free]
      · have removable := isRemovable_of_endsInName (writable.named rfl)
        exact clear_of_leads removable fun follow => spells.locate_directory tree nonempty inside

theorem isTree_emptied : (emptied storage base clean).IsTree := by
  cases clean with
  | false => exact writable.tree
  | true => exact writable.tree.removeAt base

theorem isOpen_emptied : (emptied storage base clean).Open base := by
  cases clean with
  | false => exact writable.isOpen
  | true =>
      intro other above
      by_cases inside : base <+: other
      · by_cases root : other = []
        · rw [root]
          exact .inr rfl
        · exact .inl (itemAt?_removeAt inside root)
      · have same : (storage.removeAt base).itemAt? other = storage.itemAt? other :=
          itemAt?_removeAt_of_not inside
        rw [emptied, if_pos rfl, same]
        exact writable.isOpen other above

end Writable

/-- The directory is there, with what stays in it. Outside of it directories were made above it. -/
structure IsReady (storage : Storage) (base : Place) (clean : Bool) (made : Storage) : Prop where
  tree : made.IsTree
  inside : made.itemAt? base = some .directory
  below (names : List String) (below : names ≠ []) :
    made.itemAt? (base ++ names) = if clean then none else storage.itemAt? (base ++ names)
  outside (place : Place) (outside : ¬base <+: place) :
    made.itemAt? place = storage.itemAt? place ∨
      (place <+: base ∧ storage.itemAt? place = none ∧ made.itemAt? place = some .directory)

theorem itemAt?_emptied_below {names : List String} (below : names ≠ []) :
    (emptied storage base clean).itemAt? (base ++ names) =
      if clean then none else storage.itemAt? (base ++ names) := by
  cases clean with
  | false => rfl
  | true => exact itemAt?_removeAt (List.prefix_append _ _) (by simp [below])

theorem itemAt?_emptied_outside (outside : ¬base <+: place) :
    (emptied storage base clean).itemAt? place = storage.itemAt? place := by
  cases clean with
  | false => rfl
  | true => exact itemAt?_removeAt_of_not outside

theorem not_append_prefix {names : List String} (below : names ≠ []) : ¬base ++ names <+: base := by
  intro above
  have short := above.length_le
  rw [List.length_append] at short
  have positive := List.length_pos_iff.2 below
  omega

theorem Writable.exists_ready (writable : Writable storage directory base files clean) :
    ∃ made, makeDirectories (emptied storage base clean) directory = (made, .ok ()) ∧
      IsReady storage base clean made ∧ made.Spells directory base := by
  have tree := writable.isTree_emptied
  obtain ⟨made, makes, grows, inside⟩ :=
    makeDirectories_of_spells tree writable.isOpen_emptied writable.spells
  have keeps : KeepsDirectories (emptied storage base clean) made :=
    (@Grows.writesOnly _ _ _ _ [] grows).keepsDirectories
  refine ⟨made, ?_, ⟨grows.isTree tree, inside, fun names below => ?_, fun place outside => ?_⟩,
    writable.spells.later keeps⟩
  · rw [makeDirectories, makes]
    rfl
  · rw [← itemAt?_emptied_below below]
    exact (grows.itemAt?_cases _).resolve_right fun new => not_append_prefix below new.1
  · rw [← @itemAt?_emptied_outside storage base place clean outside]
    exact grows.itemAt?_cases place

/-! ## The files -/

theorem Writable.admits (writable : Writable storage directory base files clean)
    (ready : IsReady storage base clean made) (spells : made.Spells directory base) :
    Admits made directory base files where
  tree := ready.tree
  inside := ready.inside
  spells := spells
  short := writable.short
  apart := writable.apart
  agrees file listed := by
    have steps := stepsOf_ne_nil file.path
    constructor
    case above =>
      intro place above
      have within := @prefix_dropLast_placeOf base file
      rcases List.prefix_or_prefix_of_prefix above within with upwards | ⟨names, rfl⟩
      · exact .inr (ready.tree.directory_of_prefix upwards ready.inside)
      · by_cases here : names = []
        · rw [here, List.append_nil]
          exact .inr ready.inside
        · rw [ready.below names here]
          cases clean with
          | true => exact .inl rfl
          | false => exact (writable.agrees rfl file listed).above _ above
    case here =>
      rw [placeOf, ready.below _ steps]
      cases clean with
      | true => exact .inl rfl
      | false => exact (writable.agrees rfl file listed).here

section

variable (ready : IsReady storage base clean made) (settled : Settled made base files after)

include ready settled

theorem holds_of_settled (notFile : ∀ bytes, storage.itemAt? base ≠ some (.file bytes))
    (names : List String) (bytes : ByteArray) :
    after.itemAt? (base ++ names) = some (.file bytes) ↔
      (∃ file ∈ files, stepsOf file.path = names ∧ file.bytes = bytes) ∨
      (clean = false ∧ (∀ file ∈ files, stepsOf file.path ≠ names) ∧
        storage.itemAt? (base ++ names) = some (.file bytes)) := by
  by_cases given : ∃ file ∈ files, stepsOf file.path = names
  · obtain ⟨file, listed, rfl⟩ := given
    have held : after.itemAt? (base ++ stepsOf file.path) = some (.file file.bytes) :=
      settled.held file listed
    constructor
    · intro held'
      rw [held] at held'
      exact .inl ⟨file, listed, rfl, Item.file.inj (Option.some.inj held')⟩
    · rintro (⟨other, listed', same, rfl⟩ | ⟨_, apart, _⟩)
      · have held' := settled.held other listed'
        rwa [placeOf, same] at held'
      · exact absurd rfl (apart file listed)
  · have apart : ∀ file ∈ files, stepsOf file.path ≠ names :=
      fun file listed same => given ⟨file, listed, same⟩
    have none : ¬∃ file ∈ files, stepsOf file.path = names ∧ file.bytes = bytes := by
      rintro ⟨file, listed, same, _⟩
      exact apart file listed same
    rw [or_iff_right none, and_iff_right apart]
    by_cases root : names = []
    · have inside := settled.keeps.directory base ready.inside
      rw [root, List.append_nil, inside]
      exact iff_of_false (by simp) fun held => notFile bytes held.2
    · have kept := ready.below names root
      cases settled.turned (base ++ names) with
      | same kept' =>
          rw [kept', kept]
          cases clean with
          | true => simp
          | false => simp
      | made _ _ free inside =>
          rw [inside]
          refine iff_of_false (by simp) fun held => ?_
          rw [held.1, free] at kept
          rw [held.2] at kept
          cases kept
      | put listed here _ =>
          exact absurd (List.append_cancel_left here) (apart _ listed)

theorem directories_of_settled {names : List String} (below : names ≠ []) :
    after.itemAt? (base ++ names) = some .directory ↔
      (∃ file ∈ files, names <+: (stepsOf file.path).dropLast) ∨
      (clean = false ∧ storage.itemAt? (base ++ names) = some .directory) := by
  have above (file : File) : base ++ names <+: (placeOf base file).dropLast ↔
      names <+: (stepsOf file.path).dropLast := by
    rw [placeOf, List.dropLast_append_of_ne_nil (stepsOf_ne_nil file.path),
      List.prefix_append_right_inj]
  have kept := ready.below names below
  constructor
  · intro inside
    cases settled.turned (base ++ names) with
    | same kept' =>
        rw [kept', kept] at inside
        cases clean with
        | true => cases inside
        | false => exact .inr ⟨rfl, inside⟩
    | made listed upwards _ _ => exact .inl ⟨_, listed, (above _).1 upwards⟩
    | put _ _ held =>
        rw [held] at inside
        cases inside
  · rintro (⟨file, listed, upwards⟩ | ⟨rfl, inside⟩)
    · exact settled.directory_above listed ((above file).2 upwards)
    · exact settled.keeps.directory _ (kept.trans inside)

theorem outside_of_settled (outside : ¬base <+: place) :
    after.itemAt? place = storage.itemAt? place ∨
      (place <+: base ∧ storage.itemAt? place = none ∧ after.itemAt? place = some .directory) := by
  cases settled.turned place with
  | same kept =>
      rw [kept]
      exact ready.outside place outside
  | @made file _ above free _ =>
      have upwards := (List.prefix_or_prefix_of_prefix above
        (@prefix_dropLast_placeOf base file)).resolve_right outside
      rw [ready.tree.directory_of_prefix upwards ready.inside] at free
      cases free
  | put _ here _ =>
      subst here
      exact absurd (List.prefix_append _ _) outside

end

theorem Writable.settled (writable : Writable storage directory base files clean)
    {outcome : Written} (inParallel : InParallel storage directory files clean outcome)
    (makes : makeDirectories (emptied storage base clean) directory = (made, .ok ()))
    (ready : IsReady storage base clean made) (spells : made.Spells directory base) :
    Settled made base files outcome.1 ∧ outcome.2 = .ok () := by
  cases inParallel with
  | unclear fails =>
      rw [writable.clears] at fails
      cases (Prod.mk.inj fails).2
  | unmade clears fails =>
      rw [writable.clears] at clears
      obtain ⟨rfl, _⟩ := Prod.mk.inj clears
      rw [makes] at fails
      cases (Prod.mk.inj fails).2
  | written clears makes' runs ended =>
      rw [writable.clears] at clears
      obtain ⟨rfl, _⟩ := Prod.mk.inj clears
      rw [makes] at makes'
      obtain ⟨rfl, _⟩ := Prod.mk.inj makes'
      exact settled_of_run (writable.admits ready spells) runs ended

/-- In whatever order the files are written, the directory holds them and what stays there. -/
theorem writesAlways_of_writable (writable : Writable storage directory base files clean) :
    WritesAlways storage directory base files clean := by
  obtain ⟨made, makes, ready, spells⟩ := writable.exists_ready
  have settles (outcome : Written) (inParallel : InParallel storage directory files clean outcome) :
      Settled made base files outcome.1 ∧ outcome.2 = .ok () :=
    writable.settled inParallel makes ready spells
  have inTurn := inParallel_write storage directory files clean
  have notFile (bytes : ByteArray) : storage.itemAt? base ≠ some (.file bytes) := by
    rcases writable.isOpen base (List.prefix_refl base) with free | inside
    · rw [free]
      exact nofun
    · rw [inside]
      exact nofun
  refine ⟨inTurn, fun outcome inParallel => ?_, fun outcome inParallel => ?_⟩
  · obtain ⟨settled, succeeds⟩ := settles outcome inParallel
    constructor
    case succeeds => exact succeeds
    case inside => exact settled.keeps.directory base ready.inside
    case holds => exact holds_of_settled ready settled notFile
    case directories => exact fun names => directories_of_settled ready settled
    case outside => exact fun place => outside_of_settled ready settled
  · obtain ⟨settled, succeeds⟩ := settles outcome inParallel
    obtain ⟨settled', succeeds'⟩ := settles _ inTurn
    exact ⟨succeeds.trans succeeds'.symm, fun place => settled.itemAt?_eq settled' place⟩

/-! ### A site that is written once more -/

/-- A site with an old file in its output directory. -/
def oldSite : Storage where
  items := [(["app"], .directory), (["app", "web"], .directory),
    (["app", "web", "old.txt"], .file .empty)]
  workingDirectory := ["app"]

/-- A file and one in a directory of its own. -/
def siteFiles : List File :=
  [.ofBytes "main.js" .empty .chunk, .ofBytes "img/logo.svg" .empty .asset]

theorem isTree_oldSite : oldSite.IsTree := by
  intro entry listed
  simp only [oldSite, List.mem_cons, List.not_mem_nil, or_false] at listed
  rcases listed with rfl | rfl | rfl
  · rfl
  · rfl
  · rfl

theorem isOpen_oldSite : oldSite.Open ["app", "web"] := isTree_oldSite.open_of_directory rfl

theorem spells_oldSite (clean : Bool) :
    (emptied oldSite ["app", "web"] clean).Spells "/app/web" ["app", "web"] where
  begins := rfl
  aims := by
    cases clean with
    | true => rfl
    | false => rfl
  isPath := .inr ⟨by decide, by decide, by decide⟩
  ends := .inr ⟨[[], ['a', 'p', 'p']], ['w', 'e', 'b'], [], by decide⟩

theorem agrees_oldSite : ∀ file ∈ siteFiles, Agrees oldSite ["app", "web"] file := by
  intro file listed
  simp only [siteFiles, List.mem_cons, List.not_mem_nil, or_false] at listed
  rcases listed with rfl | rfl
  · exact ⟨isOpen_oldSite, .inl rfl⟩
  · refine ⟨fun place above => ?_, .inl rfl⟩
    rcases List.prefix_concat_iff.1 (show place <+: ["app", "web"] ++ ["img"] from above) with
      rfl | above
    · exact .inl rfl
    · exact isOpen_oldSite place above

theorem writable_oldSite (clean : Bool) :
    Writable oldSite "/app/web" ["app", "web"] siteFiles clean where
  tree := isTree_oldSite
  isOpen := isOpen_oldSite
  spells := spells_oldSite clean
  named _ := ⟨[[], ['a', 'p', 'p']], ['w', 'e', 'b'], [], by decide⟩
  short := by
    intro file listed
    simp only [siteFiles, List.mem_cons, List.not_mem_nil, or_false] at listed
    rcases listed with rfl | rfl
    · exact ⟨by decide, ⟨by decide, by decide, by decide⟩, by decide⟩
    · exact ⟨by decide, ⟨by decide, by decide, by decide⟩, by decide⟩
  apart := List.pairwise_pair.2 ⟨by decide, by decide⟩
  agrees _ := agrees_oldSite

/-- Whether its directory is emptied or not, the site is written. -/
theorem writesAlways_oldSite :
    (Writable oldSite "/app/web" ["app", "web"] siteFiles true ∧
      WritesAlways oldSite "/app/web" ["app", "web"] siteFiles true) ∧
    Writable oldSite "/app/web" ["app", "web"] siteFiles false ∧
      WritesAlways oldSite "/app/web" ["app", "web"] siteFiles false :=
  ⟨⟨writable_oldSite true, writesAlways_of_writable (writable_oldSite true)⟩,
    writable_oldSite false, writesAlways_of_writable (writable_oldSite false)⟩

/-! ### Outputs that are not written -/

/-- A file whose name is longer than a name may be. -/
def longFile : File := .ofBytes (String.ofList (List.replicate 256 'a')) .empty .asset

theorem segments_longFile : Path.segments longFile.path = [List.replicate 256 'a'] := by
  refine Path.segments_ofList fun slash => ?_
  exact absurd (List.eq_of_mem_replicate slash) (by decide)

theorem isNormal_longFile : Path.IsNormal longFile.path := by
  intro segment listed
  rw [segments_longFile] at listed
  rw [List.mem_singleton.1 listed]
  exact ⟨by decide, by decide⟩

theorem fails_longFile :
    ∃ error, (write oldSite "/app/web" [longFile] true).2 = .error error := by
  have relative := Path.isAbsolute_of_isNormal isNormal_longFile
  have last : (stepsOf (Path.join "/app/web" longFile.path)).getLast? = some longFile.path := by
    rw [stepsOf, Path.segments_join relative, List.map_append, segments_longFile]
    exact List.getLast?_concat
  have isLong : nameBound < longFile.path.utf8ByteSize := by
    rw [longFile, File.ofBytes, String.utf8ByteSize_ofList]
    decide +kernel
  exact exists_error_of_fails (fun _ bytes => exists_fault_of_long last isLong bytes)
    List.mem_cons_self true

/-- No directory is removed by a path that ends with a dot. -/
theorem fails_dotted :
    (write oldSite "/app/web/." [] true).2 =
      .error (.inaccessible "/app/web/." .invalidArgument) := by
  have leads (follow : Bool) :
      oldSite.locate follow "/app/web/." = .ok (.taken ["app", "web"] .directory) := by
    rw [locate_eq_locateSteps]
    cases follow with
    | true => rfl
    | false => rfl
  have there : oldSite.exists? "/app/web/." = true := by rw [exists?, leads]
  have removed : oldSite.removeDirectory "/app/web/." =
      (oldSite.clearAt ["app", "web"], .error .invalidArgument) := by
    rw [removeDirectory, leads]
    rfl
  rw [write, clear, there, removed]
  rfl

/-- A path with a step up from a directory that is missing is not there to be emptied. -/
theorem keeps_stepped :
    (write oldSite "/app/x/../web" [] true).1.itemAt? ["app", "web", "old.txt"] =
      some (.file .empty) := by
  have missing : oldSite.exists? "/app/x/../web" = false := by
    rw [exists?, locate_eq_locateSteps]
    rfl
  have only := @writesOnly_write oldSite "/app/x/../web" [] true
  rw [clear_of_not_exists missing] at only
  exact (only.items ["app", "web", "old.txt"]).file

/-- An output is not written if the name of a file is too long, or if the directory is to be emptied
but its path ends with a dot or steps up from a directory that is missing. -/
theorem not_writes_oldSite :
    oldSite.IsTree ∧ (∀ entry ∈ oldSite.items, ∀ target, entry.2 ≠ .link target) ∧
      oldSite.Open ["app", "web"] ∧ Path.IsNormal longFile.path ∧
      ¬Writes oldSite ["app", "web"] [longFile] true (write oldSite "/app/web" [longFile] true) ∧
      ¬Writes oldSite ["app", "web"] [] true (write oldSite "/app/web/." [] true) ∧
      ¬Writes oldSite ["app", "web"] [] true (write oldSite "/app/x/../web" [] true) := by
  refine ⟨isTree_oldSite, ?_, isOpen_oldSite, isNormal_longFile, fun long => ?_, fun dotted => ?_,
    fun stepped => ?_⟩
  · intro entry listed target
    simp only [oldSite, List.mem_cons, List.not_mem_nil, or_false] at listed
    rcases listed with rfl | rfl | rfl
    · exact nofun
    · exact nofun
    · exact nofun
  · obtain ⟨error, fails⟩ := fails_longFile
    cases fails.symm.trans long.succeeds
  · cases fails_dotted.symm.trans dotted.succeeds
  · rcases (stepped.holds ["old.txt"] .empty).1 keeps_stepped with ⟨_, listed, _⟩ | ⟨kept, _⟩
    · cases listed
    · cases kept

end WebBundle.Output
