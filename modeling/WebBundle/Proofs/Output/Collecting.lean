import Mathlib.Tactic.FinCases
import WebBundle.Output.File
import WebBundle.Proofs.Keyed
import WebBundle.Proofs.Output.Copying
import WebBundle.Proofs.Storage.Entries
import WebBundle.Proofs.Storage.Steps

/-!
# Which assets are collected

Among files with one path the last one stays. The files that stay keep their order, every other file
is replaced by the next one with its path, and the report tells of each replacement once. Nothing is
left to replace among the files that stay.

A mapping copies the file that it names, or the files below the directory that it names, in the
order of their names. The assets of all mappings together are read in this order. Of those with one
path the last one stays, and the report has one warning for each of the others.
-/

namespace WebBundle.Output

/-! ## Files with one path -/

open Keyed

/-- The diagnostic tells that one file is replaced by another one. -/
structure Tells (old new : File) (diagnostic : Diagnostic) : Prop where
  severity : diagnostic.severity = .warning
  code : diagnostic.code.text = "W102".toList
  message : diagnostic.message = old.kind.title ++ " output replaced by " ++ new.kind.title ++
    " output at the same path"
  location : diagnostic.location = some new.path

/-- The files that stay of some files, and the report on those that do not. -/
structure Resolves (files kept : List File) (report : List Diagnostic) : Prop where
  stays : ∃ places : List Nat, places.Pairwise (· < ·) ∧
    (∀ place, place ∈ places ↔ IsLast (files.map File.path) place) ∧ Stand files places kept
  distinct : (kept.map File.path).Nodup
  paths (path : String) : path ∈ kept.map File.path ↔ path ∈ files.map File.path
  replaced : ∃ places : List (Nat × Nat),
    places.Pairwise (fun first second => first.2 < second.2) ∧
    (∀ old new, (old, new) ∈ places ↔ Replaces (files.map File.path) old new) ∧
    (places.map Prod.fst).Nodup ∧
    (∀ place, place ∈ places.map Prod.fst ↔
      place < files.length ∧ ¬IsLast (files.map File.path) place) ∧
    List.Forall₂ (fun pair diagnostic => ∃ old new, files[pair.1]? = some old ∧
      files[pair.2]? = some new ∧ Tells old new diagnostic) places report
  count : report.length + (files.map File.path).dedup.length = files.length
  again : resolveCollisions kept = (kept, [])

theorem text_duplicate : Code.duplicate.text = "W102".toList := by decide

theorem tells_replacedDiagnostic (old new : File) : Tells old new (replacedDiagnostic old new) :=
  ⟨rfl, text_duplicate, rfl, rfl⟩

theorem resolveCollisions_of_nodup {files : List File} (distinct : (files.map File.path).Nodup) :
    resolveCollisions files = (files, []) := by
  rw [resolveCollisions, lasts_eq_self distinct, replacements_eq_nil File.path distinct]
  rfl

/-- Collisions keep the last file of every path, and report each file that another one replaces. -/
theorem resolves_resolveCollisions (files : List File) :
    Resolves files (resolveCollisions files).1 (resolveCollisions files).2 := by
  obtain ⟨stays, rising, isLast, stand⟩ := exists_places_lasts File.path files
  obtain ⟨places, rising', isPair, paired⟩ := exists_places_replacements File.path files
  have whole := perm_range rising isLast rising' isPair
  have nodup := List.nodup_append.1 (whole.nodup_iff.2 List.nodup_range)
  refine ⟨⟨stays, rising, isLast, stand⟩, nodup_lasts files, fun path => mem_map_lasts File.path,
    ⟨places, rising', isPair, nodup.1, fun place => ?_, ?_⟩, ?_, ?_⟩
  · have listed := whole.mem_iff (a := place)
    rw [List.mem_append, List.mem_range, List.length_map, isLast] at listed
    constructor
    · intro replaced
      refine ⟨listed.1 (.inl replaced), fun stay => ?_⟩
      exact nodup.2.2 place replaced place ((isLast place).2 stay) rfl
    · exact fun ⟨inside, again⟩ => (listed.2 inside).resolve_right again
  · refine List.forall₂_map_right_iff.2 (paired.imp ?_)
    exact fun _ both found => ⟨both.1, both.2, found.1, found.2, tells_replacedDiagnostic _ _⟩
  · rw [← length_lasts, ← length_replacements File.path files, resolveCollisions, List.length_map]
  · exact resolveCollisions_of_nodup (nodup_lasts files)

end WebBundle.Output

namespace WebBundle.Output

/-! ## Copies -/

open Keyed Storage

variable {storage : Storage} {mapping : AssetMapping} {mappings : List AssetMapping}
  {place : Place} {ignore : List Pattern.Glob}

/-- A file that is copied: its names below the directory of its mapping, the path from which and the
path to which it is copied, and its bytes. -/
structure Copy where
  names : List String
  source : String
  path : String
  bytes : ByteArray

def Copy.asset (copy : Copy) : Asset :=
  ⟨copy.path, copy.source, copy.bytes, ContentDigest.ofBytes copy.bytes⟩

/-- The path below the directory of a mapping. -/
def relativePath (names : List String) : String := Path.normalize ("/".intercalate names)

/-- What a mapping copies: the file that it names, or a file below the directory that it names, if
no glob accepts its path there. -/
inductive IsCopied (storage : Storage) (mapping : AssetMapping) : Copy → Prop where
  | file {place : Place} {bytes : ByteArray}
      (leads : storage.locate true mapping.source = .ok (.taken place (.file bytes))) :
      IsCopied storage mapping
        ⟨[], mapping.source,
          destination mapping.target (String.ofList ((Path.fileName? mapping.source).getD [])),
          bytes⟩
  | below {place : Place} {names : List String} {bytes : ByteArray} {ignore : List Pattern.Glob}
      (leads : storage.locate true mapping.source = .ok (.taken place .directory))
      (globs : readGlobs mapping.ignore = .ok ignore)
      (held : storage.itemAt? (place ++ names) = some (.file bytes))
      (keeps : ∀ glob ∈ ignore, glob.accepts (relativePath names) = false) :
      IsCopied storage mapping
        ⟨names, names.foldl Path.join mapping.source,
          destination mapping.target (relativePath names), bytes⟩

/-- What a mapping copies, in the dictionary order of the names. -/
structure IsWalk (storage : Storage) (mapping : AssetMapping) (copies : List Copy) : Prop where
  ordered : copies.Pairwise fun first second => List.Lex (· < ·) first.names second.names
  members (copy : Copy) : copy ∈ copies ↔ IsCopied storage mapping copy

/-- The assets of some mappings and the report on those that are replaced. -/
structure Collects (storage : Storage) (mappings : List AssetMapping) (assets : List Asset)
    (report : List Diagnostic) : Prop where
  ascends : assets.Pairwise fun first second => first.path < second.path
  paths (path : String) : path ∈ assets.map Asset.path ↔
    ∃ mapping ∈ mappings, ∃ copy, IsCopied storage mapping copy ∧ copy.path = path
  lasts : ∃ walks : List (List Copy), List.Forall₂ (IsWalk storage) mappings walks ∧
    (∀ asset ∈ assets, ∃ before copy after, walks.flatten = before ++ copy :: after ∧
      asset = copy.asset ∧ ∀ later ∈ after, later.path ≠ copy.path) ∧
    report.length + assets.length = walks.flatten.length
  warns : ∀ diagnostic ∈ report,
    diagnostic.severity = .warning ∧ diagnostic.code.text = "W102".toList

/-! ## Files below a directory -/

theorem eq_of_namesBelow? {other : Place} {item : Item} {names : List String}
    (isNames : namesBelow? place (other, item) = some names) :
    other = place ++ names ∧ ∃ bytes, item = .file bytes := by
  cases item with
  | directory => cases isNames
  | link target => cases isNames
  | file bytes =>
      rw [namesBelow?] at isNames
      split at isNames
      next above =>
        obtain ⟨rest, rfl⟩ := List.isPrefixOf_iff_prefix.1 above
        obtain rfl : rest = names := by simpa using isNames
        exact ⟨rfl, bytes, rfl⟩
      next => cases isNames

theorem mem_filesBelow_iff (system : storage.IsFileSystem) {names : List String}
    (inside : storage.itemAt? place = some .directory) :
    names ∈ filesBelow storage place ↔
      ∃ bytes, storage.itemAt? (place ++ names) = some (.file bytes) := by
  constructor
  · intro listed
    rw [filesBelow_eq, List.mem_mergeSort, List.mem_filterMap] at listed
    obtain ⟨⟨other, item⟩, member, isNames⟩ := listed
    obtain ⟨rfl, bytes, rfl⟩ := eq_of_namesBelow? isNames
    exact ⟨bytes, system.itemAt?_of_mem member⟩
  · rintro ⟨bytes, held⟩
    refine mem_filesBelow ?_ held
    rintro rfl
    rw [List.append_nil, inside] at held
    cases held

theorem nodup_filesBelow (system : storage.IsFileSystem) (place : Place) :
    (filesBelow storage place).Nodup := by
  rw [filesBelow_eq, (List.mergeSort_perm _ _).nodup_iff, List.Nodup, List.pairwise_filterMap]
  refine (List.pairwise_map.1 system.distinct).imp ?_
  rintro ⟨first, item⟩ ⟨second, item'⟩ apart names isFirst _ isSecond rfl
  exact apart ((eq_of_namesBelow? isFirst).1.trans (eq_of_namesBelow? isSecond).1.symm)

theorem lex_of_namesLe {first second : List String} (before : namesLe first second = true)
    (apart : first ≠ second) : List.Lex (· < ·) first second := by
  induction first generalizing second with
  | nil =>
      cases second with
      | nil => exact absurd rfl apart
      | cons b bs => exact .nil
  | cons a as ih =>
      cases second with
      | nil => cases before
      | cons b bs =>
          obtain ⟨le, rest⟩ := namesLe_cons.1 before
          by_cases same : a = b
          · subst same
            exact .cons (ih (rest rfl) fun same => apart (congrArg (a :: ·) same))
          · exact .rel (String.not_le.1 fun ge => same (String.le_antisymm le ge))

/-- Files below a directory are listed once, in the dictionary order of their names. -/
theorem pairwise_filesBelow (system : storage.IsFileSystem) (place : Place) :
    (filesBelow storage place).Pairwise fun first second => List.Lex (· < ·) first second := by
  have ordered : (filesBelow storage place).Pairwise fun first second =>
      namesLe first second = true := by
    rw [filesBelow_eq]
    exact pairwise_namesLe _
  exact (ordered.and (nodup_filesBelow system place)).imp fun ⟨le, apart⟩ => lex_of_namesLe le apart

/-! ## What one mapping copies -/

theorem planFile_eq_some_iff {names : List String} {planned : PlannedAsset} :
    planFile mapping ignore names = some planned ↔
      (∀ glob ∈ ignore, glob.accepts (relativePath names) = false) ∧
        planned = ⟨names.foldl Path.join mapping.source,
          destination mapping.target (relativePath names)⟩ := by
  unfold planFile
  dsimp only
  split
  next ignored =>
    obtain ⟨glob, listed, accepts⟩ := List.any_eq_true.1 ignored
    refine iff_of_false nofun fun kept => ?_
    have refuses := kept.1 glob listed
    rw [relativePath, accepts] at refuses
    cases refuses
  next kept =>
    rw [Bool.not_eq_true, List.any_eq_false] at kept
    have keeps : ∀ glob ∈ ignore, glob.accepts (relativePath names) = false :=
      fun glob listed => Bool.eq_false_iff.2 (kept glob listed)
    rw [Option.some.injEq, and_iff_right keeps]
    exact eq_comm

theorem readAssets_append {plan others : List PlannedAsset} {assets : List Asset}
    (areRead : readAssets storage (plan ++ others) = (assets, none)) :
    ∃ first second, readAssets storage plan = (first, none) ∧
      readAssets storage others = (second, none) ∧ assets = first ++ second := by
  induction plan generalizing assets with
  | nil => exact ⟨[], assets, rfl, areRead, rfl⟩
  | cons planned plan ih =>
      rw [List.cons_append, readAssets] at areRead
      cases isRead : readAsset storage planned with
      | error error => simp [isRead] at areRead
      | ok asset =>
          cases rest : readAssets storage (plan ++ others) with
          | mk later failure =>
              rw [isRead, rest] at areRead
              obtain ⟨rfl, rfl⟩ := Prod.mk.inj areRead
              obtain ⟨first, second, areFirst, areSecond, rfl⟩ := ih rest
              exact ⟨asset :: first, second, by simp only [readAssets, isRead, areFirst], areSecond,
                rfl⟩

/-- The copy of a file below the directory of a mapping, unless a glob accepts its path. -/
def copyAt? (storage : Storage) (mapping : AssetMapping) (ignore : List Pattern.Glob)
    (place : Place) (names : List String) : Option Copy :=
  match planFile mapping ignore names, storage.itemAt? (place ++ names) with
  | some planned, some (.file bytes) => some ⟨names, planned.source, planned.path, bytes⟩
  | _, _ => none

section

variable {names : List String} {bytes : ByteArray}
  (leads : storage.locate true mapping.source = .ok (.taken place .directory))

include leads

theorem copyAt?_eq_some_iff {copy : Copy} (globs : readGlobs mapping.ignore = .ok ignore) :
    copyAt? storage mapping ignore place names = some copy ↔
      copy.names = names ∧ IsCopied storage mapping copy := by
  constructor
  · intro isCopy
    unfold copyAt? at isCopy
    split at isCopy
    next planned bytes isPlanned held =>
      obtain rfl := Option.some.inj isCopy
      obtain ⟨keeps, rfl⟩ := planFile_eq_some_iff.1 isPlanned
      exact ⟨rfl, .below leads globs held keeps⟩
    next => cases isCopy
  · rintro ⟨rfl, isCopied⟩
    cases isCopied with
    | file leads' =>
        rw [leads] at leads'
        cases leads'
    | below leads' globs' held keeps =>
        rw [leads] at leads'
        cases leads'
        rw [globs] at globs'
        cases globs'
        rw [copyAt?, planFile_eq_some_iff.2 ⟨keeps, rfl⟩, held]

/-- A file of a directory is read as it lies there. -/
theorem asset_of_copyAt? (system : storage.IsFileSystem) (below : names ≠ [])
    (held : storage.itemAt? (place ++ names) = some (.file bytes)) {planned : PlannedAsset}
    {asset : Asset} (isPlanned : planFile mapping ignore names = some planned)
    (isRead : readAsset storage planned = .ok asset) :
    ∃ copy, copyAt? storage mapping ignore place names = some copy ∧ asset = copy.asset := by
  refine ⟨⟨names, planned.source, planned.path, bytes⟩, by rw [copyAt?, isPlanned, held], ?_⟩
  obtain ⟨_, rfl⟩ := planFile_eq_some_iff.1 isPlanned
  unfold readAsset at isRead
  split at isRead
  next => cases isRead
  next found given =>
    obtain rfl := system.read_below leads below held given
    exact (Except.ok.inj isRead).symm

theorem readAssets_below (system : storage.IsFileSystem) {files : List (List String)}
    (there : ∀ names ∈ files, ∃ bytes, storage.itemAt? (place ++ names) = some (.file bytes))
    {assets : List Asset}
    (areRead : readAssets storage (files.filterMap (planFile mapping ignore)) = (assets, none)) :
    assets = (files.filterMap (copyAt? storage mapping ignore place)).map Copy.asset := by
  induction files generalizing assets with
  | nil =>
      obtain ⟨rfl, _⟩ := Prod.mk.inj areRead
      rfl
  | cons names files ih =>
      obtain ⟨⟨bytes, held⟩, others⟩ := List.forall_mem_cons.1 there
      cases isPlanned : planFile mapping ignore names with
      | none =>
          have noCopy : copyAt? storage mapping ignore place names = none := by
            rw [copyAt?, isPlanned]
          rw [List.filterMap_cons_none isPlanned] at areRead
          rw [List.filterMap_cons_none noCopy]
          exact ih others areRead
      | some planned =>
          have below : names ≠ [] := by
            rintro rfl
            have inside : storage.itemAt? place = some .directory := stands_of_locate leads
            rw [List.append_nil, inside] at held
            cases held
          rw [List.filterMap_cons_some isPlanned, readAssets] at areRead
          cases isRead : readAsset storage planned with
          | error error => simp [isRead] at areRead
          | ok asset =>
              cases rest : readAssets storage (files.filterMap (planFile mapping ignore)) with
              | mk read failure =>
                  rw [isRead, rest] at areRead
                  obtain ⟨rfl, rfl⟩ := Prod.mk.inj areRead
                  obtain ⟨copy, isCopy, rfl⟩ :=
                    asset_of_copyAt? leads system below held isPlanned isRead
                  rw [List.filterMap_cons_some isCopy, List.map_cons, ih others rest]

theorem isWalk_filterMap_copyAt? (system : storage.IsFileSystem)
    (globs : readGlobs mapping.ignore = .ok ignore) :
    IsWalk storage mapping
      ((filesBelow storage place).filterMap (copyAt? storage mapping ignore place)) := by
  constructor
  case ordered =>
    refine List.pairwise_filterMap.2 ((pairwise_filesBelow system place).imp ?_)
    intro first second before copy isFirst copy' isSecond
    rw [((copyAt?_eq_some_iff leads globs).1 isFirst).1,
      ((copyAt?_eq_some_iff leads globs).1 isSecond).1]
    exact before
  case members =>
    intro copy
    rw [List.mem_filterMap]
    constructor
    · rintro ⟨names, _, isCopy⟩
      exact ((copyAt?_eq_some_iff leads globs).1 isCopy).2
    · intro isCopied
      refine ⟨copy.names, ?_, (copyAt?_eq_some_iff leads globs).2 ⟨rfl, isCopied⟩⟩
      have inside : storage.itemAt? place = some .directory := stands_of_locate leads
      rw [mem_filesBelow_iff system inside]
      cases isCopied with
      | file leads' =>
          rw [leads] at leads'
          cases leads'
      | below leads' _ held _ =>
          rw [leads] at leads'
          cases leads'
          exact ⟨_, held⟩

end

theorem exists_walk_of_planMapping (system : storage.IsFileSystem) {plan : List PlannedAsset}
    {assets : List Asset} (isPlan : planMapping storage mapping = .ok plan)
    (areRead : readAssets storage plan = (assets, none)) :
    ∃ copies, IsWalk storage mapping copies ∧ assets = copies.map Copy.asset := by
  rw [planMapping] at isPlan
  split at isPlan
  next isFile =>
    obtain ⟨place, bytes, found⟩ := isFile_iff.1 isFile
    have leads := found?_eq_some.1 found
    obtain rfl := Except.ok.inj isPlan
    have given : storage.read mapping.source = .ok bytes := read_eq_ok.2 ⟨place, found⟩
    let only : Copy := ⟨[], mapping.source,
      destination mapping.target (String.ofList ((Path.fileName? mapping.source).getD [])), bytes⟩
    refine ⟨[only], ⟨List.pairwise_singleton _ _, fun copy => ?_⟩, ?_⟩
    · rw [List.mem_singleton]
      constructor
      · rintro rfl
        exact .file leads
      · intro isCopied
        cases isCopied with
        | file leads' =>
            rw [leads] at leads'
            cases leads'
            rfl
        | below leads' =>
            rw [leads] at leads'
            cases leads'
    · simp only [readAssets, readAsset, given] at areRead
      exact (Prod.mk.inj areRead).1.symm
  next =>
    split at isPlan
    next there =>
      obtain ⟨place, found⟩ := isDirectory_iff.1 there
      have leads := found?_eq_some.1 found
      split at isPlan
      next => cases isPlan
      next ignore globs =>
        obtain rfl := Except.ok.inj isPlan
        rw [filesAt_of_found found] at areRead
        refine ⟨_, isWalk_filterMap_copyAt? leads system globs, ?_⟩
        refine readAssets_below leads system (fun names listed => ?_) areRead
        exact (mem_filesBelow_iff system (stands_of_locate leads)).1 listed
    next => cases isPlan

/-! ## What all mappings copy -/

theorem exists_walks (system : storage.IsFileSystem) {plan : List PlannedAsset}
    {assets : List Asset} (isPlan : planMappings storage mappings = .ok plan)
    (areRead : readAssets storage plan = (assets, none)) :
    ∃ walks, List.Forall₂ (IsWalk storage) mappings walks ∧
      assets = walks.flatten.map Copy.asset := by
  induction mappings generalizing plan assets with
  | nil =>
      obtain rfl := Except.ok.inj isPlan
      obtain ⟨rfl, _⟩ := Prod.mk.inj areRead
      exact ⟨[], .nil, rfl⟩
  | cons mapping mappings ih =>
      rw [planMappings] at isPlan
      cases isFirst : planMapping storage mapping with
      | error error => simp [isFirst] at isPlan
      | ok own =>
          cases areOthers : planMappings storage mappings with
          | error error => simp [isFirst, areOthers] at isPlan
          | ok others =>
              simp only [isFirst, areOthers, Except.ok.injEq] at isPlan
              subst isPlan
              obtain ⟨first, second, areFirst, areSecond, rfl⟩ := readAssets_append areRead
              obtain ⟨copies, isWalk, rfl⟩ := exists_walk_of_planMapping system isFirst areFirst
              obtain ⟨walks, areWalks, rfl⟩ := ih areOthers areSecond
              exact ⟨copies :: walks, .cons isWalk areWalks, by simp⟩

theorem mem_flatten_walks {walks : List (List Copy)}
    (areWalks : List.Forall₂ (IsWalk storage) mappings walks) {copy : Copy} :
    copy ∈ walks.flatten ↔ ∃ mapping ∈ mappings, IsCopied storage mapping copy := by
  induction areWalks with
  | nil => simp
  | cons isWalk _ ih => simp [ih, isWalk.members copy]

theorem exists_of_collectAssets {assets : List Asset} {report : List Diagnostic}
    (collected : collectAssets storage mappings = (report, .ok assets)) :
    ∃ plan read, planMappings storage mappings = .ok plan ∧ readAssets storage plan = (read, none) ∧
      assets = keptAssets read ∧
      report = (replacements Asset.path [] read).map fun (old, new) =>
        replacedAssetDiagnostic old new := by
  unfold collectAssets at collected
  split at collected
  next => cases (Prod.mk.inj collected).2
  next plan isPlan =>
    cases areRead : readAssets storage plan with
    | mk read failure =>
        rw [areRead] at collected
        cases failure with
        | some error => cases (Prod.mk.inj collected).2
        | none =>
            obtain ⟨rfl, isKept⟩ := Prod.mk.inj collected
            exact ⟨plan, read, isPlan, areRead, (Except.ok.inj isKept).symm, rfl⟩

/-- The last file that is copied to a path becomes the asset. -/
theorem collects_of_collectAssets {assets : List Asset} {report : List Diagnostic}
    (system : storage.IsFileSystem)
    (collected : collectAssets storage mappings = (report, .ok assets)) :
    Collects storage mappings assets report := by
  obtain ⟨plan, read, isPlan, areRead, rfl, rfl⟩ := exists_of_collectAssets collected
  obtain ⟨walks, areWalks, rfl⟩ := exists_walks system isPlan areRead
  constructor
  case ascends => exact pairwise_lt_of_sorted Asset.path (nodup_lasts _)
  case paths =>
    intro path
    have same : ((keptAssets (walks.flatten.map Copy.asset)).map Asset.path).Perm
        ((lasts Asset.path (walks.flatten.map Copy.asset)).map Asset.path) :=
      (List.mergeSort_perm _ _).map _
    rw [same.mem_iff, mem_map_lasts, List.map_map, List.mem_map]
    constructor
    · rintro ⟨copy, member, rfl⟩
      obtain ⟨mapping, given, isCopied⟩ := (mem_flatten_walks areWalks).1 member
      exact ⟨mapping, given, copy, isCopied, rfl⟩
    · rintro ⟨mapping, given, copy, isCopied, rfl⟩
      exact ⟨copy, (mem_flatten_walks areWalks).2 ⟨mapping, given, isCopied⟩, rfl⟩
  case lasts =>
    refine ⟨walks, areWalks, fun asset member => ?_, ?_⟩
    · have stays := List.mem_mergeSort.1 member
      obtain ⟨before, after, shape, last⟩ := exists_append_of_mem_lasts _ stays
      obtain ⟨first, rest, split, rfl, isRest⟩ := List.map_eq_append_iff.1 shape
      obtain ⟨copy, later, rfl, rfl, rfl⟩ := List.map_eq_cons_iff.1 isRest
      exact ⟨first, copy, later, split, rfl,
        fun other behind => last _ (List.mem_map_of_mem behind)⟩
    · rw [List.length_map, keptAssets, List.length_mergeSort, length_replacements, List.length_map]
  case warns =>
    intro diagnostic member
    obtain ⟨pair, _, rfl⟩ := List.mem_map.1 member
    exact ⟨rfl, text_duplicate⟩

/-! ## Two directories with one file each -/

def twoLogos : Storage where
  items := [(["old"], .directory), (["old", "logo.png"], .file .empty), (["new"], .directory),
    (["new", "logo.png"], .file ⟨#[137]⟩)]
  workingDirectory := []

def logoMappings : List AssetMapping :=
  [{ source := "/old", target := "img" }, { source := "/new", target := "img" }]

def logoAsset (source : String) (bytes : ByteArray) : Asset :=
  ⟨"img/logo.png", source, bytes, ContentDigest.ofBytes bytes⟩

theorem collectAssets_twoLogos : collectAssets twoLogos logoMappings =
    ([replacedAssetDiagnostic (logoAsset "/old/logo.png" .empty)
        (logoAsset "/new/logo.png" ⟨#[137]⟩)],
      .ok [logoAsset "/new/logo.png" ⟨#[137]⟩]) := by
  have oldLeads : twoLogos.locate true "/old" = .ok (.taken ["old"] .directory) := by
    rw [locate_eq_locateSteps]
    rfl
  have newLeads : twoLogos.locate true "/new" = .ok (.taken ["new"] .directory) := by
    rw [locate_eq_locateSteps]
    rfl
  have oldFile : twoLogos.locate true "/old/logo.png" =
      .ok (.taken ["old", "logo.png"] (.file .empty)) := by
    rw [locate_eq_locateSteps]
    rfl
  have newFile : twoLogos.locate true "/new/logo.png" =
      .ok (.taken ["new", "logo.png"] (.file ⟨#[137]⟩)) := by
    rw [locate_eq_locateSteps]
    rfl
  have below (source : String) (ignore : List String) :
      planFile ⟨source, "img", ignore⟩ [] ["logo.png"] =
        some ⟨Path.join source "logo.png", "img/logo.png"⟩ := rfl
  have plan : planMappings twoLogos logoMappings =
      .ok [⟨"/old/logo.png", "img/logo.png"⟩, ⟨"/new/logo.png", "img/logo.png"⟩] := by
    have oldNames : filesBelow twoLogos ["old"] = [["logo.png"]] := List.mergeSort_singleton _
    have newNames : filesBelow twoLogos ["new"] = [["logo.png"]] := List.mergeSort_singleton _
    simp only [planMappings, planMapping, logoMappings, isFile, isDirectory, filesAt, oldLeads,
      newLeads, readGlobs, oldNames, newNames]
    rfl
  have areRead : readAssets twoLogos
      [⟨"/old/logo.png", "img/logo.png"⟩, ⟨"/new/logo.png", "img/logo.png"⟩] =
        ([logoAsset "/old/logo.png" .empty, logoAsset "/new/logo.png" ⟨#[137]⟩], none) := by
    simp only [readAssets, readAsset, Storage.read, oldFile, newFile]
    rfl
  have kept : keptAssets [logoAsset "/old/logo.png" .empty, logoAsset "/new/logo.png" ⟨#[137]⟩] =
      [logoAsset "/new/logo.png" ⟨#[137]⟩] := List.mergeSort_singleton _
  simp only [collectAssets, plan, areRead, kept]
  rfl

theorem isFileSystem_twoLogos : twoLogos.IsFileSystem := by
  have isFileName : ∀ name ∈ ["old", "new", "logo.png"], IsFileName name := by
    have checked : ∀ name ∈ ["old", "new", "logo.png"],
        (name ≠ "" ∧ name ≠ "." ∧ name ≠ ".." ∧ name.utf8ByteSize ≤ nameBound) ∧
          '/' ∉ name.toList := by decide
    intro name listed
    obtain ⟨⟨nonempty, noDot, notUp, short⟩, noSlash⟩ := checked name listed
    exact ⟨⟨by simp [nonempty, noDot], notUp, Nat.not_lt.2 short⟩, noSlash⟩
  constructor
  case tree =>
    intro entry listed
    fin_cases listed <;> rfl
  case distinct => decide
  case named =>
    intro entry listed
    fin_cases listed
    · exact ⟨[], "old", rfl, isFileName _ (by simp)⟩
    · exact ⟨["old"], "logo.png", rfl, isFileName _ (by simp)⟩
    · exact ⟨[], "new", rfl, isFileName _ (by simp)⟩
    · exact ⟨["new"], "logo.png", rfl, isFileName _ (by simp)⟩

theorem collects_twoLogos : ∃ assets report, twoLogos.IsFileSystem ∧
    collectAssets twoLogos logoMappings = (report, .ok assets) ∧
      Collects twoLogos logoMappings assets report ∧ assets.length = 1 ∧ report.length = 1 :=
  ⟨_, _, isFileSystem_twoLogos, collectAssets_twoLogos,
    collects_of_collectAssets isFileSystem_twoLogos collectAssets_twoLogos, rfl, rfl⟩

end WebBundle.Output
