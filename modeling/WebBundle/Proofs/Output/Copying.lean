import WebBundle.Output.Asset
import WebBundle.Proofs.Keyed
import WebBundle.Proofs.Sorting
import WebBundle.Proofs.Storage.Meeting

/-!
# Assets after a change

The files below a directory are listed in the order of their names. So a mapping that ignores what
lies in some place copies the same files after that place was changed, and if their contents are
kept, the assets are the same.
-/

namespace WebBundle.Output

open Storage

variable {storage later : Storage} {near place : Place} {mapping : AssetMapping}

/-! ## Lists of names in order -/

theorem namesLe_cons {a b : String} {as bs : List String} :
    namesLe (a :: as) (b :: bs) = true ↔ a ≤ b ∧ (a = b → namesLe as bs = true) := by
  rw [namesLe, Bool.and_eq_true, textLe_toList_iff, Bool.or_eq_true, decide_eq_true_eq]
  by_cases same : a = b
  · simp [same]
  · simp [same]

theorem namesLe_iff_not_lex {first second : List String} :
    namesLe first second = true ↔ ¬List.Lex (fun a b : String => a < b) second first := by
  induction first generalizing second with
  | nil => exact iff_of_true rfl List.not_lex_nil
  | cons a as ih =>
      cases second with
      | nil => exact iff_of_false nofun (not_not.2 .nil)
      | cons b bs =>
          rw [namesLe_cons, ih, List.cons_lex_cons_iff, not_or, not_and, not_lt,
            eq_comm (a := a)]

/-- Lists of names are in dictionary order. -/
theorem comparesBy_names : ComparesBy namesLe fun names : List String => names := by
  intro first second
  rw [namesLe_iff_not_lex]
  exact @not_lt (List String) _ second first

theorem pairwise_namesLe (items : List (List String)) :
    (items.mergeSort namesLe).Pairwise fun first second => namesLe first second = true :=
  List.pairwise_mergeSort comparesBy_names.trans comparesBy_names.total items

/-- Leaving some lists out does not change the order of the others. -/
theorem filter_mergeSort (keep : List String → Bool) (items : List (List String)) :
    (items.mergeSort namesLe).filter keep = (items.filter keep).mergeSort namesLe := by
  have same : ((items.mergeSort namesLe).filter keep).Perm
      ((items.filter keep).mergeSort namesLe) :=
    ((List.mergeSort_perm items namesLe).filter keep).trans
      (List.mergeSort_perm (items.filter keep) namesLe).symm
  refine same.eq_of_pairwise (fun first second _ _ before after => ?_)
    ((pairwise_namesLe items).filter keep) (pairwise_namesLe _)
  exact le_antisymm ((comparesBy_names first second).1 before)
    ((comparesBy_names second first).1 after)

/-! ## The files of a mapping -/

/-- The names of a file below a directory. -/
def namesBelow? (place : Place) : Place × Item → Option (List String)
  | (other, .file _) => if place.isPrefixOf other then some (other.drop place.length) else none
  | _ => none

theorem filesBelow_eq (storage : Storage) (place : Place) :
    filesBelow storage place = (storage.items.filterMap (namesBelow? place)).mergeSort namesLe := by
  rw [filesBelow]
  congr 2
  funext (other, item)
  cases item with
  | file bytes => rfl
  | directory => rfl
  | link target => rfl

theorem filter_namesBelow? (entry : Place × Item) :
    (namesBelow? place entry).filter (fun names => !near.isPrefixOf (place ++ names)) =
      if isFileOutside near entry then namesBelow? place entry else none := by
  obtain ⟨other, item⟩ := entry
  cases item with
  | directory => rfl
  | link target => rfl
  | file bytes =>
      rw [namesBelow?, isFileOutside]
      by_cases below : place <+: other
      · obtain ⟨names, rfl⟩ := below
        simp [Option.filter_some]
      · simp [below]

/-- The files below a directory that do not lie in a place that was changed are the same. -/
theorem filter_filesBelow (alters : Alters near storage later) (place : Place) :
    (filesBelow later place).filter (fun names => !near.isPrefixOf (place ++ names)) =
      (filesBelow storage place).filter fun names => !near.isPrefixOf (place ++ names) := by
  have outside (items : List (Place × Item)) :
      (items.filterMap (namesBelow? place)).filter (fun names => !near.isPrefixOf (place ++ names)) =
        (items.filter (isFileOutside near)).filterMap (namesBelow? place) := by
    rw [List.filter_filterMap, List.filterMap_filter]
    exact List.filterMap_congr fun entry _ => filter_namesBelow? entry
  rw [filesBelow_eq, filesBelow_eq, filter_mergeSort, filter_mergeSort, outside, outside,
    alters.filter_outside_eq]

/-- The mapping ignores the files of a directory that lie in a place. -/
def Ignores (mapping : AssetMapping) (ignore : List Pattern.Glob) (place near : Place) : Prop :=
  ∀ names, near <+: place ++ names → planFile mapping ignore names = none

theorem filterMap_planFile {ignore : List Pattern.Glob} (alters : Alters near storage later)
    (ignores : Ignores mapping ignore place near) :
    (filesBelow later place).filterMap (planFile mapping ignore) =
      (filesBelow storage place).filterMap (planFile mapping ignore) := by
  have outside (files : List (List String)) : files.filterMap (planFile mapping ignore) =
      (files.filter fun names => !near.isPrefixOf (place ++ names)).filterMap
        (planFile mapping ignore) := by
    rw [List.filterMap_filter]
    refine List.filterMap_congr fun names _ => ?_
    split
    next => rfl
    next inside => exact ignores names (by simpa using inside)
  rw [outside, filter_filesBelow alters, ← outside]

theorem filesAt_of_found {path : String} (found : storage.found? path = some (place, .directory)) :
    filesAt storage path = filesBelow storage place := by
  rw [filesAt, found?_eq_some.1 found]

/-! ## The assets -/

/-- The mapping copies the same files from another storage. -/
theorem planMapping_of_kept {plan : List PlannedAsset} (alters : Alters near storage later)
    (kept : Kept (storage.found? mapping.source) (later.found? mapping.source))
    (ignored : ∀ place ignore, storage.found? mapping.source = some (place, .directory) →
      readGlobs mapping.ignore = .ok ignore → Ignores mapping ignore place near)
    (isPlan : planMapping storage mapping = .ok plan) : planMapping later mapping = .ok plan := by
  rw [planMapping] at isPlan ⊢
  rw [isFile_of_kept kept]
  split at isPlan
  next isFile => rwa [if_pos isFile]
  next noFile =>
    rw [if_neg noFile]
    split at isPlan
    next there =>
      obtain ⟨place, found⟩ := isDirectory_iff.1 there
      rw [if_pos (isDirectory_of_kept kept there)]
      cases globs : readGlobs mapping.ignore with
      | error error =>
          rw [globs] at isPlan
          cases isPlan
      | ok ignore =>
          rw [globs] at isPlan
          dsimp only at isPlan ⊢
          rw [filesAt_of_found found] at isPlan
          rw [filesAt_of_found (kept.finds found),
            filterMap_planFile alters (ignored place ignore found globs)]
          exact isPlan
    next => cases isPlan

theorem planMappings_of_kept {mappings : List AssetMapping} {plan : List PlannedAsset}
    (alters : Alters near storage later)
    (kept : ∀ mapping ∈ mappings, Kept (storage.found? mapping.source) (later.found? mapping.source))
    (ignored : ∀ mapping ∈ mappings, ∀ place ignore,
      storage.found? mapping.source = some (place, .directory) →
        readGlobs mapping.ignore = .ok ignore → Ignores mapping ignore place near)
    (isPlan : planMappings storage mappings = .ok plan) :
    planMappings later mappings = .ok plan := by
  induction mappings generalizing plan with
  | nil => exact isPlan
  | cons mapping mappings ih =>
      obtain ⟨keptFirst, keptOthers⟩ := List.forall_mem_cons.1 kept
      obtain ⟨ignoredFirst, ignoredOthers⟩ := List.forall_mem_cons.1 ignored
      rw [planMappings] at isPlan ⊢
      cases first : planMapping storage mapping with
      | error error =>
          rw [first] at isPlan
          cases isPlan
      | ok planned =>
          rw [first] at isPlan
          rw [planMapping_of_kept alters keptFirst ignoredFirst first]
          cases rest : planMappings storage mappings with
          | error error =>
              rw [rest] at isPlan
              cases isPlan
          | ok others =>
              rw [rest] at isPlan
              rw [ih keptOthers ignoredOthers rest]
              exact isPlan

/-- Every planned file becomes an asset. -/
theorem map_path_of_readAssets {plan : List PlannedAsset} {assets : List Asset}
    (areRead : readAssets storage plan = (assets, none)) :
    assets.map Asset.path = plan.map PlannedAsset.path := by
  induction plan generalizing assets with
  | nil =>
      obtain ⟨rfl, _⟩ := Prod.mk.inj areRead
      rfl
  | cons planned plan ih =>
      rw [readAssets] at areRead
      cases isRead : readAsset storage planned with
      | error error => simp [isRead] at areRead
      | ok asset =>
          cases rest : readAssets storage plan with
          | mk others failure =>
              rw [isRead, rest] at areRead
              obtain ⟨rfl, rfl⟩ := Prod.mk.inj areRead
              unfold readAsset at isRead
              split at isRead
              next => cases isRead
              next =>
                obtain rfl := Except.ok.inj isRead
                rw [List.map_cons, List.map_cons, ih rest]

theorem exists_asset_of_planned {mappings : List AssetMapping} {plan : List PlannedAsset}
    {planned : PlannedAsset} {assets : List Asset}
    (collected : (collectAssets storage mappings).2 = .ok assets)
    (isPlan : planMappings storage mappings = .ok plan) (listed : planned ∈ plan) :
    ∃ asset ∈ assets, asset.path = planned.path := by
  rw [collectAssets, isPlan] at collected
  dsimp only at collected
  cases areRead : readAssets storage plan with
  | mk read failure =>
      rw [areRead] at collected
      cases failure with
      | some error => cases collected
      | none =>
          obtain rfl := Except.ok.inj collected
          have path : planned.path ∈ read.map Asset.path :=
            map_path_of_readAssets areRead ▸ List.mem_map_of_mem listed
          obtain ⟨first, isRead, same⟩ := List.mem_map.1 path
          obtain ⟨last, stays, key⟩ : ∃ last ∈ Keyed.lasts Asset.path read, last.path = first.path :=
            Keyed.exists_mem_lasts isRead
          exact ⟨last, List.mem_mergeSort.2 stays, key.trans same⟩

theorem mem_filesBelow {names : List String} {bytes : ByteArray} (below : names ≠ [])
    (file : storage.itemAt? (place ++ names) = some (.file bytes)) :
    names ∈ filesBelow storage place := by
  rw [filesBelow_eq, List.mem_mergeSort, List.mem_filterMap]
  refine ⟨(place ++ names, .file bytes), exists_mem_of_itemAt? file (by simp [below]), ?_⟩
  simp [namesBelow?]

theorem mem_planMappings_iff {mappings : List AssetMapping} {plan : List PlannedAsset}
    {planned : PlannedAsset} (isPlan : planMappings storage mappings = .ok plan) :
    planned ∈ plan ↔
      ∃ mapping ∈ mappings, ∃ own, planMapping storage mapping = .ok own ∧ planned ∈ own := by
  induction mappings generalizing plan with
  | nil =>
      obtain rfl := Except.ok.inj isPlan
      simp
  | cons first mappings ih =>
      rw [planMappings] at isPlan
      cases isFirst : planMapping storage first with
      | error error => simp [isFirst] at isPlan
      | ok ofFirst =>
          cases areOthers : planMappings storage mappings with
          | error error => simp [isFirst, areOthers] at isPlan
          | ok ofOthers =>
              simp only [isFirst, areOthers, Except.ok.injEq] at isPlan
              subst isPlan
              simp [ih areOthers, isFirst]

/-- A file below a directory of assets is copied unless it is ignored. -/
theorem exists_asset_of_file {mappings : List AssetMapping} {assets : List Asset}
    {names : List String} {bytes : ByteArray} {ignore : List Pattern.Glob}
    {planned : PlannedAsset} (collected : (collectAssets storage mappings).2 = .ok assets)
    (listed : mapping ∈ mappings)
    (leads : storage.locate true mapping.source = .ok (.taken place .directory))
    (isRead : readGlobs mapping.ignore = .ok ignore) (below : names ≠ [])
    (file : storage.itemAt? (place ++ names) = some (.file bytes))
    (isPlanned : planFile mapping ignore names = some planned) :
    ∃ asset ∈ assets, asset.path = planned.path := by
  have own : planMapping storage mapping =
      .ok ((filesBelow storage place).filterMap (planFile mapping ignore)) := by
    simp only [planMapping, isFile, isDirectory, filesAt, leads, isRead]
    rfl
  have member : planned ∈ (filesBelow storage place).filterMap (planFile mapping ignore) :=
    List.mem_filterMap.2 ⟨names, mem_filesBelow below file, isPlanned⟩
  cases isPlan : planMappings storage mappings with
  | error error => simp [collectAssets, isPlan] at collected
  | ok plan =>
      exact exists_asset_of_planned collected isPlan
        ((mem_planMappings_iff isPlan).2 ⟨mapping, listed, _, own, member⟩)

theorem readAsset_of_kept {planned : PlannedAsset} {asset : Asset}
    (kept : Kept (storage.found? planned.source) (later.found? planned.source))
    (isRead : readAsset storage planned = .ok asset) : readAsset later planned = .ok asset := by
  rw [readAsset] at isRead ⊢
  cases given : storage.read planned.source with
  | error fault =>
      rw [given] at isRead
      cases isRead
  | ok bytes =>
      rw [given] at isRead
      rw [(read_of_kept kept bytes).2 given]
      exact isRead

theorem readAssets_of_kept {plan : List PlannedAsset} {assets : List Asset}
    (kept : ∀ planned ∈ plan, Kept (storage.found? planned.source) (later.found? planned.source))
    (areRead : readAssets storage plan = (assets, none)) :
    readAssets later plan = (assets, none) := by
  induction plan generalizing assets with
  | nil => exact areRead
  | cons planned plan ih =>
      obtain ⟨keptFirst, keptOthers⟩ := List.forall_mem_cons.1 kept
      rw [readAssets] at areRead ⊢
      cases first : readAsset storage planned with
      | error error =>
          rw [first] at areRead
          cases areRead
      | ok asset =>
          rw [first] at areRead
          rw [readAsset_of_kept keptFirst first]
          cases rest : readAssets storage plan with
          | mk others error =>
              rw [rest] at areRead
              obtain ⟨rfl, rfl⟩ := Prod.mk.inj areRead
              rw [ih keptOthers rest]

/-- The assets that could be collected are the same in another storage. -/
theorem collectAssets_of_kept {mappings : List AssetMapping} {assets : List Asset}
    (alters : Alters near storage later)
    (keptSources : ∀ mapping ∈ mappings,
      Kept (storage.found? mapping.source) (later.found? mapping.source))
    (keptFiles : ∀ plan, planMappings storage mappings = .ok plan → ∀ planned ∈ plan,
      Kept (storage.found? planned.source) (later.found? planned.source))
    (ignored : ∀ mapping ∈ mappings, ∀ place ignore,
      storage.found? mapping.source = some (place, .directory) →
        readGlobs mapping.ignore = .ok ignore → Ignores mapping ignore place near)
    (collected : (collectAssets storage mappings).2 = .ok assets) :
    collectAssets later mappings = collectAssets storage mappings := by
  cases isPlan : planMappings storage mappings with
  | error error => simp [collectAssets, isPlan] at collected
  | ok plan =>
      have isPlan' := planMappings_of_kept alters keptSources ignored isPlan
      cases areRead : readAssets storage plan with
      | mk read error =>
          cases error with
          | some error => simp [collectAssets, isPlan, areRead] at collected
          | none =>
              have areRead' := readAssets_of_kept (keptFiles plan isPlan) areRead
              simp only [collectAssets, isPlan, isPlan', areRead, areRead']

end WebBundle.Output
