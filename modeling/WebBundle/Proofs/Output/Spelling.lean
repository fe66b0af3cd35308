import WebBundle.Proofs.Output.Copying
import WebBundle.Proofs.Path.Canonical
import WebBundle.Proofs.Text.Pieces

/-!
# Spellings of asset paths

The path of an asset is put together from the directory that its mapping copies to and from names
below the source. It is a resource path if the directory is one and not the root, and if the names
are plain. A name with a backslash is not: alone it is copied as it is, and behind other names it is
read as a path of its own.
-/

namespace WebBundle

namespace Path

/-- A name that a path may go down by: a step that neither stays nor goes up, with no separator in
it. -/
structure IsPlain (name : String) : Prop where
  kept : IsKept name.toList
  notUp : name.toList ≠ ['.', '.']

/-- Names that lead down from one place to another. -/
structure LeadsDown (names : List String) : Prop where
  some : names ≠ []
  plain : ∀ name ∈ names, IsPlain name

variable {absolute : Bool} {stack : List (List Char)} {names : List String}

theorem IsStack.append_names (isStack : IsStack absolute stack)
    (plain : ∀ name ∈ names, IsPlain name) :
    IsStack absolute ((names.map String.toList).reverse ++ stack) := by
  induction names generalizing stack with
  | nil => exact isStack
  | cons name names ih =>
      have isPlain := plain name List.mem_cons_self
      have pushed : IsStack absolute (name.toList :: stack) :=
        .cons isPlain.kept (fun isUp => absurd isUp isPlain.notUp) isStack
      rw [List.map_cons, List.reverse_cons, List.append_assoc]
      exact ih pushed fun other listed => plain other (List.mem_cons_of_mem name listed)

/-- Where plain names lead to below a text that is not empty. -/
theorem textOf_append_names (inner : stack ≠ []) (some : names ≠ []) :
    textOf absolute ((names.map String.toList).reverse ++ stack) =
      textOf absolute stack ++ ('/' :: ("/".intercalate names).toList) := by
  have joined : ("/".intercalate names).toList =
      List.intercalate ['/'] (names.map String.toList) := String.toList_intercalate
  have more : names.map String.toList ≠ [] := by simpa using some
  have body := Text.intercalate_append ['/'] (List.reverse_ne_nil_iff.2 inner) more
  rw [textOf, textOf, List.reverse_append, List.reverse_reverse, body, joined]
  cases absolute with
  | true => rfl
  | false => rfl

theorem normalize_intercalate (plain : ∀ name ∈ names, IsPlain name) :
    normalize ("/".intercalate names) = "/".intercalate names := by
  have isStack : IsStack false (names.map String.toList).reverse := by
    simpa using (IsStack.nil : IsStack false []).append_names plain
  have text : "/".intercalate names =
      String.ofList (textOf false (names.map String.toList).reverse) := by
    rw [← String.toList_inj, String.toList_ofList, String.toList_intercalate, textOf,
      List.reverse_reverse]
    rfl
  rw [text, normalize_ofList_textOf isStack]

end Path

namespace Output

open WebBundle.Path (LeadsDown exists_normalize_eq textOf)

/-- The place of a file below the output directory, however its path is spelt. -/
def File.place (file : File) : String := Path.normalize file.path

variable {storage : Storage} {mapping : AssetMapping} {names : List String} {target : String}

/-- Plain names lead from a directory other than the root to a resource path. -/
theorem normalize_destination (resource : Path.normalize target = target) (notRoot : target ≠ "/")
    (down : LeadsDown names) :
    Path.normalize (destination target ("/".intercalate names)) =
      destination target ("/".intercalate names) := by
  by_cases empty : target.isEmpty = true
  · rw [destination, if_pos empty, Path.normalize_intercalate down.plain]
  · obtain ⟨absolute, stack, isStack, same⟩ := exists_normalize_eq target
    have text : target = String.ofList (textOf absolute stack) := resource.symm.trans same
    -- Only the root and the empty target have no segments.
    have inner : stack ≠ [] := by
      rintro rfl
      cases absolute with
      | true => exact notRoot text
      | false =>
          rw [text] at empty
          exact empty rfl
    have below : destination target ("/".intercalate names) =
        String.ofList (textOf absolute ((names.map String.toList).reverse ++ stack)) := by
      rw [destination, if_neg empty, Path.textOf_append_names inner down.some, text,
        ← String.toList_inj]
      simp only [String.toList_append, String.toList_ofList, List.append_assoc]
      rfl
    rw [below, Path.normalize_ofList_textOf (isStack.append_names down.plain)]

/-! ## What mappings copy -/

/-- The names below the source of what a mapping copies, or would copy if no glob ignored it. A file
is copied by its own name. -/
def copiedNames (storage : Storage) (mapping : AssetMapping) : List (List String) :=
  if storage.isFile mapping.source then
    [[String.ofList ((Path.fileName? mapping.source).getD [])]]
  else filesAt storage mapping.source

/-- A mapping may write a path that is not a resource path: it copies to the root, or something by
names that are not plain. -/
def Misspells (storage : Storage) (mapping : AssetMapping) : Prop :=
  mapping.target = "/" ∨ ∃ names ∈ copiedNames storage mapping, ¬ LeadsDown names

theorem exists_names_of_planned {plan : List PlannedAsset} {planned : PlannedAsset}
    (isPlan : planMapping storage mapping = .ok plan) (listed : planned ∈ plan) :
    ∃ names ∈ copiedNames storage mapping,
      LeadsDown names → planned.path = destination mapping.target ("/".intercalate names) := by
  rw [planMapping] at isPlan
  split at isPlan
  next isFile =>
    obtain rfl := Except.ok.inj isPlan
    obtain rfl := List.mem_singleton.1 listed
    refine ⟨_, by rw [copiedNames, if_pos isFile]; exact List.mem_singleton_self _, fun _ => ?_⟩
    rw [String.intercalate_singleton]
  next notFile =>
    split at isPlan
    next =>
      split at isPlan
      next => cases isPlan
      next ignore _ =>
        obtain rfl := Except.ok.inj isPlan
        obtain ⟨names, below, isPlanned⟩ := List.mem_filterMap.1 listed
        refine ⟨names, by rwa [copiedNames, if_neg notFile], fun down => ?_⟩
        rw [planFile, Path.normalize_intercalate down.plain] at isPlanned
        split at isPlanned
        next => cases isPlanned
        next => rw [← Option.some.inj isPlanned]
    next => cases isPlan

/-- An asset has the path that one of the mappings plans. -/
theorem exists_planned_of_asset {mappings : List AssetMapping} {assets : List Asset} {asset : Asset}
    (collected : (collectAssets storage mappings).2 = .ok assets) (listed : asset ∈ assets) :
    ∃ mapping ∈ mappings, ∃ own, planMapping storage mapping = .ok own ∧
      ∃ planned ∈ own, asset.path = planned.path := by
  cases isPlan : planMappings storage mappings with
  | error error => simp [collectAssets, isPlan] at collected
  | ok plan =>
      rw [collectAssets, isPlan] at collected
      dsimp only at collected
      cases areRead : readAssets storage plan with
      | mk read failure =>
          rw [areRead] at collected
          cases failure with
          | some error => cases collected
          | none =>
              obtain rfl := Except.ok.inj collected
              have isRead : asset ∈ read :=
                Keyed.mem_of_mem_lasts Asset.path (List.mem_mergeSort.1 listed)
              have path : asset.path ∈ plan.map PlannedAsset.path :=
                map_path_of_readAssets areRead ▸ List.mem_map_of_mem isRead
              obtain ⟨planned, isPlanned, same⟩ := List.mem_map.1 path
              obtain ⟨mapping, member, own, isOwn, inOwn⟩ :=
                (mem_planMappings_iff isPlan).1 isPlanned
              exact ⟨mapping, member, own, isOwn, planned, inOwn, same.symm⟩

theorem exists_misspells_of_asset {mappings : List AssetMapping} {assets : List Asset}
    {asset : Asset}
    (resources : ∀ mapping ∈ mappings, Path.normalize mapping.target = mapping.target)
    (collected : (collectAssets storage mappings).2 = .ok assets) (listed : asset ∈ assets)
    (odd : Path.normalize asset.path ≠ asset.path) :
    ∃ mapping ∈ mappings, Misspells storage mapping := by
  obtain ⟨mapping, member, own, isOwn, planned, isPlanned, path⟩ :=
    exists_planned_of_asset collected listed
  obtain ⟨names, copied, below⟩ := exists_names_of_planned isOwn isPlanned
  refine ⟨mapping, member, ?_⟩
  by_contra spelt
  rw [Misspells, not_or] at spelt
  obtain ⟨notRoot, plain⟩ := spelt
  have down : LeadsDown names := by
    by_contra notDown
    exact plain ⟨names, copied, notDown⟩
  rw [path, below down] at odd
  exact odd (normalize_destination (resources mapping member) notRoot down)

end Output

end WebBundle
