import WebBundle.Proofs.Storage.Meeting
import WebBundle.Proofs.Storage.Parents
import WebBundle.Proofs.Storage.Tree

/-!
# Entries of directories

In a file system every item has a place of its own, lies in a directory, and is named by a name that
a path can step to. So what is at a place below a directory is what a path reads that goes on with
the names.
-/

namespace WebBundle.Storage

variable {storage : Storage} {place : Place} {names : List String}

/-- A name that an entry of a directory can have. -/
structure IsFileName (name : String) : Prop extends IsName name where
  noSlash : '/' ∉ name.toList

structure IsFileSystem (storage : Storage) : Prop where
  tree : storage.IsTree
  distinct : (storage.items.map Prod.fst).Nodup
  named : ∀ entry ∈ storage.items, ∃ place name, entry.1 = place ++ [name] ∧ IsFileName name

theorem IsFileName.segment {name : String} (isFileName : IsFileName name) :
    name.toList ≠ [] ∧ '/' ∉ name.toList := by
  refine ⟨fun empty => isFileName.moves ?_, isFileName.noSlash⟩
  rw [String.toList_eq_nil_iff.1 empty]
  rfl

namespace IsFileSystem

variable (system : storage.IsFileSystem)
include system

theorem isFileName {item : Item} (held : storage.itemAt? place = some item) :
    ∀ name ∈ place, IsFileName name := by
  induction place using List.reverseRecOn generalizing item with
  | nil => exact nofun
  | append_singleton place last ih =>
      have listed := exists_mem_of_itemAt? held (by simp)
      obtain ⟨above, name, same, isFileName⟩ := system.named _ listed
      obtain ⟨rfl, isLast⟩ := List.append_inj' same rfl
      obtain rfl := List.singleton_inj.1 isLast
      have inside := system.tree _ listed
      rw [List.dropLast_concat] at inside
      intro other member
      rcases List.mem_append.1 member with before | last
      · exact ih inside other before
      · exact List.mem_singleton.1 last ▸ isFileName

theorem itemAt?_of_mem {item : Item} (listed : (place, item) ∈ storage.items) :
    storage.itemAt? place = some item := by
  obtain ⟨above, name, same, _⟩ := system.named _ listed
  have below : place ≠ [] := by
    change place = above ++ [name] at same
    simp [same]
  obtain ⟨before, after, shape⟩ := List.append_of_mem listed
  rw [itemAt?_of_ne_nil below, List.lookup_eq_some_iff]
  refine ⟨before, after, shape, fun entry earlier => ?_⟩
  have distinct := system.distinct
  rw [shape, List.map_append, List.map_cons, List.nodup_append] at distinct
  have apart := distinct.2.2 entry.1 (List.mem_map_of_mem earlier) place List.mem_cons_self
  simpa using apart.symm

end IsFileSystem

/-- Names lead from a directory to what is below it. -/
theorem IsTree.walk_names {follow : Bool} {links : Nat} {item : Item} (tree : storage.IsTree)
    (areNames : ∀ name ∈ names, IsName name)
    (held : storage.itemAt? (place ++ names) = some item) (noLink : ∀ target, item ≠ .link target) :
    storage.walk follow links place names = .ok (.taken (place ++ names) item) := by
  induction names generalizing place with
  | nil =>
      rw [List.append_nil] at held ⊢
      exact walk_nil held
  | cons name names ih =>
      have isName := areNames name List.mem_cons_self
      have others : ∀ other ∈ names, IsName other :=
        fun other listed => areNames other (List.mem_cons_of_mem name listed)
      have found : storage.itemAt? place = some .directory :=
        tree.directory_above held (List.prefix_append _ _) (by simp)
      rw [List.append_cons] at held ⊢
      rw [← ih others held]
      cases names with
      | nil =>
          rw [List.append_nil] at held
          exact walk_on found isName held noLink
      | cons next names =>
          have there : storage.itemAt? (place ++ [name]) = some .directory :=
            tree.directory_above held (List.prefix_append _ _) (by simp)
          exact walk_on found isName there nofun

/-- The steps of names that are put below a path, one after the other. -/
theorem stepsOf_foldl_join {path : String} (nonempty : names ≠ [])
    (areNames : ∀ name ∈ names, IsFileName name) :
    Path.isAbsolute (names.foldl Path.join path) = Path.isAbsolute path ∧
      stepsOf (names.foldl Path.join path) =
        (Path.frontSegments path).map String.ofList ++ names := by
  let texts := names.map String.toList
  have given : texts ≠ [] := by simpa [texts] using nonempty
  have areSegments : ∀ text ∈ texts, text ≠ [] ∧ '/' ∉ text := by
    intro text listed
    obtain ⟨name, member, rfl⟩ := List.mem_map.1 listed
    exact (areNames name member).segment
  have back : texts.map String.ofList = names := by simp [texts]
  have joined : names.foldl Path.join path =
      Path.join path (String.ofList (List.intercalate ['/'] texts)) := by
    rw [← Path.foldl_join given areSegments]
    exact back ▸ List.foldl_map
  have relative := Path.isAbsolute_intercalate areSegments
  rw [joined]
  refine ⟨Path.isAbsolute_join relative, ?_⟩
  rw [stepsOf, Path.segments_join relative, List.map_append,
    Path.segments_ofList_intercalate given fun text listed => (areSegments text listed).2, back]

/-- What is read by names below a directory lies there. -/
theorem IsFileSystem.read_below {path : String} {bytes found : ByteArray}
    (system : storage.IsFileSystem)
    (leads : storage.locate true path = .ok (.taken place .directory)) (below : names ≠ [])
    (held : storage.itemAt? (place ++ names) = some (.file bytes))
    (isRead : storage.read (names.foldl Path.join path) = .ok found) : found = bytes := by
  have areNames : ∀ name ∈ names, IsFileName name :=
    fun name listed => system.isFileName held name (List.mem_append_right place listed)
  obtain ⟨other, ends⟩ := read_eq_ok.1 isRead
  have ends := found?_eq_some.1 ends
  obtain ⟨absolute, steps⟩ := @stepsOf_foldl_join names path below areNames
  obtain ⟨left, onwards⟩ := @exists_walk_append storage true _ _ _ _ _ _ (walk_front leads) below
  rw [locate_eq_walk (isPath_of_locate ends), absolute, steps, onwards,
    system.tree.walk_names (fun name listed => (areNames name listed).toIsName) held nofun] at ends
  cases ends
  rfl

end WebBundle.Storage
