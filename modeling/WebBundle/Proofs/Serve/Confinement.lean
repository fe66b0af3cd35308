import WebBundle.Proofs.Serve.Routes

/-!
# Routes stay inside

A target is decoded first and then cut at its slashes, so no escape brings a separator or a step up
into a name. What leads out of the served directory by its text is forbidden, and every file that is
served has names of its own below the directory. If nothing below the directory is a link, the file
lies below it.
-/

namespace WebBundle

namespace Storage

variable {storage : Storage} {follow : Bool} {links : Nat} {place start final : Place} {item : Item}
  {root path : String}

/-- No link lies at a place or below it. -/
def NoLinks (storage : Storage) (place : Place) : Prop :=
  ∀ other target, place <+: other → storage.itemAt? other ≠ some (.link target)

/-- A walk without steps up stays below a place that has no links. -/
theorem NoLinks.prefix_of_walk {steps : List String} (noLinks : storage.NoLinks place)
    (inside : place <+: start) (noUp : ".." ∉ steps)
    (ends : storage.walk follow links start steps = .ok (.taken final item)) :
    place <+: final := by
  fun_induction storage.walk follow links start steps with
  | case2 =>
      cases ends
      exact inside
  | case3 _ _ _ _ _ _ ih => exact ih inside (fun listed => noUp (.tail _ listed)) ends
  | case4 => exact absurd List.mem_cons_self noUp
  | case8 _ _ _ _ _ _ _ _ target link =>
      exact absurd link (noLinks _ target (inside.trans (List.prefix_append _ _)))
  | case11 _ _ _ _ _ _ _ target link =>
      exact absurd link (noLinks _ target (inside.trans (List.prefix_append _ _)))
  | case12 _ _ _ _ _ _ _ _ _ _ _ ih =>
      exact ih (inside.trans (List.prefix_append _ _)) (fun listed => noUp (.tail _ listed)) ends
  | _ => cases ends

/-- What is below a directory without links by the text of its path lies below it. -/
theorem NoLinks.prefix_of_join (noLinks : storage.NoLinks place)
    (isRoot : storage.locate true root = .ok (.taken place .directory))
    (relative : Path.isAbsolute path = false) (noUp : ['.', '.'] ∉ Path.segments path)
    (ends : storage.locate true (Path.join root path) = .ok (.taken final item)) :
    place <+: final := by
  rw [locate_eq_walk (isPath_of_locate ends), Path.isAbsolute_join relative, stepsOf,
    Path.segments_join relative, List.map_append] at ends
  obtain ⟨left, _, onwards⟩ := exists_walk_onwards (walk_front isRoot)
  rw [onwards (by simp)] at ends
  refine noLinks.prefix_of_walk List.prefix_rfl ?_ ends
  intro listed
  obtain ⟨segment, member, isUp⟩ := List.mem_map.1 listed
  rw [← String.toList_inj, String.toList_ofList] at isUp
  have isUp : segment = ['.', '.'] := isUp
  exact noUp (isUp ▸ member)

end Storage

namespace Serve

open Storage

variable {storage : Storage} {root target path : String} {fallback : Option String}
  {names : List (List Char)}

/-- A name that stays in its directory. -/
structure IsContained (name : List Char) : Prop where
  nonempty : name ≠ []
  notDot : name ≠ ['.']
  notUp : name ≠ ['.', '.']
  noSlash : '/' ∉ name
  noBackslash : '\\' ∉ name
  noNull : '\x00' ∉ name

/-- The path of some names below a root. -/
def below (root : String) (names : List (List Char)) : String :=
  if names = [] then root else Path.join root (String.ofList (List.intercalate ['/'] names))

theorem foldl_join_eq_below (contained : ∀ name ∈ names, IsContained name) :
    names.foldl (fun path name => Path.join path (String.ofList name)) root = below root names := by
  rw [below]
  split
  next empty =>
    rw [empty]
    rfl
  next nonempty =>
    exact Path.foldl_join nonempty fun name listed =>
      ⟨(contained name listed).nonempty, (contained name listed).noSlash⟩

/-! ## Targets and their paths -/

/-- A target writes a path: before its query or fragment there are the bytes of the path, some of
them as escapes. -/
def Writes (target path : String) : Prop :=
  ∃ part rest, target.toList = part ++ rest ∧ (∀ c ∈ part, c ≠ '?' ∧ c ≠ '#') ∧
    (∀ c, rest.head? = some c → c = '?' ∨ c = '#') ∧
      Text.Percent.Writes (part.flatMap String.utf8EncodeChar)
        (path.toList.flatMap String.utf8EncodeChar)

theorem pathPart_eq {part rest : List Char} (split : target.toList = part ++ rest)
    (inside : ∀ c ∈ part, c ≠ '?' ∧ c ≠ '#')
    (behind : ∀ c, rest.head? = some c → c = '?' ∨ c = '#') : pathPart target = part := by
  rw [pathPart, split, List.takeWhile_append_of_pos fun c listed => by simp [inside c listed]]
  cases rest with
  | nil => simp
  | cons c rest =>
      rw [List.takeWhile_cons_of_neg, List.append_nil]
      rcases behind c rfl with rfl | rfl
      · decide
      · decide

theorem decodedPath?_eq_some_iff : decodedPath? target = some path ↔ Writes target path := by
  have reads : decodedPath? target = some path ↔
      Text.Percent.Writes ((pathPart target).flatMap String.utf8EncodeChar)
        (path.toList.flatMap String.utf8EncodeChar) := by
    have bytes (text : List Char) :
        (String.ofList text).toUTF8.toList = text.flatMap String.utf8EncodeChar := by
      rw [Text.toList_toUTF8, String.toList_ofList]
    rw [decodedPath?, Text.Utf8.strict?_eq_some_iff, bytes, ← Text.Percent.decode_eq_iff,
      ← Text.toList_toUTF8, toList_bytes]
    exact ⟨fun same => by rw [← same], fun same => by rw [same]⟩
  rw [reads]
  constructor
  · intro writes
    refine ⟨pathPart target, target.toList.dropWhile fun c => c ≠ '?' && c ≠ '#',
      (List.takeWhile_append_dropWhile).symm, fun c listed => ?_, fun c first => ?_, writes⟩
    · simpa using List.mem_takeWhile_imp listed
    · have stops := List.head?_dropWhile_not (fun c : Char => c ≠ '?' && c ≠ '#') target.toList
      rw [first] at stops
      simpa [imp_iff_not_or] using stops
  · rintro ⟨part, rest, split, inside, behind, writes⟩
    rwa [pathPart_eq split inside behind]

/-! ## Forbidden paths -/

/-- What could lead out of a directory: a step up, or a character that is no part of a name. -/
def Escapes (path : String) : Prop :=
  ['.', '.'] ∈ Path.segments path ∨ '\\' ∈ path.toList ∨ '\x00' ∈ path.toList

theorem mem_segment_of_mem {c : Char} (inside : c ∈ path.toList) (other : c ≠ '/') :
    ∃ segment ∈ Path.segments path, c ∈ segment := by
  rw [← Path.intercalate_segments path] at inside
  exact (Path.mem_intercalate inside).resolve_left other

theorem any_isForbidden_iff : (Path.segments path).any isForbidden = true ↔ Escapes path := by
  have isNull (c : Char) : c.toNat = 0 ↔ c = '\x00' := by
    rw [← Char.toNat_inj]
    rfl
  have forbidden (segment : List Char) : isForbidden segment = true ↔
      segment = ['.', '.'] ∨ '\\' ∈ segment ∨ '\x00' ∈ segment := by
    simp [isForbidden, isNull, and_or_left, exists_or]
  rw [List.any_eq_true]
  constructor
  · rintro ⟨segment, listed, special⟩
    have inside := Text.not_mem_of_mem_pieces listed
    rcases (forbidden segment).1 special with rfl | backslash | null
    · exact .inl listed
    · exact .inr (.inl (inside _ backslash).2)
    · exact .inr (.inr (inside _ null).2)
  · rintro (up | backslash | null)
    · exact ⟨_, up, rfl⟩
    · obtain ⟨segment, listed, member⟩ := mem_segment_of_mem backslash (by decide)
      exact ⟨segment, listed, (forbidden segment).2 (.inr (.inl member))⟩
    · obtain ⟨segment, listed, member⟩ := mem_segment_of_mem null (by decide)
      exact ⟨segment, listed, (forbidden segment).2 (.inr (.inr member))⟩

theorem isContained_of_mem_namesOf (stays : ¬Escapes path) {name : List Char}
    (member : name ∈ namesOf path) : IsContained name := by
  obtain ⟨listed, moves⟩ := List.mem_filter.1 member
  have inside := Text.not_mem_of_mem_pieces listed
  rw [Escapes, not_or, not_or] at stays
  constructor
  case nonempty =>
    rintro rfl
    cases moves
  case notDot =>
    rintro rfl
    cases moves
  case notUp =>
    rintro rfl
    exact stays.1 listed
  case noSlash => exact fun slash => (inside _ slash).1 rfl
  case noBackslash => exact fun backslash => stays.2.1 (inside _ backslash).2
  case noNull => exact fun null => stays.2.2 (inside _ null).2

/-! ## Routes -/

theorem exists_of_fileAt? {file : String} (found : fileAt? storage path = some file) :
    (file = path ∨ file = Path.join path indexName) ∧ storage.isFile file = true := by
  unfold fileAt? at found
  split at found
  next isFile =>
    obtain rfl := Option.some.inj found
    exact ⟨.inl rfl, isFile⟩
  next =>
    dsimp only at found
    split at found
    next there =>
      obtain rfl := Option.some.inj found
      exact ⟨.inr rfl, ((Bool.and_eq_true _ _).mp there).2⟩
    next => cases found

theorem isContained_indexName : IsContained indexName.toList where
  nonempty := by decide
  notDot := by decide
  notUp := by decide
  noSlash := by decide
  noBackslash := by decide
  noNull := by decide

/-- The file of a path that stays inside has names below the root. -/
theorem exists_below_of_fileAt? {file : String}
    (contained : ∀ name ∈ names, IsContained name)
    (found : fileAt? storage
      (names.foldl (fun path name => Path.join path (String.ofList name)) root) = some file) :
    ∃ names, file = below root names ∧ (∀ name ∈ names, IsContained name) ∧
      storage.isFile file = true := by
  obtain ⟨rfl | rfl, isFile⟩ := exists_of_fileAt? found
  · exact ⟨names, foldl_join_eq_below contained, contained, isFile⟩
  · have contained' : ∀ name ∈ names ++ [indexName.toList], IsContained name := by
      intro name listed
      rcases List.mem_append.1 listed with inside | last
      · exact contained name inside
      · rw [List.mem_singleton.1 last]
        exact isContained_indexName
    refine ⟨names ++ [indexName.toList], ?_, contained', isFile⟩
    rw [← foldl_join_eq_below contained', List.foldl_append, List.foldl_cons, List.foldl_nil,
      String.ofList_toList]

/-- Where a target leads. -/
inductive Leads (storage : Storage) (root target : String) (fallback : Option String) :
    Route → Prop where
  | noText (none : decodedPath? target = none) : Leads storage root target fallback .notFound
  | escape {path : String} (decoded : decodedPath? target = some path) (escapes : Escapes path) :
      Leads storage root target fallback .forbidden
  | file {path : String} {names : List (List Char)} (decoded : decodedPath? target = some path)
      (stays : ¬Escapes path) (contained : ∀ name ∈ names, IsContained name)
      (isFile : storage.isFile (below root names) = true) :
      Leads storage root target fallback (.file (below root names))
  | fallback {path document : String} (decoded : decodedPath? target = some path)
      (stays : ¬Escapes path) (given : fallback = some document)
      (isFile : storage.isFile (Path.join root document) = true) :
      Leads storage root target fallback (.fallback (Path.join root document))
  | missing {path : String} (decoded : decodedPath? target = some path) (stays : ¬Escapes path) :
      Leads storage root target fallback .notFound

theorem leads_fallbackRoute (decoded : decodedPath? target = some path) (stays : ¬Escapes path) :
    Leads storage root target fallback (fallbackRoute storage root fallback names) := by
  unfold fallbackRoute
  split
  next => exact .missing decoded stays
  next document =>
    dsimp only
    split
    next there => exact .fallback decoded stays rfl ((Bool.and_eq_true _ _).mp there).2
    next => exact .missing decoded stays

theorem leads_route (storage : Storage) (root target : String) (fallback : Option String) :
    Leads storage root target fallback (route storage root target fallback) := by
  rw [route]
  cases decoded : decodedPath? target with
  | none => exact .noText decoded
  | some path =>
      dsimp only
      by_cases escapes : Escapes path
      · rw [if_pos (any_isForbidden_iff.2 escapes)]
        exact .escape decoded escapes
      · rw [if_neg (mt any_isForbidden_iff.1 escapes)]
        split
        next file found =>
          obtain ⟨names, isBelow, contained, isFile⟩ :=
            exists_below_of_fileAt? (fun _ => isContained_of_mem_namesOf escapes) found
          rw [isBelow] at isFile ⊢
          exact .file decoded escapes contained isFile
        next => exact leads_fallbackRoute decoded escapes

/-! ## Confinement -/

/-- A file below a directory without links lies below the place of the directory. -/
theorem prefix_of_isFile_below {place : Place} (noLinks : storage.NoLinks place)
    (isRoot : storage.locate true root = .ok (.taken place .directory))
    (contained : ∀ name ∈ names, IsContained name)
    (isFile : storage.isFile (below root names) = true) :
    ∃ final bytes, storage.locate true (below root names) = .ok (.taken final (.file bytes)) ∧
      place <+: final := by
  obtain ⟨final, bytes, ends⟩ := locate_of_isFile isFile
  refine ⟨final, bytes, ends, ?_⟩
  rw [below] at ends
  split at ends
  next => cases isRoot.symm.trans ends
  next nonempty =>
    have noSlash : ∀ name ∈ names, '/' ∉ name := fun name listed => (contained name listed).noSlash
    refine noLinks.prefix_of_join isRoot (Path.isAbsolute_intercalate fun name listed =>
      ⟨(contained name listed).nonempty, noSlash name listed⟩) ?_ ends
    rw [Path.segments_ofList_intercalate nonempty noSlash]
    exact fun up => (contained _ up).notUp rfl

/-- What is served for a target does not leave the directory of the server. -/
structure Confines (storage : Storage) (root target : String) (fallback : Option String) :
    Prop where
  ofFile (path : String) (routed : route storage root target fallback = .file path) :
    storage.isFile path = true ∧
      ∃ names, path = below root names ∧ ∀ name ∈ names, IsContained name
  ofFallback (path : String) (routed : route storage root target fallback = .fallback path) :
    storage.isFile path = true ∧
      ∃ document, fallback = some document ∧ path = Path.join root document ∧
        Path.segments path = Path.frontSegments root ++ Path.segments document ∧
          ['.', '.'] ∉ Path.segments document
  forbidden : route storage root target fallback = .forbidden ↔
    ∃ path, Writes target path ∧ Escapes path
  inside (place : Place) (isRoot : storage.locate true root = .ok (.taken place .directory))
    (noLinks : storage.NoLinks place) (path : String)
    (routed : route storage root target fallback = .file path ∨
      route storage root target fallback = .fallback path) :
    ∃ final bytes, storage.locate true path = .ok (.taken final (.file bytes)) ∧
      place <+: final

/-- No target leads out of the served directory, if the fallback document does not. -/
theorem confines_route (contained : ∀ document, fallback = some document →
    Path.isAbsolute document = false ∧ ['.', '.'] ∉ Path.segments document) :
    Confines storage root target fallback := by
  have leads := leads_route storage root target fallback
  constructor
  case ofFile =>
    intro path routed
    rw [routed] at leads
    cases leads with
    | file _ _ contained isFile => exact ⟨isFile, _, rfl, contained⟩
  case ofFallback =>
    intro path routed
    rw [routed] at leads
    cases leads with
    | fallback _ _ given isFile =>
        obtain ⟨relative, noUp⟩ := contained _ given
        exact ⟨isFile, _, given, rfl, Path.segments_join relative, noUp⟩
  case forbidden =>
    constructor
    · intro routed
      rw [routed] at leads
      cases leads with
      | escape decoded escapes => exact ⟨_, decodedPath?_eq_some_iff.1 decoded, escapes⟩
    · rintro ⟨path, writes, escapes⟩
      have decoded := decodedPath?_eq_some_iff.2 writes
      generalize route storage root target fallback = routed at leads
      cases leads with
      | escape => rfl
      | noText none => cases none.symm.trans decoded
      | file decoded' stays | fallback decoded' stays | missing decoded' stays =>
          obtain rfl := Option.some.inj (decoded'.symm.trans decoded)
          exact absurd escapes stays
  case inside =>
    intro place isRoot noLinks path routed
    rcases routed with routed | routed
    · rw [routed] at leads
      cases leads with
      | file _ _ contained isFile => exact prefix_of_isFile_below noLinks isRoot contained isFile
    · rw [routed] at leads
      cases leads with
      | fallback _ _ given isFile =>
          obtain ⟨relative, noUp⟩ := contained _ given
          obtain ⟨final, bytes, ends⟩ := locate_of_isFile isFile
          exact ⟨final, bytes, ends, noLinks.prefix_of_join isRoot relative noUp ends⟩

/-- A served directory beside a file that is not served. -/
def website : Storage where
  items := [(["www"], .directory), (["www", "index.html"], .file .empty),
    (["www", "img"], .directory), (["www", "img", "a b.png"], .file .empty),
    (["secret"], .file .empty)]
  workingDirectory := []

/-- Escapes write a blank, a step up, a backslash and a percent sign. -/
theorem confines_website :
    ["/img//a%20b.png?v=2", "/img/..%2f%2e%2e/secret", "/%5c", "/%252e%252e/secret", "/"].map
        (fun target => route website "/www" target (some "./index.html")) =
      [.file "/www/img/a b.png", .forbidden, .forbidden, .fallback "/www/./index.html",
        .file "/www/index.html"] ∧
    ∀ target, Confines website "/www" target (some "./index.html") := by
  constructor
  · simp only [route, fileAt?, fallbackRoute, isFile, isDirectory, locate_eq_locateSteps]
    decide +kernel
  · intro target
    refine confines_route fun document given => ?_
    obtain rfl := Option.some.inj given
    exact ⟨by decide, by decide⟩

end Serve

end WebBundle
