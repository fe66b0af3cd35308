import WebBundle.Proofs.Serve.Confinement
import WebBundle.Proofs.Text.Encoding

/-!
# Addresses of files

An address spells the names of a path one after the other, each behind a slash, perhaps with more
slashes anywhere and with a query or a fragment behind them. Escapes are decoded before the path is
cut at its slashes, so a name may be spelled in any way that keeps the slashes, the question mark
and the number sign out of it. Whatever its characters are, a file below the served directory is
found at every address that spells its names, and escaping the names makes such an address.
-/

namespace WebBundle.Serve

open Text

variable {storage : Storage} {root target : String} {names : List (List Char)}
  {text name : List Char}

/-! ## Spelled names -/

/-- The text stands for the name behind its escapes, and ends neither the name nor the path. -/
structure Spells (text name : List Char) : Prop where
  writes : Percent.Writes (text.flatMap String.utf8EncodeChar) (name.flatMap String.utf8EncodeChar)
  inside : ∀ c ∈ text, c ≠ '/' ∧ c ≠ '?' ∧ c ≠ '#'

/-- The names are spelled one after the other, each behind at least one slash. -/
inductive SpellsAll : (text : List Char) → (names : List (List Char)) → Prop where
  | nil : SpellsAll [] []
  | slash {text : List Char} {names : List (List Char)} (rest : SpellsAll text names) :
      SpellsAll ('/' :: text) names
  | name {first text name : List Char} {names : List (List Char)} (spells : Spells first name)
      (rest : SpellsAll text names) : SpellsAll ('/' :: (first ++ text)) (name :: names)

/-- The target spells the names up to a query or a fragment. -/
def IsAddress (target : String) (names : List (List Char)) : Prop :=
  ∃ text rest, target.toList = text ++ rest ∧ SpellsAll text names ∧
    ∀ c, rest.head? = some c → c = '?' ∨ c = '#'

/-- The escaped names behind slashes. -/
def encoded (names : List (List Char)) : String :=
  String.ofList ('/' :: List.intercalate ['/'] (names.map Percent.encode))

theorem spells_encode (name : List Char) : Spells (Percent.encode name) name where
  writes := Percent.writes_encode name
  inside := by
    intro c member
    rcases Percent.mem_encode member with unreserved | rfl
    · refine ⟨?_, ?_, ?_⟩ <;> rintro rfl <;> exact absurd unreserved (by decide)
    · decide

theorem spellsAll_encoded (names : List (List Char)) :
    SpellsAll ('/' :: List.intercalate ['/'] (names.map Percent.encode)) names := by
  induction names with
  | nil => exact .slash .nil
  | cons name names ih =>
      cases names with
      | nil =>
          rw [List.map_singleton, List.intercalate_singleton,
            ← List.append_nil (Percent.encode name)]
          exact .name (spells_encode name) .nil
      | cons next names =>
          rw [List.map_cons, List.intercalate_cons_of_ne_nil (by simp), List.append_assoc]
          exact .name (spells_encode name) ih

theorem isAddress_encoded (names : List (List Char)) : IsAddress (encoded names) names :=
  ⟨_, [], by rw [encoded, String.toList_ofList, List.append_nil], spellsAll_encoded names, nofun⟩

namespace SpellsAll

theorem begins (spells : SpellsAll text names) : text = [] ∨ ∃ behind, text = '/' :: behind := by
  cases spells with
  | nil => exact .inl rfl
  | slash => exact .inr ⟨_, rfl⟩
  | name => exact .inr ⟨_, rfl⟩

theorem inside (spells : SpellsAll text names) : ∀ c ∈ text, c ≠ '?' ∧ c ≠ '#' := by
  induction spells with
  | nil => exact nofun
  | slash _ ih => exact List.forall_mem_cons.2 ⟨by decide, ih⟩
  | name spells _ ih =>
      refine List.forall_mem_cons.2 ⟨by decide, fun c member => ?_⟩
      rcases List.mem_append.1 member with first | later
      · exact (spells.inside c first).2
      · exact ih c later

/-- A slash is no digit, so no escape goes on behind a name. -/
theorem stops (spells : SpellsAll text names) :
    ∀ byte, (text.flatMap String.utf8EncodeChar).head? = some byte →
      Hex.value? (Char.ofNat byte.toNat) = none := by
  intro byte first
  rcases spells.begins with rfl | ⟨behind, rfl⟩
  · cases first
  · obtain rfl : UInt8.ofNat '/'.toNat = byte := Option.some.inj first
    decide

end SpellsAll

/-! ## The path behind the escapes -/

theorem namesOf_append (before after : List Char) :
    namesOf (String.ofList (before ++ '/' :: after)) =
      namesOf (String.ofList before) ++ namesOf (String.ofList after) := by
  simp only [namesOf, Path.segments, String.toList_ofList, pieces_append, List.filter_append]

theorem namesOf_cons (path : List Char) :
    namesOf (String.ofList ('/' :: path)) = namesOf (String.ofList path) :=
  namesOf_append [] path

theorem namesOf_ofList (contained : IsContained name) : namesOf (String.ofList name) = [name] := by
  have moves : Path.isStill name = false := by
    simp [Path.isStill, contained.nonempty, contained.notDot]
  rw [namesOf, Path.segments_ofList contained.noSlash, List.filter_cons_of_pos (by rw [moves]; rfl),
    List.filter_nil]

/-- What the spelled names are behind their escapes: a path of these names. -/
structure IsDecoded (text path : List Char) (names : List (List Char)) : Prop where
  writes : Percent.Writes (text.flatMap String.utf8EncodeChar) (path.flatMap String.utf8EncodeChar)
  begins : path = [] ∨ ∃ behind, path = '/' :: behind
  namesOf_eq : namesOf (String.ofList path) = names
  inside : ∀ c ∈ path, c = '/' ∨ ∃ name ∈ names, c ∈ name

theorem IsDecoded.slash {path : List Char} (decoded : IsDecoded text path names) :
    IsDecoded ('/' :: text) ('/' :: path) names where
  writes := Percent.Writes.itself (Percent.percent_not_mem_utf8EncodeChar (by decide))
    decoded.writes
  begins := .inr ⟨path, rfl⟩
  namesOf_eq := (namesOf_cons path).trans decoded.namesOf_eq
  inside := List.forall_mem_cons.2 ⟨.inl rfl, decoded.inside⟩

/-- A path goes on behind a name with a slash, or ends there. -/
theorem IsDecoded.spelled {first path : List Char} (spells : Spells first name)
    (contained : IsContained name) (rest : SpellsAll text names)
    (decoded : IsDecoded text path names) :
    IsDecoded ('/' :: (first ++ text)) ('/' :: (name ++ path)) (name :: names) where
  writes := by
    rw [List.flatMap_cons, List.flatMap_append, List.flatMap_cons, List.flatMap_append]
    exact .itself (Percent.percent_not_mem_utf8EncodeChar (by decide))
      (spells.writes.append decoded.writes rest.stops)
  begins := .inr ⟨name ++ path, rfl⟩
  namesOf_eq := by
    rw [namesOf_cons]
    rcases decoded.begins with rfl | ⟨behind, rfl⟩
    · have last : [] = names := decoded.namesOf_eq
      rw [List.append_nil, namesOf_ofList contained, last]
    · have later := decoded.namesOf_eq
      rw [namesOf_cons] at later
      rw [namesOf_append, namesOf_ofList contained, later]
      rfl
  inside := by
    refine List.forall_mem_cons.2 ⟨.inl rfl, fun c member => ?_⟩
    rcases List.mem_append.1 member with here | later
    · exact .inr ⟨name, List.mem_cons_self, here⟩
    · refine (decoded.inside c later).imp_right ?_
      rintro ⟨other, listed, there⟩
      exact ⟨other, List.mem_cons_of_mem name listed, there⟩

theorem SpellsAll.exists_isDecoded (spells : SpellsAll text names)
    (contained : ∀ name ∈ names, IsContained name) : ∃ path, IsDecoded text path names := by
  induction spells with
  | nil => exact ⟨[], .nil, .inl rfl, rfl, nofun⟩
  | slash _ ih =>
      obtain ⟨path, decoded⟩ := ih contained
      exact ⟨_, decoded.slash⟩
  | name spells rest ih =>
      obtain ⟨here, later⟩ := List.forall_mem_cons.1 contained
      obtain ⟨path, decoded⟩ := ih later
      exact ⟨_, decoded.spelled spells here rest⟩

theorem IsDecoded.not_escapes {path : List Char} (decoded : IsDecoded text path names)
    (contained : ∀ name ∈ names, IsContained name) : ¬Escapes (String.ofList path) := by
  have noSpecial {c : Char} (other : c ≠ '/') (absent : ∀ name ∈ names, c ∉ name) :
      c ∉ (String.ofList path).toList := by
    rw [String.toList_ofList]
    intro member
    rcases decoded.inside c member with slash | ⟨name, listed, here⟩
    · exact other slash
    · exact absent name listed here
  rintro (up | backslash | null)
  · have listed : ['.', '.'] ∈ names := by
      rw [← decoded.namesOf_eq]
      exact List.mem_filter.2 ⟨up, rfl⟩
    exact (contained _ listed).notUp rfl
  · exact noSpecial (by decide) (fun name listed => (contained name listed).noBackslash) backslash
  · exact noSpecial (by decide) (fun name listed => (contained name listed).noNull) null

/-! ## Routes to spelled names -/

/-- A file is found at every address that spells its names, and it has such an address. -/
structure Addressable (storage : Storage) (root : String) (names : List (List Char)) : Prop where
  address : IsAddress (encoded names) names
  routed (target : String) (isAddress : IsAddress target names) (fallback : Option String) :
    route storage root target fallback = .file (below root names)

theorem addressable_of_isFile (contained : ∀ name ∈ names, IsContained name)
    (isFile : storage.isFile (below root names) = true) : Addressable storage root names where
  address := isAddress_encoded names
  routed := by
    rintro target ⟨text, rest, split, spells, behind⟩ fallback
    obtain ⟨path, decoded⟩ := spells.exists_isDecoded contained
    have isPath : decodedPath? target = some (String.ofList path) := by
      refine decodedPath?_eq_some_iff.2 ⟨text, rest, split, spells.inside, behind, ?_⟩
      rw [String.toList_ofList]
      exact decoded.writes
    have allowed : ¬(Path.segments (String.ofList path)).any isForbidden = true :=
      mt any_isForbidden_iff.1 (decoded.not_escapes contained)
    have there : fileAt? storage (below root names) = some (below root names) := by
      rw [fileAt?, if_pos isFile]
    simp only [route, isPath, if_neg allowed, decoded.namesOf_eq, foldl_join_eq_below contained,
      there]

/-! ## A file with an unusual name -/

def handbook : Storage where
  items := [(["www"], .directory), (["www", "docs"], .directory),
    (["www", "docs", "50% #1? ü.txt"], .file .empty)]
  workingDirectory := []

def handbookNames : List (List Char) := ["docs".toList, "50% #1? ü.txt".toList]

theorem isContained_handbookNames : ∀ name ∈ handbookNames, IsContained name := by
  refine List.forall_mem_cons.2 ⟨?_, List.forall_mem_singleton.2 ?_⟩
  · exact ⟨by decide, by decide, by decide, by decide, by decide, by decide⟩
  · exact ⟨by decide, by decide, by decide, by decide, by decide, by decide⟩

/-- Some of the characters are escaped and some are not, and there are slashes without a name. -/
theorem isAddress_handbook :
    IsAddress "//docs//50%25 %231%3f ü.txt/?v=2#top" handbookNames := by
  have docs : Spells "docs".toList "docs".toList :=
    ⟨Percent.decode_eq_iff.1 (by decide +kernel), by simp⟩
  have page : Spells "50%25 %231%3f ü.txt".toList "50% #1? ü.txt".toList :=
    ⟨Percent.decode_eq_iff.1 (by decide +kernel), by simp⟩
  refine ⟨_, '?' :: "v=2#top".toList, ?_,
    .slash (.name docs (.slash (.name page (.slash .nil)))), fun c first => ?_⟩
  · decide +kernel
  · exact .inl (Option.some.inj first).symm

theorem addressable_handbook :
    (∀ name ∈ handbookNames, IsContained name) ∧
      handbook.isFile (below "/www" handbookNames) = true ∧
        encoded handbookNames = "/docs/50%25%20%231%3F%20%C3%BC.txt" ∧
          Addressable handbook "/www" handbookNames ∧
            route handbook "/www" "//docs//50%25 %231%3f ü.txt/?v=2#top" (some "index.html") =
              .file "/www/docs/50% #1? ü.txt" := by
  have isFile : handbook.isFile (below "/www" handbookNames) = true := by
    rw [Storage.isFile, Storage.locate_eq_locateSteps]
    decide +kernel
  have addressable := addressable_of_isFile isContained_handbookNames isFile
  refine ⟨isContained_handbookNames, isFile, by decide +kernel, addressable, ?_⟩
  rw [addressable.routed _ isAddress_handbook]
  decide +kernel

end WebBundle.Serve
