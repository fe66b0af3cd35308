import Mathlib.Tactic.SplitIfs
import WebBundle.Module.Resolve

/-!
# The candidates of a specifier

The paths that a specifier may stand for are written down as one list, in the order in which they
count: for every base its name, the name with each extension, and for a directory what its package
description leads to and then its index file. This list does not stop at a file, and it tells
nothing about which of the paths are files. Resolving a specifier gives the first file in it.
-/

namespace WebBundle.Resolver

/-! ## Package descriptions -/

/-- A directory has a package description that can be read, and this names a main file. -/
structure Describes (storage : Storage) (directory main : String) : Prop where
  isWritten : ∃ text description,
    storage.readText (Path.join directory descriptionName) = .ok text ∧
      Json.parse? text = some description ∧
        description.parts? ["main"] = some [some (.string main)]
  nonempty : main ≠ ""

theorem mainOfText?_eq_some_iff {text main : String} :
    mainOfText? text = some main ↔
      (∃ description, Json.parse? text = some description ∧
        description.parts? ["main"] = some [some (.string main)]) ∧ main ≠ "" := by
  unfold mainOfText?
  cases Json.parse? text with
  | none => simp
  | some description =>
      cases parts : description.parts? ["main"] with
      | none => simp [parts]
      | some values =>
          match values with
          | [] => simp [parts]
          | [none] => simp [parts]
          | _ :: _ :: _ => simp [parts]
          | [some value] =>
              cases value with
              | string name =>
                  have nonempty : name ≠ "" ∧ name = main ↔ name = main ∧ main ≠ "" := by
                    grind
                  simpa [parts, Json.optionalText?] using nonempty
              | _ => simp [parts, Json.optionalText?]

theorem main?_eq_some_iff {storage : Storage} {directory main : String} :
    main? storage directory = some main ↔ Describes storage directory main := by
  unfold main?
  cases isText : storage.readText (Path.join directory descriptionName) with
  | error fault =>
      refine ⟨nofun, fun ⟨⟨text, _, isText', _⟩, _⟩ => ?_⟩
      rw [isText] at isText'
      cases isText'
  | ok text =>
      rw [mainOfText?_eq_some_iff]
      constructor
      · rintro ⟨⟨description, parsed, parts⟩, nonempty⟩
        exact ⟨⟨text, description, isText, parsed, parts⟩, nonempty⟩
      · rintro ⟨⟨text', description, isText', parsed, parts⟩, nonempty⟩
        rw [isText] at isText'
        obtain rfl := Except.ok.inj isText'
        exact ⟨⟨description, parsed, parts⟩, nonempty⟩

/-! ## The list of candidates -/

section

variable (resolver : Resolver) (storage : Storage)

/-- The candidates of a directory that some redirects of package descriptions led to. -/
def directoryPart (redirects : Nat) (directory : String) : List String :=
  if storage.isDirectory directory then
    (match main? storage directory with
      | some main =>
          if redirects ≤ 1 then
            resolver.candidates (Path.join directory main) ++
              if Path.normalize (Path.join directory main) = Path.normalize directory then []
              else directoryPart (redirects + 1) (Path.join directory main)
          else []
      | none => []) ++ resolver.candidates (Path.join directory "index")
  else []
  termination_by 2 - redirects

/-- The candidates of a base. -/
def basePart (base : String) : List String :=
  resolver.candidates base ++ resolver.directoryPart storage 0 base

/-- The candidates of a specifier in a script of some directory. -/
def sequence (specifier directory : String) : List String :=
  if isRelative specifier then resolver.basePart storage (Path.join directory specifier)
  else if Path.isAbsolute specifier then resolver.basePart storage specifier
  else resolver.searchPaths.flatMap fun search =>
    resolver.basePart storage (Path.join search specifier)

end

variable {resolver : Resolver} {storage : Storage}

/-- A directory stands for the first file of its part. The redirects that were made and those that
may still be made are two together. -/
theorem directory?_eq_find? {left redirects : Nat} (both : redirects + left = redirectBound)
    (directory : String) :
    resolver.directory? storage left directory =
      (resolver.directoryPart storage redirects directory).find? storage.isFile := by
  induction left generalizing redirects directory with
  | zero =>
      obtain rfl : redirects = 2 := both
      rw [directory?, directoryPart]
      by_cases there : storage.isDirectory directory = true
      · rw [if_pos there, if_pos there]
        cases main? storage directory <;> rfl
      · rw [if_neg there, if_neg there]
        rfl
  | succ left ih =>
      have shallow : redirects ≤ 1 := by
        simp only [redirectBound] at both
        omega
      have later : redirects + 1 + left = redirectBound := by omega
      rw [directory?, directoryPart]
      by_cases there : storage.isDirectory directory = true
      · rw [if_pos there, if_pos there]
        cases main? storage directory with
        | none => rfl
        | some main =>
            dsimp only
            rw [if_pos shallow, List.append_assoc, List.find?_append, List.find?_append]
            split_ifs with same
            · rfl
            · rw [ih later]
              rfl
      · rw [if_neg there, if_neg there]
        rfl

theorem path?_eq_find? (base : String) :
    resolver.path? storage base = (resolver.basePart storage base).find? storage.isFile := by
  have whole : 0 + redirectBound = redirectBound := Nat.zero_add _
  rw [path?, basePart, List.find?_append, directory?_eq_find? whole]
  rfl

theorem sequence_eq_flatMap (specifier directory : String) :
    resolver.sequence storage specifier directory =
      (resolver.bases directory specifier).flatMap (resolver.basePart storage) := by
  rw [sequence, bases]
  split_ifs
  · simp
  · simp
  · rw [List.flatMap_map]

theorem resolve?_eq_find? (specifier directory : String) :
    resolver.resolve? storage specifier directory =
      (resolver.sequence storage specifier directory).find? storage.isFile := by
  rw [resolve?, sequence_eq_flatMap, List.find?_flatMap]
  exact congrArg (List.findSome? · _) (funext path?_eq_find?)

theorem isFile_of_resolve? {specifier directory path : String}
    (resolved : resolver.resolve? storage specifier directory = some path) :
    storage.isFile path = true :=
  List.find?_some ((resolve?_eq_find? specifier directory).symm.trans resolved)

/-! ## The first file -/

/-- The path is the first file of a list. -/
structure IsFirstFile (storage : Storage) (paths : List String) (path : String) : Prop where
  isFile : storage.isFile path = true
  first : ∃ before after, paths = before ++ path :: after ∧
    ∀ other ∈ before, storage.isFile other = false

theorem isFirstFile_iff {paths : List String} {path : String} :
    IsFirstFile storage paths path ↔ paths.find? storage.isFile = some path := by
  rw [List.find?_eq_some_iff_append]
  constructor
  · rintro ⟨isFile, before, after, shape, none⟩
    exact ⟨isFile, before, after, shape, fun other listed => by rw [none other listed]; rfl⟩
  · rintro ⟨isFile, before, after, shape, none⟩
    exact ⟨isFile, before, after, shape, fun other listed => by simpa using none other listed⟩

/-- What a specifier stands for is read off its candidates. -/
structure Chooses (resolver : Resolver) (storage : Storage) (specifier directory : String) :
    Prop where
  some_iff (path : String) : resolver.resolve? storage specifier directory = some path ↔
    IsFirstFile storage (resolver.sequence storage specifier directory) path
  none_iff : resolver.resolve? storage specifier directory = none ↔
    ∀ path ∈ resolver.sequence storage specifier directory, storage.isFile path = false
  main_iff (directory main : String) :
    main? storage directory = some main ↔ Describes storage directory main

/-- A specifier stands for the first file among its candidates. -/
theorem chooses_resolve? (resolver : Resolver) (storage : Storage) (specifier directory : String) :
    Chooses resolver storage specifier directory where
  some_iff path := by rw [resolve?_eq_find?, isFirstFile_iff]
  none_iff := by
    rw [resolve?_eq_find?, List.find?_eq_none]
    simp only [Bool.not_eq_true]
  main_iff _ _ := main?_eq_some_iff

end WebBundle.Resolver
