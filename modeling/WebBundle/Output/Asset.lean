import WebBundle.Config.Basic
import WebBundle.Output.Error
import WebBundle.Path.Resource
import WebBundle.Storage.Basic

/-!
# Assets

Assets are files that are copied as they are. A mapping copies one file, or all files below a
directory whose path in it no glob ignores. Links below a directory are not followed. Where several
mappings copy to one path the last one wins, and every replacement is reported.
-/

namespace WebBundle.Output

structure Asset where
  path : String
  source : String
  bytes : ByteArray
  digest : ContentDigest

/-- A file to copy: where it lies and its path in the output. -/
structure PlannedAsset where
  source : String
  path : String
  deriving DecidableEq, Repr

/-- The path of a file in the directory that a mapping copies to. -/
def destination (directory relative : String) : String :=
  if directory.isEmpty then relative else directory ++ "/" ++ relative

/-- Names in dictionary order. -/
def namesLe : List String → List String → Bool
  | [], _ => true
  | _ :: _, [] => false
  | a :: as, b :: bs => textLe a.toList b.toList && (a ≠ b || namesLe as bs)

/-- The files below a directory, by their names below it. What lies in a directory comes where its
name does. -/
def filesBelow (storage : Storage) (place : Storage.Place) : List (List String) :=
  (storage.items.filterMap fun (other, item) =>
    match item with
    | .file _ => if place.isPrefixOf other then some (other.drop place.length) else none
    | _ => none).mergeSort namesLe

/-- The files that a path names or contains, by their names below it. -/
def filesAt (storage : Storage) (path : String) : List (List String) :=
  match storage.locate true path with
  | .ok (.taken place .directory) => filesBelow storage place
  | _ => []

def planFile (mapping : AssetMapping) (ignore : List Pattern.Glob) (names : List String) :
    Option PlannedAsset :=
  let relative := Path.normalize ("/".intercalate names)
  if ignore.any fun glob => glob.accepts relative then none
  else some ⟨names.foldl Path.join mapping.source, destination mapping.target relative⟩

/-- The files that a mapping copies. -/
def planMapping (storage : Storage) (mapping : AssetMapping) :
    Except OutputError (List PlannedAsset) :=
  if storage.isFile mapping.source then
    let name := String.ofList ((Path.fileName? mapping.source).getD [])
    .ok [⟨mapping.source, destination mapping.target name⟩]
  else if storage.isDirectory mapping.source then
    match readGlobs mapping.ignore with
    | .error error => .error (.invalidGlob error)
    | .ok ignore => .ok ((filesAt storage mapping.source).filterMap (planFile mapping ignore))
  else .error (.missingSource mapping.source)

def planMappings (storage : Storage) : List AssetMapping → Except OutputError (List PlannedAsset)
  | [] => .ok []
  | mapping :: mappings =>
      match planMapping storage mapping with
      | .error error => .error error
      | .ok planned =>
          match planMappings storage mappings with
          | .error error => .error error
          | .ok others => .ok (planned ++ others)

def readAsset (storage : Storage) (planned : PlannedAsset) : Except OutputError Asset :=
  match storage.read planned.source with
  | .error fault => .error (.inaccessible planned.source fault)
  | .ok bytes => .ok ⟨planned.path, planned.source, bytes, ContentDigest.ofBytes bytes⟩

/-- The assets up to the first that cannot be read, and the error of that one. -/
def readAssets (storage : Storage) : List PlannedAsset → List Asset × Option OutputError
  | [] => ([], none)
  | planned :: others =>
      match readAsset storage planned with
      | .error error => ([], some error)
      | .ok asset =>
          let (assets, error) := readAssets storage others
          (asset :: assets, error)

def replacedAssetDiagnostic (old new : Asset) : Diagnostic where
  severity := .warning
  code := .duplicate
  message := "asset written by more than one mapping; the last mapping wins"
  location := some new.path
  notes := ["replaced " ++ old.source, "kept " ++ new.source]

/-- The last asset of every path, in the order of paths. -/
def keptAssets (assets : List Asset) : List Asset :=
  (Keyed.lasts Asset.path assets).mergeSort fun a b => textLe a.path.toList b.path.toList

/-- The assets of some mappings, and the report on those that are replaced. -/
def collectAssets (storage : Storage) (mappings : List AssetMapping) :
    List Diagnostic × Except OutputError (List Asset) :=
  match planMappings storage mappings with
  | .error error => ([], .error error)
  | .ok planned =>
      let (assets, error) := readAssets storage planned
      let replaced := (Keyed.replacements Asset.path [] assets).map fun (old, new) =>
        replacedAssetDiagnostic old new
      match error with
      | some error => (replaced, .error error)
      | none => (replaced, .ok (keptAssets assets))

end WebBundle.Output
