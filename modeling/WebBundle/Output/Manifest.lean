import WebBundle.Diagnostic.Order
import WebBundle.Json.Basic
import WebBundle.Output.File
import WebBundle.Pattern.Glob
import WebBundle.Text.Substring

/-!
# The precache manifest

The manifest lists address and revision of the files that a service worker stores ahead of use:
every output file but the worker itself, excluded files and files above a size limit, once for
every address and in the order of addresses. The written list takes the place of a marker in the
worker template, where the marker has to occur exactly once.
-/

namespace WebBundle.Output

structure ManifestEntry where
  url : String
  revision : String
  deriving DecidableEq, Repr

/-- A glob that cannot be read. -/
structure InvalidGlob where
  glob : String
  cause : Pattern.GlobError
  deriving Repr

def InvalidGlob.message (error : InvalidGlob) : String :=
  "invalid glob '" ++ error.glob ++ "': " ++ error.cause.message

/-- Reads a list of globs; the first that cannot be read is the error. -/
def readGlobs : List String → Except InvalidGlob (List Pattern.Glob)
  | [] => .ok []
  | text :: texts =>
      match Pattern.Glob.ofText text with
      | .error cause => .error ⟨text, cause⟩
      | .ok glob =>
          match readGlobs texts with
          | .error error => .error error
          | .ok globs => .ok (glob :: globs)

/-- What decides on the entries of a manifest. -/
structure PrecacheRule where
  publicPath : String
  workerPath : String
  exclude : List Pattern.Glob
  sizeLimit : Nat

def PrecacheRule.excludes (rule : PrecacheRule) (file : File) : Bool :=
  file.path = rule.workerPath || rule.exclude.any (fun glob => glob.accepts file.path)

def oversizedDiagnostic (rule : PrecacheRule) (file : File) : Diagnostic where
  severity := .warning
  code := .oversized
  message := "file is " ++ toString file.size ++ " bytes, above the precache limit of " ++
    toString rule.sizeLimit ++ " bytes; not precached"
  location := some file.path

def manifestEntry (rule : PrecacheRule) (file : File) : ManifestEntry :=
  ⟨rule.publicPath ++ file.path, file.digest.hex⟩

/-- Of neighbours with one address only the first stays. -/
def firstOfEachRun : List ManifestEntry → List ManifestEntry
  | [] => []
  | [entry] => [entry]
  | first :: second :: entries =>
      if first.url = second.url then firstOfEachRun (first :: entries)
      else first :: firstOfEachRun (second :: entries)
  termination_by entries => entries.length

def manifest (rule : PrecacheRule) (files : List File) : List ManifestEntry × List Diagnostic :=
  let candidates := files.filter fun file => !rule.excludes file
  let kept := candidates.filter fun file => file.size ≤ rule.sizeLimit
  let tooLarge := candidates.filter fun file => rule.sizeLimit < file.size
  let sorted := (kept.map (manifestEntry rule)).mergeSort
    fun a b => textLe a.url.toList b.url.toList
  (firstOfEachRun sorted, tooLarge.map (oversizedDiagnostic rule))

/-- A template that does not hold its marker exactly once. -/
structure InjectionError where
  template : String
  marker : String
  found : Nat
  deriving Repr

def InjectionError.message (error : InjectionError) : String :=
  "worker template " ++ error.template ++ " must contain '" ++ error.marker ++
  "' exactly once, found " ++ toString error.found

def manifestJson (entries : List ManifestEntry) : Json :=
  .array (entries.map fun entry =>
    .object [("url", .string entry.url), ("revision", .string entry.revision)])

/-- Puts the written manifest in the place of the marker. -/
def inject (template name marker : String) (entries : List ManifestEntry) :
    Except InjectionError String :=
  let text := template.toList
  let found := if marker.isEmpty then 0 else Text.occurrences marker.toList text
  if found = 1 then
    .ok (String.ofList (Text.replaceFirst marker.toList (manifestJson entries).compact text))
  else .error ⟨name, marker, found⟩

end WebBundle.Output
