import WebBundle.Storage.Basic
import WebBundle.Text.Percent

/-!
# Routes of requests

The target of a request leads to a file below the served directory, to the index document of a
directory, or, where there is no such file and the last name has no dot, to a fallback document. A
target that could leave the directory is forbidden.
-/

namespace WebBundle.Serve

inductive Route where
  | file (path : String)
  | fallback (path : String)
  | forbidden
  | notFound
  deriving DecidableEq, Repr

def indexName : String := "index.html"

/-- The target up to its query or fragment. -/
def pathPart (target : String) : List Char := target.toList.takeWhile fun c => c ≠ '?' && c ≠ '#'

/-- The path of a target behind its escapes, if it is text. -/
def decodedPath? (target : String) : Option String :=
  let bytes := Text.Percent.decode (String.ofList (pathPart target)).toUTF8.toList
  Text.Utf8.strict? ⟨bytes.toArray⟩

/-- A segment that could leave the directory. -/
def isForbidden (segment : List Char) : Bool :=
  segment = ['.', '.'] || segment.any fun c => c = '\\' || c.toNat = 0

/-- The names that a path steps through. -/
def namesOf (path : String) : List (List Char) :=
  (Path.segments path).filter fun segment => !Path.isStill segment

/-- The file at a path, or the index document in it. -/
def fileAt? (storage : Storage) (path : String) : Option String :=
  if storage.isFile path then some path
  else
    let index := Path.join path indexName
    if storage.isDirectory path && storage.isFile index then some index else none

def fallbackRoute (storage : Storage) (root : String) (fallback : Option String)
    (names : List (List Char)) : Route :=
  match fallback with
  | none => .notFound
  | some document =>
      let document := Path.join root document
      if '.' ∉ (names.getLast?.getD []) && storage.isFile document then .fallback document
      else .notFound

def route (storage : Storage) (root target : String) (fallback : Option String) : Route :=
  match decodedPath? target with
  | none => .notFound
  | some path =>
      if (Path.segments path).any isForbidden then .forbidden
      else
        let names := namesOf path
        match fileAt? storage (names.foldl (fun path name => Path.join path (String.ofList name))
            root) with
        | some file => .file file
        | none => fallbackRoute storage root fallback names

end WebBundle.Serve
