import WebBundle.Json.Reader
import WebBundle.Json.Record
import WebBundle.Path.Resource
import WebBundle.Storage.Basic

/-!
# Resolving specifiers to files

A specifier that begins with a dot step stands for a path below the importing directory, an
absolute one for itself, and every other one for a path below one of the search directories. A path
stands for the file of its name, for that name with one of the extensions, or, if it is a
directory, for the main file that its package description names and for its index file. The first
of these that exists is the answer.
-/

namespace WebBundle

structure Resolver where
  searchPaths : List String
  extensions : List String

namespace Resolver

/-- The name and the name with each extension. -/
def candidates (resolver : Resolver) (path : String) : List String :=
  path :: resolver.extensions.map fun extension => path ++ extension

def file? (resolver : Resolver) (storage : Storage) (path : String) : Option String :=
  (resolver.candidates path).find? storage.isFile

def descriptionName : String := "package.json"

/-- The main file that a package description names. -/
def mainOfText? (text : String) : Option String := do
  let description ← Json.parse? text
  match ← description.parts? ["main"] with
  | [some main] =>
      match ← main.optionalText? with
      | some name => if name.isEmpty then none else some name
      | none => none
  | _ => none

/-- The main file that the description in a directory names. A description that cannot be read
names none. -/
def main? (storage : Storage) (directory : String) : Option String :=
  match storage.readText (Path.join directory descriptionName) with
  | .ok text => mainOfText? text
  | .error _ => none

def index? (resolver : Resolver) (storage : Storage) (directory : String) : Option String :=
  resolver.file? storage (Path.join directory "index")

/-- The file that a directory stands for. A description may lead to another directory with a
description of its own, as often as `redirects` says; it leads nowhere if it leads to the same
directory. -/
def directory? (resolver : Resolver) (storage : Storage) :
    (redirects : Nat) → (directory : String) → Option String
  | 0, directory =>
      if storage.isDirectory directory then resolver.index? storage directory else none
  | redirects + 1, directory =>
      if storage.isDirectory directory then
        match main? storage directory with
        | none => resolver.index? storage directory
        | some main =>
            let target := Path.join directory main
            let beyond :=
              if Path.normalize target = Path.normalize directory then none
              else directory? resolver storage redirects target
            (resolver.file? storage target).or (beyond.or (resolver.index? storage directory))
      else none

/-- The number of descriptions that may be followed one after the other. -/
def redirectBound : Nat := 2

def path? (resolver : Resolver) (storage : Storage) (path : String) : Option String :=
  (resolver.file? storage path).or (resolver.directory? storage redirectBound path)

/-- The specifier begins with a dot step. -/
def isRelative (specifier : String) : Bool :=
  specifier = "." || specifier = ".." ||
    "./".toList.isPrefixOf specifier.toList || "../".toList.isPrefixOf specifier.toList

/-- The paths that a specifier may stand for. -/
def bases (resolver : Resolver) (directory specifier : String) : List String :=
  if isRelative specifier then [Path.join directory specifier]
  else if Path.isAbsolute specifier then [specifier]
  else resolver.searchPaths.map fun search => Path.join search specifier

/-- The file that a specifier stands for in a script of some directory. -/
def resolve? (resolver : Resolver) (storage : Storage) (specifier directory : String) :
    Option String :=
  (resolver.bases directory specifier).findSome? fun base => resolver.path? storage base

theorem isFile_of_file? {resolver : Resolver} {storage : Storage} {path found : String}
    (h : resolver.file? storage path = some found) : storage.isFile found = true := by
  unfold file? at h
  exact List.find?_some h

end Resolver

end WebBundle
