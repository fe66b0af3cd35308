import WebBundle.Path.Lexical
import WebBundle.Storage.Fault
import WebBundle.Text.Utf8

/-!
# Stored files

A storage is a finite tree of directories, files and symbolic links, kept as a table from places to
items. A place is the list of names from the root. A path is walked step by step from the root
or from the working directory: `..` goes to the parent of the place reached so far, and a link is
replaced by its target.
-/

namespace WebBundle

namespace Storage

inductive Item where
  | file (bytes : ByteArray)
  | directory
  | link (target : String)

/-- The names from the root. -/
abbrev Place := List String

/-- Where a walk ends: at an item, or at a free name in a directory, perhaps with slashes behind
the name. -/
inductive Location where
  | taken (place : Place) (item : Item)
  | vacant (parent : Place) (name : String) (slash : Bool)

end Storage

open Storage

structure Storage where
  items : List (Place × Item)
  workingDirectory : Place

namespace Storage

def empty : Storage := ⟨[], []⟩

/-- The item at a place. The root is always a directory. -/
def itemAt? (storage : Storage) (place : Place) : Option Item :=
  if place.isEmpty then some .directory else storage.items.lookup place

/-- The steps that a path names. -/
def stepsOf (path : String) : List String := (Path.segments path).map String.ofList

/-- The bounds on the bytes of a name and of a path. -/
def nameBound : Nat := 255
def pathBound : Nat := 4096
def linkBound : Nat := 40

/-- Walks from a place. `links` counts the links that may still be followed; a link at the end is
followed only on demand. -/
def walk (storage : Storage) (follow : Bool) (links : Nat) (place : Place) (steps : List String) :
    Except Fault Location :=
  match storage.itemAt? place, steps with
  | none, _ => .error .missing
  | some item, [] => .ok (.taken place item)
  | some .directory, step :: rest =>
      if step = "" || step = "." then walk storage follow links place rest
      else if step = ".." then walk storage follow links place.dropLast rest
      else if nameBound < step.utf8ByteSize then .error .nameTooLong
      else
        match storage.itemAt? (place ++ [step]) with
        | none =>
            if rest.all (· = "") then .ok (.vacant place step !rest.isEmpty) else .error .missing
        | some (.link target) =>
            if rest.isEmpty && !follow then .ok (.taken (place ++ [step]) (.link target))
            else
              match links with
              | 0 => .error .tooManyLinks
              | links + 1 =>
                  if target.isEmpty then .error .missing
                  else
                    walk storage follow links (if Path.isAbsolute target then [] else place)
                      (stepsOf target ++ rest)
        | some _ => walk storage follow links (place ++ [step]) rest
  | some _, _ :: _ => .error .notDirectory
  termination_by (links, steps.length)

/-- Walks a path. -/
def locate (storage : Storage) (follow : Bool) (path : String) : Except Fault Location :=
  if path.isEmpty then .error .missing
  else if path.toList.any (·.toNat = 0) then .error .invalidName
  else if pathBound ≤ path.utf8ByteSize then .error .nameTooLong
  else
    walk storage follow linkBound (if Path.isAbsolute path then [] else storage.workingDirectory)
      (stepsOf path)

/-- The absolute path of a place, free of links and dot steps. -/
def pathOf (place : Place) : String := "/" ++ "/".intercalate place

/-- The absolute path of the directory that a path leads to. -/
def absolute? (storage : Storage) (path : String) : Option String :=
  match storage.locate true path with
  | .ok (.taken place .directory) => some (pathOf place)
  | _ => none

def isFile (storage : Storage) (path : String) : Bool :=
  match storage.locate true path with
  | .ok (.taken _ (.file _)) => true
  | _ => false

def isDirectory (storage : Storage) (path : String) : Bool :=
  match storage.locate true path with
  | .ok (.taken _ .directory) => true
  | _ => false

def exists? (storage : Storage) (path : String) : Bool :=
  match storage.locate true path with
  | .ok (.taken _ _) => true
  | _ => false

def read (storage : Storage) (path : String) : Except Fault ByteArray :=
  match storage.locate true path with
  | .ok (.taken _ (.file bytes)) => .ok bytes
  | .ok (.taken _ _) => .error .isDirectory
  | .ok (.vacant _ _ _) => .error .missing
  | .error fault => .error fault

/-- Reads a file as text. -/
def readText (storage : Storage) (path : String) : Except Fault String :=
  match storage.read path with
  | .error fault => .error fault
  | .ok bytes =>
      match Text.Utf8.strict? bytes with
      | some text => .ok text
      | none => .error .notText

/-- The names in the directory at a place. -/
def namesAt (storage : Storage) (place : Place) : List String :=
  (storage.items.filterMap fun (other, _) =>
    if other.dropLast = place then other.getLast? else none).mergeSort fun a b => a ≤ b

/-- Puts an item at a place. -/
def put (storage : Storage) (place : Place) (item : Item) : Storage :=
  { storage with
    items := (place, item) :: storage.items.filter fun (other, _) => other ≠ place }

/-- Removes a place with everything below it. -/
def removeAt (storage : Storage) (place : Place) : Storage :=
  { storage with items := storage.items.filter fun (other, _) => !place.isPrefixOf other }

/-- Removes everything below a place. -/
def clearAt (storage : Storage) (place : Place) : Storage :=
  { storage with
    items := storage.items.filter fun (other, _) => other = place || !place.isPrefixOf other }

def makeDirectory (storage : Storage) (path : String) : Except Fault Storage :=
  match storage.locate false path with
  | .ok (.vacant parent name _) => .ok (storage.put (parent ++ [name]) .directory)
  | .ok (.taken _ _) => .error .occupied
  | .error fault => .error fault

/-- Makes a directory, unless the path names one already. -/
def ensureDirectory (storage : Storage) (path : String) : Except Fault Storage :=
  match storage.makeDirectory path with
  | .ok storage => .ok storage
  | .error fault => if storage.isDirectory path then .ok storage else .error fault

/-- Makes a directory and the missing ones above it. Every round goes one step up. Directories that
were made before a fault stay. -/
def makeDirectoriesIn (storage : Storage) :
    (rounds : Nat) → (path : String) → Storage × Except Fault Unit
  | 0, _ => (storage, .error .missing)
  | rounds + 1, path =>
      if path.isEmpty then (storage, .ok ())
      else
        match storage.makeDirectory path with
        | .ok storage => (storage, .ok ())
        | .error .missing =>
            match Path.parent? path with
            | none => (storage, .error .missing)
            | some parent =>
                match makeDirectoriesIn storage rounds parent with
                | (storage, .error fault) => (storage, .error fault)
                | (storage, .ok ()) =>
                    match storage.ensureDirectory path with
                    | .ok storage => (storage, .ok ())
                    | .error fault => (storage, .error fault)
        | .error fault =>
            if storage.isDirectory path then (storage, .ok ()) else (storage, .error fault)

def makeDirectories (storage : Storage) (path : String) : Storage × Except Fault Unit :=
  storage.makeDirectoriesIn (path.length + 1) path

/-- The path without the slashes at its end, and whether there were any. -/
def splitEndSlashes (path : String) : String × Bool :=
  let kept := (path.toList.reverse.dropWhile (· = '/')).reverse
  (String.ofList kept, kept.length < path.length)

/-- Writes a file, which may exist already. There is no file at a path that ends with slashes, nor
at a link whose target does. -/
def write (storage : Storage) (path : String) (bytes : ByteArray) : Except Fault Storage :=
  let (bare, slash) := splitEndSlashes path
  match storage.locate true (if bare.isEmpty then path else bare) with
  | .error fault => .error fault
  | .ok (.taken place (.file _)) =>
      if slash then .error .isDirectory else .ok (storage.put place (.file bytes))
  | .ok (.taken _ _) => .error .isDirectory
  | .ok (.vacant parent name ending) =>
      if slash || ending then .error .isDirectory
      else .ok (storage.put (parent ++ [name]) (.file bytes))

/-- Makes a symbolic link at a free name. -/
def makeLink (storage : Storage) (target path : String) : Except Fault Storage :=
  match storage.locate false path with
  | .ok (.vacant parent name _) => .ok (storage.put (parent ++ [name]) (.link target))
  | .ok (.taken _ _) => .error .occupied
  | .error fault => .error fault

/-- What removing a directory by the last step of its path comes to after everything in it was
removed. The step `.` cannot be removed, and what `..` names is not empty. -/
def removeEmptied (storage : Storage) (path : String) (place : Place) :
    Storage × Except Fault Unit :=
  match (Path.segments path).reverse.dropWhile List.isEmpty with
  | ['.'] :: _ => (storage, .error .invalidArgument)
  | ['.', '.'] :: _ => (storage, .error .notEmpty)
  | _ => (storage.removeAt place, .ok ())

/-- Removes a directory with everything in it. A link is removed itself. -/
def removeDirectory (storage : Storage) (path : String) : Storage × Except Fault Unit :=
  match storage.locate false path with
  | .error fault => (storage, .error fault)
  | .ok (.vacant _ _ _) => (storage, .error .missing)
  | .ok (.taken _ (.file _)) => (storage, .error .notDirectory)
  | .ok (.taken place (.link _)) => (storage.removeAt place, .ok ())
  | .ok (.taken place .directory) => removeEmptied (storage.clearAt place) path place

/-- Removes whatever a path names, and says whether there was anything. -/
def remove (storage : Storage) (path : String) : Storage × Bool :=
  match storage.locate false path with
  | .ok (.taken place _) => (storage.removeAt place, true)
  | _ => (storage, false)

end Storage

end WebBundle
