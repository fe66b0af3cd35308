import WebBundle.Output.Error
import WebBundle.Storage.Basic

/-!
# Writing the output

The output directory is emptied on demand and made if it is missing. Every file is then written
below it; a file that cannot be written does not keep the others from being written, and the first
such failure is the error.
-/

namespace WebBundle.Output

/-- A changed storage, with the failure if there was one. -/
abbrev Written := Storage × Except OutputError Unit

def makeDirectories (storage : Storage) (path : String) : Written :=
  let (storage, result) := storage.makeDirectories path
  (storage, orInaccessible path result)

/-- Makes the directory of a file. -/
def makeParent (storage : Storage) (path : String) : Written :=
  match Path.parent? path with
  | none => (storage, .ok ())
  | some parent => makeDirectories storage parent

def writeFile (storage : Storage) (directory : String) (file : File) : Written :=
  let path := Path.join directory file.path
  match makeParent storage path with
  | (storage, .error error) => (storage, .error error)
  | (storage, .ok ()) =>
      match storage.write path file.bytes with
      | .ok storage => (storage, .ok ())
      | .error fault => (storage, .error (.inaccessible path fault))

/-- The first of two failures. -/
def firstFailure : Except OutputError Unit → Except OutputError Unit → Except OutputError Unit
  | .error error, _ => .error error
  | .ok (), result => result

def writeFiles (storage : Storage) (directory : String) : List File → Written
  | [] => (storage, .ok ())
  | file :: files =>
      let (storage, result) := writeFile storage directory file
      let (storage, later) := writeFiles storage directory files
      (storage, firstFailure result later)

/-- Removes the directory if it exists and is to be emptied. -/
def clear (storage : Storage) (directory : String) (clean : Bool) : Written :=
  if clean && storage.exists? directory then
    let (storage, result) := storage.removeDirectory directory
    (storage, orInaccessible directory result)
  else (storage, .ok ())

def write (storage : Storage) (directory : String) (files : List File) (clean : Bool) : Written :=
  match clear storage directory clean with
  | (storage, .error error) => (storage, .error error)
  | (storage, .ok ()) =>
      match makeDirectories storage directory with
      | (storage, .error error) => (storage, .error error)
      | (storage, .ok ()) => writeFiles storage directory files

end WebBundle.Output
