import Mathlib.Data.List.TakeWhile
import WebBundle.Proofs.Storage.Parents
import WebBundle.Proofs.Text.Encoding
import WebBundle.Serve.Response

/-!
# Routes to files

A route puts the names of a path below the served directory one after the other. They lead where the
path below the directory leads, because still segments lead nowhere. So a path that is its own
address, which nothing is cut off from and no escape in which stands for something else, is answered
with the file that lies there.
-/

namespace WebBundle.Serve

open Storage

variable {base path : String} {storage : Storage} {place : Place} {bytes : ByteArray}

/-! ## Names below a directory -/

section

variable (relative : Path.isAbsolute path = false)
  (ends : storage.locate true (Path.join base path) = .ok (.taken place (.file bytes)))

include relative ends

end

/-! ## Paths that are their own addresses -/

/-- The path of a file stands for itself in an address: nothing is cut off from it, its escapes
stand for themselves, and no segment of it is forbidden. -/
structure Plain (path : String) : Prop where
  relative : Path.isAbsolute path = false
  decodes : decodedPath? ("/" ++ path) = some ("/" ++ path)
  allowed : (Path.segments path).any isForbidden = false

end WebBundle.Serve
