import WebBundle.Diagnostic.Basic
import WebBundle.Digest.Content
import WebBundle.Keyed

/-!
# Output files

A build ends in a list of files with paths below the output directory. Where several files have
one path, the last one stays and every replacement is reported.
-/

namespace WebBundle.Output

inductive FileKind where
  | chunk
  | asset
  | html
  | worker
  deriving DecidableEq, Repr

namespace FileKind

def name : FileKind → String
  | .chunk => "chunk"
  | .asset => "asset"
  | .html => "html"
  | .worker => "worker"

/-- The name as it begins a sentence. -/
def title : FileKind → String
  | .chunk => "Chunk"
  | .asset => "Asset"
  | .html => "Html"
  | .worker => "Worker"

end FileKind

structure File where
  path : String
  bytes : ByteArray
  digest : ContentDigest
  kind : FileKind

namespace File

def size (file : File) : Nat := file.bytes.size

/-- A file whose digest is that of its bytes. -/
def ofBytes (path : String) (bytes : ByteArray) (kind : FileKind) : File :=
  ⟨path, bytes, ContentDigest.ofBytes bytes, kind⟩

end File

def replacedDiagnostic (old new : File) : Diagnostic where
  severity := .warning
  code := .duplicate
  message := old.kind.title ++ " output replaced by " ++ new.kind.title ++
    " output at the same path"
  location := some new.path

/-- The files that stay, and the report on those that do not. -/
def resolveCollisions (files : List File) : List File × List Diagnostic :=
  (Keyed.lasts File.path files,
    (Keyed.replacements File.path [] files).map fun (old, new) => replacedDiagnostic old new)

end WebBundle.Output
