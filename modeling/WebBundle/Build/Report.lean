import WebBundle.Build.Assembly
import WebBundle.Output.Writing

/-!
# Building a project

A build assembles the output of a project and writes it. Nothing is written unless the output could
be assembled. The report lists what was written.
-/

namespace WebBundle.Build

structure WrittenFile where
  path : String
  kind : Output.FileKind
  size : Nat
  deriving DecidableEq, Repr

structure Report where
  outDir : String
  modules : Nat
  chunks : List EmittedChunk
  files : List WrittenFile
  manifest : List Output.ManifestEntry

/-- The written files in the order of their paths. -/
def writtenFiles (files : List Output.File) : List WrittenFile :=
  (files.map fun file => WrittenFile.mk file.path file.kind file.size).mergeSort
    fun a b => textLe a.path.toList b.path.toList

def reportOn (options : Options) (assembly : Assembly) : Report where
  outDir := options.outDir
  modules := assembly.modules
  chunks := assembly.chunks
  files := writtenFiles assembly.files
  manifest := assembly.manifest

/-- Builds a project with some collaborators. -/
def buildWith (storage : Storage) (options : Options) (collaborators : Collaborators) :
    Storage × Reporting BuildError Report :=
  let step := assemble storage options collaborators
  match step.result with
  | .error error => (storage, ⟨step.diagnostics, .error error⟩)
  | .ok assembly =>
      match Output.write storage options.outDir assembly.files options.clean with
      | (storage, .error error) => (storage, ⟨step.diagnostics, .error (.output error)⟩)
      | (storage, .ok ()) => (storage, ⟨step.diagnostics, .ok (reportOn options assembly)⟩)

def build (storage : Storage) (options : Options) : Storage × Reporting BuildError Report :=
  buildWith storage options {}

theorem buildWith_of_assemble_error {storage : Storage} {options : Options}
    {collaborators : Collaborators} {error : BuildError}
    (h : (assemble storage options collaborators).result = .error error) :
    (buildWith storage options collaborators).1 = storage := by
  simp [buildWith, h]

end WebBundle.Build
