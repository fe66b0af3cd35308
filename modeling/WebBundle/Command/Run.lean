import WebBundle.Build.Plan
import WebBundle.Build.Report
import WebBundle.Command.Line
import WebBundle.Diagnostic.Order
import WebBundle.Diagnostic.Text
import WebBundle.Serve.Response

/-!
# Running commands

A command works on the stored files and ends with two texts and an exit code: 0 for success, 1 for
a failure, 2 for a command line that is refused. Diagnostics go to the error text. A report in JSON
and a plan go to the output text.
-/

namespace WebBundle.Command

open Build

/-- What a command comes to. `site` is what remains to be served once the texts are printed. -/
structure Outcome where
  storage : Storage
  code : Nat
  output : String := ""
  errors : String := ""
  site : Option Serve.Site := none

def renderAll (common : Common) (format : Format) (diagnostics : List Diagnostic) : String :=
  let shown := diagnostics.filter fun diagnostic =>
    !common.quiet || diagnostic.severity = .error
  match format with
  | .text => Diagnostic.renderAllText common.colour shown
  | .json => Diagnostic.renderAllJson shown

def countOf (severity : Severity) (diagnostics : List Diagnostic) : Nat :=
  (diagnostics.filter fun diagnostic => diagnostic.severity = severity).length

def chunkJson (chunk : EmittedChunk) : Json :=
  .object [("id", .int chunk.id), ("name", .string chunk.name), ("kind", .string chunk.kind.name),
    ("hash", .string chunk.digest.hex), ("filename", .string chunk.fileName)]

def fileJson (file : WrittenFile) : Json :=
  .object [("path", .string file.path), ("kind", .string file.kind.name), ("size", .int file.size)]

def reportJson (report : Report) : Json :=
  .object [("out_dir", .string report.outDir), ("modules", .int report.modules),
    ("chunks", .array (report.chunks.map chunkJson)),
    ("files", .array (report.files.map fileJson)),
    ("manifest", Output.manifestJson report.manifest)]

/-- The report in JSON, with a line break. -/
def outcomeJson (report : Option Report) (diagnostics : List Diagnostic) : String :=
  (Json.object [("success", .bool report.isSome),
    ("report", (report.map reportJson).getD .null),
    ("diagnostics", .array (diagnostics.map Diagnostic.toJson))]).renderPretty ++ "\n"

def loadOptions (storage : Storage) (directory : String) (common : Common) (mode : Option Mode)
    (outDir : Option String) : Except BuildError Options :=
  (Options.load storage common.config directory ⟨mode, outDir⟩).mapError .config

/-- A build that failed. `before` was printed before it did. -/
def failedBuild (storage : Storage) (common : Common) (format : Format) (before : String)
    (diagnostics : List Diagnostic) : Outcome :=
  match format with
  | .text =>
      { storage
        code := 1
        errors := before ++ renderAll common .text diagnostics ++ "   Result: " ++
          toString (countOf .error diagnostics) ++ " error(s), " ++
          toString (countOf .warning diagnostics) ++ " warning(s)\n" }
  | .json => { storage, code := 1, output := outcomeJson none diagnostics }

def buildHeading (options : Options) : String :=
  "   Building " ++ options.name ++ " (" ++ options.mode.name ++ ")\n"

def emittingLines (report : Report) : String :=
  String.join (report.files.map fun file =>
    "    Emitting " ++ file.path ++ " (" ++ toString file.size ++ " bytes)\n")

def finishedLine (report : Report) (diagnostics : List Diagnostic) : String :=
  "    Finished " ++ toString report.modules ++ " modules into " ++
    toString report.chunks.length ++ " chunks, " ++ toString report.files.length ++ " files in " ++
    report.outDir ++ " (" ++ toString (countOf .warning diagnostics) ++ " warning(s))\n"

/-- A build that succeeded. -/
def finishedBuild (storage : Storage) (common : Common) (format : Format) (before : String)
    (diagnostics : List Diagnostic) (report : Report) : Outcome :=
  let shown := renderAll common format diagnostics
  match format with
  | .text =>
      let emitting := if common.verbose then emittingLines report else ""
      let closing := if common.quiet then "" else emitting ++ finishedLine report diagnostics
      { storage, code := 0, errors := before ++ shown ++ closing }
  | .json =>
      { storage, code := 0, output := outcomeJson (some report) diagnostics, errors := shown }

def runBuild (storage : Storage) (directory : String) (common : Common) (request : BuildRequest) :
    Outcome :=
  match loadOptions storage directory common request.mode request.outDir with
  | .error error => failedBuild storage common request.format "" [error.diagnostic]
  | .ok options =>
      let before :=
        if !common.quiet && request.format = .text then buildHeading options else ""
      let (storage, step) := build storage options
      let diagnostics := Diagnostic.sorted step.diagnostics
      match step.result with
      | .error error =>
          failedBuild storage common request.format before (diagnostics ++ [error.diagnostic])
      | .ok report => finishedBuild storage common request.format before diagnostics report

def runPlan (storage : Storage) (directory : String) (common : Common) (request : PlanRequest) :
    Outcome :=
  match loadOptions storage directory common request.mode none with
  | .error error =>
      { storage, code := 1, errors := renderAll common request.format [error.diagnostic] }
  | .ok options =>
      let step := plan storage options
      let diagnostics := Diagnostic.sorted step.diagnostics
      match step.result with
      | .error error =>
          { storage
            code := 1
            errors := renderAll common request.format (diagnostics ++ [error.diagnostic]) }
      | .ok plan =>
          { storage
            code := 0
            output :=
              match request.format with
              | .text => plan.text
              | .json => plan.toJson.renderPretty ++ "\n"
            errors := renderAll common request.format diagnostics }

def servingLine (options : Options) (request : ServeRequest) : String :=
  "   Serving " ++ options.outDir ++ " at http://" ++
    request.host.getD options.server.host ++ ":" ++
    toString (request.port.getD options.server.port) ++ "\n"

/-- Prepares to serve the output of a project. Without an output directory there is nothing to
serve. -/
def prepareSite (storage : Storage) (directory : String) (common : Common)
    (request : ServeRequest) : Outcome :=
  match loadOptions storage directory common request.mode none with
  | .error error => { storage, code := 1, errors := renderAll common .text [error.diagnostic] }
  | .ok options =>
      let before := if common.quiet then "" else servingLine options request
      if storage.isDirectory options.outDir then
        { storage, code := 0, errors := before, site := some (Serve.Site.ofOptions options) }
      else
        { storage
          code := 1
          errors := before ++ "error: output directory " ++ options.outDir ++
            " does not exist; run a build first\n" }

def runServe (storage : Storage) (directory : String) (common : Common) (request : ServeRequest) :
    Outcome :=
  if request.noBuild then prepareSite storage directory common request
  else
    let built := runBuild storage directory common ⟨request.mode, none, .text⟩
    if built.code ≠ 0 then built
    else
      let served := prepareSite built.storage directory common request
      { served with errors := built.errors ++ served.errors }

def versionLine : String := "shard 0.1.0\n"

/-- Runs a command line in a directory. -/
def run (storage : Storage) (directory : String) (words : List String) : Outcome :=
  match parse words with
  | .error .help => { storage, code := 0 }
  | .error .version => { storage, code := 0, output := versionLine }
  | .error .refused => { storage, code := 2 }
  | .ok (common, .build request) => runBuild storage directory common request
  | .ok (common, .plan request) => runPlan storage directory common request
  | .ok (common, .serve request) => runServe storage directory common request

end WebBundle.Command
