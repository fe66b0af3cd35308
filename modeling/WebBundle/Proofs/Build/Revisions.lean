import WebBundle.Proofs.Build.Precache
import WebBundle.Proofs.Chunk.Source
import WebBundle.Proofs.Digest.Stream

/-!
# What revisions tell

The revision of a file in the manifest is the digest of its bytes if the file is an asset or the
page. A chunk keeps the digest that it is named by, which is taken of its text before it is made
smaller and of names. Two files with the same bytes therefore have one revision if none is a chunk,
and two chunks do if both were made from the same text and names. Two builds may write the same bytes
for a chunk and give them different revisions.
-/

namespace WebBundle.Build

open Output

/-- What a file is made from: bytes that are written as they are, or a chunk. -/
inductive Source where
  | plain (content : ByteArray)
  | chunk (origin : EmittedChunk.Origin)

namespace Source

/-- The bytes that the digest of the file is taken of. -/
def covered : Source → ByteArray
  | .plain content => content
  | .chunk origin => ⟨origin.stream.toArray⟩

/-- The file has the bytes of the source. A chunk is one of the build. -/
def IsOf (storage : Storage) (options : Options) (collaborators : Collaborators)
    (file : Output.File) : Source → Prop
  | .plain content => file.kind ≠ .chunk ∧ file.bytes = content
  | .chunk origin => file.kind = .chunk ∧ file.bytes = origin.script.text.toUTF8 ∧
      ∃ found chunk, (graphs storage options collaborators.transform).result = .ok found ∧
        chunk ∈ found.chunks.chunks ∧
          origin = ⟨emission options (if options.minimize then collaborators.minify else id),
            found.modules, found.chunks, chunk⟩

end Source

/-- The build writes the file, and an address leads to it. -/
def WritesAt (storage : Storage) (options : Options) (collaborators : Collaborators)
    (url : String) (file : Output.File) : Prop :=
  ∃ assembly, (assemble storage options collaborators).result = .ok assembly ∧
    file ∈ assembly.files ∧ options.publicPath ++ file.path = url

variable {storage storage' : Storage} {options options' : Options}
  {collaborators collaborators' : Collaborators} {report report' : Report}

/-! ## Sources of files -/

theorem digest_of_readAssets {plan : List PlannedAsset} {asset : Asset}
    (listed : asset ∈ (readAssets storage plan).1) : asset.digest = .ofBytes asset.bytes := by
  induction plan with
  | nil => cases listed
  | cons planned plan ih =>
      rw [readAssets] at listed
      cases isRead : readAsset storage planned with
      | error error => simp [isRead] at listed
      | ok first =>
          simp only [isRead, List.mem_cons] at listed
          cases listed with
          | inr later => exact ih later
          | inl same =>
              subst same
              unfold readAsset at isRead
              split at isRead
              next => cases isRead
              next => rw [← Except.ok.inj isRead]

theorem digest_of_collectAssets {mappings : List AssetMapping} {assets : List Asset}
    (collected : (collectAssets storage mappings).2 = .ok assets) {asset : Asset}
    (listed : asset ∈ assets) : asset.digest = .ofBytes asset.bytes := by
  unfold collectAssets at collected
  split at collected
  next => cases collected
  next plan _ =>
    dsimp only at collected
    split at collected
    next => cases collected
    next =>
      obtain rfl := Except.ok.inj collected
      exact digest_of_readAssets (Keyed.mem_of_mem_lasts Asset.path (List.mem_mergeSort.1 listed))

/-- Every file but the worker has a source, and the digest of what the source covers. -/
theorem exists_source_of_file {parts : Parts} {set : FileSet} {assembly : Assembly}
    (composed : AssembledFrom storage options collaborators parts set assembly)
    {file : Output.File} (listed : file ∈ parts.files options collaborators) :
    ∃ source : Source, source.IsOf storage options collaborators file ∧
      file.digest = .ofBytes source.covered := by
  have gathered := Keyed.mem_of_mem_lasts Output.File.path listed
  rcases List.mem_append.1 gathered with others | isPage
  · rcases List.mem_append.1 others with isAsset | isChunk
    · obtain ⟨asset, member, rfl⟩ := List.mem_map.1 isAsset
      exact ⟨.plain asset.bytes, ⟨nofun, rfl⟩, digest_of_collectAssets composed.assets member⟩
    · obtain ⟨script, member, rfl⟩ := List.mem_map.1 isChunk
      obtain ⟨chunk, there, rfl⟩ := EmittedChunk.mem_all.1 member
      let origin : EmittedChunk.Origin :=
        ⟨emission options (if options.minimize then collaborators.minify else id),
          parts.found.modules, parts.found.chunks, chunk⟩
      exact ⟨.chunk origin, ⟨rfl, rfl, parts.found, chunk, composed.found, there, rfl⟩,
        origin.digest_script⟩
  · obtain rfl := List.mem_singleton.1 isPage
    exact ⟨.plain (parts.page options collaborators).bytes, ⟨nofun, rfl⟩, rfl⟩

/-- A revision is the digest of what the source of the file covers. -/
theorem exists_source_of_entry {entry : ManifestEntry} {other : Output.File}
    (succeeds : (buildWith storage options collaborators).2.result = .ok report)
    (listed : entry ∈ report.manifest)
    (writes : WritesAt storage options collaborators entry.url other) :
    ∃ source : Source, source.IsOf storage options collaborators other ∧
      entry.revision = (ContentDigest.ofBytes source.covered).hex := by
  obtain ⟨assembly, assembled, there, url⟩ := writes
  obtain ⟨parts, set, composed⟩ := exists_parts assembled
  obtain rfl := eq_reportOn assembled succeeds
  have distinct : ((parts.files options collaborators).map Output.File.path).Nodup :=
    Keyed.nodup_lasts _
  rw [composed.assembly, reportOn] at listed
  obtain ⟨worker, given⟩ := exists_worker_of_entry composed.added listed
  obtain ⟨globs, script, adds⟩ := exists_of_addWorker distinct given composed.added
  rw [adds.entries] at listed
  obtain ⟨file, member, stores, rfl⟩ :=
    (mem_manifest (precache options worker globs) distinct).1 listed
  -- What the worker replaces is not stored, so the listed file is the one that is written.
  have samePath : other.path = file.path := url_injective (precache options worker globs) url
  have same : other = file := by
    rw [composed.assembly, adds.others] at there
    rcases List.mem_append.1 there with plain | isWorker
    · exact List.inj_on_of_nodup_map distinct (List.mem_of_mem_filter plain) member samePath
    · obtain rfl := List.mem_singleton.1 isWorker
      exact absurd samePath.symm (path_ne_of_stores stores)
  obtain ⟨source, isOf, digest⟩ := exists_source_of_file composed member
  exact ⟨source, same ▸ isOf, congrArg ContentDigest.hex digest⟩

/-! ## Revisions of the same bytes -/

/-- When two files of the same bytes, made from these sources, have one revision. -/
structure SameRevision (same : Prop) (source source' : Source) : Prop where
  digests : same ↔ ContentDigest.ofBytes source.covered = .ofBytes source'.covered
  plain : ∀ content content', source = .plain content → source' = .plain content' → same
  chunks : ∀ origin origin', source = .chunk origin → source' = .chunk origin' →
    origin.texts = origin'.texts → same
  texts : ∀ origin origin', source = .chunk origin → source' = .chunk origin' →
    origin.IsShort → origin'.IsShort → ¬origin.Collide origin' →
      same → origin.texts = origin'.texts

theorem covered_eq {origin origin' : EmittedChunk.Origin} (texts : origin.texts = origin'.texts) :
    (Source.chunk origin).covered = (Source.chunk origin').covered := by
  rw [Source.covered, Source.covered, EmittedChunk.Origin.stream, texts,
    EmittedChunk.Origin.stream]

theorem texts_eq {origin origin' : EmittedChunk.Origin} (short : origin.IsShort)
    (short' : origin'.IsShort) (apart : ¬origin.Collide origin')
    (digests : ContentDigest.ofBytes (Source.chunk origin).covered =
      .ofBytes (Source.chunk origin').covered) : origin.texts = origin'.texts := by
  have streams : origin.stream = origin'.stream := by
    by_contra differ
    exact apart ⟨differ, digests⟩
  obtain ⟨text, names⟩ := EmittedChunk.Origin.eq_of_stream_eq short short' streams
  rw [EmittedChunk.Origin.texts, text, names, EmittedChunk.Origin.texts]

/-- Two builds that write the same bytes, at one address or at two, give them one revision exactly if
the digests of what the sources cover agree. They do if none is a chunk. Those of two chunks do if the
texts before they are made smaller and the names agree, and unless two streams share a digest only
then. -/
theorem sameRevision_of_sameBytes {entry entry' : ManifestEntry} {file file' : Output.File}
    (succeeds : (buildWith storage options collaborators).2.result = .ok report)
    (succeeds' : (buildWith storage' options' collaborators').2.result = .ok report')
    (listed : entry ∈ report.manifest) (listed' : entry' ∈ report'.manifest)
    (writes : WritesAt storage options collaborators entry.url file)
    (writes' : WritesAt storage' options' collaborators' entry'.url file')
    (sameBytes : file.bytes = file'.bytes) :
    ∃ source source' : Source, source.IsOf storage options collaborators file ∧
      source'.IsOf storage' options' collaborators' file' ∧
        SameRevision (entry.revision = entry'.revision) source source' := by
  obtain ⟨source, isOf, revision⟩ := exists_source_of_entry succeeds listed writes
  obtain ⟨source', isOf', revision'⟩ := exists_source_of_entry succeeds' listed' writes'
  have digests : entry.revision = entry'.revision ↔
      ContentDigest.ofBytes source.covered = .ofBytes source'.covered := by
    rw [revision, revision', ContentDigest.hex_injective.eq_iff]
  refine ⟨source, source', isOf, isOf', ?_⟩
  constructor
  case digests => exact digests
  case plain =>
    rintro content content' rfl rfl
    refine digests.2 (congrArg ContentDigest.ofBytes ?_)
    exact (isOf.2.symm.trans sameBytes).trans isOf'.2
  case chunks =>
    rintro origin origin' rfl rfl texts
    exact digests.2 (congrArg ContentDigest.ofBytes (covered_eq texts))
  case texts =>
    rintro origin origin' rfl rfl short short' apart same
    exact texts_eq short short' apart (digests.1 same)

/-! ## A blank line -/

theorem size_chunkFile (script : EmittedChunk) :
    (chunkFile script).size = script.text.toUTF8.size := rfl

/-- The script of the project is listed and written, unless it is too large. -/
theorem exists_entry_site {content : ByteArray}
    (noImports : Import.scan (Text.Utf8.lenient content) = []) {script : EmittedChunk}
    (isScript : siteScript content = script)
    (small : script.text.toUTF8.size ≤ siteWorker.sizeLimit) :
    ∃ report, (buildWith (siteWith content) siteOptions {}).2.result = .ok report ∧
      ⟨"/main.js", script.digest.hex⟩ ∈ report.manifest ∧
        ∃ file, WritesAt (siteWith content) siteOptions {} "/main.js" file ∧
          file.bytes = script.text.toUTF8 := by
  obtain ⟨report, succeeds⟩ := exists_report_site content noImports
  obtain ⟨assembly, assembled, _⟩ := exists_assembly_of_buildWith succeeds
  obtain ⟨parts, set, composed⟩ := exists_parts assembled
  have distinct : ((parts.files siteOptions {}).map Output.File.path).Nodup := Keyed.nodup_lasts _
  obtain ⟨globs, worker, adds⟩ := exists_of_addWorker distinct worker_site composed.added
  obtain rfl : [] = globs := Except.ok.inj adds.excluded
  have path : (chunkFile script).path = "main.js" := by
    rw [← isScript]
    exact (fileName_site content).1
  have url : siteOptions.publicPath ++ (chunkFile script).path = "/main.js" := by
    rw [path]
    decide
  have listed : chunkFile script ∈ parts.files siteOptions {} := by
    rw [files_site content noImports composed, isScript]
    exact List.mem_cons_self
  have apart : (chunkFile script).path ≠ siteWorker.target := by
    rw [path]
    decide
  have stores : (precache siteOptions siteWorker []).stores (chunkFile script) = true := by
    rw [← size_chunkFile] at small
    rw [stores_precache apart, decide_eq_true small]
    rfl
  have entry : manifestEntry (precache siteOptions siteWorker []) (chunkFile script) =
      ⟨"/main.js", script.digest.hex⟩ := congrArg (ManifestEntry.mk · script.digest.hex) url
  have isListed : ⟨"/main.js", script.digest.hex⟩ ∈ report.manifest := by
    rw [eq_reportOn assembled succeeds, composed.assembly, reportOn, adds.entries]
    exact (mem_manifest (precache siteOptions siteWorker []) distinct).2
      ⟨_, listed, stores, entry⟩
  have isWritten : chunkFile script ∈ assembly.files := by
    rw [composed.assembly, adds.others]
    exact List.mem_append_left _ (List.mem_filter.2 ⟨listed, decide_eq_true apart⟩)
  exact ⟨report, succeeds, isListed, chunkFile script, ⟨assembly, assembled, isWritten, url⟩, rfl⟩

/-- A script that begins with a blank line, and the script without it. -/
def looseScript : ByteArray := "\nrun();".toUTF8

def tightScript : ByteArray := "run();".toUTF8

/-- The text of the script before it is made smaller. -/
def siteText (content : String) : String :=
  "(self.shardChunks = self.shardChunks || []).push([[\"main\"], \x7b\n" ++
    "\"bb2d8b38\": [function (module, exports, require) \x7b\n" ++ content ++
      "\n\x7d, \x7b\x7d]\n\x7d, [\"bb2d8b38\"], []]);\n"

/-- How the project writes a script: what it reads of it, its text before and after it is made
smaller, and the lower half of its digest. -/
structure WrittenAs (content : ByteArray) (source : String) (low : UInt64) : Prop where
  noImports : Import.scan (Text.Utf8.lenient content) = []
  text : Chunk.text (mainGraphOf content) siteChunks mainChunk = siteText source
  stripped : Page.stripBlank (siteText source) = siteText "run();"
  digest : (ContentDigest.ofTexts [siteText source, "runtime"]).value.low = low

theorem writtenAs_loose : WrittenAs looseScript "\nrun();" 5373283129776754010 where
  noImports := List.isEmpty_iff.1 (by decide +kernel)
  text := by decide +kernel
  stripped := by decide +kernel
  digest := by decide +kernel

theorem writtenAs_tight : WrittenAs tightScript "run();" 10283149947526104511 where
  noImports := List.isEmpty_iff.1 (by decide +kernel)
  text := by decide +kernel
  stripped := by decide +kernel
  digest := by decide +kernel

namespace WrittenAs

variable {content : ByteArray} {source : String} {low : UInt64}

theorem text_script (written : WrittenAs content source low) :
    (siteScript content).text = siteText "run();" := by
  change Page.stripBlank (Chunk.text _ _ _) = _
  rw [written.text, written.stripped]

theorem low_digest (written : WrittenAs content source low) :
    (siteScript content).digest.value.low = low := by
  change (ContentDigest.ofTexts [Chunk.text _ _ _, "runtime"]).value.low = low
  rw [written.text, written.digest]

end WrittenAs

theorem digest_script_ne : (siteScript looseScript).digest ≠ (siteScript tightScript).digest := by
  intro same
  have low := congrArg (fun digest => digest.value.low) same
  rw [writtenAs_loose.low_digest, writtenAs_tight.low_digest] at low
  exact absurd low (by decide)

theorem size_siteText : (siteText "run();").toUTF8.size ≤ siteWorker.sizeLimit := by
  decide +kernel

/-- A project lists the script and writes it without the blank line. -/
theorem exists_revision_site {content : ByteArray}
    (noImports : Import.scan (Text.Utf8.lenient content) = [])
    (text : (siteScript content).text = siteText "run();") :
    ∃ report file, (buildWith (siteWith content) siteOptions {}).2.result = .ok report ∧
      ⟨"/main.js", (siteScript content).digest.hex⟩ ∈ report.manifest ∧
        WritesAt (siteWith content) siteOptions {} "/main.js" file ∧
          file.bytes = (siteText "run();").toUTF8 := by
  have small : (siteScript content).text.toUTF8.size ≤ siteWorker.sizeLimit := by
    rw [text]
    exact size_siteText
  obtain ⟨report, succeeds, listed, file, writes, bytes⟩ := exists_entry_site noImports rfl small
  rw [text] at bytes
  exact ⟨report, file, succeeds, listed, writes, bytes⟩

theorem sameRevision_site :
    ∃ report report' file file',
      (buildWith (siteWith looseScript) siteOptions {}).2.result = .ok report ∧
      (buildWith (siteWith tightScript) siteOptions {}).2.result = .ok report' ∧
      ∃ entry ∈ report.manifest, ∃ entry' ∈ report'.manifest,
        WritesAt (siteWith looseScript) siteOptions {} entry.url file ∧
        WritesAt (siteWith tightScript) siteOptions {} entry'.url file' ∧
        file.bytes = file'.bytes ∧
        ∃ source source' : Source, source.IsOf (siteWith looseScript) siteOptions {} file ∧
          source'.IsOf (siteWith tightScript) siteOptions {} file' ∧
            SameRevision (entry.revision = entry'.revision) source source' := by
  obtain ⟨report, file, succeeds, listed, writes, bytes⟩ :=
    exists_revision_site writtenAs_loose.noImports writtenAs_loose.text_script
  obtain ⟨report', file', succeeds', listed', writes', bytes'⟩ :=
    exists_revision_site writtenAs_tight.noImports writtenAs_tight.text_script
  have sameBytes : file.bytes = file'.bytes := bytes.trans bytes'.symm
  exact ⟨report, report', file, file', succeeds, succeeds', _, listed, _, listed', writes, writes',
    sameBytes, sameRevision_of_sameBytes succeeds succeeds' listed listed' writes writes' sameBytes⟩

/-- Without the blank line the script is written as before, and its revision is another. -/
theorem not_sameRevision_site :
    ∃ report report' file file',
      (buildWith (siteWith looseScript) siteOptions {}).2.result = .ok report ∧
      (buildWith (siteWith tightScript) siteOptions {}).2.result = .ok report' ∧
      ∃ entry ∈ report.manifest, ∃ entry' ∈ report'.manifest, entry.url = entry'.url ∧
        WritesAt (siteWith looseScript) siteOptions {} entry.url file ∧
        WritesAt (siteWith tightScript) siteOptions {} entry'.url file' ∧
        file.bytes = file'.bytes ∧ entry.revision ≠ entry'.revision := by
  obtain ⟨report, file, succeeds, listed, writes, bytes⟩ :=
    exists_revision_site writtenAs_loose.noImports writtenAs_loose.text_script
  obtain ⟨report', file', succeeds', listed', writes', bytes'⟩ :=
    exists_revision_site writtenAs_tight.noImports writtenAs_tight.text_script
  exact ⟨report, report', file, file', succeeds, succeeds', _, listed, _, listed', rfl, writes,
    writes', bytes.trans bytes'.symm,
    fun same => digest_script_ne (ContentDigest.hex_injective same)⟩

end WebBundle.Build
