import WebBundle.Chunk.RuntimeText
import WebBundle.Proofs.Json.Quoting

/-!
# Literals of the runtime

The holes of the runtime are filled one after the other, so a later pass also goes over the literals
that an earlier one put in. Where the public path names neither of the later holes, and the table of
files does not name the last one, this is the same as filling all holes at once, and both literals
are read back. In every other case one of them is read as something else, or not at all.
-/

namespace WebBundle.Chunk

open Text

/-! ## The template -/

def pathHole : List Char := "__PUBLIC_PATH__".toList

def filesHole : List Char := "__CHUNK_FILES__".toList

def queueHole : List Char := "__QUEUE__".toList

/-- The template before its first hole. -/
def opening : List Char := "(function () \x7b\n  var publicPath = ".toList

/-- The template behind the semicolon after its first hole, and before its second one. -/
def between : List Char := "\n  var chunkFiles = ".toList

/-- The only line of the template with more holes. -/
def queueLine : String := "  var queue = (__QUEUE__ = __QUEUE__ || []);"

/-- The template behind the semicolon after its second hole. -/
def remainder : List Char :=
  '\n' :: (runtimeLines.drop 3).flatMap fun line => line.toList ++ ['\n']

/-- What is put into the holes. -/
def fillings (path table : List Char) : List (List Char × List Char) :=
  [(pathHole, path), (filesHole, table), (queueHole, queue.toList)]

/-- The template with all its holes filled in one pass. -/
def filledTemplate (path table : List Char) : List Char :=
  replaceEach (fillings path table) 0 runtimeTemplate

theorem runtimeTemplate_eq :
    runtimeTemplate =
      opening ++ (pathHole ++ ';' :: (between ++ (filesHole ++ ';' :: remainder))) := rfl

theorem underscore_not_mem {chars : List Char} (free : '_' ∉ chars) :
    '_' ∉ (String.ofList chars).toList := by
  rwa [String.toList_ofList]

theorem underscore_not_mem_opening : '_' ∉ opening := underscore_not_mem (by decide)

theorem underscore_not_mem_between : '_' ∉ between := underscore_not_mem (by decide)

theorem remaining_lines :
    ∀ line ∈ runtimeLines.drop 3, '_' ∉ line.toList ∨ line = queueLine := by
  have free {chars : List Char} {lines : List String} (here : '_' ∉ chars)
      (others : ∀ line ∈ lines, '_' ∉ line.toList ∨ line = queueLine) :
      ∀ line ∈ String.ofList chars :: lines, '_' ∉ line.toList ∨ line = queueLine :=
    List.forall_mem_cons.2 ⟨.inl (underscore_not_mem here), others⟩
  have holed {lines : List String}
      (others : ∀ line ∈ lines, '_' ∉ line.toList ∨ line = queueLine) :
      ∀ line ∈ queueLine :: lines, '_' ∉ line.toList ∨ line = queueLine :=
    List.forall_mem_cons.2 ⟨.inr rfl, others⟩
  unfold runtimeLines
  simp only [List.drop]
  repeat' first | refine free (by decide) ?_ | refine holed ?_
  exact List.forall_mem_nil _

/-- A part that the holed line does not have is not in the other lines either. -/
theorem replaceAll_remainder {part new : List Char} (named : '_' ∈ part) (noFeed : '\n' ∉ part)
    (absent : ¬part <:+: queueLine.toList) : replaceAll part new remainder = remainder := by
  have nonempty := List.ne_nil_of_mem named
  have lines : ∀ line ∈ runtimeLines.drop 3,
      replaceAll part new line.toList ++ ['\n'] = line.toList ++ ['\n'] := by
    intro line listed
    rw [replaceAll_of_absent]
    rcases remaining_lines line listed with free | rfl
    · exact fun occurs => free (occurs.subset named)
    · exact absent
  have notHere : ¬part <+: '\n' :: (runtimeLines.drop 3).flatMap fun line =>
      line.toList ++ ['\n'] := by
    intro here
    obtain ⟨first, others, rfl⟩ := List.exists_cons_of_ne_nil nonempty
    exact noFeed ((List.cons_prefix_cons.1 here).1 ▸ List.mem_cons_self)
  rw [remainder, replaceAll_cons nonempty notHere, replaceAll_lines nonempty noFeed,
    List.flatMap_congr lines]

theorem queueLine_eq :
    queueLine.toList ++ ['\n'] = "  var queue = (".toList ++
      (queueHole ++ (" = ".toList ++ (queueHole ++ " || []);\n".toList))) := rfl

theorem head?_of_mem_fillings (path table : List Char) :
    ∀ filling ∈ fillings path table, filling.1.head? = some '_' := by
  simp only [fillings, List.forall_mem_cons]
  exact ⟨rfl, rfl, rfl, List.forall_mem_nil _⟩

/-- A text in which only the last hole is met when all of them are looked for. -/
def MeetsQueueOnly (path table text : List Char) : Prop :=
  replaceEach (fillings path table) 0 text = replaceAll queueHole queue.toList text

section

variable {path table rest : List Char} (only : MeetsQueueOnly path table rest)

include only

theorem MeetsQueueOnly.skip {before : List Char} (free : '_' ∉ before) :
    MeetsQueueOnly path table (before ++ rest) := by
  rw [MeetsQueueOnly, replaceEach_append_of_not_mem (head?_of_mem_fillings path table) free, only,
    replaceAll_append_of_not_mem rfl free]

theorem MeetsQueueOnly.fill : MeetsQueueOnly path table (queueHole ++ rest) := by
  have nonempty : queueHole ≠ [] := by decide
  rw [MeetsQueueOnly, replaceEach_part nonempty rfl, only, replaceAll_part_append nonempty]

end

theorem meetsQueueOnly_lines (path table : List Char) {lines : List String}
    (known : ∀ line ∈ lines, '_' ∉ line.toList ∨ line = queueLine) :
    MeetsQueueOnly path table (lines.flatMap fun line => line.toList ++ ['\n']) := by
  induction lines with
  | nil => rfl
  | cons line lines ih =>
      obtain ⟨here, others⟩ := List.forall_mem_cons.1 known
      rw [List.flatMap_cons]
      rcases here with free | rfl
      · refine (ih others).skip ?_
        rw [List.mem_append, not_or]
        exact ⟨free, by decide⟩
      · rw [queueLine_eq]
        simp only [List.append_assoc]
        refine MeetsQueueOnly.skip (MeetsQueueOnly.fill ?_) (underscore_not_mem (by decide))
        refine MeetsQueueOnly.skip (MeetsQueueOnly.fill ?_) (underscore_not_mem (by decide))
        exact (ih others).skip (underscore_not_mem (by decide))

/-- Behind the first two holes only the last one is met. -/
theorem meetsQueueOnly_remainder (path table : List Char) :
    MeetsQueueOnly path table remainder := by
  have feed : '_' ∉ ['\n'] := by decide
  exact (meetsQueueOnly_lines path table remaining_lines).skip feed

/-- The holes filled in one pass. -/
theorem filledTemplate_eq (path table : List Char) :
    filledTemplate path table =
      opening ++ (path ++ ';' :: (between ++ (table ++
        ';' :: replaceAll queueHole queue.toList remainder))) := by
  have begins := head?_of_mem_fillings path table
  have semicolon (rest : List Char) : replaceEach (fillings path table) 0 (';' :: rest) =
      ';' :: replaceEach (fillings path table) 0 rest := by
    have free : '_' ∉ [';'] := by decide
    exact replaceEach_append_of_not_mem begins free rest
  rw [filledTemplate, runtimeTemplate_eq,
    replaceEach_append_of_not_mem begins underscore_not_mem_opening,
    replaceEach_part (by decide) rfl, semicolon,
    replaceEach_append_of_not_mem begins underscore_not_mem_between,
    replaceEach_part (by decide) rfl, semicolon, meetsQueueOnly_remainder path table]

/-- The holes filled in turn. The second pass also goes over the public path, and the last one over
the public path and the table. -/
theorem toList_runtimeText (publicPath : String) (files : List (String × String)) :
    (runtimeText publicPath files).toList =
      opening ++ (replaceAll queueHole queue.toList
        (replaceAll filesHole (fileTable files).compact (Json.quote publicPath.toList)) ++
      ';' :: (between ++ (replaceAll queueHole queue.toList (fileTable files).compact ++
        ';' :: replaceAll queueHole queue.toList remainder))) := by
  have some : pathHole ≠ [] := by decide
  have some' : filesHole ≠ [] := by decide
  have some'' : queueHole ≠ [] := by decide
  have first : replaceAll pathHole (Json.quote publicPath.toList) runtimeTemplate =
      opening ++ (Json.quote publicPath.toList ++
        ';' :: (between ++ (filesHole ++ ';' :: remainder))) := by
    have untouched : replaceAll pathHole (Json.quote publicPath.toList) filesHole = filesHole :=
      replaceAll_of_absent (by decide)
    rw [runtimeTemplate_eq, replaceAll_append_of_not_mem rfl underscore_not_mem_opening,
      replaceAll_part_append some, ← List.cons_append, replaceAll_append_of_not_mem rfl (by decide),
      replaceAll_append_cons some (by decide), untouched,
      replaceAll_remainder (by decide) (by decide) (by decide), List.cons_append]
  have second (path : List Char) : replaceAll filesHole (fileTable files).compact
      (opening ++ (path ++ ';' :: (between ++ (filesHole ++ ';' :: remainder)))) =
        opening ++ (replaceAll filesHole (fileTable files).compact path ++
          ';' :: (between ++ ((fileTable files).compact ++ ';' :: remainder))) := by
    rw [replaceAll_append_of_not_mem rfl underscore_not_mem_opening,
      replaceAll_append_cons some' (by decide),
      replaceAll_append_of_not_mem rfl underscore_not_mem_between, replaceAll_part_append some',
      replaceAll_cons_of_not_mem some' (by decide),
      replaceAll_remainder (by decide) (by decide) (by decide)]
  have third (path table : List Char) : replaceAll queueHole queue.toList
      (opening ++ (path ++ ';' :: (between ++ (table ++ ';' :: remainder)))) =
        opening ++ (replaceAll queueHole queue.toList path ++ ';' :: (between ++
          (replaceAll queueHole queue.toList table ++
            ';' :: replaceAll queueHole queue.toList remainder))) := by
    rw [replaceAll_append_of_not_mem rfl underscore_not_mem_opening,
      replaceAll_append_cons some'' (by decide),
      replaceAll_append_of_not_mem rfl underscore_not_mem_between,
      replaceAll_append_cons some'' (by decide)]
  change (String.ofList (replaceAll queueHole queue.toList (replaceAll filesHole
    (fileTable files).compact (replaceAll pathHole (Json.quote publicPath.toList)
      runtimeTemplate)))).toList = _
  rw [String.toList_ofList, first, second, third]

/-! ## Literals that are read back -/

/-- All holes of the runtime are filled at once, two of them with literals that are read as the
public path and the table of files. -/
structure Embeds (publicPath : String) (files : List (String × String)) (path table text : String) :
    Prop where
  filled : text.toList = filledTemplate path.toList table.toList
  placed : opening ++ (path.toList ++ ';' :: (between ++ (table.toList ++ [';']))) <+: text.toList
  path : Json.parse? path = some (.string publicPath)
  table : Json.parse? table = some (fileTable files)

/-- No literal names a hole that is filled later. -/
structure IsFree (publicPath : String) (files : List (String × String)) : Prop where
  noFiles : ¬filesHole <:+: publicPath.toList
  noQueue : ¬queueHole <:+: publicPath.toList
  listed : ∀ file ∈ files, ¬queueHole <:+: file.1.toList ∧ ¬queueHole <:+: file.2.toList

variable {publicPath path table : String} {files : List (String × String)}

theorem forall_mem_of_all {p : Char → Prop} [DecidablePred p] {chars : List Char}
    (all : (chars.all fun c => decide (p c)) = true) : ∀ c ∈ chars, p c :=
  fun c member => of_decide_eq_true (List.all_eq_true.1 all c member)

theorem isPlain_filesHole : Json.IsPlain filesHole :=
  ⟨by decide, forall_mem_of_all (by decide), forall_mem_of_all (by decide)⟩

theorem isPlain_queueHole : Json.IsPlain queueHole :=
  ⟨by decide, forall_mem_of_all (by decide), forall_mem_of_all (by decide)⟩

theorem escape_queue : ∀ c ∈ queue.toList, Json.escape c = [c] := forall_mem_of_all (by decide)

theorem isTextual_fileTable (files : List (String × String)) : (fileTable files).IsTextual := by
  refine .object fun field member => ?_
  obtain ⟨file, _, rfl⟩ := List.mem_map.1 member
  exact .string file.2

theorem fileTable_injective {files files' : List (String × String)}
    (same : fileTable files = fileTable files') : files = files' := by
  have fields := Json.object.inj same
  refine List.map_injective_iff.2 (fun file file' same => ?_) fields
  obtain ⟨name, target⟩ := Prod.mk.inj same
  exact Prod.ext name (Json.string.inj target)

/-! ### The queue in the table -/

/-- A text with the queue in the place of its hole. -/
def withQueue (text : String) : String :=
  String.ofList (replaceAll queueHole queue.toList text.toList)

theorem withQueue_eq_iff {text : String} :
    withQueue text = text ↔ ¬queueHole <:+: text.toList := by
  rw [withQueue, ← String.toList_inj, String.toList_ofList]
  constructor
  · intro same occurs
    obtain ⟨before, rest, whole, replaced⟩ :=
      exists_replaceAll_eq isPlain_queueHole.nonempty occurs
    rw [replaced, whole, List.append_cancel_left_eq] at same
    have first := congrArg List.head? same
    rw [List.head?_append_of_ne_nil _ (by decide), List.head?_append_of_ne_nil _ (by decide)]
      at first
    exact absurd first (by decide)
  · exact replaceAll_of_absent

theorem replaceQueue_quote (text : String) :
    replaceAll queueHole queue.toList (Json.quote text.toList) =
      Json.quote (withQueue text).toList := by
  rw [isPlain_queueHole.replaceAll_quote, isPlain_queueHole.replaceAll_flatMap_escape escape_queue,
    withQueue, String.toList_ofList]
  rfl

theorem replaceQueue_compact (files : List (String × String)) :
    replaceAll queueHole queue.toList (fileTable files).compact =
      (fileTable (files.map fun file => (withQueue file.1, withQueue file.2))).compact := by
  have some := isPlain_queueHole.nonempty
  have apart {c : Char} {before rest : List Char} (free : c ∉ queueHole) :
      replaceAll queueHole queue.toList (before ++ c :: rest) =
        replaceAll queueHole queue.toList before ++ c :: replaceAll queueHole queue.toList rest :=
    replaceAll_append_cons some free before rest
  have fields : replaceAll queueHole queue.toList
      (Json.compactFields (files.map fun file => (file.1, .string file.2))) =
        Json.compactFields
          (files.map fun file => (withQueue file.1, .string (withQueue file.2))) := by
    induction files with
    | nil => exact replaceAll_nil some
    | cons file files ih =>
        cases files with
        | nil =>
            simp only [List.map_cons, List.map_nil, Json.compactFields, Json.compact, Json.atom]
            rw [apart (by decide), replaceQueue_quote, replaceQueue_quote]
        | cons next files =>
            simp only [List.map_cons, Json.compactFields, Json.compact, Json.atom] at ih ⊢
            rw [apart (by decide), apart (by decide), replaceQueue_quote, replaceQueue_quote, ih]
  change replaceAll queueHole queue.toList ('{' :: (Json.compactFields
    (files.map fun file => (file.1, .string file.2)) ++ ['}'])) = _
  rw [replaceAll_cons_of_not_mem some (by decide), replaceAll_concat some (by decide), fields,
    fileTable, List.map_map]
  rfl

/-! ### The public path -/

theorem filesHole_head : ∃ others, filesHole = '_' :: others :=
  List.head?_eq_some_iff.1 rfl

theorem queueHole_head : ∃ others, queueHole = '_' :: others :=
  List.head?_eq_some_iff.1 rfl

/-- A path with the last hole is written with the first character of the queue in the place of the
first underscore of that hole. -/
theorem exists_difference_queue {text : List Char} (occurs : queueHole <:+: text) :
    ∃ before next more, text = before ++ '_' :: next ∧
      replaceAll queueHole queue.toList (text.flatMap Json.escape) =
        before.flatMap Json.escape ++ 's' :: more := by
  obtain ⟨others, hole⟩ := queueHole_head
  obtain ⟨letters, name⟩ : ∃ letters, queue.toList = 's' :: letters :=
    List.head?_eq_some_iff.1 rfl
  obtain ⟨before, rest, more, whole, replaced⟩ := isPlain_queueHole.exists_replaceAll_eq
    queue.toList occurs
  refine ⟨before, others ++ rest, letters ++ more, ?_, ?_⟩
  · rw [whole, hole, List.cons_append]
  · rw [replaced, name, List.cons_append]

/-- A public path that names a later hole is written with another character in the place of the
first underscore of that hole. -/
theorem exists_difference (files : List (String × String))
    (named : filesHole <:+: publicPath.toList ∨ queueHole <:+: publicPath.toList) :
    ∃ before next x more, publicPath.toList = before ++ '_' :: next ∧ (x = '\x7b' ∨ x = 's') ∧
      replaceAll queueHole queue.toList
          (replaceAll filesHole (fileTable files).compact (Json.quote publicPath.toList)) =
        '"' :: (before.flatMap Json.escape ++ x :: more) := by
  have some := isPlain_queueHole.nonempty
  by_cases occurs : filesHole <:+: publicPath.toList
  · obtain ⟨others, hole⟩ := filesHole_head
    obtain ⟨before, rest, more, whole, replaced⟩ := isPlain_filesHole.exists_replaceAll_eq _ occurs
    obtain ⟨fields, table⟩ : ∃ fields, (fileTable files).compact = '\x7b' :: fields := ⟨_, rfl⟩
    rw [hole, List.cons_append] at whole
    rw [isPlain_filesHole.replaceAll_quote, replaced, table, List.append_assoc, List.cons_append,
      replaceAll_cons_of_not_mem some (by decide), List.cons_append,
      replaceAll_append_cons some (by decide)]
    by_cases earlier : queueHole <:+: before
    · obtain ⟨before', next, more', rfl, replaced'⟩ := exists_difference_queue earlier
      rw [replaced', List.append_assoc]
      rw [List.append_assoc] at whole
      exact ⟨before', _, 's', _, whole, .inr rfl, rfl⟩
    · rw [isPlain_queueHole.replaceAll_of_absent earlier]
      exact ⟨before, _, '\x7b', _, whole, .inl rfl, rfl⟩
  · obtain ⟨before, next, more, whole, replaced⟩ :=
      exists_difference_queue (named.resolve_left occurs)
    refine ⟨before, next, 's', more ++ ['"'], whole, .inr rfl, ?_⟩
    rw [isPlain_filesHole.replaceAll_quote, isPlain_filesHole.replaceAll_of_absent occurs,
      replaceAll_cons_of_not_mem some (by decide), replaceAll_concat some (by decide), replaced,
      List.append_assoc, List.cons_append]

/-- A string cannot be read from a literal that has another character in it. -/
theorem ne_of_readText {before next more blanks : List Char} {x : Char}
    (different : x = '\x7b' ∨ x = 's') :
    Json.readText [] (before.flatMap Json.escape ++ x :: more) ≠
      some (before ++ '_' :: next, blanks) := by
  intro reads
  have plain : x ≠ '"' ∧ x ≠ '\\' ∧ ¬x.toNat < 0x20 ∧ x ≠ '_' := by
    rcases different with rfl | rfl
    · decide
    · decide
  rw [Json.readText_flatMap, Json.readText_plain plain.1 plain.2.1 plain.2.2.1,
    List.append_nil] at reads
  have inside := Json.prefix_of_readText reads
  rw [List.reverse_cons, List.reverse_reverse, List.prefix_append_right_inj,
    List.cons_prefix_cons] at inside
  exact plain.2.2.2 inside.1

theorem replaceAll_path (noFiles : ¬filesHole <:+: publicPath.toList)
    (noQueue : ¬queueHole <:+: publicPath.toList) :
    replaceAll queueHole queue.toList
        (replaceAll filesHole (fileTable files).compact (Json.quote publicPath.toList)) =
      Json.quote publicPath.toList := by
  have kept : replaceAll filesHole (fileTable files).compact (Json.quote publicPath.toList) =
      Json.quote publicPath.toList := by
    rw [isPlain_filesHole.replaceAll_quote, isPlain_filesHole.replaceAll_of_absent noFiles]
    rfl
  rw [kept, replaceQueue_quote, withQueue_eq_iff.2 noQueue]

theorem isFree_of_embeds (embeds : Embeds publicPath files path table
    (runtimeText publicPath files)) : IsFree publicPath files := by
  have same := embeds.filled
  rw [toList_runtimeText, filledTemplate_eq, List.append_cancel_left_eq] at same
  -- The text behind the opening begins with a quote, so the literal does too.
  obtain ⟨text, begins⟩ : ∃ text, path.toList = '"' :: text := by
    rw [isPlain_filesHole.replaceAll_quote,
      replaceAll_cons_of_not_mem isPlain_queueHole.nonempty (by decide), List.cons_append] at same
    cases chars : path.toList with
    | nil =>
        rw [chars] at same
        exact absurd (List.cons.inj same).1 (by decide)
    | cons c text =>
        rw [chars] at same
        exact ⟨text, by rw [← (List.cons.inj same).1]⟩
  obtain ⟨blanks, reads, blank⟩ := Json.exists_readText_of_parse? begins embeds.path
  have further := Json.readText_append
    (';' :: (between ++ (table.toList ++ ';' :: replaceAll queueHole queue.toList remainder))) reads
  rw [begins, List.cons_append] at same
  -- A hole in the public path shows at its first underscore.
  have unnamed : ¬(filesHole <:+: publicPath.toList ∨ queueHole <:+: publicPath.toList) := by
    intro named
    obtain ⟨before, next, x, more, whole, different, replaced⟩ :=
      exists_difference files named
    rw [replaced, List.cons_append] at same
    rw [← (List.cons.inj same).2, List.append_assoc, List.cons_append, whole] at further
    exact ne_of_readText different further
  obtain ⟨noFiles, noQueue⟩ := not_or.1 unnamed
  rw [replaceAll_path noFiles noQueue, Json.quote] at same
  simp only [List.cons_append, List.append_assoc, List.nil_append] at same
  have literal := (List.cons.inj same).2
  rw [← literal, Json.readText_flatMap_escape, Option.some_inj, Prod.mk.injEq] at further
  have behind := further.2
  have noBlanks : blanks = [] := by
    cases blanks with
    | nil => rfl
    | cons c blanks =>
        rw [List.cons_append] at behind
        rw [← (List.cons.inj behind).1] at blank
        exact absurd blank (List.cons_ne_nil ';' blanks)
  rw [noBlanks, List.nil_append, List.cons_inj_right, List.append_cancel_left_eq,
    List.append_cancel_right_eq, replaceQueue_compact] at behind
  have rendered : table =
      (fileTable (files.map fun file => (withQueue file.1, withQueue file.2))).render := by
    rw [← String.toList_inj, ← behind, Json.render, String.toList_ofList]
  have parses := embeds.table
  rw [rendered, Json.parse?_render (isTextual_fileTable _), Option.some_inj] at parses
  have kept := fileTable_injective parses
  refine ⟨noFiles, noQueue, fun file listed => ?_⟩
  have fixed := List.map_inj_left.1 (kept.trans (List.map_id files).symm) file listed
  obtain ⟨name, target⟩ := Prod.mk.inj fixed
  exact ⟨withQueue_eq_iff.1 name, withQueue_eq_iff.1 target⟩

theorem embeds_of_isFree (isFree : IsFree publicPath files) :
    Embeds publicPath files (Json.quoted publicPath) (fileTable files).render
      (runtimeText publicPath files) := by
  have table : replaceAll queueHole queue.toList (fileTable files).compact =
      (fileTable files).compact := by
    have kept : files.map (fun file => (withQueue file.1, withQueue file.2)) = files := by
      refine (List.map_congr_left fun file listed => ?_).trans (List.map_id files)
      obtain ⟨name, target⟩ := isFree.listed file listed
      rw [withQueue_eq_iff.2 name, withQueue_eq_iff.2 target]
      rfl
    rw [replaceQueue_compact, kept]
  have filled : (runtimeText publicPath files).toList =
      filledTemplate (Json.quoted publicPath).toList (fileTable files).render.toList := by
    rw [toList_runtimeText, replaceAll_path isFree.noFiles isFree.noQueue, table,
      filledTemplate_eq, Json.quoted, Json.render, String.toList_ofList, String.toList_ofList]
  constructor
  case filled => exact filled
  case placed =>
    rw [filled, filledTemplate_eq]
    simp only [List.prefix_append_right_inj, List.cons_prefix_cons, true_and, List.nil_prefix]
  case path =>
    have literal : Json.quoted publicPath = (Json.string publicPath).render := rfl
    rw [literal]
    exact Json.parse?_render (.string publicPath)
  case table => exact Json.parse?_render (isTextual_fileTable files)

/-- The literals are read back from the runtime exactly if none of them names a hole that is filled
later. -/
theorem exists_embeds_iff :
    (∃ path table, Embeds publicPath files path table (runtimeText publicPath files)) ↔
      IsFree publicPath files :=
  ⟨fun ⟨_, _, embeds⟩ => isFree_of_embeds embeds, fun isFree => ⟨_, _, embeds_of_isFree isFree⟩⟩

/-- A public path that names the last hole is written with the queue in its place. -/
theorem not_embeds_queuePath :
    ¬∃ path table, Embeds "/__QUEUE__/" [("page", "page.js")] path table
      (runtimeText "/__QUEUE__/" [("page", "page.js")]) := by
  rintro ⟨path, table, embeds⟩
  have named : queueHole <:+: "/__QUEUE__/".toList := by decide
  exact (isFree_of_embeds embeds).noQueue named

end WebBundle.Chunk
