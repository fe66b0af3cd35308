import WebBundle.Diagnostic.Text
import WebBundle.Proofs.Json.Quoting
import WebBundle.Proofs.Text.Pieces

/-!
# Diagnostics in lines

The written form of a value without blanks holds no control character, for those of its strings are
escaped. So values that are written one after the other, each with a line feed, stand in one line
each, whether the text is split at every line feed or read line by line.

A diagnostic is read back from its value: the parts that are left out are those that the reader puts
in where they are missing. Its line of JSON holds no line feed, whatever its texts are, so a list of
diagnostics that is written as lines of JSON is read back line by line.
-/

namespace WebBundle.Json

open Text

/-! ## Control characters -/

theorem escape_ne_of_control {c : Char} (control : c.toNat < 0x20) : escape c ≠ [c] := by
  unfold escape
  split_ifs <;> simp [Hex.fixed]

theorem not_control_of_all {text : List Char}
    (printed : (text.all fun c => 0x20 ≤ c.toNat) = true) : ∀ c ∈ text, ¬c.toNat < 0x20 :=
  fun c member => Nat.not_lt.2 (of_decide_eq_true (List.all_eq_true.1 printed c member))

/-- No control character stands in a quoted string. -/
theorem not_control_of_mem_quote {text : List Char} {c : Char} (member : c ∈ quote text) :
    ¬c.toNat < 0x20 := by
  have letters : ∀ c ∈ escapeLetters, ¬c.toNat < 0x20 := not_control_of_all (by decide)
  rw [quote, List.cons_append, List.mem_cons, List.mem_append, List.mem_singleton,
    List.mem_flatMap] at member
  rcases member with rfl | ⟨d, _, written⟩ | rfl
  · decide
  · rcases escape_cases d with itself | ⟨_, escaped⟩
    · rw [itself, List.mem_singleton] at written
      subst written
      exact fun control => escape_ne_of_control control itself
    · exact letters c (escaped c written)
  · decide

theorem mem_compactItems {items : List Json} {c : Char} (member : c ∈ compactItems items) :
    c = ',' ∨ ∃ item ∈ items, c ∈ item.compact := by
  induction items with
  | nil => cases member
  | cons item items ih =>
      cases items with
      | nil => exact .inr ⟨item, List.mem_cons_self, member⟩
      | cons next items =>
          rw [compactItems.eq_3 _ _ (by simp), List.mem_append, List.mem_cons] at member
          rcases member with here | rfl | later
          · exact .inr ⟨item, List.mem_cons_self, here⟩
          · exact .inl rfl
          · refine (ih later).imp_right ?_
            rintro ⟨other, listed, inside⟩
            exact ⟨other, List.mem_cons_of_mem item listed, inside⟩

theorem mem_compactFields {fields : List (String × Json)} {c : Char}
    (member : c ∈ compactFields fields) :
    c = ',' ∨ c = ':' ∨ ∃ field ∈ fields, c ∈ quote field.1.toList ∨ c ∈ field.2.compact := by
  induction fields with
  | nil => cases member
  | cons field fields ih =>
      obtain ⟨name, value⟩ := field
      cases fields with
      | nil =>
          rw [compactFields, List.mem_append, List.mem_cons] at member
          rcases member with inName | rfl | inValue
          · exact .inr (.inr ⟨_, List.mem_cons_self, .inl inName⟩)
          · exact .inr (.inl rfl)
          · exact .inr (.inr ⟨_, List.mem_cons_self, .inr inValue⟩)
      | cons next fields =>
          rw [compactFields.eq_3 _ _ _ (by simp), List.append_assoc, List.mem_append,
            List.cons_append, List.mem_cons, List.mem_append, List.mem_cons] at member
          rcases member with inName | rfl | inValue | rfl | later
          · exact .inr (.inr ⟨_, List.mem_cons_self, .inl inName⟩)
          · exact .inr (.inl rfl)
          · exact .inr (.inr ⟨_, List.mem_cons_self, .inr inValue⟩)
          · exact .inl rfl
          · refine (ih later).imp_right (Or.imp_right ?_)
            rintro ⟨other, listed, inside⟩
            exact ⟨other, List.mem_cons_of_mem _ listed, inside⟩

/-- No control character stands in the written form of a value. -/
theorem not_control_of_mem_compact {value : Json} (textual : value.IsTextual) :
    ∀ c ∈ value.compact, ¬c.toNat < 0x20 := by
  induction textual with
  | null => exact not_control_of_all (by decide)
  | bool value =>
      cases value with
      | true => exact not_control_of_all (by decide)
      | false => exact not_control_of_all (by decide)
  | int value =>
      intro c member
      rcases isDigit_or_sign_of_mem member with isDigit | rfl
      · exact not_control_of_isDigit isDigit
      · decide
  | string value => exact fun c member => not_control_of_mem_quote member
  | array _ ih =>
      intro c member
      rw [compact, List.cons_append, List.mem_cons, List.mem_append, List.mem_singleton] at member
      rcases member with rfl | inside | rfl
      · decide
      · rcases mem_compactItems inside with rfl | ⟨item, listed, written⟩
        · decide
        · exact ih item listed c written
      · decide
  | object _ ih =>
      intro c member
      rw [compact, List.cons_append, List.mem_cons, List.mem_append, List.mem_singleton] at member
      rcases member with rfl | inside | rfl
      · decide
      · rcases mem_compactFields inside with rfl | rfl | ⟨field, listed, inName | inValue⟩
        · decide
        · decide
        · exact not_control_of_mem_quote inName
        · exact ih field listed c inValue
      · decide

/-! ## Lines -/

/-- Values that are written one after the other, each with a line feed. -/
def inLines (values : List Json) : List Char := values.flatMap fun value => value.compact ++ ['\n']

section

variable {values : List Json} (textual : ∀ value ∈ values, value.IsTextual)
include textual

theorem lines_inLines : lines (inLines values) = values.map compact := by
  have written : inLines values = (values.map compact).flatMap fun line => line ++ ['\n'] := by
    rw [List.flatMap_map, inLines]
  rw [written]
  refine lines_flatMap fun line listed => ?_
  obtain ⟨value, member, rfl⟩ := List.mem_map.1 listed
  have printed := not_control_of_mem_compact (textual value member)
  exact ⟨fun inside => printed _ inside (by decide),
    fun last => printed _ (List.mem_of_getLast? last) (by decide)⟩

theorem pieces_inLines : pieces (· = '\n') (inLines values) = values.map compact ++ [[]] := by
  induction values with
  | nil => rfl
  | cons value values ih =>
      have printed := not_control_of_mem_compact (textual value List.mem_cons_self)
      have alone : pieces (· = '\n') value.compact = [value.compact] :=
        pieces_of_not_mem fun inside => printed _ inside (by decide)
      have others := ih fun other listed => textual other (List.mem_cons_of_mem value listed)
      rw [inLines, List.flatMap_cons, List.append_assoc, List.singleton_append, pieces_append,
        alone]
      exact congrArg (value.compact :: ·) others

end

end WebBundle.Json

namespace WebBundle

open Text Json

theorem Severity.ofName?_name (severity : Severity) : ofName? severity.name = some severity := by
  cases severity <;> decide

theorem Category.ofName?_name (category : Category) : ofName? category.name = some category := by
  cases category <;> decide

namespace Diagnostic

/-! ## Values of diagnostics -/

theorem isTextual_array (items : List String) : (Json.array (items.map Json.string)).IsTextual := by
  refine .array fun item listed => ?_
  obtain ⟨text, _, rfl⟩ := List.mem_map.1 listed
  exact .string text

theorem isTextual_listField {name : String} {items : List String} {field : String × Json}
    (listed : field ∈ listField name items) : field.2.IsTextual := by
  unfold listField at listed
  split at listed
  next => cases listed
  next =>
    obtain rfl := List.mem_singleton.1 listed
    exact isTextual_array items

theorem isTextual_codeJson (code : Code) : (codeJson code).IsTextual := by
  refine .object fun field listed => ?_
  rcases List.mem_cons.1 listed with rfl | listed
  · exact .string _
  · obtain rfl := List.mem_singleton.1 listed
    exact .int _

theorem isTextual_toJson (diagnostic : Diagnostic) : diagnostic.toJson.IsTextual := by
  refine .object fun field listed => ?_
  rcases List.mem_append.1 listed with listed | inHelp
  · rcases List.mem_append.1 listed with listed | inNotes
    · rcases List.mem_append.1 listed with always | inLocation
      · simp only [List.mem_cons, List.not_mem_nil, or_false] at always
        rcases always with rfl | rfl | rfl
        · exact .string _
        · exact isTextual_codeJson _
        · exact .string _
      · cases location : diagnostic.location with
        | none => simp [location] at inLocation
        | some place =>
            simp only [location, List.mem_singleton] at inLocation
            subst inLocation
            exact .string _
    · exact isTextual_listField inNotes
  · exact isTextual_listField inHelp

theorem texts?_array (items : List String) :
    texts? (.array (items.map Json.string)) = some items := by
  rw [texts?]
  induction items with
  | nil => rfl
  | cons item items ih => rw [List.map_cons, List.mapM_cons, ih]; rfl

theorem codeOfJson?_codeJson {code : Code} (fits : code.number < 65536) :
    codeOfJson? (codeJson code) = some code := by
  have reads : natBelow? 65536 (.int code.number) = some code.number := by
    rw [natBelow?, if_pos (by omega), Int.toNat_natCast]
  have parts : (codeJson code).parts? ["category", "number"] =
      some [some (.string code.category.name), some (.int code.number)] := by
    simp [codeJson, parts?, valuesOf]
  rw [codeOfJson?, parts]
  simp [unitName?, Category.ofName?_name, reads]

/-- The field for a list, if there is one. -/
def listPart (items : List String) : Option Json :=
  if items.isEmpty then none else some (.array (items.map Json.string))

theorem optionalPart?_listPart (items : List String) :
    optionalPart? [] texts? (listPart items) = some items := by
  cases items with
  | nil => rfl
  | cons item items => exact texts?_array (item :: items)

theorem optionalPart?_location (location : Option String) :
    optionalPart? none optionalText? (location.map Json.string) = some location := by
  cases location with
  | none => rfl
  | some location => rfl

theorem parts?_toJson (diagnostic : Diagnostic) :
    diagnostic.toJson.parts? ["severity", "code", "message", "location", "notes", "help"] =
      some [some (.string diagnostic.severity.name), some (codeJson diagnostic.code),
        some (.string diagnostic.message), diagnostic.location.map Json.string,
        listPart diagnostic.notes, listPart diagnostic.help] := by
  obtain ⟨severity, code, message, location, notes, help⟩ := diagnostic
  cases location <;> cases notes <;> cases help <;>
    simp [toJson, parts?, valuesOf, listField, listPart]

theorem ofJson?_toJson {diagnostic : Diagnostic} (fits : diagnostic.code.number < 65536) :
    ofJson? diagnostic.toJson = some diagnostic := by
  rw [ofJson?, parts?_toJson]
  simp [unitName?, Severity.ofName?_name, codeOfJson?_codeJson fits, text?, optionalPart?_location,
    optionalPart?_listPart]

/-! ## Lines of diagnostics -/

/-- A diagnostic is read back from its line. -/
theorem parse?_render {diagnostic : Diagnostic} (fits : diagnostic.code.number < 65536) :
    parse? diagnostic.toJson.render = some diagnostic := by
  rw [parse?, Json.parse?_render (isTextual_toJson diagnostic), Option.bind_some,
    ofJson?_toJson fits]

theorem toList_renderAllJson (diagnostics : List Diagnostic) :
    (renderAllJson diagnostics).toList = inLines (diagnostics.map toJson) := by
  simp [renderAllJson, renderJson, render, inLines, String.toList_join, List.flatMap_map]

/-- The text is split at its line feeds into lines that are not empty, with nothing behind the last
one, and these lines are read as the diagnostics, one by one. -/
structure ReadsByLines (text : String) (diagnostics : List Diagnostic) : Prop where
  pieces_eq : pieces (· = '\n') text.toList = lines text.toList ++ [[]]
  nonempty : ∀ line ∈ lines text.toList, line ≠ []
  length_eq : (lines text.toList).length = diagnostics.length
  parse?_eq : (lines text.toList).map (fun line => parse? (String.ofList line)) =
    diagnostics.map some

theorem compact_ne_nil (diagnostic : Diagnostic) : diagnostic.toJson.compact ≠ [] := by
  rw [toJson, compact]
  exact List.cons_ne_nil _ _

/-- Diagnostics that are written as lines of JSON are read back line by line. The number of a code
has sixteen bits. -/
theorem readsByLines_renderAllJson {diagnostics : List Diagnostic}
    (fits : ∀ diagnostic ∈ diagnostics, diagnostic.code.number < 65536) :
    ReadsByLines (renderAllJson diagnostics) diagnostics := by
  have textual : ∀ value ∈ diagnostics.map toJson, value.IsTextual := by
    intro value listed
    obtain ⟨diagnostic, _, rfl⟩ := List.mem_map.1 listed
    exact isTextual_toJson diagnostic
  have split : lines (renderAllJson diagnostics).toList =
      diagnostics.map fun diagnostic => diagnostic.toJson.compact := by
    rw [toList_renderAllJson, lines_inLines textual, List.map_map]
    rfl
  constructor
  case pieces_eq => rw [toList_renderAllJson, pieces_inLines textual, lines_inLines textual]
  case nonempty =>
    intro line listed
    rw [split] at listed
    obtain ⟨diagnostic, _, rfl⟩ := List.mem_map.1 listed
    exact compact_ne_nil diagnostic
  case length_eq => rw [split, List.length_map]
  case parse?_eq =>
    rw [split, List.map_map]
    refine List.map_congr_left fun diagnostic listed => ?_
    rw [Function.comp_apply, ← render]
    exact parse?_render (fits diagnostic listed)

/-- Texts with line feeds, quotes, backslashes and control characters, and texts that are empty. -/
def roughReports : List Diagnostic :=
  [{ severity := .warning, code := .duplicate, message := "two\nlines \"quoted\" \\",
     location := some "", notes := ["", "\r\n", "\x00\x1b"], help := [] },
   { severity := .note, code := ⟨.fatal, 65535⟩, message := "" }]

theorem readsByLines_roughReports :
    (∀ diagnostic ∈ roughReports, diagnostic.code.number < 65536) ∧
      ReadsByLines (renderAllJson roughReports) roughReports :=
  ⟨by decide, readsByLines_renderAllJson (by decide)⟩

end Diagnostic

end WebBundle
