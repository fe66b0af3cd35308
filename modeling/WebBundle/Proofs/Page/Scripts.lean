import WebBundle.Proofs.Page.Readers

/-!
# Stripped scripts

Stripping looks at lines, the lexer at tokens. A step of the lexer reads the same token from the
stripped text as from the text itself if no dropped character is a part of that token or is escaped
in it, so a script in which this holds of all steps has the same tokens when it is stripped. Its
templates, which span lines, are squeezed.
-/

namespace WebBundle.Page

open Text Import

variable {c : Char} {text rest : List Char}

/-! ## Steps of the lexer -/

/-- No word and no punctuation character ends with a character that is dropped, and where a dropped
character is escaped only blanks follow. -/
def keeps (step : Step) : Bool :=
  (match step.token with
    | some (.word word) => word.getLast?.all fun last => !drops last step.rest
    | some (.punct c) => !drops c step.rest
    | _ => true) && step.escapes.all staysOrEnds

section

variable {last : Option Token}

theorem stays_of_keeps {step : Step} (kept : keeps step = true) :
    ∀ escaped ∈ step.escapes, staysOrEnds escaped = true := by
  rw [keeps, Bool.and_eq_true, List.all_eq_true] at kept
  exact kept.2

theorem kept_of_word {step : Step} (kept : keeps step = true) {word : List Char} {final : Char}
    (token : step.token = some (.word word)) (ends : word.getLast? = some final) :
    drops final step.rest = false := by
  rw [keeps, Bool.and_eq_true, token] at kept
  simpa [ends] using kept.1

theorem kept_of_punct {step : Step} (kept : keeps step = true)
    (token : step.token = some (.punct c)) : drops c step.rest = false := by
  rw [keeps, Bool.and_eq_true, token] at kept
  simpa using kept.1

/-- A word of which the last character stays is left as it is. -/
theorem word_stripFrom
    (kept : ∀ final, (c :: text.takeWhile Import.isWordChar).getLast? = some final →
      drops final (text.dropWhile Import.isWordChar) = false) :
    (stripFrom text).takeWhile Import.isWordChar = text.takeWhile Import.isWordChar ∧
      (stripFrom text).dropWhile Import.isWordChar =
        stripFrom (text.dropWhile Import.isWordChar) := by
  refine run_stripFrom (by decide) fun final found => kept final ?_
  rw [List.getLast?_cons, found, Option.getD_some]

/-- A step over the stripped text reads the same token. -/
theorem token_stripFrom (kept : keeps ⟨last, c, text⟩ = true) :
    (Step.mk last c (stripFrom text)).token = (Step.mk last c text).token ∧
      Leaves (Step.mk last c text).rest (Step.mk last c (stripFrom text)).rest := by
  have slash : isBlank '/' = false := by decide
  have star : isBlank '*' = false := by decide
  have stays := stays_of_keeps kept
  have kept : ∀ word final, (Step.mk last c text).token = some (.word word) →
      word.getLast? = some final → drops final (Step.mk last c text).rest = false :=
    fun _ _ => kept_of_word kept
  rw [Step.escapes] at stays
  unfold Step.token Step.rest readToken at *
  simp only [head?_stripFrom slash, head?_stripFrom star]
  split_ifs with blank line block regex quote backtick digit wordChar
  case pos => exact ⟨rfl, .inl rfl⟩
  case pos => exact ⟨rfl, .inl (dropLine_stripFrom text)⟩
  case pos =>
    rw [Bool.and_eq_true, decide_eq_true_eq, decide_eq_true_eq] at block
    obtain ⟨comment, rfl⟩ := List.head?_eq_some_iff.1 block.2
    rw [stripFrom_of_not_isBlank star]
    exact ⟨rfl, leaves_afterBlockComment comment⟩
  case pos =>
    obtain ⟨rfl, begins⟩ : c = '/' ∧ slashBeginsRegex last = true := by simpa using regex
    have noLine : text.head? ≠ some '/' := by simpa using line
    have noBlock : text.head? ≠ some '*' := by simpa using block
    refine ⟨rfl, leaves_afterRegex ?_⟩
    simpa [noLine, noBlock, begins] using stays
  case pos =>
    have solid : isBlank c = false := by
      rw [Bool.or_eq_true, decide_eq_true_eq, decide_eq_true_eq] at quote
      rcases quote with rfl | rfl
      · decide
      · decide
    rw [if_pos (by simpa using quote)] at stays
    obtain ⟨content, leaves⟩ := readLiteral_stripFrom [] solid stays
    exact ⟨congrArg (Option.map Token.literal) content, leaves⟩
  case pos =>
    rw [if_neg (by simpa using quote), if_pos backtick] at stays
    refine ⟨rfl, ?_⟩
    dsimp only
    rw [afterTemplate_eq, afterTemplate_eq, templateRest?_stripFrom .template stays]
    cases templateRest? [.body] text with
    | none => exact .inr ⟨rfl, rfl⟩
    | some rest => exact .inl rfl
  case pos => exact ⟨rfl, .inl (dropWhile_stripFrom (fun _ => not_isBlank_of_isNumberChar) text)⟩
  case pos =>
    have ends := kept (c :: text.takeWhile Import.isWordChar)
    simp only [blank, line, block, regex, quote, backtick, digit, wordChar] at ends
    obtain ⟨run, behind⟩ := word_stripFrom fun final found => ends final rfl found
    rw [run, behind]
    exact ⟨rfl, .inl rfl⟩
  case neg => exact ⟨rfl, .inl rfl⟩

theorem take_length_sub (front back : List Char) :
    (front ++ back).take ((front ++ back).length - back.length) = front := by
  rw [List.length_append, Nat.add_sub_cancel, List.take_left]

/-- A step over the stripped text reads the same template, squeezed. -/
theorem template?_stripFrom (stayed : drops c text = false)
    (kept : keeps ⟨last, c, text⟩ = true) :
    (Step.mk last c (stripFrom text)).template? =
      (Step.mk last c text).template?.map squeeze := by
  have stays := stays_of_keeps kept
  unfold Step.template?
  dsimp only
  split_ifs with backtick
  case neg => rfl
  case pos =>
    have solid := not_isBlank_of_backtick backtick
    have noQuote : ¬(c = '\'' ∨ c = '"') := by
      rintro (rfl | rfl)
      · exact absurd backtick (by decide)
      · exact absurd backtick (by decide)
    rw [Step.escapes, if_neg (by simpa using noQuote), if_pos backtick] at stays
    rw [templateRest?_stripFrom .template stays]
    cases closed : templateRest? [.body] text with
    | none => rfl
    | some rest =>
        obtain ⟨inner, final, rfl, backtick'⟩ := exists_of_templateRest? .template closed
        have solid' := not_isBlank_of_backtick backtick'
        obtain ⟨squeezed, strips⟩ := exists_stripFrom_append solid' inner
        have same : c :: squeezed = squeeze (c :: (inner ++ [final])) := by
          have whole := stripFrom_append solid solid' inner rest
          rw [stripFrom_of_not_isBlank solid, strips, ← List.cons_append] at whole
          exact List.append_cancel_right whole
        have source : inner ++ final :: rest = inner ++ [final] ++ rest := by
          rw [List.append_assoc, List.singleton_append]
        simp only [Option.map_some]
        rw [strips, source, take_length_sub, take_length_sub, same]

theorem readToken_of_isBlank (blank : isBlank c = true) :
    readToken last c text =
      if isBlankChar c then (none, text)
      else if Import.isWordChar c then
        (some (.word (c :: text.takeWhile Import.isWordChar)), text.dropWhile Import.isWordChar)
      else (some (.punct c), text) := by
  have noSlash : c ≠ '/' := ne_of_isBlank blank (by decide)
  have noQuote : c ≠ '\'' := ne_of_isBlank blank (by decide)
  have noQuote' : c ≠ '"' := ne_of_isBlank blank (by decide)
  have noBacktick := ne_backtick_of_isBlank blank
  have noDigit : c.isDigit = false := by
    rw [← Bool.not_eq_true]
    intro digit
    have solid : isBlank c = false :=
      not_isBlank_of_isAlphanum (by rw [Char.isAlphanum, digit, Bool.or_true])
    rw [solid] at blank
    cases blank
  simp [readToken, noSlash, noQuote, noQuote', noBacktick, noDigit]

/-- A dropped character is no part of a token. -/
theorem isBlankChar_of_drops (dropped : drops c text = true) (kept : keeps ⟨last, c, text⟩ = true) :
    isBlankChar c = true := by
  obtain ⟨blank, _⟩ := drops_iff.1 dropped
  by_contra notSkipped
  cases wordChar : Import.isWordChar c with
  | true =>
      have read : readToken last c text =
          (some (.word (c :: text.takeWhile Import.isWordChar)),
            text.dropWhile Import.isWordChar) := by
        rw [readToken_of_isBlank blank, if_neg notSkipped, if_pos wordChar]
      have stays : drops c text = false := by
        refine kept_of_run (by decide) wordChar fun final found => ?_
        rw [List.takeWhile_cons, if_pos wordChar] at found
        have ends := kept_of_word kept (congrArg Prod.fst read) found
        rw [Step.rest, read] at ends
        rwa [List.dropWhile_cons, if_pos wordChar]
      rw [stays] at dropped
      cases dropped
  | false =>
      have read : readToken last c text = (some (.punct c), text) := by
        rw [readToken_of_isBlank blank, if_neg notSkipped, if_neg (by simp [wordChar])]
      have stays := kept_of_punct kept (congrArg Prod.fst read)
      rw [Step.rest, read, dropped] at stays
      cases stays

end

/-! ## Stripped scripts -/

section

variable {last : Option Token}

/-- A skipped character is no part of a token. -/
theorem stepsFrom_of_isBlankChar (skipped : isBlankChar c = true) (last : Option Token)
    (text : List Char) :
    (Step.mk last c text).token = none ∧ (Step.mk last c text).rest = text ∧
      stepsFrom last (c :: text) = ⟨last, c, text⟩ :: stepsFrom last text := by
  have read : readToken last c text = (none, text) := by rw [readToken, if_pos skipped]
  have token : (Step.mk last c text).token = none := congrArg Prod.fst read
  have rest : (Step.mk last c text).rest = text := congrArg Prod.snd read
  refine ⟨token, rest, ?_⟩
  rw [stepsFrom, token, rest, Option.none_or]

theorem filterMap_stepsFrom_of_isBlankChar (skipped : isBlankChar c = true) (last : Option Token)
    (text : List Char) :
    (stepsFrom last (c :: text)).filterMap Step.token =
        (stepsFrom last text).filterMap Step.token ∧
      (stepsFrom last (c :: text)).filterMap Step.template? =
        (stepsFrom last text).filterMap Step.template? := by
  obtain ⟨token, _, steps⟩ := stepsFrom_of_isBlankChar skipped last text
  have template : (Step.mk last c text).template? = none :=
    if_neg (ne_backtick_of_isBlank (isBlank_of_isBlankChar skipped))
  rw [steps, List.filterMap_cons_none token, List.filterMap_cons_none template]
  exact ⟨rfl, rfl⟩

theorem filterMap_stepsFrom_of_all_isBlank (blank : text.all isBlank = true)
    (kept : ∀ step ∈ stepsFrom last text, keeps step = true) :
    (stepsFrom last text).filterMap Step.token = [] ∧
      (stepsFrom last text).filterMap Step.template? = [] := by
  induction text with
  | nil =>
      rw [stepsFrom]
      exact ⟨rfl, rfl⟩
  | cons c text ih =>
      rw [List.all_cons, Bool.and_eq_true] at blank
      have dropped : drops c text = true := drops_iff.2 ⟨blank.1, isSolid_of_all_isBlank blank.2⟩
      have skipped : isBlankChar c = true := by
        rw [stepsFrom, List.forall_mem_cons] at kept
        exact isBlankChar_of_drops dropped kept.1
      rw [(stepsFrom_of_isBlankChar skipped last text).2.2, List.forall_mem_cons] at kept
      obtain ⟨tokens, templates⟩ := filterMap_stepsFrom_of_isBlankChar skipped last text
      rw [tokens, templates]
      exact ih blank.2 kept.2

/-- The steps over the stripped text read the same tokens, and the templates squeezed. -/
theorem filterMap_stepsFrom {stripped : List Char} (leaves : Leaves text stripped)
    (kept : ∀ step ∈ stepsFrom last text, keeps step = true) :
    (stepsFrom last stripped).filterMap Step.token = (stepsFrom last text).filterMap Step.token ∧
      (stepsFrom last stripped).filterMap Step.template? =
        ((stepsFrom last text).filterMap Step.template?).map squeeze := by
  fun_induction stepsFrom last text generalizing stripped with
  | case1 last =>
      rcases leaves with rfl | ⟨rfl, _⟩
      · have skipped : isBlankChar '\n' = true := by decide
        have feed := filterMap_stepsFrom_of_isBlankChar skipped last []
        rw [stepsFrom] at feed
        exact feed
      · rw [stepsFrom]
        exact ⟨rfl, rfl⟩
  | case2 last c text ih =>
      have here : keeps ⟨last, c, text⟩ = true := kept _ List.mem_cons_self
      have later := (List.forall_mem_cons.1 kept).2
      rcases leaves with rfl | ⟨rfl, blank⟩
      case inl =>
        cases dropped : drops c text with
        | true =>
            have skipped := isBlankChar_of_drops dropped here
            obtain ⟨token, rest, steps⟩ := stepsFrom_of_isBlankChar skipped last text
            obtain ⟨tokens, templates⟩ := filterMap_stepsFrom_of_isBlankChar skipped last text
            rw [token, rest, Option.none_or] at ih later
            rw [token, rest, Option.none_or, ← steps, tokens, templates,
              stripFrom_of_drops dropped]
            exact ih (.inl rfl) later
        | false =>
            obtain ⟨token, rest⟩ := token_stripFrom here
            obtain ⟨tokens, templates⟩ := ih rest later
            rw [stripFrom_of_kept dropped, stepsFrom, List.filterMap_cons, List.filterMap_cons,
              List.filterMap_cons, List.filterMap_cons, template?_stripFrom dropped here, token,
              tokens, templates]
            cases (Step.mk last c text).template? with
            | none => exact ⟨rfl, rfl⟩
            | some template => exact ⟨rfl, rfl⟩
      case inr =>
        have steps : stepsFrom last (c :: text) = ⟨last, c, text⟩ ::
            stepsFrom ((Step.mk last c text).token.or last) (Step.mk last c text).rest := by
          rw [stepsFrom]
        rw [← steps] at kept ⊢
        obtain ⟨tokens, templates⟩ := filterMap_stepsFrom_of_all_isBlank blank kept
        rw [tokens, templates, stepsFrom]
        exact ⟨rfl, rfl⟩

end

/-- Stripping keeps what the lexer reads outside of blanks, comments and templates: no dropped
character ends a word or is a punctuation character, and none is escaped in a string or in a regular
expression, unless only blanks follow. -/
def Keeps (text : List Char) : Prop := ∀ step ∈ stepsFrom none text, keeps step = true

theorem lexes_stripBlank {text : String} (kept : Keeps text.toList) :
    tokens (stripBlank text).toList = tokens text.toList ∧
      templates (stripBlank text).toList = (templates text.toList).map squeeze := by
  have feed : isBlankChar '\n' = true := by decide
  have kept' : ∀ step ∈ stepsFrom none ('\n' :: text.toList), keeps step = true := by
    obtain ⟨token, _, steps⟩ := stepsFrom_of_isBlankChar feed none text.toList
    rw [steps, List.forall_mem_cons]
    refine ⟨?_, kept⟩
    rw [keeps, token]
    rfl
  obtain ⟨read, closed⟩ := filterMap_stepsFrom (.inl (cons_stripBlank text)) kept'
  obtain ⟨read', closed'⟩ := filterMap_stepsFrom_of_isBlankChar feed none text.toList
  obtain ⟨read'', closed''⟩ := filterMap_stepsFrom_of_isBlankChar feed none
    (stripBlank text).toList
  rw [read', read''] at read
  rw [closed', closed''] at closed
  exact ⟨by rw [tokens, tokensFrom_eq, read, tokens, tokensFrom_eq], closed⟩

theorem ne_nil_of_mem_templates {template : List Char} (listed : template ∈ templates text) :
    template ≠ [] := by
  obtain ⟨step, _, closed⟩ := List.mem_filterMap.1 listed
  unfold Step.template? at closed
  split_ifs at closed
  obtain ⟨rest, _, rfl⟩ := Option.map_eq_some_iff.1 closed
  exact List.cons_ne_nil _ _

/-- A script from which stripping drops no more than blanks between tokens and in literals has the
same tokens when it is stripped. Its templates are squeezed, so they are the same exactly if no line
of them is blank or ends with a blank. -/
theorem templates_stripBlank {text : String} (kept : Keeps text.toList) :
    tokens (stripBlank text).toList = tokens text.toList ∧
      templates (stripBlank text).toList = (templates text.toList).map squeeze ∧
        (templates (stripBlank text).toList = templates text.toList ↔
          ∀ template ∈ templates text.toList, ∀ line ∈ pieces (· = '\n') template,
            line ≠ [] ∧ trimEnd line = line) := by
  obtain ⟨read, closed⟩ := lexes_stripBlank kept
  refine ⟨read, closed, ?_⟩
  rw [closed]
  constructor
  · intro same template listed
    have fixed := List.map_inj_left.1 (same.trans (List.map_id _).symm) template listed
    exact (squeeze_eq_self_iff (ne_nil_of_mem_templates listed)).1 fixed
  · intro lines
    refine (List.map_congr_left fun template listed => ?_).trans (List.map_id _)
    exact (squeeze_eq_self_iff (ne_nil_of_mem_templates listed)).2 (lines template listed)

/-- A script with a template of several lines, trailing blanks, blank lines, a line comment, and a
string that goes on behind an escaped line feed. -/
def pageScript : String := "f(`a  \n\n b`); \r\n\n// `c \ng('\\\n', /[`]/, `$\x7b'\"'\x7d `);"

theorem templates_pageScript :
    Keeps pageScript.toList ∧
      templates pageScript.toList = ["`a  \n\n b`".toList, "`$\x7b'\"'\x7d `".toList] ∧
        templates (stripBlank pageScript).toList =
          ["`a\n b`".toList, "`$\x7b'\"'\x7d `".toList] := by
  have kept : Keeps pageScript.toList := List.all_eq_true.1 (by cbv)
  have before : templates pageScript.toList =
      ["`a  \n\n b`".toList, "`$\x7b'\"'\x7d `".toList] := by
    cbv
  refine ⟨kept, before, ?_⟩
  rw [(templates_stripBlank kept).2.1, before]
  cbv

/-- A blank at the end of a line of a template is dropped. Where the dropped blank is escaped in a
string, a template is read as a part of it, and where it is no blank of the language, a regular
expression is read as a template. -/
theorem varies_templates :
    templates (stripBlank "`a \nb`").toList ≠ templates "`a \nb`".toList ∧
      templates (stripBlank "'\\ \n`x`").toList ≠ templates "'\\ \n`x`".toList ∧
        templates (stripBlank "1\x0b\n/`x`/").toList ≠ templates "1\x0b\n/`x`/".toList := by
  refine ⟨?_, ?_, ?_⟩
  · have before : templates "`a \nb`".toList = ["`a \nb`".toList] := by cbv
    have behind : templates (stripBlank "`a \nb`").toList = ["`a\nb`".toList] := by cbv
    rw [before, behind]
    decide
  · have before : templates "'\\ \n`x`".toList = ["`x`".toList] := by cbv
    have behind : templates (stripBlank "'\\ \n`x`").toList = [] := by cbv
    rw [before, behind]
    decide
  · have before : templates "1\x0b\n/`x`/".toList = [] := by cbv
    have behind : templates (stripBlank "1\x0b\n/`x`/").toList = ["`x`".toList] := by cbv
    rw [before, behind]
    decide

end WebBundle.Page
