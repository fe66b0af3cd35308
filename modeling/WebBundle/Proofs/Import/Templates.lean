import Mathlib
import WebBundle.Import.Lexer

/-!
# Templates and escapes of a script

The steps in which a script is cut into tokens, each with its first character and what follows it.
A step at a backtick reads a template if its closing backtick is there; in an unclosed one reading
ends with the text. Behind a backslash in a string literal, in a regular expression, or in a string
of an expression of a template, the next character is read as it is: it is escaped.
-/

namespace WebBundle.Import

/-! ## Reading a template -/

/-- What is open behind one more character of a template, and the text behind it. An escaped
character and a brace behind a dollar sign are read with the character before them. -/
def templateStep (outer : List TemplateState) (c : Char) (text : List Char) :
    TemplateState → List TemplateState × List Char
  | .body =>
      if c = '\\' then (.body :: outer, text.tail)
      else if c = '$' && text.head? = some '{' then
        (.expression 1 :: .body :: outer, text.tail)
      else if c.toNat = 0x60 then (outer, text)
      else (.body :: outer, text)
  | .expression depth =>
      if c = '{' then (.expression (depth + 1) :: outer, text)
      else if c = '}' then
        if depth ≤ 1 then (outer, text) else (.expression (depth - 1) :: outer, text)
      else if c = '"' || c = '\'' then (.quoted c :: .expression depth :: outer, text)
      else if c.toNat = 0x60 then (.body :: .expression depth :: outer, text)
      else (.expression depth :: outer, text)
  | .quoted quote =>
      if c = '\\' then (.quoted quote :: outer, text.tail)
      else if c = quote || c = '\n' then (outer, text)
      else (.quoted quote :: outer, text)

/-- The text behind the character of a step is left, or one more character is read with it. -/
theorem templateStep_suffix (outer : List TemplateState) (c : Char) (text : List Char)
    (state : TemplateState) : (templateStep outer c text state).2 <:+ text := by
  have tail : text.tail <:+ text := List.tail_suffix text
  cases state with
  | body =>
      rw [templateStep]
      split_ifs
      · exact tail
      · exact tail
      · exact List.suffix_rfl
      · exact List.suffix_rfl
  | expression depth =>
      rw [templateStep]
      split_ifs <;> exact List.suffix_rfl
  | quoted quote =>
      rw [templateStep]
      split_ifs
      · exact tail
      · exact List.suffix_rfl
      · exact List.suffix_rfl

theorem afterTemplate_cons (state : TemplateState) (outer : List TemplateState) (c : Char)
    (text : List Char) :
    afterTemplate (state :: outer) (c :: text) =
      afterTemplate (templateStep outer c text state).1 (templateStep outer c text state).2 := by
  cases state with
  | body =>
      by_cases escapes : c = '\\'
      · subst escapes
        cases text with
        | nil => rfl
        | cons d text => rfl
      · by_cases opens : c = '$' ∧ text.head? = some '{'
        · obtain ⟨rfl, brace⟩ := opens
          obtain ⟨rest, rfl⟩ := List.head?_eq_some_iff.1 brace
          rfl
        · have noBrace : ∀ rest, c = '$' → text = '{' :: rest → False := by
            rintro rest rfl rfl
            exact opens ⟨rfl, rfl⟩
          have opens' : (decide (c = '$') && decide (text.head? = some '{')) = false := by
            simpa using opens
          rw [afterTemplate.eq_6 outer c text escapes noBrace, templateStep, if_neg escapes, opens',
            if_neg Bool.false_ne_true]
          split_ifs <;> rfl
  | expression depth =>
      rw [afterTemplate.eq_7, templateStep]
      split_ifs <;> rfl
  | quoted quote =>
      cases text with
      | nil =>
          rw [afterTemplate.eq_8, templateStep]
          split_ifs <;> rfl
      | cons d text =>
          rw [afterTemplate.eq_9, templateStep]
          split_ifs <;> rfl

/-- The text behind a template, if it is closed. -/
def templateRest? : List TemplateState → List Char → Option (List Char)
  | [], text => some text
  | _ :: _, [] => none
  | state :: outer, c :: text =>
      templateRest? (templateStep outer c text state).1 (templateStep outer c text state).2
  termination_by _ text => text.length
  decreasing_by exact Nat.lt_succ_of_le (templateStep_suffix outer c text state).length_le

theorem afterTemplate_eq (states : List TemplateState) (text : List Char) :
    afterTemplate states text = (templateRest? states text).getD [] := by
  fun_induction templateRest? states text with
  | case1 text => rw [afterTemplate.eq_1, Option.getD_some]
  | case2 state outer => rw [afterTemplate.eq_2, Option.getD_none]
  | case3 state outer c text ih => rw [afterTemplate_cons, ih]

/-- A backslash in a string escapes the text behind it. -/
def escapedAfter (c : Char) (text : List Char) : TemplateState → List (List Char)
  | .quoted _ => if c = '\\' then [text] else []
  | _ => []

/-- The texts that begin with an escaped character of a string in a template. -/
def templateEscapes : List TemplateState → List Char → List (List Char)
  | [], _ => []
  | _ :: _, [] => []
  | state :: outer, c :: text =>
      escapedAfter c text state ++
        templateEscapes (templateStep outer c text state).1 (templateStep outer c text state).2
  termination_by _ text => text.length
  decreasing_by exact Nat.lt_succ_of_le (templateStep_suffix outer c text state).length_le

/-- What can be open in a template: strings in expressions, expressions in texts, and texts in
expressions or at the outside. -/
inductive Nests : List TemplateState → Prop where
  | template : Nests [.body]
  | expression {outer : List TemplateState} (depth : Nat) (nests : Nests (.body :: outer)) :
      Nests (.expression depth :: .body :: outer)
  | body {outer : List TemplateState} {depth : Nat} (nests : Nests (.expression depth :: outer)) :
      Nests (.body :: .expression depth :: outer)
  | quoted {outer : List TemplateState} {depth : Nat} {quote : Char}
      (isQuote : quote = '"' ∨ quote = '\'') (nests : Nests (.expression depth :: outer)) :
      Nests (.quoted quote :: .expression depth :: outer)

/-- Only a backtick closes a template. -/
theorem nests_templateStep {state : TemplateState} {outer : List TemplateState}
    (nests : Nests (state :: outer)) (c : Char) (text : List Char) :
    Nests (templateStep outer c text state).1 ∨
      templateStep outer c text state = ([], text) ∧ c.toNat = 0x60 := by
  unfold templateStep
  cases nests with
  | template =>
      dsimp only
      split_ifs with escapes opens closes
      · exact .inl .template
      · exact .inl (.expression 1 .template)
      · exact .inr ⟨rfl, closes⟩
      · exact .inl .template
  | expression depth nests =>
      dsimp only
      split_ifs with opens closes ends isQuote
      · exact .inl (.expression _ nests)
      · exact .inl nests
      · exact .inl (.expression _ nests)
      · exact .inl (.quoted (by simpa using isQuote) (.expression depth nests))
      · exact .inl (.body (.expression depth nests))
      · exact .inl (.expression depth nests)
  | body nests =>
      dsimp only
      split_ifs
      · exact .inl (.body nests)
      · exact .inl (.expression 1 (.body nests))
      · exact .inl nests
      · exact .inl (.body nests)
  | quoted isQuote nests =>
      dsimp only
      split_ifs
      · exact .inl (.quoted isQuote nests)
      · exact .inl nests
      · exact .inl (.quoted isQuote nests)

/-- A closed template ends with a backtick. -/
theorem exists_of_templateRest? {states : List TemplateState} {text rest : List Char}
    (nests : Nests states) (closed : templateRest? states text = some rest) :
    ∃ inner last, text = inner ++ last :: rest ∧ last.toNat = 0x60 := by
  fun_induction templateRest? states text with
  | case1 text => cases nests
  | case2 state outer => cases closed
  | case3 state outer c text ih =>
      rcases nests_templateStep nests c text with nests' | ⟨ends, closing⟩
      · obtain ⟨inner, last, behind, closing⟩ := ih nests' closed
        obtain ⟨skipped, whole⟩ := templateStep_suffix outer c text state
        refine ⟨c :: skipped ++ inner, last, ?_, closing⟩
        rw [← whole, behind]
        simp only [List.cons_append, List.append_assoc]
      · rw [ends, templateRest?] at closed
        obtain rfl := Option.some.inj closed
        exact ⟨[], c, rfl, closing⟩

/-! ## Escapes in string literals and regular expressions -/

/-- The texts that begin with an escaped character of a string literal. -/
def literalEscapes (quote : Char) : List Char → List (List Char)
  | [] => []
  | ['\\'] => []
  | '\\' :: c :: text => (c :: text) :: literalEscapes quote text
  | c :: text => if c = '\n' || c = quote then [] else literalEscapes quote text

/-- The texts that begin with an escaped character of a regular expression. -/
def regexEscapes : (inClass : Bool) → List Char → List (List Char)
  | _, [] => []
  | _, ['\\'] => []
  | inClass, '\\' :: c :: text => (c :: text) :: regexEscapes inClass text
  | inClass, c :: text =>
      if c = '\n' then []
      else if c = '[' then regexEscapes true text
      else if c = ']' then regexEscapes false text
      else if c = '/' && !inClass then []
      else regexEscapes inClass text

section

variable {c quote : Char} {content text : List Char} {inClass : Bool}

/-- A character that begins no escape is no backslash. -/
theorem ne_backslash (ended : c = '\\' → text = [] → False)
    (escapes : ∀ d rest, c = '\\' → text = d :: rest → False) : c ≠ '\\' := by
  intro same
  cases text with
  | nil => exact ended same rfl
  | cons d rest => exact escapes d rest same rfl

theorem readLiteral_plain (plain : c ≠ '\\') :
    readLiteral quote content (c :: text) =
      if c = '\n' then (none, c :: text)
      else if c = quote then (some content.reverse, text)
      else readLiteral quote (c :: content) text :=
  readLiteral.eq_4 quote content c text (fun same _ => plain same) fun _ _ same _ => plain same

theorem readLiteral_feed (text : List Char) :
    readLiteral quote content ('\n' :: text) = (none, '\n' :: text) := by
  rw [readLiteral_plain (by decide), if_pos rfl]

theorem literalEscapes_plain (plain : c ≠ '\\') :
    literalEscapes quote (c :: text) =
      if c = '\n' || c = quote then [] else literalEscapes quote text :=
  literalEscapes.eq_4 quote c text (fun same _ => plain same) fun _ _ same _ => plain same

theorem afterRegex_plain (plain : c ≠ '\\') :
    afterRegex inClass (c :: text) =
      if c = '\n' then c :: text
      else if c = '[' then afterRegex true text
      else if c = ']' then afterRegex false text
      else if c = '/' && !inClass then text.dropWhile Char.isAlpha
      else afterRegex inClass text :=
  afterRegex.eq_4 inClass c text (fun same _ => plain same) fun _ _ same _ => plain same

theorem afterRegex_feed (text : List Char) : afterRegex inClass ('\n' :: text) = '\n' :: text := by
  rw [afterRegex_plain (by decide), if_pos rfl]

theorem regexEscapes_plain (plain : c ≠ '\\') :
    regexEscapes inClass (c :: text) =
      if c = '\n' then []
      else if c = '[' then regexEscapes true text
      else if c = ']' then regexEscapes false text
      else if c = '/' && !inClass then []
      else regexEscapes inClass text :=
  regexEscapes.eq_4 inClass c text (fun same _ => plain same) fun _ _ same _ => plain same

end

/-! ## Steps of the lexer -/

/-- A step of the lexer: the last token before it, the first character that it reads, and the text
behind this character. -/
structure Step where
  last : Option Token
  first : Char
  text : List Char

namespace Step

/-- The token that the step reads, if it reads one. -/
def token (step : Step) : Option Token := (readToken step.last step.first step.text).1

/-- The text behind the step. -/
def rest (step : Step) : List Char := (readToken step.last step.first step.text).2

theorem length_rest_le (step : Step) : step.rest.length ≤ step.text.length :=
  length_readToken_le step.last step.first step.text

/-- The template that the step reads, from its backtick to its closing backtick. -/
def template? (step : Step) : Option (List Char) :=
  if step.first.toNat = 0x60 then
    (templateRest? [.body] step.text).map fun rest =>
      step.first :: step.text.take (step.text.length - rest.length)
  else none

/-- The texts that begin with an escaped character: in a string literal, a regular expression, or a
string in a template. -/
def escapes (step : Step) : List (List Char) :=
  if step.first = '\'' || step.first = '"' then literalEscapes step.first step.text
  else if step.first.toNat = 0x60 then templateEscapes [.body] step.text
  else if step.first = '/' && step.text.head? ≠ some '/' && step.text.head? ≠ some '*' &&
    slashBeginsRegex step.last then regexEscapes false step.text
  else []

end Step

/-- The steps over a text behind a given last token. -/
def stepsFrom (last : Option Token) : List Char → List Step
  | [] => []
  | c :: text =>
      ⟨last, c, text⟩ :: stepsFrom ((Step.mk last c text).token.or last) (Step.mk last c text).rest
  termination_by text => text.length
  decreasing_by exact Nat.lt_succ_of_le (Step.length_rest_le _)

/-- The template literals of a text. A literal that stands in another one is a part of it. -/
def templates (text : List Char) : List (List Char) :=
  (stepsFrom none text).filterMap Step.template?

theorem tokensFrom_eq (last : Option Token) (text : List Char) :
    tokensFrom last text = (stepsFrom last text).filterMap Step.token := by
  fun_induction stepsFrom last text with
  | case1 last => rw [tokensFrom, List.filterMap_nil]
  | case2 last c text ih =>
      rw [tokensFrom, List.filterMap_cons]
      cases read : (Step.mk last c text).token with
      | none =>
          rw [read, Option.none_or] at ih
          rw [Step.token] at read
          simp only [read]
          exact ih
      | some token =>
          rw [read, Option.some_or] at ih
          rw [Step.token] at read
          simp only [read]
          exact congrArg (token :: ·) ih

end WebBundle.Import
