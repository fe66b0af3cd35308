import WebBundle.Proofs.Import.Printing

/-!
# Calls among arguments

A call of `require` or `import` with one literal, written among the arguments of another call, is
found by the token before it: if this is a dot, the call counts as a call of a member. The lexer
makes three dots of a spread, so a spread call is taken for one of a member, too. What stands
before the statement and behind it is found as if the statement were not there.
-/

namespace WebBundle.Import

/-- A specifier that stands for itself in a literal. -/
def IsPlainText (text : List Char) : Prop := ∀ c ∈ text, c ≠ '\n' ∧ c ≠ '"' ∧ c ≠ '\\'

instance (text : List Char) : Decidable (IsPlainText text) :=
  List.decidableBAll _ text

theorem flatMap_escape_of_plain {text : List Char} (plain : IsPlainText text) :
    text.flatMap Piece.escape = text := by
  induction text with
  | nil => rfl
  | cons c text ih =>
      obtain ⟨⟨_, noQuote, noBackslash⟩, later⟩ := List.forall_mem_cons.1 plain
      have alone : Piece.escape c = [c] := by simp [Piece.escape, noQuote, noBackslash]
      rw [List.flatMap_cons, alone, ih later, List.singleton_append]

/-- A call that imports a specifier: at once by `require`, on demand by `import`. -/
structure Call where
  timing : Timing
  specifier : String
  plain : IsPlainText specifier.toList

namespace Call

def callee (call : Call) : String :=
  match call.timing with
  | .sync => "require"
  | .async => "import"

def text (call : Call) : String := call.callee ++ "(\"" ++ call.specifier ++ "\")"

def statement (call : Call) : Statement := ⟨call.timing, call.specifier⟩

/-- The call, the end of the argument list around it and the end of the statement. -/
def pieces (call : Call) : List Piece :=
  [.word call.callee.toList, .mark '(', .literal call.specifier.toList, .mark ')', .mark ')',
    .mark ';']

def tokens (call : Call) : List Token := call.pieces.filterMap Piece.token?

theorem isWord_callee (call : Call) : isWord call.callee.toList = true := by
  unfold callee
  cases call.timing <;> decide

theorem separable_pieces (call : Call) : Separable call.pieces := by
  have onLine : '\n' ∉ call.specifier.toList := fun feed => (call.plain _ feed).1 rfl
  simp only [Separable, pieces, Piece.Fits, Piece.marks, call.isWord_callee, List.head?_cons]
  simp [onLine]

theorem toList_text (call : Call) :
    (call.text ++ ");").toList = call.pieces.flatMap Piece.print := by
  simp [text, pieces, Piece.print, flatMap_escape_of_plain call.plain]

/-- The lexer, before a call, reads it and is at the end of the statement. -/
theorem tokensFrom_text (call : Call) (last : Option Token) (more : List Char) :
    tokensFrom last ((call.text ++ ");").toList ++ more) = call.tokens ++ Import.tokens more := by
  rw [toList_text, tokensFrom_flatMap_print call.separable_pieces]
  exact congrArg _ (tokensFrom_some_semicolon more)

theorem getLast?_tokens (call : Call) : call.tokens.getLast? = some (.punct ';') := rfl

/-- The call is found unless a dot stands before it. -/
theorem statementsFrom_tokens (call : Call) (previous : Option Token) :
    statementsFrom previous call.tokens =
      if previous = some (.punct '.') then [] else [(call.timing, call.specifier.toList)] := by
  have shape : call.tokens = .word call.callee.toList :: [.punct '(',
      .literal call.specifier.toList, .punct ')', .punct ')', .punct ';'] := rfl
  have read : readStatement call.callee.toList [.punct '(', .literal call.specifier.toList,
      .punct ')', .punct ')', .punct ';'] = some (call.timing, call.specifier.toList) := by
    unfold callee
    cases call.timing <;> rfl
  rw [shape, statementsFrom_cons, statementAt?, read]
  split_ifs <;> rfl

end Call

/-! ## What stands before a call -/

/-- How a call stands among arguments: as it is, as a call of a member, or spread. -/
inductive Lead where
  | nothing
  | member (object : Identifier)
  | spread

namespace Lead

def text : Lead → String
  | .nothing => ""
  | .member object => object.text ++ "."
  | .spread => "..."

def tokens : Lead → List Token
  | .nothing => []
  | .member object => [.word object.text.toList, .punct '.']
  | .spread => [.punct '.', .punct '.', .punct '.']

/-- The imports that are found for a call that stands so. -/
def found (call : Call) : Lead → List Statement
  | .nothing => [call.statement]
  | .member _ => []
  | .spread => []

theorem plain_of_mem (lead : Lead) : ∀ token ∈ lead.tokens, token.Plain := by
  have dot : (Token.punct '.').Plain := fun _ _ same => nomatch same
  cases lead with
  | nothing => exact nofun
  | member object => simp [tokens, dot, object.plain_word]
  | spread => simp [tokens, dot]

end Lead

theorem tokensFrom_dot (last : Option Token) (text : List Char) :
    tokensFrom last ('.' :: text) = .punct '.' :: tokensFrom (some (.punct '.')) text := by
  have read : readToken last '.' text = (some (.punct '.'), text) := rfl
  rw [tokensFrom_cons, read, Option.some_or]
  rfl

/-- A word is read before a character that belongs to no word. -/
theorem tokensFrom_word {word : List Char} (isWord : isWord word = true) {more : List Char}
    (ends : Piece.Ends more) (last : Option Token) :
    tokensFrom last (word ++ more) = .word word :: tokensFrom (some (.word word)) more := by
  have fits : (Piece.word word).Fits (some .blank) := ⟨isWord, .blank, rfl, nofun⟩
  exact tokensFrom_print fits (fun _ _ _ => ends) last

theorem Lead.tokensFrom_text (lead : Lead) {more : List Char} (last : Option Token) :
    tokensFrom last (lead.text.toList ++ more) =
      lead.tokens ++ tokensFrom (lead.tokens.getLast?.or last) more := by
  cases lead with
  | nothing => rfl
  | member object =>
      have ends : Piece.Ends ('.' :: more) := ⟨'.', rfl, by decide⟩
      rw [text, String.toList_append, List.append_assoc]
      refine (tokensFrom_word object.isWord ends last).trans ?_
      rw [tokensFrom_dot]
      rfl
  | spread =>
      refine (tokensFrom_dot last _).trans ?_
      refine congrArg _ ((tokensFrom_dot _ _).trans ?_)
      exact congrArg _ (tokensFrom_dot _ more)

/-! ## Statements with a call -/

/-- A statement that calls a function with a call as its last argument. -/
structure Argument where
  function : Identifier
  lead : Lead
  call : Call

namespace Argument

def text (argument : Argument) : String :=
  argument.function.text ++ "(" ++ argument.lead.text ++ argument.call.text ++ ");"

/-- What is read before the call. -/
def front (argument : Argument) : List Token :=
  .word argument.function.text.toList :: .punct '(' :: argument.lead.tokens

theorem plain_of_mem_front (argument : Argument) : ∀ token ∈ argument.front, token.Plain := by
  have bracket : (Token.punct '(').Plain := fun _ _ same => nomatch same
  rw [front, List.forall_mem_cons, List.forall_mem_cons]
  exact ⟨argument.function.plain_word, bracket, argument.lead.plain_of_mem⟩

theorem tokens_text_append (argument : Argument) (more : List Char) :
    tokens (argument.text.toList ++ more) =
      argument.front ++ (argument.call.tokens ++ tokens more) := by
  obtain ⟨function, lead, call⟩ := argument
  have shape : (text ⟨function, lead, call⟩).toList ++ more = function.text.toList ++
      '(' :: (lead.text.toList ++ ((call.text ++ ");").toList ++ more)) := by
    simp [text]
  have ends : Piece.Ends ('(' :: (lead.text.toList ++ ((call.text ++ ");").toList ++ more))) :=
    ⟨'(', rfl, by decide⟩
  rw [shape, tokens, tokensFrom_word function.isWord ends, tokensFrom_cons,
    readToken_mark (by decide), lead.tokensFrom_text, call.tokensFrom_text]
  rfl

theorem statementsFrom_tokens (argument : Argument) :
    statementsFrom none (argument.front ++ argument.call.tokens) =
      (argument.lead.found argument.call).map fun statement =>
        (statement.timing, statement.specifier.toList) := by
  rw [statementsFrom_append_of_plain argument.plain_of_mem_front, Option.or_none,
    argument.call.statementsFrom_tokens]
  cases argument with
  | mk function lead call => cases lead <;> rfl

/-- A call among arguments is found if nothing stands before it, and neither as a call of a member
nor spread. -/
theorem scan_text_append (argument : Argument) (back : String) :
    scan (argument.text ++ back) = argument.lead.found argument.call ++ scan back := by
  have closed : (argument.front ++ argument.call.tokens).getLast? = some (.punct ';') := by
    rw [List.getLast?_append, argument.call.getLast?_tokens]
    rfl
  have again (statement : Statement) :
      Statement.mk statement.timing (String.ofList statement.specifier.toList) = statement := by
    rw [String.ofList_toList]
  rw [scan, String.toList_append, tokens_text_append, ← List.append_assoc,
    statementsFrom_append closed, statementsFrom_tokens, List.map_append, List.map_map]
  exact congrArg (· ++ scan back) (List.map_id'' again _)

end Argument

/-- A spread call is hidden like a call of a member, and only a call behind neither is found. -/
theorem scan_argument {before : String} (ends : EndsStatement before.toList) (argument : Argument)
    (back : String) :
    scan (before ++ argument.text ++ back) =
      scan before ++ argument.lead.found argument.call ++ scan back := by
  rw [String.append_assoc, scan_append ends, argument.scan_text_append, List.append_assoc]

/-- Plugins that are loaded on demand, spread into the arguments. -/
def plugins : Argument where
  function := ⟨"f", by decide, by decide⟩
  lead := .spread
  call := ⟨.async, "./plugins", by decide⟩

/-- The statement is `f(...import("./plugins"));`, between scripts with imports of their own. -/
theorem scan_plugins :
    EndsStatement closedScript.toList ∧
      scan (closedScript ++ plugins.text ++ "require('b')") = [⟨.sync, "./a"⟩, ⟨.sync, "b"⟩] := by
  have ends : EndsStatement closedScript.toList :=
    ⟨by decide +kernel, '\n', .inr rfl, by decide +kernel⟩
  refine ⟨ends, ?_⟩
  rw [scan_argument ends]
  decide +kernel

/-- So it is not only the calls of members that are hidden. -/
theorem not_scan_spread :
    ¬∀ before specifier back : String, EndsStatement before.toList →
      IsPlainText specifier.toList →
        scan (before ++ ("f(...require(\"" ++ specifier ++ "\"));") ++ back) =
          scan before ++ [⟨.sync, specifier⟩] ++ scan back := by
  intro found
  have ends : EndsStatement closedScript.toList :=
    ⟨by decide +kernel, '\n', .inr rfl, by decide +kernel⟩
  have hidden : scan (closedScript ++ ("f(...require(\"" ++ "S" ++ "\"));") ++ "") ≠
      scan closedScript ++ [⟨.sync, "S"⟩] ++ scan "" := by
    decide +kernel
  exact hidden (found closedScript "S" "" ends (by decide))

end WebBundle.Import
