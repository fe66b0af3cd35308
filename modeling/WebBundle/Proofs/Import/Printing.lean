import WebBundle.Proofs.Import.Composition

/-!
# Printed imports

A script is printed from words, marks, string literals and blanks. If something else stands between
any two words, the lexer reads the same words, marks and literals again. So every import that is
printed in one of the usual forms, on a line of its own, is found again with its specifier.
-/

namespace WebBundle.Import

/-! ## Pieces of a script -/

/-- The words of a script: they begin with no digit. -/
def isWord : List Char → Bool
  | [] => false
  | c :: text => !c.isDigit && (c :: text).all isWordChar

inductive Piece where
  | word (text : List Char)
  | mark (c : Char)
  | literal (content : List Char)
  | blank

namespace Piece

def marks : List Char := ['\x7b', '\x7d', '(', ')', ',', '*', '=', ';']

/-- A backslash stands before each backslash and each quote. -/
def escape (c : Char) : List Char := if c = '\\' || c = '"' then ['\\', c] else [c]

def print : Piece → List Char
  | .word text => text
  | .mark c => [c]
  | .literal content => '"' :: (content.flatMap escape ++ ['"'])
  | .blank => [' ']

def token? : Piece → Option Token
  | .word text => some (.word text)
  | .mark c => some (.punct c)
  | .literal content => some (.literal content)
  | .blank => none

/-- The piece is read as it was printed. Behind a word this takes a piece that is none. -/
def Fits (next : Option Piece) : Piece → Prop
  | .word text => isWord text = true ∧ ∃ piece ∈ next, ∀ other, piece ≠ .word other
  | .mark c => c ∈ marks
  | .literal content => '\n' ∉ content
  | .blank => True

/-- A word that stands before the text ends there. -/
def Ends (text : List Char) : Prop := ∃ c ∈ text.head?, isWordChar c = false

theorem ends_print {piece : Piece} {next : Option Piece} (fits : piece.Fits next)
    (noWord : ∀ other, piece ≠ .word other) (more : List Char) : Ends (piece.print ++ more) := by
  cases piece with
  | word text => exact absurd rfl (noWord text)
  | mark c =>
      have apart : (marks.all fun c => !isWordChar c) = true := by decide
      exact ⟨c, rfl, by simpa using List.all_eq_true.1 apart c fits⟩
  | literal content => exact ⟨'"', rfl, by decide⟩
  | blank => exact ⟨' ', rfl, by decide⟩

end Piece

theorem readToken_word {c : Char} {text more : List Char} (word : isWord (c :: text) = true)
    (ends : Piece.Ends more) (last : Option Token) :
    readToken last c (text ++ more) = (some (.word (c :: text)), more) := by
  rw [isWord, Bool.and_eq_true, Bool.not_eq_true', List.all_eq_true, List.forall_mem_cons] at word
  obtain ⟨noDigit, first, all⟩ := word
  have apart {d : Char} (other : isWordChar d = false) : c ≠ d := by
    rintro rfl
    rw [first] at other
    cases other
  have noBacktick : c.toNat ≠ 0x60 := fun same =>
    apart (d := Char.ofNat 0x60) (by decide) (Char.toNat_inj.1 same)
  have noBlank : isBlankChar c = false := by
    simp only [isBlankChar, Bool.or_eq_false_iff, decide_eq_false_iff_not]
    exact ⟨⟨⟨apart (by decide), apart (by decide)⟩, apart (by decide)⟩, apart (by decide)⟩
  have noSlash : c ≠ '/' := apart (by decide)
  have noQuote : c ≠ '\'' := apart (by decide)
  have noQuote' : c ≠ '"' := apart (by decide)
  obtain ⟨d, starts, noWord⟩ := ends
  obtain ⟨others, rfl⟩ := List.head?_eq_some_iff.1 starts
  simp [readToken, noBlank, noSlash, noQuote, noQuote', noBacktick, noDigit, first, noWord,
    List.takeWhile_append_of_pos all, List.dropWhile_append_of_pos all]

theorem readToken_mark {c : Char} (listed : c ∈ Piece.marks) (last : Option Token)
    (more : List Char) : readToken last c more = (some (.punct c), more) := by
  simp only [Piece.marks, List.mem_cons, List.not_mem_nil, or_false] at listed
  rcases listed with rfl | rfl | rfl | rfl | rfl | rfl | rfl | rfl <;> rfl

theorem readLiteral_escape {text : List Char} (onLine : '\n' ∉ text) (content more : List Char) :
    readLiteral '"' content (text.flatMap Piece.escape ++ '"' :: more) =
      (some (content.reverse ++ text), more) := by
  induction text generalizing content with
  | nil =>
      rw [List.flatMap_nil, List.nil_append, List.append_nil, readLiteral_plain (by decide),
        if_neg (by decide), if_pos rfl]
  | cons c text ih =>
      rw [List.mem_cons, not_or] at onLine
      have later := ih onLine.2 (c :: content)
      rw [List.reverse_cons, List.append_assoc, List.singleton_append] at later
      rw [List.flatMap_cons, Piece.escape, ← later]
      split_ifs with escapes
      · rfl
      · simp only [Bool.or_eq_true, decide_eq_true_eq, not_or] at escapes
        rw [List.append_assoc, List.singleton_append, readLiteral_plain escapes.1,
          if_neg (Ne.symm onLine.1), if_neg escapes.2]

/-- One piece is read as its token, whatever is printed behind it. -/
theorem tokensFrom_print {piece : Piece} {next : Option Piece} (fits : piece.Fits next)
    {more : List Char} (ends : ∀ piece ∈ next, (∀ other, piece ≠ .word other) → Piece.Ends more)
    (last : Option Token) :
    tokensFrom last (piece.print ++ more) =
      piece.token?.toList ++ tokensFrom (piece.token?.or last) more := by
  cases piece with
  | word text =>
      obtain ⟨isWord, piece, listed, noWord⟩ := fits
      cases text with
      | nil => cases isWord
      | cons c text =>
          rw [Piece.print, List.cons_append, tokensFrom_cons,
            readToken_word isWord (ends piece listed noWord), Piece.token?]
  | mark c =>
      rw [Piece.print, List.singleton_append, tokensFrom_cons, readToken_mark fits, Piece.token?]
  | literal content =>
      have read : readToken last '"' (content.flatMap Piece.escape ++ ['"'] ++ more) =
          (some (.literal content), more) := by
        have step (text : List Char) : readToken last '"' text =
            ((readLiteral '"' [] text).1.map Token.literal, (readLiteral '"' [] text).2) := rfl
        rw [step, List.append_assoc, List.singleton_append, readLiteral_escape fits]
        rfl
      rw [Piece.print, List.cons_append, tokensFrom_cons, read, Piece.token?]
  | blank => exact tokensFrom_blank (by decide) last more

/-- Each piece fits the one behind it. -/
def Separable : List Piece → Prop
  | [] => True
  | piece :: pieces => piece.Fits pieces.head? ∧ Separable pieces

theorem tokensFrom_flatMap_print {pieces : List Piece} (separable : Separable pieces)
    (last : Option Token) (more : List Char) :
    tokensFrom last (pieces.flatMap Piece.print ++ more) =
      pieces.filterMap Piece.token? ++
        tokensFrom ((pieces.filterMap Piece.token?).getLast?.or last) more := by
  induction pieces generalizing last with
  | nil => rfl
  | cons piece pieces ih =>
      obtain ⟨fits, separable⟩ := separable
      have ends : ∀ next ∈ pieces.head?, (∀ other, next ≠ .word other) →
          Piece.Ends (pieces.flatMap Piece.print ++ more) := by
        intro next first noWord
        obtain ⟨pieces, rfl⟩ := List.head?_eq_some_iff.1 first
        rw [List.flatMap_cons, List.append_assoc]
        exact Piece.ends_print separable.1 noWord _
      rw [List.flatMap_cons, List.append_assoc, tokensFrom_print fits ends, ih separable,
        List.filterMap_cons]
      cases piece.token? with
      | none => rfl
      | some token =>
          rw [List.getLast?_cons]
          cases (pieces.filterMap Piece.token?).getLast? <;> rfl

/-! ## Words that begin no import -/

def keywords : List String := ["import", "export", "require"]

/-- No import begins with the token. -/
def Token.Plain (token : Token) : Prop := ∀ keyword ∈ keywords, token ≠ .word keyword.toList

theorem statementAt?_of_plain {token : Token} (plain : token.Plain) (previous : Option Token)
    (rest : List Token) : statementAt? previous rest token = none := by
  cases token with
  | word text =>
      have other {keyword : String} (listed : keyword ∈ keywords) : text ≠ keyword.toList :=
        fun same => plain keyword listed (congrArg Token.word same)
      have nothing : readStatement text rest = none := by
        unfold readStatement
        rw [if_neg (other (by decide)), if_neg (other (by decide)), if_neg (other (by decide))]
      rw [statementAt?, nothing, ite_self]
  | literal text => rfl
  | punct c => rfl
  | opaqued => rfl

/-- Behind tokens with which no import begins, only the last of them counts. -/
theorem statementsFrom_append_of_plain {front : List Token}
    (plain : ∀ token ∈ front, token.Plain) (previous : Option Token) (back : List Token) :
    statementsFrom previous (front ++ back) = statementsFrom (front.getLast?.or previous) back := by
  induction front generalizing previous with
  | nil => rfl
  | cons token front ih =>
      rw [List.forall_mem_cons] at plain
      rw [List.cons_append, statementsFrom_cons, statementAt?_of_plain plain.1, ih plain.2,
        List.getLast?_cons]
      cases front.getLast? <;> rfl

theorem statementsFrom_of_plain {tokens : List Token} (plain : ∀ token ∈ tokens, token.Plain)
    (previous : Option Token) : statementsFrom previous tokens = [] := by
  have alone := statementsFrom_append_of_plain plain previous []
  rwa [List.append_nil] at alone

/-- One keyword, one import. -/
theorem statementsFrom_keyword {previous : Option Token} {keyword : List Char} {rest : List Token}
    {statement : Timing × List Char} (noMember : previous ≠ some (.punct '.'))
    (read : readStatement keyword rest = some statement) (plain : ∀ token ∈ rest, token.Plain) :
    statementsFrom previous (.word keyword :: rest) = [statement] := by
  rw [statementsFrom_cons, statementsFrom_of_plain plain, statementAt?, if_neg noMember, read]
  rfl

/-! ## Printed imports -/

/-- A name that is no keyword of an import. -/
structure Identifier where
  text : String
  isWord : Import.isWord text.toList = true
  plain : text ∉ keywords

theorem Identifier.plain_word (name : Identifier) : (Token.word name.text.toList).Plain :=
  fun _ listed same => name.plain (String.toList_inj.1 (Token.word.inj same) ▸ listed)

/-- The forms in which an import is written. -/
inductive Form where
  | bare
  | named (name : Identifier)
  | listed (first second : Identifier)
  | whole (name : Identifier)
  | everything
  | passed (name : Identifier)
  | required
  | called (name : Identifier)

/-- An import on a line of its own. -/
structure Line where
  form : Form
  specifier : String
  onLine : '\n' ∉ specifier.toList

namespace Line

/-- A backslash stands before each backslash and each quote. -/
def quote (specifier : String) : String :=
  "\"" ++ String.ofList (specifier.toList.flatMap Piece.escape) ++ "\""

def text (line : Line) : String :=
  match line.form with
  | .bare => "import " ++ quote line.specifier ++ ";"
  | .named x => "import " ++ x.text ++ " from " ++ quote line.specifier ++ ";"
  | .listed a b =>
      "import \x7b " ++ a.text ++ ", " ++ b.text ++ " \x7d from " ++ quote line.specifier ++ ";"
  | .whole n => "import * as " ++ n.text ++ " from " ++ quote line.specifier ++ ";"
  | .everything => "export * from " ++ quote line.specifier ++ ";"
  | .passed a => "export \x7b " ++ a.text ++ " \x7d from " ++ quote line.specifier ++ ";"
  | .required => "require(" ++ quote line.specifier ++ ");"
  | .called v => "const " ++ v.text ++ " = import(" ++ quote line.specifier ++ ");"

def statement (line : Line) : Statement where
  timing := match line.form with
    | .called _ => .async
    | _ => .sync
  specifier := line.specifier

def word (text : String) : Piece := .word text.toList

/-- What stands before the literal. -/
def before : Form → List Piece
  | .bare => [word "import", .blank]
  | .named x => [word "import", .blank, word x.text, .blank, word "from", .blank]
  | .listed a b => [word "import", .blank, .mark '\x7b', .blank, word a.text, .mark ',', .blank,
      word b.text, .blank, .mark '\x7d', .blank, word "from", .blank]
  | .whole n => [word "import", .blank, .mark '*', .blank, word "as", .blank, word n.text, .blank,
      word "from", .blank]
  | .everything => [word "export", .blank, .mark '*', .blank, word "from", .blank]
  | .passed a => [word "export", .blank, .mark '\x7b', .blank, word a.text, .blank, .mark '\x7d',
      .blank, word "from", .blank]
  | .required => [word "require", .mark '(']
  | .called v => [word "const", .blank, word v.text, .blank, .mark '=', .blank, word "import",
      .mark '(']

/-- What stands behind it. -/
def behind : Form → List Piece
  | .required => [.mark ')', .mark ';']
  | .called _ => [.mark ')', .mark ';']
  | _ => [.mark ';']

def pieces (line : Line) : List Piece :=
  before line.form ++ .literal line.specifier.toList :: behind line.form

theorem toList_text (line : Line) : line.text.toList = line.pieces.flatMap Piece.print := by
  obtain ⟨form, specifier, onLine⟩ := line
  cases form <;> simp [text, quote, pieces, before, behind, word, Piece.print]

theorem separable_pieces (line : Line) : Separable line.pieces := by
  obtain ⟨form, specifier, onLine⟩ := line
  have words : isWord "import".toList = true ∧ isWord "export".toList = true ∧
      isWord "require".toList = true ∧ isWord "from".toList = true ∧
        isWord "as".toList = true ∧ isWord "const".toList = true := by
    decide
  cases form <;>
    simp only [Separable, pieces, before, behind, word, Piece.Fits, Piece.marks, words,
      Identifier.isWord, List.cons_append, List.nil_append, List.head?_cons] <;>
    simp [onLine]

def tokens (line : Line) : List Token := line.pieces.filterMap Piece.token?

theorem getLast?_tokens (line : Line) : line.tokens.getLast? = some (.punct ';') := by
  obtain ⟨form, specifier, onLine⟩ := line
  cases form <;> rfl

theorem tokens_text_append (line : Line) (more : List Char) :
    Import.tokens (line.text.toList ++ more) = line.tokens ++ Import.tokens more := by
  rw [toList_text, Import.tokens, tokensFrom_flatMap_print (separable_pieces line)]
  change line.tokens ++ tokensFrom (line.tokens.getLast?.or none) more = _
  rw [getLast?_tokens, Option.some_or, tokensFrom_some_semicolon]

theorem statementsFrom_tokens (line : Line) :
    statementsFrom none line.tokens = [(line.statement.timing, line.specifier.toList)] := by
  obtain ⟨form, specifier, onLine⟩ := line
  have literal (text : List Char) : (Token.literal text).Plain := fun _ _ same => nomatch same
  have mark (c : Char) : (Token.punct c).Plain := fun _ _ same => nomatch same
  have words : (Token.word "from".toList).Plain ∧ (Token.word "as".toList).Plain ∧
      (Token.word "const".toList).Plain := by
    unfold Token.Plain
    decide
  obtain ⟨fromWord, asWord, constWord⟩ := words
  cases form <;>
    simp only [tokens, pieces, before, behind, word, List.cons_append, List.nil_append,
      List.filterMap_cons, List.filterMap_nil, Piece.token?]
  -- Only here the keyword is not the first token.
  case called v =>
    rw [statementsFrom_cons, statementsFrom_cons, statementsFrom_cons,
      statementAt?_of_plain constWord, statementAt?_of_plain v.plain_word,
      statementAt?_of_plain (mark '='), statementsFrom_keyword (by decide) rfl]
    · rfl
    · simp [literal, mark]
  all_goals
    refine statementsFrom_keyword (by decide) rfl ?_
    simp only [List.forall_mem_cons, fromWord, asWord, literal, mark, Identifier.plain_word]
    simp

end Line

/-! ## Printed scripts -/

/-- The lexer, at the beginning of a line, reads the statement on it and is at the beginning of the
next line. -/
theorem statementsFrom_text_append (line : Line) (more : List Char) :
    statementsFrom none (tokens (line.text.toList ++ more)) =
      (line.statement.timing, line.specifier.toList) :: statementsFrom none (tokens more) := by
  rw [line.tokens_text_append, statementsFrom_append line.getLast?_tokens,
    line.statementsFrom_tokens, List.singleton_append]

theorem scan_text_append (line : Line) (more : String) :
    scan (line.text ++ more) = line.statement :: scan more := by
  have again : Statement.mk line.statement.timing (String.ofList line.specifier.toList) =
      line.statement := by
    rw [String.ofList_toList]
    rfl
  rw [scan, String.toList_append, statementsFrom_text_append, List.map_cons, ← again]
  rfl

theorem scan_feed (more : String) : scan ("\n" ++ more) = scan more := by
  have feed : ("\n" ++ more).toList = '\n' :: more.toList := by
    rw [String.toList_append]
    rfl
  rw [scan, scan, feed, tokens, tokensFrom_blank (by decide), tokens]

theorem scan_empty : scan "" = [] := by
  rw [scan, String.toList_empty, tokens_nil]
  rfl

/-- Every list of imports is found again, whether or not its last line is ended. -/
theorem scan_lines (lines : List Line) :
    scan ("\n".intercalate (lines.map Line.text)) = lines.map Line.statement ∧
      scan (String.join (lines.map fun line => line.text ++ "\n")) =
        lines.map Line.statement := by
  constructor
  · induction lines with
    | nil => exact scan_empty
    | cons line lines ih =>
        match lines with
        | [] =>
            have alone := scan_text_append line ""
            rwa [String.append_empty, scan_empty] at alone
        | next :: lines =>
            rw [List.map_cons, List.map_cons, String.intercalate_cons_cons, String.append_assoc,
              scan_text_append, scan_feed]
            exact congrArg _ ih
  · induction lines with
    | nil => exact scan_empty
    | cons line lines ih =>
        rw [List.map_cons, String.join_cons, String.append_assoc, scan_text_append, scan_feed, ih,
          List.map_cons]

/-- The specifier is a backslash and a quote. -/
example : Line.text ⟨.called ⟨"é", by decide, by decide⟩, "\\\"", by decide⟩ =
      "const é = import(\"\\\\\\\"\");" ∧
    scan "const é = import(\"\\\\\\\"\");" = [⟨.async, "\\\""⟩] := by
  decide +kernel

end WebBundle.Import
