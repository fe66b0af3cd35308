import WebBundle.Import.Statement
import WebBundle.Proofs.Import.Locality

/-!
# Scripts put together

Behind a semicolon the lexer reads as it does at the beginning of a script, and no statement goes on
beyond it. So what is imported by a script with one more script behind it is what the two import. A
comment between two steps of the lexer reads as a blank.
-/

namespace WebBundle.Import

/-! ## Tokens -/

/-- The lexer knows of the last token only whether a slash begins a regular expression. -/
theorem tokensFrom_congr {last last' : Option Token}
    (same : slashBeginsRegex last = slashBeginsRegex last') (text : List Char) :
    tokensFrom last text = tokensFrom last' text := by
  match text with
  | [] => rw [tokensFrom, tokensFrom]
  | c :: text =>
      have read : readToken last c text = readToken last' c text := by
        rw [readToken, readToken, same]
      rw [tokensFrom_cons, tokensFrom_cons, read]
      cases (readToken last' c text).1 with
      | some token => rfl
      | none =>
          have shorter := length_readToken_le last' c text
          exact congrArg _ (tokensFrom_congr same (readToken last' c text).2)
  termination_by text.length
  decreasing_by exact Nat.lt_succ_of_le shorter

theorem tokens_nil : tokens [] = [] := by rw [tokens, tokensFrom]

theorem tokensFrom_some_semicolon (text : List Char) :
    tokensFrom (some (.punct ';')) text = tokens text := by
  have begins : slashBeginsRegex (some (.punct ';')) = slashBeginsRegex none := rfl
  exact tokensFrom_congr begins text

theorem tokensFrom_semicolon (last : Option Token) (text : List Char) :
    tokensFrom last (';' :: text) = .punct ';' :: tokens text := by
  have read : readToken last ';' text = (some (.punct ';'), text) := rfl
  rw [tokensFrom_cons, read, Option.some_or, tokensFrom_some_semicolon]
  rfl

theorem tokensFrom_blank {c : Char} (blank : isBlankChar c = true) (last : Option Token)
    (text : List Char) : tokensFrom last (c :: text) = tokensFrom last text := by
  have read : readToken last c text = (none, text) := if_pos blank
  rw [tokensFrom_cons, read]
  rfl

/-- The lexer begins a step, in its main loop, where this rest of the text is left. -/
def ComesTo (text rest : List Char) : Prop :=
  ∃ step ∈ stepsFrom none text, step.first :: step.text = rest

instance (text rest : List Char) : Decidable (ComesTo text rest) :=
  inferInstanceAs (Decidable (∃ step ∈ stepsFrom none text, step.first :: step.text = rest))

/-- The last token is a semicolon, and the last character is this semicolon or a blank behind it
that the main loop skips. -/
structure EndsStatement (text : List Char) : Prop where
  semicolon : (tokens text).getLast? = some (.punct ';')
  inLoop : ∃ c, (c = ';' ∨ isBlankChar c = true) ∧ ComesTo text [c]

theorem tokens_append {front : List Char} (ends : EndsStatement front) (back : List Char) :
    tokens (front ++ back) = tokens front ++ tokens back := by
  obtain ⟨semicolon, c, last, ⟨last', first, text⟩, comes, rest⟩ := ends
  obtain ⟨rfl, rfl⟩ := List.cons.inj rest
  obtain ⟨front, rfl⟩ := suffix_of_mem_stepsFrom comes
  obtain ⟨read, ends, reads⟩ := exists_tokensFrom comes
  have alone := reads first [] (akin_refl first) fun _ => rfl
  have more := reads first back (akin_refl first) fun _ => rfl
  rw [tokens] at semicolon
  rw [tokens, List.append_assoc, List.singleton_append, more, tokens, alone]
  rcases last with rfl | blank
  · rw [tokensFrom_semicolon, tokensFrom_semicolon, tokens_nil, List.append_assoc,
      List.singleton_append]
  · rw [alone, tokensFrom_blank blank, tokensFrom, List.append_nil] at semicolon
    rw [semicolon, Option.some_or] at ends
    rw [tokensFrom_blank blank, tokensFrom_blank blank, tokensFrom, List.append_nil, ends,
      tokensFrom_some_semicolon]

/-! ## Statements -/

/-- A clause ends with its statement. -/
theorem fromClause?_append {front : List Token} (closed : Token.punct ';' ∈ front)
    (previous : Option Token) (back : List Token) :
    fromClause? previous (front ++ back) = fromClause? previous front := by
  fun_induction fromClause? previous front with
  | case1 => cases closed
  | case2 => rfl
  | case3 text rest => rw [List.cons_append, fromClause?, if_pos rfl]
  | case4 previous text rest noFrom => rw [List.cons_append, fromClause?, if_neg noFrom]
  | case5 previous token rest noSemicolon noLiteral ih =>
      have later : Token.punct ';' ∈ rest :=
        (List.mem_cons.1 closed).resolve_left fun same => noSemicolon same.symm
      rw [List.cons_append, fromClause?.eq_4 _ _ _ noSemicolon noLiteral, ih later]

section

variable {front : List Token} (closed : front.getLast? = some (.punct ';')) (back : List Token)

include closed

theorem readStatement_import_append :
    readStatement "import".toList (front ++ back) = readStatement "import".toList front := by
  have clause := fromClause?_append (List.mem_of_getLast? closed) none back
  unfold readStatement
  rw [if_pos rfl, if_pos rfl, clause]
  generalize fromClause? none front = found
  match front with
  | .literal text :: others => rfl
  | .word text :: others => rfl
  | .opaqued :: others => rfl
  | .punct c :: others =>
      by_cases opens : c = '('
      · subst opens
        -- The token behind the bracket is before the semicolon or is this semicolon.
        match others with
        | .literal text :: others => rfl
        | .word text :: others => rfl
        | .punct d :: others => rfl
        | .opaqued :: others => rfl
      · by_cases member : c = '.'
        · subst member
          rfl
        · simp [opens, member]

theorem readStatement_export_append :
    readStatement "export".toList (front ++ back) = readStatement "export".toList front := by
  have clause := fromClause?_append (List.mem_of_getLast? closed) none back
  have noImport : "export".toList ≠ "import".toList := by decide
  unfold readStatement
  rw [if_neg noImport, if_neg noImport, if_pos rfl, if_pos rfl, clause]
  generalize fromClause? none front = found
  match front with
  | .literal text :: others => rfl
  | .word text :: others => rfl
  | .opaqued :: others => rfl
  | .punct c :: others =>
      by_cases listed : c = '*' ∨ c = '{'
      · rcases listed with rfl | rfl <;> rfl
      · rw [not_or] at listed
        simp [listed]

theorem readStatement_require_append :
    readStatement "require".toList (front ++ back) = readStatement "require".toList front := by
  have noImport : "require".toList ≠ "import".toList := by decide
  have noExport : "require".toList ≠ "export".toList := by decide
  unfold readStatement
  rw [if_neg noImport, if_neg noImport, if_neg noExport, if_neg noExport, if_pos rfl, if_pos rfl]
  match front with
  | .literal text :: others => rfl
  | .word text :: others => rfl
  | .opaqued :: others => rfl
  | .punct c :: others =>
      by_cases opens : c = '('
      · subst opens
        match others with
        | .literal text :: .literal text' :: others => rfl
        | .literal text :: .word text' :: others => rfl
        | .literal text :: .opaqued :: others => rfl
        | .literal text :: .punct d :: others =>
            by_cases closes : d = ')'
            · subst closes
              rfl
            · simp [closes]
        | .word text :: others => rfl
        | .punct d :: others => rfl
        | .opaqued :: others => rfl
      · simp [opens]

/-- A statement is read up to its semicolon. -/
theorem readStatement_append (word : List Char) :
    readStatement word (front ++ back) = readStatement word front := by
  by_cases isImport : word = "import".toList
  · rw [isImport, readStatement_import_append closed]
  by_cases isExport : word = "export".toList
  · rw [isExport, readStatement_export_append closed]
  by_cases isRequire : word = "require".toList
  · rw [isRequire, readStatement_require_append closed]
  unfold readStatement
  rw [if_neg isImport, if_neg isImport, if_neg isExport, if_neg isExport, if_neg isRequire,
    if_neg isRequire]

end

/-- The import that begins with a token. -/
def statementAt? (previous : Option Token) (rest : List Token) :
    Token → Option (Timing × List Char)
  | .word word => if previous = some (.punct '.') then none else readStatement word rest
  | _ => none

theorem statementsFrom_cons (previous : Option Token) (token : Token) (rest : List Token) :
    statementsFrom previous (token :: rest) =
      (statementAt? previous rest token).toList ++ statementsFrom (some token) rest := by
  cases token with
  | word word =>
      rw [statementsFrom, statementAt?]
      split_ifs with member
      · rfl
      · cases readStatement word rest <;> rfl
  | literal text => rfl
  | punct c => rfl
  | opaqued => rfl

/-- What stands before a script counts only if it is a dot. -/
theorem statementsFrom_of_ne_dot {previous : Option Token} (other : previous ≠ some (.punct '.'))
    (tokens : List Token) : statementsFrom previous tokens = statementsFrom none tokens := by
  cases tokens with
  | nil => rfl
  | cons token rest =>
      rw [statementsFrom_cons, statementsFrom_cons]
      cases token <;> simp [statementAt?, other]

theorem statementsFrom_append {front : List Token}
    (closed : front.getLast? = some (.punct ';')) (previous : Option Token) (back : List Token) :
    statementsFrom previous (front ++ back) =
      statementsFrom previous front ++ statementsFrom none back := by
  induction front generalizing previous with
  | nil => cases closed
  | cons token front ih =>
      by_cases final : front = []
      · obtain rfl : token = .punct ';' := by
          rw [final] at closed
          exact Option.some.inj closed
        rw [final]
        exact statementsFrom_of_ne_dot (by decide) back
      · have closed' : front.getLast? = some (.punct ';') := by
          rwa [List.getLast?_cons_of_ne_nil final] at closed
        have here : statementAt? previous (front ++ back) token =
            statementAt? previous front token := by
          cases token with
          | word word => simp only [statementAt?, readStatement_append closed']
          | literal text => rfl
          | punct c => rfl
          | opaqued => rfl
        rw [List.cons_append, statementsFrom_cons, here, ih closed', statementsFrom_cons,
          List.append_assoc]

/-! ## Scripts -/

theorem scan_append {front : String} (ends : EndsStatement front.toList) (back : String) :
    scan (front ++ back) = scan front ++ scan back := by
  rw [scan, String.toList_append, tokens_append ends, statementsFrom_append ends.semicolon,
    List.map_append, scan, scan]

/-- Before its last blank the script has a broken literal, a regular expression and a comment. -/
def closedScript : String := "import a from './a'; don't\n f(/[/';]/g); // ;\n"

/-- The script behind it begins with a regular expression and has a clause of its own. -/
theorem scan_append_closedScript :
    EndsStatement closedScript.toList ∧
      scan (closedScript ++ "/'/.test(import('b')) from 'c'") =
        [⟨.sync, "./a"⟩, ⟨.async, "b"⟩] := by
  have ends : EndsStatement closedScript.toList :=
    ⟨by decide +kernel, '\n', .inr rfl, by decide +kernel⟩
  refine ⟨ends, ?_⟩
  rw [scan_append ends]
  decide +kernel

/-! ## Comments -/

/-- A block comment ends with the first end in it, and a line comment with its line. -/
inductive IsComment : String → Prop where
  | block (body : String) (inside : ¬"*/".toList <:+: body.toList) :
      IsComment ("/*" ++ body ++ "*/")
  | line (body : String) (inside : '\n' ∉ body.toList) : IsComment ("//" ++ body ++ "\n")

theorem exists_of_isComment {comment : String} (isComment : IsComment comment) :
    ∃ more, comment.toList = '/' :: more ∧
      ∀ last text, tokensFrom last ('/' :: (more ++ text)) = tokensFrom last text := by
  cases isComment with
  | block body inside =>
      refine ⟨'*' :: (body.toList ++ ['*', '/']), ?_, fun last text => ?_⟩
      · simp only [String.toList_append, List.append_assoc]
        rfl
      · have read : readToken last '/' ('*' :: (body.toList ++ '*' :: '/' :: text)) =
            (none, afterBlockComment (body.toList ++ '*' :: '/' :: text)) := rfl
        rw [List.cons_append, List.append_assoc]
        refine (tokensFrom_cons _ _ _).trans ?_
        rw [List.cons_append, List.singleton_append, read, afterBlockComment_append inside]
        rfl
  | line body inside =>
      refine ⟨'/' :: (body.toList ++ ['\n']), ?_, fun last text => ?_⟩
      · simp only [String.toList_append, List.append_assoc]
        rfl
      · have read : readToken last '/' ('/' :: (body.toList ++ '\n' :: text)) =
            (none, '\n' :: text) := by
          have run : ∀ c ∈ '/' :: body.toList, decide (c ≠ '\n') = true := by
            rw [List.forall_mem_cons]
            exact ⟨by decide, fun c listed => decide_eq_true fun feed => inside (feed ▸ listed)⟩
          have line : afterLineComment (('/' :: body.toList) ++ '\n' :: text) = '\n' :: text := by
            rw [afterLineComment, List.dropWhile_append_of_pos run]
            rfl
          exact congrArg (Prod.mk none) line
        rw [List.cons_append, List.append_assoc, List.singleton_append, tokensFrom_cons, read]
        exact tokensFrom_blank (by decide) last text

/-- Where the lexer begins a step, a comment reads as a blank. Behind a slash it would not. -/
theorem tokens_comment {before behind : List Char} {comment : String}
    (isComment : IsComment comment) (comes : ComesTo (before ++ ' ' :: behind) (' ' :: behind))
    (noSlash : before.getLast? ≠ some '/') :
    tokens (before ++ (comment.toList ++ behind)) = tokens (before ++ ' ' :: behind) := by
  obtain ⟨⟨last, first, text⟩, comes, rest⟩ := comes
  obtain ⟨rfl, rfl⟩ := List.cons.inj rest
  obtain ⟨read, _, reads⟩ := exists_tokensFrom comes
  obtain ⟨more, whole, skipped⟩ := exists_of_isComment isComment
  have akin : Akin ' ' '/' := ⟨by decide, by decide, by decide, by decide⟩
  rw [tokens, whole, List.cons_append, reads '/' _ akin fun slash => absurd slash noSlash, skipped,
    tokens, reads ' ' text (akin_refl ' ') fun _ => rfl, tokensFrom_blank (by decide)]

theorem scan_comment {before behind comment : String} (isComment : IsComment comment)
    (comes : ComesTo (before ++ " " ++ behind).toList (" " ++ behind).toList)
    (noSlash : before.toList.getLast? ≠ some '/') :
    scan (before ++ comment ++ behind) = scan (before ++ " " ++ behind) := by
  have blank : (" " ++ behind).toList = ' ' :: behind.toList := by
    rw [String.toList_append]
    rfl
  rw [String.append_assoc, String.toList_append, blank] at comes
  rw [scan, scan, String.append_assoc, String.append_assoc, String.toList_append,
    String.toList_append, String.toList_append, blank, tokens_comment isComment comes noSlash]

/-- The comment holds an import, a quote and the beginning of a template, and it stands where a
regular expression could begin. -/
theorem scan_comment_clause :
    IsComment "/* import('b'); don't ` */" ∧
      ComesTo ("import a from" ++ " " ++ "'./a'; /'/.test(a)").toList
        (" " ++ "'./a'; /'/.test(a)").toList ∧
        "import a from".toList.getLast? ≠ some '/' ∧
          scan ("import a from" ++ "/* import('b'); don't ` */" ++ "'./a'; /'/.test(a)") =
            scan ("import a from" ++ " " ++ "'./a'; /'/.test(a)") := by
  have isComment : IsComment "/* import('b'); don't ` */" :=
    .block " import('b'); don't ` " (by decide)
  have comes : ComesTo ("import a from" ++ " " ++ "'./a'; /'/.test(a)").toList
      (" " ++ "'./a'; /'/.test(a)").toList := by
    decide +kernel
  have noSlash : "import a from".toList.getLast? ≠ some '/' := by decide
  exact ⟨isComment, comes, noSlash, scan_comment isComment comes noSlash⟩

end WebBundle.Import
