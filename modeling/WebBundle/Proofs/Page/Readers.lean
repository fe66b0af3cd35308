import WebBundle.Proofs.Import.Templates
import WebBundle.Proofs.Page.LineEnds

/-!
# Readers on stripped text

Each reader of the lexer stops at the same place in the stripped text as in the text itself, as long
as it escapes no character that is dropped: between two lines it takes all blanks as one line feed.
Where only blanks are left on a line, a string literal and a regular expression end with the line,
and a template reads on behind it.
-/

namespace WebBundle.Page

open Text Import

variable {c : Char} {text rest : List Char}

/-! ## Blanks among the characters of a script -/

theorem isBlank_of_isBlankChar (blank : isBlankChar c = true) : isBlank c = true := by
  simp only [isBlankChar, Bool.or_eq_true, decide_eq_true_eq] at blank
  rcases blank with ((rfl | rfl) | rfl) | rfl <;> decide

theorem not_isBlank_of_isAlphanum (letter : c.isAlphanum = true) : isBlank c = false := by
  simp only [Char.isAlphanum, Char.isAlpha, Char.isUpper, Char.isLower, Char.isDigit,
    Bool.or_eq_true, Bool.and_eq_true, decide_eq_true_eq, UInt32.le_iff_toNat_le, ge_iff_le]
    at letter
  change ((65 ≤ c.toNat ∧ c.toNat ≤ 90) ∨ 97 ≤ c.toNat ∧ c.toNat ≤ 122) ∨
    48 ≤ c.toNat ∧ c.toNat ≤ 57 at letter
  simp only [isBlank, Bool.or_eq_false_iff, Bool.and_eq_false_iff, decide_eq_false_iff_not]
  omega

theorem not_isBlank_of_isNumberChar (inNumber : isNumberChar c = true) : isBlank c = false := by
  rw [isNumberChar, Bool.or_eq_true, decide_eq_true_eq] at inNumber
  rcases inNumber with letter | rfl
  · exact not_isBlank_of_isAlphanum letter
  · decide

theorem not_isBlank_of_isAlpha (letter : c.isAlpha = true) : isBlank c = false :=
  not_isBlank_of_isAlphanum (by rw [Char.isAlphanum, letter, Bool.true_or])

theorem not_isBlank_of_backtick (backtick : c.toNat = 0x60) : isBlank c = false := by
  rw [isBlank, backtick]
  decide

theorem ne_backtick_of_isBlank (blank : isBlank c = true) : c.toNat ≠ 0x60 := by
  intro backtick
  rw [not_isBlank_of_backtick backtick] at blank
  cases blank

/-! ## What readers leave -/

/-- What a reader leaves of a stripped text where it leaves the rest of the text itself. At the end
of the text some blanks may be left to read of the text alone. -/
def Leaves (rest stripped : List Char) : Prop :=
  stripped = stripFrom rest ∨ stripped = [] ∧ rest.all isBlank = true

/-- The first character of the text stays, or only blanks are left. -/
def staysOrEnds : List Char → Bool
  | [] => true
  | c :: text => !drops c text || text.all isBlank

theorem isSolid_of_all_isBlank (blank : text.all isBlank = true) : isSolid text = false := by
  induction text with
  | nil => rfl
  | cons c text ih =>
      rw [List.all_cons, Bool.and_eq_true] at blank
      rw [isSolid, blank.1, ih blank.2]
      simp

theorem stripFrom_of_all_isBlank (blank : text.all isBlank = true) : stripFrom text = ['\n'] := by
  induction text with
  | nil => rfl
  | cons c text ih =>
      rw [List.all_cons, Bool.and_eq_true] at blank
      rw [stripFrom_of_drops (drops_iff.2 ⟨blank.1, isSolid_of_all_isBlank blank.2⟩), ih blank.2]

theorem all_isBlank_of_suffix (suffix : rest <:+ text) (blank : text.all isBlank = true) :
    rest.all isBlank = true :=
  List.all_eq_true.2 fun c member => List.all_eq_true.1 blank c (suffix.subset member)

/-- Where only blanks are left on the line, its line feed is all that counts. -/
theorem stripFrom_dropLine (ends : isSolid text = false) :
    stripFrom (text.dropWhile (· ≠ '\n')) = stripFrom text := by
  obtain ⟨more, feed⟩ := exists_stripFrom_eq ends
  rw [← dropLine_stripFrom, feed, List.dropWhile_cons, if_neg (by decide)]

theorem leaves_afterBlockComment (text : List Char) :
    Leaves (afterBlockComment text) (afterBlockComment (stripFrom text)) := by
  fun_induction afterBlockComment text with
  | case1 text =>
      rw [stripFrom_of_not_isBlank (by decide), stripFrom_of_not_isBlank (by decide)]
      exact .inl rfl
  | case2 c text open' ih =>
      cases dropped : drops c text with
      | true => rwa [stripFrom_of_drops dropped]
      | false =>
          rw [stripFrom_of_kept dropped, afterBlockComment.eq_2]
          · exact ih
          · intro text' star slash
            have head : text.head? = some '/' := by
              rw [← head?_stripFrom (by decide), slash, List.head?_cons]
            obtain ⟨text', rfl⟩ := List.head?_eq_some_iff.1 head
            exact open' text' star rfl
  | case3 => exact .inr ⟨rfl, rfl⟩

/-! ## String literals -/

section

variable {quote : Char} {content : List Char}

/-- A literal that is open where only blanks are left on the line is not closed. -/
theorem readLiteral_of_ends (solid : isBlank quote = false) (ends : isSolid text = false) :
    readLiteral quote content text = (none, text.dropWhile (· ≠ '\n')) := by
  induction text generalizing content with
  | nil => rfl
  | cons c text ih =>
      by_cases feed : c = '\n'
      · rw [feed, readLiteral_feed]
        rfl
      · obtain ⟨blank, ends⟩ := drops_iff.1 ((isSolid_cons_eq_false_iff.1 ends).resolve_left feed)
        rw [readLiteral_plain (ne_of_isBlank blank (by decide)), List.dropWhile_cons, if_neg feed,
          if_neg (ne_of_isBlank blank solid), if_pos (by simpa using feed), ih ends]

/-- A stripped literal has the same content. -/
theorem readLiteral_stripFrom (content : List Char) (solid : isBlank quote = false)
    (stays : ∀ escaped ∈ literalEscapes quote text, staysOrEnds escaped = true) :
    (readLiteral quote content (stripFrom text)).1 = (readLiteral quote content text).1 ∧
      Leaves (readLiteral quote content text).2
        (readLiteral quote content (stripFrom text)).2 := by
  fun_induction readLiteral quote content text with
  | case1 content => exact ⟨rfl, .inl rfl⟩
  | case2 content => exact ⟨rfl, .inr ⟨rfl, rfl⟩⟩
  | case3 content c text ih =>
      rw [literalEscapes, List.forall_mem_cons] at stays
      rw [stripFrom_of_not_isBlank (by decide)]
      cases dropped : drops c text with
      | false =>
          rw [stripFrom_of_kept dropped, readLiteral]
          exact ih stays.2
      | true =>
          have blank : text.all isBlank = true := by
            simpa [staysOrEnds, dropped] using stays.1
          rw [stripFrom_of_drops dropped, stripFrom_of_all_isBlank blank, readLiteral,
            readLiteral_of_ends solid (drops_iff.1 dropped).2]
          exact ⟨rfl, .inr ⟨rfl, all_isBlank_of_suffix (List.dropWhile_suffix _) blank⟩⟩
  | case4 content text =>
      obtain ⟨more, feed⟩ := exists_stripFrom_eq (isSolid_cons_eq_false_iff.2 (.inl rfl))
      rw [feed, readLiteral_feed]
      exact ⟨rfl, .inl feed.symm⟩
  | case5 content text noEscape noEscape' noFeed =>
      rw [stripFrom_of_not_isBlank solid, readLiteral_plain (ne_backslash noEscape noEscape'),
        if_neg noFeed, if_pos rfl]
      exact ⟨rfl, .inl rfl⟩
  | case6 content c text noEscape noEscape' noFeed noQuote ih =>
      have plain := ne_backslash noEscape noEscape'
      rw [literalEscapes_plain plain, if_neg (by simp [noFeed, noQuote])] at stays
      cases dropped : drops c text with
      | false =>
          rw [stripFrom_of_kept dropped, readLiteral_plain plain, if_neg noFeed, if_neg noQuote]
          exact ih stays
      | true =>
          obtain ⟨_, ends⟩ := drops_iff.1 dropped
          obtain ⟨more, feed⟩ := exists_stripFrom_eq ends
          rw [stripFrom_of_drops dropped, readLiteral_of_ends solid ends, feed, readLiteral_feed,
            ← feed, ← stripFrom_dropLine ends]
          exact ⟨rfl, .inl rfl⟩

end

/-! ## Regular expressions -/

section

variable {inClass : Bool}

/-- A regular expression that is open where only blanks are left on the line ends with the line. -/
theorem afterRegex_of_ends (ends : isSolid text = false) :
    afterRegex inClass text = text.dropWhile (· ≠ '\n') := by
  induction text with
  | nil => rfl
  | cons c text ih =>
      by_cases feed : c = '\n'
      · rw [feed, afterRegex_feed]
        rfl
      · obtain ⟨blank, ends⟩ := drops_iff.1 ((isSolid_cons_eq_false_iff.1 ends).resolve_left feed)
        have noSlash : c ≠ '/' := ne_of_isBlank blank (by decide)
        rw [afterRegex_plain (ne_of_isBlank blank (by decide)), List.dropWhile_cons, if_neg feed,
          if_neg (ne_of_isBlank blank (by decide)), if_neg (ne_of_isBlank blank (by decide)),
          if_neg (by simp [noSlash]), if_pos (by simpa using feed), ih ends]

theorem leaves_afterRegex
    (stays : ∀ escaped ∈ regexEscapes inClass text, staysOrEnds escaped = true) :
    Leaves (afterRegex inClass text) (afterRegex inClass (stripFrom text)) := by
  fun_induction afterRegex inClass text with
  | case1 inClass => exact .inl rfl
  | case2 inClass => exact .inr ⟨rfl, rfl⟩
  | case3 inClass c text ih =>
      rw [regexEscapes, List.forall_mem_cons] at stays
      rw [stripFrom_of_not_isBlank (by decide)]
      cases dropped : drops c text with
      | false =>
          rw [stripFrom_of_kept dropped, afterRegex]
          exact ih stays.2
      | true =>
          have blank : text.all isBlank = true := by
            simpa [staysOrEnds, dropped] using stays.1
          rw [stripFrom_of_drops dropped, stripFrom_of_all_isBlank blank, afterRegex,
            afterRegex_of_ends (drops_iff.1 dropped).2]
          exact .inr ⟨rfl, all_isBlank_of_suffix (List.dropWhile_suffix _) blank⟩
  | case4 inClass text =>
      obtain ⟨more, feed⟩ := exists_stripFrom_eq (isSolid_cons_eq_false_iff.2 (.inl rfl))
      rw [feed, afterRegex_feed]
      exact .inl feed.symm
  | case5 inClass text _ _ noFeed ih =>
      rw [regexEscapes_plain (by decide), if_neg noFeed, if_pos rfl] at stays
      rw [stripFrom_of_not_isBlank (by decide), afterRegex_plain (by decide), if_neg noFeed,
        if_pos rfl]
      exact ih stays
  | case6 inClass text _ _ noFeed noOpen ih =>
      rw [regexEscapes_plain (by decide), if_neg noFeed, if_neg noOpen, if_pos rfl] at stays
      rw [stripFrom_of_not_isBlank (by decide), afterRegex_plain (by decide), if_neg noFeed,
        if_neg noOpen, if_pos rfl]
      exact ih stays
  | case7 inClass c text noEscape noEscape' noFeed noOpen noClose closes =>
      have slash : c = '/' := by
        rw [Bool.and_eq_true, decide_eq_true_eq] at closes
        exact closes.1
      have solid : isBlank c = false := by
        rw [slash]
        decide
      rw [stripFrom_of_not_isBlank solid, afterRegex_plain (ne_backslash noEscape noEscape'),
        if_neg noFeed, if_neg noOpen, if_neg noClose, if_pos closes]
      exact .inl (dropWhile_stripFrom (fun _ => not_isBlank_of_isAlpha) text)
  | case8 inClass c text noEscape noEscape' noFeed noOpen noClose open' ih =>
      have plain := ne_backslash noEscape noEscape'
      rw [regexEscapes_plain plain, if_neg noFeed, if_neg noOpen, if_neg noClose, if_neg open']
        at stays
      cases dropped : drops c text with
      | false =>
          rw [stripFrom_of_kept dropped, afterRegex_plain plain, if_neg noFeed, if_neg noOpen,
            if_neg noClose, if_neg open']
          exact ih stays
      | true =>
          obtain ⟨_, ends⟩ := drops_iff.1 dropped
          obtain ⟨more, feed⟩ := exists_stripFrom_eq ends
          rw [stripFrom_of_drops dropped, afterRegex_of_ends ends, feed, afterRegex_feed, ← feed,
            ← stripFrom_dropLine ends]
          exact .inl rfl

end

/-! ## Templates -/

section

variable {state : TemplateState} {outer : List TemplateState}

/-- What is open in a template behind a line feed. -/
def behindFeed : List TemplateState → List TemplateState
  | .quoted _ :: outer => outer
  | states => states

theorem behindFeed_behindFeed {states : List TemplateState} (nests : Nests states) :
    behindFeed (behindFeed states) = behindFeed states := by
  cases nests with
  | template => rfl
  | expression depth nests => rfl
  | body nests => rfl
  | quoted quote nests => rfl

theorem nests_behindFeed {states : List TemplateState} (nests : Nests states) :
    Nests (behindFeed states) := by
  cases nests with
  | template => exact .template
  | expression depth nests => exact .expression depth nests
  | body nests => exact .body nests
  | quoted isQuote nests => exact nests

/-- A blank is read as it is, but for a line feed that ends a string. -/
theorem templateStep_of_isBlank (nests : Nests (state :: outer)) (blank : isBlank c = true) :
    templateStep outer c text state =
      (if c = '\n' then behindFeed (state :: outer) else state :: outer, text) := by
  have noEscape : c ≠ '\\' := ne_of_isBlank blank (by decide)
  have noDollar : c ≠ '$' := ne_of_isBlank blank (by decide)
  have noOpen : c ≠ '{' := ne_of_isBlank blank (by decide)
  have noClose : c ≠ '}' := ne_of_isBlank blank (by decide)
  have noQuote : c ≠ '"' := ne_of_isBlank blank (by decide)
  have noQuote' : c ≠ '\'' := ne_of_isBlank blank (by decide)
  have noBacktick := ne_backtick_of_isBlank blank
  cases nests with
  | template => simp [templateStep, behindFeed, noEscape, noDollar, noBacktick]
  | expression depth nests =>
      simp [templateStep, behindFeed, noOpen, noClose, noQuote, noQuote', noBacktick]
  | body nests => simp [templateStep, behindFeed, noEscape, noDollar, noBacktick]
  | @quoted _ _ quote isQuote nests =>
      have noEnd : c ≠ quote := by
        rcases isQuote with rfl | rfl
        · exact noQuote
        · exact noQuote'
      by_cases feed : c = '\n'
      · simp [templateStep, behindFeed, feed]
      · simp [templateStep, noEscape, noEnd, feed]

theorem templateRest?_feed {states : List TemplateState} (nests : Nests states)
    (text : List Char) :
    templateRest? states ('\n' :: text) = templateRest? (behindFeed states) text := by
  cases states with
  | nil => cases nests
  | cons state outer =>
      rw [templateRest?, templateStep_of_isBlank nests (by decide)]
      rfl

/-- No template is closed where only blanks are left. -/
theorem templateRest?_of_all_isBlank {states : List TemplateState} (nests : Nests states)
    (blank : text.all isBlank = true) : templateRest? states text = none := by
  induction text generalizing states with
  | nil =>
      cases states with
      | nil => cases nests
      | cons state outer => rw [templateRest?]
  | cons c text ih =>
      rw [List.all_cons, Bool.and_eq_true] at blank
      cases states with
      | nil => cases nests
      | cons state outer =>
          rw [templateRest?, templateStep_of_isBlank nests blank.1]
          dsimp only
          split_ifs
          · exact ih (nests_behindFeed nests) blank.2
          · exact ih nests blank.2

/-- The character escapes the one behind it. -/
def escapes (c : Char) : TemplateState → Bool
  | .expression _ => false
  | _ => c = '\\'

theorem templateStep_of_escapes (escape : escapes c state = true) :
    templateStep outer c text state = (state :: outer, text.tail) := by
  cases state with
  | expression depth => cases escape
  | body => rw [templateStep, if_pos (of_decide_eq_true escape)]
  | quoted quote => rw [templateStep, if_pos (of_decide_eq_true escape)]

theorem templateStep_stripFrom (plain : escapes c state = false) :
    templateStep outer c (stripFrom text) state =
      ((templateStep outer c text state).1, stripFrom (templateStep outer c text state).2) := by
  cases state with
  | expression depth =>
      rw [templateStep, templateStep]
      split_ifs <;> rfl
  | quoted quote =>
      have noEscape : c ≠ '\\' := of_decide_eq_false plain
      rw [templateStep, templateStep]
      simp only [if_neg noEscape]
      split_ifs <;> rfl
  | body =>
      have noEscape : c ≠ '\\' := of_decide_eq_false plain
      have brace : isBlank '{' = false := by decide
      rw [templateStep, templateStep]
      simp only [if_neg noEscape, head?_stripFrom brace]
      split_ifs with opens
      · rw [Bool.and_eq_true, decide_eq_true_eq, decide_eq_true_eq] at opens
        obtain ⟨rest, rfl⟩ := List.head?_eq_some_iff.1 opens.2
        rw [stripFrom_of_not_isBlank brace]
        rfl
      · rfl
      · rfl

/-- Where the escaped character is dropped, a line feed is escaped in its place. In the text of a
template it makes no difference, since neither of them does anything there. -/
theorem templateRest?_tail (nests : Nests (state :: outer)) (escape : escapes c state = true)
    (stays : ∀ escaped ∈ escapedAfter c text state, staysOrEnds escaped = true) :
    templateRest? (state :: outer) (stripFrom text).tail =
      templateRest? (state :: outer) (stripFrom text.tail) := by
  cases text with
  | nil =>
      have alone : templateRest? (state :: outer) [] = none :=
        templateRest?_of_all_isBlank nests rfl
      have feed : templateRest? (state :: outer) ['\n'] = none :=
        templateRest?_of_all_isBlank nests rfl
      exact alone.trans feed.symm
  | cons d text =>
      rw [List.tail_cons]
      cases dropped : drops d text with
      | false => rw [stripFrom_of_kept dropped, List.tail_cons]
      | true =>
          obtain ⟨more, feed⟩ := exists_stripFrom_eq (drops_iff.1 dropped).2
          rw [stripFrom_of_drops dropped]
          cases nests with
          | template => rw [feed, templateRest?_feed .template]; rfl
          | expression depth nests => cases escape
          | body nests => rw [feed, templateRest?_feed (.body nests)]; rfl
          | quoted isQuote nests =>
              have blank : text.all isBlank = true := by
                have kept := stays (d :: text) (by
                  rw [escapedAfter, if_pos (of_decide_eq_true escape)]
                  exact List.mem_singleton_self _)
                simpa [staysOrEnds, dropped] using kept
              rw [stripFrom_of_all_isBlank blank]
              exact (templateRest?_of_all_isBlank (.quoted isQuote nests) rfl).trans
                (templateRest?_of_all_isBlank (.quoted isQuote nests) rfl).symm

/-- A template is closed in the stripped text if it is closed in the text. -/
theorem templateRest?_stripFrom {states : List TemplateState} (nests : Nests states)
    (stays : ∀ escaped ∈ templateEscapes states text, staysOrEnds escaped = true) :
    templateRest? states (stripFrom text) = (templateRest? states text).map stripFrom := by
  fun_induction templateRest? states text with
  | case1 text => cases nests
  | case2 state outer => exact templateRest?_of_all_isBlank nests rfl
  | case3 state outer c text ih =>
      rw [templateEscapes, List.forall_mem_append] at stays
      obtain ⟨here, later⟩ := stays
      have behind : templateRest? (templateStep outer c text state).1
          (stripFrom (templateStep outer c text state).2) =
            (templateRest? (templateStep outer c text state).1
              (templateStep outer c text state).2).map stripFrom := by
        rcases nests_templateStep nests c text with nests' | ⟨closed, _⟩
        · exact ih nests' later
        · rw [closed, templateRest?, templateRest?]
          rfl
      rw [← behind]
      cases escape : escapes c state with
      | true =>
          have solid : isBlank c = false := by
            cases state with
            | expression depth => cases escape
            | body => rw [of_decide_eq_true escape]; decide
            | quoted quote => rw [of_decide_eq_true escape]; decide
          rw [stripFrom_of_not_isBlank solid, templateRest?, templateStep_of_escapes escape,
            templateStep_of_escapes escape]
          exact templateRest?_tail nests escape here
      | false =>
          cases dropped : drops c text with
          | false =>
              rw [stripFrom_of_kept dropped, templateRest?, templateStep_stripFrom escape]
          | true =>
              obtain ⟨blank, ends⟩ := drops_iff.1 dropped
              obtain ⟨more, feed⟩ := exists_stripFrom_eq ends
              rw [stripFrom_of_drops dropped, templateStep_of_isBlank nests blank, feed]
              dsimp only
              split_ifs
              · rw [templateRest?_feed nests, templateRest?_feed (nests_behindFeed nests),
                  behindFeed_behindFeed nests]
              · rfl

end

end WebBundle.Page
