import WebBundle.Proofs.Import.Templates

/-!
# How far a step looks

A reader of the lexer that stops before a character has found the end of what it reads, or it has
seen that this character does not go on with it. So it reads the same of every text that begins with
what it has read and goes on with a character of the same kind. Only a slash that is read alone
depends on which character follows. A run of the lexer up to some place of a text is therefore the
same whatever stands behind this place.
-/

namespace WebBundle.Import

/-! ## Readers -/

/-- Two characters of the same kind: a run of letters, a number or a line goes on with both of them
or with none. -/
structure Akin (x y : Char) : Prop where
  word : isWordChar x = isWordChar y
  number : isNumberChar x = isNumberChar y
  letter : x.isAlpha = y.isAlpha
  feed : x = '\n' ↔ y = '\n'

theorem akin_refl (x : Char) : Akin x x := ⟨rfl, rfl, rfl, Iff.rfl⟩

/-- Where the reader stops before a character, it reads the same of any text that begins with what
it has read and goes on with a character of the same kind. -/
def StopsIn {α : Type} (reader : List Char → α × List Char) (text : List Char) : Prop :=
  ∀ x rest, (reader text).2 = x :: rest →
    ∃ read, text = read ++ x :: rest ∧
      ∀ y more, Akin x y → reader (read ++ y :: more) = ((reader text).1, y :: more)

section

variable {α : Type} {reader : List Char → α × List Char} {text : List Char} {c : Char}

theorem stopsIn_of_nil (ends : (reader text).2 = []) : StopsIn reader text := by
  intro x rest stops
  rw [ends] at stops
  cases stops

/-- A reader may stop at once. -/
theorem stopsIn_here (value : α)
    (stops : ∀ y more, Akin c y → reader (y :: more) = (value, y :: more)) :
    StopsIn reader (c :: text) := by
  intro x rest left
  rw [stops c text (akin_refl c)] at left
  obtain ⟨rfl, rfl⟩ := List.cons.inj left
  refine ⟨[], rfl, fun y more akin => ?_⟩
  rw [List.nil_append, stops y more akin, stops c text (akin_refl c)]

/-- A reader that has found its end leaves all that follows. -/
theorem stopsIn_of_rest (value : α) (read : List Char)
    (ends : ∀ more, reader (read ++ more) = (value, more)) : StopsIn reader (read ++ text) := by
  intro x rest left
  rw [ends text] at left
  dsimp only at left
  subst left
  refine ⟨read, rfl, fun y more _ => ?_⟩
  rw [ends, ends]

theorem stopsIn_cons {next : List Char → α × List Char}
    (reads : ∀ text, reader (c :: text) = next text) (stops : StopsIn next text) :
    StopsIn reader (c :: text) := by
  intro x rest left
  rw [reads] at left ⊢
  obtain ⟨read, rfl, same⟩ := stops x rest left
  refine ⟨c :: read, rfl, fun y more akin => ?_⟩
  rw [List.cons_append, reads, same y more akin]

theorem stopsIn_map {β : Type} (value : α → β) (stops : StopsIn reader text) :
    StopsIn (fun text => (value (reader text).1, (reader text).2)) text := by
  intro x rest left
  obtain ⟨read, whole, same⟩ := stops x rest left
  refine ⟨read, whole, fun y more akin => ?_⟩
  dsimp only
  rw [same y more akin]

theorem stopsIn_run {p : Char → Bool} (kind : ∀ x y, Akin x y → p x = p y)
    (value : List Char → α) (text : List Char) :
    StopsIn (fun text => (value (text.takeWhile p), text.dropWhile p)) text := by
  induction text generalizing value with
  | nil => exact stopsIn_of_nil rfl
  | cons c text ih =>
      cases runs : p c with
      | true =>
          refine stopsIn_cons (fun text => ?_) (ih fun run => value (c :: run))
          rw [List.takeWhile_cons, List.dropWhile_cons, if_pos runs, if_pos runs]
      | false =>
          refine stopsIn_here (value []) fun y more akin => ?_
          have stays : p y = false := (kind c y akin).symm.trans runs
          simp only [List.takeWhile_cons, List.dropWhile_cons, stays, if_neg Bool.false_ne_true]

end

/-! ## Comments -/

/-- The end of a comment is the first one behind its beginning. -/
theorem afterBlockComment_append {body : List Char} (inside : ¬['*', '/'] <:+: body)
    (more : List Char) : afterBlockComment (body ++ '*' :: '/' :: more) = more := by
  induction body with
  | nil => rfl
  | cons c body ih =>
      rw [List.infix_cons_iff, not_or] at inside
      have goesOn : ∀ rest, c = '*' → body ++ '*' :: '/' :: more = '/' :: rest → False := by
        rintro rest rfl same
        cases body with
        | nil => cases same
        | cons d body =>
            obtain rfl := (List.cons.inj same).1
            exact inside.1 ⟨body, rfl⟩
      rw [List.cons_append, afterBlockComment.eq_2 _ _ goesOn]
      exact ih inside.2

theorem exists_of_afterBlockComment {x : Char} {text rest : List Char}
    (left : afterBlockComment text = x :: rest) :
    ∃ body, text = body ++ '*' :: '/' :: x :: rest ∧ ¬['*', '/'] <:+: body := by
  fun_induction afterBlockComment text with
  | case1 text => exact ⟨[], by rw [left, List.nil_append], by simp⟩
  | case2 c text goesOn ih =>
      obtain ⟨body, rfl, inside⟩ := ih left
      refine ⟨c :: body, rfl, fun within => ?_⟩
      rcases List.infix_cons_iff.1 within with ⟨others, same⟩ | within
      · cases same
        exact goesOn _ rfl rfl
      · exact inside within
  | case3 => cases left

theorem stopsIn_blockComment {α : Type} (value : α) (text : List Char) :
    StopsIn (fun text => (value, afterBlockComment text)) text := by
  intro x rest left
  obtain ⟨body, rfl, inside⟩ := exists_of_afterBlockComment left
  refine ⟨body ++ ['*', '/'], by simp, fun y more _ => ?_⟩
  simp only [List.append_assoc, List.cons_append, List.nil_append,
    afterBlockComment_append inside]

/-! ## Literals, regular expressions and templates -/

theorem stopsIn_readLiteral (quote : Char) (content text : List Char) :
    StopsIn (readLiteral quote content) text := by
  fun_induction readLiteral quote content text with
  | case1 content => exact stopsIn_of_nil rfl
  | case2 content => exact stopsIn_of_nil rfl
  | case3 content c text ih =>
      exact stopsIn_cons (fun _ => rfl) (stopsIn_cons (fun _ => rfl) ih)
  | case4 content text =>
      refine stopsIn_here none fun y more akin => ?_
      obtain rfl : y = '\n' := akin.feed.1 rfl
      exact readLiteral_feed more
  | case5 content text noEscape noEscape' noFeed =>
      refine stopsIn_of_rest (some content.reverse) [quote] fun more => ?_
      rw [List.singleton_append, readLiteral_plain (ne_backslash noEscape noEscape'),
        if_neg noFeed, if_pos rfl]
  | case6 content c text noEscape noEscape' noFeed noQuote ih =>
      refine stopsIn_cons (fun text => ?_) ih
      rw [readLiteral_plain (ne_backslash noEscape noEscape'), if_neg noFeed, if_neg noQuote]

theorem stopsIn_afterRegex {α : Type} (value : α) (inClass : Bool) (text : List Char) :
    StopsIn (fun text => (value, afterRegex inClass text)) text := by
  fun_induction afterRegex inClass text with
  | case1 inClass => exact stopsIn_of_nil rfl
  | case2 inClass => exact stopsIn_of_nil rfl
  | case3 inClass c text ih => exact stopsIn_cons (fun _ => rfl) (stopsIn_cons (fun _ => rfl) ih)
  | case4 inClass text =>
      refine stopsIn_here value fun y more akin => ?_
      obtain rfl : y = '\n' := akin.feed.1 rfl
      rw [afterRegex_feed]
  | case5 inClass text noEscape noEscape' noFeed ih =>
      refine stopsIn_cons (fun text => ?_) ih
      rw [afterRegex_plain (by decide), if_neg noFeed, if_pos rfl]
  | case6 inClass text noEscape noEscape' noFeed noOpen ih =>
      refine stopsIn_cons (fun text => ?_) ih
      rw [afterRegex_plain (by decide), if_neg noFeed, if_neg noOpen, if_pos rfl]
  | case7 inClass c text noEscape noEscape' noFeed noOpen noClose ends =>
      refine stopsIn_cons (fun text => ?_)
        (stopsIn_run (p := Char.isAlpha) (fun _ _ akin => akin.letter) (fun _ => value) text)
      rw [afterRegex_plain (ne_backslash noEscape noEscape'), if_neg noFeed, if_neg noOpen,
        if_neg noClose, if_pos ends]
  | case8 inClass c text noEscape noEscape' noFeed noOpen noClose goesOn ih =>
      refine stopsIn_cons (fun text => ?_) ih
      rw [afterRegex_plain (ne_backslash noEscape noEscape'), if_neg noFeed, if_neg noOpen,
        if_neg noClose, if_neg goesOn]

theorem templateRest?_cons (state : TemplateState) (outer : List TemplateState) (c : Char)
    (text : List Char) :
    templateRest? (state :: outer) (c :: text) =
      templateRest? (templateStep outer c text state).1 (templateStep outer c text state).2 := by
  rw [templateRest?]

theorem exists_cons_of_tail {text read rest : List Char} (tail : text.tail = read ++ rest)
    (reads : read ≠ []) : ∃ c, text = c :: (read ++ rest) := by
  cases text with
  | nil => exact absurd (List.append_eq_nil_iff.1 tail.symm).1 reads
  | cons c text => exact ⟨c, congrArg (c :: ·) tail⟩

/-- A step that leaves something open looks at the next character only where it is read. -/
theorem exists_skipped_of_templateStep {outer : List TemplateState} {c : Char}
    {text read rest : List Char} {state : TemplateState}
    (behind : (templateStep outer c text state).2 = read ++ rest)
    (reads : (templateStep outer c text state).1 ≠ [] → read ≠ []) :
    ∃ skipped, text = skipped ++ (read ++ rest) ∧ ∀ more,
      templateStep outer c (skipped ++ (read ++ more)) state =
        ((templateStep outer c text state).1, read ++ more) := by
  cases state with
  | body =>
      by_cases escapes : c = '\\'
      · simp only [templateStep, if_pos escapes] at behind reads ⊢
        obtain ⟨d, rfl⟩ := exists_cons_of_tail behind (reads (List.cons_ne_nil _ _))
        exact ⟨[d], rfl, fun more => rfl⟩
      by_cases opens : (c = '$' && text.head? = some '{') = true
      · simp only [templateStep, if_neg escapes, if_pos opens] at behind reads ⊢
        obtain ⟨d, rfl⟩ := exists_cons_of_tail behind (reads (List.cons_ne_nil _ _))
        refine ⟨[d], rfl, fun more => ?_⟩
        rw [List.head?_cons] at opens
        rw [List.singleton_append, List.head?_cons, if_pos opens, List.tail_cons]
      by_cases closes : c.toNat = 0x60
      · simp only [templateStep, if_neg escapes, if_neg opens, if_pos closes] at behind ⊢
        have other : c ≠ '$' := by
          rintro rfl
          exact absurd closes (by decide)
        refine ⟨[], behind, fun more => ?_⟩
        rw [if_neg (by simp [other]), List.nil_append]
      · simp only [templateStep, if_neg escapes, if_neg opens, if_neg closes] at behind reads ⊢
        obtain ⟨d, read, rfl⟩ := List.exists_cons_of_ne_nil (reads (List.cons_ne_nil _ _))
        refine ⟨[], behind, fun more => ?_⟩
        rw [behind, List.cons_append, List.head?_cons] at opens
        rw [List.nil_append, List.cons_append, List.head?_cons, if_neg opens]
  | expression depth =>
      refine ⟨[], ?_, fun more => ?_⟩
      · rw [← behind, List.nil_append, templateStep]
        split_ifs <;> rfl
      · rw [List.nil_append, templateStep, templateStep]
        split_ifs <;> rfl
  | quoted quote =>
      by_cases escapes : c = '\\'
      · simp only [templateStep, if_pos escapes] at behind reads ⊢
        obtain ⟨d, rfl⟩ := exists_cons_of_tail behind (reads (List.cons_ne_nil _ _))
        exact ⟨[d], rfl, fun more => rfl⟩
      · simp only [templateStep, if_neg escapes] at behind ⊢
        refine ⟨[], ?_, fun more => ?_⟩
        · rw [← behind, List.nil_append]
          split_ifs <;> rfl
        · rw [List.nil_append]
          split_ifs <;> rfl

/-- What closes a template stands before its rest. -/
theorem exists_read_of_templateRest? {states : List TemplateState} {text rest : List Char}
    (closed : templateRest? states text = some rest) :
    ∃ read, text = read ++ rest ∧ ∀ more, templateRest? states (read ++ more) = some more := by
  fun_induction templateRest? states text with
  | case1 text =>
      obtain rfl := Option.some.inj closed
      exact ⟨[], rfl, fun more => by rw [List.nil_append, templateRest?]⟩
  | case2 state outer => cases closed
  | case3 state outer c text ih =>
      obtain ⟨read, behind, closes⟩ := ih closed
      have reads : (templateStep outer c text state).1 ≠ [] → read ≠ [] := by
        rintro opens rfl
        obtain ⟨next, others, same⟩ := List.exists_cons_of_ne_nil opens
        have ends := closes []
        rw [same, List.append_nil, templateRest?] at ends
        cases ends
      obtain ⟨skipped, whole, same⟩ := exists_skipped_of_templateStep behind reads
      refine ⟨c :: (skipped ++ read), by simp [whole], fun more => ?_⟩
      rw [List.cons_append, List.append_assoc, templateRest?_cons, same, closes]

theorem stopsIn_afterTemplate {α : Type} (value : α) (states : List TemplateState)
    (text : List Char) : StopsIn (fun text => (value, afterTemplate states text)) text := by
  intro x rest left
  dsimp only at left
  rw [afterTemplate_eq] at left
  have closed : templateRest? states text = some (x :: rest) := by
    cases found : templateRest? states text with
    | none =>
        rw [found] at left
        cases left
    | some rest =>
        rw [found, Option.getD_some] at left
        rw [left]
  obtain ⟨read, whole, closes⟩ := exists_read_of_templateRest? closed
  refine ⟨read, whole, fun y more _ => ?_⟩
  dsimp only
  rw [afterTemplate_eq, closes, Option.getD_some]

/-! ## Steps -/

/-- What a step reads behind its first character, where the character after that is given. -/
def readerOf (last : Option Token) (c : Char) (next : Option Char) (text : List Char) :
    Option Token × List Char :=
  if isBlankChar c then (none, text)
  else if c = '/' && next = some '/' then (none, afterLineComment text)
  else if c = '/' && next = some '*' then (none, afterBlockComment text.tail)
  else if c = '/' && slashBeginsRegex last then (some .opaqued, afterRegex false text)
  else if c = '\'' || c = '"' then
    ((readLiteral c [] text).1.map Token.literal, (readLiteral c [] text).2)
  else if c.toNat = 0x60 then (some .opaqued, afterTemplate [.body] text)
  else if c.isDigit then (some .opaqued, text.dropWhile isNumberChar)
  else if isWordChar c then
    (some (.word (c :: text.takeWhile isWordChar)), text.dropWhile isWordChar)
  else (some (.punct c), text)

theorem readToken_eq (last : Option Token) (c : Char) (text : List Char) :
    readToken last c text = readerOf last c text.head? text :=
  rfl

/-- Only a slash is told apart by the next character. -/
theorem readerOf_congr {c : Char} {next next' : Option Char} (same : c = '/' → next = next')
    (last : Option Token) : readerOf last c next = readerOf last c next' := by
  funext text
  by_cases slash : c = '/'
  · rw [same slash]
  · simp [readerOf, slash]

theorem stopsIn_readerOf (last : Option Token) (c : Char) (next : Option Char)
    (text : List Char) : StopsIn (readerOf last c next) text := by
  have here (token : Option Token) : StopsIn (fun text => (token, text)) text :=
    stopsIn_of_rest token [] fun _ => rfl
  unfold readerOf
  split_ifs
  · exact here none
  · exact stopsIn_run (fun _ _ akin => by simpa using akin.feed) (fun _ => none) text
  · cases text with
    | nil => exact stopsIn_of_nil rfl
    | cons d text => exact stopsIn_cons (fun _ => rfl) (stopsIn_blockComment none text)
  · exact stopsIn_afterRegex _ false text
  · exact stopsIn_map (Option.map Token.literal) (stopsIn_readLiteral c [] text)
  · exact stopsIn_afterTemplate _ _ text
  · exact stopsIn_run (fun _ _ akin => akin.number) (fun _ => some Token.opaqued) text
  · exact stopsIn_run (fun _ _ akin => akin.word) (fun run => some (Token.word (c :: run))) text
  · exact here _

/-- A step that stops before a character reads the same of any text that goes on with a character
of the same kind. Behind a slash that is read alone it is the same character. -/
theorem exists_read_of_readToken {last : Option Token} {c x : Char} {text rest : List Char}
    (stops : (readToken last c text).2 = x :: rest) :
    ∃ read, text = read ++ x :: rest ∧
      ∀ y more, Akin x y → (c = '/' → read = [] → x = y) →
        readToken last c (read ++ y :: more) = ((readToken last c text).1, y :: more) := by
  rw [readToken_eq] at stops
  obtain ⟨read, rfl, same⟩ := stopsIn_readerOf last c text.head? text x rest stops
  refine ⟨read, rfl, fun y more akin alone => ?_⟩
  rw [readToken_eq, readToken_eq, ← same y more akin]
  refine congrFun (readerOf_congr (fun slash => ?_) last) _
  cases read with
  | nil => rw [List.nil_append, List.nil_append, alone slash rfl]; rfl
  | cons d read => rfl

/-! ## Runs -/

theorem tokensFrom_cons (last : Option Token) (c : Char) (text : List Char) :
    tokensFrom last (c :: text) = (readToken last c text).1.toList ++
      tokensFrom ((readToken last c text).1.or last) (readToken last c text).2 := by
  rw [tokensFrom]
  cases (readToken last c text).1 <;> rfl

theorem readToken_suffix (last : Option Token) (c : Char) (text : List Char) :
    (readToken last c text).2 <:+ text := by
  cases left : (readToken last c text).2 with
  | nil => exact List.nil_suffix
  | cons x rest =>
      obtain ⟨read, whole, _⟩ := exists_read_of_readToken left
      exact ⟨read, whole.symm⟩

theorem suffix_of_mem_stepsFrom {last : Option Token} {text : List Char} {step : Step}
    (comes : step ∈ stepsFrom last text) : step.first :: step.text <:+ text := by
  fun_induction stepsFrom last text with
  | case1 last => cases comes
  | case2 last c text ih =>
      rcases List.mem_cons.1 comes with rfl | later
      · exact List.suffix_rfl
      · exact (ih later).trans ((readToken_suffix last c text).trans (List.suffix_cons c text))

/-- A step before some place of a text is the same whatever stands behind this place. -/
theorem exists_read_before {last : Option Token} {c x : Char} {text mid back : List Char}
    (stops : (readToken last c text).2 = mid ++ x :: back) :
    ∃ read, text = read ++ (mid ++ x :: back) ∧
      ∀ y more, Akin x y → ((c :: (read ++ mid)).getLast? = some '/' → x = y) →
        readToken last c (read ++ (mid ++ y :: more)) =
          ((readToken last c text).1, mid ++ y :: more) := by
  cases mid with
  | nil =>
      obtain ⟨read, whole, same⟩ := exists_read_of_readToken stops
      refine ⟨read, whole, fun y more akin behind => same y more akin ?_⟩
      rintro rfl rfl
      exact behind rfl
  | cons z mid =>
      obtain ⟨read, whole, same⟩ := exists_read_of_readToken stops
      exact ⟨read, whole, fun y more _ _ => same z (mid ++ y :: more) (akin_refl z) fun _ _ => rfl⟩

/-- Where a run comes to some place of a text, it reads the same tokens up to there whatever stands
behind it: a character of the same kind, and the same character behind a slash. -/
theorem exists_tokensFrom {last last' : Option Token} {front back : List Char} {x : Char}
    (comes : ⟨last', x, back⟩ ∈ stepsFrom last (front ++ x :: back)) :
    ∃ read, last' = read.getLast?.or last ∧
      ∀ y more, Akin x y → (front.getLast? = some '/' → x = y) →
        tokensFrom last (front ++ y :: more) = read ++ tokensFrom last' (y :: more) := by
  generalize whole : front ++ x :: back = text at comes
  fun_induction stepsFrom last text generalizing front with
  | case1 last => cases comes
  | case2 last c text ih =>
      rcases List.mem_cons.1 comes with here | later
      · obtain ⟨rfl, rfl, rfl⟩ := Step.mk.inj here
        obtain rfl : front = [] := List.append_left_eq_self.1 whole
        exact ⟨[], rfl, fun y more _ _ => rfl⟩
      · obtain ⟨mid, left⟩ := suffix_of_mem_stepsFrom later
        obtain ⟨others, ends, reads⟩ := ih left later
        have stops : (readToken last c text).2 = mid ++ x :: back := left.symm
        obtain ⟨read, behind, same⟩ := exists_read_before stops
        obtain rfl : front = c :: (read ++ mid) := by
          rw [behind, ← List.append_assoc, ← List.cons_append] at whole
          exact List.append_cancel_right whole
        refine ⟨(readToken last c text).1.toList ++ others, ?_, fun y more akin slash => ?_⟩
        · rw [ends, Step.token, List.getLast?_append, Option.or_assoc]
          cases (readToken last c text).1 <;> rfl
        · have slash' : mid.getLast? = some '/' → x = y := by
            intro final
            refine slash ?_
            rw [← List.cons_append, List.getLast?_append, final, Option.some_or]
          rw [List.cons_append, List.append_assoc, tokensFrom_cons, same y more akin slash,
            List.append_assoc]
          exact congrArg _ (reads y more akin slash')

end WebBundle.Import
