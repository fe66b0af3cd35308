import Mathlib
import WebBundle.Proofs.Import.Bytes

/-!
# The cut on bytes and the cut on characters

A template and the expressions embedded in it call each other on bytes, where a list tells what is
open on characters. What closes the innermost open part does not depend on what is open around it,
so each of the two loops is compared with the reader of characters for whatever is around it, and
the calls are followed down to any depth that is said. At every call a place is left behind, so
there are never more of them than bytes.

A round of the main loop begins between two characters and reads what a step of the lexer reads of
the characters from there on, so it ends between two characters again, however malformed the script
is. A word is therefore cut out where characters meet, no loop is endless, and the tokens of the
bytes are those of the characters.
-/

namespace WebBundle.Import.Bytewise

variable {bytes : List UInt8} {place depth nesting : Nat} {c : Char} {text : List Char}

/-! ## Templates -/

theorem afterTemplate_nil (states : List TemplateState) : Import.afterTemplate states [] = [] := by
  cases states with
  | nil => rw [Import.afterTemplate.eq_1]
  | cons state outer => rw [Import.afterTemplate.eq_2]

/-- A string in an expression is read like a literal. A line break that ends it means nothing to
the expression. -/
theorem afterTemplate_quoted {quote : Char} (content text : List Char)
    (outer : List TemplateState) :
    Import.afterTemplate (.quoted quote :: .expression depth :: outer) text =
      Import.afterTemplate (.expression depth :: outer) (readLiteral quote content text).2 := by
  fun_induction readLiteral quote content text with
  | case1 content => rw [afterTemplate_nil, afterTemplate_nil]
  | case2 content =>
      rw [afterTemplate_cons, templateStep, if_pos rfl, List.tail_nil, afterTemplate_nil,
        afterTemplate_nil]
  | case3 content c text ih =>
      rw [afterTemplate_cons, templateStep, if_pos rfl, List.tail_cons]
      exact ih
  | case4 content text =>
      -- The string is left before the line break, and the expression reads it.
      rw [afterTemplate_cons, afterTemplate_cons]
      simp [templateStep]
  | case5 content text escape escape' noFeed =>
      rw [afterTemplate_cons, templateStep, if_neg (ne_backslash escape escape')]
      simp
  | case6 content c text escape escape' noFeed noQuote ih =>
      rw [afterTemplate_cons, templateStep, if_neg (ne_backslash escape escape'),
        if_neg (by simp [noQuote, noFeed])]
      exact ih

/-- A loop reads what closes the innermost open part of a template. -/
def Loop.Closes {σ : Type} (loop : Loop σ Unit) (bytes : List UInt8) (place : Nat) (state : σ)
    (opened : TemplateState) (text : List Char) : Prop :=
  ∃ rest, loop.Reads bytes place state ((), rest) ∧
    ∀ outer, Import.afterTemplate (opened :: outer) text = Import.afterTemplate outer rest

theorem Loop.Closes.again {σ : Type} {loop : Loop σ Unit} {next : Nat} {state state' : σ}
    {opened opened' : TemplateState} {text' : List Char}
    (step : loop.step bytes place state = .ok (.again next state'))
    (same : ∀ outer, Import.afterTemplate (opened :: outer) text =
      Import.afterTemplate (opened' :: outer) text')
    (closes : loop.Closes bytes next state' opened' text') :
    loop.Closes bytes place state opened text := by
  obtain ⟨rest, reads, behind⟩ := closes
  exact ⟨rest, .again step reads, fun outer => (same outer).trans (behind outer)⟩

/-- A function gives the place behind an open part of a template, as deep as is said. -/
def Passes (bytes : List UInt8) (nesting : Nat) (after : Nat → Except Fault Nat)
    (opened : TemplateState) : Prop :=
  ∀ place text, At bytes place text → place ≤ bytes.length → bytes.length < place + nesting →
    ∃ stop rest, after place = .ok stop ∧ At bytes stop rest ∧
      ∀ outer, Import.afterTemplate (opened :: outer) text = Import.afterTemplate outer rest

theorem step_template {after : Nat → Except Fault Nat} {byte : UInt8}
    (found : bytes[place]? = some byte) (member : byte ∈ String.utf8EncodeChar c) :
    (template bytes after).step bytes place () =
      if c = '\\' then .ok (.again (place + 2) ())
      else if c.toNat = 0x60 then .ok (.leave (place + 1) ())
      else if c = '$' && peek bytes (place + 1) = some '{' then
        (after (place + 2)).map fun stop => .again stop ()
      else .ok (.again (place + 1) ()) := by
  rw [Loop.step_of_goes found rfl]
  simp only [template, ofUInt8_eq_iff member (d := '\\') (by decide),
    ofUInt8_eq_iff member (d := '$') (by decide),
    toNat_ofUInt8_eq_iff member (n := 0x60) (by decide)]

theorem step_expression {after : Nat → Except Fault Nat} {byte : UInt8} (opened : 0 < depth)
    (found : bytes[place]? = some byte) (member : byte ∈ String.utf8EncodeChar c) :
    (expression bytes after).step bytes place depth =
      if c = '{' then .ok (.again (place + 1) (depth + 1))
      else if c = '}' then
        .ok (if depth = 1 then .leave (place + 1) () else .again (place + 1) (depth - 1))
      else if c = '"' || c = '\'' then
        ((literal bytes c).skip bytes (place + 1) []).map fun stop => .again stop depth
      else if c.toNat = 0x60 then (after (place + 1)).map fun stop => .again stop depth
      else .ok (.again (place + 1) depth) := by
  rw [Loop.step_of_goes found rfl]
  obtain ⟨depth, rfl⟩ := Nat.exists_eq_add_one_of_ne_zero opened.ne'
  rcases ofUInt8_cases member with same | ⟨wide, wide'⟩
  · cases depth <;> simp [expression, same]
  · have other : c.toNat ≠ 0x60 := by omega
    have other' : (Char.ofUInt8 byte).toNat ≠ 0x60 := by omega
    simp [expression, ne_of_wide wide, ne_of_wide wide', other, other']

theorem lt_next (place : Nat) (c : Char) : place < place + (String.utf8EncodeChar c).length :=
  Nat.lt_add_of_pos_right (List.length_pos_of_ne_nil String.utf8EncodeChar_ne_nil)

section

variable {after : Nat → Except Fault Nat}
  (later : ∀ next rest, place < next → At bytes next rest →
    (template bytes after).Closes bytes next () .body rest)

include later in
theorem closes_template_escape (here : At bytes place ('\\' :: text)) :
    (template bytes after).Closes bytes place () .body ('\\' :: text) := by
  obtain ⟨byte, member, found⟩ := here.exists_byte
  have behind := here.succ (by decide)
  have step : (template bytes after).step bytes place () = .ok (.again (place + 2) ()) :=
    (step_template found member).trans (if_pos rfl)
  cases text with
  | nil =>
      refine ⟨[], .again step (.nil behind.succ_of_nil), fun outer => ?_⟩
      rw [afterTemplate_cons, templateStep, if_pos rfl, List.tail_nil, afterTemplate_nil,
        afterTemplate_nil]
  | cons c text =>
      have moves := (Nat.lt_succ_self place).trans (lt_next (place + 1) c)
      obtain ⟨rest, reads, same⟩ := later _ _ moves behind.next
      refine ⟨rest, .again step (.behind behind ?_ reads), fun outer => ?_⟩
      · intro wide place' byte member found
        have other : c.toNat ≠ 0x60 := by omega
        simp [step_template found member, ne_of_wide wide, other]
      · rw [afterTemplate_cons, templateStep, if_pos rfl, List.tail_cons]
        exact same outer

theorem closes_template_backtick (closing : c.toNat = 0x60) (here : At bytes place (c :: text)) :
    (template bytes after).Closes bytes place () .body (c :: text) := by
  have other (d : Char) (noBacktick : d.toNat ≠ 0x60) : c ≠ d := by
    rintro rfl
    exact noBacktick closing
  obtain ⟨byte, member, found⟩ := here.exists_byte
  have behind := here.succ (by omega)
  refine ⟨text, .leave ?_ behind, fun outer => ?_⟩
  · rw [step_template found member, if_neg (other '\\' (by decide)), if_pos closing]
  · rw [afterTemplate_cons, templateStep, if_neg (other '\\' (by decide)),
      if_neg (by simp [other '$' (by decide)]), if_pos closing]

include later in
theorem closes_template_brace (forward : GoesForward after)
    (passes : Passes bytes nesting after (.expression 1))
    (here : At bytes place ('$' :: '{' :: text)) (enough : bytes.length ≤ place + nesting) :
    (template bytes after).Closes bytes place () .body ('$' :: '{' :: text) := by
  obtain ⟨byte, member, found⟩ := here.exists_byte
  have brace := here.succ (by decide)
  have behind := brace.succ (by decide)
  have sees : peek bytes (place + 1) = some '{' := (brace.peek_eq_some_iff (by decide)).2 rfl
  obtain ⟨stop, rest, skips, there, same⟩ := passes _ _ behind brace.lt_length (by omega)
  have moves := forward _ _ skips
  refine .again ?_ (fun outer => ?_) (later stop rest (by omega) there)
  · rw [step_template found member, sees, if_neg (by decide), if_neg (by decide),
      if_pos (by decide), skips]
    rfl
  · rw [afterTemplate_cons, templateStep, if_neg (by decide), if_pos (by simp)]
    exact same (.body :: outer)

include later in
theorem closes_template_plain (noEscape : c ≠ '\\') (noBacktick : c.toNat ≠ 0x60)
    (noBrace : ¬ (c = '$' ∧ text.head? = some '{')) (here : At bytes place (c :: text)) :
    (template bytes after).Closes bytes place () .body (c :: text) := by
  obtain ⟨rest, reads, same⟩ := later _ _ (lt_next place c) here.next
  refine ⟨rest, .passes here (fun place' stands byte member found => ?_) reads, fun outer => ?_⟩
  · have goesOn : ¬ (c = '$' ∧ peek bytes (place' + 1) = some '{') := by
      rintro ⟨rfl, brace⟩
      rcases stands with rfl | wide
      · have behind := here.succ (by decide)
        exact noBrace ⟨rfl, (behind.peek_eq_some_iff (by decide)).1 brace⟩
      · exact absurd wide (by decide)
    rw [step_template found member, if_neg noEscape, if_neg noBacktick,
      if_neg (by simpa using goesOn)]
  · rw [afterTemplate_cons, templateStep, if_neg noEscape, if_neg (by simpa using noBrace),
      if_neg noBacktick]
    exact same outer

end

theorem closes_template {after : Nat → Except Fault Nat} (forward : GoesForward after)
    (passes : Passes bytes nesting after (.expression 1)) (here : At bytes place text)
    (enough : bytes.length ≤ place + nesting) :
    (template bytes after).Closes bytes place () .body text := by
  induction left : bytes.length - place using Nat.strong_induction_on generalizing place text with
  | _ n ih =>
      cases text with
      | nil => exact ⟨[], .nil here, fun outer => by rw [afterTemplate_nil, afterTemplate_nil]⟩
      | cons c text =>
          have inside := here.lt_length
          -- What is left behind the character is shorter, wherever its round ends.
          have later (next : Nat) (rest : List Char) (moves : place < next)
              (there : At bytes next rest) :
              (template bytes after).Closes bytes next () .body rest :=
            ih _ (by omega) there (by omega) rfl
          by_cases escapes : c = '\\'
          · subst escapes
            exact closes_template_escape later here
          by_cases closes : c.toNat = 0x60
          · exact closes_template_backtick closes here
          by_cases opens : c = '$' ∧ text.head? = some '{'
          · obtain ⟨rfl, brace⟩ := opens
            obtain ⟨text, rfl⟩ := List.head?_eq_some_iff.1 brace
            exact closes_template_brace later forward passes here enough
          · exact closes_template_plain later escapes closes opens here

section

variable {after : Nat → Except Fault Nat}
  (later : ∀ next depth rest, place < next → 0 < depth → At bytes next rest →
    (expression bytes after).Closes bytes next depth (.expression depth) rest)
include later

theorem closes_expression_quote (isQuote : c = '"' ∨ c = '\'') (opened : 0 < depth)
    (here : At bytes place (c :: text)) :
    (expression bytes after).Closes bytes place depth (.expression depth) (c :: text) := by
  have ⟨ascii, noOpen, noClose⟩ : c.toNat < 0x80 ∧ c ≠ '{' ∧ c ≠ '}' := by
    rcases isQuote with rfl | rfl <;> decide
  obtain ⟨byte, member, found⟩ := here.exists_byte
  have behind := here.succ ascii
  obtain ⟨stop, ends, there⟩ := reads_literal ascii [] behind
  have skips : (literal bytes c).skip bytes (place + 1) [] = .ok stop :=
    ends.skip_eq (advances_literal c)
  have moves := (advances_literal c).le_of_skip skips
  refine .again ?_ (fun outer => ?_) (later stop depth _ moves opened there)
  · rw [step_expression opened found member, if_neg noOpen, if_neg noClose,
      if_pos (by simpa using isQuote), skips]
    rfl
  · rw [afterTemplate_cons, templateStep, if_neg noOpen, if_neg noClose,
      if_pos (by simpa using isQuote)]
    exact afterTemplate_quoted [] text outer

theorem closes_expression_backtick (forward : GoesForward after)
    (passes : Passes bytes nesting after .body) (closing : c.toNat = 0x60) (opened : 0 < depth)
    (here : At bytes place (c :: text)) (enough : bytes.length ≤ place + nesting) :
    (expression bytes after).Closes bytes place depth (.expression depth) (c :: text) := by
  have other (d : Char) (noBacktick : d.toNat ≠ 0x60) : c ≠ d := by
    rintro rfl
    exact noBacktick closing
  have noQuote : ¬ (decide (c = '"') || decide (c = '\'')) = true := by
    simp [other '"' (by decide), other '\'' (by decide)]
  obtain ⟨byte, member, found⟩ := here.exists_byte
  have behind := here.succ (by omega)
  obtain ⟨stop, rest, skips, there, same⟩ := passes _ _ behind here.lt_length (by omega)
  have moves := forward _ _ skips
  refine .again ?_ (fun outer => ?_) (later stop depth rest moves opened there)
  · rw [step_expression opened found member, if_neg (other '{' (by decide)),
      if_neg (other '}' (by decide)), if_neg noQuote, if_pos closing, skips]
    rfl
  · rw [afterTemplate_cons, templateStep, if_neg (other '{' (by decide)),
      if_neg (other '}' (by decide)), if_neg noQuote, if_pos closing]
    exact same (.expression depth :: outer)

theorem closes_expression_open (opened : 0 < depth) (here : At bytes place ('{' :: text)) :
    (expression bytes after).Closes bytes place depth (.expression depth) ('{' :: text) := by
  obtain ⟨byte, member, found⟩ := here.exists_byte
  have behind := here.succ (by decide)
  refine .again ((step_expression opened found member).trans (if_pos rfl)) (fun outer => ?_)
    (later _ _ text (Nat.lt_succ_self place) (Nat.succ_pos depth) behind)
  rw [afterTemplate_cons, templateStep, if_pos rfl]

theorem closes_expression_close (opened : 0 < depth) (here : At bytes place ('}' :: text)) :
    (expression bytes after).Closes bytes place depth (.expression depth) ('}' :: text) := by
  obtain ⟨byte, member, found⟩ := here.exists_byte
  have behind := here.succ (by decide)
  have step : (expression bytes after).step bytes place depth =
      .ok (if depth = 1 then .leave (place + 1) () else .again (place + 1) (depth - 1)) := by
    rw [step_expression opened found member, if_neg (by decide), if_pos rfl]
  by_cases last : depth = 1
  · rw [if_pos last] at step
    refine ⟨text, .leave step behind, fun outer => ?_⟩
    rw [afterTemplate_cons, templateStep, if_neg (by decide), if_pos rfl, if_pos last.le]
  · rw [if_neg last] at step
    refine .again step (fun outer => ?_)
      (later _ _ text (Nat.lt_succ_self place) (by omega) behind)
    rw [afterTemplate_cons, templateStep, if_neg (by decide), if_pos rfl, if_neg (by omega)]

theorem closes_expression_plain (noOpen : c ≠ '{') (noClose : c ≠ '}')
    (noQuote : ¬ (c = '"' ∨ c = '\'')) (noBacktick : c.toNat ≠ 0x60) (opened : 0 < depth)
    (here : At bytes place (c :: text)) :
    (expression bytes after).Closes bytes place depth (.expression depth) (c :: text) := by
  obtain ⟨rest, reads, same⟩ := later _ depth _ (lt_next place c) opened here.next
  refine ⟨rest, .passes here (fun place' _ byte member found => ?_) reads, fun outer => ?_⟩
  · rw [step_expression opened found member, if_neg noOpen, if_neg noClose,
      if_neg (by simpa using noQuote), if_neg noBacktick]
  · rw [afterTemplate_cons, templateStep, if_neg noOpen, if_neg noClose,
      if_neg (by simpa using noQuote), if_neg noBacktick]
    exact same outer

end

theorem closes_expression {after : Nat → Except Fault Nat} (forward : GoesForward after)
    (passes : Passes bytes nesting after .body) (here : At bytes place text)
    (enough : bytes.length ≤ place + nesting) (opened : 0 < depth) :
    (expression bytes after).Closes bytes place depth (.expression depth) text := by
  induction left : bytes.length - place using Nat.strong_induction_on
    generalizing place text depth with
  | _ n ih =>
      cases text with
      | nil => exact ⟨[], .nil here, fun outer => by rw [afterTemplate_nil, afterTemplate_nil]⟩
      | cons c text =>
          have inside := here.lt_length
          have later (next depth : Nat) (rest : List Char) (moves : place < next)
              (opened : 0 < depth) (there : At bytes next rest) :
              (expression bytes after).Closes bytes next depth (.expression depth) rest :=
            ih _ (by omega) there (by omega) opened rfl
          by_cases opens : c = '{'
          · subst opens
            exact closes_expression_open later opened here
          by_cases closes : c = '}'
          · subst closes
            exact closes_expression_close later opened here
          by_cases isQuote : c = '"' ∨ c = '\''
          · exact closes_expression_quote later isQuote opened here
          by_cases backtick : c.toNat = 0x60
          · exact closes_expression_backtick later forward passes backtick opened here enough
          · exact closes_expression_plain later opens closes isQuote backtick opened here

theorem passes_after (nesting : Nat) :
    Passes bytes nesting (afterTemplate bytes nesting) .body ∧
      Passes bytes nesting (afterExpression bytes nesting) (.expression 1) := by
  induction nesting with
  | zero =>
      -- No place is so far behind that nothing may be nested there.
      constructor
      · intro place text _ inside enough
        omega
      · intro place text _ inside enough
        omega
  | succ nesting ih =>
      obtain ⟨forward, forward'⟩ := goesForward_after bytes nesting
      constructor
      · intro place text here inside enough
        obtain ⟨rest, ⟨stop, ends, there⟩, same⟩ :=
          closes_template forward' ih.2 here (by omega)
        refine ⟨stop, rest, ?_, there, same⟩
        rw [afterTemplate]
        exact ends.skip_eq (advances_template forward')
      · intro place text here inside enough
        obtain ⟨rest, ⟨stop, ends, there⟩, same⟩ :=
          closes_expression forward ih.1 here (by omega) Nat.one_pos
        refine ⟨stop, rest, ?_, there, same⟩
        rw [afterExpression]
        exact ends.skip_eq (advances_expression forward)

/-! ## Words -/

/-- A character does not begin with a byte that is inside characters. -/
theorem not_isContinuation {byte : UInt8} {others : List UInt8}
    (whole : String.utf8EncodeChar c = byte :: others) : isContinuation byte = false := by
  have first (n : Nat) (small : n < 0x100) (other : n < 0x80 ∨ 0xC0 ≤ n)
      (same : UInt8.ofNat n = byte) : isContinuation byte = false := by
    have value : byte.toNat = n := by rw [← same, UInt8.toNat_ofNat', Nat.mod_eq_of_lt small]
    simp only [isContinuation, UInt8.le_iff_toNat_le, UInt8.lt_iff_toNat_lt, value]
    simp only [UInt8.toNat_ofNat, Bool.and_eq_false_iff, decide_eq_false_iff_not]
    omega
  unfold String.utf8EncodeChar at whole
  dsimp only at whole
  split_ifs at whole
  · exact first _ (by omega) (by omega) (List.cons.inj whole).1
  · exact first _ (by omega) (by omega) (List.cons.inj whole).1
  · exact first _ (by omega) (by omega) (List.cons.inj whole).1
  · exact first _ (by omega) (by omega) (List.cons.inj whole).1

theorem isBoundary_of_at (here : At bytes place text) (inside : place ≤ bytes.length) :
    isBoundary bytes place = true := by
  cases text with
  | nil =>
      have beyond : bytes.length ≤ place := List.drop_eq_nil_iff.1 here
      simp [isBoundary, Nat.le_antisymm inside beyond]
  | cons c text =>
      obtain ⟨byte, others, whole, found, _⟩ := here.exists_bytes
      simp [isBoundary, found, not_isContinuation whole]

/-- A word that is cut out between two characters. -/
structure Cuts (bytes : List UInt8) (place stop : Nat) : Prop where
  nonempty : place < stop
  inside : stop ≤ bytes.length
  starts : isBoundary bytes place = true
  stops : isBoundary bytes stop = true

theorem exists_word (isWord : isWordChar c = true) (here : At bytes place (c :: text)) :
    ∃ stop, (span isWordChar).skip bytes place () = .ok stop ∧ Cuts bytes place stop ∧
      slice bytes place stop = .ok (c :: text.takeWhile isWordChar) ∧
      At bytes stop (text.dropWhile isWordChar) := by
  have ends := ends_span (.of_wide fun _ => isWordChar_of_wide) here
  have parts := List.takeWhile_append_dropWhile (p := isWordChar) (l := c :: text)
  rw [List.takeWhile_cons_of_pos isWord] at ends parts
  rw [List.dropWhile_cons_of_pos isWord] at parts
  generalize word : c :: text.takeWhile isWordChar = front at ends parts
  have whole : bytes.drop place = encode front ++ encode (text.dropWhile isWordChar) := by
    rw [← encode_append, parts]
    exact here
  have there : At bytes (place + (encode front).length) (text.dropWhile isWordChar) := by
    rw [← parts] at here
    exact here.append
  have begins := here.lt_length
  have size := congrArg List.length whole
  rw [List.length_drop, List.length_append] at size
  have cuts : Cuts bytes place (place + (encode front).length) := by
    refine ⟨?_, by omega, isBoundary_of_at here begins.le, isBoundary_of_at there (by omega)⟩
    refine Nat.lt_add_of_pos_right (List.length_pos_of_ne_nil ?_)
    rw [← word, encode_cons]
    exact List.append_ne_nil_of_left_ne_nil String.utf8EncodeChar_ne_nil _
  refine ⟨_, ends.skip_eq (advances_span _), cuts, ?_, there⟩
  rw [slice, if_pos (by simp [cuts.starts, cuts.stops]), List.drop_take, Nat.add_sub_cancel_left,
    whole, List.take_left, decode_encode]

/-! ## The main loop -/

/-- A run that goes on from the first character of a text. -/
theorem exists_skip {test : Char → Bool} {value : Bool}
    (wide : ∀ c : Char, 0x80 ≤ c.toNat → test c = value) (first : test c = true)
    (here : At bytes place (c :: text)) :
    ∃ stop, (span test).skip bytes place () = .ok stop ∧ At bytes stop (text.dropWhile test) := by
  obtain ⟨stop, ends, there⟩ := reads_span (.of_wide wide) here
  rw [List.dropWhile_cons_of_pos first] at there
  exact ⟨stop, ends.skip_eq (advances_span test), there⟩

/-- A round of the main loop reads what a step of the lexer reads. -/
def ReadsToken (bytes : List UInt8) (place : Nat) (tokens : List Token) (c : Char)
    (text : List Char) : Prop :=
  ∃ stop, (script bytes).step bytes place tokens = .ok (.again stop
      (tokens ++ (readToken tokens.getLast? c text).1.toList)) ∧
    At bytes stop (readToken tokens.getLast? c text).2

theorem readsToken_of_wide (wide : 0x80 ≤ c.toNat) (tokens : List Token)
    (here : At bytes place (c :: text)) : ReadsToken bytes place tokens c text := by
  obtain ⟨byte, member, found⟩ := here.exists_byte
  obtain ⟨stop, skips, _, cut, there⟩ := exists_word (isWordChar_of_wide wide) here
  have wide' := wide_ofUInt8 member wide
  have other : c.toNat ≠ 0x60 := by omega
  have other' : (Char.ofUInt8 byte).toNat ≠ 0x60 := by omega
  refine ⟨stop, ?_, ?_⟩
  · rw [Loop.step_of_goes found rfl]
    simp [script, readToken, isBlankChar_of_wide, isDigit_of_wide, isWordChar_of_wide,
      ne_of_wide wide, ne_of_wide wide', wide, wide', other, other', skips, cut, Except.bind,
      Except.map]
  · simpa [readToken, isBlankChar_of_wide, isDigit_of_wide, isWordChar_of_wide,
      ne_of_wide wide, wide, other] using there

theorem readsToken_of_ascii (ascii : c.toNat < 0x80) (tokens : List Token)
    (here : At bytes place (c :: text)) : ReadsToken bytes place tokens c text := by
  obtain ⟨byte, member, found⟩ := here.exists_byte
  have behind := here.succ ascii
  have same : Char.ofUInt8 byte = c := (ofUInt8_eq_iff member ascii).2 rfl
  rw [ReadsToken, Loop.step_of_goes found rfl]
  simp only [script, readToken, same, behind.peek_eq_some_iff (d := '/') (by decide),
    behind.peek_eq_some_iff (d := '*') (by decide)]
  split_ifs with blank line block regexBegins quote backtick digit word
  · exact ⟨place + 1, by rw [Option.toList_none, List.append_nil], behind⟩
  · obtain ⟨rfl, _⟩ : c = '/' ∧ text.head? = some '/' := by simpa using line
    have noFeed (d : Char) (wide : 0x80 ≤ d.toNat) : decide (d ≠ '\n') = true :=
      decide_eq_true (ne_of_wide wide (by decide))
    obtain ⟨stop, skips, there⟩ := exists_skip noFeed (by decide) here
    refine ⟨stop, ?_, there⟩
    rw [skips, Option.toList_none, List.append_nil]
    rfl
  · obtain ⟨_, star⟩ : c = '/' ∧ text.head? = some '*' := by simpa using block
    obtain ⟨text, rfl⟩ := List.head?_eq_some_iff.1 star
    have behind := behind.succ (by decide)
    obtain ⟨stop, ends, there⟩ := reads_blockComment behind
    refine ⟨stop, ?_, there⟩
    rw [ends.skip_eq advances_blockComment, Option.toList_none, List.append_nil]
    rfl
  · obtain ⟨stop, ends, there⟩ := reads_regex false behind
    refine ⟨stop, ?_, there⟩
    rw [ends.skip_eq advances_regex]
    rfl
  · obtain ⟨stop, ends, there⟩ := reads_literal ascii [] behind
    have run : (literal bytes c).run bytes (place + 1) [] = _ :=
      ends.run_eq (advances_literal c)
    refine ⟨stop, ?_, there⟩
    rw [run]
    rfl
  · obtain ⟨stop, rest, skips, there, same⟩ :=
      (passes_after (bytes.length + 1)).1 _ _ behind here.lt_length (by omega)
    refine ⟨stop, ?_, ?_⟩
    · rw [skips]
      rfl
    · rw [same, Import.afterTemplate.eq_1]
      exact there
  · have first : isNumberChar c = true := by simp [isNumberChar, Char.isAlphanum, digit]
    obtain ⟨stop, skips, there⟩ := exists_skip (fun _ => isNumberChar_of_wide) first here
    refine ⟨stop, ?_, there⟩
    rw [skips]
    rfl
  · obtain ⟨stop, skips, _, cut, there⟩ := exists_word word here
    refine ⟨stop, ?_, there⟩
    rw [skips, Except.bind, cut]
    rfl
  · exact ⟨place + 1, rfl, behind⟩

theorem readsToken (tokens : List Token) (here : At bytes place (c :: text)) :
    ReadsToken bytes place tokens c text := by
  rcases Nat.lt_or_ge c.toNat 0x80 with ascii | wide
  · exact readsToken_of_ascii ascii tokens here
  · exact readsToken_of_wide wide tokens here

theorem ends_script (tokens : List Token) (here : At bytes place text) :
    ∃ stop, (script bytes).Ends bytes place tokens stop
      (tokens ++ tokensFrom tokens.getLast? text) := by
  induction left : bytes.length - place using Nat.strong_induction_on
    generalizing place text tokens with
  | _ n ih =>
      cases text with
      | nil =>
          refine ⟨place, .leave ?_⟩
          rw [Loop.step_of_none here.getElem?_of_nil, tokensFrom, List.append_nil]
          rfl
      | cons c text =>
          obtain ⟨next, step, there⟩ := readsToken tokens here
          have inside := here.lt_length
          have moves := advances_script.lt_of_step step
          have smaller : bytes.length - next < n := by omega
          obtain ⟨stop, ends⟩ := ih _ smaller (tokens ++ _) there rfl
          refine ⟨stop, .again step ?_⟩
          rw [List.append_assoc, List.getLast?_append] at ends
          rw [tokensFrom_cons]
          have last (token : Option Token) : token.toList.getLast? = token := by
            cases token <;> rfl
          rwa [last] at ends

/-- The main loop comes to heads of rounds between two characters only. -/
theorem exists_text_of_reaches {source : List Char} {initial tokens : List Token}
    (begins : At bytes 0 source)
    (reaches : (script bytes).Reaches bytes 0 initial place tokens) :
    ∃ text, At bytes place text := by
  induction reaches with
  | start => exact ⟨source, begins⟩
  | @again place next tokens tokens' _ step ih =>
      obtain ⟨text, here⟩ := ih
      cases text with
      | nil =>
          rw [Loop.step_of_none here.getElem?_of_nil] at step
          cases step
      | cons c text =>
          obtain ⟨stop, step', there⟩ := readsToken tokens here
          rw [step'] at step
          cases step
          exact ⟨_, there⟩

/-- A word that the main loop comes to is cut out. -/
theorem exists_cuts_of_reaches {source : List Char} {initial tokens : List Token} {byte : UInt8}
    (begins : At bytes 0 source) (reaches : (script bytes).Reaches bytes 0 initial place tokens)
    (found : bytes[place]? = some byte) (isWord : isWordChar (Char.ofUInt8 byte) = true) :
    ∃ stop, (span isWordChar).skip bytes place () = .ok stop ∧ Cuts bytes place stop := by
  obtain ⟨text, here⟩ := exists_text_of_reaches begins reaches
  cases text with
  | nil =>
      rw [here.getElem?_of_nil] at found
      cases found
  | cons c text =>
      obtain ⟨byte', member, found'⟩ := here.exists_byte
      obtain rfl := Option.some.inj (found.symm.trans found')
      have uniform : Uniform isWordChar := .of_wide fun _ => isWordChar_of_wide
      rw [uniform.ofUInt8_eq member] at isWord
      obtain ⟨stop, skips, cuts, _⟩ := exists_word isWord here
      exact ⟨stop, skips, cuts⟩

/-! ## Every script -/

/-- Every round of every loop moves on, an embedded expression has an open brace at the head of
every round, and a word is cut out between two places where characters meet. -/
structure StaysInBounds (bytes : List UInt8) : Prop where
  spans : ∀ test, (span test).Advances bytes
  comments : (blockComment bytes).Advances bytes
  literals : ∀ quote, (literal bytes quote).Advances bytes
  templates : ∀ nesting, (template bytes (afterExpression bytes nesting)).Advances bytes
  expressions : ∀ nesting, (expression bytes (afterTemplate bytes nesting)).Advances bytes
  regexes : (regex bytes).Advances bytes
  rounds : (script bytes).Advances bytes
  depths : ∀ nesting start place depth,
    (expression bytes (afterTemplate bytes nesting)).Reaches bytes start 1 place depth → 0 < depth
  words : ∀ place tokens byte, (script bytes).Reaches bytes 0 [] place tokens →
    bytes[place]? = some byte → isWordChar (Char.ofUInt8 byte) = true →
      ∃ stop, (span isWordChar).skip bytes place () = .ok stop ∧ Cuts bytes place stop

/-- The cut on bytes is without a fault on every script, and it gives the tokens that the characters
are cut into. -/
theorem tokens_staysInBounds (source : String) :
    StaysInBounds source.toUTF8.toList ∧ tokens source = .ok (Import.tokens source.toList) := by
  have begins : At source.toUTF8.toList 0 source.toList := Text.toList_toUTF8 source
  constructor
  · exact {
      spans := advances_span
      comments := advances_blockComment
      literals := advances_literal
      templates := fun nesting => advances_template (goesForward_after _ nesting).2
      expressions := fun nesting => advances_expression (goesForward_after _ nesting).1
      regexes := advances_regex
      rounds := advances_script
      depths := fun _ _ _ _ => pos_of_reaches
      words := fun _ _ _ => exists_cuts_of_reaches begins }
  · obtain ⟨stop, ends⟩ := ends_script [] begins
    rw [tokens, ends.run_eq advances_script]
    rfl

end WebBundle.Import.Bytewise
