import Mathlib
import WebBundle.Proofs.Import.Locality
import WebBundle.Proofs.Import.Rounds
import WebBundle.Proofs.Text.Encoding

/-!
# Characters of a script and their bytes

The lexer tells apart only characters that are one byte. All bytes of any other character are alike
to it, and they are what such a character is to a reader of characters: a part of a word, and
nothing in a number or behind a regular expression. So a loop that stands between two characters
takes the character there byte by byte to the same effect, and an escape, which is two bytes long,
may leave the other bytes of its character to the rounds behind it.
-/

namespace WebBundle.Import.Bytewise

/-! ## Bytes of characters -/

/-- The bytes of a text. -/
def encode (text : List Char) : List UInt8 := text.flatMap String.utf8EncodeChar

theorem encode_cons (c : Char) (text : List Char) :
    encode (c :: text) = String.utf8EncodeChar c ++ encode text :=
  List.flatMap_cons

theorem encode_append (front back : List Char) :
    encode (front ++ back) = encode front ++ encode back :=
  List.flatMap_append

theorem decode_encode (text : List Char) : decode (encode text) = text := by
  have bytes : (⟨(encode text).toArray⟩ : ByteArray) = (String.ofList text).toUTF8 := by
    have whole := Text.toList_toUTF8 (String.ofList text)
    rw [String.toList_ofList, toList_bytes] at whole
    rw [encode, ← whole]
  rw [decode, bytes, Text.Utf8.lenient, ← Text.Utf8.strict?, Text.Utf8.strict?_toUTF8]
  exact String.toList_ofList

theorem toNat_ofUInt8 (byte : UInt8) : (Char.ofUInt8 byte).toNat = byte.toNat := rfl

/-- A byte of a character is the character, or both are above the ASCII range. -/
theorem ofUInt8_cases {c : Char} {byte : UInt8} (member : byte ∈ String.utf8EncodeChar c) :
    Char.ofUInt8 byte = c ∨ 0x80 ≤ c.toNat ∧ 0x80 ≤ (Char.ofUInt8 byte).toNat := by
  rcases Text.utf8EncodeChar_cases c with ⟨ascii, single⟩ | ⟨wide, all⟩
  · rw [single, List.mem_singleton] at member
    refine .inl (Char.toNat_inj.1 ?_)
    rw [toNat_ofUInt8, member, UInt8.toNat_ofNat', Nat.mod_eq_of_lt (by omega)]
  · exact .inr ⟨wide, all byte member⟩

/-- Only a character above the ASCII range has bytes behind its first one. -/
theorem wide_of_mem {c : Char} {byte other : UInt8} {others : List UInt8}
    (whole : String.utf8EncodeChar c = byte :: others) (member : other ∈ others) :
    0x80 ≤ c.toNat := by
  rcases Text.utf8EncodeChar_cases c with ⟨_, single⟩ | ⟨wide, _⟩
  · rw [whole, List.cons.injEq] at single
    rw [single.2] at member
    cases member
  · exact wide

theorem wide_ofUInt8 {c : Char} {byte : UInt8} (member : byte ∈ String.utf8EncodeChar c)
    (wide : 0x80 ≤ c.toNat) : 0x80 ≤ (Char.ofUInt8 byte).toNat := by
  rcases ofUInt8_cases member with same | ⟨_, wide'⟩
  · rwa [same]
  · exact wide'

/-- A test that takes all characters above the ASCII range alike. -/
def Uniform (test : Char → Bool) : Prop :=
  ∀ c d : Char, 0x80 ≤ c.toNat → 0x80 ≤ d.toNat → test c = test d

theorem Uniform.of_wide {test : Char → Bool} {value : Bool}
    (wide : ∀ c : Char, 0x80 ≤ c.toNat → test c = value) : Uniform test :=
  fun c d wideC wideD => (wide c wideC).trans (wide d wideD).symm

/-- Such a test takes a byte as the character that it is a part of. -/
theorem Uniform.ofUInt8_eq {test : Char → Bool} (uniform : Uniform test) {c : Char} {byte : UInt8}
    (member : byte ∈ String.utf8EncodeChar c) : test (Char.ofUInt8 byte) = test c := by
  rcases ofUInt8_cases member with same | ⟨wide, wide'⟩
  · rw [same]
  · exact uniform _ _ wide' wide

/-- A byte of a character is some ASCII character just if the character is. -/
theorem ofUInt8_eq_iff {c d : Char} {byte : UInt8} (member : byte ∈ String.utf8EncodeChar c)
    (ascii : d.toNat < 0x80) : Char.ofUInt8 byte = d ↔ c = d := by
  rcases ofUInt8_cases member with same | ⟨wide, wide'⟩
  · rw [same]
  · constructor
    · rintro rfl
      exact absurd ascii (Nat.not_lt.2 wide')
    · rintro rfl
      exact absurd ascii (Nat.not_lt.2 wide)

theorem toNat_ofUInt8_eq_iff {c : Char} {byte : UInt8} (member : byte ∈ String.utf8EncodeChar c)
    {n : Nat} (ascii : n < 0x80) : (Char.ofUInt8 byte).toNat = n ↔ c.toNat = n := by
  rcases ofUInt8_cases member with same | ⟨wide, wide'⟩
  · rw [same]
  · exact iff_of_false (by omega) (by omega)

section

variable {c : Char} (wide : 0x80 ≤ c.toNat)
include wide

theorem isAlpha_of_wide : c.isAlpha = false := by
  have above : ∀ bound : UInt32, bound.toNat < 0x80 → ¬ c.val ≤ bound := fun bound small below =>
    absurd (wide.trans (UInt32.le_iff_toNat_le.1 below)) (Nat.not_le.2 small)
  simp [Char.isAlpha, Char.isUpper, Char.isLower, above]

theorem isDigit_of_wide : c.isDigit = false := by
  have above : ¬ c.val ≤ 57 := fun below =>
    absurd (wide.trans (UInt32.le_iff_toNat_le.1 below)) (by decide)
  simp [Char.isDigit, above]

theorem ne_of_wide {d : Char} (ascii : d.toNat < 0x80) : c ≠ d := by
  rintro rfl
  exact absurd wide (Nat.not_le.2 ascii)

theorem isNumberChar_of_wide : isNumberChar c = false := by
  rw [isNumberChar, Char.isAlphanum, isAlpha_of_wide wide, isDigit_of_wide wide]
  simpa using ne_of_wide wide (by decide)

theorem isBlankChar_of_wide : isBlankChar c = false := by
  simp [isBlankChar, ne_of_wide wide]

theorem isWordChar_of_wide : isWordChar c = true := by
  simp [isWordChar, wide]

end

/-! ## Places between characters -/

variable {bytes : List UInt8} {place : Nat} {c : Char} {text : List Char}

/-- A text stands from a place on. -/
def At (bytes : List UInt8) (place : Nat) (text : List Char) : Prop :=
  bytes.drop place = encode text

namespace At

theorem append {front : List Char} (here : At bytes place (front ++ text)) :
    At bytes (place + (encode front).length) text := by
  rw [At, ← List.drop_drop, here, encode_append, List.drop_left]

theorem next (here : At bytes place (c :: text)) :
    At bytes (place + (String.utf8EncodeChar c).length) text := by
  rw [At, ← List.drop_drop, here, encode_cons, List.drop_left]

/-- The bytes of the first character stand from the place on. -/
theorem exists_bytes (here : At bytes place (c :: text)) :
    ∃ byte others, String.utf8EncodeChar c = byte :: others ∧ bytes[place]? = some byte ∧
      bytes.drop (place + 1) = others ++ encode text := by
  obtain ⟨byte, others, whole⟩ := List.exists_cons_of_ne_nil (@String.utf8EncodeChar_ne_nil c)
  rw [At, encode_cons, whole] at here
  exact ⟨byte, others, whole, of_drop_eq_cons here⟩

theorem exists_byte (here : At bytes place (c :: text)) :
    ∃ byte ∈ String.utf8EncodeChar c, bytes[place]? = some byte := by
  obtain ⟨byte, others, whole, found, _⟩ := here.exists_bytes
  refine ⟨byte, ?_, found⟩
  rw [whole]
  exact List.mem_cons_self

/-- A character of ASCII is one byte. -/
theorem succ (here : At bytes place (c :: text)) (ascii : c.toNat < 0x80) :
    At bytes (place + 1) text := by
  have behind := here.next
  rcases Text.utf8EncodeChar_cases c with ⟨_, single⟩ | ⟨wide, _⟩
  · rwa [single] at behind
  · exact absurd ascii (Nat.not_lt.2 wide)

theorem getElem?_of_nil (here : At bytes place []) : bytes[place]? = none := by
  rw [← List.head?_drop, here]
  rfl

theorem succ_of_nil (here : At bytes place []) : At bytes (place + 1) [] := by
  rw [At, ← List.tail_drop, here]
  rfl

theorem lt_length (here : At bytes place (c :: text)) : place < bytes.length := by
  obtain ⟨byte, _, found⟩ := here.exists_byte
  exact (List.getElem?_eq_some_iff.1 found).1

/-- A character of ASCII is seen at a place if it stands there. -/
theorem peek_eq_some_iff (here : At bytes place text) {d : Char} (ascii : d.toNat < 0x80) :
    peek bytes place = some d ↔ text.head? = some d := by
  cases text with
  | nil => simp [peek, here.getElem?_of_nil]
  | cons c text =>
      obtain ⟨byte, member, found⟩ := here.exists_byte
      rw [peek, found, Option.map_some, List.head?_cons, Option.some_inj, Option.some_inj]
      exact ofUInt8_eq_iff member ascii

end At

/-! ## Loops over characters -/

namespace Loop

variable {σ ρ : Type} {loop : Loop σ ρ} {state : σ} {read : ρ × List Char}

/-- What a loop reads from a place on: its result, and the text that stands where it is left. -/
def Reads (loop : Loop σ ρ) (bytes : List UInt8) (place : Nat) (state : σ)
    (read : ρ × List Char) : Prop :=
  ∃ stop, loop.Ends bytes place state stop read.1 ∧ At bytes stop read.2

namespace Reads

theorem leave {stop : Nat} {result : ρ}
    (step : loop.step bytes place state = .ok (.leave stop result)) (there : At bytes stop text) :
    loop.Reads bytes place state (result, text) :=
  ⟨stop, .leave step, there⟩

theorem again {next : Nat} {state' : σ}
    (step : loop.step bytes place state = .ok (.again next state'))
    (reads : loop.Reads bytes next state' read) : loop.Reads bytes place state read := by
  obtain ⟨stop, ends, there⟩ := reads
  exact ⟨stop, .again step ends, there⟩

/-- At the end of the text every loop is over. -/
theorem nil (here : At bytes place []) : loop.Reads bytes place state (loop.atEnd state, []) :=
  leave (step_of_none here.getElem?_of_nil) here

/-- A loop that is inside a character behind its first byte passes the rest of it. -/
theorem behind (here : At bytes place (c :: text))
    (step : 0x80 ≤ c.toNat → ∀ place', ∀ byte ∈ String.utf8EncodeChar c,
      bytes[place']? = some byte →
        loop.step bytes place' state = .ok (.again (place' + 1) state))
    (reads : loop.Reads bytes (place + (String.utf8EncodeChar c).length) state read) :
    loop.Reads bytes (place + 1) state read := by
  obtain ⟨byte, others, whole, _, rest⟩ := here.exists_bytes
  obtain ⟨stop, ends, there⟩ := reads
  rw [whole, List.length_cons, Nat.add_comm others.length, ← Nat.add_assoc] at ends
  refine ⟨stop, .pass (fun _ => state) [] rest (fun place' _ other member => ?_) ends, there⟩
  refine step (wide_of_mem whole member) place' other ?_
  rw [whole]
  exact List.mem_cons_of_mem byte member

/-- A loop that goes on at every byte of a character passes the character. -/
theorem passes (here : At bytes place (c :: text))
    (step : ∀ place', place' = place ∨ 0x80 ≤ c.toNat → ∀ byte ∈ String.utf8EncodeChar c,
      bytes[place']? = some byte →
        loop.step bytes place' state = .ok (.again (place' + 1) state))
    (reads : loop.Reads bytes (place + (String.utf8EncodeChar c).length) state read) :
    loop.Reads bytes place state read := by
  obtain ⟨byte, member, found⟩ := here.exists_byte
  refine again (step place (.inl rfl) byte member found) (behind here ?_ reads)
  exact fun wide place' => step place' (.inr wide)

end Reads

end Loop

/-! ## Runs and comments -/

theorem ends_span {test : Char → Bool} (uniform : Uniform test) (here : At bytes place text) :
    (span test).Ends bytes place () (place + (encode (text.takeWhile test)).length) () := by
  rw [← List.takeWhile_append_dropWhile (p := test) (l := text)] at here
  have front : bytes.drop place =
      encode (text.takeWhile test) ++ encode (text.dropWhile test) := by
    rw [← encode_append]
    exact here
  have there := here.append
  refine .pass (fun _ => ()) [] front (fun place' _ byte member found => ?_) (.leave ?_)
  · obtain ⟨c, inside, member⟩ := List.mem_flatMap.1 member
    have passes := List.mem_takeWhile_imp inside
    rw [← uniform.ofUInt8_eq member] at passes
    exact Loop.step_of_goes found passes
  · cases rest : text.dropWhile test with
    | nil =>
        rw [rest] at there
        exact Loop.step_of_none there.getElem?_of_nil
    | cons c behind =>
        rw [rest] at there
        obtain ⟨byte, member, found⟩ := there.exists_byte
        have fails := List.head?_dropWhile_not test text
        rw [rest] at fails
        have stands : (span test).goes byte ≠ true :=
          ne_true_of_eq_false ((uniform.ofUInt8_eq member).trans fails)
        rw [Loop.step_of_some found, if_neg stands]

theorem reads_span {test : Char → Bool} (uniform : Uniform test) (here : At bytes place text) :
    (span test).Reads bytes place () ((), text.dropWhile test) := by
  refine ⟨_, ends_span uniform here, ?_⟩
  rw [← List.takeWhile_append_dropWhile (p := test) (l := text)] at here
  exact here.append

theorem step_blockComment {byte : UInt8} (found : bytes[place]? = some byte)
    (member : byte ∈ String.utf8EncodeChar c) :
    (blockComment bytes).step bytes place () =
      if c = '*' && peek bytes (place + 1) = some '/' then .ok (.leave (place + 2) ())
      else .ok (.again (place + 1) ()) := by
  rw [Loop.step_of_goes found rfl]
  simp only [blockComment, ofUInt8_eq_iff member (d := '*') (by decide)]

theorem reads_blockComment (here : At bytes place text) :
    (blockComment bytes).Reads bytes place () ((), afterBlockComment text) := by
  fun_induction afterBlockComment text generalizing place with
  | case1 text =>
      obtain ⟨byte, member, found⟩ := here.exists_byte
      have behind := here.succ (by decide)
      have there := behind.succ (by decide)
      have slash : peek bytes (place + 1) = some '/' := (behind.peek_eq_some_iff (by decide)).2 rfl
      refine .leave ?_ there
      rw [step_blockComment found member, slash]
      rfl
  | case2 c text noEnd ih =>
      refine .passes here (fun place' stands byte member found => ?_) (ih here.next)
      have goesOn : ¬ (c = '*' ∧ peek bytes (place' + 1) = some '/') := by
        rintro ⟨rfl, slash⟩
        rcases stands with rfl | wide
        · have behind := here.succ (by decide)
          obtain ⟨rest, rfl⟩ :=
            List.head?_eq_some_iff.1 ((behind.peek_eq_some_iff (by decide)).1 slash)
          exact noEnd rest rfl rfl
        · exact absurd wide (by decide)
      rw [step_blockComment found member, if_neg (by simpa using goesOn)]
  | case3 => exact .nil here

/-! ## Literals and regular expressions -/

theorem step_literal {quote : Char} (ascii : quote.toNat < 0x80) {content : List UInt8}
    {byte : UInt8} (found : bytes[place]? = some byte) (member : byte ∈ String.utf8EncodeChar c) :
    (literal bytes quote).step bytes place content =
      if c = '\\' then .ok (.again (place + 2) (content ++ bytes[place + 1]?.toList))
      else if c = '\n' then .ok (.leave place none)
      else if c = quote then .ok (.leave (place + 1) (some (decode content)))
      else .ok (.again (place + 1) (content ++ [byte])) := by
  rw [Loop.step_of_goes found rfl]
  simp only [literal, ofUInt8_eq_iff member ascii, ofUInt8_eq_iff member (d := '\\') (by decide),
    ofUInt8_eq_iff member (d := '\n') (by decide)]

theorem step_regex {inClass : Bool} {byte : UInt8} (found : bytes[place]? = some byte)
    (member : byte ∈ String.utf8EncodeChar c) :
    (regex bytes).step bytes place inClass =
      if c = '\\' then .ok (.again (place + 2) inClass)
      else if c = '\n' then .ok (.leave place ())
      else if c = '[' then .ok (.again (place + 1) true)
      else if c = ']' then .ok (.again (place + 1) false)
      else if c = '/' && !inClass then
        ((span Char.isAlpha).skip bytes (place + 1) ()).map fun stop => .leave stop ()
      else .ok (.again (place + 1) inClass) := by
  rw [Loop.step_of_goes found rfl]
  simp only [regex, ofUInt8_eq_iff member (d := '\\') (by decide),
    ofUInt8_eq_iff member (d := '\n') (by decide), ofUInt8_eq_iff member (d := '[') (by decide),
    ofUInt8_eq_iff member (d := ']') (by decide), ofUInt8_eq_iff member (d := '/') (by decide)]


theorem encode_reverse_cons (c : Char) (content : List Char) :
    encode (c :: content).reverse = encode content.reverse ++ String.utf8EncodeChar c := by
  rw [List.reverse_cons, encode_append, encode_cons, encode, encode, List.flatMap_nil,
    List.append_nil]

/-- Bytes of characters that mean nothing in a literal are gathered. -/
theorem ends_literal_of_plain {quote : Char} (ascii : quote.toNat < 0x80) {stop : Nat}
    {content front back : List UInt8} {result : Option (List Char)}
    (here : bytes.drop place = front ++ back)
    (plain : ∀ byte ∈ front, ∃ c, byte ∈ String.utf8EncodeChar c ∧
      c ≠ '\\' ∧ c ≠ '\n' ∧ c ≠ quote)
    (ends : (literal bytes quote).Ends bytes (place + front.length) (content ++ front) stop
      result) :
    (literal bytes quote).Ends bytes place content stop result := by
  rw [← List.append_nil content]
  refine .pass (content ++ ·) [] here (fun place' passed byte inside found => ?_) ends
  obtain ⟨c, member, noEscape, noFeed, noQuote⟩ := plain byte inside
  rw [step_literal ascii found member, if_neg noEscape, if_neg noFeed, if_neg noQuote,
    List.append_assoc]

theorem reads_literal {quote : Char} (ascii : quote.toNat < 0x80) (content : List Char)
    (here : At bytes place text) :
    (literal bytes quote).Reads bytes place (encode content.reverse)
      (readLiteral quote content text) := by
  fun_induction readLiteral quote content text generalizing place with
  | case1 content => exact .nil here
  | case2 content =>
      obtain ⟨byte, member, found⟩ := here.exists_byte
      have behind := here.succ (by decide)
      exact .again ((step_literal ascii found member).trans (if_pos rfl)) (.nil behind.succ_of_nil)
  | case3 content c text ih =>
      obtain ⟨byte, member, found⟩ := here.exists_byte
      have behind := here.succ (by decide)
      -- The escape takes the first byte of the character, the rounds behind it take the others.
      obtain ⟨first, others, whole, found', rest⟩ := behind.exists_bytes
      obtain ⟨stop, ends, there⟩ := ih behind.next
      refine ⟨stop, .again ((step_literal ascii found member).trans (if_pos rfl)) ?_, there⟩
      rw [encode_reverse_cons, whole, List.append_cons, List.length_cons,
        Nat.add_comm others.length, ← Nat.add_assoc] at ends
      rw [found']
      refine ends_literal_of_plain ascii rest (fun other inside => ⟨c, ?_, ?_⟩) ends
      · rw [whole]
        exact List.mem_cons_of_mem first inside
      · have wide := wide_of_mem whole inside
        exact ⟨ne_of_wide wide (by decide), ne_of_wide wide (by decide), ne_of_wide wide ascii⟩
  | case4 content text =>
      obtain ⟨byte, member, found⟩ := here.exists_byte
      have behind := here.succ (by decide)
      exact .leave (by rw [step_literal ascii found member]; rfl) here
  | case5 content text escape escape' noFeed =>
      obtain ⟨byte, member, found⟩ := here.exists_byte
      have behind := here.succ ascii
      refine .leave ?_ behind
      rw [step_literal ascii found member, if_neg (ne_backslash escape escape'), if_neg noFeed,
        if_pos rfl, decode_encode]
  | case6 content c text escape escape' noFeed noQuote ih =>
      obtain ⟨stop, ends, there⟩ := ih here.next
      rw [encode_reverse_cons] at ends
      refine ⟨stop, ends_literal_of_plain ascii here (fun byte member => ?_) ends, there⟩
      exact ⟨c, member, ne_backslash escape escape', noFeed, noQuote⟩

theorem reads_regex (inClass : Bool) (here : At bytes place text) :
    (regex bytes).Reads bytes place inClass ((), afterRegex inClass text) := by
  fun_induction afterRegex inClass text generalizing place with
  | case1 inClass => exact .nil here
  | case2 inClass =>
      obtain ⟨byte, member, found⟩ := here.exists_byte
      have behind := here.succ (by decide)
      exact .again ((step_regex found member).trans (if_pos rfl)) (.nil behind.succ_of_nil)
  | case3 inClass c text ih =>
      obtain ⟨byte, member, found⟩ := here.exists_byte
      have behind := here.succ (by decide)
      refine .again ((step_regex found member).trans (if_pos rfl)) ?_
      refine .behind behind (fun wide place' byte member found => ?_) (ih behind.next)
      have other (d : Char) (ascii : d.toNat < 0x80) : c ≠ d := ne_of_wide wide ascii
      simp [step_regex found member, other]
  | case4 inClass text =>
      obtain ⟨byte, member, found⟩ := here.exists_byte
      have behind := here.succ (by decide)
      exact .leave (by rw [step_regex found member]; rfl) here
  | case5 inClass text _ _ _ ih =>
      obtain ⟨byte, member, found⟩ := here.exists_byte
      have behind := here.succ (by decide)
      exact .again (by rw [step_regex found member]; rfl) (ih behind)
  | case6 inClass text _ _ _ _ ih =>
      obtain ⟨byte, member, found⟩ := here.exists_byte
      have behind := here.succ (by decide)
      exact .again (by rw [step_regex found member]; rfl) (ih behind)
  | case7 inClass c text escape escape' noFeed noOpen noClose ends =>
      obtain ⟨rfl, _⟩ : c = '/' ∧ inClass = false := by simpa using ends
      obtain ⟨byte, member, found⟩ := here.exists_byte
      have behind := here.succ (by decide)
      obtain ⟨stop, flags, there⟩ := reads_span (.of_wide fun _ => isAlpha_of_wide) behind
      refine .leave ?_ there
      rw [step_regex found member, if_neg (ne_backslash escape escape'), if_neg noFeed,
        if_neg noOpen, if_neg noClose, if_pos ends, flags.skip_eq (advances_span _)]
      rfl
  | case8 inClass c text escape escape' noFeed noOpen noClose goesOn ih =>
      refine .passes here (fun place' _ byte member found => ?_) (ih here.next)
      rw [step_regex found member, if_neg (ne_backslash escape escape'), if_neg noFeed,
        if_neg noOpen, if_neg noClose, if_neg goesOn]

end WebBundle.Import.Bytewise
