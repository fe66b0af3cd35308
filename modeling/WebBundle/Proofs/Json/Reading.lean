import WebBundle.Json.Reader
import WebBundle.Proofs.Text.Hex

/-!
# Reading JSON back

A string is read back from its written form, character by character: what is escaped is read as the
character that the escape names, and everything else stands for itself.

A whole number is written with its digits, the first of which is a zero only for zero, and with a
sign if it is negative. The reader takes it for a whole number if what comes behind it goes on with
no digit, no point and no exponent. In the written form of a value this is a comma, a closing
bracket or nothing.

So a value of strings, whole numbers and truth values is read back from its written form without
blanks, if what comes behind it delimits it and the fuel is not less than the written form is long.
-/

namespace WebBundle.Json

/-! ## Strings -/

section

variable {content text : List Char} {c : Char}

theorem readText_simple {written : Char} (isEscape : simpleEscape? written = some c) :
    readText content ('\\' :: written :: text) = readText (c :: content) text := by
  have notUnit : written ≠ 'u' := by
    rintro rfl
    cases isEscape
  rw [readText.eq_4 content written text fun _ _ _ _ _ isUnit _ => notUnit isUnit, isEscape]

theorem readText_unit {n : Nat} (small : n < 0x20) :
    readText content ('\\' :: 'u' :: (Text.Hex.fixed 4 n ++ text)) =
      readText (Char.ofNat n :: content) text := by
  obtain ⟨a, b, c, d, digits⟩ : ∃ a b c d, Text.Hex.fixed 4 n = [a, b, c, d] := ⟨_, _, _, _, rfl⟩
  have isUnit : unit? a b c d = some n := by
    rw [unit?, ← digits, Text.Hex.number?_fixed (by decide) (by omega)]
  have notLow : isLowHalf n = false := by
    simp only [isLowHalf, Bool.and_eq_false_iff, decide_eq_false_iff_not]
    omega
  have notHigh : isHighHalf n = false := by
    simp only [isHighHalf, Bool.and_eq_false_iff, decide_eq_false_iff_not]
    omega
  rw [digits]
  change readText content ('\\' :: 'u' :: a :: b :: c :: d :: text) = _
  rw [readText.eq_3, isUnit]
  simp only [notLow, notHigh, if_false, Bool.false_eq_true]

theorem readText_plain (notQuote : c ≠ '"') (notBackslash : c ≠ '\\')
    (notControl : ¬c.toNat < 0x20) :
    readText content (c :: text) = readText (c :: content) text := by
  rw [readText.eq_5 content c text notQuote (fun _ _ _ _ _ same _ => notBackslash same)
    fun _ _ same _ => notBackslash same, if_neg]
  simp [notBackslash, notControl]

/-- A character is read back from its written form. -/
theorem readText_escape : readText content (escape c ++ text) = readText (c :: content) text := by
  have named {n : Nat} (same : c.toNat = n) : c = Char.ofNat n := by
    rw [← same, Char.ofNat_toNat]
  unfold escape
  split
  next quote => exact readText_simple (by rw [quote]; rfl)
  next notQuote =>
    split
    next backslash => exact readText_simple (by rw [backslash]; rfl)
    next notBackslash =>
      split
      next backspace => exact readText_simple (by rw [named backspace]; rfl)
      next =>
        split
        next tab => exact readText_simple (by rw [named tab]; rfl)
        next =>
          split
          next newline => exact readText_simple (by rw [named newline]; rfl)
          next =>
            split
            next formFeed => exact readText_simple (by rw [named formFeed]; rfl)
            next =>
              split
              next carriage => exact readText_simple (by rw [named carriage]; rfl)
              next =>
                split
                next control =>
                  refine (readText_unit control).trans ?_
                  rw [Char.ofNat_toNat]
                next notControl => exact readText_plain notQuote notBackslash notControl

theorem readText_flatMap_escape (chars : List Char) :
    readText content (chars.flatMap escape ++ '"' :: text) =
      some (content.reverse ++ chars, text) := by
  induction chars generalizing content with
  | nil => rw [List.flatMap_nil, List.nil_append, readText.eq_2, List.append_nil]
  | cons c chars ih =>
      rw [List.flatMap_cons, List.append_assoc, readText_escape, ih, List.reverse_cons,
        List.append_assoc]
      rfl

/-- A string is read back, whatever its characters are. -/
theorem readString?_flatMap_escape (name : String) :
    readString? (name.toList.flatMap escape ++ '"' :: text) = some (some name, text) := by
  rw [readString?, readText_flatMap_escape, List.reverse_nil, List.nil_append]
  dsimp only
  rw [String.ofList_toList]

end

/-! ## Digits of whole numbers -/

theorem isDigit_of_mem_digits {n : Nat} {c : Char} (member : c ∈ Nat.toDigits 10 n) :
    c.isDigit = true :=
  Nat.isDigit_of_mem_toDigits (by decide) (by decide) member

theorem not_control_of_isDigit {c : Char} (isDigit : c.isDigit = true) : ¬c.toNat < 0x20 := by
  simp only [Char.isDigit, Bool.and_eq_true, decide_eq_true_eq, ge_iff_le,
    UInt32.le_iff_toNat_le] at isDigit
  have least : 48 ≤ c.toNat := isDigit.1
  omega

theorem natOfDigits_toDigits (n : Nat) : natOfDigits (Nat.toDigits 10 n) = n := by
  rw [natOfDigits, ← Nat.ofDigitChars_eq_foldl, Nat.ofDigitChars_ten_toDigits]

/-- Only zero is written with a zero in front. -/
theorem exists_toDigits_eq (n : Nat) :
    ∃ first others, Nat.toDigits 10 n = first :: others ∧ first.isDigit = true ∧
      (first = '0' → n = 0) := by
  induction n using Nat.strongRecOn with
  | ind n ih =>
    by_cases small : n < 10
    · have digits : ∀ k < 10, k.digitChar.isDigit = true ∧ (k.digitChar = '0' → k = 0) := by
        decide
      exact ⟨n.digitChar, [], Nat.toDigits_of_lt_base small, digits n small⟩
    · obtain ⟨first, others, written, isDigit, zero⟩ := ih (n / 10) (by omega)
      refine ⟨first, others ++ [(n % 10).digitChar], ?_, isDigit, fun same => ?_⟩
      · rw [Nat.toDigits_of_base_le (by decide) (Nat.le_of_not_lt small), written,
          List.cons_append]
      · have none := zero same
        omega

theorem toList_toString_ofNat (n : Nat) :
    (toString (Int.ofNat n)).toList = Nat.toDigits 10 n :=
  Nat.toList_repr

theorem toList_toString_negSucc (n : Nat) :
    (toString (Int.negSucc n)).toList = '-' :: Nat.toDigits 10 (n + 1) := by
  change ("-" ++ (n + 1).repr).toList = _
  rw [String.toList_append, Nat.toList_repr]
  rfl

/-- A whole number is written with digits and at most a sign. -/
theorem isDigit_or_sign_of_mem {value : Int} {c : Char} (member : c ∈ (toString value).toList) :
    c.isDigit = true ∨ c = '-' := by
  cases value with
  | ofNat n =>
      rw [toList_toString_ofNat] at member
      exact .inl (isDigit_of_mem_digits member)
  | negSucc n =>
      rw [toList_toString_negSucc] at member
      rcases List.mem_cons.1 member with sign | listed
      · exact .inr sign
      · exact .inl (isDigit_of_mem_digits listed)

theorem exists_toString_eq (value : Int) :
    ∃ first others, (toString value).toList = first :: others ∧
      (first.isDigit = true ∨ first = '-') := by
  have nonempty : (toString value).toList ≠ [] := by
    cases value with
    | ofNat n => exact toList_toString_ofNat n ▸ Nat.toDigits_ne_nil
    | negSucc n => exact toList_toString_negSucc n ▸ List.cons_ne_nil _ _
  obtain ⟨first, others, written⟩ := List.exists_cons_of_ne_nil nonempty
  exact ⟨first, others, written, isDigit_or_sign_of_mem (written ▸ List.mem_cons_self)⟩

section

variable {first : Char} (begins : first.isDigit = true ∨ first = '-')
include begins

theorem ne_of_begins {c : Char} (notDigit : c.isDigit = false) (notSign : c ≠ '-') :
    first ≠ c := by
  rintro rfl
  rcases begins with isDigit | isSign
  · rw [notDigit] at isDigit
    cases isDigit
  · exact notSign isSign

theorem isBlank_of_begins : isBlank first = false := by
  have apart := fun {c : Char} => ne_of_begins (c := c) begins
  simp [isBlank, apart]

end

/-! ## Reading whole numbers -/

/-- What can stand behind a value without blanks: the end, a comma or a closing bracket. -/
def Delimits (text : List Char) : Prop := ∀ c ∈ text.head?, c = ',' ∨ c = ']' ∨ c = '}'

theorem delimits_nil : Delimits [] := by
  intro c member
  cases member

theorem delimits_cons {c : Char} {text : List Char} (delimits : c = ',' ∨ c = ']' ∨ c = '}') :
    Delimits (c :: text) := by
  intro d member
  obtain rfl : c = d := by simpa using member
  exact delimits

section

variable {rest : List Char} (delimits : Delimits rest)
include delimits

theorem wholePart?_toDigits (n : Nat) :
    wholePart? (Nat.toDigits 10 n ++ rest) = some (Nat.toDigits 10 n, rest) := by
  have digits : ∀ c ∈ Nat.toDigits 10 n, c.isDigit = true := fun c => isDigit_of_mem_digits
  have stops : rest.takeWhile Char.isDigit = [] ∧ rest.dropWhile Char.isDigit = rest := by
    cases rest with
    | nil => exact ⟨rfl, rfl⟩
    | cons c rest =>
        have notDigit : ¬c.isDigit = true := by
          rcases delimits c rfl with rfl | rfl | rfl <;> decide
        exact ⟨List.takeWhile_cons_of_neg notDigit, List.dropWhile_cons_of_neg notDigit⟩
  obtain ⟨first, others, written, _, zero⟩ := exists_toDigits_eq n
  have reads : digits? (Nat.toDigits 10 n ++ rest) = some (Nat.toDigits 10 n, rest) := by
    rw [digits?, List.takeWhile_append_of_pos digits, List.dropWhile_append_of_pos digits, stops.1,
      stops.2, List.append_nil, written]
  rw [wholePart?, reads]
  by_cases same : first = '0'
  · rw [zero same]
    rfl
  · simp [written, same]

theorem fraction?_eq : fraction? rest = some ([], rest) := by
  cases rest with
  | nil => rfl
  | cons c rest =>
      have notPoint : c ≠ '.' := by
        rcases delimits c rfl with rfl | rfl | rfl <;> decide
      rw [fraction?]
      rintro text same
      exact notPoint (List.cons.inj same).1

theorem exponent?_eq : exponent? rest = some ([], rest) := by
  cases rest with
  | nil => rfl
  | cons c rest =>
      have notE : c ≠ 'e' ∧ c ≠ 'E' := by
        rcases delimits c rfl with rfl | rfl | rfl <;> decide
      simp [exponent?, notE.1, notE.2]

/-- A whole number is read back from its digits and its sign. -/
theorem readNumber?_toString (value : Int) :
    readNumber? ((toString value).toList ++ rest) = some (.int value, rest) := by
  cases value with
  | ofNat n =>
      have unsigned : (Nat.toDigits 10 n ++ rest).head? ≠ some '-' := by
        obtain ⟨first, others, written, isDigit, _⟩ := exists_toDigits_eq n
        rw [written]
        rintro ⟨⟩
        cases isDigit
      rw [toList_toString_ofNat, readNumber?, if_neg unsigned]
      simp [wholePart?_toDigits delimits, fraction?_eq delimits, exponent?_eq delimits,
        natOfDigits_toDigits]
  | negSucc n =>
      rw [toList_toString_negSucc, readNumber?]
      simp [wholePart?_toDigits delimits, fraction?_eq delimits, exponent?_eq delimits,
        natOfDigits_toDigits, Int.negSucc_eq]

end

/-! ## Values -/

/-- A value that its text tells: it is made of strings, whole numbers, truth values and nothing. -/
inductive IsTextual : Json → Prop where
  | null : IsTextual .null
  | bool (value : Bool) : IsTextual (.bool value)
  | int (value : Int) : IsTextual (.int value)
  | string (value : String) : IsTextual (.string value)
  | array {items : List Json} (textual : ∀ item ∈ items, IsTextual item) :
      IsTextual (.array items)
  | object {fields : List (String × Json)} (textual : ∀ field ∈ fields, IsTextual field.2) :
      IsTextual (.object fields)

/-- The text begins with a character that is no blank and closes no list. -/
inductive Begins : List Char → Prop where
  | intro {c : Char} {text : List Char} (notBlank : isBlank c = false) (notClosing : c ≠ ']') :
      Begins (c :: text)

theorem Begins.append {text : List Char} (begins : Begins text) (rest : List Char) :
    Begins (text ++ rest) := by
  cases begins with
  | intro notBlank notClosing => exact .intro notBlank notClosing

theorem Begins.skipBlanks {text : List Char} (begins : Begins text) :
    skipBlanks text = text := by
  cases begins with
  | intro notBlank _ => exact List.dropWhile_cons_of_neg (by simp [notBlank])

theorem begins_compact {value : Json} (textual : value.IsTextual) : Begins value.compact := by
  cases textual with
  | null => exact .intro rfl (by decide)
  | bool value =>
      cases value with
      | true => exact .intro rfl (by decide)
      | false => exact .intro rfl (by decide)
  | int value =>
      obtain ⟨first, others, written, begins⟩ := exists_toString_eq value
      rw [compact, atom, written]
      exact .intro (isBlank_of_begins begins) (ne_of_begins begins (by decide) (by decide))
  | string value => exact .intro rfl (by decide)
  | array _ => exact .intro rfl (by decide)
  | object _ => exact .intro rfl (by decide)

/-! ## One character decides -/

section

variable {fuel : Nat} {text text' rest : List Char} {items : List Json} {item value : Json}
  {fields : List (Option String × Json)} {name : Option String}

theorem readValue?_array (begins : Begins text) :
    readValue? (fuel + 1) ('[' :: text) = readItems? fuel [] text := by
  have bracket : Json.skipBlanks ('[' :: text) = '[' :: text := rfl
  simp only [readValue?, bracket, begins.skipBlanks]
  cases begins with
  | intro _ notClosing =>
      split
      next same => exact absurd (List.cons.inj same).1 notClosing
      next => rfl

/-- A number stands where nothing else begins. -/
theorem readValue?_number {first : Char} (begins : first.isDigit = true ∨ first = '-') :
    readValue? (fuel + 1) (first :: text) = readNumber? (first :: text) := by
  have stays : Json.skipBlanks (first :: text) = first :: text :=
    List.dropWhile_cons_of_neg (by simp [isBlank_of_begins begins])
  have apart {c : Char} (notDigit : c.isDigit = false) (notSign : c ≠ '-') : first ≠ c :=
    ne_of_begins begins notDigit notSign
  simp only [readValue?, stays]
  split <;> first
    | rfl
    | exact absurd (List.cons.inj ‹first :: text = _ :: _›).1 (apart (by decide) (by decide))

theorem readItems?_comma (reads : readValue? fuel text = some (item, ',' :: rest)) :
    readItems? (fuel + 1) items text = readItems? fuel (item :: items) rest := by
  rw [readItems?, reads]
  rfl

theorem readItems?_closing (reads : readValue? fuel text = some (item, ']' :: rest)) :
    readItems? (fuel + 1) items text = some (.array (item :: items).reverse, rest) := by
  rw [readItems?, reads]
  rfl

section

variable (readsName : readString? text = some (name, ':' :: text'))
include readsName

theorem readFields?_comma (reads : readValue? fuel text' = some (value, ',' :: rest)) :
    readFields? (fuel + 1) fields ('"' :: text) =
      readFields? fuel ((name, value) :: fields) rest := by
  have quote : Json.skipBlanks ('"' :: text) = '"' :: text := rfl
  have colon : Json.skipBlanks (':' :: text') = ':' :: text' := rfl
  have comma : Json.skipBlanks (',' :: rest) = ',' :: rest := rfl
  simp only [readFields?, quote, readsName, colon, reads, comma]

theorem readFields?_closing (reads : readValue? fuel text' = some (value, '}' :: rest)) :
    readFields? (fuel + 1) fields ('"' :: text) =
      some (ofFields ((name, value) :: fields), rest) := by
  have quote : Json.skipBlanks ('"' :: text) = '"' :: text := rfl
  have colon : Json.skipBlanks (':' :: text') = ':' :: text' := rfl
  have closing : Json.skipBlanks ('}' :: rest) = '}' :: rest := rfl
  simp only [readFields?, quote, readsName, colon, reads, closing]

end

end

/-! ## Values in their written form -/

/-- The value is read back with so much fuel, if it is delimited by what comes behind it. -/
def ReadsBack (value : Json) : Prop :=
  ∀ fuel rest, value.compact.length ≤ fuel → Delimits rest →
    readValue? fuel (value.compact ++ rest) = some (value, rest)

theorem readsBack_string (value : String) : ReadsBack (.string value) := by
  intro fuel rest enough _
  cases fuel with
  | zero => cases enough
  | succ fuel =>
      have written : (Json.string value).compact ++ rest =
          '"' :: (value.toList.flatMap escape ++ '"' :: rest) := by
        rw [compact, atom, quote, List.append_assoc]
        rfl
      rw [written]
      change (readString? _).map (fun found => (ofText? found.1, found.2)) = _
      rw [readString?_flatMap_escape]
      rfl

theorem readsBack_int (value : Int) : ReadsBack (.int value) := by
  intro fuel rest enough delimits
  obtain ⟨first, others, written, begins⟩ := exists_toString_eq value
  have reads := readNumber?_toString delimits value
  rw [compact, atom, written] at enough ⊢
  rw [written] at reads
  obtain ⟨fuel, rfl⟩ := Nat.exists_eq_succ_of_ne_zero (Nat.ne_of_gt (Nat.zero_lt_of_lt enough))
  exact (readValue?_number begins).trans reads

theorem readItems?_compactItems {items : List Json} (some : items ≠ [])
    (readsBack : ∀ item ∈ items, ReadsBack item) (earlier : List Json) {fuel : Nat}
    (rest : List Char) (enough : (compactItems items).length < fuel) :
    readItems? fuel earlier (compactItems items ++ ']' :: rest) =
      Option.some (.array (earlier.reverse ++ items), rest) := by
  induction items generalizing earlier fuel with
  | nil => exact absurd rfl some
  | cons item items ih =>
      obtain ⟨fuel, rfl⟩ := Nat.exists_eq_succ_of_ne_zero (Nat.ne_of_gt (Nat.zero_lt_of_lt enough))
      have reads := readsBack item List.mem_cons_self
      cases items with
      | nil =>
          rw [compactItems] at enough ⊢
          rw [readItems?_closing (reads fuel _ (Nat.le_of_lt_succ enough)
            (delimits_cons (by decide))), List.reverse_cons]
      | cons next items =>
          rw [compactItems.eq_3 _ _ (by simp)] at enough ⊢
          rw [List.length_append, List.length_cons] at enough
          have others : ∀ other ∈ next :: items, ReadsBack other :=
            fun other listed => readsBack other (List.mem_cons_of_mem item listed)
          rw [List.append_assoc, List.cons_append,
            readItems?_comma (reads fuel _ (by omega) (delimits_cons (by decide))),
            ih (List.cons_ne_nil next items) others _ (by omega), List.reverse_cons,
            List.append_assoc]
          rfl

theorem readsBack_array {items : List Json} (textual : ∀ item ∈ items, item.IsTextual)
    (readsBack : ∀ item ∈ items, ReadsBack item) : ReadsBack (.array items) := by
  intro fuel rest enough _
  rw [compact, List.length_append, List.length_cons, List.length_singleton] at enough
  obtain ⟨fuel, rfl⟩ := Nat.exists_eq_succ_of_ne_zero (Nat.ne_of_gt (Nat.zero_lt_of_lt enough))
  cases items with
  | nil => rfl
  | cons item items =>
      have begins : Begins (compactItems (item :: items)) := by
        have first := begins_compact (textual item List.mem_cons_self)
        cases items with
        | nil => exact first
        | cons next items =>
            rw [compactItems.eq_3 _ _ (by simp)]
            exact first.append _
      have written : (Json.array (item :: items)).compact ++ rest =
          '[' :: (compactItems (item :: items) ++ ']' :: rest) := by
        rw [compact, List.append_assoc]
        rfl
      rw [written, readValue?_array (begins.append _),
        readItems?_compactItems (List.cons_ne_nil item items) readsBack [] rest (by omega)]
      rfl

theorem ofFields_map (fields : List (String × Json)) :
    ofFields (fields.map fun field => (some field.1, field.2)).reverse = .object fields := by
  have named : (fields.map fun field => (some field.1, field.2)).mapM
      (fun field : Option String × Json => field.1.map (·, field.2)) = some fields := by
    induction fields with
    | nil => rfl
    | cons field fields ih => rw [List.map_cons, List.mapM_cons, ih]; rfl
  rw [ofFields, List.reverse_reverse]
  simp only [named]

theorem readFields?_compactFields {fields : List (String × Json)} (some : fields ≠ [])
    (readsBack : ∀ field ∈ fields, ReadsBack field.2) (earlier : List (String × Json)) {fuel : Nat}
    (rest : List Char) (enough : (compactFields fields).length < fuel) :
    readFields? fuel (earlier.map fun field => (Option.some field.1, field.2)).reverse
        (compactFields fields ++ '}' :: rest) =
      Option.some (.object (earlier ++ fields), rest) := by
  induction fields generalizing earlier fuel with
  | nil => exact absurd rfl some
  | cons field fields ih =>
      obtain ⟨name, value⟩ := field
      obtain ⟨fuel, rfl⟩ := Nat.exists_eq_succ_of_ne_zero (Nat.ne_of_gt (Nat.zero_lt_of_lt enough))
      have reads : ReadsBack value := readsBack (name, value) List.mem_cons_self
      have together : (Option.some name, value) ::
          (earlier.map fun field => (Option.some field.1, field.2)).reverse =
            ((earlier ++ [(name, value)]).map fun field =>
              (Option.some field.1, field.2)).reverse := by simp
      cases fields with
      | nil =>
          have written : compactFields [(name, value)] ++ '}' :: rest =
              '"' :: (name.toList.flatMap escape ++
                '"' :: (':' :: (value.compact ++ '}' :: rest))) := by
            simp [compactFields, quote]
          rw [compactFields, List.length_append, List.length_cons] at enough
          rw [written, readFields?_closing (readString?_flatMap_escape name)
            (reads fuel _ (by omega) (delimits_cons (by decide))), together, ofFields_map]
      | cons next fields =>
          have written : compactFields ((name, value) :: next :: fields) ++ '}' :: rest =
              '"' :: (name.toList.flatMap escape ++ '"' :: (':' :: (value.compact ++
                ',' :: (compactFields (next :: fields) ++ '}' :: rest)))) := by
            simp [compactFields, quote]
          rw [compactFields.eq_3 _ _ _ (by simp), List.length_append, List.length_cons,
            List.length_append, List.length_cons] at enough
          have others : ∀ other ∈ next :: fields, ReadsBack other.2 :=
            fun other listed => readsBack other (List.mem_cons_of_mem (name, value) listed)
          rw [written, readFields?_comma (readString?_flatMap_escape name)
            (reads fuel _ (by omega) (delimits_cons (by decide))), together,
            ih (List.cons_ne_nil next fields) others _ (by omega), List.append_assoc]
          rfl

theorem readsBack_object {fields : List (String × Json)}
    (readsBack : ∀ field ∈ fields, ReadsBack field.2) : ReadsBack (.object fields) := by
  intro fuel rest enough _
  rw [compact, List.length_append, List.length_cons, List.length_singleton] at enough
  obtain ⟨fuel, rfl⟩ := Nat.exists_eq_succ_of_ne_zero (Nat.ne_of_gt (Nat.zero_lt_of_lt enough))
  cases fields with
  | nil => rfl
  | cons field fields =>
      obtain ⟨more, begins⟩ : ∃ more, compactFields (field :: fields) = '"' :: more := by
        cases fields with
        | nil => exact ⟨_, rfl⟩
        | cons next fields => exact ⟨_, compactFields.eq_3 _ _ _ (by simp)⟩
      have written : (Json.object (field :: fields)).compact ++ rest =
          '{' :: (compactFields (field :: fields) ++ '}' :: rest) := by
        rw [compact, List.append_assoc]
        rfl
      have short : (compactFields (field :: fields)).length < fuel := by omega
      have reads :=
        readFields?_compactFields (List.cons_ne_nil field fields) readsBack [] rest short
      rw [written]
      rw [begins] at reads ⊢
      exact reads

theorem readsBack_of_isTextual {value : Json} (textual : value.IsTextual) : ReadsBack value := by
  induction textual with
  | null =>
      intro fuel rest enough _
      obtain ⟨fuel, rfl⟩ := Nat.exists_eq_succ_of_ne_zero (Nat.ne_of_gt (Nat.zero_lt_of_lt enough))
      rfl
  | bool value =>
      intro fuel rest enough _
      have positive : 0 < fuel := Nat.lt_of_lt_of_le (by cases value <;> decide) enough
      obtain ⟨fuel, rfl⟩ := Nat.exists_eq_succ_of_ne_zero (Nat.ne_of_gt positive)
      cases value with
      | true => rfl
      | false => rfl
  | int value => exact readsBack_int value
  | string value => exact readsBack_string value
  | array textual ih => exact readsBack_array textual ih
  | object _ ih => exact readsBack_object ih

/-- A value is what its written form is read as. -/
theorem parse?_render {value : Json} (textual : value.IsTextual) :
    parse? value.render = some value := by
  have reads := readsBack_of_isTextual textual (value.compact.length + 1) [] (Nat.le_succ _)
    delimits_nil
  rw [List.append_nil] at reads
  rw [parse?, render, String.toList_ofList, reads]
  rfl

end WebBundle.Json
