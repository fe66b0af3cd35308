import WebBundle.Proofs.Json.Reading
import WebBundle.Proofs.Text.Replacing

/-!
# Quoted strings in longer texts

A part is plain if its characters are neither escaped nor used in escapes. A plain part stands in a
quoted string exactly where it stands in the string, so replacing it there replaces it in the
string, and what is put in its place is read as a part of the string. Reading a string stops at its
closing quote and tells nothing about what comes behind.
-/

namespace WebBundle.Json

open Text

/-- The characters of which escapes are made. -/
def escapeLetters : List Char := "\\\"btnfru0123456789abcdef".toList

structure IsPlain (part : List Char) : Prop where
  nonempty : part ≠ []
  itself : ∀ c ∈ part, escape c = [c]
  apart : ∀ c ∈ part, c ∉ escapeLetters

theorem mem_escapeLetters_of_fixed {width n : Nat} {c : Char} (member : c ∈ Hex.fixed width n) :
    c ∈ escapeLetters := by
  have digits : ∀ k < 16, Hex.digit k ∈ escapeLetters := by decide
  induction width generalizing n with
  | zero => cases member
  | succ width ih =>
      rw [Hex.fixed] at member
      cases List.mem_append.1 member with
      | inl higher => exact ih higher
      | inr last =>
          rw [List.mem_singleton.1 last]
          exact digits (n % 16) (Nat.mod_lt n (by decide))

theorem escape_cases (c : Char) :
    escape c = [c] ∨ escape c ≠ [] ∧ ∀ written ∈ escape c, written ∈ escapeLetters := by
  have letters {first second : Char} (known : first ∈ escapeLetters ∧ second ∈ escapeLetters) :
      ∀ written ∈ [first, second], written ∈ escapeLetters := by
    intro written member
    rcases List.mem_cons.1 member with rfl | member
    · exact known.1
    · rw [List.mem_singleton.1 member]
      exact known.2
  unfold escape
  split_ifs
  case pos => exact .inr ⟨by simp, letters (by decide)⟩
  case pos => exact .inr ⟨by simp, letters (by decide)⟩
  case pos => exact .inr ⟨by simp, letters (by decide)⟩
  case pos => exact .inr ⟨by simp, letters (by decide)⟩
  case pos => exact .inr ⟨by simp, letters (by decide)⟩
  case pos => exact .inr ⟨by simp, letters (by decide)⟩
  case pos => exact .inr ⟨by simp, letters (by decide)⟩
  case pos =>
    refine .inr ⟨by simp, fun written member => ?_⟩
    rcases List.mem_cons.1 member with rfl | member
    · decide
    · rcases List.mem_cons.1 member with rfl | member
      · decide
      · exact mem_escapeLetters_of_fixed member
  case neg => exact .inl rfl

theorem flatMap_escape_eq {part : List Char} (itself : ∀ c ∈ part, escape c = [c]) :
    part.flatMap escape = part := by
  rw [List.flatMap_congr itself]
  exact List.flatMap_singleton' part

section

variable {part new text : List Char} {c : Char}

theorem prefix_of_prefix_flatMap_escape (apart : ∀ c ∈ part, c ∉ escapeLetters)
    (here : part <+: text.flatMap escape) : part <+: text := by
  induction part generalizing text with
  | nil => exact List.nil_prefix
  | cons first others ih =>
      cases text with
      | nil => exact absurd (List.prefix_nil.1 here) (List.cons_ne_nil first others)
      | cons c text =>
          rw [List.flatMap_cons] at here
          rcases escape_cases c with itself | ⟨nonempty, letters⟩
          · rw [itself, List.singleton_append, List.cons_prefix_cons] at here
            rw [List.cons_prefix_cons]
            exact ⟨here.1, ih (fun c member => apart c (.tail first member)) here.2⟩
          · obtain ⟨written, more, escaped⟩ := List.exists_cons_of_ne_nil nonempty
            rw [escaped] at letters here
            obtain ⟨rfl, _⟩ := List.cons_prefix_cons.1 here
            exact absurd (letters first List.mem_cons_self) (apart first List.mem_cons_self)

namespace IsPlain

variable (plain : IsPlain part)

include plain

theorem replaceAll_letters {letters : List Char} (known : ∀ c ∈ letters, c ∈ escapeLetters)
    (rest : List Char) :
    replaceAll part new (letters ++ rest) = letters ++ replaceAll part new rest := by
  obtain ⟨first, others, rfl⟩ := List.exists_cons_of_ne_nil plain.nonempty
  refine replaceAll_append_of_not_mem rfl (fun member => ?_) rest
  exact plain.apart first List.mem_cons_self (known first member)

/-- A character at which the part does not begin stays as it is written. -/
theorem replaceAll_escape (notHere : ¬part <+: c :: text) :
    replaceAll part new ((c :: text).flatMap escape) =
      escape c ++ replaceAll part new (text.flatMap escape) := by
  have notThere : ¬part <+: (c :: text).flatMap escape :=
    mt (prefix_of_prefix_flatMap_escape plain.apart) notHere
  rw [List.flatMap_cons] at notThere ⊢
  rcases escape_cases c with itself | ⟨_, letters⟩
  · rw [itself, List.singleton_append] at notThere ⊢
    rw [replaceAll_cons plain.nonempty notThere]
    rfl
  · exact plain.replaceAll_letters letters _

theorem replaceAll_part (rest : List Char) :
    replaceAll part new ((part ++ rest).flatMap escape) =
      new ++ replaceAll part new (rest.flatMap escape) := by
  rw [List.flatMap_append, flatMap_escape_eq plain.itself, replaceAll_part_append plain.nonempty]

/-- A string without the part is written without it. -/
theorem replaceAll_of_absent (absent : ¬part <:+: text) :
    replaceAll part new (text.flatMap escape) = text.flatMap escape := by
  induction text with
  | nil => exact replaceAll_nil plain.nonempty
  | cons c text ih =>
      rw [List.infix_cons_iff, not_or] at absent
      rw [plain.replaceAll_escape absent.1, ih absent.2, List.flatMap_cons]

/-- Where a string has the part, the first occurrence is replaced in the written form too. -/
theorem exists_replaceAll_eq (new : List Char) (occurs : part <:+: text) :
    ∃ before rest more, text = before ++ (part ++ rest) ∧
      replaceAll part new (text.flatMap escape) = before.flatMap escape ++ (new ++ more) := by
  induction text with
  | nil => exact absurd (List.infix_nil.1 occurs) plain.nonempty
  | cons c text ih =>
      by_cases here : part <+: c :: text
      · obtain ⟨rest, same⟩ := here
        refine ⟨[], rest, replaceAll part new (rest.flatMap escape), same.symm, ?_⟩
        rw [← same, plain.replaceAll_part]
        rfl
      · obtain ⟨before, rest, more, rfl, replaced⟩ :=
          ih ((List.infix_cons_iff.1 occurs).resolve_left here)
        refine ⟨c :: before, rest, more, rfl, ?_⟩
        rw [plain.replaceAll_escape here, replaced, List.flatMap_cons, List.append_assoc]

/-- Replacing in the written form replaces in the string. -/
theorem replaceAll_flatMap_escape (itself : ∀ c ∈ new, escape c = [c]) (text : List Char) :
    replaceAll part new (text.flatMap escape) = (replaceAll part new text).flatMap escape := by
  induction size : text.length using Nat.strong_induction_on generalizing text with
  | _ n ih =>
    by_cases here : part <+: text
    · obtain ⟨rest, rfl⟩ := here
      have shorter : rest.length < n := by
        have positive := List.length_pos_iff.2 plain.nonempty
        rw [← size, List.length_append]
        omega
      rw [plain.replaceAll_part, replaceAll_part_append plain.nonempty, ih _ shorter rest rfl,
        List.flatMap_append, flatMap_escape_eq itself]
    · cases text with
      | nil => rw [List.flatMap_nil, replaceAll_nil plain.nonempty, List.flatMap_nil]
      | cons c text =>
          have shorter : text.length < n := by
            rw [← size]
            exact Nat.lt_succ_self _
          rw [plain.replaceAll_escape here, replaceAll_cons plain.nonempty here,
            ih _ shorter text rfl, List.flatMap_cons]

theorem not_mem_of_letter (letter : c ∈ escapeLetters) : c ∉ part :=
  fun member => plain.apart c member letter

theorem replaceAll_quote (text : List Char) :
    replaceAll part new (quote text) =
      '"' :: (replaceAll part new (text.flatMap escape) ++ ['"']) := by
  have free : '"' ∉ part := plain.not_mem_of_letter (by decide)
  rw [quote, List.cons_append, replaceAll_cons_of_not_mem plain.nonempty free,
    replaceAll_concat plain.nonempty free]

end IsPlain

end

/-! ## Strings that are read from a longer text -/

section

variable {content text read rest : List Char}

theorem readText_append (more : List Char) (reads : readText content text = some (read, rest)) :
    readText content (text ++ more) = some (read, rest ++ more) := by
  fun_induction readText content text generalizing read rest with
  | case1 => cases reads
  | case2 content text =>
      cases reads
      rw [List.cons_append, readText.eq_2]
  | case3 => cases reads
  | case4 => cases reads
  | case5 => cases reads
  | case6 content a b c d low isUnit notLow isHigh e f g h text low' isUnit' isLow ih =>
      simp only [List.cons_append, readText.eq_3, isUnit, notLow, isHigh, isUnit', isLow, if_true,
        if_false, Bool.false_eq_true, ih reads]
  | case7 => cases reads
  | case8 => cases reads
  | case9 content a b c d text n isUnit notLow notHigh ih =>
      simp only [List.cons_append, readText.eq_3, isUnit, notLow, notHigh, if_false,
        Bool.false_eq_true, ih reads]
  | case10 content c text notUnit escaped isEscape ih =>
      rw [List.cons_append, List.cons_append, readText_simple isEscape, ih reads]
  | case11 => cases reads
  | case12 => cases reads
  | case13 content c text notQuote notUnit notEscape plain ih =>
      rw [Bool.or_eq_true, decide_eq_true_eq, decide_eq_true_eq, not_or] at plain
      rw [List.cons_append, readText_plain notQuote plain.2 plain.1, ih reads]

theorem readText_flatMap (chars : List Char) :
    readText content (chars.flatMap escape ++ text) = readText (chars.reverse ++ content) text := by
  induction chars generalizing content with
  | nil => rfl
  | cons c chars ih =>
      rw [List.flatMap_cons, List.append_assoc, readText_escape, ih, List.reverse_cons,
        List.append_assoc]
      rfl

/-- What was read so far stays. -/
theorem prefix_of_readText (reads : readText content text = some (read, rest)) :
    content.reverse <+: read := by
  have before {c : Char} {content : List Char} (longer : (c :: content).reverse <+: read) :
      content.reverse <+: read := by
    rw [List.reverse_cons] at longer
    exact (List.prefix_append content.reverse [c]).trans longer
  fun_induction readText content text with
  | case1 => cases reads
  | case2 content text =>
      cases reads
      exact List.prefix_rfl
  | case3 => cases reads
  | case4 => cases reads
  | case5 => cases reads
  | case6 content a b c d low isUnit notLow isHigh e f g h text low' isUnit' isLow ih =>
      exact before (ih reads)
  | case7 => cases reads
  | case8 => cases reads
  | case9 content a b c d text n isUnit notLow notHigh ih => exact before (ih reads)
  | case10 content c text notUnit escaped isEscape ih => exact before (ih reads)
  | case11 => cases reads
  | case12 => cases reads
  | case13 content c text notQuote notUnit notEscape plain ih => exact before (ih reads)

/-- A literal that begins with a quote and is read as a string holds this string, and only blanks
come behind its closing quote. -/
theorem exists_readText_of_parse? {literal value : String}
    (begins : literal.toList = '"' :: text) (parses : parse? literal = some (.string value)) :
    ∃ blanks, readText [] text = some (value.toList, blanks) ∧ skipBlanks blanks = [] := by
  have quote : skipBlanks ('"' :: text) = '"' :: text := rfl
  simp only [parse?, begins, readValue?, quote] at parses
  cases reads : readString? text with
  | none =>
      rw [reads] at parses
      cases parses
  | some found =>
      obtain ⟨content, blanks⟩ := found
      rw [reads, Option.map_some] at parses
      dsimp only at parses
      split_ifs at parses with blank
      cases content with
      | none => cases parses
      | some content =>
          obtain rfl : content = value := by simpa [ofText?] using parses
          refine ⟨blanks, ?_, List.isEmpty_iff.1 blank⟩
          rw [readString?] at reads
          split at reads
          next chars rest found =>
            obtain ⟨rfl, rfl⟩ : String.ofList chars = content ∧ rest = blanks := by
              simpa using reads
            rw [found, String.toList_ofList]
          next =>
            obtain ⟨_, _, same⟩ := Option.map_eq_some_iff.1 reads
            cases (Prod.mk.inj same).1

end

end WebBundle.Json
