import WebBundle.Import.Token

/-!
# Cutting a script into tokens

One step reads a blank, a comment or a token behind a given last token and leaves a text that is
no longer than what followed the first character. The list of tokens is the run of this step.
-/

namespace WebBundle.Import

theorem length_afterBlockComment_le (text : List Char) :
    (afterBlockComment text).length ≤ text.length := by
  fun_induction afterBlockComment text with
  | case1 text => simp only [List.length_cons]; omega
  | case2 c text _ ih => simp only [List.length_cons]; omega
  | case3 => exact Nat.le_refl _

theorem length_readLiteral_le (quote : Char) (content text : List Char) :
    (readLiteral quote content text).2.length ≤ text.length := by
  fun_induction readLiteral quote content text with
  | case1 => exact Nat.le_refl _
  | case2 => exact Nat.zero_le _
  | case3 content c text ih => simp only [List.length_cons]; omega
  | case4 => exact Nat.le_refl _
  | case5 => simp only [List.length_cons]; omega
  | case6 content c text _ _ _ ih => simp only [List.length_cons]; omega

theorem length_afterTemplate_le (states : List TemplateState) (text : List Char) :
    (afterTemplate states text).length ≤ text.length := by
  fun_induction afterTemplate states text <;> grind

theorem length_afterRegex_le (inClass : Bool) (text : List Char) :
    (afterRegex inClass text).length ≤ text.length := by
  fun_induction afterRegex inClass text with
  | case1 => exact Nat.le_refl _
  | case2 => exact Nat.zero_le _
  | case3 inClass c text ih => simp only [List.length_cons]; omega
  | case4 => exact Nat.le_refl _
  | case5 inClass text _ _ ih => simp only [List.length_cons]; omega
  | case6 inClass text _ _ _ ih => simp only [List.length_cons]; omega
  | case7 inClass c text _ _ _ _ _ =>
      have := (List.dropWhile_sublist Char.isAlpha (l := text)).length_le
      simp only [List.length_cons]
      omega
  | case8 inClass c text _ _ _ _ _ ih => simp only [List.length_cons]; omega

/-- Reads one blank, comment or token that begins with `c`. -/
def readToken (last : Option Token) (c : Char) (text : List Char) : Option Token × List Char :=
  if isBlankChar c then (none, text)
  else if c = '/' && text.head? = some '/' then (none, afterLineComment text)
  else if c = '/' && text.head? = some '*' then (none, afterBlockComment text.tail)
  else if c = '/' && slashBeginsRegex last then (some .opaqued, afterRegex false text)
  else if c = '\'' || c = '"' then
    let read := readLiteral c [] text
    (read.1.map Token.literal, read.2)
  else if c.toNat = 0x60 then (some .opaqued, afterTemplate [.body] text)
  else if c.isDigit then (some .opaqued, text.dropWhile isNumberChar)
  else if isWordChar c then
    (some (.word (c :: text.takeWhile isWordChar)), text.dropWhile isWordChar)
  else (some (.punct c), text)

theorem length_readToken_le (last : Option Token) (c : Char) (text : List Char) :
    (readToken last c text).2.length ≤ text.length := by
  have drop (p : Char → Bool) : (text.dropWhile p).length ≤ text.length :=
    (List.dropWhile_sublist p).length_le
  unfold readToken
  split
  · exact Nat.le_refl _
  split
  · exact drop _
  split
  · have tail : text.tail.length ≤ text.length := by simp
    exact Nat.le_trans (length_afterBlockComment_le text.tail) tail
  split
  · exact length_afterRegex_le false text
  split
  · exact length_readLiteral_le c [] text
  split
  · exact length_afterTemplate_le [.body] text
  split
  · exact drop _
  split
  · exact drop _
  · exact Nat.le_refl _

/-- The tokens of a text behind a given last token. -/
def tokensFrom (last : Option Token) : List Char → List Token
  | [] => []
  | c :: text =>
      match (readToken last c text).1 with
      | some token => token :: tokensFrom (some token) (readToken last c text).2
      | none => tokensFrom last (readToken last c text).2
  termination_by text => text.length
  decreasing_by
    all_goals exact Nat.lt_succ_of_le (length_readToken_le last c text)

def tokens (text : List Char) : List Token := tokensFrom none text

end WebBundle.Import
