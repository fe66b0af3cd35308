/-!
# Substrings

Searching, counting and replacing a part of a text. All four operations are read off one cut: the
pieces of a text between the occurrences of a part, taken from the left and without overlap. The
pieces joined by the part are the text again.
-/

namespace WebBundle.Text

/-- The pieces of a text between its characters of a class. -/
def pieces (cut : Char → Bool) : List Char → List (List Char)
  | [] => [[]]
  | c :: text =>
      if cut c then [] :: pieces cut text
      else
        match pieces cut text with
        | [] => [[c]]
        | piece :: others => (c :: piece) :: others

theorem pieces_ne_nil (cut : Char → Bool) (text : List Char) : pieces cut text ≠ [] := by
  cases text with
  | nil => simp [pieces]
  | cons c text =>
      unfold pieces
      split
      · simp
      · split <;> simp

/-- The text after `part`, if the text begins with it. -/
def afterPart? : (part text : List Char) → Option (List Char)
  | [], text => some text
  | _ :: _, [] => none
  | p :: part, c :: text => if p = c then afterPart? part text else none

theorem afterPart?_eq_some_iff {part text rest : List Char} :
    afterPart? part text = some rest ↔ text = part ++ rest := by
  induction part generalizing text with
  | nil => simp [afterPart?]
  | cons p part ih =>
      cases text with
      | nil => simp [afterPart?]
      | cons c text =>
          by_cases h : p = c
          · simp [afterPart?, h, ih]
          · simp [afterPart?, h, Ne.symm h]

/-- The pieces between the occurrences of a nonempty part. `skip` characters are still covered by
the last occurrence, and `piece` holds the current piece backwards. -/
def cutsFrom (part : List Char) : (skip : Nat) → (piece text : List Char) → List (List Char)
  | _, piece, [] => [piece.reverse]
  | skip + 1, piece, _ :: text => cutsFrom part skip piece text
  | 0, piece, c :: text =>
      if part.isPrefixOf (c :: text) then
        piece.reverse :: cutsFrom part (part.length - 1) [] text
      else cutsFrom part 0 (c :: piece) text

/-- The pieces of a text between the occurrences of a part. An empty part occurs before every
character and at the end. -/
def cuts (part text : List Char) : List (List Char) :=
  if part.isEmpty then [] :: text.map (fun c => [c]) ++ [[]] else cutsFrom part 0 [] text

/-- The number of occurrences of a part that do not overlap. -/
def occurrences (part text : List Char) : Nat := (cuts part text).length - 1

def hasPart (part : List Char) : List Char → Bool
  | [] => part.isEmpty
  | c :: text => part.isPrefixOf (c :: text) || hasPart part text

/-- Replaces every occurrence of a part. -/
def replaceAll (part new text : List Char) : List Char :=
  List.intercalate new (cuts part text)

/-- Replaces the first occurrence of a part. -/
def replaceFirst (part new : List Char) : List Char → List Char
  | [] => if part.isEmpty then new else []
  | c :: text =>
      match afterPart? part (c :: text) with
      | some rest => new ++ rest
      | none => c :: replaceFirst part new text

/-- Splits a text before its last suffix that satisfies `here`. -/
def splitLast? (here : List Char → Bool) : List Char → Option (List Char × List Char)
  | [] => if here [] then some ([], []) else none
  | c :: text =>
      match splitLast? here text with
      | some (before, rest) => some (c :: before, rest)
      | none => if here (c :: text) then some ([], c :: text) else none

/-- Splits a text at the first character of a class, which belongs to neither side. -/
def splitOnce? (cut : Char → Bool) : List Char → Option (List Char × List Char)
  | [] => none
  | c :: text =>
      if cut c then some ([], text)
      else (splitOnce? cut text).map fun (before, rest) => (c :: before, rest)

theorem splitOnce?_length {cut : Char → Bool} {text before rest : List Char}
    (h : splitOnce? cut text = some (before, rest)) : rest.length < text.length := by
  induction text generalizing before rest with
  | nil => simp [splitOnce?] at h
  | cons c text ih =>
      by_cases hc : cut c
      · simp [splitOnce?, hc] at h
        simp [h.2]
      · simp only [splitOnce?, hc, Bool.false_eq_true, if_false, Option.map_eq_some_iff] at h
        obtain ⟨⟨b, r⟩, hs, heq⟩ := h
        have hr : r = rest := congrArg Prod.snd heq
        subst hr
        have := ih hs
        simp only [List.length_cons]
        omega

end WebBundle.Text
