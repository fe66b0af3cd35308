import Mathlib.Data.List.Basic
import Mathlib.Data.List.DropRight
import WebBundle.Text.Blank
import WebBundle.Text.Substring

/-!
# Joined texts, pieces and lines

Two lists, one after the other, are joined like their joined texts. A text in a list shows as it is
in the joined list, between what depends on the other texts alone. If the separator is in none of
the texts, the joined list tells what was joined.

The pieces of a text between the occurrences of a character do not have that character. Joined by
it they are the text again, and the pieces of two texts with it between them are those of the first
and those of the second.

A line ends with a line feed, or with a carriage return and a line feed; the last one may end with
the text. A carriage return that no line feed follows belongs to its line. Without the blanks at
their ends the lines are the pieces between line feeds, and lines that are written one after the
other, each with a line feed, are read back.
-/

namespace WebBundle.Text

/-! ## Joined texts -/

theorem intercalate_append {α : Type} (separator : List α) {first second : List (List α)}
    (some : first ≠ []) (some' : second ≠ []) :
    List.intercalate separator (first ++ second) =
      List.intercalate separator first ++ (separator ++ List.intercalate separator second) := by
  induction first with
  | nil => exact absurd rfl some
  | cons text first ih =>
      by_cases last : first = []
      · rw [last, List.singleton_append, List.intercalate_cons_of_ne_nil some',
          List.intercalate_singleton, List.append_assoc]
      · have more : first ++ second ≠ [] := List.append_ne_nil_of_left_ne_nil last second
        rw [List.cons_append, List.intercalate_cons_of_ne_nil more,
          List.intercalate_cons_of_ne_nil last, ih last]
        simp only [List.append_assoc]

theorem exists_intercalate_eq (separator : String) (before after : List String) :
    ∃ front back, ∀ text,
      separator.intercalate (before ++ text :: after) = front ++ text ++ back := by
  have starts : ∃ back, ∀ text, separator.intercalate (text :: after) = text ++ back := by
    cases after with
    | nil => exact ⟨"", fun text => by simp⟩
    | cons next after =>
        exact ⟨separator ++ separator.intercalate (next :: after), fun text => by
          rw [String.intercalate_cons_cons, String.append_assoc]⟩
  obtain ⟨back, joined⟩ := starts
  cases before with
  | nil => exact ⟨"", back, fun text => by simp [joined]⟩
  | cons first before =>
      refine ⟨separator.intercalate (first :: before) ++ separator, back, fun text => ?_⟩
      rw [String.intercalate_append_of_ne_nil (by simp) (by simp), joined]
      simp only [String.append_assoc]

theorem intercalate_inj {separator : Char} {texts others : List String}
    (nonempty : texts ≠ []) (nonempty' : others ≠ [])
    (free : ∀ text ∈ texts, separator ∉ text.toList)
    (free' : ∀ text ∈ others, separator ∉ text.toList)
    (same : (String.singleton separator).intercalate texts =
      (String.singleton separator).intercalate others) : texts = others := by
  have split : ∀ listed : List String, listed ≠ [] → (∀ text ∈ listed, separator ∉ text.toList) →
      ((String.singleton separator).intercalate listed).toList.splitOn separator =
        listed.map String.toList := by
    intro listed some apart
    rw [String.toList_intercalate, String.toList_singleton]
    refine List.splitOn_intercalate separator ?_ (by simpa using some)
    intro text member
    obtain ⟨origin, there, rfl⟩ := List.mem_map.1 member
    exact apart origin there
  have lists : texts.map String.toList = others.map String.toList := by
    rw [← split texts nonempty free, same, split others nonempty' free']
  have injective : Function.Injective String.toList := fun _ _ => String.toList_injective
  exact injective.list_map lists

/-! ## Pieces -/

section

variable {separator : Char}

theorem pieces_eq_splitOn (separator : Char) (text : List Char) :
    pieces (· = separator) text = text.splitOn separator := by
  induction text with
  | nil => rfl
  | cons c text ih =>
      rw [pieces, ih, List.splitOn_cons_eq_if_modifyHead]
      by_cases cut : c = separator
      · simp [cut]
      · have nonempty := List.splitOn_ne_nil separator text
        cases split : text.splitOn separator with
        | nil => exact absurd split nonempty
        | cons piece others => simp [cut]

theorem intercalate_pieces (separator : Char) (text : List Char) :
    List.intercalate [separator] (pieces (· = separator) text) = text := by
  rw [pieces_eq_splitOn, List.intercalate_splitOn]

theorem pieces_of_not_mem {text : List Char} (free : separator ∉ text) :
    pieces (· = separator) text = [text] := by
  have alone : (List.intercalate [separator] [text]).splitOn separator = [text] :=
    List.splitOn_intercalate separator (by simpa using free) (by simp)
  rwa [List.intercalate_singleton, ← pieces_eq_splitOn] at alone

theorem pieces_append (before after : List Char) :
    pieces (· = separator) (before ++ separator :: after) =
      pieces (· = separator) before ++ pieces (· = separator) after := by
  induction before with
  | nil => simp [pieces]
  | cons c before ih =>
      rw [List.cons_append, pieces, pieces, ih]
      split
      next => rfl
      next =>
        cases first : pieces (· = separator) before with
        | nil => exact absurd first (pieces_ne_nil _ before)
        | cons piece others => rfl

theorem not_mem_of_mem_pieces {text piece : List Char}
    (member : piece ∈ pieces (· = separator) text) : ∀ c ∈ piece, c ≠ separator ∧ c ∈ text := by
  induction text generalizing piece with
  | nil =>
      obtain rfl := List.mem_singleton.1 member
      exact nofun
  | cons c text ih =>
      rw [pieces] at member
      split at member
      next =>
        cases List.mem_cons.1 member with
        | inl same =>
            subst same
            exact nofun
        | inr later => exact fun other inside => (ih later other inside).imp_right (.tail c)
      next notCut =>
        split at member
        next none => exact absurd none (pieces_ne_nil _ text)
        next first others split =>
          cases List.mem_cons.1 member with
          | inl same =>
              subst same
              intro other inside
              cases List.mem_cons.1 inside with
              | inl first =>
                  subst first
                  exact ⟨by simpa using notCut, List.mem_cons_self⟩
              | inr later =>
                  exact (ih (split ▸ List.mem_cons_self) other later).imp_right (.tail c)
          | inr later =>
              exact fun other inside =>
                (ih (split ▸ List.mem_cons_of_mem first later) other inside).imp_right (.tail c)

end

/-! ## Lines -/

/-- A line without the carriage return at its end. Both are given backwards. -/
def dropReturn : List Char → List Char
  | '\r' :: line => line
  | line => line

/-- The lines of a text behind the beginning of a line, which is given backwards. -/
def linesFrom (line : List Char) : List Char → List (List Char)
  | [] => if line.isEmpty then [] else [line.reverse]
  | c :: text =>
      if c = '\n' then (dropReturn line).reverse :: linesFrom [] text
      else linesFrom (c :: line) text

def lines (text : List Char) : List (List Char) := linesFrom [] text

/-- The short line is the line without the blanks at its end. -/
structure IsTrimmed (line short : List Char) : Prop where
  blanks : ∃ blanks, line = short ++ blanks ∧ ∀ c ∈ blanks, isBlank c = true
  solid : ∀ c, short.getLast? = some c → isBlank c = false

/-! ## Blank ends -/

theorem trimEnd_eq (text : List Char) : trimEnd text = text.rdropWhile isBlank := rfl

theorem trimEnd_eq_nil_iff {text : List Char} : trimEnd text = [] ↔ text.all isBlank = true := by
  rw [trimEnd_eq, List.rdropWhile_eq_nil_iff, List.all_eq_true]

theorem prefix_trimEnd (text : List Char) : trimEnd text <+: text :=
  List.rdropWhile_prefix isBlank text

theorem trimEnd_trimEnd (text : List Char) : trimEnd (trimEnd text) = trimEnd text :=
  List.rdropWhile_idempotent isBlank text

theorem isBlank_of_getLast?_trimEnd {text : List Char} {c : Char}
    (last : (trimEnd text).getLast? = some c) : isBlank c = false := by
  have nonempty : trimEnd text ≠ [] := by
    intro empty
    rw [empty] at last
    cases last
  have solid := List.rdropWhile_last_not isBlank text nonempty
  rw [trimEnd_eq] at last nonempty
  rw [(List.getLast_eq_iff_getLast?_eq_some nonempty).2 last] at solid
  exact eq_false_of_ne_true solid

theorem isTrimmed_trimEnd (line : List Char) : IsTrimmed line (trimEnd line) where
  blanks := ⟨line.rtakeWhile isBlank, List.rdropWhile_append_rtakeWhile.symm,
    fun _ => List.mem_rtakeWhile_imp⟩
  solid _ := isBlank_of_getLast?_trimEnd

theorem trimEnd_concat {c : Char} (blank : isBlank c = true) (text : List Char) :
    trimEnd (text ++ [c]) = trimEnd text :=
  List.rdropWhile_concat_pos isBlank text c blank

theorem trimEnd_dropReturn (line : List Char) :
    trimEnd (dropReturn line).reverse = trimEnd line.reverse := by
  unfold dropReturn
  split
  next line => rw [List.reverse_cons, trimEnd_concat (by decide)]
  next => rfl

/-! ## Lines and pieces -/

/-- The lines that are not blank, without the blanks at their ends. -/
theorem trimmed_linesFrom (line text first : List Char) (others : List (List Char))
    (cut : pieces (· = '\n') text = first :: others) :
    ((linesFrom line text).map trimEnd).filter (fun line => !line.isEmpty) =
      (((line.reverse ++ first) :: others).map trimEnd).filter (fun line => !line.isEmpty) := by
  induction text generalizing line first others with
  | nil =>
      obtain ⟨rfl, rfl⟩ := List.cons.inj cut
      rw [linesFrom, List.append_nil]
      cases line with
      | nil => rfl
      | cons c line => rfl
  | cons c text ih =>
      obtain ⟨next, more, rest⟩ := List.exists_cons_of_ne_nil (pieces_ne_nil (· = '\n') text)
      rw [pieces, rest] at cut
      rw [linesFrom]
      by_cases feed : c = '\n'
      · rw [if_pos (decide_eq_true feed)] at cut
        obtain ⟨rfl, rfl⟩ := List.cons.inj cut
        have behind := ih [] next more rest
        rw [List.reverse_nil, List.nil_append] at behind
        rw [if_pos feed, List.append_nil, List.map_cons, List.map_cons, trimEnd_dropReturn,
          List.filter_cons, List.filter_cons, behind]
      · rw [if_neg (by simpa using feed)] at cut
        obtain ⟨rfl, rfl⟩ := List.cons.inj cut
        rw [if_neg feed, ih (c :: line) next more rest, List.reverse_cons, List.append_assoc,
          List.singleton_append]

theorem trimmed_lines (text : List Char) :
    ((lines text).map trimEnd).filter (fun line => !line.isEmpty) =
      ((pieces (· = '\n') text).map trimEnd).filter (fun line => !line.isEmpty) := by
  obtain ⟨first, others, cut⟩ := List.exists_cons_of_ne_nil (pieces_ne_nil (· = '\n') text)
  rw [lines, trimmed_linesFrom [] text first others cut, cut, List.reverse_nil, List.nil_append]

theorem linesFrom_append {line rest : List Char} (free : '\n' ∉ line) (before : List Char) :
    linesFrom before (line ++ '\n' :: rest) =
      (dropReturn (line.reverse ++ before)).reverse :: linesFrom [] rest := by
  induction line generalizing before with
  | nil => rw [List.nil_append, linesFrom, if_pos rfl, List.reverse_nil, List.nil_append]
  | cons c line ih =>
      rw [List.mem_cons, not_or] at free
      rw [List.cons_append, linesFrom, if_neg (Ne.symm free.1), ih free.2, List.reverse_cons,
        List.append_assoc, List.singleton_append]

/-- Lines that are written each with a line feed are read back, if none of them holds one or ends
with a carriage return. -/
theorem lines_flatMap {written : List (List Char)}
    (free : ∀ line ∈ written, '\n' ∉ line ∧ line.getLast? ≠ some '\r') :
    lines (written.flatMap fun line => line ++ ['\n']) = written := by
  induction written with
  | nil => rfl
  | cons line written ih =>
      obtain ⟨noFeed, noReturn⟩ := free line List.mem_cons_self
      have kept : dropReturn line.reverse = line.reverse := by
        unfold dropReturn
        split
        next others ends =>
          rw [← List.reverse_reverse line, ends, List.reverse_cons, List.getLast?_concat]
            at noReturn
          exact absurd rfl noReturn
        next => rfl
      rw [List.flatMap_cons, List.append_assoc, List.singleton_append, lines,
        linesFrom_append noFeed, List.append_nil, kept, List.reverse_reverse]
      exact congrArg (line :: ·) (ih fun other listed => free other (.tail line listed))

end WebBundle.Text
