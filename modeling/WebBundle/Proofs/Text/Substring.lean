import Mathlib.Data.List.Infix
import WebBundle.Text.Substring

/-!
# Occurrences of a part

A text that is not cut at a part does not have it. Where a text has a part, replacing the first
occurrence changes nothing before it and nothing behind it. The occurrences that are counted are the
first one and those in the text behind it. A text is split once at the first occurrence of a
character, and before the last of its ends that have a property.
-/

namespace WebBundle.Text

variable {part text : List Char}

theorem hasPart_iff : hasPart part text = true ↔ part <:+: text := by
  induction text with
  | nil => rw [hasPart, List.isEmpty_iff, List.infix_nil]
  | cons c text ih =>
      rw [hasPart, Bool.or_eq_true, List.isPrefixOf_iff_prefix, ih, List.infix_cons_iff]

theorem cutsFrom_of_absent (absent : ¬part <:+: text) (piece : List Char) :
    cutsFrom part 0 piece text = [piece.reverse ++ text] := by
  induction text generalizing piece with
  | nil => simp [cutsFrom]
  | cons c text ih =>
      rw [List.infix_cons_iff, not_or] at absent
      rw [cutsFrom, if_neg fun here => absent.1 (List.isPrefixOf_iff_prefix.1 here), ih absent.2]
      simp

theorem infix_of_occurrences (occurs : 0 < occurrences part text) : part <:+: text := by
  by_contra absent
  have nonempty : ¬part.isEmpty = true := by
    intro empty
    rw [List.isEmpty_iff.1 empty] at absent
    exact absent List.nil_infix
  rw [occurrences, cuts, if_neg nonempty, cutsFrom_of_absent absent] at occurs
  cases occurs

/-- The part stands between two pieces, and no earlier. -/
structure FirstBetween (part before rest text : List Char) : Prop where
  between : text = before ++ part ++ rest
  first : ∀ earlier later, text = earlier ++ part ++ later → before.length ≤ earlier.length

theorem exists_firstBetween (occurs : part <:+: text) :
    ∃ before rest, FirstBetween part before rest text ∧
      ∀ new, replaceFirst part new text = before ++ new ++ rest := by
  induction text with
  | nil =>
      obtain rfl := List.infix_nil.1 occurs
      exact ⟨[], [], ⟨rfl, fun _ _ _ => Nat.zero_le _⟩, fun new => by simp [replaceFirst]⟩
  | cons c text ih =>
      cases here : afterPart? part (c :: text) with
      | some rest =>
          refine ⟨[], rest, ⟨afterPart?_eq_some_iff.1 here, fun _ _ _ => Nat.zero_le _⟩, ?_⟩
          exact fun new => by simp [replaceFirst, here]
      | none =>
          have notHere : ¬part <+: c :: text := by
            rintro ⟨rest, same⟩
            rw [afterPart?_eq_some_iff.2 same.symm] at here
            cases here
          obtain ⟨before, rest, ⟨between, first⟩, replaced⟩ :=
            ih ((List.infix_cons_iff.1 occurs).resolve_left notHere)
          refine ⟨c :: before, rest, ⟨congrArg (c :: ·) between, ?_⟩, ?_⟩
          · intro earlier later same
            cases earlier with
            | nil => exact absurd ⟨later, same.symm⟩ notHere
            | cons d earlier => exact Nat.succ_le_succ (first earlier later (List.cons.inj same).2)
          · intro new
            simp only [replaceFirst, here, replaced, List.cons_append]

/-! ## Counting -/

/-- A part occurs so many times in a text, from the left and without overlap. -/
inductive Occurs (part : List Char) : Nat → List Char → Prop where
  | never {text : List Char} (absent : ¬part <:+: text) : Occurs part 0 text
  | next {count : Nat} {before rest text : List Char} (first : FirstBetween part before rest text)
      (others : Occurs part count rest) : Occurs part (count + 1) text

/-- What an occurrence covers belongs to no piece. -/
theorem cutsFrom_skip (covered piece : List Char) :
    cutsFrom part covered.length piece (covered ++ text) = cutsFrom part 0 piece text := by
  induction covered with
  | nil => rfl
  | cons c covered ih => rw [List.length_cons, List.cons_append, cutsFrom, ih]

theorem cutsFrom_of_firstBetween {before rest : List Char} (nonempty : part ≠ [])
    (first : FirstBetween part before rest text) (piece : List Char) :
    cutsFrom part 0 piece text = (piece.reverse ++ before) :: cutsFrom part 0 [] rest := by
  obtain ⟨p, others, rfl⟩ := List.exists_cons_of_ne_nil nonempty
  induction before generalizing text piece with
  | nil =>
      have here : (p :: others).isPrefixOf (p :: (others ++ rest)) = true :=
        List.isPrefixOf_iff_prefix.2 (List.prefix_append (p :: others) rest)
      rw [first.between, List.nil_append, List.cons_append, cutsFrom, if_pos here, List.length_cons,
        Nat.add_sub_cancel, cutsFrom_skip, List.append_nil]
  | cons c before ih =>
      obtain ⟨between, earliest⟩ := first
      rw [List.cons_append, List.cons_append] at between
      have notHere : ¬(p :: others).isPrefixOf (c :: (before ++ p :: others ++ rest)) = true := by
        intro here
        obtain ⟨later, same⟩ := List.isPrefixOf_iff_prefix.1 here
        cases earliest [] later (between.trans same.symm)
      have behind : FirstBetween (p :: others) before rest (before ++ p :: others ++ rest) := by
        refine ⟨rfl, fun earlier later same => ?_⟩
        exact Nat.le_of_succ_le_succ (earliest (c :: earlier) later (by simp [between, same]))
      rw [between, cutsFrom, if_neg notHere, ih (c :: piece) behind]
      simp

theorem Occurs.occurrences_eq {count : Nat} (nonempty : part ≠ [])
    (occurs : Occurs part count text) : occurrences part text = count := by
  have pieces : (cutsFrom part 0 [] text).length = count + 1 := by
    induction occurs with
    | never absent => rw [cutsFrom_of_absent absent, List.length_singleton]
    | next first _ ih => rw [cutsFrom_of_firstBetween nonempty first, List.length_cons, ih]
  rw [occurrences, cuts, if_neg (by simpa using nonempty), pieces, Nat.add_sub_cancel]

theorem exists_occurs (nonempty : part ≠ []) (text : List Char) :
    ∃ count, Occurs part count text := by
  by_cases occurs : part <:+: text
  · obtain ⟨before, rest, first, _⟩ := exists_firstBetween occurs
    have shorter : rest.length < text.length := by
      have positive := List.length_pos_iff.2 nonempty
      rw [first.between, List.length_append, List.length_append]
      omega
    obtain ⟨count, others⟩ := exists_occurs nonempty rest
    exact ⟨count + 1, .next first others⟩
  · exact ⟨0, .never occurs⟩
  termination_by text.length

theorem occurrences_eq_iff {count : Nat} (nonempty : part ≠ []) :
    occurrences part text = count ↔ Occurs part count text := by
  refine ⟨?_, Occurs.occurrences_eq nonempty⟩
  rintro rfl
  obtain ⟨count, occurs⟩ := exists_occurs nonempty text
  rwa [occurs.occurrences_eq nonempty]

section

variable {before rest : List Char} {c : Char}

theorem splitOnce?_of_not_mem (free : c ∉ before) :
    splitOnce? (· = c) (before ++ c :: rest) = some (before, rest) := by
  induction before with
  | nil => simp [splitOnce?]
  | cons d before ih =>
      rw [List.mem_cons, not_or] at free
      obtain ⟨other, free⟩ := free
      rw [List.cons_append, splitOnce?, if_neg (by simpa using Ne.symm other), ih free]
      rfl

theorem eq_of_splitOnce? (found : splitOnce? (· = c) text = some (before, rest)) :
    text = before ++ c :: rest ∧ c ∉ before := by
  induction text generalizing before with
  | nil => cases found
  | cons d text ih =>
      rw [splitOnce?] at found
      split at found
      next cut =>
        cases found
        exact ⟨congrArg (· :: rest) (of_decide_eq_true cut), List.not_mem_nil⟩
      next stays =>
        obtain ⟨⟨inner, last⟩, split, same⟩ := Option.map_eq_some_iff.1 found
        cases same
        obtain ⟨rfl, free⟩ := ih split
        have other : c ≠ d := by simpa [eq_comm] using stays
        rw [List.mem_cons, not_or]
        exact ⟨rfl, other, free⟩

end

section

variable {here : List Char → Bool} {text before rest : List Char}

theorem splitLast?_eq_none_iff :
    splitLast? here text = none ↔ ∀ rest, rest <:+ text → here rest = false := by
  induction text with
  | nil => simp [splitLast?]
  | cons c text ih =>
      simp only [List.suffix_cons_iff, forall_eq_or_imp]
      rw [← ih, splitLast?]
      cases splitLast? here text with
      | none => simp
      | some parts => simp

theorem eq_of_splitLast? (found : splitLast? here text = some (before, rest)) :
    text = before ++ rest ∧ here rest = true ∧
      ∀ later, later <:+ text → here later = true → rest <:+ later := by
  induction text generalizing before with
  | nil =>
      rw [splitLast?] at found
      split at found
      next holds =>
        cases found
        exact ⟨rfl, holds, fun later _ _ => List.nil_suffix⟩
      next => cases found
  | cons c text ih =>
      rw [splitLast?] at found
      cases split : splitLast? here text with
      | some parts =>
          rw [split] at found
          cases found
          obtain ⟨rfl, holds, last⟩ := ih split
          refine ⟨rfl, holds, fun later behind holds => ?_⟩
          rcases List.suffix_cons_iff.1 behind with rfl | behind
          · exact (List.suffix_append _ _).trans (List.suffix_cons c _)
          · exact last later behind holds
      | none =>
          simp only [split] at found
          split at found
          next holds =>
            cases found
            refine ⟨rfl, holds, fun later behind holds => ?_⟩
            rcases List.suffix_cons_iff.1 behind with rfl | behind
            · exact List.suffix_rfl
            · rw [splitLast?_eq_none_iff.1 split later behind] at holds
              cases holds
          next => cases found

end
end WebBundle.Text
