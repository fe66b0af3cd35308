import WebBundle.Proofs.Text.Pieces
import WebBundle.Proofs.Text.Substring

/-!
# Replaced parts

A nonempty part is replaced from the left: where the text begins with it, its replacement stands,
and else the first character stays. A character that the part does not have separates a text into
two that are replaced on their own. Where a text has the part, its replacement stands at the first
occurrence.
-/

namespace WebBundle.Text

variable {part new text before rest : List Char} {c : Char}

/-- What stands before the first cut does not matter for the others. -/
theorem exists_cutsFrom_eq (nonempty : part ≠ []) (text : List Char) :
    ∃ first others, ∀ piece, cutsFrom part 0 piece text = (piece.reverse ++ first) :: others := by
  by_cases occurs : part <:+: text
  · obtain ⟨before, rest, first, _⟩ := exists_firstBetween occurs
    exact ⟨before, cutsFrom part 0 [] rest, cutsFrom_of_firstBetween nonempty first⟩
  · exact ⟨text, [], cutsFrom_of_absent occurs⟩

theorem replaceAll_eq (nonempty : part ≠ []) :
    replaceAll part new text = List.intercalate new (cutsFrom part 0 [] text) := by
  rw [replaceAll, cuts, if_neg (by simpa using nonempty)]

theorem replaceAll_of_absent (absent : ¬part <:+: text) : replaceAll part new text = text := by
  have nonempty : part ≠ [] := by
    rintro rfl
    exact absent List.nil_infix
  rw [replaceAll_eq nonempty, cutsFrom_of_absent absent]
  simp

theorem replaceAll_of_firstBetween (nonempty : part ≠ [])
    (first : FirstBetween part before rest text) :
    replaceAll part new text = before ++ (new ++ replaceAll part new rest) := by
  obtain ⟨next, others, cut⟩ := exists_cutsFrom_eq nonempty rest
  rw [replaceAll_eq nonempty, cutsFrom_of_firstBetween nonempty first, List.reverse_nil,
    List.nil_append, List.intercalate_cons_of_ne_nil (by simp [cut]), replaceAll_eq nonempty,
    List.append_assoc]

theorem replaceAll_part_append (nonempty : part ≠ []) (rest : List Char) :
    replaceAll part new (part ++ rest) = new ++ replaceAll part new rest := by
  have first : FirstBetween part [] rest (part ++ rest) := ⟨rfl, fun _ _ _ => Nat.zero_le _⟩
  exact replaceAll_of_firstBetween nonempty first

theorem replaceAll_cons (nonempty : part ≠ []) (notHere : ¬part <+: c :: text) :
    replaceAll part new (c :: text) = c :: replaceAll part new text := by
  obtain ⟨next, others, cut⟩ := exists_cutsFrom_eq nonempty text
  have step : cutsFrom part 0 [] (c :: text) = (c :: next) :: others := by
    rw [cutsFrom, if_neg (mt List.isPrefixOf_iff_prefix.1 notHere), cut]
    rfl
  rw [replaceAll_eq nonempty, step, replaceAll_eq nonempty, cut]
  cases others with
  | nil => simp
  | cons other others => simp

theorem replaceAll_nil (nonempty : part ≠ []) : replaceAll part new [] = [] :=
  replaceAll_of_absent fun occurs => nonempty (List.infix_nil.1 occurs)

/-- The first occurrence is where the replaced text differs. -/
theorem exists_replaceAll_eq (nonempty : part ≠ []) (occurs : part <:+: text) :
    ∃ before rest, text = before ++ (part ++ rest) ∧
      replaceAll part new text = before ++ (new ++ replaceAll part new rest) := by
  obtain ⟨before, rest, first, _⟩ := exists_firstBetween occurs
  refine ⟨before, rest, ?_, replaceAll_of_firstBetween nonempty first⟩
  rw [first.between, List.append_assoc]

/-! ## Characters that the part does not have -/

theorem prefix_of_prefix_append_cons (free : c ∉ part) (here : part <+: before ++ c :: rest) :
    part <+: before := by
  have upTo : before ++ [c] <+: before ++ c :: rest := ⟨rest, by simp⟩
  rcases List.prefix_or_prefix_of_prefix here upTo with inside | beyond
  · rcases List.prefix_concat_iff.1 inside with rfl | inside
    · exact absurd (List.mem_append_right before List.mem_cons_self) free
    · exact inside
  · exact absurd (beyond.subset (List.mem_append_right before List.mem_cons_self)) free

theorem replaceAll_append_cons (nonempty : part ≠ []) (free : c ∉ part)
    (before rest : List Char) :
    replaceAll part new (before ++ c :: rest) =
      replaceAll part new before ++ c :: replaceAll part new rest := by
  induction size : before.length using Nat.strong_induction_on generalizing before with
  | _ n ih =>
    by_cases here : part <+: before
    · obtain ⟨behind, rfl⟩ := here
      have shorter : behind.length < n := by
        have positive := List.length_pos_iff.2 nonempty
        rw [← size, List.length_append]
        omega
      rw [List.append_assoc, replaceAll_part_append nonempty, replaceAll_part_append nonempty,
        ih _ shorter behind rfl, List.append_assoc]
    · have notHere : ¬part <+: before ++ c :: rest := mt (prefix_of_prefix_append_cons free) here
      cases before with
      | nil =>
          rw [replaceAll_nil nonempty, List.nil_append, List.nil_append,
            replaceAll_cons nonempty notHere]
      | cons d before =>
          have shorter : before.length < n := by
            rw [← size]
            exact Nat.lt_succ_self _
          rw [List.cons_append] at notHere ⊢
          rw [replaceAll_cons nonempty notHere, replaceAll_cons nonempty here,
            ih _ shorter before rfl, List.cons_append]

theorem replaceAll_cons_of_not_mem (nonempty : part ≠ []) (free : c ∉ part) (rest : List Char) :
    replaceAll part new (c :: rest) = c :: replaceAll part new rest := by
  refine replaceAll_cons nonempty fun here => nonempty ?_
  exact List.prefix_nil.1 (prefix_of_prefix_append_cons free here)

theorem replaceAll_concat (nonempty : part ≠ []) (free : c ∉ part) (text : List Char) :
    replaceAll part new (text ++ [c]) = replaceAll part new text ++ [c] := by
  rw [replaceAll_append_cons nonempty free, replaceAll_nil nonempty]

theorem replaceAll_append_of_not_mem {first : Char} (begins : part.head? = some first)
    (free : first ∉ before) (rest : List Char) :
    replaceAll part new (before ++ rest) = before ++ replaceAll part new rest := by
  obtain ⟨others, rfl⟩ := List.head?_eq_some_iff.1 begins
  induction before with
  | nil => rfl
  | cons c before ih =>
      rw [List.mem_cons, not_or] at free
      have notHere : ¬first :: others <+: c :: (before ++ rest) :=
        fun here => free.1 (List.cons_prefix_cons.1 here).1
      rw [List.cons_append, replaceAll_cons (List.cons_ne_nil first others) notHere, ih free.2]
      rfl

/-- Lines are replaced on their own. -/
theorem replaceAll_lines (nonempty : part ≠ []) (free : '\n' ∉ part) (lines : List String) :
    replaceAll part new (lines.flatMap fun line => line.toList ++ ['\n']) =
      lines.flatMap fun line => replaceAll part new line.toList ++ ['\n'] := by
  induction lines with
  | nil => exact replaceAll_nil nonempty
  | cons line lines ih =>
      rw [List.flatMap_cons, List.append_assoc, List.singleton_append,
        replaceAll_append_cons nonempty free, ih, List.flatMap_cons, List.append_assoc]
      rfl

/-! ## One pass for several parts -/

/-- Replaces several parts in one pass. At every place the first part that begins there counts, and
what stands for it is not searched again. `skip` characters are still covered by the last part. -/
def replaceEach (replacements : List (List Char × List Char)) : (skip : Nat) → List Char → List Char
  | _, [] => []
  | skip + 1, _ :: text => replaceEach replacements skip text
  | 0, c :: text =>
      match replacements.find? fun replacement => replacement.1.isPrefixOf (c :: text) with
      | some (part, new) => new ++ replaceEach replacements (part.length - 1) text
      | none => c :: replaceEach replacements 0 text

section

variable {replacements : List (List Char × List Char)}

theorem replaceEach_skip (covered text : List Char) :
    replaceEach replacements covered.length (covered ++ text) =
      replaceEach replacements 0 text := by
  induction covered with
  | nil => rfl
  | cons c covered ih => rw [List.length_cons, List.cons_append, replaceEach, ih]

theorem replaceEach_part (nonempty : part ≠ [])
    (here : (replacements.find? fun replacement => replacement.1.isPrefixOf (part ++ rest)) =
      some (part, new)) :
    replaceEach replacements 0 (part ++ rest) = new ++ replaceEach replacements 0 rest := by
  obtain ⟨c, others, rfl⟩ := List.exists_cons_of_ne_nil nonempty
  rw [List.cons_append] at here ⊢
  rw [replaceEach, here]
  dsimp only
  rw [List.length_cons, Nat.add_sub_cancel, replaceEach_skip]

/-- Where no part begins, the text stays. -/
theorem replaceEach_append_of_not_mem {first : Char}
    (begins : ∀ replacement ∈ replacements, replacement.1.head? = some first)
    (free : first ∉ before) (rest : List Char) :
    replaceEach replacements 0 (before ++ rest) = before ++ replaceEach replacements 0 rest := by
  induction before with
  | nil => rfl
  | cons c before ih =>
      rw [List.mem_cons, not_or] at free
      have none : (replacements.find? fun replacement =>
          replacement.1.isPrefixOf (c :: (before ++ rest))) = none := by
        refine List.find?_eq_none.2 fun replacement listed here => ?_
        obtain ⟨later, same⟩ := List.isPrefixOf_iff_prefix.1 here
        obtain ⟨others, part⟩ := List.head?_eq_some_iff.1 (begins replacement listed)
        rw [part] at same
        exact free.1 (List.cons.inj same).1
      rw [List.cons_append, replaceEach, none]
      dsimp only
      rw [ih free.2]
      rfl

end

end WebBundle.Text
