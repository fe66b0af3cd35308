import Mathlib.Data.List.TakeWhile
import WebBundle.Proofs.Path.Steps

/-!
# Parents of paths

The parent of a path has the segments of the path up to the last step, without the still segments
before it. A path with a step that moves has a parent, a shorter path: what comes before its last
step that moves, without the still steps at the end. So a parent ends in a step that moves or has
none, and behind that step there are at most slashes.
-/

namespace WebBundle.Path

variable {path parent : String}

/-- The parent of a path stands for what comes before its last step. -/
structure IsAbove (parent path : String) : Prop where
  nonempty : parent ≠ ""
  absolute : isAbsolute parent = isAbsolute path
  shorter : parent.toList.Sublist path.toList
  last : ∃ before between last behind, segments path = before ++ (between ++ last :: behind) ∧
    (∀ segment ∈ between, isStill segment = true) ∧ isStill last = false ∧
      (∀ segment ∈ behind, isStill segment = true) ∧
        ∃ more, segments parent = before ++ more ∧ ∀ segment ∈ more, isStill segment = true

theorem head?_segments (nonempty : path ≠ "") :
    (segments path).head? = some [] ↔ isAbsolute path = true := by
  have text : path.toList ≠ [] := fun empty => nonempty (String.toList_eq_nil_iff.1 empty)
  rw [segments, isAbsolute, decide_eq_true_iff]
  cases chars : path.toList with
  | nil => exact absurd chars text
  | cons c others =>
      rw [Text.pieces]
      by_cases slash : c = '/'
      · simp [slash]
      · cases first : Text.pieces (· = '/') others with
        | nil => exact absurd first (Text.pieces_ne_nil _ others)
        | cons piece more => simp [slash]

theorem anchor_append (path : String) : (anchor path).1 ++ (anchor path).2 = segments path := by
  cases listed : segments path with
  | nil => rw [anchor, listed]; rfl
  | cons first rest =>
      rw [anchor, listed]
      dsimp only
      split
      next => rfl
      next => rfl

theorem stepsBackwards_eq_nil {steps : List (List Char)} :
    stepsBackwards steps = [] ↔ ∀ segment ∈ steps, isStill segment = true := by
  rw [stepsBackwards, List.dropWhile_eq_nil_iff]
  simp only [List.mem_reverse]

/-- The last step of a path that moves. -/
def lastMove? (path : String) : Option (List Char) := (stepsBackwards (segments path)).head?

theorem lastMove?_eq {before behind : List (List Char)} {last : List Char}
    (shape : segments path = before ++ last :: behind) (moves : isStill last = false)
    (still : ∀ segment ∈ behind, isStill segment = true) : lastMove? path = some last := by
  have stays : behind.reverse.dropWhile isStill = [] := stepsBackwards_eq_nil.2 still
  rw [lastMove?, stepsBackwards, shape, List.reverse_append, List.reverse_cons, List.append_assoc,
    List.dropWhile_append, stays]
  simp [moves]

theorem stepsBackwards_of_isNormal (isNormal : IsNormal path) :
    stepsBackwards (segments path) ≠ [] := by
  intro nothing
  obtain ⟨first, others, shape⟩ :=
    List.exists_cons_of_ne_nil (Text.pieces_ne_nil (· = '/') path.toList)
  have listed : first ∈ segments path := by
    rw [segments, shape]
    exact List.mem_cons_self
  have still := stepsBackwards_eq_nil.1 nothing first listed
  rw [(isNormal first listed).1] at still
  cases still

/-- The steps of a path up to the last one that moves. -/
theorem exists_of_stepsBackwards {steps before : List (List Char)} {last : List Char}
    (isLast : stepsBackwards steps = last :: before) :
    isStill last = false ∧ ∃ behind, steps = before.reverse ++ last :: behind ∧
      ∀ segment ∈ behind, isStill segment = true := by
  have whole := List.takeWhile_append_dropWhile (p := isStill) (l := steps.reverse)
  rw [stepsBackwards] at isLast
  refine ⟨?_, (steps.reverse.takeWhile isStill).reverse, ?_, ?_⟩
  · have moves := List.head_dropWhile_not isStill (l := steps.reverse)
      (isLast ▸ List.cons_ne_nil last before)
    simpa [isLast] using moves
  · rw [isLast] at whole
    calc steps = (steps.reverse.takeWhile isStill ++ last :: before).reverse := by
          rw [whole, List.reverse_reverse]
      _ = before.reverse ++ last :: (steps.reverse.takeWhile isStill).reverse := by simp
  · intro segment listed
    exact List.mem_takeWhile_imp (List.mem_reverse.1 listed)

theorem segments_render {absolute : Bool} {names : List (List Char)}
    (noSlash : ∀ name ∈ names, '/' ∉ name) (nonempty : render absolute names ≠ "") :
    names ≠ [] ∧ ∃ more, segments (render absolute names) = names ++ more ∧
      ∀ segment ∈ more, isStill segment = true := by
  unfold render at nonempty ⊢
  split
  next root =>
    obtain ⟨_, isRoot⟩ := (Bool.and_eq_true _ _).mp root
    rw [of_decide_eq_true isRoot]
    exact ⟨List.cons_ne_nil _ _, [[]], rfl, by decide⟩
  next notRoot =>
    rw [if_neg notRoot] at nonempty
    have given : names ≠ [] := by
      rintro rfl
      exact nonempty rfl
    refine ⟨given, [], ?_, nofun⟩
    rw [segments_ofList_intercalate given noSlash, List.append_nil]

theorem render_sublist {names : List (List Char)} (sublist : names.Sublist (segments path)) :
    (render (isAbsolute path) names).toList.Sublist path.toList := by
  unfold render
  split
  next root =>
    obtain ⟨begins, _⟩ := (Bool.and_eq_true _ _).mp root
    have slash : '/' ∈ path.toList := List.mem_of_head? (of_decide_eq_true begins)
    exact List.singleton_sublist.2 slash
  next =>
    rw [String.toList_ofList, ← intercalate_segments path]
    exact intercalate_sublist sublist

theorem isAbove_of_parent? (isParent : parent? path = some parent) (nonempty : parent ≠ "") :
    IsAbove parent path := by
  rw [parent?] at isParent
  cases anchored : anchor path with
  | mk head steps =>
  have whole := anchor_append path
  rw [anchored] at isParent whole
  dsimp only at isParent whole
  cases left : stepsBackwards steps with
  | nil =>
      rw [left] at isParent
      dsimp only at isParent
      split at isParent
      next => exact absurd (Option.some.inj isParent).symm nonempty
      next => cases isParent
  | cons last backwards =>
      rw [left] at isParent
      obtain ⟨moves, behind, isSteps, stillBehind⟩ := exists_of_stepsBackwards left
      let kept := (backwards.dropWhile isStill).reverse
      let between := (backwards.takeWhile isStill).reverse
      have split : backwards.reverse = kept ++ between := by
        rw [← List.reverse_append, List.takeWhile_append_dropWhile]
      have shape : segments path = (head ++ kept) ++ (between ++ last :: behind) := by
        rw [← whole, isSteps, split]
        simp only [List.append_assoc]
      have noSlash : ∀ name ∈ head ++ kept, '/' ∉ name := by
        intro name listed slash
        have member : name ∈ segments path := shape ▸ List.mem_append_left _ listed
        exact (Text.not_mem_of_mem_pieces member '/' slash).1 rfl
      obtain rfl : render (isAbsolute path) (head ++ kept) = parent := Option.some.inj isParent
      obtain ⟨given, more, rendered, stillMore⟩ := segments_render noSlash nonempty
      have shorter : (head ++ kept).Sublist (segments path) :=
        shape ▸ List.sublist_append_left _ _
      refine ⟨nonempty, ?_, render_sublist shorter, head ++ kept, between, last, behind, shape, ?_,
        moves, stillBehind, more, rendered, stillMore⟩
      · have given' : path ≠ "" := by
          rintro rfl
          have length : 1 = _ := congrArg List.length shape
          have positive := List.length_pos_iff.2 given
          simp only [List.length_append, List.length_cons] at length positive
          omega
        rw [Bool.eq_iff_iff, ← head?_segments nonempty, ← head?_segments given', rendered, shape,
          List.head?_append_of_ne_nil _ given, List.head?_append_of_ne_nil _ given]
      · intro segment listed
        exact List.mem_takeWhile_imp (List.mem_reverse.1 listed)

/-! ## Up from path to path -/

variable {front behind : List (List Char)} {last : List Char}

/-- The last step of a path that is not a slash is a name. -/
def EndsInName (path : String) : Prop :=
  ∃ front name behind, segments path = front ++ name :: behind ∧ isStill name = false ∧
    name ≠ ['.', '.'] ∧ ∀ segment ∈ behind, segment = []

theorem isStill_of_forall_nil (empty : ∀ segment ∈ behind, segment = []) :
    ∀ segment ∈ behind, isStill segment = true := fun segment listed => by
  rw [empty segment listed]
  rfl

theorem ne_empty_of_moves (shape : segments path = front ++ last :: behind)
    (moves : isStill last = false) : path ≠ "" := by
  rintro rfl
  have listed : last ∈ segments "" := by
    rw [shape]
    simp
  obtain rfl := List.mem_singleton.1 listed
  cases moves

theorem EndsInName.ne_empty (ends : EndsInName path) : path ≠ "" := by
  obtain ⟨front, name, behind, shape, moves, _⟩ := ends
  exact ne_empty_of_moves shape moves

theorem noSlash {names : List (List Char)} (isPrefix : names <+: segments path) :
    ∀ name ∈ names, '/' ∉ name := by
  intro name listed slash
  exact (Text.not_mem_of_mem_pieces (isPrefix.subset listed) '/' slash).1 rfl

theorem stepsBackwards_of_shape (shape : segments path = front ++ last :: behind)
    (moves : isStill last = false) (still : ∀ segment ∈ behind, isStill segment = true) :
    stepsBackwards (segments path) = last :: front.reverse := by
  have stays : behind.reverse.dropWhile isStill = [] := stepsBackwards_eq_nil.2 still
  rw [stepsBackwards, shape, List.reverse_append, List.reverse_cons, List.append_assoc,
    List.dropWhile_append, stays]
  simp [moves]

/-- The segments that stay at the beginning of a path do not move. -/
theorem isStill_of_mem_anchor : ∀ segment ∈ (anchor path).1, isStill segment = true := by
  intro segment listed
  unfold anchor at listed
  split at listed
  next first rest shape =>
    split at listed
    next begins =>
      obtain rfl := List.mem_singleton.1 listed
      rw [Bool.or_eq_true, decide_eq_true_eq] at begins
      rcases begins with absolute | dot
      · have given : path ≠ "" := by
          rintro rfl
          cases absolute
        have first := (head?_segments given).2 absolute
        rw [shape] at first
        rw [Option.some.inj first]
        rfl
      · rw [dot]
        rfl
    next => cases listed
  next => cases listed

theorem anchor_of_isAbsolute (absolute : isAbsolute path = true) : (anchor path).1 = [[]] := by
  have given : path ≠ "" := by
    rintro rfl
    cases absolute
  have first := (head?_segments given).2 absolute
  cases shape : segments path with
  | nil =>
      rw [shape] at first
      cases first
  | cons segment rest =>
      rw [shape] at first
      rw [anchor, shape, absolute, Option.some.inj first]
      rfl

/-- What is left of the steps before the last one that moves. -/
theorem stepsBackwards_anchor (shape : segments path = front ++ last :: behind)
    (moves : isStill last = false) (still : ∀ segment ∈ behind, isStill segment = true) :
    ∃ backwards, stepsBackwards (anchor path).2 = last :: backwards ∧
      front = (anchor path).1 ++ backwards.reverse := by
  have whole := stepsBackwards_of_shape shape moves still
  have stays : (anchor path).1.reverse.dropWhile isStill = [] :=
    stepsBackwards_eq_nil.2 isStill_of_mem_anchor
  rw [← anchor_append, stepsBackwards, List.reverse_append, List.dropWhile_append, stays] at whole
  cases left : (anchor path).2.reverse.dropWhile isStill with
  | nil => simp [left] at whole
  | cons first backwards =>
      rw [left, if_neg (by simp), List.cons_append] at whole
      obtain ⟨rfl, rest⟩ := List.cons.inj whole
      refine ⟨backwards, left, ?_⟩
      rw [← List.reverse_reverse front, ← rest, List.reverse_append, List.reverse_reverse]

theorem segments_render_eq {absolute : Bool} {names : List (List Char)}
    (noSlash : ∀ name ∈ names, '/' ∉ name) :
    ∃ more, segments (render absolute names) = names ++ more ∧ ∀ segment ∈ more, segment = [] := by
  unfold render
  split
  next root =>
    obtain ⟨_, isRoot⟩ := (Bool.and_eq_true _ _).mp root
    rw [of_decide_eq_true isRoot]
    exact ⟨[[]], rfl, by simp⟩
  next =>
    by_cases given : names = []
    · rw [given]
      exact ⟨[[]], rfl, by simp⟩
    · exact ⟨[], by rw [segments_ofList_intercalate given noSlash, List.append_nil], by simp⟩

/-- A path goes up to its parent: the steps in front of its last one are those of the parent, but
for still ones. -/
structure GoesUp (parent path : String) (front : List (List Char)) : Prop where
  isParent : parent? path = some parent
  absolute : isAbsolute parent = isAbsolute path
  sublist : parent.toList.Sublist path.toList
  shorter : parent.length < path.length
  shape : ∃ kept between more, front = kept ++ between ∧
    (∀ segment ∈ between, isStill segment = true) ∧ segments parent = kept ++ more ∧
    (∀ segment ∈ more, segment = []) ∧
    ((∀ segment ∈ kept, isStill segment = true) ∨
      ∃ earlier top, kept = earlier ++ [top] ∧ isStill top = false)

/-- A path that begins like another one is absolute if that one is. -/
theorem isAbsolute_render {names : List (List Char)} (nonempty : path ≠ "")
    (isPrefix : names <+: segments path) (anchored : (anchor path).1 <+: names) :
    isAbsolute (render (isAbsolute path) names) = isAbsolute path := by
  obtain ⟨more, rendered, _⟩ := @segments_render_eq (isAbsolute path) names (noSlash isPrefix)
  by_cases given : names = []
  · cases absolute : isAbsolute path with
    | false =>
        rw [given]
        rfl
    | true =>
        rw [anchor_of_isAbsolute absolute, given] at anchored
        cases List.prefix_nil.1 anchored
  · by_cases empty : render (isAbsolute path) names = ""
    · cases absolute : isAbsolute path with
      | false =>
          rw [absolute] at empty
          rw [empty]
          rfl
      | true =>
          rw [anchor_of_isAbsolute absolute] at anchored
          obtain ⟨rest, rfl⟩ := anchored
          rw [empty] at rendered
          have length := congrArg List.length rendered
          have one : (segments "").length = 1 := rfl
          rw [one, List.length_append, List.length_append, List.length_singleton] at length
          obtain rfl := List.length_eq_zero_iff.1 (show rest.length = 0 by omega)
          rfl
    · obtain ⟨others, whole⟩ := isPrefix
      rw [Bool.eq_iff_iff, ← head?_segments empty, ← head?_segments nonempty, rendered, ← whole,
        List.head?_append_of_ne_nil _ given, List.head?_append_of_ne_nil _ given]

/-- A path with a step that moves goes up to its parent. -/
theorem exists_goesUp (shape : segments path = front ++ last :: behind)
    (moves : isStill last = false) (still : ∀ segment ∈ behind, isStill segment = true) :
    ∃ parent, GoesUp parent path front := by
  obtain ⟨backwards, left, isFront⟩ := stepsBackwards_anchor shape moves still
  let kept := (backwards.dropWhile isStill).reverse
  let between := (backwards.takeWhile isStill).reverse
  have split : backwards.reverse = kept ++ between := by
    rw [← List.reverse_append, List.takeWhile_append_dropWhile]
  let names := (anchor path).1 ++ kept
  have isNames : front = names ++ between := by rw [isFront, split, List.append_assoc]
  have stillBetween : ∀ segment ∈ between, isStill segment = true :=
    fun segment listed => List.mem_takeWhile_imp (List.mem_reverse.1 listed)
  have isPrefix : names <+: segments path := by
    rw [shape, isNames, List.append_assoc]
    exact List.prefix_append _ _
  obtain ⟨more, rendered, empty⟩ :=
    @segments_render_eq (isAbsolute path) names (noSlash isPrefix)
  have sublist := render_sublist isPrefix.sublist
  have absolute := isAbsolute_render (ne_empty_of_moves shape moves) isPrefix ⟨kept, rfl⟩
  refine ⟨render (isAbsolute path) names, ?_, absolute, sublist, ?_,
    names, between, more, isNames, stillBetween, rendered, empty, ?_⟩
  · rw [parent?]
    dsimp only
    rw [left]
  · refine Nat.lt_of_le_of_ne sublist.length_le fun same => ?_
    -- A parent that is no shorter would be the path itself, without a step that moves at its end.
    have whole := sublist.eq_of_length same
    rw [String.toList_inj] at whole
    rw [whole, shape, isNames, List.append_assoc] at rendered
    have listed : last ∈ more := by
      rw [← List.append_cancel_left rendered]
      simp
    rw [empty last listed] at moves
    cases moves
  · cases tops : backwards.dropWhile isStill with
    | nil =>
        refine .inl ?_
        have nothing : names = (anchor path).1 := by simp [names, kept, tops]
        rw [nothing]
        exact isStill_of_mem_anchor
    | cons top earlier =>
        refine .inr ⟨(anchor path).1 ++ earlier.reverse, top, ?_, ?_⟩
        · simp [names, kept, tops]
        · have stops := List.head_dropWhile_not isStill (l := backwards) (by simp [tops])
          simpa [tops] using stops

theorem length_lt_of_parent? (isParent : parent? path = some parent) :
    parent.length < path.length := by
  cases moving : stepsBackwards (segments path) with
  | cons last before =>
      obtain ⟨moves, behind, shape, still⟩ := exists_of_stepsBackwards moving
      obtain ⟨other, up⟩ := exists_goesUp shape moves still
      obtain rfl := Option.some.inj (isParent.symm.trans up.isParent)
      exact up.shorter
  | nil =>
      have still := stepsBackwards_eq_nil.1 moving
      have nothing : stepsBackwards (anchor path).2 = [] := by
        refine stepsBackwards_eq_nil.2 fun segment listed => still segment ?_
        rw [← anchor_append]
        exact List.mem_append_right _ listed
      have nonempty : path ≠ "" := by
        rintro rfl
        cases isParent
      rw [parent?] at isParent
      dsimp only at isParent
      rw [nothing] at isParent
      dsimp only at isParent
      split at isParent
      next =>
        obtain rfl := Option.some.inj isParent
        have positive : 0 < path.toList.length :=
          List.length_pos_iff.2 fun empty => nonempty (String.toList_eq_nil_iff.1 empty)
        exact positive
      next => cases isParent

end WebBundle.Path
