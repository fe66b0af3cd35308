import WebBundle.Proofs.Path.Form
import WebBundle.Proofs.Path.Parents

/-!
# Paths above a path

One path lies above another one if its resource path has the first segments of the other one's. A
parent is made of the text alone: it leaves out the last step, whatever that step is. So the parents
of a path, their parents and so on lie above it if steps up stand only at its beginning. Each of
them has one segment less, so no path above is missing among them.
-/

namespace WebBundle.Path

variable {absolute : Bool} {path parent other above last : String} {passed : List String}

/-! ## The order of paths -/

/-- The segments of a path that move. -/
def movesOf (path : String) : List (List Char) :=
  (segments path).filter fun segment => !isStill segment

/-- The resource path of a path has the first segments of another one's, or all of them. -/
structure LiesAbove (above path : String) : Prop where
  absolute : isAbsolute (normalize above) = isAbsolute (normalize path)
  isPrefix : movesOf (normalize above) <+: movesOf (normalize path)

instance (above path : String) : Decidable (LiesAbove above path) :=
  decidable_of_iff (_ ∧ _) ⟨fun ⟨absolute, isPrefix⟩ => ⟨absolute, isPrefix⟩,
    fun ⟨absolute, isPrefix⟩ => ⟨absolute, isPrefix⟩⟩

theorem filter_of_still {names : List (List Char)} (still : ∀ name ∈ names, isStill name = true) :
    (names.filter fun name => !isStill name) = [] :=
  List.filter_eq_nil_iff.2 fun name listed => by simp [still name listed]

theorem movesOf_eq_filter (path : String) :
    movesOf path = (frontSegments path).filter fun segment => !isStill segment := by
  by_cases empty : path = ""
  · rw [empty]
    rfl
  · obtain ⟨more, shape, still⟩ := exists_segments_eq empty
    rw [movesOf, shape, List.filter_append, filter_of_still still, List.append_nil]

theorem movesOf_normalize (path : String) : movesOf (normalize path) = (stackOf path).reverse := by
  have isStack := isStack_stackOf path
  have moving : ∀ segment ∈ (stackOf path).reverse, (!isStill segment) = true := by
    intro segment listed
    rw [(isStack.isKept_of_mem (List.mem_reverse.1 listed)).moves]
    rfl
  have behind : (if stackOf path = [] then [[]] else (stackOf path).reverse).filter
      (fun segment => !isStill segment) = (stackOf path).reverse := by
    split
    next empty =>
      rw [empty]
      rfl
    next => exact List.filter_eq_self.2 moving
  rw [movesOf, normalize_eq, segments, String.toList_ofList, pieces_textOf isStack,
    List.filter_append, behind]
  cases rooted path with
  | false => rfl
  | true => rfl

theorem liesAbove_iff : LiesAbove above path ↔
    rooted above = rooted path ∧ (stackOf above).reverse <+: (stackOf path).reverse := by
  rw [← isAbsolute_normalize_eq, ← isAbsolute_normalize_eq, ← movesOf_normalize,
    ← movesOf_normalize]
  exact ⟨fun ⟨absolute, isPrefix⟩ => ⟨absolute, isPrefix⟩,
    fun ⟨absolute, isPrefix⟩ => ⟨absolute, isPrefix⟩⟩

theorem LiesAbove.refl (path : String) : LiesAbove path path := ⟨rfl, List.prefix_rfl⟩

theorem LiesAbove.trans (first : LiesAbove above other) (second : LiesAbove other path) :
    LiesAbove above path :=
  ⟨first.absolute.trans second.absolute, first.isPrefix.trans second.isPrefix⟩

theorem normalize_eq_of_stackOf (sameRoot : rooted path = rooted other)
    (sameStack : stackOf path = stackOf other) : normalize path = normalize other := by
  rw [normalize_eq, normalize_eq, sameRoot, sameStack]

theorem LiesAbove.antisymm (above : LiesAbove other path) (below : LiesAbove path other) :
    normalize other = normalize path := by
  obtain ⟨absolute, isPrefix⟩ := liesAbove_iff.1 above
  have whole := isPrefix.eq_of_length_le (liesAbove_iff.1 below).2.length_le
  exact normalize_eq_of_stackOf absolute (List.reverse_inj.1 whole)

/-! ## Paths that step up at their beginning only -/

/-- No step up of a path stands behind a name. There is no backslash, which would be a separator of
the resource path but is none of the path. -/
structure Ascends (path : String) : Prop where
  noBackslash : '\\' ∉ path.toList
  upFirst : (segments path).Pairwise fun before behind =>
    behind = ['.', '.'] → isStill before = true ∨ before = ['.', '.']

instance (path : String) : Decidable (Ascends path) :=
  decidable_of_iff (_ ∧ _) ⟨fun ⟨noBackslash, upFirst⟩ => ⟨noBackslash, upFirst⟩,
    fun ⟨noBackslash, upFirst⟩ => ⟨noBackslash, upFirst⟩⟩

/-- A segment is kept unless it is still, or a step up from the root. -/
def keeps (absolute : Bool) (segment : List Char) : Bool :=
  !isStill segment && !(absolute && segment = ['.', '.'])

/-- Where steps up stand only at the beginning, none of them takes anything back. -/
theorem foldl_pushSegment_of_upFirst {names : List (List Char)}
    (upFirst : names.Pairwise fun before behind =>
      behind = ['.', '.'] → isStill before = true ∨ before = ['.', '.']) :
    names.foldl (pushSegment absolute) [] = (names.filter (keeps absolute)).reverse := by
  induction names using List.reverseRecOn with
  | nil => rfl
  | append_singleton before segment ih =>
      obtain ⟨first, _, behind⟩ := List.pairwise_append.1 upFirst
      have upBefore (up : segment = ['.', '.']) {name : List Char}
          (listed : name ∈ (before.filter (keeps absolute)).reverse) :
          name = ['.', '.'] ∧ absolute = false := by
        obtain ⟨inside, kept⟩ := List.mem_filter.1 (List.mem_reverse.1 listed)
        have fits : isStill name = false ∧ (absolute = false ∨ name ≠ ['.', '.']) := by
          simpa [keeps] using kept
        obtain ⟨moves, notRoot⟩ := fits
        have isUp : name = ['.', '.'] :=
          (behind name inside segment (List.mem_singleton_self segment) up).resolve_left
            (by simp [moves])
        exact ⟨isUp, notRoot.resolve_right (not_not_intro isUp)⟩
      have pushes := pushes_pushSegment absolute (before.filter (keeps absolute)).reverse segment
      rw [List.foldl_append, ih first, List.foldl_cons, List.foldl_nil, List.filter_append,
        List.reverse_append]
      generalize (before.filter (keeps absolute)).reverse = stack at pushes upBefore
      generalize Path.pushSegment absolute stack segment = after at pushes
      cases pushes with
      | still still => simp [keeps, still]
      | name moves notUp => simp [keeps, moves, notUp]
      | root up isAbsolute => simp [keeps, up, isAbsolute]
      | climb up relative => simp [keeps, up, relative, show isStill ['.', '.'] = false from rfl]
      | drive up colon =>
          obtain ⟨isUp, _⟩ := upBefore up (List.mem_singleton_self _)
          rw [isUp] at colon
          cases colon
      | back up notUp =>
          obtain ⟨isUp, relative⟩ := upBefore up List.mem_cons_self
          exact absurd isUp (notUp relative)

theorem Ascends.reverse_stackOf (ascends : Ascends path) :
    (stackOf path).reverse = (segments path).filter (keeps (isAbsolute path)) := by
  rw [stackOf, slashed_eq_segments ascends.noBackslash, rooted_eq_isAbsolute ascends.noBackslash,
    foldl_pushSegment_of_upFirst ascends.upFirst, List.reverse_reverse]

theorem Ascends.movesOf_normalize (ascends : Ascends path) : movesOf (normalize path) =
    (frontSegments path).filter (keeps (isAbsolute path)) := by
  rw [Path.movesOf_normalize, ascends.reverse_stackOf]
  by_cases empty : path = ""
  · rw [empty]
    rfl
  · obtain ⟨more, shape, still⟩ := exists_segments_eq empty
    have dropped : more.filter (keeps (isAbsolute path)) = [] :=
      List.filter_eq_nil_iff.2 fun segment listed => by simp [keeps, still segment listed]
    rw [shape, List.filter_append, dropped, List.append_nil]

/-! ## Parents -/

/-- What a parent leaves out: the last step that moves, if there is one, and still ones. -/
structure LeavesOut (parent path : String) : Prop where
  absolute : isAbsolute parent = isAbsolute path
  sublist : parent.toList.Sublist path.toList
  shape : ∃ before rest more, segments path = before ++ rest ∧ segments parent = before ++ more ∧
    (∀ segment ∈ more, isStill segment = true) ∧
    (rest.filter fun segment => !isStill segment) = (lastMove? path).toList

theorem leavesOut_of_parent? (isParent : parent? path = some parent) : LeavesOut parent path := by
  cases moving : stepsBackwards (segments path) with
  | cons last before =>
      obtain ⟨moves, behind, shape, still⟩ := exists_of_stepsBackwards moving
      obtain ⟨other, up⟩ := exists_goesUp shape moves still
      obtain rfl := Option.some.inj (isParent.symm.trans up.isParent)
      obtain ⟨kept, between, more, split, stillBetween, shape', empty, _⟩ := up.shape
      refine ⟨up.absolute, up.sublist, kept, between ++ last :: behind, more, ?_, shape',
        isStill_of_forall_nil empty, ?_⟩
      · rw [shape, split, List.append_assoc]
      · rw [List.filter_append, filter_of_still stillBetween, List.filter_cons,
          filter_of_still still, moves, lastMove?_eq shape moves still]
        rfl
  | nil =>
      -- A path of still steps has a parent only if it begins with a dot.
      have still := stepsBackwards_eq_nil.1 moving
      have nothing : stepsBackwards (anchor path).2 = [] := by
        refine stepsBackwards_eq_nil.2 fun segment listed => still segment ?_
        rw [← anchor_append]
        exact List.mem_append_right _ listed
      rw [parent?] at isParent
      dsimp only at isParent
      rw [nothing] at isParent
      dsimp only at isParent
      split at isParent
      next dot =>
        obtain rfl := Option.some.inj isParent
        have relative : isAbsolute path = false := by
          rw [← Bool.not_eq_true]
          intro absolute
          rw [anchor_of_isAbsolute absolute] at dot
          cases dot
        refine ⟨relative.symm, List.nil_sublist _, [], segments path, [[]], rfl, rfl, by decide, ?_⟩
        rw [filter_of_still still, lastMove?, moving]
        rfl
      next => cases isParent

theorem Ascends.of_parent? (ascends : Ascends path) (isParent : parent? path = some parent) :
    Ascends parent := by
  obtain ⟨_, sublist, before, rest, more, shape, shape', still, _⟩ := leavesOut_of_parent? isParent
  refine ⟨fun inside => ascends.noBackslash (sublist.subset inside), ?_⟩
  have upFirst := ascends.upFirst
  have notUp : ∀ segment ∈ more, segment ≠ ['.', '.'] := by
    rintro segment listed rfl
    cases still _ listed
  rw [shape, List.pairwise_append] at upFirst
  rw [shape', List.pairwise_append]
  refine ⟨upFirst.1, List.pairwise_iff_forall_sublist.2 ?_, ?_⟩
  · intro segment behind listed up
    exact absurd up (notUp behind (listed.subset (by simp)))
  · exact fun _ _ behind listed up => absurd up (notUp behind listed)

/-- The segments that are kept of a path are those of its parent and at most one more. -/
theorem Ascends.exists_reverse_stackOf (ascends : Ascends path)
    (isParent : parent? path = some parent) : rooted parent = rooted path ∧
      ∃ more, (stackOf path).reverse = (stackOf parent).reverse ++ more ∧ more.length ≤ 1 := by
  have ascends' := ascends.of_parent? isParent
  obtain ⟨absolute, _, before, rest, more, shape, shape', still, left⟩ :=
    leavesOut_of_parent? isParent
  have dropped : more.filter (keeps (isAbsolute path)) = [] :=
    List.filter_eq_nil_iff.2 fun segment listed => by simp [keeps, still segment listed]
  refine ⟨by rw [rooted_eq_isAbsolute ascends.noBackslash,
      rooted_eq_isAbsolute ascends'.noBackslash, absolute],
    rest.filter (keeps (isAbsolute path)), ?_, ?_⟩
  · rw [ascends.reverse_stackOf, ascends'.reverse_stackOf, absolute, shape, shape',
      List.filter_append, List.filter_append, dropped, List.append_nil]
  · refine Nat.le_trans ?_ (Option.length_toList_le (o := lastMove? path))
    rw [← left, ← List.countP_eq_length_filter, ← List.countP_eq_length_filter]
    refine List.countP_mono_left fun segment _ kept => ?_
    exact (Bool.and_eq_true _ _ ▸ kept).1

/-! ## Steps that lead up -/

/-- The step from a path to its parent leads up: what is left out is a name without a backslash, or
steps up stand only at the beginning. -/
def StepsUp (path : String) : Prop :=
  Ascends path ∨ ∀ last ∈ lastMove? path, last ≠ ['.', '.'] ∧ '\\' ∉ last

instance (path : String) : Decidable (StepsUp path) := inferInstanceAs (Decidable (_ ∨ _))

theorem plain_of_isStill {segment : List Char} (still : isStill segment = true) :
    segment ≠ ['.', '.'] ∧ '\\' ∉ segment := by
  have shape : segment = [] ∨ segment = ['.'] := by simpa [isStill] using still
  rcases shape with rfl | rfl <;> decide

/-- Segments without steps up are pushed one on the other, but for still ones. -/
theorem foldl_pushSegment_of_plain {names stack : List (List Char)} (plain : ['.', '.'] ∉ names) :
    names.foldl (pushSegment absolute) stack =
      (names.filter fun name => !isStill name).reverse ++ stack := by
  induction names generalizing stack with
  | nil => rfl
  | cons name names ih =>
      rw [List.mem_cons, not_or] at plain
      have notUp : name ≠ ['.', '.'] := Ne.symm plain.1
      have pushes := pushes_pushSegment absolute stack name
      rw [List.foldl_cons, ih plain.2]
      generalize pushSegment absolute stack name = after at pushes
      cases pushes with
      | still still => simp [still]
      | name moves => simp [moves]
      | root up => exact absurd up notUp
      | climb up => exact absurd up notUp
      | drive up => exact absurd up notUp
      | back up => exact absurd up notUp

/-- A path is cut at its slashes first, and the segments are cut at their backslashes. -/
theorem slashed_eq_flatMap (path : String) : slashed path =
    (segments path).flatMap fun segment => Text.pieces (· = '/') (withSlashes segment) := by
  have cut {names : List (List Char)} (given : names ≠ []) :
      Text.pieces (· = '/') (withSlashes (List.intercalate ['/'] names)) =
        names.flatMap fun name => Text.pieces (· = '/') (withSlashes name) := by
    induction names with
    | nil => exact absurd rfl given
    | cons name names ih =>
        by_cases last : names = []
        · rw [last, List.intercalate_singleton, List.flatMap_singleton]
        · rw [List.intercalate_cons_of_ne_nil last, withSlashes, List.append_assoc,
            List.map_append, List.flatMap_cons, ← ih last]
          exact Text.pieces_append (withSlashes name) _
  have given : segments path ≠ [] := Text.pieces_ne_nil _ path.toList
  rw [slashed, ← cut given, intercalate_segments]

theorem flatMap_pieces_of_plain {names : List (List Char)}
    (plain : ∀ name ∈ names, '/' ∉ name ∧ '\\' ∉ name) :
    (names.flatMap fun name => Text.pieces (· = '/') (withSlashes name)) = names := by
  refine Eq.trans (List.flatMap_congr fun name listed => ?_) (List.flatMap_singleton' names)
  obtain ⟨noSlash, noBackslash⟩ := plain name listed
  rw [withSlashes_of_not_mem noBackslash, Text.pieces_eq_splitOn,
    List.splitOn_eq_singleton noSlash]

/-- A path begins with a backslash if its first segment does. -/
theorem head?_eq_backslash_iff {first : List Char} {others : List (List Char)}
    (shape : segments path = first :: others) :
    path.toList.head? = some '\\' ↔ first.head? = some '\\' := by
  rw [← intercalate_segments path, shape]
  by_cases last : others = []
  · rw [last, List.intercalate_singleton]
  · rw [List.intercalate_cons_of_ne_nil last]
    cases first <;> simp

/-- Two paths with the same first segments both begin with a separator, or none of them does. -/
theorem rooted_eq_of_shapes {before rest more : List (List Char)}
    (absolute : isAbsolute parent = isAbsolute path) (shape : segments path = before ++ rest)
    (shape' : segments parent = before ++ more) (noBackslash : ∀ segment ∈ rest, '\\' ∉ segment)
    (noBackslash' : ∀ segment ∈ more, '\\' ∉ segment) : rooted parent = rooted path := by
  have begins {text : String} {behind : List (List Char)} (shape : segments text = before ++ behind)
      (free : ∀ segment ∈ behind, '\\' ∉ segment) :
      text.toList.head? = some '\\' ↔ before.head?.bind List.head? = some '\\' := by
    cases before with
    | cons first others => exact head?_eq_backslash_iff shape
    | nil =>
        cases behind with
        | nil => exact absurd shape (Text.pieces_ne_nil _ text.toList)
        | cons first others =>
            refine (head?_eq_backslash_iff shape).trans (iff_of_false (fun first => ?_) nofun)
            exact free _ List.mem_cons_self (List.mem_of_mem_head? first)
  have slash := Bool.eq_iff_iff.1 absolute
  rw [isAbsolute, isAbsolute, decide_eq_true_eq, decide_eq_true_eq] at slash
  rw [Bool.eq_iff_iff, rooted_iff, rooted_iff, IsRooted, IsRooted, begins shape noBackslash,
    begins shape' noBackslash', slash]

theorem stackOf_of_plain {before rest : List (List Char)} (shape : segments path = before ++ rest)
    (plain : ∀ segment ∈ rest, segment ≠ ['.', '.'] ∧ '\\' ∉ segment) :
    stackOf path = (rest.filter fun segment => !isStill segment).reverse ++
      (before.flatMap fun segment => Text.pieces (· = '/') (withSlashes segment)).foldl
        (pushSegment (rooted path)) [] := by
  have noSlash : ∀ segment ∈ rest, '/' ∉ segment ∧ '\\' ∉ segment := by
    intro segment listed
    have inside : segment ∈ segments path := shape ▸ List.mem_append_right before listed
    refine ⟨fun slash => ?_, (plain segment listed).2⟩
    exact (Text.not_mem_of_mem_pieces inside '/' slash).1 rfl
  rw [stackOf, slashed_eq_flatMap, shape, List.flatMap_append, flatMap_pieces_of_plain noSlash,
    List.foldl_append, foldl_pushSegment_of_plain fun up => (plain _ up).1 rfl]

/-- The segments that are kept of a path are those of its parent and at most one more. -/
theorem StepsUp.exists_reverse_stackOf (stepsUp : StepsUp path)
    (isParent : parent? path = some parent) : rooted parent = rooted path ∧
      ∃ more, (stackOf path).reverse = (stackOf parent).reverse ++ more ∧ more.length ≤ 1 := by
  rcases stepsUp with ascends | plainLast
  · exact ascends.exists_reverse_stackOf isParent
  · obtain ⟨absolute, _, before, rest, more, shape, shape', still, left⟩ :=
      leavesOut_of_parent? isParent
    have plain : ∀ segment ∈ rest, segment ≠ ['.', '.'] ∧ '\\' ∉ segment := by
      intro segment listed
      cases moves : isStill segment with
      | true => exact plain_of_isStill moves
      | false =>
          refine plainLast segment (Option.mem_toList.1 (left ▸ List.mem_filter.2 ⟨listed, ?_⟩))
          rw [moves]
          rfl
    have plainMore : ∀ segment ∈ more, segment ≠ ['.', '.'] ∧ '\\' ∉ segment :=
      fun segment listed => plain_of_isStill (still segment listed)
    have root : rooted parent = rooted path := rooted_eq_of_shapes absolute shape shape'
      (fun segment listed => (plain segment listed).2)
      (fun segment listed => (plainMore segment listed).2)
    refine ⟨root, rest.filter fun segment => !isStill segment, ?_, ?_⟩
    · rw [stackOf_of_plain shape plain, stackOf_of_plain shape' plainMore, root,
        filter_of_still still]
      simp only [List.reverse_append, List.reverse_reverse, List.reverse_nil, List.append_nil]
    · exact left ▸ Option.length_toList_le

theorem StepsUp.liesAbove_parent (stepsUp : StepsUp path) (isParent : parent? path = some parent) :
    LiesAbove parent path := by
  obtain ⟨absolute, more, shape, _⟩ := stepsUp.exists_reverse_stackOf isParent
  exact liesAbove_iff.2 ⟨absolute, more, shape.symm⟩

/-- What lies above a path lies above its parent too, or is the path. -/
theorem StepsUp.liesAbove_or (stepsUp : StepsUp path) (isParent : parent? path = some parent)
    (liesAbove : LiesAbove above path) :
    LiesAbove above parent ∨ normalize above = normalize path := by
  obtain ⟨absolute, more, shape, few⟩ := stepsUp.exists_reverse_stackOf isParent
  obtain ⟨sameRoot, isPrefix⟩ := liesAbove_iff.1 liesAbove
  by_cases longer : (stackOf path).reverse.length ≤ (stackOf above).reverse.length
  · have whole := isPrefix.eq_of_length_le longer
    exact .inr (normalize_eq_of_stackOf sameRoot (List.reverse_inj.1 whole))
  · refine .inl (liesAbove_iff.2 ⟨sameRoot.trans absolute.symm, ?_⟩)
    have isPrefix' : (stackOf parent).reverse <+: (stackOf path).reverse := ⟨more, shape.symm⟩
    refine List.prefix_of_prefix_length_le isPrefix isPrefix' ?_
    rw [shape, List.length_append] at longer
    omega

/-! ## The way up -/

/-- The way up from a path by parents to a last one, with the paths that are passed before. -/
inductive WayUp : (path : String) → (passed : List String) → (last : String) → Prop where
  | here (path : String) : WayUp path [] path
  | up {path parent last : String} {passed : List String}
      (isParent : parent? path = some parent) (way : WayUp parent passed last) :
      WayUp path (path :: passed) last

section

variable (way : WayUp path passed last)

include way

theorem WayUp.liesAbove (stepsUp : ∀ between ∈ passed, StepsUp between) : LiesAbove last path := by
  induction way with
  | here path => exact .refl path
  | up isParent _ ih =>
      obtain ⟨here, later⟩ := List.forall_mem_cons.1 stepsUp
      exact (ih later).trans (here.liesAbove_parent isParent)

/-- The way up passes every path between its ends, in one spelling or another. -/
theorem WayUp.exists_passed (stepsUp : ∀ between ∈ passed, StepsUp between)
    (isBelow : LiesAbove last other) (ne : normalize other ≠ normalize last)
    (isAbove : LiesAbove other path) : ∃ between ∈ passed, normalize between = normalize other := by
  induction way with
  | here path => exact absurd (isAbove.antisymm isBelow) ne
  | @up path parent last passed isParent way ih =>
      obtain ⟨here, later⟩ := List.forall_mem_cons.1 stepsUp
      rcases here.liesAbove_or isParent isAbove with isAbove | same
      · obtain ⟨between, listed, same⟩ := ih later isBelow ne isAbove
        exact ⟨between, List.mem_cons_of_mem _ listed, same⟩
      · exact ⟨path, List.mem_cons_self, same.symm⟩

/-- What a way up passes is no longer than its beginning, and steps up are in front there too. -/
theorem WayUp.of_mem_passed (ascends : Ascends path) :
    ∀ between ∈ passed, Ascends between ∧ between.toList.Sublist path.toList := by
  induction way with
  | here path => exact nofun
  | @up path parent last passed isParent way ih =>
      refine List.forall_mem_cons.2 ⟨⟨ascends, List.Sublist.refl _⟩, fun between listed => ?_⟩
      obtain ⟨ascends', sublist⟩ := ih (ascends.of_parent? isParent) between listed
      exact ⟨ascends', sublist.trans (leavesOut_of_parent? isParent).sublist⟩

end

end WebBundle.Path
