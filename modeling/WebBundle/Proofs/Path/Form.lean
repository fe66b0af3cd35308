import WebBundle.Proofs.Path.Canonical
import WebBundle.Proofs.Path.Steps

/-!
# The form of resource paths

A resource path has no separator but slashes, and behind a slash at its beginning there are only
names, with steps up before them if it is relative. The paths of this form are those that
normalization leaves as they are. What is put below a path is pushed on the segments that are kept
of it, so the path may be normalized before.

The name of a path seen from a root is what is left of its resource path behind the root, or the
whole resource path if it lies outside. Put below the root again it leads to the same resource path:
what is left behind the root is relative, and a whole absolute path takes the place of the root.
-/

namespace WebBundle.Path

variable {absolute : Bool} {path base other : String} {stack names : List (List Char)}

/-- The path begins with a separator. -/
def IsRooted (path : String) : Prop :=
  path.toList.head? = some '/' ∨ path.toList.head? = some '\\'

instance (path : String) : Decidable (IsRooted path) := inferInstanceAs (Decidable (_ ∨ _))

/-- The segments of a path behind a slash at its beginning. -/
def segmentsBehindRoot (path : String) : List (List Char) :=
  if isAbsolute path then (segments path).tail else segments path

/-- The form of a resource path. -/
structure IsCanonical (path : String) : Prop where
  noBackslash : '\\' ∉ path.toList
  moves : path = "" ∨ path = "/" ∨
    ∀ segment ∈ segmentsBehindRoot path, segment ≠ [] ∧ segment ≠ ['.']
  ups : ∃ count names, segmentsBehindRoot path = List.replicate count ['.', '.'] ++ names ∧
    ['.', '.'] ∉ names ∧ (isAbsolute path = true → count = 0)

/-! ## Stacks of steps up and names -/

theorem IsStack.exists_ups (isStack : IsStack absolute stack) :
    ∃ count names, stack.reverse = List.replicate count ['.', '.'] ++ names ∧
      ['.', '.'] ∉ names ∧ (absolute = true → count = 0) := by
  induction isStack with
  | nil => exact ⟨0, [], rfl, List.not_mem_nil, fun _ => rfl⟩
  | @cons segment stack kept up below ih =>
      by_cases isUp : segment = ['.', '.']
      · obtain ⟨relative, allUp⟩ := up isUp
        refine ⟨(segment :: stack).length, [], ?_, List.not_mem_nil, by simp [relative]⟩
        have all : ∀ other ∈ segment :: stack, other = ['.', '.'] :=
          List.forall_mem_cons.2 ⟨isUp, allUp⟩
        rw [List.append_nil, List.eq_replicate_iff, List.length_reverse]
        exact ⟨rfl, fun other listed => all other (List.mem_reverse.1 listed)⟩
      · obtain ⟨count, names, shape, noUp, root⟩ := ih
        refine ⟨count, names ++ [segment], ?_, ?_, root⟩
        · rw [List.reverse_cons, shape, List.append_assoc]
        · simp [noUp, Ne.symm isUp]

theorem isStack_of_ups {count : Nat} (kept : ∀ name ∈ names, IsKept name)
    (noUp : ['.', '.'] ∉ names) (root : absolute = true → count = 0) :
    IsStack absolute (List.replicate count ['.', '.'] ++ names).reverse := by
  induction names using List.reverseRecOn with
  | nil =>
      rw [List.append_nil, List.reverse_replicate]
      induction count with
      | zero => exact .nil
      | succ count ih =>
          have relative : absolute = false := by simpa using mt root (Nat.succ_ne_zero count)
          have isUp : IsKept ['.', '.'] := ⟨rfl, by decide, by decide⟩
          exact .cons isUp (fun _ => ⟨relative, fun _ => List.eq_of_mem_replicate⟩)
            (ih (by simp [relative]))
  | append_singleton names name ih =>
      rw [List.mem_append, List.mem_singleton, not_or] at noUp
      rw [← List.append_assoc, List.reverse_append, List.reverse_singleton]
      exact .cons (kept name List.mem_concat_self) (fun isUp => absurd isUp.symm noUp.2)
        (ih (fun other listed => kept other (List.mem_append_left _ listed)) noUp.1)

/-! ## The text of a stack -/

theorem textOf_segmentsBehindRoot (path : String) :
    textOf (isAbsolute path) (segmentsBehindRoot path).reverse = path.toList := by
  rw [textOf, List.reverse_reverse, segmentsBehindRoot]
  cases absolute : isAbsolute path with
  | false => exact intercalate_segments path
  | true =>
      obtain ⟨rest, text⟩ := List.head?_eq_some_iff.1 (of_decide_eq_true absolute)
      have shape : segments path = [] :: segments (String.ofList rest) := by
        rw [segments, text, Text.pieces, if_pos (by decide), segments, String.toList_ofList]
      have whole := intercalate_segments (String.ofList rest)
      rw [String.toList_ofList] at whole
      rw [if_pos rfl, if_pos rfl, shape, List.tail_cons, whole, text]

theorem isAbsolute_ofList_textOf (isStack : IsStack absolute stack) :
    isAbsolute (String.ofList (textOf absolute stack)) = absolute := by
  rw [isAbsolute, String.toList_ofList, Bool.eq_iff_iff, decide_eq_true_eq]
  exact head?_textOf isStack

theorem segmentsBehindRoot_ofList_textOf (isStack : IsStack absolute stack) :
    segmentsBehindRoot (String.ofList (textOf absolute stack)) =
      if stack = [] then [[]] else stack.reverse := by
  rw [segmentsBehindRoot, isAbsolute_ofList_textOf isStack, segments, String.toList_ofList,
    pieces_textOf isStack]
  cases absolute with
  | false => rfl
  | true => rfl

theorem isCanonical_ofList_textOf (isStack : IsStack absolute stack) :
    IsCanonical (String.ofList (textOf absolute stack)) where
  noBackslash := by
    rw [String.toList_ofList]
    exact backslash_not_mem_textOf isStack
  moves := by
    rw [segmentsBehindRoot_ofList_textOf isStack]
    by_cases empty : stack = []
    · rw [empty]
      cases absolute with
      | false => exact .inl rfl
      | true => exact .inr (.inl rfl)
    · rw [if_neg empty]
      refine .inr (.inr fun segment listed => ?_)
      have kept := (isStack.isKept_of_mem (List.mem_reverse.1 listed)).moves
      constructor
      · rintro rfl
        cases kept
      · rintro rfl
        cases kept
  ups := by
    rw [segmentsBehindRoot_ofList_textOf isStack, isAbsolute_ofList_textOf isStack]
    by_cases empty : stack = []
    · rw [if_pos empty]
      exact ⟨0, [[]], rfl, by decide, fun _ => rfl⟩
    · rw [if_neg empty]
      exact isStack.exists_ups

/-- The paths in the form of resource paths are those that are their own resource paths. -/
theorem normalize_eq_self_iff : normalize path = path ↔ IsCanonical path := by
  constructor
  · intro same
    obtain ⟨absolute, stack, isStack, text⟩ := exists_normalize_eq path
    rw [← same, text]
    exact isCanonical_ofList_textOf isStack
  · rintro ⟨noBackslash, rfl | rfl | moves, count, names, shape, noUp, root⟩
    · rfl
    · rfl
    · have isKept : ∀ segment ∈ segmentsBehindRoot path, IsKept segment := by
        intro segment listed
        have inside : segment ∈ segments path := by
          rw [segmentsBehindRoot] at listed
          split at listed
          next => exact List.mem_of_mem_tail listed
          next => exact listed
        have chars := Text.not_mem_of_mem_pieces inside
        refine ⟨?_, fun slash => (chars '/' slash).1 rfl, fun other => ?_⟩
        · simpa [isStill] using moves segment listed
        · exact noBackslash (chars '\\' other).2
      have isStack : IsStack (isAbsolute path) (segmentsBehindRoot path).reverse := by
        rw [shape]
        refine isStack_of_ups (fun name listed => isKept name ?_) noUp root
        rw [shape]
        exact List.mem_append_right _ listed
      have text := normalize_ofList_textOf isStack
      rwa [textOf_segmentsBehindRoot, String.ofList_toList] at text

theorem isCanonical_normalize (path : String) : IsCanonical (normalize path) :=
  normalize_eq_self_iff.1 (normalize_normalize path)

/-! ## What is kept of a path -/

/-- Whether the resource path of a path is absolute. -/
def rooted (path : String) : Bool := (withSlashes path.toList).head? = some '/'

/-- The segments of a path between all its separators. -/
def slashed (path : String) : List (List Char) := Text.pieces (· = '/') (withSlashes path.toList)

/-- The segments that are kept of a path, last one first. -/
def stackOf (path : String) : List (List Char) :=
  (slashed path).foldl (pushSegment (rooted path)) []

theorem rooted_iff : rooted path = true ↔ IsRooted path := by
  rw [rooted, decide_eq_true_eq, withSlashes, List.head?_map, IsRooted]
  cases path.toList.head? with
  | none => simp
  | some c => by_cases other : c = '\\' <;> simp [other]

theorem isStack_stackOf (path : String) : IsStack (rooted path) (stackOf path) :=
  isStack_pieces path

theorem normalize_eq (path : String) :
    normalize path = String.ofList (textOf (rooted path) (stackOf path)) := by
  simp [normalize, textOf, canonicalSegments, rooted, slashed, stackOf]

theorem isAbsolute_normalize_eq (path : String) : isAbsolute (normalize path) = rooted path := by
  rw [normalize_eq, isAbsolute_ofList_textOf (isStack_stackOf path)]

theorem isAbsolute_normalize_of_isAbsolute (absolute : isAbsolute path = true) :
    isAbsolute (normalize path) = true := by
  rw [isAbsolute_normalize_eq, rooted_iff]
  exact .inl (of_decide_eq_true absolute)

theorem withSlashes_normalize (path : String) :
    withSlashes (normalize path).toList = (normalize path).toList := by
  rw [normalize_eq, String.toList_ofList]
  exact withSlashes_of_not_mem (backslash_not_mem_textOf (isStack_stackOf path))

theorem rooted_normalize (path : String) : rooted (normalize path) = rooted path := by
  rw [rooted, withSlashes_normalize]
  exact isAbsolute_normalize_eq path

theorem stackOf_normalize (path : String) : stackOf (normalize path) = stackOf path := by
  rw [stackOf, slashed, rooted_normalize, withSlashes_normalize, normalize_eq,
    String.toList_ofList]
  exact foldl_pieces_textOf (isStack_stackOf path)

section

variable (free : '\\' ∉ path.toList)

include free

theorem rooted_eq_isAbsolute : rooted path = isAbsolute path := by
  rw [rooted, withSlashes_of_not_mem free]
  rfl

theorem slashed_eq_segments : slashed path = segments path := by
  rw [slashed, withSlashes_of_not_mem free]
  rfl

end

/-! ## Joined paths -/

theorem isAbsolute_of_not_isRooted (relative : ¬IsRooted other) : isAbsolute other = false :=
  decide_eq_false fun slash => relative (.inl slash)

theorem foldl_slashed_join (nonempty : base ≠ "") (relative : ¬IsRooted other) :
    (slashed (join base other)).foldl (pushSegment absolute) stack =
      (slashed other).foldl (pushSegment absolute)
        ((slashed base).foldl (pushSegment absolute) stack) := by
  have given : base.isEmpty = false := by
    rw [← Bool.not_eq_true, String.isEmpty_iff]
    exact nonempty
  have behind (before : List Char) : Text.pieces (· = '/') (withSlashes (before ++ ['/'])) =
      Text.pieces (· = '/') (withSlashes before) ++ [[]] := by
    rw [withSlashes, List.map_append]
    exact Text.pieces_append (withSlashes before) []
  have between (before : List Char) :
      Text.pieces (· = '/') (withSlashes (before ++ ['/'] ++ other.toList)) =
        Text.pieces (· = '/') (withSlashes before) ++ slashed other := by
    rw [withSlashes, List.append_assoc, List.map_append]
    exact Text.pieces_append (withSlashes before) (withSlashes other.toList)
  rw [slashed, toList_join (isAbsolute_of_not_isRooted relative), front, given, Bool.false_or]
  split
  next slash =>
    -- The empty segment behind the slash is not kept.
    obtain ⟨before, ends⟩ := List.getLast?_eq_some_iff.1 (of_decide_eq_true slash)
    rw [slashed, ends, between, behind, List.foldl_append, List.foldl_append]
    rfl
  next => rw [between, List.foldl_append, slashed, slashed]

theorem rooted_join (nonempty : base ≠ "") (relative : ¬IsRooted other) :
    rooted (join base other) = rooted base := by
  have begins : base.toList ≠ [] := fun empty => nonempty (String.toList_eq_nil_iff.1 empty)
  have same : (front base ++ other.toList).head? = base.toList.head? := by
    rw [front]
    split
    next => rw [List.head?_append_of_ne_nil _ begins]
    next => rw [List.append_assoc, List.head?_append_of_ne_nil _ begins]
  rw [rooted, rooted, toList_join (isAbsolute_of_not_isRooted relative), withSlashes, withSlashes,
    List.head?_map, List.head?_map, same]

/-- What is kept of a joined path: the second path is pushed on what is kept of the first. -/
theorem normalize_join_eq (relative : ¬IsRooted other) :
    normalize (join base other) = String.ofList (textOf (rooted base)
      ((slashed other).foldl (pushSegment (rooted base)) (stackOf base))) := by
  by_cases empty : base = ""
  · have alone : join "" other = other := by simp [join]
    have notRooted : rooted other = false := by simpa [← rooted_iff] using relative
    rw [empty, alone, normalize_eq, stackOf, notRooted]
    rfl
  · rw [normalize_eq, stackOf, rooted_join empty relative, foldl_slashed_join empty relative,
      stackOf]

theorem normalize_join (relative : ¬IsRooted other) :
    normalize (join base other) = normalize (join (normalize base) other) := by
  rw [normalize_join_eq relative, normalize_join_eq relative, rooted_normalize, stackOf_normalize]

/-- A path and its normal form. -/
structure Normalizes (path normal : String) : Prop where
  canonical : IsCanonical normal
  rooted : isAbsolute normal = true ↔ IsRooted path
  unchanged : normal = path ↔ IsCanonical path
  again : normalize normal = normal
  join (other : String) (relative : ¬IsRooted other) :
    normalize (join path other) = normalize (join normal other)

/-- The resource path of a path is its normal form. -/
theorem normalizes_normalize (path : String) : Normalizes path (normalize path) where
  canonical := isCanonical_normalize path
  rooted := by rw [isAbsolute_normalize_eq, rooted_iff]
  unchanged := normalize_eq_self_iff
  again := normalize_normalize path
  join _ relative := normalize_join relative

end WebBundle.Path

namespace WebBundle.Path

/-! ## Paths seen from a root -/

variable {root path : String}

/-- The text with which the resource paths in a root begin. -/
def rootFront (root : String) : List Char :=
  if (normalize root).toList.getLast? = some '/' then (normalize root).toList
  else (normalize root).toList ++ ['/']

/-- The path lies in the root. -/
def IsInside (root path : String) : Prop := rootFront root <+: (normalize path).toList

theorem relativeTo_inside {rest : List Char}
    (inside : (normalize path).toList = rootFront root ++ rest) :
    relativeTo root path = String.ofList rest := by
  have found : Text.afterPart? (rootFront root) (normalize path).toList = some rest :=
    Text.afterPart?_eq_some_iff.2 inside
  rw [rootFront] at found
  simp only [relativeTo, found, Option.getD_some]

theorem relativeTo_outside (outside : ¬IsInside root path) :
    relativeTo root path = normalize path := by
  have missed : Text.afterPart? (rootFront root) (normalize path).toList = none := by
    rw [← Option.not_isSome_iff_eq_none, Option.isSome_iff_exists]
    rintro ⟨rest, found⟩
    exact outside ⟨rest, (Text.afterPart?_eq_some_iff.1 found).symm⟩
  rw [rootFront] at missed
  simp only [relativeTo, missed, Option.getD_none, String.ofList_toList]

theorem getLast?_rootFront (root : String) : (rootFront root).getLast? = some '/' := by
  unfold rootFront
  split
  next ends => exact ends
  next => exact List.getLast?_concat

/-- What is left behind a root begins with no separator. -/
theorem not_isRooted_rest {rest : List Char}
    (inside : (normalize path).toList = rootFront root ++ rest) :
    ¬IsRooted (String.ofList rest) := by
  rw [IsRooted, String.toList_ofList]
  rintro (slash | backslash)
  · obtain ⟨front, shape⟩ := List.getLast?_eq_some_iff.1 (getLast?_rootFront root)
    obtain ⟨others, shape'⟩ := List.head?_eq_some_iff.1 slash
    refine not_slashes_infix_normalize path ⟨front, others, ?_⟩
    rw [inside, shape, shape', List.append_assoc, List.append_assoc]
    rfl
  · refine (isCanonical_normalize path).noBackslash ?_
    rw [inside]
    exact List.mem_append_right _ (List.mem_of_head? backslash)

theorem front_normalize (given : normalize root ≠ "") :
    front (normalize root) = rootFront root := by
  have nonempty : (normalize root).isEmpty = false := by
    rw [← Bool.not_eq_true, String.isEmpty_iff]
    exact given
  simp [front, rootFront, nonempty]

/-- What is left behind a root, put below the root again. -/
theorem normalize_join_rest {rest : List Char} (given : normalize root ≠ "")
    (inside : (normalize path).toList = rootFront root ++ rest) :
    normalize (join root (String.ofList rest)) = normalize path := by
  have relative := not_isRooted_rest inside
  have text : join (normalize root) (String.ofList rest) = normalize path := by
    rw [← String.toList_inj, toList_join (isAbsolute_of_not_isRooted relative),
      front_normalize given, String.toList_ofList, inside]
  rw [normalize_join relative, text, normalize_normalize]

theorem join_of_isAbsolute (absolute : isAbsolute path = true) : join root path = path := by
  rw [join, absolute, Bool.true_or, if_pos rfl]

/-- The name of an absolute path seen from an absolute root leads from the root to the path. -/
theorem normalize_join_relativeTo (rootAbsolute : isAbsolute root = true)
    (absolute : isAbsolute path = true) :
    normalize (join root (relativeTo root path)) = normalize path := by
  by_cases inside : IsInside root path
  · obtain ⟨rest, inside⟩ := inside
    have given : normalize root ≠ "" := by
      intro empty
      have begins := isAbsolute_normalize_of_isAbsolute rootAbsolute
      rw [empty] at begins
      cases begins
    rw [relativeTo_inside inside.symm]
    exact normalize_join_rest given inside.symm
  · rw [relativeTo_outside inside, join_of_isAbsolute (isAbsolute_normalize_of_isAbsolute absolute),
      normalize_normalize]

/-- Paths in a root, equal to it, beside it and behind a name that only begins like it. -/
theorem normalize_join_relativeTo_work :
    ["/work\\app/src/../a.js", "/work/app", "/lib/a.js", "/work/application/x.js"].map
        (relativeTo "/work/./app/") =
      ["a.js", "/work/app", "/lib/a.js", "/work/application/x.js"] ∧
    ∀ path ∈ ["/work\\app/src/../a.js", "/work/app", "/lib/a.js", "/work/application/x.js"],
      normalize (join "/work/./app/" (relativeTo "/work/./app/" path)) = normalize path := by
  refine ⟨by decide +kernel, fun path listed => normalize_join_relativeTo (by decide) ?_⟩
  revert path
  decide

end WebBundle.Path
