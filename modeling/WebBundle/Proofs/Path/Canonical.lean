import WebBundle.Path.Resource
import WebBundle.Proofs.Text.Pieces

/-!
# Canonical paths

The segments that normalization keeps form a stack that a second normalization builds again, segment
by segment. So a resource path is its own resource path.
-/

namespace WebBundle.Path

/-- A segment that is kept: it is not still, and no separator is in it. -/
structure IsKept (segment : List Char) : Prop where
  moves : isStill segment = false
  noSlash : '/' ∉ segment
  noBackslash : '\\' ∉ segment

/-- A stack of kept segments, last one first. There are only steps up below a step up, and none on
an absolute path. -/
inductive IsStack (absolute : Bool) : List (List Char) → Prop where
  | nil : IsStack absolute []
  | cons {segment : List Char} {stack : List (List Char)} (kept : IsKept segment)
      (up : segment = ['.', '.'] → absolute = false ∧ ∀ below ∈ stack, below = ['.', '.'])
      (below : IsStack absolute stack) : IsStack absolute (segment :: stack)

variable {absolute : Bool} {segment : List Char} {stack : List (List Char)}

/-- What pushing a segment makes of a stack. -/
inductive Pushes (absolute : Bool) (segment : List Char) :
    (before after : List (List Char)) → Prop where
  | still {stack : List (List Char)} (still : isStill segment = true) :
      Pushes absolute segment stack stack
  | name {stack : List (List Char)} (moves : isStill segment = false)
      (notUp : segment ≠ ['.', '.']) : Pushes absolute segment stack (segment :: stack)
  | root (up : segment = ['.', '.']) (isAbsolute : absolute = true) :
      Pushes absolute segment [] []
  | climb {stack : List (List Char)} (up : segment = ['.', '.']) (relative : absolute = false)
      (onlyUp : ∀ top ∈ stack.head?, top = ['.', '.']) :
      Pushes absolute segment stack (segment :: stack)
  | drive {name : List Char} (up : segment = ['.', '.']) (colon : name.getLast? = some ':') :
      Pushes absolute segment [name] [name]
  | back {top : List Char} {below : List (List Char)} (up : segment = ['.', '.'])
      (notUp : absolute = false → top ≠ ['.', '.']) :
      Pushes absolute segment (top :: below) below

theorem pushes_pushSegment (absolute : Bool) (stack : List (List Char)) (segment : List Char) :
    Pushes absolute segment stack (pushSegment absolute stack segment) := by
  unfold pushSegment
  split
  next still => exact .still still
  next moves =>
    split
    next up =>
      cases stack with
      | nil =>
          dsimp only
          split
          next isAbsolute => exact .root up isAbsolute
          next relative => exact .climb up (by simpa using relative) nofun
      | cons top below =>
          dsimp only
          split
          next climbs =>
            obtain ⟨relative, topUp⟩ : absolute = false ∧ top = ['.', '.'] := by simpa using climbs
            exact .climb up relative (by simpa using topUp)
          next climbs =>
            split
            next drive =>
              obtain ⟨alone, colon⟩ : below = [] ∧ top.getLast? = some ':' := by simpa using drive
              rw [alone]
              exact .drive up colon
            next => exact .back up (by simpa using climbs)
    next notUp => exact .name (by simpa using moves) notUp

theorem IsStack.of_pushes {after : List (List Char)} (isStack : IsStack absolute stack)
    (pushes : Pushes absolute segment stack after) (noSlash : '/' ∉ segment)
    (noBackslash : '\\' ∉ segment) : IsStack absolute after := by
  cases pushes with
  | still | drive => exact isStack
  | root => exact .nil
  | name moves notUp =>
      exact .cons ⟨moves, noSlash, noBackslash⟩ (fun up => absurd up notUp) isStack
  | climb up relative onlyUp =>
      have kept : IsKept segment := ⟨up ▸ rfl, noSlash, noBackslash⟩
      refine .cons kept (fun _ => ⟨relative, ?_⟩) isStack
      cases isStack with
      | nil => exact nofun
      | cons _ up _ =>
          have topUp := onlyUp _ rfl
          exact List.forall_mem_cons.2 ⟨topUp, (up topUp).2⟩
  | back =>
      cases isStack with
      | cons _ _ isBelow => exact isBelow

theorem IsStack.pushSegment (isStack : IsStack absolute stack) (noSlash : '/' ∉ segment)
    (noBackslash : '\\' ∉ segment) : IsStack absolute (pushSegment absolute stack segment) :=
  isStack.of_pushes (pushes_pushSegment absolute stack segment) noSlash noBackslash

/-- On a stack below it a segment is pushed as it is. -/
theorem IsStack.pushSegment_eq (isStack : IsStack absolute (segment :: stack)) :
    Path.pushSegment absolute stack segment = segment :: stack := by
  cases isStack with
  | cons kept up _ =>
      rw [Path.pushSegment.eq_def, if_neg (by simp [kept.moves])]
      split
      next isUp =>
        obtain ⟨relative, allUp⟩ := up isUp
        cases stack with
        | nil => simp [relative]
        | cons top below =>
            have topUp : top = ['.', '.'] := allUp top List.mem_cons_self
            simp [relative, topUp]
      next => rfl

theorem IsStack.foldl_reverse (isStack : IsStack absolute stack) :
    stack.reverse.foldl (Path.pushSegment absolute) [] = stack := by
  induction isStack with
  | nil => rfl
  | cons kept up below ih =>
      rw [List.reverse_cons, List.foldl_append, ih]
      exact (IsStack.cons kept up below).pushSegment_eq

theorem IsStack.isKept_of_mem (isStack : IsStack absolute stack) (member : segment ∈ stack) :
    IsKept segment := by
  induction isStack with
  | nil => cases member
  | cons kept _ _ ih =>
      cases List.mem_cons.1 member with
      | inl same => exact same ▸ kept
      | inr later => exact ih later

/-! ## Segments of a text -/

/-- Segments that are joined come apart again. No segment at all reads as a still one. -/
theorem foldl_pieces_intercalate {segments : List (List Char)}
    (free : ∀ segment ∈ segments, '/' ∉ segment) :
    (Text.pieces (· = '/') (List.intercalate ['/'] segments)).foldl (pushSegment absolute) stack =
      segments.foldl (pushSegment absolute) stack := by
  cases segments with
  | nil => rfl
  | cons first others =>
      rw [Text.pieces_eq_splitOn, List.splitOn_intercalate '/' free (List.cons_ne_nil first others)]

/-! ## Resource paths -/

theorem backslash_not_mem_withSlashes (text : List Char) : '\\' ∉ withSlashes text := by
  intro member
  obtain ⟨c, _, same⟩ := List.mem_map.1 member
  split at same
  next => exact absurd same (by decide)
  next other => exact other same

theorem withSlashes_of_not_mem {text : List Char} (free : '\\' ∉ text) :
    withSlashes text = text := by
  induction text with
  | nil => rfl
  | cons c text ih =>
      have other : c ≠ '\\' := fun same => free (same ▸ List.mem_cons_self)
      rw [withSlashes, List.map_cons, if_neg other]
      exact congrArg (c :: ·) (ih fun later => free (List.mem_cons_of_mem c later))

theorem isStack_foldl {segments : List (List Char)} (isStack : IsStack absolute stack)
    (free : ∀ segment ∈ segments, '/' ∉ segment ∧ '\\' ∉ segment) :
    IsStack absolute (segments.foldl (pushSegment absolute) stack) := by
  induction segments generalizing stack with
  | nil => exact isStack
  | cons segment segments ih =>
      obtain ⟨noSlash, noBackslash⟩ := free segment List.mem_cons_self
      exact ih (isStack.pushSegment noSlash noBackslash)
        fun other later => free other (List.mem_cons_of_mem segment later)

/-- The text of a resource path whose segments form a stack. -/
def textOf (absolute : Bool) (stack : List (List Char)) : List Char :=
  let body := List.intercalate ['/'] stack.reverse
  if absolute then '/' :: body else body

/-- The segments that normalization keeps of a path, last one first. -/
theorem isStack_pieces (path : String) :
    IsStack absolute ((Text.pieces (· = '/') (withSlashes path.toList)).foldl
      (pushSegment absolute) []) := by
  refine isStack_foldl .nil ?_
  intro segment member
  have free := Text.not_mem_of_mem_pieces member
  constructor
  · exact fun inside => (free '/' inside).1 rfl
  · exact fun inside => backslash_not_mem_withSlashes _ (free '\\' inside).2

/-- Every resource path is the text of a stack. -/
theorem exists_normalize_eq (path : String) :
    ∃ absolute stack, IsStack absolute stack ∧
      normalize path = String.ofList (textOf absolute stack) := by
  let text := withSlashes path.toList
  let absolute : Bool := text.head? = some '/'
  refine ⟨absolute, (Text.pieces (· = '/') text).foldl (pushSegment absolute) [],
    isStack_pieces path, by simp [normalize, textOf, canonicalSegments, absolute, text]⟩

theorem head?_intercalate_reverse_ne (isStack : IsStack absolute stack) :
    (List.intercalate ['/'] stack.reverse).head? ≠ some '/' := by
  cases split : stack.reverse with
  | nil => exact nofun
  | cons first others =>
      have kept : IsKept first :=
        isStack.isKept_of_mem (List.mem_reverse.1 (split ▸ List.mem_cons_self))
      cases first with
      | nil => exact absurd kept.moves (by decide)
      | cons c rest =>
          have other : c ≠ '/' := fun same => kept.noSlash (same ▸ List.mem_cons_self)
          cases others with
          | nil => simpa using other
          | cons next others =>
              rw [List.intercalate_cons_cons]
              simpa using other

theorem head?_textOf (isStack : IsStack absolute stack) :
    (textOf absolute stack).head? = some '/' ↔ absolute = true := by
  cases absolute with
  | true => simp [textOf]
  | false => simpa [textOf] using head?_intercalate_reverse_ne isStack

theorem mem_intercalate {segments : List (List Char)} {c : Char}
    (member : c ∈ List.intercalate ['/'] segments) :
    c = '/' ∨ ∃ segment ∈ segments, c ∈ segment := by
  induction segments with
  | nil => cases member
  | cons first others ih =>
      cases others with
      | nil => exact .inr ⟨first, List.mem_cons_self, by simpa using member⟩
      | cons next others =>
          rw [List.intercalate_cons_cons, List.mem_append, List.mem_append] at member
          rcases member with (inFirst | separator) | later
          · exact .inr ⟨first, List.mem_cons_self, inFirst⟩
          · exact .inl (List.mem_singleton.1 separator)
          · exact (ih later).imp_right fun ⟨segment, listed, inside⟩ =>
              ⟨segment, List.mem_cons_of_mem first listed, inside⟩

theorem backslash_not_mem_textOf (isStack : IsStack absolute stack) :
    '\\' ∉ textOf absolute stack := by
  have free : '\\' ∉ List.intercalate ['/'] stack.reverse := by
    intro member
    rcases mem_intercalate member with same | ⟨segment, listed, inside⟩
    · exact absurd same (by decide)
    · exact (isStack.isKept_of_mem (List.mem_reverse.1 listed)).noBackslash inside
  cases absolute with
  | true => exact fun member => free ((List.mem_cons.1 member).resolve_left (by decide))
  | false => exact free

theorem foldl_pieces_textOf (isStack : IsStack absolute stack) :
    (Text.pieces (· = '/') (textOf absolute stack)).foldl (pushSegment absolute) [] = stack := by
  have free : ∀ segment ∈ stack.reverse, '/' ∉ segment := fun segment listed =>
    (isStack.isKept_of_mem (List.mem_reverse.1 listed)).noSlash
  have body : (Text.pieces (· = '/') (List.intercalate ['/'] stack.reverse)).foldl
      (pushSegment absolute) [] = stack :=
    (foldl_pieces_intercalate free).trans isStack.foldl_reverse
  cases absolute with
  | true =>
      rw [show textOf true stack = '/' :: List.intercalate ['/'] stack.reverse from rfl,
        Text.pieces, if_pos (by decide)]
      exact body
  | false => exact body

/-- The segments of the text are those of the stack. Without any there is an empty one. -/
theorem pieces_textOf (isStack : IsStack absolute stack) :
    Text.pieces (· = '/') (textOf absolute stack) =
      (if absolute then [[]] else []) ++ if stack = [] then [[]] else stack.reverse := by
  have free : ∀ segment ∈ stack.reverse, '/' ∉ segment := fun segment listed =>
    (isStack.isKept_of_mem (List.mem_reverse.1 listed)).noSlash
  have body : Text.pieces (· = '/') (List.intercalate ['/'] stack.reverse) =
      if stack = [] then [[]] else stack.reverse := by
    split
    next empty =>
      rw [empty]
      rfl
    next nonempty =>
      rw [Text.pieces_eq_splitOn,
        List.splitOn_intercalate '/' free (mt List.reverse_eq_nil_iff.1 nonempty)]
  cases absolute with
  | true =>
      rw [show textOf true stack = '/' :: List.intercalate ['/'] stack.reverse from rfl,
        Text.pieces, if_pos (by decide), body]
      rfl
  | false => exact body

/-- The text of a stack is a resource path. -/
theorem normalize_ofList_textOf (isStack : IsStack absolute stack) :
    normalize (String.ofList (textOf absolute stack)) = String.ofList (textOf absolute stack) := by
  have text : withSlashes (String.ofList (textOf absolute stack)).toList =
      textOf absolute stack := by
    rw [String.toList_ofList, withSlashes_of_not_mem (backslash_not_mem_textOf isStack)]
  rw [normalize, text]
  simp only [head?_textOf isStack, Bool.decide_eq_true, canonicalSegments,
    foldl_pieces_textOf isStack]
  rfl

/-- A resource path is its own resource path. -/
theorem normalize_normalize (path : String) : normalize (normalize path) = normalize path := by
  obtain ⟨absolute, stack, isStack, same⟩ := exists_normalize_eq path
  rw [same, normalize_ofList_textOf isStack]

/-- No two slashes stand next to each other in a resource path. -/
theorem not_slashes_infix_normalize (path : String) :
    ¬['/', '/'] <:+: (normalize path).toList := by
  rintro ⟨before, after, shape⟩
  obtain ⟨absolute, stack, isStack, same⟩ := exists_normalize_eq path
  have text : before ++ '/' :: '/' :: after = textOf absolute stack := by
    rw [same, String.toList_ofList] at shape
    rw [← shape, List.append_assoc]
    rfl
  -- The empty segment between them is neither the first one nor the last.
  have between : ([] : List Char) ∈
      (Text.pieces (· = '/') (textOf absolute stack)).tail.dropLast := by
    rw [← text, Text.pieces_append, Text.pieces, if_pos (by decide),
      List.tail_append_of_ne_nil (Text.pieces_ne_nil _ before),
      List.dropLast_append_of_ne_nil (List.cons_ne_nil _ _),
      List.dropLast_cons_of_ne_nil (Text.pieces_ne_nil _ after)]
    exact List.mem_append_right _ List.mem_cons_self
  have listed : ([] : List Char) ∈ stack := by
    rw [pieces_textOf isStack] at between
    cases absolute <;> by_cases empty : stack = [] <;> simp [empty] at between
    · exact List.dropLast_subset stack (List.mem_of_mem_tail between)
    · exact List.mem_of_mem_tail between
  exact absurd (isStack.isKept_of_mem listed).moves (by decide)

end WebBundle.Path
