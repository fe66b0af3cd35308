import WebBundle.Proofs.Path.Form
import WebBundle.Proofs.Path.Parents
import WebBundle.Proofs.Storage.Parents

/-!
# Paths that lead where their text says

Normalizing a path looks at its text alone. It reads a backslash as a slash and lets `..` take back
the name before it, whereas a walk keeps the backslash in a name and goes up from the place that it
has reached, which lies elsewhere if the name is that of a link. A path without backslashes leads
where its text says if each step up from a link leads back to the directory of the link, and if no
step up stands behind a drive, which it does not take back. A file at such a path is also found at
the normalized path: the beginning of the path may be replaced by the segments that normalization
keeps of it, one segment after the other.
-/

namespace WebBundle

namespace Path

variable {absolute : Bool} {path : String}

theorem Pushes.sublist {segment : List Char} {before after : List (List Char)}
    (pushes : Pushes absolute segment before after) :
    after.reverse.Sublist (before.reverse ++ [segment]) := by
  have same : before.reverse.Sublist (before.reverse ++ [segment]) := List.sublist_append_left _ _
  cases pushes with
  | still | root | drive => exact same
  | name | climb => rw [List.reverse_cons]
  | @back top =>
      refine List.Sublist.trans ?_ same
      rw [List.reverse_cons]
      exact List.sublist_append_left _ _

theorem canonicalSegments_concat (before : List (List Char)) (segment : List Char) :
    canonicalSegments absolute (before ++ [segment]) =
      (pushSegment absolute (canonicalSegments absolute before).reverse segment).reverse := by
  rw [canonicalSegments, canonicalSegments, List.foldl_append, List.reverse_reverse]
  rfl

/-- The segments that are kept are some of those that there are. -/
theorem canonicalSegments_sublist (absolute : Bool) (segments : List (List Char)) :
    (canonicalSegments absolute segments).Sublist segments := by
  induction segments using List.reverseRecOn with
  | nil => exact List.Sublist.refl _
  | append_singleton before segment ih =>
      rw [canonicalSegments_concat]
      refine (pushes_pushSegment absolute _ segment).sublist.trans ?_
      rw [List.reverse_reverse]
      exact ih.append_right [segment]

section

variable (free : '\\' ∉ path.toList)

include free

theorem isStack_canonicalSegments {before : List (List Char)}
    (isPrefix : before <+: segments path) :
    IsStack absolute (canonicalSegments absolute before).reverse := by
  rw [canonicalSegments, List.reverse_reverse]
  refine isStack_foldl .nil fun segment listed => ?_
  have inside := Text.not_mem_of_mem_pieces (isPrefix.subset listed)
  exact ⟨fun slash => (inside '/' slash).1 rfl, fun other => free (inside '\\' other).2⟩

theorem normalize_eq_textOf : normalize path = String.ofList
    (textOf (isAbsolute path) (canonicalSegments (isAbsolute path) (segments path)).reverse) := by
  rw [normalize_eq, stackOf, rooted_eq_isAbsolute free, slashed_eq_segments free,
    canonicalSegments, List.reverse_reverse]

theorem isAbsolute_normalize : isAbsolute (normalize path) = isAbsolute path :=
  (isAbsolute_normalize_eq path).trans (rooted_eq_isAbsolute free)

theorem segments_normalize
    (moves : canonicalSegments (isAbsolute path) (segments path) ≠ []) :
    segments (normalize path) = (if isAbsolute path then [[]] else []) ++
      canonicalSegments (isAbsolute path) (segments path) := by
  have isStack : IsStack (isAbsolute path) _ :=
    isStack_canonicalSegments free (List.prefix_refl (segments path))
  rw [segments, normalize_eq_textOf free, String.toList_ofList, pieces_textOf isStack,
    if_neg (mt List.reverse_eq_nil_iff.1 moves), List.reverse_reverse]

/-- Normalizing only leaves something out. -/
theorem normalize_sublist : (normalize path).toList.Sublist path.toList := by
  rw [normalize_eq_textOf free, String.toList_ofList, textOf, List.reverse_reverse]
  cases absolute : isAbsolute path with
  | false =>
      conv => rhs; rw [← intercalate_segments path]
      exact intercalate_sublist (canonicalSegments_sublist false _)
  | true =>
      obtain ⟨rest, text⟩ := List.head?_eq_some_iff.1 (of_decide_eq_true absolute)
      have shape : segments path = [] :: segments (String.ofList rest) := by
        rw [segments, text, Text.pieces, if_pos (by decide), segments, String.toList_ofList]
      have kept := canonicalSegments_sublist true (segments (String.ofList rest))
      have whole := intercalate_segments (String.ofList rest)
      rw [String.toList_ofList] at whole
      rw [text, shape, if_pos rfl]
      conv => rhs; rw [← whole]
      exact (intercalate_sublist kept).cons_cons '/'

end

end Path

namespace Storage

variable {storage : Storage} {links : Nat} {start place : Place} {item : Item} {path : String}

/-! ## Up again from a name -/

/-- A walk that goes on behind a name comes to an item of that name, if this is no link. -/
theorem of_walk_name {step : String} {rest : List String}
    (found : storage.itemAt? start = some .directory) (moves : ¬IsStill step) (notUp : step ≠ "..")
    (noLink : ∀ place target,
      storage.walk false links start [step] ≠ .ok (.taken place (.link target)))
    (ends : storage.walk true links start (step :: rest) = .ok (.taken place item)) :
    IsName step ∧ ∃ item, storage.itemAt? (start ++ [step]) = some item ∧
      ∀ target, item ≠ .link target := by
  by_cases long : nameBound < step.utf8ByteSize
  · rw [walk.eq_def] at ends
    simp only [found, moves, notUp, long, if_true, if_false] at ends
    cases ends
  · have isName : IsName step := ⟨moves, notUp, long⟩
    refine ⟨isName, ?_⟩
    cases below : storage.itemAt? (start ++ [step]) with
    | none =>
        rw [walk.eq_def] at ends
        simp only [found, moves, notUp, long, below, if_false] at ends
        split at ends <;> cases ends
    | some item =>
        refine ⟨item, rfl, ?_⟩
        rintro target rfl
        exact noLink _ target (walk_link_end found isName below rfl)

/-- Up again from a name that is no link a walk is where it was. -/
theorem walk_up_of_noLink {names : List String} {name : String} (moves : ¬IsStill name)
    (notUp : name ≠ "..")
    (noLink : ∀ place target,
      storage.walk false links start (names ++ [name]) ≠ .ok (.taken place (.link target)))
    (above : storage.walk true links start (names ++ [name, ".."]) = .ok (.taken place item)) :
    storage.walk true links start names = .ok (.taken place item) := by
  obtain ⟨before, _, there, isDirectory⟩ := exists_walk_of_append above
  obtain rfl := isDirectory (List.cons_ne_nil _ _)
  have found : storage.itemAt? before = some .directory := stands_of_walk there
  obtain ⟨left, _, onwards⟩ := exists_walk_onwards there
  rw [onwards (by simp)] at noLink above
  obtain ⟨isName, held, below, notLink⟩ := of_walk_name found moves notUp noLink above
  rw [walk_on found isName below notLink] at above
  cases held with
  | directory =>
      rw [walk_up below, List.dropLast_concat, walk_nil found] at above
      exact there.trans above
  | file bytes =>
      rw [walk.eq_def] at above
      simp only [below] at above
      cases above
  | link target => exact absurd rfl (notLink target)

/-- A walk that goes to a name and back leads where it leads without both. -/
theorem walk_back {names rest : List String} {name : String}
    (back : ∀ place item,
      storage.walk true links start (names ++ [name, ".."]) = .ok (.taken place item) →
        storage.walk true links start names = .ok (.taken place item))
    (ends : storage.walk true links start (names ++ name :: ".." :: rest) =
      .ok (.taken place item)) :
    storage.walk true links start (names ++ rest) = .ok (.taken place item) := by
  rw [show names ++ name :: ".." :: rest = (names ++ [name, ".."]) ++ rest by simp] at ends
  obtain ⟨before, _, above, _⟩ := exists_walk_of_append ends
  have there := back _ _ above
  obtain ⟨left, _, onwards⟩ := exists_walk_onwards there
  rw [onwards (by simp)] at above
  obtain ⟨fewer, le, further⟩ := exists_walk_onwards above
  rw [List.append_assoc, onwards (by simp), further (by simp)] at ends
  rw [onwards (by simp)]
  -- The way to the name and back may have followed links.
  exact walk_of_le le ends

/-! ## Where the text of a path leads -/

/-- A walk along some segments from where a path starts. -/
def along (storage : Storage) (follow : Bool) (path : String) (names : List (List Char)) :
    Except Fault Location :=
  storage.walk follow linkBound (if Path.isAbsolute path then [] else storage.workingDirectory)
    (names.map String.ofList)

theorem locate_eq_along (isPath : IsPath path) (follow : Bool) :
    storage.locate follow path = storage.along follow path (Path.segments path) :=
  locate_eq_walk isPath follow

/-- Up again from a name the walk is where it was before the name. -/
def LeadsBack (storage : Storage) (path : String) (names : List (List Char)) (name : List Char) :
    Prop :=
  ∀ place item, storage.along true path (names ++ [name, ['.', '.']]) = .ok (.taken place item) →
    storage.along true path names = .ok (.taken place item)

/-- A path leads where its text says: it has no backslash, a step up from a link leads back to the
directory of the link, and none stands behind a drive. -/
structure IsLexical (storage : Storage) (path : String) : Prop where
  noBackslash : '\\' ∉ path.toList
  back (before : List (List Char)) (up : before ++ [['.', '.']] <+: Path.segments path)
    (names : List (List Char)) (name : List Char)
    (kept : Path.canonicalSegments (Path.isAbsolute path) before = names ++ [name])
    (place : Place) (target : String)
    (link : storage.along false path (names ++ [name]) = .ok (.taken place (.link target))) :
    storage.LeadsBack path names name
  noDrive (before : List (List Char)) (up : before ++ [['.', '.']] <+: Path.segments path)
    (name : List Char) (kept : Path.canonicalSegments (Path.isAbsolute path) before = [name]) :
    name.getLast? ≠ some ':'

theorem along_back {names rest : List (List Char)} {name : List Char}
    (back : storage.LeadsBack path names name)
    (ends : storage.along true path (names ++ name :: ['.', '.'] :: rest) =
      .ok (.taken place item)) :
    storage.along true path (names ++ rest) = .ok (.taken place item) := by
  rw [along, List.map_append] at ends ⊢
  refine walk_back (fun place item above => back place item ?_) ends
  rw [along, List.map_append]
  exact above

/-- A segment may be pushed on the segments that are kept before the walk goes on, unless it is a
step up that leads elsewhere than back or stands behind a drive. -/
theorem along_of_pushes {stack after rest : List (List Char)} {segment : List Char}
    (pushes : Path.Pushes (Path.isAbsolute path) segment stack after)
    (isStack : Path.IsStack (Path.isAbsolute path) stack)
    (back : segment = ['.', '.'] → ∀ top below, stack = top :: below → top ≠ ['.', '.'] →
      storage.LeadsBack path below.reverse top)
    (noDrive : segment = ['.', '.'] → ∀ name, stack = [name] → name.getLast? ≠ some ':')
    (ends : storage.along true path (stack.reverse ++ segment :: rest) =
      .ok (.taken place item)) :
    storage.along true path (after.reverse ++ rest) = .ok (.taken place item) := by
  cases pushes with
  | still still =>
      refine walk_of_thins ?_ ends
      rw [List.map_append, List.map_append, List.map_cons]
      exact (Thins.skip ((Path.isStill_ofList segment).trans still) (.refl _)).append_left _
  | name | climb =>
      rw [List.reverse_cons, List.append_assoc]
      exact ends
  | root up absolute =>
      -- The root is above itself.
      rw [along, if_pos absolute] at ends ⊢
      rw [up] at ends
      exact (walk_up rfl).symm.trans ends
  | drive up colon => exact absurd colon (noDrive up _ rfl)
  | @back top _ up notUp =>
      have notUp : top ≠ ['.', '.'] := by
        intro isUp
        cases isStack with
        | cons _ onlyUp _ => exact notUp (onlyUp isUp).1 isUp
      refine along_back (back up top after rfl notUp) ?_
      simpa [up] using ends

namespace IsLexical

variable (lexical : storage.IsLexical path)

include lexical

theorem leadsBack {before names : List (List Char)} {name : List Char}
    (up : before ++ [['.', '.']] <+: Path.segments path)
    (kept : Path.canonicalSegments (Path.isAbsolute path) before = names ++ [name])
    (notUp : name ≠ ['.', '.']) : storage.LeadsBack path names name := by
  by_cases linked : ∃ place target,
      storage.along false path (names ++ [name]) = .ok (.taken place (.link target))
  · obtain ⟨place, target, link⟩ := linked
    exact lexical.back before up names name kept place target link
  · intro place item above
    have isStack : Path.IsStack (Path.isAbsolute path) _ :=
      Path.isStack_canonicalSegments lexical.noBackslash
        ((List.prefix_append before _).trans up)
    have isKept := isStack.isKept_of_mem (List.mem_reverse.2 (kept ▸ List.mem_concat_self))
    have moves : ¬IsStill (String.ofList name) := by
      rw [IsStill, Path.isStill_ofList, isKept.moves]
      exact Bool.false_ne_true
    rw [along, List.map_append] at above
    refine walk_up_of_noLink moves (fun same => notUp (String.ofList_injective same)) ?_ above
    intro place' target link
    exact linked ⟨place', target, by rw [along, List.map_append]; exact link⟩

/-- The beginning of a path may be replaced by the segments that are kept of it. -/
theorem along_canonicalSegments {before rest : List (List Char)}
    (split : Path.segments path = before ++ rest)
    (ends : storage.along true path (Path.segments path) = .ok (.taken place item)) :
    storage.along true path (Path.canonicalSegments (Path.isAbsolute path) before ++ rest) =
      .ok (.taken place item) := by
  induction before using List.reverseRecOn generalizing rest with
  | nil =>
      rw [split] at ends
      exact ends
  | append_singleton before segment ih =>
      rw [List.append_assoc, List.singleton_append] at split
      have isPrefix : before ++ [segment] <+: Path.segments path := by
        rw [split]
        exact ⟨rest, by simp⟩
      have isStack : Path.IsStack (Path.isAbsolute path) _ :=
        Path.isStack_canonicalSegments lexical.noBackslash
          ((List.prefix_append before [segment]).trans isPrefix)
      rw [Path.canonicalSegments_concat]
      refine along_of_pushes (Path.pushes_pushSegment _ _ segment) isStack ?_ ?_ ?_
      · rintro rfl top below isTop notUp
        have kept := congrArg List.reverse isTop
        rw [List.reverse_reverse, List.reverse_cons] at kept
        exact lexical.leadsBack isPrefix kept notUp
      · rintro rfl name alone
        exact lexical.noDrive before isPrefix name (by simpa using alone)
      · rw [List.reverse_reverse]
        exact ih split

/-- A file at a path is the one at the normalized path. -/
theorem locate_normalize {bytes : ByteArray}
    (ends : storage.locate true path = .ok (.taken place (.file bytes))) :
    storage.locate true (Path.normalize path) = .ok (.taken place (.file bytes)) := by
  have isPath := isPath_of_locate ends
  have free := lexical.noBackslash
  rw [locate_eq_along isPath] at ends
  have kept := lexical.along_canonicalSegments (List.append_nil _).symm ends
  rw [List.append_nil] at kept
  have moves : Path.canonicalSegments (Path.isAbsolute path) (Path.segments path) ≠ [] := by
    intro nothing
    obtain ⟨_, _, begins, isDirectory⟩ := @exists_walk_of_append _ _ _ _ _ [] _ ends
    obtain rfl := isDirectory (by simp [Path.segments, Text.pieces_ne_nil])
    rw [nothing] at kept
    cases begins.symm.trans kept
  obtain ⟨first, others, shape⟩ := List.exists_cons_of_ne_nil moves
  have nonempty : Path.normalize path ≠ "" := by
    refine Path.ne_empty_of_moves ((Path.segments_normalize free moves).trans (by rw [shape])) ?_
    have isStack : Path.IsStack (Path.isAbsolute path) _ :=
      Path.isStack_canonicalSegments free (List.prefix_refl (Path.segments path))
    exact (isStack.isKept_of_mem (List.mem_reverse.2 (shape ▸ List.mem_cons_self))).moves
  rw [locate_eq_along (isPath.of_shorter nonempty (Path.normalize_sublist free)), along,
    Path.segments_normalize free moves, Path.isAbsolute_normalize free, List.map_append]
  rw [along] at kept
  cases absolute : Path.isAbsolute path with
  | false =>
      rw [absolute] at kept
      exact kept
  | true =>
      rw [absolute] at kept
      exact (walk_still rfl rfl).trans kept

end IsLexical

end Storage

end WebBundle
