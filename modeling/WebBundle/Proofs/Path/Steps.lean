import Mathlib.Data.List.Basic
import WebBundle.Proofs.Path.Canonical
import WebBundle.Storage.Basic

/-!
# Steps of joined paths

A relative path that is put below another one is walked behind it. Names that are put below a path
one after the other lead where they lead together, and leaving some of them out makes no path
longer.
-/

namespace WebBundle

namespace Path

theorem segments_ofList_intercalate {names : List (List Char)} (nonempty : names ≠ [])
    (noSlash : ∀ name ∈ names, '/' ∉ name) :
    segments (String.ofList (List.intercalate ['/'] names)) = names := by
  rw [segments, String.toList_ofList, Text.pieces_eq_splitOn]
  exact List.splitOn_intercalate '/' noSlash nonempty

theorem segments_ofList {name : List Char} (noSlash : '/' ∉ name) :
    segments (String.ofList name) = [name] := by
  have alone : List.intercalate ['/'] [name] = name := by simp
  have shape := @segments_ofList_intercalate [name] (List.cons_ne_nil _ _) (by simpa using noSlash)
  rwa [alone] at shape

theorem intercalate_segments (path : String) :
    List.intercalate ['/'] (segments path) = path.toList := by
  rw [segments, Text.pieces_eq_splitOn]
  exact List.intercalate_splitOn '/'

theorem intercalate_sublist {names others : List (List Char)} (sublist : names.Sublist others) :
    (List.intercalate ['/'] names).Sublist (List.intercalate ['/'] others) := by
  induction sublist with
  | slnil => exact List.Sublist.refl _
  | @cons names others name sublist ih =>
      cases others with
      | nil =>
          obtain rfl := List.sublist_nil.1 sublist
          exact List.nil_sublist _
      | cons other others =>
          rw [List.intercalate_cons_cons]
          exact List.sublist_append_of_sublist_right ih
  | @cons_cons names others name sublist ih =>
      cases others with
      | nil =>
          obtain rfl := List.sublist_nil.1 sublist
          exact List.Sublist.refl _
      | cons other others =>
          rw [List.intercalate_cons_cons]
          cases names with
          | nil =>
              rw [List.intercalate_singleton, List.append_assoc]
              exact List.sublist_append_left _ _
          | cons first names =>
              rw [List.intercalate_cons_cons]
              exact List.Sublist.append (List.Sublist.refl _) ih

theorem isAbsolute_intercalate {names : List (List Char)}
    (areNames : ∀ name ∈ names, name ≠ [] ∧ '/' ∉ name) :
    isAbsolute (String.ofList (List.intercalate ['/'] names)) = false := by
  cases names with
  | nil => rfl
  | cons name names =>
      obtain ⟨nonempty, noSlash⟩ := areNames name List.mem_cons_self
      have begins : (List.intercalate ['/'] (name :: names)).head? = name.head? := by
        cases names with
        | nil => rw [List.intercalate_singleton]
        | cons next names =>
            rw [List.intercalate_cons_cons, List.append_assoc,
              List.head?_append_of_ne_nil _ nonempty]
      rw [isAbsolute, String.toList_ofList, begins]
      exact decide_eq_false fun first => noSlash (List.mem_of_head? first)

theorem isStill_ofList (segment : List Char) :
    (String.ofList segment = "" || String.ofList segment = ".") = isStill segment := by
  have empty : String.ofList segment = "" ↔ segment = [] := by
    rw [← String.toList_inj, String.toList_ofList, String.toList_empty]
  have dot : String.ofList segment = "." ↔ segment = ['.'] := by
    rw [← String.toList_inj, String.toList_ofList]
    rfl
  simp only [isStill, empty, dot]
  cases segment with
  | nil => rfl
  | cons c segment => rfl

/-! ## Relative paths below another one -/

section

variable {base path : String}

/-- What stands before a relative path that is put below another one. -/
def front (base : String) : List Char :=
  if base.isEmpty || base.toList.getLast? = some '/' then base.toList else base.toList ++ ['/']

theorem toList_join (relative : isAbsolute path = false) :
    (join base path).toList = front base ++ path.toList := by
  by_cases empty : base.isEmpty = true
  · obtain rfl := String.isEmpty_iff.1 empty
    simp [join, front]
  · by_cases slashed : base.toList.getLast? = some '/'
    · simp [join, front, relative, empty, slashed]
    · simp [join, front, relative, empty, slashed]

theorem front_sublist {other : String} (sublist : base.toList.Sublist other.toList) :
    (front base).Sublist (front other) := by
  by_cases empty : other = ""
  · obtain rfl : base = "" := by
      rw [← String.toList_eq_nil_iff, ← List.sublist_nil]
      simpa [empty] using sublist
    exact List.nil_sublist _
  · obtain ⟨before, shape⟩ : ∃ before, front other = before ++ ['/'] := by
      rw [front]
      split
      next ends =>
        rw [Bool.or_eq_true, String.isEmpty_iff, decide_eq_true_eq] at ends
        exact List.getLast?_eq_some_iff.1 (ends.resolve_left empty)
      next => exact ⟨other.toList, rfl⟩
    have inside : base.toList.Sublist (front other) := by
      refine sublist.trans ?_
      rw [front]
      split
      next => exact List.Sublist.refl _
      next => exact List.sublist_append_left _ _
    rw [front]
    split
    next => exact inside
    next ends =>
      -- The slash behind the base is the one at the end.
      rw [shape, List.sublist_append_iff] at inside
      obtain ⟨first, last, split, isFirst, isLast⟩ := inside
      rcases List.sublist_singleton.1 isLast with rfl | rfl
      · rw [shape, split, List.append_nil]
        exact isFirst.append_right ['/']
      · rw [split] at ends
        simp at ends

theorem isAbsolute_join (relative : isAbsolute path = false) :
    isAbsolute (join base path) = isAbsolute base := by
  by_cases empty : base.isEmpty = true
  · obtain rfl := String.isEmpty_iff.1 empty
    simpa [join, isAbsolute] using relative
  · have begins : base.toList ≠ [] := by simpa [String.isEmpty_iff] using empty
    rw [isAbsolute, toList_join relative, front, isAbsolute]
    split
    next => rw [List.head?_append_of_ne_nil _ begins]
    next => rw [List.append_assoc, List.head?_append_of_ne_nil _ begins]

/-- A path below a path below another one. -/
theorem join_join {name : List Char} (nonempty : name ≠ []) (noSlash : '/' ∉ name)
    (relative : isAbsolute path = false) :
    join (join base (String.ofList name)) path =
      join base (String.ofList (name ++ '/' :: path.toList)) := by
  have isName : isAbsolute (String.ofList name) = false := by
    cases name with
    | nil => rfl
    | cons c name =>
        have other : c ≠ '/' := fun same => noSlash (same ▸ List.mem_cons_self)
        simpa [isAbsolute] using other
  have isLonger : isAbsolute (String.ofList (name ++ '/' :: path.toList)) = false := by
    rw [isAbsolute, String.toList_ofList, List.head?_append_of_ne_nil _ nonempty]
    simpa [isAbsolute] using isName
  have between : front (join base (String.ofList name)) = front base ++ name ++ ['/'] := by
    have text : (join base (String.ofList name)).toList = front base ++ name := by
      rw [toList_join isName, String.toList_ofList]
    have ends : (front base ++ name).getLast? ≠ some '/' := by
      rw [List.getLast?_append_of_ne_nil _ nonempty]
      exact fun last => noSlash (List.mem_of_getLast? last)
    have begins : (join base (String.ofList name)).isEmpty = false := by
      rw [← Bool.not_eq_true, String.isEmpty_iff, ← String.toList_eq_nil_iff, text]
      simp [nonempty]
    rw [front, text, begins, Bool.false_or, if_neg (by simpa only [decide_eq_true_eq] using ends)]
  rw [← String.toList_inj, toList_join relative, toList_join isLonger, between,
    String.toList_ofList]
  simp only [List.append_assoc, List.cons_append, List.nil_append]

/-- Names below a path, one after the other, are below it together. -/
theorem foldl_join {names : List (List Char)} (nonempty : names ≠ [])
    (areNames : ∀ name ∈ names, name ≠ [] ∧ '/' ∉ name) :
    names.foldl (fun path name => join path (String.ofList name)) base =
      join base (String.ofList (List.intercalate ['/'] names)) := by
  induction names generalizing base with
  | nil => exact absurd rfl nonempty
  | cons name names ih =>
      cases names with
      | nil => rw [List.intercalate_singleton, List.foldl_cons, List.foldl_nil]
      | cons next names =>
          obtain ⟨isLong, noSlash⟩ := areNames name List.mem_cons_self
          have others : ∀ other ∈ next :: names, other ≠ [] ∧ '/' ∉ other :=
            fun other listed => areNames other (List.mem_cons_of_mem name listed)
          rw [List.foldl_cons, ih (List.cons_ne_nil next names) others,
            join_join isLong noSlash (isAbsolute_intercalate others), String.toList_ofList,
            List.intercalate_cons_cons, List.append_assoc]
          rfl

/-- The steps that lead to where a path is put below another one. -/
def frontSegments (base : String) : List (List Char) :=
  (Text.pieces (· = '/') (front base)).dropLast

theorem segments_join (relative : isAbsolute path = false) :
    segments (join base path) = frontSegments base ++ segments path := by
  have shape : front base = [] ∨ ∃ before, front base = before ++ ['/'] := by
    unfold front
    split
    next ends =>
      rw [Bool.or_eq_true, String.isEmpty_iff, decide_eq_true_eq] at ends
      cases ends with
      | inl empty => exact .inl (String.toList_eq_nil_iff.2 empty)
      | inr slashed => exact .inr (List.getLast?_eq_some_iff.1 slashed)
    next => exact .inr ⟨base.toList, rfl⟩
  rw [segments, toList_join relative, frontSegments]
  rcases shape with nothing | ⟨before, ends⟩
  · rw [nothing]
    rfl
  · rw [ends, List.append_assoc, List.singleton_append, Text.pieces_append, Text.pieces_append]
    simp [Text.pieces, segments]

/-- The steps to what lies below a path are its own, but for an empty one at its end. -/
theorem exists_segments_eq (nonempty : base ≠ "") : ∃ more,
    segments base = frontSegments base ++ more ∧ ∀ segment ∈ more, isStill segment = true := by
  have notEmpty : base.isEmpty = false := by
    rw [← Bool.not_eq_true, String.isEmpty_iff]
    exact nonempty
  rw [frontSegments, front, notEmpty, Bool.false_or]
  split
  next slashed =>
    obtain ⟨before, ends⟩ := List.getLast?_eq_some_iff.1 (of_decide_eq_true slashed)
    refine ⟨[[]], ?_, by decide⟩
    rw [segments, ends, Text.pieces_append]
    simp [Text.pieces]
  next =>
    refine ⟨[], ?_, by simp⟩
    rw [Text.pieces_append]
    simp [Text.pieces, segments]

end

/-! ## Paths of names -/

/-- A relative path of names. -/
def IsNormal (path : String) : Prop :=
  ∀ segment ∈ segments path, isStill segment = false ∧ segment ≠ ['.', '.']

instance (path : String) : Decidable (IsNormal path) :=
  inferInstanceAs (Decidable (∀ segment ∈ segments path, _ ∧ _))

theorem isAbsolute_of_isNormal {path : String} (isNormal : IsNormal path) :
    isAbsolute path = false := by
  rw [isAbsolute]
  cases text : path.toList with
  | nil => rfl
  | cons c others =>
      refine decide_eq_false fun slash => ?_
      have slash : c = '/' := Option.some.inj slash
      have listed : [] ∈ segments path := by
        rw [segments, text, Text.pieces, slash]
        exact List.mem_cons_self
      cases (isNormal [] listed).1

end Path

end WebBundle
