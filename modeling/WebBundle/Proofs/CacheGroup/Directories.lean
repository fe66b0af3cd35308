import WebBundle.CacheGroup.Rule
import WebBundle.Proofs.Path.Steps
import WebBundle.Proofs.Text.Pieces
import WebBundle.Proofs.Text.Substring

/-!
# Tests for directories

The tests for a directory and for packages search the text of a resource path for a text between
slashes. The slashes at its ends can only stand where the segments of the resource path end, so what
is found is a run of whole segments, and the last segment, the file, is not in it. No resource path
and no written name is an exception.
-/

namespace WebBundle

namespace CacheGroup

open Text
open WebBundle.Path (canonicalSegments isStack_pieces withSlashes)

/-- The directories that a resource lies in, from the outermost in. What stands before the first
slash, nothing in an absolute path, is none of them, nor is the file. -/
def directoriesOf (resource : List Char) : List (List Char) :=
  (pieces (· = '/') resource).tail.dropLast

/-- The directories that are named, from the outermost in. -/
def stepsOf (name : String) : List (List Char) :=
  pieces (· = '/') (trimBoth '/' (withSlashes name.toList))

/-- The directory that packages lie in. -/
def packageHome : List Char := "node_modules".toList

/-! ## Texts between slashes -/

section

variable {inner resource : List Char}

theorem directoriesOf_between (before inner after : List Char) :
    ∃ outer deeper,
      directoriesOf (before ++ ('/' :: inner ++ ['/']) ++ after) =
        outer ++ pieces (· = '/') inner ++ deeper := by
  have apart : pieces (· = '/') (before ++ ('/' :: inner ++ ['/']) ++ after) =
      pieces (· = '/') before ++ (pieces (· = '/') inner ++ pieces (· = '/') after) := by
    rw [← pieces_append, ← pieces_append]
    simp only [List.cons_append, List.append_assoc, List.nil_append]
  refine ⟨(pieces (· = '/') before).tail, (pieces (· = '/') after).dropLast, ?_⟩
  rw [directoriesOf, apart, List.tail_append_of_ne_nil (pieces_ne_nil _ before),
    ← List.append_assoc, List.dropLast_append_of_ne_nil (pieces_ne_nil _ after)]

/-- A run of directories leaves a segment before it and one behind it. -/
theorem exists_pieces_eq {run : List (List Char)} (some : run ≠ [])
    (inside : run <:+: directoriesOf resource) :
    ∃ outer deeper, outer ≠ [] ∧ deeper ≠ [] ∧
      pieces (· = '/') resource = outer ++ (run ++ deeper) := by
  obtain ⟨outer, deeper, same⟩ := inside
  obtain ⟨first, others, split⟩ := List.exists_cons_of_ne_nil (pieces_ne_nil (· = '/') resource)
  rw [directoriesOf, split, List.tail_cons] at same
  have more : others ≠ [] := by
    rintro rfl
    simp [some] at same
  have ends := List.dropLast_concat_getLast more
  rw [← same, List.append_assoc, List.append_assoc] at ends
  refine ⟨first :: outer, deeper ++ [others.getLast more], by simp, by simp, ?_⟩
  rw [split, List.cons_append, ends]

/-- A text between slashes is in a resource path exactly if its segments are a run of the
directories. -/
theorem slashed_infix_iff :
    '/' :: inner ++ ['/'] <:+: resource ↔ pieces (· = '/') inner <:+: directoriesOf resource := by
  constructor
  · rintro ⟨before, after, rfl⟩
    obtain ⟨outer, deeper, run⟩ := directoriesOf_between before inner after
    exact ⟨outer, deeper, run.symm⟩
  · intro run
    have some := pieces_ne_nil (· = '/') inner
    -- The slashes are those that join the run to the segments before it and behind it.
    obtain ⟨outer, deeper, before, behind, split⟩ := exists_pieces_eq some run
    refine ⟨List.intercalate ['/'] outer, List.intercalate ['/'] deeper, ?_⟩
    rw [← intercalate_pieces '/' resource, split, intercalate_append _ before (by simp [some]),
      intercalate_append _ some behind, intercalate_pieces]
    simp only [List.append_assoc, List.cons_append, List.nil_append]

end

/-- The directories of an absolute resource path are the segments that normalization keeps of it,
but for the last one. -/
theorem directoriesOf_normalize {path : String}
    (absolute : (withSlashes path.toList).head? = some '/') :
    directoriesOf (Path.normalize path).toList =
      (canonicalSegments true (pieces (· = '/') (withSlashes path.toList))).dropLast := by
  have free : ∀ segment ∈ canonicalSegments true (pieces (· = '/') (withSlashes path.toList)),
      '/' ∉ segment := fun segment listed =>
    ((isStack_pieces path).isKept_of_mem (List.mem_reverse.1 listed)).noSlash
  have text : (Path.normalize path).toList = '/' :: List.intercalate ['/']
      (canonicalSegments true (pieces (· = '/') (withSlashes path.toList))) := by
    simp [Path.normalize, absolute]
  rw [directoriesOf, text, pieces, if_pos (decide_eq_true rfl), List.tail_cons]
  cases kept : canonicalSegments true (pieces (· = '/') (withSlashes path.toList)) with
  | nil => rfl
  | cons first others =>
      rw [kept] at free
      rw [pieces_eq_splitOn, List.splitOn_intercalate '/' free (List.cons_ne_nil first others)]

/-! ## What tests accept -/

theorem hasPart_directoryRun_iff {name : String} {resource : List Char} :
    hasPart (directoryRun name) resource = true ↔ stepsOf name <:+: directoriesOf resource :=
  hasPart_iff.trans slashed_infix_iff

theorem packageRun_eq (name : String) :
    packageRun name =
      '/' :: (packageHome ++ '/' :: trimBoth '/' (withSlashes name.toList)) ++ ['/'] := by
  have home : "/node_modules".toList = '/' :: packageHome := by decide
  unfold packageRun directoryRun
  rw [home]
  simp only [List.cons_append, List.append_assoc]

theorem hasPart_packageRun_iff {name : String} {resource : List Char} :
    hasPart (packageRun name) resource = true ↔
      packageHome :: stepsOf name <:+: directoriesOf resource := by
  have lone : pieces (· = '/') packageHome = [packageHome] := by decide
  rw [hasPart_iff, packageRun_eq, slashed_infix_iff, pieces_append, lone]
  rfl

/-- A directory is a run of the directories of a resource, and so is a package behind the directory
of packages. -/
theorem accepts_iff_run (resource : List Char) :
    (∀ name, ∃ test, ResourceTest.ofTest? (.directory name) = some test ∧
      (test.accepts resource = true ↔ stepsOf name <:+: directoriesOf resource)) ∧
    ∀ names, ∃ test, ResourceTest.ofTest? (.packages names) = some test ∧
      (test.accepts resource = true ↔
        ∃ name ∈ names, packageHome :: stepsOf name <:+: directoriesOf resource) := by
  constructor
  · intro name
    refine ⟨_, rfl, ?_⟩
    simp only [ResourceTest.accepts, List.any_cons, List.any_nil, Bool.or_false,
      hasPart_directoryRun_iff]
  · intro names
    refine ⟨_, rfl, ?_⟩
    simp only [ResourceTest.accepts, List.any_map, List.any_eq_true, Function.comp_apply,
      hasPart_packageRun_iff]

example : hasPart (packageRun "react") "/app/node_modules/react-dom/index.js".toList = false := by
  decide

end CacheGroup

end WebBundle
