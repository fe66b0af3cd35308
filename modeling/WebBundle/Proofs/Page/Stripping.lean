import Mathlib
import WebBundle.Chunk.Text
import WebBundle.Page.Minify
import WebBundle.Proofs.Text.Pieces
import WebBundle.Proofs.Text.Replacing

/-!
# Stripped text

Stripping keeps the lines that are not blank, each without the blanks at its end and with a line
feed behind it, so a stripped text is stripped already. A text grows by at most the last line feed,
and not at all if it ends with one, as every written chunk and the runtime do.
-/

namespace WebBundle

open Text

namespace Page

variable {text : List Char}

/-! ## The lines that stay -/

theorem solidLines_eq (text : List Char) :
    solidLines text = ((lines text).filter fun line => !line.all isBlank).map trimEnd := by
  have blank : ((fun line : List Char => !line.isEmpty) ∘ trimEnd) =
      fun line => !line.all isBlank := by
    funext line
    rw [Function.comp_apply, Bool.not_inj_iff, Bool.eq_iff_iff, List.isEmpty_iff,
      trimEnd_eq_nil_iff]
  rw [solidLines, ← trimmed_lines, List.filter_map, blank]

theorem toList_stripBlank (text : String) :
    (stripBlank text).toList = (solidLines text.toList).flatMap fun line => line ++ ['\n'] := by
  rw [stripBlank, String.toList_ofList]

theorem mem_solidLines {line : List Char} (listed : line ∈ solidLines text) :
    line ≠ [] ∧ ∃ piece ∈ pieces (· = '\n') text, trimEnd piece = line := by
  obtain ⟨trimmed, solid⟩ := List.mem_filter.1 listed
  exact ⟨by simpa using solid, List.mem_map.1 trimmed⟩

theorem lines_stripBlank (text : String) :
    lines (stripBlank text).toList = solidLines text.toList := by
  rw [toList_stripBlank, lines_flatMap]
  intro line listed
  obtain ⟨_, piece, cut, rfl⟩ := mem_solidLines listed
  constructor
  · intro feed
    exact (not_mem_of_mem_pieces cut '\n' ((prefix_trimEnd piece).subset feed)).1 rfl
  · intro ends
    exact absurd (isBlank_of_getLast?_trimEnd ends) (by decide)

theorem stripBlank_stripBlank (text : String) :
    stripBlank (stripBlank text) = stripBlank text := by
  have solid : ∀ line ∈ solidLines text.toList, (!line.all isBlank) = true := by
    intro line listed
    obtain ⟨nonempty, piece, _, rfl⟩ := mem_solidLines listed
    rw [Bool.not_eq_true', Bool.eq_false_iff, ne_eq, ← trimEnd_eq_nil_iff, trimEnd_trimEnd]
    exact nonempty
  have trimmed : ∀ line ∈ solidLines text.toList, trimEnd line = line := by
    intro line listed
    obtain ⟨_, piece, _, rfl⟩ := mem_solidLines listed
    exact trimEnd_trimEnd piece
  have again : solidLines (stripBlank text).toList = solidLines text.toList := by
    rw [solidLines_eq, lines_stripBlank, List.filter_eq_self.2 solid, List.map_congr_left trimmed,
      List.map_id']
  rw [← String.toList_inj, toList_stripBlank, again, toList_stripBlank]

/-! ## Sizes -/

theorem sum_pieces (text : List Char) :
    ((pieces (· = '\n') text).map fun piece => String.utf8Len piece + 1).sum =
      String.utf8Len text + 1 := by
  induction text with
  | nil => rfl
  | cons c text ih =>
      obtain ⟨first, others, cut⟩ := List.exists_cons_of_ne_nil (pieces_ne_nil (· = '\n') text)
      rw [cut, List.map_cons, List.sum_cons] at ih
      rw [pieces, cut]
      by_cases feed : c = '\n'
      · have size : ('\n').utf8Size = 1 := by decide
        subst feed
        simp only [decide_true, if_true, List.map_cons, List.sum_cons, String.utf8Len_cons,
          String.utf8Len_nil, size]
        omega
      · simp only [feed, decide_false, if_false, Bool.false_eq_true, List.map_cons, List.sum_cons,
          String.utf8Len_cons]
        omega

theorem utf8Len_flatMap (written : List (List Char)) :
    String.utf8Len (written.flatMap fun line => line ++ ['\n']) =
      (written.map fun line => String.utf8Len line + 1).sum := by
  induction written with
  | nil => rfl
  | cons line written ih =>
      have size : String.utf8Len ['\n'] = 1 := by decide
      rw [List.flatMap_cons, String.utf8Len_append, ih, String.utf8Len_append, size, List.map_cons,
        List.sum_cons]

theorem utf8Len_solid_le (text : List Char) :
    String.utf8Len ((solidLines text).flatMap fun line => line ++ ['\n']) ≤
      String.utf8Len text + 1 := by
  rw [utf8Len_flatMap, ← sum_pieces]
  have fewer : (solidLines text).Sublist ((pieces (· = '\n') text).map trimEnd) :=
    List.filter_sublist
  calc ((solidLines text).map fun line => String.utf8Len line + 1).sum
      ≤ (((pieces (· = '\n') text).map trimEnd).map fun line => String.utf8Len line + 1).sum :=
        (fewer.map _).sum_le_sum fun _ _ => Nat.zero_le _
    _ = ((pieces (· = '\n') text).map fun piece => String.utf8Len (trimEnd piece) + 1).sum := by
        rw [List.map_map]
        rfl
    _ ≤ ((pieces (· = '\n') text).map fun piece => String.utf8Len piece + 1).sum :=
        List.sum_le_sum fun piece _ => Nat.succ_le_succ
          (String.utf8Len_le_of_prefix (prefix_trimEnd piece))

/-- A text that ends with a line feed does not grow. -/
theorem size_stripBlank_le {text : String} (ends : '\n' ∈ text.toList.getLast?) :
    (stripBlank text).utf8ByteSize ≤ text.utf8ByteSize := by
  obtain ⟨before, whole⟩ := List.getLast?_eq_some_iff.1 ends
  have feedless : solidLines (before ++ ['\n']) = solidLines before := by
    rw [solidLines, pieces_append, List.map_append, List.filter_append, solidLines]
    exact List.append_nil _
  have size : String.utf8Len text.toList = String.utf8Len before + 1 := by
    rw [whole, String.utf8Len_append]
    rfl
  rw [← String.ofList_toList (s := text), ← String.ofList_toList (s := stripBlank _)]
  rw [String.utf8ByteSize_ofList, String.utf8ByteSize_ofList, String.ofList_toList,
    toList_stripBlank, size, whole, feedless]
  exact utf8Len_solid_le before

end Page

/-! ## Texts that end with a line feed -/

namespace Chunk

theorem getLast?_text (graph : ModuleGraph) (chunks : ChunkGraph) (chunk : Chunk) :
    (text graph chunks chunk).toList.getLast? = some '\n' := by
  rw [text, String.toList_append, List.getLast?_append]
  rfl

theorem getLast?_runtimeText (publicPath : String) (files : List (String × String)) :
    (runtimeText publicPath files).toList.getLast? = some '\n' := by
  obtain ⟨before, template⟩ : ∃ before, runtimeTemplate = before ++ ['\n'] := by
    have lines : runtimeLines = runtimeLines.dropLast ++ ["\x7d)();"] := rfl
    refine ⟨(runtimeLines.dropLast.flatMap fun line => line.toList ++ ['\n']) ++ "\x7d)();".toList,
      ?_⟩
    rw [runtimeTemplate, lines, List.flatMap_append, List.append_assoc]
    rfl
  have nonempty : "__PUBLIC_PATH__".toList ≠ [] := by decide
  have nonempty' : "__CHUNK_FILES__".toList ≠ [] := by decide
  have nonempty'' : "__QUEUE__".toList ≠ [] := by decide
  rw [runtimeText, String.toList_ofList, template, replaceAll_concat nonempty (by decide),
    replaceAll_concat nonempty' (by decide), replaceAll_concat nonempty'' (by decide),
    List.getLast?_concat]

end Chunk

namespace Page

/-- Stripping leaves the lines that are not blank, trimmed and each with a line feed, once and for
all, and makes no written text longer. -/
structure Projects (strip : String → String) : Prop where
  lines (text : String) : List.Forall₂ IsTrimmed
    ((Text.lines text.toList).filter fun line => !line.all isBlank)
    (Text.lines (strip text).toList)
  feeds (text : String) : (strip text).toList =
    (Text.lines (strip text).toList).flatMap fun line => line ++ ['\n']
  again (text : String) : strip (strip text) = strip text
  chunk (graph : ModuleGraph) (chunks : ChunkGraph) (chunk : Chunk) :
    (strip (Chunk.text graph chunks chunk)).utf8ByteSize ≤
      (Chunk.text graph chunks chunk).utf8ByteSize
  runtime (publicPath : String) (files : List (String × String)) :
    (strip (Chunk.runtimeText publicPath files)).utf8ByteSize ≤
      (Chunk.runtimeText publicPath files).utf8ByteSize

theorem projects_stripBlank : Projects stripBlank where
  lines text := by
    rw [lines_stripBlank, solidLines_eq, List.forall₂_map_right_iff, List.forall₂_same]
    exact fun line _ => isTrimmed_trimEnd line
  feeds text := by rw [lines_stripBlank, toList_stripBlank]
  again := stripBlank_stripBlank
  chunk graph chunks chunk := size_stripBlank_le (Chunk.getLast?_text graph chunks chunk)
  runtime publicPath files := size_stripBlank_le (Chunk.getLast?_runtimeText publicPath files)

end Page

end WebBundle
