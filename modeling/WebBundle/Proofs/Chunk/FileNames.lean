import Mathlib
import WebBundle.Chunk.FileName
import WebBundle.Config.Reader
import WebBundle.Proofs.Text.Substring

/-!
# File names that tell chunks apart

A pattern is read from the left, and a bracket that opens is closed by the next one that closes. So
a placeholder for the name is one exactly if it stands outside of what earlier brackets enclose. A
pattern with one gives chunks of different names different files: the names are as long as each
other if the file names are, so each piece of the pattern is filled alike. A pattern with none gives
all chunks of a digest one file.
-/

namespace WebBundle.Chunk

/-- Every bracket that a text opens is closed in it. -/
def IsClosed (text : List Char) : Prop := ∀ later, '[' :: later <:+ text → ']' ∈ later

/-- A pattern with a placeholder for the name that no earlier bracket encloses. -/
def FillsName (pattern : List Char) : Prop :=
  ∃ before after, pattern = before ++ "[name]".toList ++ after ∧ IsClosed before

/-- What is between the brackets of a placeholder for the name. -/
def nameSlot : List Char := "name".toList

theorem placeholder_eq : "[name]".toList = '[' :: (nameSlot ++ [']']) := by decide

/-! ## Brackets -/

section

variable {before after slot rest text : List Char}

theorem isClosed_of_not_mem (free : '[' ∉ text) : IsClosed text :=
  fun _ opened => absurd (opened.mem List.mem_cons_self) free

/-- A bracket that closes closes all before it. -/
theorem IsClosed.append (closed : IsClosed after) : IsClosed (before ++ ']' :: after) := by
  intro later opened
  have ends : ']' :: after <:+ before ++ ']' :: after := List.suffix_append _ _
  cases List.suffix_or_suffix_of_suffix opened ends with
  | inl inside =>
      cases List.suffix_cons_iff.1 inside with
      | inl same => simp at same
      | inr behind => exact closed later behind
  | inr around =>
      have member : ']' ∈ '[' :: later := around.mem List.mem_cons_self
      simpa using member

theorem IsClosed.of_suffix (closed : IsClosed text) (ends : after <:+ text) : IsClosed after :=
  fun later opened => closed later (opened.trans ends)

theorem patternPieces_slot {fuel : Nat} (noOpen : '[' ∉ before) (noClose : ']' ∉ slot) :
    patternPieces (fuel + 1) (before ++ '[' :: (slot ++ ']' :: rest)) =
      .plain before :: .slot slot :: patternPieces fuel rest := by
  rw [patternPieces, Text.splitOnce?_of_not_mem noOpen]
  simp only [Text.splitOnce?_of_not_mem noClose]

/-- By induction on the fuel: what earlier brackets enclose is one slot after the other. -/
theorem nameSlot_mem_patternPieces {fuel : Nat} (closed : IsClosed before)
    (enough : before.length < fuel) :
    .slot nameSlot ∈ patternPieces fuel (before ++ '[' :: (nameSlot ++ ']' :: after)) := by
  induction fuel generalizing before with
  | zero => exact absurd enough (Nat.not_lt_zero _)
  | succ fuel ih =>
      by_cases opens : '[' ∈ before
      · obtain ⟨plain, later, rfl, noOpen⟩ := List.eq_append_cons_of_mem opens
        have closes : ']' ∈ later := closed later (List.suffix_append _ _)
        obtain ⟨slot, inner, rfl, noClose⟩ := List.eq_append_cons_of_mem closes
        have regrouped : (plain ++ '[' :: (slot ++ ']' :: inner)) ++
            '[' :: (nameSlot ++ ']' :: after) =
              plain ++ '[' :: (slot ++ ']' :: (inner ++ '[' :: (nameSlot ++ ']' :: after))) := by
          simp
        have closedInner : IsClosed inner :=
          closed.of_suffix ⟨plain ++ '[' :: (slot ++ [']']), by simp⟩
        have enoughInner : inner.length < fuel := by
          simp only [List.length_append, List.length_cons] at enough
          omega
        rw [regrouped, patternPieces_slot noOpen noClose]
        exact List.mem_cons_of_mem _ (List.mem_cons_of_mem _ (ih closedInner enoughInner))
      · have noClose : ']' ∉ nameSlot := by decide
        rw [patternPieces_slot opens noClose]
        exact List.mem_cons_of_mem _ List.mem_cons_self

theorem fillsName_of_mem {fuel : Nat} (member : .slot nameSlot ∈ patternPieces fuel text) :
    FillsName text := by
  induction fuel generalizing text with
  | zero => simp [patternPieces] at member
  | succ fuel ih =>
      rw [patternPieces] at member
      split at member
      next => simp at member
      next before rest opened =>
        split at member
        next => simp at member
        next slot rest closes =>
          obtain ⟨rfl, noOpen⟩ := Text.eq_of_splitOnce? opened
          obtain ⟨rfl, _⟩ := Text.eq_of_splitOnce? closes
          rcases List.mem_cons.1 ((List.mem_cons.1 member).resolve_left nofun) with same | later
          · obtain rfl := PatternPiece.slot.inj same
            refine ⟨before, rest, ?_, isClosed_of_not_mem noOpen⟩
            rw [placeholder_eq]
            simp
          · obtain ⟨inner, after, rfl, closed⟩ := ih later
            refine ⟨before ++ '[' :: slot ++ ']' :: inner, after, ?_, closed.append⟩
            simp

theorem nameSlot_mem_iff :
    .slot nameSlot ∈ patternPieces text.length text ↔ FillsName text := by
  constructor
  · exact fillsName_of_mem
  · rintro ⟨before, after, rfl, closed⟩
    have regrouped : before ++ "[name]".toList ++ after =
        before ++ '[' :: (nameSlot ++ ']' :: after) := by
      rw [placeholder_eq]
      simp
    rw [regrouped]
    refine nameSlot_mem_patternPieces closed ?_
    simp only [List.length_append, List.length_cons]
    omega

end

/-! ## Filled pieces -/

section

variable {digest : ContentDigest} {name other : String} {pieces : List PatternPiece}

theorem fillPiece_nameSlot : fillPiece name digest (.slot nameSlot) = name.toList := by
  rw [fillPiece, fillSlot]
  exact if_pos rfl

/-- The name is in no other piece. -/
theorem fillPiece_eq {piece : PatternPiece} (others : piece ≠ .slot nameSlot) :
    fillPiece name digest piece = fillPiece other digest piece := by
  cases piece with
  | plain => rfl
  | slot text =>
      have notName : text ≠ "name".toList := fun same => others (congrArg PatternPiece.slot same)
      rw [fillPiece, fillPiece, fillSlot, fillSlot, if_neg notName, if_neg notName]

theorem fileName_eq_of_not_mem {pattern : String}
    (absent : .slot nameSlot ∉ patternPieces pattern.toList.length pattern.toList) :
    fileName pattern name digest = fileName pattern other digest := by
  refine congrArg String.ofList (List.flatMap_congr fun piece listed => fillPiece_eq ?_)
  rintro rfl
  exact absent listed

/-- The file name grows with the name, once for every placeholder. -/
theorem exists_length_filled (digest : ContentDigest) (pieces : List PatternPiece) :
    ∃ rest, ∀ name : String, (pieces.flatMap (fillPiece name digest)).length =
      pieces.count (.slot nameSlot) * name.toList.length + rest := by
  induction pieces with
  | nil => exact ⟨0, fun _ => by simp⟩
  | cons piece pieces ih =>
      obtain ⟨rest, lengths⟩ := ih
      by_cases isName : piece = .slot nameSlot
      · refine ⟨rest, fun name => ?_⟩
        rw [isName, List.flatMap_cons, List.length_append, fillPiece_nameSlot, lengths,
          List.count_cons_self, Nat.succ_mul]
        omega
      · refine ⟨(fillPiece "" digest piece).length + rest, fun name => ?_⟩
        rw [List.flatMap_cons, List.length_append, lengths, List.count_cons_of_ne isName,
          @fillPiece_eq digest name "" piece isName]
        omega

theorem length_eq_of_filled (placed : .slot nameSlot ∈ pieces)
    (same : pieces.flatMap (fillPiece name digest) = pieces.flatMap (fillPiece other digest)) :
    name.toList.length = other.toList.length := by
  obtain ⟨rest, lengths⟩ := exists_length_filled digest pieces
  have totals := congrArg List.length same
  rw [lengths, lengths, Nat.add_right_cancel_iff] at totals
  exact Nat.eq_of_mul_eq_mul_left (List.count_pos_iff.2 placed) totals

theorem fillPiece_eq_of_filled (alike : name.toList.length = other.toList.length)
    (same : pieces.flatMap (fillPiece name digest) = pieces.flatMap (fillPiece other digest)) :
    ∀ piece ∈ pieces, fillPiece name digest piece = fillPiece other digest piece := by
  induction pieces with
  | nil => exact nofun
  | cons piece pieces ih =>
      have asLong : (fillPiece name digest piece).length =
          (fillPiece other digest piece).length := by
        by_cases isName : piece = .slot nameSlot
        · rw [isName, fillPiece_nameSlot, fillPiece_nameSlot, alike]
        · rw [fillPiece_eq isName]
      rw [List.flatMap_cons, List.flatMap_cons] at same
      obtain ⟨here, later⟩ := List.append_inj same asLong
      intro filled listed
      cases List.mem_cons.1 listed with
      | inl first => exact first ▸ here
      | inr behind => exact ih later filled behind

end

/-- A pattern tells all names apart exactly if it has a placeholder for the name that no earlier
bracket encloses. Otherwise it tells none apart. -/
theorem fileName_injective_iff (pattern : String) (digest : ContentDigest) :
    ((∀ name other, fileName pattern name digest = fileName pattern other digest → name = other) ↔
      FillsName pattern.toList) ∧
    (¬ FillsName pattern.toList → ∀ name other,
      fileName pattern name digest = fileName pattern other digest) := by
  have blind : ¬ FillsName pattern.toList → ∀ name other,
      fileName pattern name digest = fileName pattern other digest :=
    fun fillsNot _ _ => fileName_eq_of_not_mem (mt nameSlot_mem_iff.1 fillsNot)
  refine ⟨⟨fun apart => ?_, fun fills name other same => ?_⟩, blind⟩
  · by_contra fillsNot
    have same := apart "" "a" (blind fillsNot "" "a")
    exact absurd same (by decide)
  · -- Equal file names are equally long, so are the names, and each piece is filled alike.
    have placed := nameSlot_mem_iff.2 fills
    have filled := String.ofList_injective same
    have here := fillPiece_eq_of_filled (length_eq_of_filled placed filled) filled _ placed
    rw [fillPiece_nameSlot, fillPiece_nameSlot] at here
    exact String.toList_injective here

/-! ## A bracket too many -/

def bracketText : String :=
  "[project]\nname = \"pages\"\n[entry]\na = \"./a.js\"\nb = \"./b.js\"\n" ++
    "[output]\nfilename = \"[[name].js\"\n"

def bracketConfig : Config where
  name := "pages"
  entries := [("a", ["./a.js"]), ("b", ["./b.js"])]
  output := { fileName := "[[name].js" }

/-- The first bracket encloses the second one, so no placeholder is left. -/
theorem fileName_bracketConfig :
    Config.ofText bracketText = .ok bracketConfig ∧
      ∀ digest, fileName bracketConfig.output.fileName "a" digest =
        fileName bracketConfig.output.fileName "b" digest := by
  constructor
  · have read : (Toml.parse? bracketText).bind Config.ofToml? = some bracketConfig := by cbv
    have passed : bracketConfig.check = .ok () := by cbv
    rw [Config.ofText, read]
    simp only [passed]
  · exact fun digest => fileName_eq_of_not_mem (by decide)

end WebBundle.Chunk
