import Mathlib.Data.Prod.Lex
import Mathlib.Data.String.Basic
import Mathlib.Order.WithBot
import WebBundle.Proofs.Sorting

/-!
# Reports and the order of emission

The stages of a build run side by side and emit their diagnostics in any order. A sorted report is
in the order of the ranks of its diagnostics, and a rank is the severity, the code, the location and
the message. Diagnostics that differ in nothing else than their notes or suggestions have one rank
and stay in the order of their emission, so that reports of the same diagnostics can differ.
-/

namespace WebBundle

theorem Severity.weight_injective : Function.Injective Severity.weight := by
  intro severity other same
  cases severity <;> cases other <;> first | rfl | cases same

theorem Category.letter_injective : Function.Injective Category.letter := by
  intro category other same
  cases category <;> cases other <;> first | rfl | cases same

namespace Code

/-- Zeros in front do not change what number the digits spell. -/
theorem ofDigitChars_padded (n : Nat) : Nat.ofDigitChars 10 (padded n) 0 = n := by
  simp only [padded, Nat.toString_eq_repr, Nat.toList_repr, Nat.ofDigitChars_append,
    Nat.ofDigitChars_replicate_zero]
  simp

theorem padded_injective : Function.Injective padded := by
  intro n m same
  rw [← ofDigitChars_padded n, same, ofDigitChars_padded]

/-- Codes are known by how they are written. -/
theorem text_injective : Function.Injective text := by
  rintro ⟨category, number⟩ ⟨category', number'⟩ same
  obtain ⟨letters, digits⟩ := List.cons.inj same
  obtain rfl := Category.letter_injective letters
  obtain rfl := padded_injective digits
  rfl

end Code

/-- A missing text stands below all others. -/
def orBelow : Option String → WithBot String
  | none => ⊥
  | some text => text

theorem orBelow_injective : Function.Injective orBelow := by
  intro first second same
  cases first <;> cases second <;> simp_all [orBelow]

theorem optionalTextLe_iff {first second : Option String} :
    optionalTextLe first second = true ↔ orBelow first ≤ orBelow second := by
  cases first with
  | none => simp [optionalTextLe, orBelow]
  | some first =>
      cases second with
      | none => simp [optionalTextLe, orBelow]
      | some second => simp [optionalTextLe, orBelow, textLe_toList_iff]

section Lexicographic

variable {α β : Type} [PartialOrder α] [Preorder β] {a a' : α} {b b' : β}

theorem toLex_le_iff_of_eq : toLex (a, b) ≤ toLex (a, b') ↔ b ≤ b' := by
  simp [Prod.Lex.toLex_le_toLex]

theorem toLex_le_iff_of_ne (apart : a ≠ a') : toLex (a, b) ≤ toLex (a', b') ↔ a ≤ a' := by
  simp [Prod.Lex.toLex_le_toLex, apart, apart.le_iff_lt]

end Lexicographic

namespace Diagnostic

/-- What a report goes by: the severity, the most severe first, then the code, the location, a
missing one before all others, and the message. -/
def rank (diagnostic : Diagnostic) : ℕᵒᵈ ×ₗ String ×ₗ WithBot String ×ₗ String :=
  toLex (OrderDual.toDual diagnostic.severity.weight, toLex (String.ofList diagnostic.code.text,
    toLex (orBelow diagnostic.location, diagnostic.message)))

/-- A report finds no difference between the two. -/
def Agrees (first second : Diagnostic) : Prop :=
  first.severity = second.severity ∧ first.code = second.code ∧
    first.location = second.location ∧ first.message = second.message

instance (first second : Diagnostic) : Decidable (first.Agrees second) :=
  inferInstanceAs (Decidable (_ ∧ _))

variable {first second : Diagnostic}

theorem rank_eq_iff : first.rank = second.rank ↔ first.Agrees second := by
  simp only [rank, Agrees, toLex_inj, Prod.mk.injEq, OrderDual.toDual_inj,
    Severity.weight_injective.eq_iff, String.ofList_inj,
    Code.text_injective.eq_iff, orBelow_injective.eq_iff]

/-- Two diagnostics are compared by the first part of their ranks in which they differ. -/
theorem comparesBy_rank : ComparesBy le rank := by
  intro first second
  rw [le, rank, rank]
  by_cases severity : first.severity = second.severity
  case neg =>
    have apart : OrderDual.toDual first.severity.weight ≠
        OrderDual.toDual second.severity.weight := fun same =>
      severity (Severity.weight_injective (OrderDual.toDual_inj.1 same))
    rw [if_pos severity, decide_eq_true_eq, toLex_le_iff_of_ne apart, OrderDual.toDual_le_toDual]
  rw [if_neg (not_not.2 severity), severity, toLex_le_iff_of_eq]
  by_cases code : first.code.text = second.code.text
  case neg =>
    have apart : String.ofList first.code.text ≠ String.ofList second.code.text :=
      fun same => code (String.ofList_inj.1 same)
    rw [if_pos code, toLex_le_iff_of_ne apart, ← textLe_toList_iff, String.toList_ofList,
      String.toList_ofList]
  rw [if_neg (not_not.2 code), code, toLex_le_iff_of_eq]
  by_cases location : first.location = second.location
  case neg =>
    have apart := orBelow_injective.ne location
    rw [if_pos location, toLex_le_iff_of_ne apart, optionalTextLe_iff]
  rw [if_neg (not_not.2 location), location, toLex_le_iff_of_eq, textLe_toList_iff]

/-- Sorting keeps no other part of the given order than the one of diagnostics that agree. -/
theorem sorted_eq_iff {before after : List Diagnostic} : sorted before = sorted after ↔
    ∀ diagnostic : Diagnostic,
      before.filter diagnostic.Agrees = after.filter diagnostic.Agrees := by
  have level (diagnostic : Diagnostic) (items : List Diagnostic) :
      (items.filter fun other => other.rank = diagnostic.rank) = items.filter diagnostic.Agrees :=
    List.filter_congr fun other _ => by rw [decide_eq_decide, eq_comm, rank_eq_iff]
  simp only [sorted, comparesBy_rank.mergeSort_eq_iff, level]

end Diagnostic

namespace Sink

/-- Emits one diagnostic after the other. -/
def emitAll (sink : Sink) (diagnostics : List Diagnostic) : Sink := diagnostics.foldl emit sink

theorem held_emitAll (sink : Sink) (diagnostics : List Diagnostic) :
    (sink.emitAll diagnostics).held = sink.held ++ diagnostics := by
  induction diagnostics generalizing sink with
  | nil => simp [emitAll]
  | cons diagnostic diagnostics ih =>
      have first := ih (sink.emit diagnostic)
      simpa [emitAll, emit] using first

theorem sorted_emitAll_eq_iff (sink : Sink) (first second : List Diagnostic) :
    (sink.emitAll first).sorted = (sink.emitAll second).sorted ↔
      ∀ diagnostic : Diagnostic,
        first.filter diagnostic.Agrees = second.filter diagnostic.Agrees := by
  simp only [sorted, Diagnostic.sorted_eq_iff, held_emitAll, List.filter_append,
    List.append_cancel_left_eq]

/-- Where no two different diagnostics agree, those that agree with any one are in every order the
same. -/
theorem filter_eq_of_perm {first second : List Diagnostic} (perm : first.Perm second)
    (apart : ∀ a ∈ first, ∀ b ∈ first, a.Agrees b → a = b) (diagnostic : Diagnostic) :
    first.filter diagnostic.Agrees = second.filter diagnostic.Agrees := by
  have even : ∀ a ∈ first.filter diagnostic.Agrees,
      ∀ b ∈ first.filter diagnostic.Agrees, a = b := by
    intro a member b member'
    obtain ⟨listed, agrees⟩ := List.mem_filter.1 member
    obtain ⟨listed', agrees'⟩ := List.mem_filter.1 member'
    refine apart a listed b listed' (Diagnostic.rank_eq_iff.1 ?_)
    exact (Diagnostic.rank_eq_iff.2 (of_decide_eq_true agrees)).symm.trans
      (Diagnostic.rank_eq_iff.2 (of_decide_eq_true agrees'))
  have parts := perm.filter fun other => decide (diagnostic.Agrees other)
  refine List.Perm.eq_of_pairwise (fun a b _ _ same _ => same) ?_ ?_ parts
  · exact List.pairwise_of_forall_mem_list even
  · refine List.pairwise_of_forall_mem_list fun a member b member' => ?_
    exact even a (parts.mem_iff.2 member) b (parts.mem_iff.2 member')

/-- The sorted reports of one sink after two sequences of emissions. -/
structure SortsEmitted (sink : Sink) (first second : List Diagnostic) : Prop where
  held_eq : (sink.emitAll first).held = sink.held ++ first
  perm : (sink.emitAll first).sorted.Perm (sink.emitAll first).held
  ordered : (sink.emitAll first).sorted.Pairwise fun before after => before.rank ≤ after.rank
  /-- Exactly where the diagnostics that agree come in one order, the reports are the same. -/
  eq_iff : (sink.emitAll first).sorted = (sink.emitAll second).sorted ↔
    ∀ diagnostic : Diagnostic, first.filter diagnostic.Agrees = second.filter diagnostic.Agrees
  /-- Without two different diagnostics that agree the order does not matter. -/
  eq_of_perm : first.Perm second → (∀ a ∈ first, ∀ b ∈ first, a.Agrees b → a = b) →
    (sink.emitAll first).sorted = (sink.emitAll second).sorted

/-- A sorted report holds what the sink holds, in the order of the ranks, and depends on the order
of emission only for diagnostics that agree in all that is compared. -/
theorem sortsEmitted (sink : Sink) (first second : List Diagnostic) :
    SortsEmitted sink first second where
  held_eq := held_emitAll sink first
  perm := List.mergeSort_perm _ _
  ordered := Diagnostic.comparesBy_rank.ascends _
  eq_iff := sorted_emitAll_eq_iff sink first second
  eq_of_perm perm apart :=
    (sorted_emitAll_eq_iff sink first second).2 (filter_eq_of_perm perm apart)

/-- The warning that two files were copied to one path, with a note about one of them. -/
def duplicateImage (note : String) : Diagnostic where
  severity := .warning
  code := .duplicate
  message := "duplicate asset"
  location := some "img/a.png"
  notes := [note]

/-- Two warnings with different notes are reported in the order in which they were emitted. -/
theorem sorted_duplicateImages_ne :
    [duplicateImage "first", duplicateImage "second"].Perm
        [duplicateImage "second", duplicateImage "first"] ∧
      (Sink.emitAll {} [duplicateImage "first", duplicateImage "second"]).sorted ≠
        (Sink.emitAll {} [duplicateImage "second", duplicateImage "first"]).sorted := by
  refine ⟨List.Perm.swap _ _ _, fun same => ?_⟩
  have parts := (sorted_emitAll_eq_iff _ _ _).1 same (duplicateImage "first")
  revert parts
  decide

end Sink

end WebBundle
