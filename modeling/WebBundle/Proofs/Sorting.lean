import Mathlib.Data.List.Sort
import Mathlib.Data.String.Basic
import WebBundle.Diagnostic.Order

/-!
# Sorted lists

A sort that compares items by a key lists the items of each key in the order in which they came. A
list that ascends by a key is determined by these parts, so two lists are sorted into the same one
exactly if their parts agree, key by key.

The dictionary order on texts is the order of strings, a linear one. A list that is sorted by a text
therefore ascends, and it does so strictly if no text comes twice. The order of the characters is
written out as `List.Lex`, since lists have more than one `≤`.
-/

namespace WebBundle

/-! ## Sorting by a key -/

section

variable {α κ : Type} [LinearOrder κ]

/-- The comparison of items is the one of their keys. -/
def ComparesBy (le : α → α → Bool) (key : α → κ) : Prop :=
  ∀ first second, le first second = true ↔ key first ≤ key second

section Ascending

variable {key : α → κ} {item other : α} {items others : List α}

/-- The first key of an ascending list is the least one of every list with the same parts. -/
theorem le_of_filter_eq (ascends : (item :: items).Pairwise fun item other => key item ≤ key other)
    (same : ((item :: items).filter fun item => key item = key other) =
      (other :: others).filter fun item => key item = key other) : key item ≤ key other := by
  have kept : other ∈ (item :: items).filter fun item => key item = key other := by
    simp [same]
  rcases List.mem_cons.1 (List.mem_filter.1 kept).1 with rfl | later
  · exact le_refl _
  · exact (List.pairwise_cons.1 ascends).1 other later

/-- Lists that ascend by a key are equal if they have the same items of each key, in one order. -/
theorem eq_of_filter_eq (ascends : items.Pairwise fun item other => key item ≤ key other)
    (ascends' : others.Pairwise fun item other => key item ≤ key other)
    (same : ∀ third, (items.filter fun item => key item = key third) =
      others.filter fun item => key item = key third) : items = others := by
  induction items generalizing others with
  | nil =>
      cases others with
      | nil => rfl
      | cons other others => simpa using same other
  | cons item items ih =>
      cases others with
      | nil => simpa using same item
      | cons other others =>
          have level : key other = key item :=
            le_antisymm (le_of_filter_eq ascends' (same item).symm)
              (le_of_filter_eq ascends (same other))
          have heads := same item
          simp only [List.filter_cons, level, decide_true, if_true, List.cons.injEq] at heads
          obtain ⟨rfl, -⟩ := heads
          refine congrArg (item :: ·) (ih ascends.of_cons ascends'.of_cons fun third => ?_)
          have tails := same third
          by_cases level : key item = key third
          · simpa [level] using tails
          · simpa [level] using tails

end Ascending

namespace ComparesBy

variable {le : α → α → Bool} {key : α → κ} {items first second : List α}

theorem trans (compares : ComparesBy le key) (item other third : α)
    (before : le item other = true) (after : le other third = true) : le item third = true := by
  rw [compares] at *
  exact before.trans after

theorem total (compares : ComparesBy le key) (item other : α) :
    (le item other || le other item) = true := by
  rw [Bool.or_eq_true, compares, compares]
  exact le_total _ _

theorem ascends (compares : ComparesBy le key) (items : List α) :
    (items.mergeSort le).Pairwise fun item other => key item ≤ key other :=
  (List.pairwise_mergeSort compares.trans compares.total items).imp (compares _ _).1

/-- Sorting keeps the items of one key in their order. -/
theorem filter_mergeSort (compares : ComparesBy le key) (items : List α) (k : κ) :
    ((items.mergeSort le).filter fun item => key item = k) =
      items.filter fun item => key item = k := by
  let level := items.filter fun item => key item = k
  have even : level.Pairwise fun item other => le item other = true := by
    apply List.pairwise_of_forall_mem_list
    intro item member other member'
    have at_key : key item = k := by simpa using (List.mem_filter.1 member).2
    have at_key' : key other = k := by simpa using (List.mem_filter.1 member').2
    exact (compares item other).2 (at_key.trans at_key'.symm).le
  have within : level.Sublist (items.mergeSort le) :=
    List.sublist_mergeSort compares.trans compares.total even List.filter_sublist
  have sublist : level.Sublist ((items.mergeSort le).filter fun item => key item = k) := by
    have filtered := within.filter fun item => decide (key item = k)
    simpa only [level, List.filter_filter, Bool.and_self] using filtered
  exact (sublist.eq_of_length ((List.mergeSort_perm items le).filter _).length_eq.symm).symm

/-- Two lists are sorted into the same one exactly if they agree key by key. -/
theorem mergeSort_eq_iff (compares : ComparesBy le key) :
    first.mergeSort le = second.mergeSort le ↔
      ∀ item, (first.filter fun other => key other = key item) =
        second.filter fun other => key other = key item := by
  constructor
  · intro same item
    rw [← compares.filter_mergeSort first, same, compares.filter_mergeSort]
  · intro same
    refine eq_of_filter_eq (compares.ascends first) (compares.ascends second) fun item => ?_
    rw [compares.filter_mergeSort, compares.filter_mergeSort, same]

end ComparesBy

end

/-! ## Sorting by a text -/

theorem textLe_iff_not_lex {first second : List Char} :
    textLe first second = true ↔ ¬List.Lex (fun c d : Char => c < d) second first := by
  fun_induction textLe first second with
  | case1 second => simp
  | case2 => simp
  | case3 x xs y ys ih =>
      rw [List.cons_lex_cons_iff, not_or, not_and, Bool.or_eq_true, Bool.and_eq_true,
        decide_eq_true_eq, decide_eq_true_eq, ih]
      grind

theorem textLe_toList_iff {first second : String} :
    textLe first.toList second.toList = true ↔ first ≤ second :=
  textLe_iff_not_lex

variable {α : Type} (key : α → String)

theorem comparesBy_text :
    ComparesBy (fun first second => textLe (key first).toList (key second).toList) key :=
  fun _ _ => textLe_toList_iff

theorem pairwise_le_of_sorted (items : List α) :
    (items.mergeSort fun first second => textLe (key first).toList (key second).toList).Pairwise
      fun first second => key first ≤ key second :=
  (comparesBy_text key).ascends items

/-- If no text comes twice, a sorted list ascends strictly. -/
theorem pairwise_lt_of_sorted {items : List α} (distinct : (items.map key).Nodup) :
    (items.mergeSort fun first second => textLe (key first).toList (key second).toList).Pairwise
      fun first second => key first < key second := by
  let sorted := items.mergeSort fun first second => textLe (key first).toList (key second).toList
  have same : (sorted.map key).Perm (items.map key) := (List.mergeSort_perm items _).map key
  have apart : sorted.Pairwise fun first second => key first ≠ key second :=
    List.pairwise_map.1 (same.nodup_iff.2 distinct)
  refine ((pairwise_le_of_sorted key items).and apart).imp ?_
  rintro first second ⟨le, ne⟩
  exact String.not_le.1 fun ge => ne (String.le_antisymm le ge)

end WebBundle
