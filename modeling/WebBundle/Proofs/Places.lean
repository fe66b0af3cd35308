import Mathlib.Data.List.Forall2
import Mathlib.Data.List.Induction
import Mathlib.Data.List.Nodup
import Mathlib.Data.List.Sort

/-!
# Places

Groups, drafts and chunks are named by their places in a list. Choosing some items of a list gives
the rising list of their places, and the chosen items themselves are what stands at these places.
-/

namespace WebBundle

/-- The places of the items that a test chooses. -/
def places {α : Type} (choose : α → Bool) (items : List α) : List Nat :=
  items.zipIdx.filterMap fun (item, place) => if choose item then some place else none

variable {α β : Type} {choose : α → Bool} {items : List α}

theorem mem_places {place : Nat} :
    place ∈ places choose items ↔ ∃ item, items[place]? = some item ∧ choose item = true := by
  simp only [places, List.mem_filterMap, Prod.exists]
  constructor
  · rintro ⟨item, index, member, chosen⟩
    by_cases accepted : choose item = true
    · simp only [accepted, if_true, Option.some.injEq] at chosen
      subst chosen
      exact ⟨item, List.mk_mem_zipIdx_iff_getElem?.1 member, accepted⟩
    · simp [accepted] at chosen
  · rintro ⟨item, found, accepted⟩
    exact ⟨item, place, List.mk_mem_zipIdx_iff_getElem?.2 found, by simp [accepted]⟩

theorem lt_length_of_mem_places {place : Nat} (member : place ∈ places choose items) :
    place < items.length := by
  obtain ⟨item, found, _⟩ := mem_places.1 member
  exact (List.getElem?_eq_some_iff.1 found).1

theorem pairwise_zipIdx (items : List α) :
    items.zipIdx.Pairwise fun first second => first.2 < second.2 := by
  rw [← List.pairwise_map, List.zipIdx_map_snd]
  exact List.pairwise_lt_range'

theorem pairwise_places : (places choose items).Pairwise (· < ·) := by
  refine List.pairwise_filterMap.2 ((pairwise_zipIdx items).imp ?_)
  rintro ⟨first, i⟩ ⟨second, j⟩ below p chosen q chosen'
  have same : i = p := by by_cases h : choose first <;> simp_all
  have same' : j = q := by by_cases h : choose second <;> simp_all
  exact same ▸ same' ▸ below

theorem nodup_places : (places choose items).Nodup :=
  pairwise_places.imp fun below => Nat.ne_of_lt below

/-- What stands at the chosen places are the chosen items. -/
theorem filterMap_places : (places choose items).filterMap (items[·]?) = items.filter choose := by
  have pieces : ∀ pair ∈ items.zipIdx,
      ((if choose pair.1 then some pair.2 else none).bind (items[·]?)) =
        Option.guard choose pair.1 := by
    rintro ⟨item, place⟩ member
    have found := List.mk_mem_zipIdx_iff_getElem?.1 member
    by_cases accepted : choose item = true
    · simp [accepted, found, Option.guard]
    · simp [accepted, Option.guard]
  calc (places choose items).filterMap (items[·]?)
      = items.zipIdx.filterMap fun pair => Option.guard choose pair.1 := by
        rw [places, List.filterMap_filterMap]
        exact List.filterMap_congr pieces
    _ = (items.zipIdx.map Prod.fst).filterMap (Option.guard choose) := by
        rw [List.filterMap_map]
        rfl
    _ = items.filter choose := by
        rw [List.zipIdx_map_fst, List.filterMap_eq_filter]

/-- If a partial function is defined on a whole list, its results stand where their sources do. -/
theorem getElem?_filterMap_of_isSome {f : α → Option β} (defined : ∀ item ∈ items, (f item).isSome)
    (place : Nat) : (items.filterMap f)[place]? = items[place]?.bind f := by
  induction items generalizing place with
  | nil => rfl
  | cons item items ih =>
      obtain ⟨result, found⟩ := Option.isSome_iff_exists.1 (defined item List.mem_cons_self)
      rw [List.filterMap_cons_some found]
      cases place with
      | zero => simp [found]
      | succ place =>
          simpa using ih (fun other member => defined other (List.mem_cons_of_mem _ member)) place

/-- The chosen item at a place of the shorter list stands at a place of the longer one. -/
theorem getElem?_filter (place : Nat) :
    (items.filter choose)[place]? = (places choose items)[place]?.bind (items[·]?) := by
  rw [← filterMap_places, getElem?_filterMap_of_isSome]
  intro chosen member
  simpa using lt_length_of_mem_places member

theorem places_map {change : β → α} {sources : List β} :
    places choose (sources.map change) = places (fun source => choose (change source)) sources := by
  rw [places, places, List.zipIdx_map, List.filterMap_map]
  rfl

theorem places_append {others : List α} :
    places choose (items ++ others) =
      places choose items ++ (places choose others).map (items.length + ·) := by
  have shifted : others.zipIdx items.length =
      others.zipIdx.map fun pair => (pair.1, items.length + pair.2) := by
    rw [List.zipIdx_eq_map_add]
  rw [places, places, places, List.zipIdx_append, List.filterMap_append, Nat.zero_add, shifted,
    List.filterMap_map, List.map_filterMap]
  congr 1
  refine List.filterMap_congr fun pair _ => ?_
  by_cases chosen : choose pair.1 = true <;> simp [chosen]

/-- What is chosen among the first items comes first. -/
theorem getElem?_places_append {others : List α} {index place : Nat} (inside : place < items.length) :
    (places choose (items ++ others))[index]? = some place ↔
      (places choose items)[index]? = some place := by
  rw [places_append, List.getElem?_append]
  split
  next => rfl
  next beyond =>
    constructor
    · intro found
      obtain ⟨other, _, same⟩ := List.mem_map.1 (List.mem_of_getElem? found)
      omega
    · intro found
      exact absurd (List.getElem?_eq_some_iff.1 found).1 beyond

/-- Where the first items are all chosen, they keep their places. -/
theorem getElem?_places_of_first {count place : Nat}
    (first : ∀ place < count, ∃ item, items[place]? = some item ∧ choose item = true)
    (below : place < count) : (places choose items)[place]? = some place := by
  induction items generalizing count place with
  | nil =>
      obtain ⟨item, found, _⟩ := first place below
      cases found
  | cons item items ih =>
      obtain ⟨head, found, chosen⟩ := first 0 (Nat.zero_lt_of_lt below)
      obtain rfl := Option.some.inj found
      have step : places choose (item :: items) = 0 :: (places choose items).map (1 + ·) := by
        rw [← List.singleton_append, places_append]
        simp [places, chosen]
      rw [step]
      cases place with
      | zero => rfl
      | succ place =>
          have rest : ∀ place < count - 1, ∃ item, items[place]? = some item ∧ choose item = true :=
            fun place inside => first (place + 1) (Nat.add_lt_of_lt_sub inside)
          rw [List.getElem?_cons_succ, List.getElem?_map, ih rest (Nat.lt_sub_of_add_lt below),
            Option.map_some, Nat.add_comm]

/-- Searching a list with its places, where only the items matter. -/
theorem findSome?_zipIdx {f : α × Nat → Option β} {g : α → Option β}
    (same : ∀ place item, items[place]? = some item → f (item, place) = g item) :
    items.zipIdx.findSome? f = items.findSome? g := by
  have results : items.zipIdx.filterMap f = items.zipIdx.filterMap (g ∘ Prod.fst) := by
    refine List.filterMap_congr ?_
    rintro ⟨item, place⟩ member
    exact same place item (List.mk_mem_zipIdx_iff_getElem?.1 member)
  rw [← List.head?_filterMap, results, ← List.filterMap_map, List.zipIdx_map_fst,
    List.head?_filterMap]

/-! ## Lists without repetitions -/

theorem nodup_eraseDups [BEq α] [LawfulBEq α] (items : List α) : items.eraseDups.Nodup := by
  cases items with
  | nil => simp
  | cons item items =>
      rw [List.eraseDups_cons, List.nodup_cons]
      refine ⟨?_, nodup_eraseDups _⟩
      simp [List.mem_eraseDups]
  termination_by items.length
  decreasing_by exact Nat.lt_succ_of_le (List.length_filter_le _ _)

theorem eraseDups_sublist [BEq α] [LawfulBEq α] (items : List α) :
    items.eraseDups.Sublist items := by
  cases items with
  | nil => simp
  | cons item items =>
      rw [List.eraseDups_cons]
      exact List.Sublist.cons_cons item ((eraseDups_sublist _).trans List.filter_sublist)
  termination_by items.length
  decreasing_by exact Nat.lt_succ_of_le (List.length_filter_le _ _)

/-- An item that is met for the first time stays behind what was met before it. -/
theorem exists_eraseDups_eq [BEq α] [LawfulBEq α] {before after : List α} {item : α}
    (new : item ∉ before) :
    ∃ rest, (before ++ item :: after).eraseDups = before.eraseDups ++ item :: rest := by
  refine ⟨((after.removeAll before).filter fun other => !other == item).eraseDups, ?_⟩
  rw [List.eraseDups_append, List.cons_removeAll]
  simp [new, List.eraseDups_cons]

theorem eraseDups_append_singleton [DecidableEq α] (items : List α) (item : α) :
    (items ++ [item]).eraseDups =
      if item ∈ items then items.eraseDups else items.eraseDups ++ [item] := by
  rw [List.eraseDups_append]
  by_cases member : item ∈ items
  · rw [if_pos member]
    simp [List.removeAll, member]
  · rw [if_neg member]
    simp [List.removeAll, member, List.eraseDups_cons]

/-- The items of a list without repetitions stand in the order in which they first occur. -/
theorem pairwise_idxOf_eraseDups [DecidableEq α] (items : List α) :
    items.eraseDups.Pairwise fun first second => items.idxOf first < items.idxOf second := by
  induction items using List.reverseRecOn with
  | nil => exact .nil
  | append_singleton items item ih =>
      have kept : items.eraseDups.Pairwise fun first second =>
          (items ++ [item]).idxOf first < (items ++ [item]).idxOf second := by
        refine ih.imp_of_mem fun {first second} member member' before => ?_
        rwa [List.idxOf_append_of_mem (List.mem_eraseDups.1 member),
          List.idxOf_append_of_mem (List.mem_eraseDups.1 member')]
      rw [eraseDups_append_singleton]
      split
      next => exact kept
      next fresh =>
        refine List.pairwise_append.2 ⟨kept, List.pairwise_singleton _ _, ?_⟩
        intro first member last isItem
        obtain rfl := List.mem_singleton.1 isItem
        have occurs : first ∈ items := List.mem_eraseDups.1 member
        rw [List.idxOf_append_of_mem occurs, List.idxOf_append_of_notMem fresh]
        exact Nat.lt_add_right _ (List.idxOf_lt_length_of_mem occurs)

/-! ## Rising lists -/

theorem pairwise_le_mergeSort (ids : List Nat) : ids.mergeSort.Pairwise (· ≤ ·) :=
  List.pairwise_mergeSort' (· ≤ ·) ids

theorem pairwise_lt_of_le_of_nodup {ids : List Nat} (rising : ids.Pairwise (· ≤ ·))
    (nodup : ids.Nodup) : ids.Pairwise (· < ·) :=
  (rising.and nodup).imp fun ⟨le, ne⟩ => Nat.lt_of_le_of_ne le ne

theorem pairwise_lt_mergeSort {ids : List Nat} (nodup : ids.Nodup) :
    ids.mergeSort.Pairwise (· < ·) :=
  pairwise_lt_of_le_of_nodup (pairwise_le_mergeSort ids) (List.nodup_mergeSort.2 nodup)

theorem nodup_of_pairwise_lt {ids : List Nat} (rising : ids.Pairwise (· < ·)) : ids.Nodup :=
  rising.imp fun below => Nat.ne_of_lt below

/-! ## Lists side by side -/

theorem forall₂_of_map_eq {γ : Type} {others : List β} {f : α → γ} {g : β → γ}
    (same : items.map f = others.map g) :
    List.Forall₂ (fun item other => f item = g other) items others := by
  have both : List.Forall₂ Eq (items.map f) (others.map g) := by
    rw [same]
    exact List.forall₂_refl _
  rwa [List.forall₂_map_left_iff, List.forall₂_map_right_iff] at both

theorem map_eq_of_forall₂ {γ : Type} {others : List β} {f : α → γ} {g : β → γ}
    (same : List.Forall₂ (fun item other => f item = g other) items others) :
    items.map f = others.map g := by
  have both : List.Forall₂ Eq (items.map f) (others.map g) := by
    rwa [List.forall₂_map_left_iff, List.forall₂_map_right_iff]
  rwa [List.forall₂_eq_eq_eq] at both

end WebBundle
