import WebBundle.Chunk.Split
import WebBundle.Proofs.LoadGroup.Folding

/-!
# Parents of drafts

The parents of drafts are drafts of entries and of groups started on demand. An entry has none,
every other draft but the runtime has some, and a rank rises from parents to children. The drafts of
the load groups begin like this, drafts of shared modules and the runtime are added below them, and
dissolving a draft hands its parents to its children, so it stays like this to the end.
-/

namespace WebBundle

namespace Chunk

/-- A draft that may be a parent. -/
def Draft.IsGroup (draft : Draft) : Prop := draft.kind = .entry ∨ draft.kind = .onDemand

/-- A draft with other parents. -/
def Draft.withParents (draft : Draft) (parents : List Nat) : Draft := { draft with parents }

/-- What holds of the parents of drafts at every step of splitting. -/
structure Lineage (drafts : List Draft) : Prop where
  ascending : ∀ draft ∈ drafts, draft.parents.Pairwise (· < ·)
  parent : ∀ draft ∈ drafts, ∀ place ∈ draft.parents,
    ∃ holder, drafts[place]? = some holder ∧ holder.IsGroup
  entry : ∀ draft ∈ drafts, draft.kind = .entry → draft.parents = []
  parented : ∀ draft ∈ drafts, draft.kind = .onDemand ∨ draft.kind = .shared → draft.parents ≠ []
  ranked : ∃ rank : Nat → Nat, ∀ place draft, drafts[place]? = some draft →
    ∀ parent ∈ draft.parents, rank parent < rank place

variable {drafts : List Draft}

theorem Lineage.parent_lt (lineage : Lineage drafts) {draft : Draft} (member : draft ∈ drafts)
    {place : Nat} (isParent : place ∈ draft.parents) : place < drafts.length := by
  obtain ⟨holder, found, _⟩ := lineage.parent draft member place isParent
  exact (List.getElem?_eq_some_iff.1 found).1

theorem Lineage.not_mem_parents (lineage : Lineage drafts) {place : Nat} {draft : Draft}
    (found : drafts[place]? = some draft) : place ∉ draft.parents := by
  obtain ⟨rank, rises⟩ := lineage.ranked
  intro isParent
  exact Nat.lt_irrefl _ (rises place draft found place isParent)

/-- Changing modules does not touch the lineage. -/
theorem Lineage.map (lineage : Lineage drafts) {change : Draft → Draft}
    (kind : ∀ draft, (change draft).kind = draft.kind)
    (parents : ∀ draft, (change draft).parents = draft.parents) :
    Lineage (drafts.map change) := by
  obtain ⟨rank, rises⟩ := lineage.ranked
  constructor
  case ascending =>
    intro changed member
    obtain ⟨draft, listed, rfl⟩ := List.mem_map.1 member
    rw [parents]
    exact lineage.ascending draft listed
  case parent =>
    intro changed member place isParent
    obtain ⟨draft, listed, rfl⟩ := List.mem_map.1 member
    rw [parents] at isParent
    obtain ⟨holder, found, isGroup⟩ := lineage.parent draft listed place isParent
    refine ⟨change holder, by rw [List.getElem?_map, found]; rfl, ?_⟩
    rw [Draft.IsGroup, kind]
    exact isGroup
  case entry =>
    intro changed member
    obtain ⟨draft, listed, rfl⟩ := List.mem_map.1 member
    rw [kind, parents]
    exact lineage.entry draft listed
  case parented =>
    intro changed member
    obtain ⟨draft, listed, rfl⟩ := List.mem_map.1 member
    rw [kind, parents]
    exact lineage.parented draft listed
  case ranked =>
    refine ⟨rank, fun place changed found => ?_⟩
    rw [List.getElem?_map, Option.map_eq_some_iff] at found
    obtain ⟨draft, stands, rfl⟩ := found
    rw [parents]
    exact rises place draft stands

/-- A draft below others: its parents are some of them. -/
structure Below (drafts : List Draft) (draft : Draft) : Prop where
  kind : draft.kind = .shared ∨ draft.kind = .runtime
  ascending : draft.parents.Pairwise (· < ·)
  parent : ∀ place ∈ draft.parents, ∃ holder, drafts[place]? = some holder ∧ holder.IsGroup
  parented : draft.kind = .shared → draft.parents ≠ []

theorem exists_rank_bound (rank : Nat → Nat) (count : Nat) :
    ∃ bound, ∀ place < count, rank place < bound := by
  induction count with
  | zero => exact ⟨0, fun place below => absurd below (Nat.not_lt_zero place)⟩
  | succ count ih =>
      obtain ⟨bound, all⟩ := ih
      refine ⟨max bound (rank count + 1), fun place below => ?_⟩
      rcases Nat.lt_succ_iff_lt_or_eq.1 below with inside | rfl
      · exact Nat.lt_of_lt_of_le (all place inside) (Nat.le_max_left _ _)
      · exact Nat.lt_of_lt_of_le (Nat.lt_succ_self _) (Nat.le_max_right _ _)

/-- Drafts may be added below. They rank above all that were there. -/
theorem Lineage.append (lineage : Lineage drafts) {added : List Draft}
    (below : ∀ draft ∈ added, Below drafts draft) : Lineage (drafts ++ added) := by
  obtain ⟨rank, rises⟩ := lineage.ranked
  obtain ⟨bound, bounded⟩ := exists_rank_bound rank drafts.length
  have stays : ∀ {place : Nat} {holder : Draft}, drafts[place]? = some holder →
      (drafts ++ added)[place]? = some holder := by
    intro place holder found
    rw [List.getElem?_append_left (List.getElem?_eq_some_iff.1 found).1, found]
  have inside : ∀ draft ∈ added, ∀ place ∈ draft.parents, place < drafts.length := by
    intro draft member place isParent
    obtain ⟨holder, found, _⟩ := (below draft member).parent place isParent
    exact (List.getElem?_eq_some_iff.1 found).1
  constructor
  case ascending =>
    intro draft member
    cases List.mem_append.1 member with
    | inl old => exact lineage.ascending draft old
    | inr new => exact (below draft new).ascending
  case parent =>
    intro draft member place isParent
    cases List.mem_append.1 member with
    | inl old =>
        obtain ⟨holder, found, isGroup⟩ := lineage.parent draft old place isParent
        exact ⟨holder, stays found, isGroup⟩
    | inr new =>
        obtain ⟨holder, found, isGroup⟩ := (below draft new).parent place isParent
        exact ⟨holder, stays found, isGroup⟩
  case entry =>
    intro draft member isEntry
    cases List.mem_append.1 member with
    | inl old => exact lineage.entry draft old isEntry
    | inr new => rcases (below draft new).kind with kind | kind <;> simp [kind] at isEntry
  case parented =>
    intro draft member needs
    cases List.mem_append.1 member with
    | inl old => exact lineage.parented draft old needs
    | inr new =>
        cases needs with
        | inl onDemand => rcases (below draft new).kind with kind | kind <;> simp [kind] at onDemand
        | inr shared => exact (below draft new).parented shared
  case ranked =>
    refine ⟨fun place => if place < drafts.length then rank place else bound, ?_⟩
    intro place draft found parent isParent
    by_cases old : place < drafts.length
    · rw [List.getElem?_append_left old] at found
      have parentInside := lineage.parent_lt (List.mem_of_getElem? found) isParent
      simp only [parentInside, old, if_true]
      exact rises place draft found parent isParent
    · rw [List.getElem?_append_right (Nat.le_of_not_lt old)] at found
      have parentInside := inside draft (List.mem_of_getElem? found) parent isParent
      simp only [parentInside, old, if_true, if_false]
      exact bounded parent parentInside

/-! ## Dissolving -/

variable {place : Nat} {inherited parents : List Nat}

theorem replaceParent_of_not_mem (absent : place ∉ parents) :
    replaceParent place inherited parents = parents := by
  simp [replaceParent, absent]

theorem mem_replaceParent_of_mem (present : place ∈ parents) (nodup : parents.Nodup)
    {parent : Nat} :
    parent ∈ replaceParent place inherited parents ↔
      (parent ∈ parents ∧ parent ≠ place) ∨ parent ∈ inherited := by
  simp only [replaceParent, present, if_true, List.mem_mergeSort, List.mem_append,
    List.mem_filter, nodup.mem_erase_iff, decide_eq_true_eq]
  constructor
  · rintro (⟨other, isParent⟩ | ⟨handed, _⟩)
    · exact Or.inl ⟨isParent, other⟩
    · exact Or.inr handed
  · rintro (⟨isParent, other⟩ | handed)
    · exact Or.inl ⟨other, isParent⟩
    · by_cases known : parent ≠ place ∧ parent ∈ parents
      · exact Or.inl known
      · exact Or.inr ⟨handed, known⟩

theorem pairwise_replaceParent (ascending : parents.Pairwise (· < ·)) (nodup : inherited.Nodup) :
    (replaceParent place inherited parents).Pairwise (· < ·) := by
  by_cases present : place ∈ parents
  · simp only [replaceParent, present, if_true]
    refine pairwise_lt_mergeSort (List.Nodup.append ((nodup_of_pairwise_lt ascending).erase _)
      (nodup.filter _) ?_)
    intro parent other handed
    simpa [other] using (List.mem_filter.1 handed).2
  · rwa [replaceParent_of_not_mem present]

theorem dissolve_of_getElem? {gone : Draft} (found : drafts[place]? = some gone) :
    dissolve drafts place = drafts.map fun draft =>
      draft.withParents (replaceParent place gone.parents draft.parents) := by
  rw [dissolve, found]
  rfl

theorem Lineage.nodup_parents (lineage : Lineage drafts) {draft : Draft} (member : draft ∈ drafts) :
    draft.parents.Nodup :=
  nodup_of_pairwise_lt (lineage.ascending draft member)

/-- A parent after dissolving was a parent before, or a parent of the draft that is gone. -/
theorem Lineage.parent_cases (lineage : Lineage drafts) {gone draft : Draft}
    (member : draft ∈ drafts) {parent : Nat}
    (isParent : parent ∈ replaceParent place gone.parents draft.parents) :
    (parent ∈ draft.parents ∧ parent ≠ place) ∨
      (parent ∈ gone.parents ∧ place ∈ draft.parents) := by
  by_cases present : place ∈ draft.parents
  · rcases (mem_replaceParent_of_mem present (lineage.nodup_parents member)).1 isParent with
      kept | handed
    · exact Or.inl kept
    · exact Or.inr ⟨handed, present⟩
  · rw [replaceParent_of_not_mem present] at isParent
    exact Or.inl ⟨isParent, fun same => present (same ▸ isParent)⟩

theorem Lineage.dissolve (lineage : Lineage drafts) {gone : Draft}
    (found : drafts[place]? = some gone) (onDemand : gone.kind = .onDemand) :
    Lineage (dissolve drafts place) := by
  have goneMember := List.mem_of_getElem? found
  have goneParented := lineage.parented gone goneMember (Or.inl onDemand)
  obtain ⟨rank, rises⟩ := lineage.ranked
  rw [dissolve_of_getElem? found]
  constructor
  case ascending =>
    intro changed member
    obtain ⟨draft, listed, rfl⟩ := List.mem_map.1 member
    exact pairwise_replaceParent (lineage.ascending draft listed) (lineage.nodup_parents goneMember)
  case parent =>
    intro changed member parent isParent
    obtain ⟨draft, listed, rfl⟩ := List.mem_map.1 member
    have held : ∃ holder, drafts[parent]? = some holder ∧ holder.IsGroup := by
      rcases lineage.parent_cases listed isParent with ⟨kept, _⟩ | ⟨handed, _⟩
      · exact lineage.parent draft listed parent kept
      · exact lineage.parent gone goneMember parent handed
    obtain ⟨holder, stands, isGroup⟩ := held
    refine ⟨holder.withParents (replaceParent place gone.parents holder.parents), ?_, isGroup⟩
    rw [List.getElem?_map, stands]
    rfl
  case entry =>
    intro changed member isEntry
    obtain ⟨draft, listed, rfl⟩ := List.mem_map.1 member
    have none := lineage.entry draft listed isEntry
    simp [Draft.withParents, replaceParent, none]
  case parented =>
    intro changed member needs
    obtain ⟨draft, listed, rfl⟩ := List.mem_map.1 member
    by_cases present : place ∈ draft.parents
    · obtain ⟨handed, isParent⟩ := List.exists_mem_of_ne_nil _ goneParented
      exact List.ne_nil_of_mem
        ((mem_replaceParent_of_mem present (lineage.nodup_parents listed)).2 (Or.inr isParent))
    · change replaceParent place gone.parents draft.parents ≠ []
      rw [replaceParent_of_not_mem present]
      exact lineage.parented draft listed needs
  case ranked =>
    refine ⟨rank, fun other changed stands parent isParent => ?_⟩
    rw [List.getElem?_map, Option.map_eq_some_iff] at stands
    obtain ⟨draft, stands, rfl⟩ := stands
    rcases lineage.parent_cases (List.mem_of_getElem? stands) isParent with
      ⟨kept, _⟩ | ⟨handed, through⟩
    · exact rises other draft stands parent kept
    · exact Nat.lt_trans (rises place gone found parent handed)
        (rises other draft stands place through)

/-- No draft has a parent at this place. -/
def Detached (drafts : List Draft) (place : Nat) : Prop := ∀ draft ∈ drafts, place ∉ draft.parents

theorem Lineage.detached_dissolve (lineage : Lineage drafts) {gone : Draft}
    (found : drafts[place]? = some gone) : Detached (Chunk.dissolve drafts place) place := by
  rw [dissolve_of_getElem? found]
  intro changed member isParent
  obtain ⟨draft, listed, rfl⟩ := List.mem_map.1 member
  rcases lineage.parent_cases listed isParent with ⟨_, other⟩ | ⟨handed, _⟩
  · exact other rfl
  · exact lineage.not_mem_parents found handed

theorem Lineage.detached_of_detached (lineage : Lineage drafts) {other : Nat}
    (detached : Detached drafts other) : Detached (Chunk.dissolve drafts place) other := by
  cases found : drafts[place]? with
  | none => simpa [Chunk.dissolve, found] using detached
  | some gone =>
      rw [dissolve_of_getElem? found]
      intro changed member isParent
      obtain ⟨draft, listed, rfl⟩ := List.mem_map.1 member
      rcases lineage.parent_cases listed isParent with ⟨kept, _⟩ | ⟨handed, _⟩
      · exact detached draft listed kept
      · exact detached gone (List.mem_of_getElem? found) handed

end Chunk

end WebBundle
