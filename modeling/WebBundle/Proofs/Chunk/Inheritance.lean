import Mathlib.Data.List.Induction
import WebBundle.Proofs.Chunk.Dissolution

/-!
# Who takes the place of a dissolved draft

Dissolving drafts one after the other, each hands on the parents that it has by then. In the end a
draft that is gone stands for those of its parents that stay and, in turn, for those that its other
parents stand for. In which order the drafts are dissolved makes no difference.
-/

namespace WebBundle.Chunk

/-- Who stands for a place once some places are gone: itself if it stays, otherwise whoever stands
for one of its parents. -/
inductive Heir (parents : Nat → List Nat) (gone : List Nat) : (place heir : Nat) → Prop where
  | stays {place : Nat} (here : place ∉ gone) : Heir parents gone place place
  | handed {place parent heir : Nat} (left : place ∈ gone) (isParent : parent ∈ parents place)
      (next : Heir parents gone parent heir) : Heir parents gone place heir

section

variable {parents : Nat → List Nat} {gone : List Nat} {rank : Nat → Nat} {place start heir : Nat}

theorem heir_nil : Heir parents [] place heir ↔ heir = place := by
  constructor
  · intro inherits
    cases inherits with
    | stays => rfl
    | handed left => cases left
  · rintro rfl
    exact Heir.stays List.not_mem_nil

theorem Heir.rank_le (ranked : ∀ place, ∀ parent ∈ parents place, rank parent < rank place)
    (inherits : Heir parents gone place heir) : rank heir ≤ rank place := by
  induction inherits with
  | stays => exact Nat.le_refl _
  | @handed place parent heir _ isParent _ ih =>
      have below := ranked place parent isParent
      omega

/-- Only the parents of the places that are gone matter. -/
theorem Heir.congr {other : Nat → List Nat} (same : ∀ place ∈ gone, parents place = other place)
    (inherits : Heir parents gone place heir) : Heir other gone place heir := by
  induction inherits with
  | stays here => exact Heir.stays here
  | @handed place parent heir left isParent _ ih =>
      rw [same place left] at isParent
      exact Heir.handed left isParent ih

/-- Let one more place go: where it stood for another one, its parents' heirs do now. -/
theorem heir_append_iff (ranked : ∀ place, ∀ parent ∈ parents place, rank parent < rank place)
    (new : place ∉ gone) :
    Heir parents (gone ++ [place]) start heir ↔
      (Heir parents gone start heir ∧ heir ≠ place) ∨
        (Heir parents gone start place ∧
          ∃ parent ∈ parents place, Heir parents gone parent heir) := by
  constructor
  · intro inherits
    induction inherits with
    | @stays start here =>
        rw [List.mem_append, List.mem_singleton, not_or] at here
        exact Or.inl ⟨Heir.stays here.1, here.2⟩
    | @handed start parent heir left isParent next ih =>
        by_cases before : start ∈ gone
        · rcases ih with ⟨inherits, other⟩ | ⟨inherits, rest⟩
          · exact Or.inl ⟨Heir.handed before isParent inherits, other⟩
          · exact Or.inr ⟨Heir.handed before isParent inherits, rest⟩
        · have last : start = place := by
            rcases List.mem_append.1 left with early | only
            · exact absurd early before
            · exact List.mem_singleton.1 only
          subst last
          refine Or.inr ⟨Heir.stays new, parent, isParent, ?_⟩
          rcases ih with ⟨inherits, _⟩ | ⟨back, _⟩
          · exact inherits
          · -- a parent has no heir among its children
            have below := ranked start parent isParent
            have above := back.rank_le ranked
            omega
  · have more : ∀ {start heir : Nat}, Heir parents gone start heir → heir ≠ place →
        Heir parents (gone ++ [place]) start heir := by
      intro start heir inherits other
      induction inherits with
      | stays here =>
          refine Heir.stays ?_
          rw [List.mem_append, List.mem_singleton, not_or]
          exact ⟨here, other⟩
      | handed left isParent _ ih =>
          exact Heir.handed (List.mem_append_left _ left) isParent (ih other)
    rintro (⟨inherits, other⟩ | ⟨inherits, parent, isParent, next⟩)
    · exact more inherits other
    · have distinct : heir ≠ place := by
        rintro rfl
        have below := ranked heir parent isParent
        have above := next.rank_le ranked
        omega
      have ends : Heir parents (gone ++ [place]) place heir :=
        Heir.handed (List.mem_append_right _ (List.mem_singleton_self place)) isParent
          (more next distinct)
      clear next distinct isParent
      generalize same : place = last at inherits
      induction inherits with
      | stays => exact same ▸ ends
      | handed left isParent' _ ih =>
          exact Heir.handed (List.mem_append_left _ left) isParent' (ih same)

end

/-! ## Dissolving -/

variable {drafts : List Draft} {gone : List Nat} {place index : Nat} {draft : Draft}

def parentsAt (drafts : List Draft) (place : Nat) : List Nat :=
  match drafts[place]? with
  | some draft => draft.parents
  | none => []

theorem mem_replaceParent {inherited parents : List Nat} (nodup : parents.Nodup) {parent : Nat} :
    parent ∈ replaceParent place inherited parents ↔
      (parent ∈ parents ∧ parent ≠ place) ∨ (place ∈ parents ∧ parent ∈ inherited) := by
  by_cases present : place ∈ parents
  · rw [mem_replaceParent_of_mem present nodup]
    simp [present]
  · rw [replaceParent_of_not_mem present]
    constructor
    · exact fun isParent => Or.inl ⟨isParent, fun same => present (same ▸ isParent)⟩
    · rintro (⟨isParent, _⟩ | ⟨impossible, _⟩)
      · exact isParent
      · exact absurd impossible present

theorem dissolveAll_concat :
    dissolveAll drafts (gone ++ [place]) = dissolve (dissolveAll drafts gone) place := by
  rw [dissolveAll, List.foldl_append]
  rfl

theorem Lineage.ranked_parentsAt (lineage : Lineage drafts) :
    ∃ rank : Nat → Nat, ∀ place, ∀ parent ∈ parentsAt drafts place, rank parent < rank place := by
  obtain ⟨rank, rises⟩ := lineage.ranked
  refine ⟨rank, fun place parent isParent => ?_⟩
  unfold parentsAt at isParent
  split at isParent
  next draft found => exact rises place draft found parent isParent
  next => cases isParent

/-- After dissolution the parents of a draft are the heirs of its parents. By induction on the drafts
that are dissolved, the last one first. -/
theorem Lineage.exists_heirs (lineage : Lineage drafts) (nodup : gone.Nodup)
    (onDemand : ∀ place ∈ gone, ∃ draft, drafts[place]? = some draft ∧ draft.kind = .onDemand)
    (stands : drafts[index]? = some draft) :
    ∃ parents, (Chunk.dissolveAll drafts gone)[index]? = some (draft.withParents parents) ∧
      ∀ heir, heir ∈ parents ↔
        ∃ parent ∈ draft.parents, Heir (parentsAt drafts) gone parent heir := by
  obtain ⟨rank, ranked⟩ := lineage.ranked_parentsAt
  induction gone using List.reverseRecOn generalizing index draft with
  | nil =>
      refine ⟨draft.parents, stands, fun heir => ?_⟩
      simp [heir_nil]
  | append_singleton gone place ih =>
      obtain ⟨nodupBefore, _, apart⟩ := List.nodup_append.1 nodup
      have new : place ∉ gone := fun member => apart place member place (by simp) rfl
      have onDemandBefore : ∀ place ∈ gone,
          ∃ draft, drafts[place]? = some draft ∧ draft.kind = .onDemand :=
        fun place member => onDemand place (List.mem_append_left _ member)
      obtain ⟨parents, standsNext, exactly⟩ := ih nodupBefore onDemandBefore stands
      obtain ⟨last, found, _⟩ := onDemand place (by simp)
      obtain ⟨inherited, foundNext, exactlyLast⟩ := ih nodupBefore onDemandBefore found
      have distinct : parents.Nodup :=
        (lineage.dissolveAll onDemandBefore).1.nodup_parents (List.mem_of_getElem? standsNext)
      have known : parentsAt drafts place = last.parents := by rw [parentsAt, found]
      refine ⟨replaceParent place inherited parents, ?_, fun heir => ?_⟩
      · rw [dissolveAll_concat, dissolve_of_getElem? foundNext, List.getElem?_map, standsNext]
        rfl
      · rw [mem_replaceParent distinct, exactly, exactly, exactlyLast, ← known]
        simp only [heir_append_iff ranked new]
        constructor
        · rintro (⟨⟨parent, isParent, inherits⟩, other⟩ | ⟨⟨parent, isParent, inherits⟩, rest⟩)
          · exact ⟨parent, isParent, Or.inl ⟨inherits, other⟩⟩
          · exact ⟨parent, isParent, Or.inr ⟨inherits, rest⟩⟩
        · rintro ⟨parent, isParent, ⟨inherits, other⟩ | ⟨inherits, rest⟩⟩
          · exact Or.inl ⟨⟨parent, isParent, inherits⟩, other⟩
          · exact Or.inr ⟨⟨parent, isParent, inherits⟩, rest⟩

/-- So it is in the end, and the parents still stand in order. -/
theorem Lineage.exists_heirs_finalDrafts (lineage : Lineage drafts)
    (stands : drafts[index]? = some draft) :
    ∃ parents, (Chunk.finalDrafts drafts)[index]? = some (draft.withParents parents) ∧
      parents.Pairwise (· < ·) ∧ ∀ heir, heir ∈ parents ↔
        ∃ parent ∈ draft.parents, Heir (parentsAt drafts) (dissolvedPlaces drafts) parent heir := by
  have onDemand : ∀ place ∈ dissolvedPlaces drafts,
      ∃ draft, drafts[place]? = some draft ∧ draft.kind = .onDemand := by
    intro place member
    obtain ⟨draft, found, isGone⟩ := mem_dissolvedPlaces.1 member
    exact ⟨draft, found, (onDemand_of_isDissolved isGone).1⟩
  obtain ⟨parents, standsLast, exactly⟩ :
      ∃ parents, (Chunk.dissolved drafts)[index]? = some (draft.withParents parents) ∧
        ∀ heir, heir ∈ parents ↔ ∃ parent ∈ draft.parents,
          Heir (parentsAt drafts) (dissolvedPlaces drafts) parent heir :=
    lineage.exists_heirs nodup_places onDemand stands
  have final : (Chunk.finalDrafts drafts)[index]? = some (draft.withParents parents) := by
    rw [finalDrafts_eq, List.getElem?_append_left (List.getElem?_eq_some_iff.1 standsLast).1]
    exact standsLast
  exact ⟨parents, final, lineage.finalDrafts.ascending _ (List.mem_of_getElem? final), exactly⟩

end WebBundle.Chunk
