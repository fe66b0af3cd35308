import WebBundle.Proofs.Chunk.Lineage

/-!
# Drafts after dissolution

Dissolving changes nothing but parents. Drafts started on demand that lost all modules are dissolved
one after the other; each stays without children once it is dissolved, so in the end every parent is
a draft that lives. A parent that lives is never lost on the way.
-/

namespace WebBundle.Chunk

variable {drafts : List Draft} {place : Nat}

theorem mem_dissolvedPlaces :
    place ∈ dissolvedPlaces drafts ↔
      ∃ draft, drafts[place]? = some draft ∧ isDissolved draft = true :=
  mem_places

theorem livePlaces_eq_places :
    livePlaces drafts = places (fun draft => !isDissolved draft) drafts := by
  unfold livePlaces places
  apply List.filterMap_congr
  rintro ⟨draft, place⟩ _
  cases gone : isDissolved draft <;> simp [gone]

theorem mem_livePlaces :
    place ∈ livePlaces drafts ↔
      ∃ draft, drafts[place]? = some draft ∧ isDissolved draft = false := by
  simp [livePlaces_eq_places, mem_places]

/-! ## One draft -/

/-- What does not depend on parents does not change. -/
theorem map_dissolve {α : Type} {read : Draft → α}
    (blind : ∀ draft parents, read (draft.withParents parents) = read draft) :
    (dissolve drafts place).map read = drafts.map read := by
  cases found : drafts[place]? with
  | none => simp [dissolve, found]
  | some gone =>
      rw [dissolve_of_getElem? found, List.map_map]
      exact List.map_congr_left fun draft _ => blind draft _

theorem mem_replaceParent_of_ne {inherited parents : List Nat} {parent : Nat}
    (isParent : parent ∈ parents) (other : parent ≠ place) :
    parent ∈ replaceParent place inherited parents := by
  unfold replaceParent
  split
  · rw [List.mem_mergeSort]
    exact List.mem_append_left _ ((List.mem_erase_of_ne other).2 isParent)
  · exact isParent

theorem exists_getElem?_dissolve {index : Nat} {draft : Draft}
    (stands : drafts[index]? = some draft) :
    ∃ parents, (dissolve drafts place)[index]? = some (draft.withParents parents) ∧
      ∀ parent ∈ draft.parents, parent ≠ place → parent ∈ parents := by
  cases found : drafts[place]? with
  | none =>
      have unchanged : dissolve drafts place = drafts := by rw [dissolve, found]
      exact ⟨draft.parents, by rw [unchanged]; exact stands, fun _ isParent _ => isParent⟩
  | some gone =>
      refine ⟨replaceParent place gone.parents draft.parents, ?_,
        fun parent => mem_replaceParent_of_ne⟩
      rw [dissolve_of_getElem? found, List.getElem?_map, stands]
      rfl

/-! ## All of them -/

variable {gone : List Nat}

theorem map_dissolveAll {α : Type} {read : Draft → α}
    (blind : ∀ draft parents, read (draft.withParents parents) = read draft) :
    (dissolveAll drafts gone).map read = drafts.map read := by
  induction gone generalizing drafts with
  | nil => rfl
  | cons place gone ih => exact ih.trans (map_dissolve blind)

theorem exists_getElem?_dissolveAll {index : Nat} {draft : Draft}
    (stands : drafts[index]? = some draft) :
    ∃ parents, (dissolveAll drafts gone)[index]? = some (draft.withParents parents) ∧
      ∀ parent ∈ draft.parents, parent ∉ gone → parent ∈ parents := by
  induction gone generalizing drafts draft with
  | nil => exact ⟨draft.parents, stands, fun _ isParent _ => isParent⟩
  | cons place gone ih =>
      obtain ⟨between, standsNext, keepsFirst⟩ :
          ∃ parents, (dissolve drafts place)[index]? = some (draft.withParents parents) ∧
            ∀ parent ∈ draft.parents, parent ≠ place → parent ∈ parents :=
        exists_getElem?_dissolve stands
      obtain ⟨parents, standsLast, keepsRest⟩ := ih standsNext
      refine ⟨parents, standsLast, fun parent isParent stays => ?_⟩
      rw [List.mem_cons, not_or] at stays
      exact keepsRest parent (keepsFirst parent isParent stays.1) stays.2

/-- The lineage survives, and no dissolved draft is a parent afterwards. -/
theorem Lineage.dissolveAll (lineage : Lineage drafts)
    (onDemand : ∀ place ∈ gone, ∃ draft, drafts[place]? = some draft ∧ draft.kind = .onDemand) :
    Lineage (dissolveAll drafts gone) ∧
      ∀ place, place ∈ gone ∨ Detached drafts place →
        Detached (Chunk.dissolveAll drafts gone) place := by
  induction gone generalizing drafts with
  | nil =>
      refine ⟨lineage, fun place detached => ?_⟩
      cases detached with
      | inl none => simp at none
      | inr detached => exact detached
  | cons first gone ih =>
      obtain ⟨draft, found, isOnDemand⟩ := onDemand first List.mem_cons_self
      have onDemandNext : ∀ place ∈ gone,
          ∃ draft, (Chunk.dissolve drafts first)[place]? = some draft ∧ draft.kind = .onDemand := by
        intro place member
        obtain ⟨other, stands, kind⟩ := onDemand place (List.mem_cons_of_mem _ member)
        obtain ⟨parents, standsNext, _⟩ :
            ∃ parents, (Chunk.dissolve drafts first)[place]? = some (other.withParents parents) ∧
              ∀ parent ∈ other.parents, parent ≠ first → parent ∈ parents :=
          exists_getElem?_dissolve stands
        exact ⟨_, standsNext, kind⟩
      obtain ⟨lineageLast, detachedLast⟩ := ih (lineage.dissolve found isOnDemand) onDemandNext
      refine ⟨lineageLast, fun place before => detachedLast place ?_⟩
      cases before with
      | inl member =>
          rcases List.mem_cons.1 member with rfl | member
          · exact Or.inr (lineage.detached_dissolve found)
          · exact Or.inl member
      | inr detached => exact Or.inr (lineage.detached_of_detached detached)

/-! ## The final drafts -/

/-- The drafts after dissolution, without the runtime. -/
def dissolved (drafts : List Draft) : List Draft := dissolveAll drafts (dissolvedPlaces drafts)

theorem finalDrafts_eq (drafts : List Draft) :
    finalDrafts drafts = dissolved drafts ++ [runtimeDraft (dissolved drafts)] := rfl

theorem onDemand_of_isDissolved {draft : Draft} (gone : isDissolved draft = true) :
    draft.kind = .onDemand ∧ draft.modules = [] := by
  simpa [isDissolved] using gone

theorem Lineage.dissolved (lineage : Lineage drafts) :
    Lineage (dissolved drafts) ∧
      ∀ place ∈ dissolvedPlaces drafts, Detached (Chunk.dissolved drafts) place := by
  have onDemand : ∀ place ∈ dissolvedPlaces drafts,
      ∃ draft, drafts[place]? = some draft ∧ draft.kind = .onDemand := by
    intro place member
    obtain ⟨draft, found, gone⟩ := mem_dissolvedPlaces.1 member
    exact ⟨draft, found, (onDemand_of_isDissolved gone).1⟩
  obtain ⟨lineageLast, detached⟩ := lineage.dissolveAll onDemand
  exact ⟨lineageLast, fun place member => detached place (Or.inl member)⟩

theorem parents_runtimeDraft : (runtimeDraft drafts).parents = places (·.kind = .entry) drafts := by
  simp [runtimeDraft, places]

theorem below_runtimeDraft : Below drafts (runtimeDraft drafts) where
  kind := Or.inr rfl
  ascending := by
    rw [parents_runtimeDraft]
    exact pairwise_places
  parent place isParent := by
    rw [parents_runtimeDraft] at isParent
    obtain ⟨holder, found, isEntry⟩ := mem_places.1 isParent
    exact ⟨holder, found, Or.inl (of_decide_eq_true isEntry)⟩
  parented impossible := by cases impossible

theorem Lineage.finalDrafts (lineage : Lineage drafts) : Lineage (finalDrafts drafts) := by
  refine lineage.dissolved.1.append fun draft member => ?_
  obtain rfl := List.mem_singleton.1 member
  exact below_runtimeDraft

theorem map_finalDrafts {α : Type} {read : Draft → α}
    (blind : ∀ draft parents, read (draft.withParents parents) = read draft) :
    (finalDrafts drafts).map read =
      drafts.map read ++ [read (runtimeDraft (dissolved drafts))] := by
  rw [finalDrafts_eq, List.map_append, dissolved, map_dissolveAll blind]
  rfl

/-- A draft is final but for its parents, of which it keeps those that live. -/
theorem exists_getElem?_finalDrafts {index : Nat} {draft : Draft}
    (stands : drafts[index]? = some draft) :
    ∃ parents, (finalDrafts drafts)[index]? = some (draft.withParents parents) ∧
      ∀ parent ∈ draft.parents, parent ∉ dissolvedPlaces drafts → parent ∈ parents := by
  obtain ⟨parents, standsLast, keeps⟩ :
      ∃ parents, (dissolved drafts)[index]? = some (draft.withParents parents) ∧
        ∀ parent ∈ draft.parents, parent ∉ dissolvedPlaces drafts → parent ∈ parents :=
    exists_getElem?_dissolveAll stands
  refine ⟨parents, ?_, keeps⟩
  rw [finalDrafts_eq, List.getElem?_append_left (List.getElem?_eq_some_iff.1 standsLast).1]
  exact standsLast

/-- A final draft is the runtime or one of the drafts with other parents. -/
theorem exists_origin {index : Nat} {draft : Draft}
    (stands : (finalDrafts drafts)[index]? = some draft) :
    draft = runtimeDraft (dissolved drafts) ∨
      ∃ origin, drafts[index]? = some origin ∧ draft = origin.withParents draft.parents := by
  rw [finalDrafts_eq] at stands
  by_cases inside : index < (dissolved drafts).length
  · rw [List.getElem?_append_left inside] at stands
    have same : (dissolved drafts).map (·.withParents []) = drafts.map (·.withParents []) :=
      map_dissolveAll fun _ _ => rfl
    have read := congrArg (·[index]?) same
    simp only [List.getElem?_map, stands, Option.map_some] at read
    obtain ⟨origin, found, bare⟩ := Option.map_eq_some_iff.1 read.symm
    have restored := congrArg (·.withParents draft.parents) bare
    exact Or.inr ⟨origin, found, restored.symm⟩
  · rw [List.getElem?_append_right (Nat.le_of_not_lt inside)] at stands
    exact Or.inl (List.mem_singleton.1 (List.mem_of_getElem? stands))

/-- Every parent lives. -/
def ParentsLive (drafts : List Draft) : Prop :=
  ∀ draft ∈ drafts, ∀ parent ∈ draft.parents, parent ∈ livePlaces drafts

theorem Lineage.parentsLive (lineage : Lineage drafts) :
    ParentsLive (Chunk.finalDrafts drafts) := by
  intro draft member parent isParent
  obtain ⟨holder, stands, _⟩ := lineage.finalDrafts.parent draft member parent isParent
  refine mem_livePlaces.2 ⟨holder, stands, ?_⟩
  rw [finalDrafts_eq] at member
  cases List.mem_append.1 member with
  | inl old =>
      cases gone : isDissolved holder with
      | false => rfl
      | true =>
          obtain ⟨lineageLast, detached⟩ := lineage.dissolved
          have inside := lineageLast.parent_lt old isParent
          rw [finalDrafts_eq, List.getElem?_append_left inside] at stands
          have same : (Chunk.dissolved drafts).map isDissolved = drafts.map isDissolved :=
            map_dissolveAll fun _ _ => rfl
          have read := congrArg (·[parent]?) same
          simp only [List.getElem?_map, stands, Option.map_some, gone] at read
          obtain ⟨origin, found, goneBefore⟩ := Option.map_eq_some_iff.1 read.symm
          exact absurd isParent
            (detached parent (mem_dissolvedPlaces.2 ⟨origin, found, goneBefore⟩) draft old)
  | inr runtime =>
      obtain rfl := List.mem_singleton.1 runtime
      rw [parents_runtimeDraft] at isParent
      obtain ⟨entry, found, isEntry⟩ := mem_places.1 isParent
      rw [finalDrafts_eq, List.getElem?_append_left (List.getElem?_eq_some_iff.1 found).1] at stands
      obtain rfl := Option.some.inj (found.symm.trans stands)
      simp [isDissolved, of_decide_eq_true isEntry]

end WebBundle.Chunk
