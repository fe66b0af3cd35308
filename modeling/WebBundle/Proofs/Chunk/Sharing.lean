import WebBundle.Chunk.Split
import WebBundle.Proofs.Places

/-!
# Modules that move

Cache groups and sharing take modules out of the drafts of load groups. Both make drafts of one
kind: the parents of such a draft are exactly the holders of its modules, and it is loaded at the
start if one of them is. No module moves twice, because a rule is known by its index and a list of
holders by itself, and every module with several holders moves. So each module ends in one draft,
and a draft that loses a module is a parent of the draft that gets it.
-/

namespace WebBundle

/-! ## Rules are told apart by their indices -/

namespace CacheGroup.Rule

/-- The rule says what a group of the configuration says, and knows its place. -/
structure Carries (rule : Rule) (configured : CacheGroup × Nat) : Prop where
  name : rule.name = configured.1.name
  test : ResourceTest.ofTest? configured.1.test = some rule.test
  scope : rule.scope = configured.1.scope
  priority : rule.priority = configured.1.priority
  enforce : rule.enforce = configured.1.enforce
  index : rule.index = configured.2

theorem carries_of_ofGroup {index : Nat} {group : CacheGroup} {rule : Rule}
    (made : ofGroup index group = .ok rule) : rule.Carries (group, index) := by
  unfold ofGroup at made
  split at made
  next => cases made
  next test readable =>
    cases made
    exact ⟨rfl, readable, rfl, rfl, rfl, rfl⟩

theorem forall₂_carries_of_ofGroupsFrom {index : Nat} {groups : List CacheGroup}
    {rules : List Rule} (made : ofGroupsFrom index groups = .ok rules) :
    List.Forall₂ Carries rules (groups.zipIdx index) := by
  induction groups generalizing index rules with
  | nil =>
      cases made
      exact .nil
  | cons group groups ih =>
      rw [ofGroupsFrom] at made
      cases first : ofGroup index group with
      | error error => simp [first] at made
      | ok rule =>
          cases rest : ofGroupsFrom (index + 1) groups with
          | error error => simp [first, rest] at made
          | ok others =>
              simp only [first, rest, Except.ok.injEq] at made
              subst made
              rw [List.zipIdx_cons]
              exact .cons (carries_of_ofGroup first) (ih rest)

theorem map_index_of_ofGroupsFrom {index : Nat} {groups : List CacheGroup} {rules : List Rule}
    (made : ofGroupsFrom index groups = .ok rules) :
    rules.map (·.index) = List.range' index groups.length := by
  rw [← List.zipIdx_map_snd index groups]
  exact map_eq_of_forall₂
    ((forall₂_carries_of_ofGroupsFrom made).imp fun _ _ carries => carries.index)

theorem nodup_index_of_ofGroups {groups : List CacheGroup} {rules : List Rule}
    (made : ofGroups groups = .ok rules) : (rules.map (·.index)).Nodup := by
  unfold ofGroups at made
  cases listed : ofGroupsFrom 0 groups with
  | error error => simp [listed] at made
  | ok inConfiguration =>
      simp only [listed, Except.ok.injEq] at made
      subst made
      rw [((inOrder_perm inConfiguration).map _).nodup_iff, map_index_of_ofGroupsFrom listed]
      exact List.nodup_range'

end CacheGroup.Rule

namespace Chunk

open CacheGroup

variable {groups : List Draft} {module place : Nat}

/-! ## Holders -/

theorem holders_eq_places : holders groups module = places (module ∈ ·.modules) groups := by
  simp [holders, places]

theorem mem_holders :
    place ∈ holders groups module ↔
      ∃ draft, groups[place]? = some draft ∧ module ∈ draft.modules := by
  rw [holders_eq_places, mem_places]
  exact exists_congr fun draft => and_congr_right fun _ => decide_eq_true_iff

theorem pairwise_holders : (holders groups module).Pairwise (· < ·) := by
  rw [holders_eq_places]
  exact pairwise_places

/-- Two places that hold a module are two holders. -/
theorem two_le_length_holders {other : Nat} (distinct : place ≠ other)
    (holds : place ∈ holders groups module) (holds' : other ∈ holders groups module) :
    2 ≤ (holders groups module).length := by
  have both : [place, other] ⊆ holders groups module := by simp [holds, holds']
  exact List.Subperm.length_le (List.subperm_of_subset (by simpa using distinct) both)

theorem mem_seen : module ∈ seen groups ↔ ∃ draft ∈ groups, module ∈ draft.modules := by
  rw [seen, List.mem_eraseDups, List.mem_flatMap]

theorem nodup_seen : (seen groups).Nodup := nodup_eraseDups _

theorem exists_holder_of_mem_seen (member : module ∈ seen groups) :
    ∃ place, place ∈ holders groups module := by
  obtain ⟨draft, listed, held⟩ := mem_seen.1 member
  obtain ⟨place, found⟩ := List.mem_iff_getElem?.1 listed
  exact ⟨place, mem_holders.2 ⟨draft, found, held⟩⟩

theorem mem_holdersOfAny {modules : List Nat} :
    place ∈ holdersOfAny groups modules ↔ ∃ module ∈ modules, place ∈ holders groups module := by
  rw [holdersOfAny, List.mem_eraseDups, List.mem_mergeSort, List.mem_flatMap]

theorem pairwise_holdersOfAny (modules : List Nat) :
    (holdersOfAny groups modules).Pairwise (· < ·) :=
  pairwise_lt_of_le_of_nodup ((pairwise_le_mergeSort _).sublist (eraseDups_sublist _))
    (nodup_eraseDups _)

/-! ## Drafts of moved modules -/

/-- A draft of modules that left the drafts `groups`. Its parents are the holders of its modules. -/
structure Shares (groups : List Draft) (draft : Draft) : Prop where
  kind : draft.kind = .shared
  nonempty : draft.modules ≠ []
  held : ∀ module ∈ draft.modules, module ∈ seen groups
  ascending : draft.parents.Pairwise (· < ·)
  parents : ∀ place, place ∈ draft.parents ↔ ∃ module ∈ draft.modules, place ∈ holders groups module
  initial : draft.initial = true ↔
    ∃ place ∈ draft.parents, ∃ holder, groups[place]? = some holder ∧ holder.initial = true

theorem initial_shared {name : String} {group : Option String} {modules parents : List Nat} :
    (Draft.shared name group groups modules parents).initial = true ↔
      ∃ parent ∈ parents, ∃ holder, groups[parent]? = some holder ∧ holder.initial = true := by
  change (parents.any fun parent => (groups[parent]?.map (·.initial)).getD false) = true ↔ _
  rw [List.any_eq_true]
  refine exists_congr fun parent => and_congr_right fun _ => ?_
  cases found : groups[parent]? with
  | none => simp
  | some holder => simp

theorem shares_shared {name : String} {group : Option String} {modules parents : List Nat}
    (nonempty : modules ≠ []) (held : ∀ module ∈ modules, module ∈ seen groups)
    (ascending : parents.Pairwise (· < ·))
    (holding : ∀ place, place ∈ parents ↔ ∃ module ∈ modules, place ∈ holders groups module) :
    Shares groups (.shared name group groups modules parents) where
  kind := rfl
  nonempty := nonempty
  held := held
  ascending := ascending
  parents := holding
  initial := initial_shared

theorem Shares.parents_ne_nil {draft : Draft} (shares : Shares groups draft) :
    draft.parents ≠ [] := by
  obtain ⟨module, member⟩ := List.exists_mem_of_ne_nil _ shares.nonempty
  obtain ⟨place, holds⟩ := exists_holder_of_mem_seen (shares.held module member)
  exact List.ne_nil_of_mem ((shares.parents place).2 ⟨module, member, holds⟩)

/-- The drafts of all modules that move. Every module with several holders is one of them. -/
structure Sharing (groups shared : List Draft) : Prop where
  shares : ∀ draft ∈ shared, Shares groups draft
  nodup : (shared.flatMap (·.modules)).Nodup
  complete : ∀ module, 2 ≤ (holders groups module).length → module ∈ shared.flatMap (·.modules)

/-! ## Claimed modules -/

variable {graph : ModuleGraph} {rules : List Rule} {limits : Limits}

theorem mem_claims {claim : Claim} :
    claim ∈ claims graph rules groups ↔ claim.1 ∈ seen groups ∧
      ∃ rule, claimant? rules (groups.filter fun draft => claim.1 ∈ draft.modules)
        (resourceOf graph claim.1) = some rule ∧ rule.index = claim.2 := by
  simp only [claims, List.mem_filterMap, Option.map_eq_some_iff]
  constructor
  · rintro ⟨module, member, rule, claimed, rfl⟩
    exact ⟨member, rule, claimed, rfl⟩
  · rintro ⟨member, rule, claimed, same⟩
    exact ⟨claim.1, member, rule, claimed, by rw [same]⟩

theorem nodup_claims : (claims graph rules groups).Nodup := by
  apply nodup_seen.filterMap
  intro first second claim claimed claimed'
  obtain ⟨_, _, rfl⟩ := Option.map_eq_some_iff.1 claimed
  obtain ⟨_, _, same⟩ := Option.map_eq_some_iff.1 claimed'
  exact (congrArg Prod.fst same).symm

theorem mem_claimedBy {claims : List Claim} {rule : Rule} :
    module ∈ claimedBy claims rule ↔ (module, rule.index) ∈ claims := by
  simp only [claimedBy, List.mem_map, List.mem_filter, decide_eq_true_eq]
  constructor
  · rintro ⟨⟨_, _⟩, ⟨member, rfl⟩, rfl⟩
    exact member
  · intro member
    exact ⟨_, ⟨member, rfl⟩, rfl⟩

theorem nodup_claimedBy {claims : List Claim} (nodup : claims.Nodup) (rule : Rule) :
    (claimedBy claims rule).Nodup := by
  apply (nodup.filter _).map_on
  intro first member second member' same
  have index : first.2 = rule.index := by simpa using (List.mem_filter.1 member).2
  have index' : second.2 = rule.index := by simpa using (List.mem_filter.1 member').2
  exact Prod.ext same (index.trans index'.symm)

theorem held_of_mem_claimedBy {rule : Rule}
    (member : module ∈ claimedBy (claims graph rules groups) rule) : module ∈ seen groups :=
  (mem_claims.1 (mem_claimedBy.1 member)).1

theorem index_eq_of_mem_claimedBy {rule other : Rule}
    (member : module ∈ claimedBy (claims graph rules groups) rule)
    (member' : module ∈ claimedBy (claims graph rules groups) other) :
    rule.index = other.index := by
  obtain ⟨_, first, claimed, same⟩ := mem_claims.1 (mem_claimedBy.1 member)
  obtain ⟨_, second, claimed', same'⟩ := mem_claims.1 (mem_claimedBy.1 member')
  obtain rfl := Option.some.inj (claimed.symm.trans claimed')
  exact same.symm.trans same'

/-- The accepted chunks are those of some of the rules, in their order, none without modules. -/
theorem exists_chosen_rules {claims : List Claim} (accepted : List Draft) :
    ∃ chosen : List Rule, chosen.Sublist rules ∧ (∀ rule ∈ chosen, claimedBy claims rule ≠ []) ∧
      acceptRules graph limits groups claims rules accepted =
        accepted ++ chosen.map fun rule => ruleDraft groups rule (claimedBy claims rule) := by
  induction rules generalizing accepted with
  | nil => exact ⟨[], List.Sublist.refl _, by simp, by simp [acceptRules]⟩
  | cons rule rules ih =>
      rw [acceptRules]
      split
      next made =>
        rw [Bool.and_eq_true, Bool.not_eq_true', ← Bool.not_eq_true, List.isEmpty_iff] at made
        obtain ⟨chosen, sublist, nonempty, same⟩ :=
          ih (accepted ++ [ruleDraft groups rule (claimedBy claims rule)])
        refine ⟨rule :: chosen, sublist.cons_cons rule, ?_, ?_⟩
        · intro other member
          rcases List.mem_cons.1 member with rfl | member
          · exact made.1
          · exact nonempty other member
        · rw [same, List.map_cons, List.append_assoc, List.singleton_append]
      next =>
        obtain ⟨chosen, sublist, nonempty, same⟩ := ih accepted
        exact ⟨chosen, sublist.cons rule, nonempty, same⟩

theorem shares_ruleDraft {rule : Rule}
    (nonempty : claimedBy (claims graph rules groups) rule ≠ []) :
    Shares groups (ruleDraft groups rule (claimedBy (claims graph rules groups) rule)) :=
  shares_shared nonempty (fun _ => held_of_mem_claimedBy) (pairwise_holdersOfAny _)
    fun _ => mem_holdersOfAny

/-- The drafts of some of the rules are accepted. -/
theorem exists_cacheGroupDrafts_eq :
    ∃ chosen : List Rule, chosen.Sublist rules ∧
      (∀ rule ∈ chosen, claimedBy (claims graph rules groups) rule ≠ []) ∧
        (cacheGroupDrafts graph rules limits groups).1 = chosen.map fun rule =>
          ruleDraft groups rule (claimedBy (claims graph rules groups) rule) :=
  exists_chosen_rules []

theorem shares_of_mem_cacheGroupDrafts {draft : Draft}
    (member : draft ∈ (cacheGroupDrafts graph rules limits groups).1) : Shares groups draft := by
  obtain ⟨chosen, _, nonempty, made⟩ := exists_cacheGroupDrafts_eq
  rw [made] at member
  obtain ⟨rule, listed, rfl⟩ := List.mem_map.1 member
  exact shares_ruleDraft (nonempty rule listed)

/-- No module is claimed by two rules. -/
theorem nodup_modules_cacheGroupDrafts (distinct : (rules.map (·.index)).Nodup) :
    ((cacheGroupDrafts graph rules limits groups).1.flatMap (·.modules)).Nodup := by
  obtain ⟨chosen, sublist, _, made⟩ := exists_cacheGroupDrafts_eq
  rw [made, List.flatMap_map, List.nodup_flatMap]
  constructor
  · exact fun rule _ => nodup_claimedBy nodup_claims rule
  · have apart := List.pairwise_map.1 (distinct.sublist (sublist.map _))
    refine apart.imp fun different module member member' => ?_
    exact different (index_eq_of_mem_claimedBy member member')

/-! ## Modules held more than once -/

variable {taken : List Nat}

theorem mem_repeated :
    module ∈ repeated groups taken ↔
      module ∈ seen groups ∧ module ∉ taken ∧ 2 ≤ (holders groups module).length := by
  simp [repeated]

theorem mem_holderLists {modules parents : List Nat} :
    parents ∈ holderLists groups modules ↔ ∃ module ∈ modules, holders groups module = parents := by
  rw [holderLists, List.mem_eraseDups, List.mem_map]

theorem shares_of_mem_dedupDrafts {draft : Draft} (member : draft ∈ dedupDrafts groups taken) :
    Shares groups draft := by
  obtain ⟨parents, listed, rfl⟩ := List.mem_map.1 member
  obtain ⟨first, moves, rfl⟩ := mem_holderLists.1 listed
  have chosen : first ∈ (repeated groups taken).filter fun module =>
      holders groups module = holders groups first := List.mem_filter.2 ⟨moves, by simp⟩
  refine shares_shared (List.ne_nil_of_mem chosen) ?_ pairwise_holders ?_
  · intro module within
    exact (mem_repeated.1 (List.mem_filter.1 within).1).1
  · intro place
    constructor
    · exact fun holds => ⟨first, chosen, holds⟩
    · rintro ⟨module, within, holds⟩
      have same : holders groups module = holders groups first := by
        simpa using (List.mem_filter.1 within).2
      rwa [same] at holds

theorem mem_modules_dedupDrafts :
    module ∈ (dedupDrafts groups taken).flatMap (·.modules) ↔ module ∈ repeated groups taken := by
  rw [dedupDrafts, List.flatMap_map, List.mem_flatMap]
  constructor
  · rintro ⟨parents, _, within⟩
    exact (List.mem_filter.1 within).1
  · intro moves
    exact ⟨holders groups module, mem_holderLists.2 ⟨module, moves, rfl⟩,
      List.mem_filter.2 ⟨moves, by simp⟩⟩

theorem nodup_modules_dedupDrafts : ((dedupDrafts groups taken).flatMap (·.modules)).Nodup := by
  rw [dedupDrafts, List.flatMap_map, List.nodup_flatMap]
  constructor
  · exact fun parents _ => (nodup_seen.filter _).filter _
  · refine List.Pairwise.imp ?_ (nodup_eraseDups _)
    intro parents parents' different module within within'
    have same : holders groups module = parents := by simpa using (List.mem_filter.1 within).2
    have same' : holders groups module = parents' := by simpa using (List.mem_filter.1 within').2
    exact different (same.symm.trans same')

/-- What cache groups accept, and what is shared after them. -/
def sharedDrafts (graph : ModuleGraph) (rules : List Rule) (limits : Limits) (groups : List Draft) :
    List Draft :=
  let accepted := (cacheGroupDrafts graph rules limits groups).1
  accepted ++ dedupDrafts groups (accepted.flatMap (·.modules))

theorem shares_of_mem_sharedDrafts {draft : Draft}
    (member : draft ∈ sharedDrafts graph rules limits groups) : Shares groups draft := by
  cases List.mem_append.1 member with
  | inl claimed => exact shares_of_mem_cacheGroupDrafts claimed
  | inr repeated => exact shares_of_mem_dedupDrafts repeated

/-- What several drafts hold moves, with a cache group or without. -/
theorem mem_sharedDrafts_of_several (several : 2 ≤ (holders groups module).length) :
    module ∈ (sharedDrafts graph rules limits groups).flatMap (·.modules) := by
  rw [sharedDrafts, List.flatMap_append, List.mem_append, mem_modules_dedupDrafts, mem_repeated]
  by_cases claimed : module ∈ (cacheGroupDrafts graph rules limits groups).1.flatMap (·.modules)
  · exact Or.inl claimed
  · obtain ⟨place, holds⟩ :=
      List.exists_mem_of_length_pos (Nat.lt_of_lt_of_le Nat.zero_lt_two several)
    obtain ⟨draft, found, held⟩ := mem_holders.1 holds
    exact Or.inr ⟨mem_seen.2 ⟨draft, List.mem_of_getElem? found, held⟩, claimed, several⟩

theorem sharing_sharedDrafts (distinct : (rules.map (·.index)).Nodup) :
    Sharing groups (sharedDrafts graph rules limits groups) := by
  constructor
  case shares => exact fun _ => shares_of_mem_sharedDrafts
  case nodup =>
    rw [sharedDrafts, List.flatMap_append]
    refine List.Nodup.append (nodup_modules_cacheGroupDrafts distinct)
      nodup_modules_dedupDrafts ?_
    intro module claimed moves
    exact (mem_repeated.1 (mem_modules_dedupDrafts.1 moves)).2.1 claimed
  case complete => exact fun _ => mem_sharedDrafts_of_several

end Chunk

end WebBundle
