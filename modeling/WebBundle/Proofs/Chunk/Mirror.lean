import WebBundle.Proofs.Chunk.Relabel

/-!
# Splitting mirrored graphs

Cache groups ask for the paths of modules and for their sizes, the rest of splitting only for
imports. A graph that mirrors another therefore splits as that one does, under other numbers, if
sizes agree or have no bound to meet.
-/

namespace WebBundle.Chunk

open CacheGroup ModuleGraph

/-- Sizes do not tell two graphs apart: they agree on what the entries reach, or are not asked for.
-/
def SizesAgree (limits : Limits) (number : Nat → Nat) (graph other : ModuleGraph) : Prop :=
  limits.minSize = 0 ∨ ∀ id, graph.Reachable id → sizeOf other (number id) = sizeOf graph id

def Claim.relabel (number : Nat → Nat) (claim : Claim) : Claim := (number claim.1, claim.2)

variable {number : Nat → Nat} {graph other : ModuleGraph} {rules : List Rule} {limits : Limits}

/-! ## Claims -/

theorem reachable_of_groupDraft {draft : Draft} (listed : draft ∈ graph.groupDrafts) {id : Nat}
    (held : id ∈ draft.modules) : graph.Reachable id :=
  exists_groupDraft_iff.1 ⟨draft, listed, held⟩

theorem resourceOf_mirrored (mirrors : Mirrors number graph other) {id : Nat}
    (reachable : graph.Reachable id) : resourceOf other (number id) = resourceOf graph id := by
  unfold resourceOf
  rcases mirrors.module?_cases reachable with
    ⟨none, none'⟩ | ⟨module, mirrored, found, found', same⟩
  · simp [none, none']
  · simp [found, found', same.resource]

theorem claimant?_relabel (holding : List Draft) (resource : List Char) :
    claimant? rules (holding.map (·.relabel number)) resource =
      claimant? rules holding resource := by
  rw [claimant?, List.map_map, claimant?]
  rfl

theorem claimedBy_relabel (claims : List Claim) (rule : Rule) :
    claimedBy (claims.map (Claim.relabel number)) rule = (claimedBy claims rule).map number := by
  rw [claimedBy, List.filter_map, List.map_map, claimedBy, List.map_map]
  rfl

theorem unusedRules_relabel (claims : List Claim) :
    unusedRules (claims.map (Claim.relabel number)) rules = unusedRules claims rules := by
  simp [unusedRules, claimedBy_relabel]

variable (injective : Function.Injective number) (mirrors : Mirrors number graph other)
  {drafts : List Draft} (within : ∀ draft ∈ drafts, ∀ id ∈ draft.modules, graph.Reachable id)

include injective mirrors within

theorem claims_mirrored :
    claims other rules (drafts.map (·.relabel number)) =
      (claims graph rules drafts).map (Claim.relabel number) := by
  rw [claims, seen_relabel injective, List.filterMap_map, claims, List.map_filterMap]
  refine List.filterMap_congr fun module held => ?_
  obtain ⟨draft, listed, member⟩ := mem_seen.1 held
  have holding : (drafts.map (·.relabel number)).filter (number module ∈ ·.modules) =
      (drafts.filter (module ∈ ·.modules)).map (·.relabel number) := by
    rw [List.filter_map]
    congr 1
    refine List.filter_congr fun draft _ => ?_
    simp only [Function.comp_apply, Draft.relabel, List.mem_map_of_injective injective]
  simp only [Function.comp_apply, holding, claimant?_relabel,
    resourceOf_mirrored mirrors (within draft listed module member), Option.map_map]
  rfl

omit injective mirrors within

/-! ## Accepted rules -/

theorem totalSize_mirrored
    (sizes : ∀ id, graph.Reachable id → sizeOf other (number id) = sizeOf graph id)
    {modules : List Nat} (reachable : ∀ id ∈ modules, graph.Reachable id) :
    totalSize other (modules.map number) = totalSize graph modules := by
  induction modules with
  | nil => rfl
  | cons id modules ih =>
      obtain ⟨first, others⟩ := List.forall_mem_cons.1 reachable
      simp only [totalSize, List.map_cons, List.foldr_cons, sizes id first]
      exact congrArg (sizeOf graph id + ·) (ih others)

theorem isAccepted_mirrored (sizes : SizesAgree limits number graph other)
    (drafts accepted : List Draft) (rule : Rule) {draft : Draft}
    (reachable : ∀ id ∈ draft.modules, graph.Reachable id) :
    isAccepted other limits (drafts.map (·.relabel number)) (accepted.map (·.relabel number)) rule
      (draft.relabel number) = isAccepted graph limits drafts accepted rule draft := by
  have bounded : limits.minSize ≤ totalSize other (draft.modules.map number) ↔
      limits.minSize ≤ totalSize graph draft.modules := by
    cases sizes with
    | inl unbounded => simp [unbounded]
    | inr sizes => rw [totalSize_mirrored sizes reachable]
  have requests : ∀ entry, initialRequests (accepted.map (·.relabel number)) entry =
      initialRequests accepted entry := by
    intro entry
    rw [initialRequests, List.filter_map, List.length_map]
    rfl
  have isEntry : ∀ parent : Nat, (drafts.map (·.relabel number))[parent]?.any
      (fun holder => holder.kind = .entry) = drafts[parent]?.any fun holder =>
        holder.kind = .entry := by
    intro parent
    rw [getElem?_relabel]
    cases drafts[parent]? with
    | none => rfl
    | some holder => rfl
  simp only [isAccepted, Draft.relabel] at bounded requests isEntry ⊢
  simp only [bounded, requests, isEntry]

include injective

theorem acceptRules_mirrored (sizes : SizesAgree limits number graph other) {claims : List Claim}
    (reachable : ∀ claim ∈ claims, graph.Reachable claim.1) (drafts : List Draft)
    (rules : List Rule) (accepted : List Draft) :
    acceptRules other limits (drafts.map (·.relabel number)) (claims.map (Claim.relabel number))
        rules (accepted.map (·.relabel number)) =
      (acceptRules graph limits drafts claims rules accepted).map (·.relabel number) := by
  induction rules generalizing accepted with
  | nil => rfl
  | cons rule rules ih =>
      have claimed : ∀ id ∈ claimedBy claims rule, graph.Reachable id := by
        intro id member
        obtain ⟨claim, listed, rfl⟩ := List.mem_map.1 member
        exact reachable claim (List.mem_filter.1 listed).1
      have same : isAccepted other limits (drafts.map (·.relabel number))
            (accepted.map (·.relabel number)) rule
            ((ruleDraft drafts rule (claimedBy claims rule)).relabel number) =
          isAccepted graph limits drafts accepted rule
            (ruleDraft drafts rule (claimedBy claims rule)) :=
        isAccepted_mirrored sizes drafts accepted rule claimed
      simp only [acceptRules, claimedBy_relabel, ruleDraft_relabel injective, same,
        List.isEmpty_map]
      split
      · rw [← ih]
        simp
      · exact ih accepted

/-! ## Splitting -/

include mirrors

theorem groupDrafts_mirrored : other.groupDrafts = graph.groupDrafts.map (·.relabel number) := by
  rw [groupDrafts, mirrors.placedGroups injective, List.map_map, groupDrafts, List.map_map]
  rfl

theorem claims_groupDrafts_mirrored :
    claims other rules other.groupDrafts =
      (claims graph rules graph.groupDrafts).map (Claim.relabel number) := by
  rw [groupDrafts_mirrored injective mirrors]
  exact claims_mirrored injective mirrors fun _ listed _ => reachable_of_groupDraft listed

variable (sizes : SizesAgree limits number graph other)

include sizes

theorem cacheGroupDrafts_mirrored :
    cacheGroupDrafts other rules limits other.groupDrafts =
      ((cacheGroupDrafts graph rules limits graph.groupDrafts).1.map (·.relabel number),
        (cacheGroupDrafts graph rules limits graph.groupDrafts).2) := by
  have reachable : ∀ claim ∈ claims graph rules graph.groupDrafts, graph.Reachable claim.1 := by
    intro claim listed
    obtain ⟨draft, member, held⟩ := mem_seen.1 (mem_claims.1 listed).1
    exact reachable_of_groupDraft member held
  have accepted := acceptRules_mirrored injective sizes reachable graph.groupDrafts rules []
  rw [cacheGroupDrafts, claims_groupDrafts_mirrored injective mirrors, unusedRules_relabel]
  rw [← groupDrafts_mirrored injective mirrors] at accepted
  exact congrArg (·, unusedRules (claims graph rules graph.groupDrafts) rules) accepted

theorem spreadDrafts_mirrored :
    spreadDrafts other rules limits =
      (spreadDrafts graph rules limits).map (·.relabel number) := by
  have shared : sharedDrafts other rules limits other.groupDrafts =
      (sharedDrafts graph rules limits graph.groupDrafts).map (·.relabel number) := by
    have taken : ∀ accepted : List Draft, (accepted.map (·.relabel number)).flatMap (·.modules) =
        (accepted.flatMap (·.modules)).map number := by
      intro accepted
      rw [List.flatMap_map, List.map_flatMap]
      rfl
    rw [sharedDrafts, cacheGroupDrafts_mirrored injective mirrors sizes, taken,
      groupDrafts_mirrored injective mirrors, dedupDrafts_relabel injective, ← List.map_append,
      sharedDrafts]
  rw [spreadDrafts, shared, groupDrafts_mirrored injective mirrors, spread_relabel injective,
    spreadDrafts]

/-- Splitting a mirrored graph gives the same chunks under other numbers, or the same error. The
reports differ at most in the modules that no entry reaches. -/
theorem split_mirrored (rules : List Rule) :
    (split other rules limits).2 = (split graph rules limits).2.map (·.relabel number) ∧
      (split other rules limits).1.filter (·.code ≠ .dangling) =
        (split graph rules limits).1.filter (·.code ≠ .dangling) := by
  have unreported : ∀ (graph : ModuleGraph) (drafts : List Draft),
      (danglingModules graph drafts).filter (·.code ≠ .dangling) = [] := by
    intro graph drafts
    refine List.filter_eq_nil_iff.2 fun report member => ?_
    obtain ⟨module, _, rfl⟩ := List.mem_map.1 member
    simp [danglingDiagnostic]
  rw [split_eq, split_eq, cacheGroupDrafts_mirrored injective mirrors sizes,
    spreadDrafts_mirrored injective mirrors sizes, claims_groupDrafts_mirrored injective mirrors,
    unusedRules_relabel, groupDrafts_mirrored injective mirrors, List.length_map, ← List.map_take,
    emptyChunk?_relabel]
  cases emptyChunk? (cacheGroupDrafts graph rules limits graph.groupDrafts).1
      ((spreadDrafts graph rules limits).take graph.groupDrafts.length) with
  | some error => exact ⟨rfl, rfl⟩
  | none =>
      constructor
      · rw [finalDrafts_relabel, numbered_relabel]
        rfl
      · rw [List.filter_append, unreported, List.filter_append, unreported]

end WebBundle.Chunk
