import WebBundle.Proofs.CacheGroup.Ranking
import WebBundle.Proofs.Chunk.Splitting

/-!
# What cache groups claim

A module goes to the rule that outranks all others among those that take it out of some group that
holds it, or to no cache group if that rule is turned down. Whether a rule is accepted depends on
the modules that it wins and on the rules accepted before it, which are those that outrank it.
-/

namespace WebBundle

open CacheGroup Chunk

namespace ModuleGraph

variable (graph : ModuleGraph) (rules : List Rule) (limits : Chunk.Limits)

/-- The rule takes the module out of some group that holds it. -/
def Applies (rule : Rule) (module : Nat) : Prop :=
  ∃ placed ∈ graph.placedGroups, module ∈ placed.group.modules ∧
    rule.takes (resourceOf graph module) (placed.group.start = .entry) = true

instance (rule : Rule) (module : Nat) : Decidable (graph.Applies rule module) := by
  unfold Applies
  infer_instance

/-- The rule applies to the module and outranks all others that do. -/
def Wins (rule : Rule) (module : Nat) : Prop :=
  graph.Applies rule module ∧
    ∀ other ∈ rules, graph.Applies other module → other.index ≠ rule.index →
      rule.outranks other = true

instance (rule : Rule) (module : Nat) : Decidable (graph.Wins rules rule module) := by
  unfold Wins
  infer_instance

/-- The modules of the groups in the order in which they are first seen. -/
def firstSeen : List Nat := (graph.placedGroups.flatMap (·.group.modules)).eraseDups

/-- The modules that a rule wins. -/
def wonBy (rule : Rule) : List Nat :=
  graph.firstSeen.filter fun module => graph.Wins rules rule module

/-- The group of an entry holds one of some modules. -/
def EntryHolds (placed : LoadGroup.Placed) (modules : List Nat) : Prop :=
  placed ∈ graph.placedGroups ∧ placed.group.start = .entry ∧
    ∃ module ∈ modules, module ∈ placed.group.modules

/-- The rules that were accepted earlier than a rule and have won a module of some group. -/
def loadedEarlier (accepted : List Rule) (rule : Rule) (placed : LoadGroup.Placed) : List Rule :=
  (Rule.above accepted rule).filter fun earlier =>
    (graph.wonBy rules earlier).any fun module => module ∈ placed.group.modules

/-- A rule passes if it is enforced, or if its modules are large enough together and no entry that
holds one of them has to load too many chunks: itself, those of earlier rules, and this one. -/
def Passes (accepted : List Rule) (rule : Rule) : Prop :=
  rule.enforce = true ∨
    limits.minSize ≤ totalSize graph (graph.wonBy rules rule) ∧
      ∀ most, limits.maxInitialRequests = some most →
        ∀ placed, graph.EntryHolds placed (graph.wonBy rules rule) →
          1 + (graph.loadedEarlier rules accepted rule placed).length + 1 ≤ most

/-- The chunk of a rule. -/
structure IsRuleChunk (rule : Rule) (chunk : Chunk) : Prop where
  kind : chunk.kind = .shared
  name : chunk.name = rule.name
  group : chunk.group = some rule.name
  modules : chunk.modules = graph.wonBy rules rule
  initial : chunk.initial = true ↔ ∃ placed, graph.EntryHolds placed (graph.wonBy rules rule)

variable {graph rules limits} {rule : Rule} {module : Nat}

/-! ## The rule that wins -/

theorem seen_groupDrafts : seen graph.groupDrafts = graph.firstSeen := by
  rw [seen, groupDrafts, List.flatMap_map]
  rfl

theorem applies_iff :
    graph.Applies rule module ↔
      ∃ draft ∈ graph.groupDrafts.filter fun draft => module ∈ draft.modules,
        rule.takes (resourceOf graph module) draft.initial = true := by
  constructor
  · rintro ⟨placed, listed, held, takes⟩
    exact ⟨.ofGroup placed,
      List.mem_filter.2 ⟨List.mem_map_of_mem listed, decide_eq_true held⟩, takes⟩
  · rintro ⟨draft, member, takes⟩
    obtain ⟨listed, held⟩ := List.mem_filter.1 member
    obtain ⟨placed, stays, rfl⟩ := List.mem_map.1 listed
    exact ⟨placed, stays, of_decide_eq_true held, takes⟩

theorem mem_firstSeen_of_applies (applies : graph.Applies rule module) :
    module ∈ graph.firstSeen := by
  obtain ⟨placed, listed, held, _⟩ := applies
  rw [firstSeen, List.mem_eraseDups, List.mem_flatMap]
  exact ⟨placed, listed, held⟩

theorem mem_wonBy : module ∈ graph.wonBy rules rule ↔ graph.Wins rules rule module := by
  rw [wonBy, List.mem_filter, decide_eq_true_eq]
  exact ⟨And.right, fun wins => ⟨mem_firstSeen_of_applies wins.1, wins⟩⟩

/-- The rule that claims a module from the groups that hold it. -/
def claimant? (graph : ModuleGraph) (rules : List Rule) (module : Nat) : Option Rule :=
  Chunk.claimant? rules (graph.groupDrafts.filter fun draft => module ∈ draft.modules)
    (resourceOf graph module)

/-- Only a rule that applies claims, and if one applies, a rule claims that heads it. -/
theorem claimant?_spec (ranked : Rule.Ranked rules) :
    (graph.claimant? rules module = some rule → rule ∈ rules ∧ graph.Applies rule module) ∧
      (rule ∈ rules → graph.Applies rule module →
        ∃ winner, graph.claimant? rules module = some winner ∧ winner.Heads rule) := by
  let holding := graph.groupDrafts.filter fun draft => module ∈ draft.modules
  let options := holding.map fun draft =>
    Rule.classify? rules (resourceOf graph module) draft.initial
  have source : ∀ rule, some rule ∈ options → rule ∈ rules ∧ graph.Applies rule module := by
    intro rule member
    obtain ⟨draft, holds, chosen⟩ := List.mem_map.1 member
    exact ⟨Rule.mem_of_classify? chosen, applies_iff.2 ⟨draft, holds, Rule.takes_of_classify? chosen⟩⟩
  constructor
  · intro claimed
    cases foldl_higherRanked_eq_some (show options.foldl higherRanked none = some rule from claimed) with
    | inl impossible => cases impossible
    | inr member => exact source rule member
  · intro listed applies
    obtain ⟨draft, holds, takes⟩ := applies_iff.1 applies
    obtain ⟨best, chosen⟩ : ∃ best,
        Rule.classify? rules (resourceOf graph module) draft.initial = some best := by
      apply Option.isSome_iff_exists.1
      exact List.find?_isSome.2 ⟨rule, listed, takes⟩
    have member : some best ∈ options := List.mem_map.2 ⟨draft, holds, chosen⟩
    obtain ⟨winner, claimed, heads⟩ := exists_foldl_higherRanked_eq ranked
      (fun rule given => (source rule (given.resolve_left (by simp))).1)
      (Or.inr member : none = some best ∨ some best ∈ options)
    exact ⟨winner, claimed, heads.trans (ranked.heads_of_classify? chosen rule listed takes)⟩

variable {groups : List CacheGroup} (compiled : Rule.ofGroups groups = .ok rules)

include compiled in
theorem eq_of_index_eq {other : Rule} (listed : rule ∈ rules) (listed' : other ∈ rules)
    (same : rule.index = other.index) : rule = other :=
  List.inj_on_of_nodup_map (Rule.nodup_index_of_ofGroups compiled) listed listed' same

include compiled in
/-- A module has one winner. -/
theorem Wins.unique {other : Rule} (wins : graph.Wins rules rule module)
    (wins' : graph.Wins rules other module) (listed : rule ∈ rules) (listed' : other ∈ rules) :
    rule = other := by
  by_contra different
  have apart : rule.index ≠ other.index := fun same =>
    different (eq_of_index_eq compiled listed listed' same)
  have above := wins.2 other listed' wins'.1 apart.symm
  have below := wins'.2 rule listed wins.1 apart
  exact Rule.not_outranks_of_outranks above below

include compiled in
/-- The rule that claims a module is the one that wins it. -/
theorem claimant?_eq_some_iff (listed : rule ∈ rules) :
    graph.claimant? rules module = some rule ↔ graph.Wins rules rule module := by
  have ranked := Rule.ranked_ofGroups compiled
  have wins_of_claimant : ∀ winner, graph.claimant? rules module = some winner →
      winner ∈ rules ∧ graph.Wins rules winner module := by
    intro winner claimed
    obtain ⟨member, applies⟩ := (claimant?_spec ranked).1 claimed
    refine ⟨member, applies, fun other listed' applies' apart => ?_⟩
    obtain ⟨best, claimed', heads⟩ := (claimant?_spec ranked).2 listed' applies'
    obtain rfl := Option.some.inj (claimed.symm.trans claimed')
    rcases heads with rfl | outranks
    · exact absurd rfl apart
    · exact outranks
  constructor
  · exact fun claimed => (wins_of_claimant rule claimed).2
  · intro wins
    obtain ⟨winner, claimed, _⟩ := (claimant?_spec ranked).2 listed wins.1
    obtain ⟨member, wins'⟩ := wins_of_claimant winner claimed
    rw [claimed, Wins.unique compiled wins wins' listed member]

theorem claimedBy_eq_filter (modules : List Nat) (choose : Nat → Option Rule) (index : Nat) :
    ((modules.filterMap fun module => (choose module).map fun rule => (module, rule.index)).filter
      fun claim => claim.2 = index).map (·.1) =
        modules.filter fun module => (choose module).map (·.index) = some index := by
  induction modules with
  | nil => rfl
  | cons module modules ih =>
      cases chosen : choose module with
      | none => simpa [chosen] using ih
      | some rule =>
          by_cases same : rule.index = index
          · simpa [chosen, same] using ih
          · simpa [chosen, same] using ih

include compiled in
theorem claimedBy_eq_wonBy (listed : rule ∈ rules) :
    claimedBy (claims graph rules graph.groupDrafts) rule = graph.wonBy rules rule := by
  refine (claimedBy_eq_filter _ (graph.claimant? rules) rule.index).trans ?_
  rw [seen_groupDrafts, wonBy]
  refine List.filter_congr fun module _ => ?_
  rw [decide_eq_decide, ← claimant?_eq_some_iff compiled listed]
  constructor
  · intro same
    obtain ⟨winner, claimed, index⟩ := Option.map_eq_some_iff.1 same
    have member := ((claimant?_spec (Rule.ranked_ofGroups compiled)).1 claimed).1
    rw [claimed, eq_of_index_eq compiled member listed index]
  · intro claimed
    rw [claimed]
    rfl

/-! ## The rules that are accepted -/

/-- The draft of a rule of the graph. -/
def ruleDraft (graph : ModuleGraph) (rules : List Rule) (rule : Rule) : Draft :=
  Chunk.ruleDraft graph.groupDrafts rule (graph.wonBy rules rule)

theorem mem_holdersOfAny_groupDrafts {modules : List Nat} {place : Nat} :
    place ∈ holdersOfAny graph.groupDrafts modules ↔
      ∃ placed, graph.placedGroups[place]? = some placed ∧
        ∃ module ∈ modules, module ∈ placed.group.modules := by
  rw [mem_holdersOfAny]
  constructor
  · rintro ⟨module, within, holds⟩
    obtain ⟨draft, found, held⟩ := mem_holders.1 holds
    rw [getElem?_groupDrafts, Option.map_eq_some_iff] at found
    obtain ⟨placed, stands, rfl⟩ := found
    exact ⟨placed, stands, module, within, held⟩
  · rintro ⟨placed, stands, module, within, held⟩
    have found : graph.groupDrafts[place]? = some (.ofGroup placed) := by
      rw [getElem?_groupDrafts, stands]
      rfl
    exact ⟨module, within, mem_holders.2 ⟨_, found, held⟩⟩

/-- The chunk of a rule is loaded at the start if an entry holds one of its modules. -/
theorem initial_ruleDraft :
    (graph.ruleDraft rules rule).initial = true ↔
      ∃ placed, graph.EntryHolds placed (graph.wonBy rules rule) := by
  refine initial_shared.trans ?_
  constructor
  · rintro ⟨place, holds, draft, found, early⟩
    obtain ⟨placed, stands, held⟩ := mem_holdersOfAny_groupDrafts.1 holds
    rw [getElem?_groupDrafts, stands] at found
    cases found
    exact ⟨placed, List.mem_of_getElem? stands, of_decide_eq_true early, held⟩
  · rintro ⟨placed, listed, isEntry, held⟩
    obtain ⟨place, stands⟩ := List.mem_iff_getElem?.1 listed
    refine ⟨place, mem_holdersOfAny_groupDrafts.2 ⟨placed, stands, held⟩, .ofGroup placed, ?_,
      decide_eq_true isEntry⟩
    rw [getElem?_groupDrafts, stands]
    rfl

/-- What an entry loads at the start are its own chunk and those of the rules that have won one of
its modules. -/
theorem initialRequests_ruleDrafts {place : Nat} {placed : LoadGroup.Placed}
    (stands : graph.placedGroups[place]? = some placed) (isEntry : placed.group.start = .entry)
    (accepted : List Rule) :
    initialRequests (accepted.map (graph.ruleDraft rules)) place =
      1 + (accepted.filter fun earlier =>
        (graph.wonBy rules earlier).any fun module => module ∈ placed.group.modules).length := by
  rw [initialRequests, List.filter_map, List.length_map]
  congr 2
  refine List.filter_congr fun earlier _ => ?_
  apply Bool.eq_iff_iff.2
  simp only [Function.comp, Bool.and_eq_true, decide_eq_true_eq, List.any_eq_true]
  change _ ∧ place ∈ holdersOfAny graph.groupDrafts (graph.wonBy rules earlier) ↔ _
  rw [initial_ruleDraft, mem_holdersOfAny_groupDrafts]
  constructor
  · rintro ⟨_, other, stands', held⟩
    obtain rfl := Option.some.inj (stands'.symm.trans stands)
    exact held
  · intro held
    exact ⟨⟨placed, List.mem_of_getElem? stands, isEntry, held⟩, placed, stands, held⟩

theorem kind_groupDraft {place : Nat} :
    (graph.groupDrafts[place]?.any fun holder => holder.kind = .entry) = true ↔
      ∃ placed, graph.placedGroups[place]? = some placed ∧ placed.group.start = .entry := by
  rw [getElem?_groupDrafts]
  cases graph.placedGroups[place]? with
  | none => simp
  | some placed =>
      change decide (Draft.kindOf placed.group.start = .entry) = true ↔ _
      simp [Draft.kindOf_eq_entry_iff]

/-- An entry that holds a module of the rule would load too many chunks at the start. -/
theorem crowded_iff {accepted : List Rule} {most : Nat} :
    ((graph.ruleDraft rules rule).initial && (graph.ruleDraft rules rule).parents.any fun parent =>
        (graph.groupDrafts[parent]?.any fun holder => holder.kind = .entry) &&
          most < initialRequests ((Rule.above accepted rule).map (graph.ruleDraft rules)) parent +
            1) = true ↔
      ∃ placed, graph.EntryHolds placed (graph.wonBy rules rule) ∧
        most < 1 + (graph.loadedEarlier rules accepted rule placed).length + 1 := by
  simp only [Bool.and_eq_true, List.any_eq_true, decide_eq_true_eq, initial_ruleDraft,
    kind_groupDraft]
  constructor
  · rintro ⟨_, place, holds, ⟨placed, stands, isEntry⟩, many⟩
    obtain ⟨other, stands', held⟩ := mem_holdersOfAny_groupDrafts.1 holds
    obtain rfl := Option.some.inj (stands'.symm.trans stands)
    rw [initialRequests_ruleDrafts stands isEntry] at many
    exact ⟨other, ⟨List.mem_of_getElem? stands, isEntry, held⟩, many⟩
  · rintro ⟨placed, holds, many⟩
    obtain ⟨listed, isEntry, held⟩ := holds
    obtain ⟨place, stands⟩ := List.mem_iff_getElem?.1 listed
    rw [loadedEarlier, ← initialRequests_ruleDrafts stands isEntry] at many
    exact ⟨⟨placed, listed, isEntry, held⟩, place,
      mem_holdersOfAny_groupDrafts.2 ⟨placed, stands, held⟩, ⟨placed, stands, isEntry⟩, many⟩

/-- A rule is accepted behind the rules that outrank it if it passes. -/
theorem isAccepted_iff {accepted : List Rule} :
    isAccepted graph limits graph.groupDrafts
        ((Rule.above accepted rule).map (graph.ruleDraft rules)) rule
        (graph.ruleDraft rules rule) = true ↔
      graph.Passes rules limits accepted rule := by
  rw [isAccepted, Bool.or_eq_true, Bool.and_eq_true, decide_eq_true_eq, Passes]
  refine or_congr_right (and_congr_right fun _ => ?_)
  cases limits.maxInitialRequests with
  | none => simp
  | some most =>
      simp only [Option.some.injEq, forall_eq']
      rw [Bool.not_eq_true', ← Bool.not_eq_true, crowded_iff]
      simp only [not_exists, not_and, Nat.not_lt]

/-- Rules are accepted in their order, each of them as those before it leave room for it. By
induction on the rules: those that outrank a later rule are the first one and those of the rest. -/
theorem exists_accepted (claims : List Claim) (drafts accepted : List Draft)
    (ranked : Rule.Ranked rules) :
    ∃ chosen : List Rule, chosen.Sublist rules ∧
      acceptRules graph limits drafts claims rules accepted =
        accepted ++ chosen.map (fun rule => Chunk.ruleDraft drafts rule (claimedBy claims rule)) ∧
      ∀ rule ∈ rules, rule ∈ chosen ↔ claimedBy claims rule ≠ [] ∧
        isAccepted graph limits drafts
          (accepted ++ (Rule.above chosen rule).map fun earlier =>
            Chunk.ruleDraft drafts earlier (claimedBy claims earlier))
          rule (Chunk.ruleDraft drafts rule (claimedBy claims rule)) = true := by
  induction rules generalizing accepted with
  | nil => exact ⟨[], List.Sublist.refl _, by simp [acceptRules], by simp⟩
  | cons first rest ih =>
      obtain ⟨highest, rankedRest⟩ := List.pairwise_cons.1 ranked
      have made_iff : (!(claimedBy claims first).isEmpty && isAccepted graph limits drafts accepted
          first (Chunk.ruleDraft drafts first (claimedBy claims first))) = true ↔
            claimedBy claims first ≠ [] ∧ isAccepted graph limits drafts accepted first
              (Chunk.ruleDraft drafts first (claimedBy claims first)) = true := by
        rw [Bool.and_eq_true, Bool.not_eq_true', ← Bool.not_eq_true, List.isEmpty_iff]
      rw [acceptRules]
      split
      next made =>
        obtain ⟨chosen, sublist, same, exactly⟩ := ih
          (accepted ++ [Chunk.ruleDraft drafts first (claimedBy claims first)]) rankedRest
        refine ⟨first :: chosen, sublist.cons_cons first, ?_, ?_⟩
        · rw [same, List.map_cons, List.append_assoc, List.singleton_append]
        · intro rule listed
          cases listed with
          | head =>
              rw [Rule.above_cons_self, ranked.above_first sublist, List.map_nil, List.append_nil]
              exact ⟨fun _ => made_iff.1 made, fun _ => List.mem_cons_self⟩
          | tail _ later =>
              have distinct : rule ≠ first := fun equal => ranked.not_mem (equal ▸ later)
              rw [Rule.above_cons_of_outranks (highest rule later), List.mem_cons,
                or_iff_right distinct, exactly rule later, List.map_cons, List.append_assoc,
                List.singleton_append]
      next rejected =>
        obtain ⟨chosen, sublist, same, exactly⟩ := ih accepted rankedRest
        refine ⟨chosen, sublist.cons first, same, ?_⟩
        intro rule listed
        cases listed with
        | head =>
            rw [ranked.above_first sublist, List.map_nil, List.append_nil]
            constructor
            · exact fun member => absurd (sublist.subset member) ranked.not_mem
            · exact fun made => absurd (made_iff.2 made) rejected
        | tail _ later => exact exactly rule later

include compiled in
/-- The cache groups that are accepted are those that win something and pass. -/
theorem exists_accepted_rules :
    ∃ accepted : List Rule, accepted.Sublist rules ∧
      (cacheGroupDrafts graph rules limits graph.groupDrafts).1 =
        accepted.map (graph.ruleDraft rules) ∧
      ∀ rule ∈ rules, rule ∈ accepted ↔
        graph.wonBy rules rule ≠ [] ∧ graph.Passes rules limits accepted rule := by
  obtain ⟨accepted, sublist, same, exactly⟩ := exists_accepted
    (claims graph rules graph.groupDrafts) graph.groupDrafts [] (Rule.ranked_ofGroups compiled)
  have drafts (those : List Rule) (listed : those ⊆ rules) :
      those.map (fun rule => Chunk.ruleDraft graph.groupDrafts rule
        (claimedBy (claims graph rules graph.groupDrafts) rule)) =
          those.map (graph.ruleDraft rules) := by
    refine List.map_congr_left fun rule member => ?_
    rw [ruleDraft, claimedBy_eq_wonBy compiled (listed member)]
  refine ⟨accepted, sublist, ?_, fun rule listed => ?_⟩
  · exact same.trans (drafts accepted sublist.subset)
  · have earlier := drafts (Rule.above accepted rule)
      fun other member => sublist.subset (List.mem_filter.1 member).1
    rw [exactly rule listed, List.nil_append, earlier, claimedBy_eq_wonBy compiled listed]
    exact and_congr_right fun _ => isAccepted_iff

end ModuleGraph

namespace Chunk

variable {graph : ModuleGraph} {rules : List Rule} {limits : Limits}
variable {reports : List Diagnostic} {chunks : ChunkGraph}

theorem isRuleChunk_of_bare_eq {rule : Rule} {chunk : Chunk}
    (same : bare chunk = (graph.ruleDraft rules rule).withParents []) :
    graph.IsRuleChunk rules rule chunk where
  kind := congrArg Draft.kind same
  name := congrArg Draft.name same
  group := congrArg Draft.group same
  modules := congrArg Draft.modules same
  initial := by
    have early : chunk.initial = (graph.ruleDraft rules rule).initial := congrArg Draft.initial same
    rw [early]
    exact ModuleGraph.initial_ruleDraft

/-- Reports on modules are told apart from those on cache groups by their code. -/
theorem filter_reports (made : split graph rules limits = (reports, .ok chunks)) :
    reports.filter (·.code = .unusedGroup) =
      unusedRules (claims graph rules graph.groupDrafts) rules := by
  rw [(split_ok made).2, List.filter_append]
  have unused : (unusedRules (claims graph rules graph.groupDrafts) rules).filter
      (·.code = .unusedGroup) = unusedRules (claims graph rules graph.groupDrafts) rules := by
    refine List.filter_eq_self.2 fun report member => ?_
    obtain ⟨rule, _, rfl⟩ := List.mem_map.1 member
    rfl
  have dangling : (danglingModules graph (finalDrafts (spreadDrafts graph rules limits))).filter
      (·.code = .unusedGroup) = [] := by
    refine List.filter_eq_nil_iff.2 fun report member => ?_
    obtain ⟨module, _, rfl⟩ := List.mem_map.1 member
    change ¬ decide (Code.dangling = Code.unusedGroup) = true
    decide
  rw [unused, dangling, List.append_nil]

end Chunk

namespace ChunkGraph

/-- What cache groups have claimed. The rules `accepted` are those that win a module and pass. Their
chunks are the chunks with a cache group; a module is in such a chunk exactly if its winner is
accepted, and then it is in the chunk of its winner. The rules that win nothing are reported. -/
structure Claimed (graph : ModuleGraph) (rules : List Rule) (limits : Limits)
    (reports : List Diagnostic) (chunks : ChunkGraph) (accepted : List Rule) : Prop where
  sublist : accepted.Sublist rules
  accepted_iff : ∀ rule ∈ rules, rule ∈ accepted ↔
    (∃ module, graph.Wins rules rule module) ∧ graph.Passes rules limits accepted rule
  made : List.Forall₂ (graph.IsRuleChunk rules) accepted (chunks.chunks.filter (·.group.isSome))
  winner : ∀ rule ∈ rules, ∀ other ∈ rules, ∀ module, graph.Wins rules rule module →
    graph.Wins rules other module → rule = other
  placed : ∀ rule ∈ accepted, ∀ module, graph.Wins rules rule module →
    ∃ chunk ∈ chunks.chunks, graph.IsRuleChunk rules rule chunk ∧ module ∈ chunk.modules
  only : ∀ chunk ∈ chunks.chunks, chunk.group ≠ none → ∀ module ∈ chunk.modules,
    ∃ rule ∈ accepted, graph.Wins rules rule module ∧ graph.IsRuleChunk rules rule chunk
  reported : reports.filter (·.code = .unusedGroup) =
    (rules.filter fun rule => graph.wonBy rules rule = []).map unusedDiagnostic

end ChunkGraph

namespace Chunk

variable {graph : ModuleGraph} {rules : List Rule} {limits : Limits}
variable {reports : List Diagnostic} {chunks : ChunkGraph}

theorem unusedRules_eq {groups : List CacheGroup} (compiled : Rule.ofGroups groups = .ok rules) :
    unusedRules (claims graph rules graph.groupDrafts) rules =
      (rules.filter fun rule => graph.wonBy rules rule = []).map unusedDiagnostic := by
  rw [unusedRules]
  congr 1
  refine List.filter_congr fun rule listed => ?_
  rw [ModuleGraph.claimedBy_eq_wonBy compiled listed]
  exact Bool.eq_iff_iff.2 (by simp)

/-- Cache groups claim exactly what they outrank. -/
theorem exists_claimed_of_split {groups : List CacheGroup}
    (compiled : Rule.ofGroups groups = .ok rules)
    (made : split graph rules limits = (reports, .ok chunks)) :
    ∃ accepted, chunks.Claimed graph rules limits reports accepted := by
  obtain ⟨accepted, sublist, drafts, exactly⟩ :=
    @ModuleGraph.exists_accepted_rules graph rules limits groups compiled
  have same : (chunks.chunks.filter (·.group.isSome)).map bare =
      accepted.map fun rule => (graph.ruleDraft rules rule).withParents [] := by
    rw [map_bare_claimed made, drafts, List.map_map]
    rfl
  refine ⟨accepted, ?_⟩
  constructor
  case sublist => exact sublist
  case accepted_iff =>
    intro rule listed
    rw [exactly rule listed]
    refine and_congr_left fun _ => ?_
    constructor
    · intro some
      obtain ⟨module, won⟩ := List.exists_mem_of_ne_nil _ some
      exact ⟨module, ModuleGraph.mem_wonBy.1 won⟩
    · rintro ⟨module, wins⟩
      exact List.ne_nil_of_mem (ModuleGraph.mem_wonBy.2 wins)
  case made =>
    have both : List.Forall₂ Eq
        (accepted.map fun rule => (graph.ruleDraft rules rule).withParents [])
        ((chunks.chunks.filter (·.group.isSome)).map bare) := by
      rw [same]
      exact List.forall₂_refl _
    rw [List.forall₂_map_left_iff, List.forall₂_map_right_iff] at both
    exact both.imp fun rule chunk equal => isRuleChunk_of_bare_eq equal.symm
  case winner =>
    intro rule listed other listed' module wins wins'
    exact ModuleGraph.Wins.unique compiled wins wins' listed listed'
  case placed =>
    intro rule member module wins
    have drafted : (graph.ruleDraft rules rule).withParents [] ∈
        (chunks.chunks.filter (·.group.isSome)).map bare := by
      rw [same]
      exact List.mem_map.2 ⟨rule, member, rfl⟩
    obtain ⟨chunk, listed, equal⟩ := List.mem_map.1 drafted
    have isRuleChunk := isRuleChunk_of_bare_eq equal
    refine ⟨chunk, (List.mem_filter.1 listed).1, isRuleChunk, ?_⟩
    rw [isRuleChunk.modules]
    exact ModuleGraph.mem_wonBy.2 wins
  case only =>
    intro chunk member grouped module held
    have drafted : bare chunk ∈ (chunks.chunks.filter (·.group.isSome)).map bare := by
      apply List.mem_map_of_mem
      exact List.mem_filter.2 ⟨member, Option.isSome_iff_ne_none.2 grouped⟩
    rw [same] at drafted
    obtain ⟨rule, listed, equal⟩ := List.mem_map.1 drafted
    have isRuleChunk := isRuleChunk_of_bare_eq equal.symm
    rw [isRuleChunk.modules] at held
    exact ⟨rule, listed, ModuleGraph.mem_wonBy.1 held, isRuleChunk⟩
  case reported =>
    rw [filter_reports made, unusedRules_eq compiled]

theorem exists_claimed_twoPages :
    ∃ reports chunks accepted, split twoPages toolRules {} = (reports, .ok chunks) ∧
      chunks.Claimed twoPages toolRules {} reports accepted := by
  obtain ⟨reports, chunks, made⟩ := exists_split_twoPages
  obtain ⟨accepted, claimed⟩ := exists_claimed_of_split ofGroups_toolGroups made
  exact ⟨reports, chunks, accepted, made, claimed⟩

end Chunk

end WebBundle
