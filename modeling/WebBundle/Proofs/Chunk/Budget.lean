import WebBundle.Proofs.Chunk.RuleChunks

/-!
# The request budget

A cache group that is not enforced is accepted only if its modules are large enough together and
no entry that needs them has spent its requests on the chunks accepted before. No chunk that a cache
group made is handed to other parents later, so what an entry loads at the start is what was counted
when the chunks were made.
-/

namespace WebBundle

open CacheGroup Chunk

/-- An entry loads the chunk at the start. -/
def Chunk.requests (entry chunk : Chunk) : Bool := chunk.initial && entry.id ∈ chunk.parents

/-- The chunks of the accepted rules that are not enforced keep to the limits: they are large
enough, and an entry that loads one at the start has requests left for it behind those for its own
chunk and for the chunks of the rules before. If no accepted rule is enforced, no entry makes too
many requests; one that loads nothing but its own chunk makes one all the same. -/
structure ChunkGraph.KeepsLimits (graph : ModuleGraph) (rules : List Rule) (limits : Limits)
    (chunks : ChunkGraph) (accepted : List Rule) : Prop where
  made : List.Forall₂ (graph.IsRuleChunk rules) accepted chunks.claimed
  size : ∀ index rule chunk, chunks.MadeAt accepted index rule chunk → rule.enforce = false →
    limits.minSize ≤ totalSize graph chunk.modules
  requests : ∀ most, limits.maxInitialRequests = some most → ∀ index rule chunk,
    chunks.MadeAt accepted index rule chunk → rule.enforce = false → ∀ entry ∈ chunks.entries,
      entry.requests chunk = true →
        1 + ((chunks.claimed.take (index + 1)).filter entry.requests).length ≤ most
  all_requests : ∀ most, limits.maxInitialRequests = some most →
    (∀ rule ∈ accepted, rule.enforce = false) → ∀ entry ∈ chunks.entries,
      1 + (chunks.claimed.filter entry.requests).length ≤ max 1 most

namespace Chunk

open ModuleGraph

variable {graph : ModuleGraph} {rules accepted : List Rule} {limits : Limits}
variable {reports : List Diagnostic} {chunks : ChunkGraph} {entry chunk : Chunk} {rule : Rule}
variable {place index : Nat} {placed : LoadGroup.Placed}

/-- An entry loads the chunk of a rule at the start if its group holds a module of the rule. -/
theorem requests_iff (made : split graph rules limits = (reports, .ok chunks))
    (located : (graph.standingGroups chunks)[entry.id]? = some place)
    (stands : graph.placedGroups[place]? = some placed) (isEntry : placed.group.start = .entry)
    (isRuleChunk : graph.IsRuleChunk rules rule chunk) (member : chunk ∈ chunks.claimed) :
    entry.requests chunk = true ↔
      ((graph.wonBy rules rule).any fun module => module ∈ placed.group.modules) = true := by
  rw [Chunk.requests, Bool.and_eq_true, decide_eq_true_eq, isRuleChunk.initial,
    mem_parents_of_claimed made member, isRuleChunk.modules, List.any_eq_true]
  simp only [decide_eq_true_eq]
  constructor
  · rintro ⟨_, other, placed', located', stands', held⟩
    obtain rfl := Option.some.inj (located'.symm.trans located)
    obtain rfl := Option.some.inj (stands'.symm.trans stands)
    exact held
  · intro held
    refine ⟨⟨placed, List.mem_of_getElem? stands, isEntry, held⟩, ?_⟩
    exact ⟨place, placed, located, stands, held⟩

/-- What an entry loads of the chunks before that of a rule was counted when the rule was accepted.
-/
theorem length_requests_before (made : split graph rules limits = (reports, .ok chunks))
    (ranked : Rule.Ranked accepted)
    (pairs : List.Forall₂ (graph.IsRuleChunk rules) accepted chunks.claimed)
    (listed : accepted[index]? = some rule)
    (located : (graph.standingGroups chunks)[entry.id]? = some place)
    (stands : graph.placedGroups[place]? = some placed) (isEntry : placed.group.start = .entry) :
    ((chunks.claimed.take index).filter entry.requests).length =
      (graph.loadedEarlier rules accepted rule placed).length := by
  have members : List.Forall₂
      (fun chunk rule => chunk ∈ chunks.claimed ∧ graph.IsRuleChunk rules rule chunk)
      chunks.claimed accepted :=
    (List.forall₂_and_left _ _).2 ⟨fun _ member => member, pairs.flip⟩
  have requested := List.rel_filter (p := entry.requests)
    (q := fun rule => (graph.wonBy rules rule).any fun module => module ∈ placed.group.modules)
    (fun chunk rule pair => requests_iff made located stands isEntry pair.2 pair.1)
    (List.forall₂_take index members)
  rw [loadedEarlier, ranked.above_eq_take listed]
  exact requested.length_eq

/-- The chunk of a rule that is not enforced leaves an entry within its requests. -/
theorem length_requests_le (made : split graph rules limits = (reports, .ok chunks))
    (ranked : Rule.Ranked rules) (accepts : graph.Accepts rules limits accepted)
    (pairs : List.Forall₂ (graph.IsRuleChunk rules) accepted chunks.claimed) {most : Nat}
    (limited : limits.maxInitialRequests = some most)
    (madeAt : chunks.MadeAt accepted index rule chunk) (free : rule.enforce = false)
    (isEntry : entry ∈ chunks.entries) (requested : entry.requests chunk = true) :
    1 + ((chunks.claimed.take (index + 1)).filter entry.requests).length ≤ most := by
  have listed := List.mem_of_getElem? madeAt.1
  obtain ⟨place, placed, located, stands, start, _⟩ := exists_group_of_entry made isEntry
  have holds : graph.EntryHolds placed (graph.wonBy rules rule) := by
    have held := (requests_iff made located stands start (madeAt.related pairs)
      (List.mem_of_getElem? madeAt.2)).1 requested
    exact ⟨List.mem_of_getElem? stands, start, by simpa using held⟩
  have room : 1 + (graph.loadedEarlier rules accepted rule placed).length + 1 ≤ most := by
    have passes := (accepts.passes listed).resolve_left (by simp [free])
    exact passes.2 most limited placed holds
  rw [List.take_add_one, madeAt.2, Option.toList_some, List.filter_append,
    List.filter_cons_of_pos requested, List.length_append, List.filter_nil, List.length_singleton,
    length_requests_before made (accepts.ranked ranked) pairs madeAt.1 located stands start]
  omega

/-- If no accepted rule is enforced, an entry never makes too many requests. By induction on the
chunks made so far: the last one that adds a request was within the limit. -/
theorem length_requests_take_le (made : split graph rules limits = (reports, .ok chunks))
    (ranked : Rule.Ranked rules) (accepts : graph.Accepts rules limits accepted)
    (pairs : List.Forall₂ (graph.IsRuleChunk rules) accepted chunks.claimed) {most : Nat}
    (limited : limits.maxInitialRequests = some most)
    (free : ∀ rule ∈ accepted, rule.enforce = false) (isEntry : entry ∈ chunks.entries)
    (count : Nat) :
    1 + ((chunks.claimed.take count).filter entry.requests).length ≤ max 1 most := by
  induction count with
  | zero => simp
  | succ index ih =>
      cases found : chunks.claimed[index]? with
      | none =>
          rw [List.take_add_one, found]
          simpa using ih
      | some chunk =>
          by_cases requested : entry.requests chunk = true
          · have inside : index < accepted.length := by
              rw [pairs.length_eq]
              exact (List.getElem?_eq_some_iff.1 found).1
            have madeAt : chunks.MadeAt accepted index accepted[index] chunk :=
              ⟨List.getElem?_eq_getElem inside, found⟩
            have within := length_requests_le made ranked accepts pairs limited madeAt
              (free _ (List.getElem_mem inside)) isEntry requested
            exact Nat.le_trans within (Nat.le_max_right _ _)
          · rw [List.take_add_one, found, Option.toList_some, List.filter_append,
              List.filter_cons_of_neg requested, List.filter_nil, List.append_nil]
            exact ih

/-- Splitting keeps to the limits. -/
theorem exists_keepsLimits {groups : List CacheGroup} (compiled : Rule.ofGroups groups = .ok rules)
    (made : split graph rules limits = (reports, .ok chunks)) :
    ∃ accepted, (∀ other, graph.Accepts rules limits other ↔ other = accepted) ∧
      chunks.KeepsLimits graph rules limits accepted := by
  obtain ⟨accepted, exactly, drafts⟩ := @exists_accepts graph rules limits groups compiled
  have accepts := (exactly accepted).2 rfl
  have ranked := Rule.ranked_ofGroups compiled
  have pairs := forall₂_claimed made drafts
  refine ⟨accepted, exactly, ?_⟩
  constructor
  case made => exact pairs
  case size =>
    intro index rule chunk madeAt free
    rw [(madeAt.related pairs).modules]
    exact ((accepts.passes (List.mem_of_getElem? madeAt.1)).resolve_left (by simp [free])).1
  case requests =>
    intro most limited index rule chunk madeAt free entry isEntry requested
    exact length_requests_le made ranked accepts pairs limited madeAt free isEntry requested
  case all_requests =>
    intro most limited free entry isEntry
    have all := length_requests_take_le made ranked accepts pairs limited free isEntry
      chunks.claimed.length
    rwa [List.take_length] at all

/-! ## A budget that is spent -/

/-- The page needs a library and a theme at once. -/
def onePage : ModuleGraph where
  root := "/app"
  modules := ⟨#[
    moduleAt 0 "main.js" [⟨1, .sync, "./lib"⟩, ⟨2, .sync, "./theme"⟩],
    moduleAt 1 "lib.js" [],
    moduleAt 2 "theme.js" []]⟩
  entries := [⟨"main", [0]⟩]

/-- A cache group for each of them. -/
def partGroups : List CacheGroup :=
  [{ name := "libs", test := .contains ["/lib"] },
    { name := "themes", test := .contains ["/theme"] }]

def partRules : List Rule :=
  [⟨"libs", .holdsOneOf ["/lib".toList], .all, 0, false, 0⟩,
    ⟨"themes", .holdsOneOf ["/theme".toList], .all, 0, false, 1⟩]

theorem ofGroups_partGroups : Rule.ofGroups partGroups = .ok partRules := by cbv

theorem exists_split_onePage : ∃ reports chunks,
    split onePage partRules { maxInitialRequests := some 2 } = (reports, .ok chunks) :=
  exists_split_ok (by cbv)

/-- With two requests the page can load the library, and has to keep the theme. -/
theorem keepsLimits_onePage :
    ∃ reports chunks accepted,
      split onePage partRules { maxInitialRequests := some 2 } = (reports, .ok chunks) ∧
        (∀ other, onePage.Accepts partRules { maxInitialRequests := some 2 } other ↔
          other = accepted) ∧
        chunks.KeepsLimits onePage partRules { maxInitialRequests := some 2 } accepted ∧
          chunks.claimed.map (·.name) = ["libs"] := by
  obtain ⟨reports, chunks, made⟩ := exists_split_onePage
  obtain ⟨accepted, exactly, keeps⟩ := exists_keepsLimits ofGroups_partGroups made
  refine ⟨reports, chunks, accepted, made, exactly, keeps, ?_⟩
  rw [(split_ok made).1]
  cbv

end Chunk

end WebBundle
