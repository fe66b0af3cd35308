import WebBundle.CacheGroup.Rule
import WebBundle.Chunk.Draft
import WebBundle.Diagnostic.Basic

/-!
# Modules claimed by cache groups

A module is claimed by the rule of the highest rank that takes it out of one of its holders. The
rules then make their chunks one after the other in the order of evaluation. A rule that is not
enforced is turned down if its modules are too small together, or if an entry would have to load
too many chunks at the start. What a rule that was turned down has claimed goes to no other rule.
-/

namespace WebBundle.Chunk

open CacheGroup

/-- The bounds for rules that are not enforced. -/
structure Limits where
  minSize : Nat := 0
  maxInitialRequests : Option Nat := none

/-- Of two rules the one that outranks the other, the first of them in doubt. -/
def higherRanked (best : Option Rule) (rule : Option Rule) : Option Rule :=
  match best, rule with
  | none, rule => rule
  | best, none => best
  | some best, some rule => if rule.outranks best then some rule else some best

/-- The rule that claims a resource from the drafts that hold it. -/
def claimant? (rules : List Rule) (holding : List Draft) (resource : List Char) : Option Rule :=
  (holding.map fun draft => Rule.classify? rules resource draft.initial).foldl higherRanked none

/-- A module with the place of the group that claims it. -/
abbrev Claim := Nat × Nat

def resourceOf (graph : ModuleGraph) (module : Nat) : List Char :=
  match graph.module? module with
  | some module => module.resource.toList
  | none => []

/-- The claims on the modules of some drafts, in the order in which the modules are seen. -/
def claims (graph : ModuleGraph) (rules : List Rule) (drafts : List Draft) : List Claim :=
  (seen drafts).filterMap fun module =>
    let holding := drafts.filter fun draft => module ∈ draft.modules
    (claimant? rules holding (resourceOf graph module)).map fun rule => (module, rule.index)

def claimedBy (claims : List Claim) (rule : Rule) : List Nat :=
  (claims.filter fun claim => claim.2 = rule.index).map (·.1)

def sizeOf (graph : ModuleGraph) (module : Nat) : Nat :=
  match graph.module? module with
  | some module => module.size
  | none => 0

def totalSize (graph : ModuleGraph) (modules : List Nat) : Nat :=
  modules.foldr (fun module total => sizeOf graph module + total) 0

/-- The number of chunks that an entry loads at the start: itself and the accepted ones. -/
def initialRequests (accepted : List Draft) (entry : Nat) : Nat :=
  1 + (accepted.filter fun draft => draft.initial && entry ∈ draft.parents).length

/-- Whether the chunk of a rule is made. `accepted` holds the chunks of the rules before it. -/
def isAccepted (graph : ModuleGraph) (limits : Limits) (drafts accepted : List Draft) (rule : Rule)
    (draft : Draft) : Bool :=
  rule.enforce ||
    (limits.minSize ≤ totalSize graph draft.modules &&
      match limits.maxInitialRequests with
      | none => true
      | some most =>
          !(draft.initial && draft.parents.any fun parent =>
            (drafts[parent]?.any fun holder => holder.kind = .entry) &&
              most < initialRequests accepted parent + 1))

/-- The chunk of a rule that claims some modules. -/
def ruleDraft (drafts : List Draft) (rule : Rule) (modules : List Nat) : Draft :=
  .shared rule.name (some rule.name) drafts modules (holdersOfAny drafts modules)

/-- The chunks of the rules, in the order of evaluation, behind those accepted so far. -/
def acceptRules (graph : ModuleGraph) (limits : Limits) (drafts : List Draft) (claims : List Claim) :
    (rules : List Rule) → (accepted : List Draft) → List Draft
  | [], accepted => accepted
  | rule :: rules, accepted =>
      let modules := claimedBy claims rule
      let draft := ruleDraft drafts rule modules
      if !modules.isEmpty && isAccepted graph limits drafts accepted rule draft then
        acceptRules graph limits drafts claims rules (accepted ++ [draft])
      else acceptRules graph limits drafts claims rules accepted

def unusedDiagnostic (rule : Rule) : Diagnostic where
  severity := .note
  code := .unusedGroup
  message := "cache group '" ++ rule.name ++ "' matched no modules"

/-- A report on every rule that claims no module. -/
def unusedRules (claims : List Claim) (rules : List Rule) : List Diagnostic :=
  (rules.filter fun rule => (claimedBy claims rule).isEmpty).map unusedDiagnostic

/-- The chunks that cache groups make, and the report on groups without modules. -/
def cacheGroupDrafts (graph : ModuleGraph) (rules : List Rule) (limits : Limits)
    (drafts : List Draft) : List Draft × List Diagnostic :=
  let claims := claims graph rules drafts
  (acceptRules graph limits drafts claims rules [], unusedRules claims rules)

end WebBundle.Chunk
