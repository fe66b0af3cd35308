import WebBundle.Config.Basic
import WebBundle.Path.Resource
import WebBundle.Pattern.Expression
import WebBundle.Text.Blank

/-!
# Rules of cache groups

A cache group becomes a rule: its test is made ready to run on resource paths, and its place in the
configuration decides between rules of one priority. Rules are evaluated from the highest rank
down, so the first rule that admits a chunk and matches a resource outranks all others that do.
-/

namespace WebBundle.CacheGroup

/-- A test that runs on resource paths. -/
inductive ResourceTest where
  | holdsOneOf (parts : List (List Char))
  | fits (pattern : Pattern.Regular Char)

def ResourceTest.accepts (test : ResourceTest) (resource : List Char) : Bool :=
  match test with
  | .holdsOneOf parts => parts.any fun part => Text.hasPart part resource
  | .fits pattern => pattern.matchesIn resource

/-- A run of whole directory names. -/
def directoryRun (name : String) : List Char :=
  '/' :: Text.trimBoth '/' (Path.withSlashes name.toList) ++ ['/']

/-- The directory of a package. -/
def packageRun (name : String) : List Char := "/node_modules".toList ++ directoryRun name

/-- Only a regular expression can be unreadable. -/
def ResourceTest.ofTest? : ModuleTest → Option ResourceTest
  | .packages names => some (.holdsOneOf (names.map packageRun))
  | .contains parts => some (.holdsOneOf (parts.map fun part => Path.withSlashes part.toList))
  | .directory name => some (.holdsOneOf [directoryRun name])
  | .regex pattern => (Pattern.Expression.parse? pattern).map .fits

/-- `index` is the place of the group in the configuration. -/
structure Rule where
  name : String
  test : ResourceTest
  scope : ChunkScope
  priority : Int
  enforce : Bool
  index : Nat

/-- A group whose regular expression cannot be read. -/
structure InvalidPattern where
  group : String
  deriving Repr, DecidableEq

namespace Rule

/-- Whether the rule takes modules from chunks that are loaded at the start, or from those that are
loaded on demand. -/
def admits (rule : Rule) (initial : Bool) : Bool :=
  match rule.scope with
  | .all => true
  | .initial => initial
  | .onDemand => !initial

/-- A higher priority outranks a lower one, and an earlier group a later one of its priority. -/
def outranks (rule other : Rule) : Bool :=
  other.priority < rule.priority ||
    (other.priority = rule.priority && rule.index < other.index)

def takes (rule : Rule) (resource : List Char) (initial : Bool) : Bool :=
  rule.admits initial && rule.test.accepts resource

def ofGroup (index : Nat) (group : CacheGroup) : Except InvalidPattern Rule :=
  match ResourceTest.ofTest? group.test with
  | none => .error ⟨group.name⟩
  | some test => .ok ⟨group.name, test, group.scope, group.priority, group.enforce, index⟩

/-- The rules of groups whose first has a given place. The first unreadable group is the error. -/
def ofGroupsFrom : (index : Nat) → List CacheGroup → Except InvalidPattern (List Rule)
  | _, [] => .ok []
  | index, group :: groups =>
      match ofGroup index group with
      | .error error => .error error
      | .ok rule =>
          match ofGroupsFrom (index + 1) groups with
          | .error error => .error error
          | .ok rules => .ok (rule :: rules)

/-- The order of evaluation: falling priority, and the order of the configuration within one
priority. -/
def inOrder (rules : List Rule) : List Rule :=
  rules.mergeSort fun first second => second.priority ≤ first.priority

/-- The rules of a configuration in the order of evaluation. -/
def ofGroups (groups : List CacheGroup) : Except InvalidPattern (List Rule) :=
  match ofGroupsFrom 0 groups with
  | .error error => .error error
  | .ok rules => .ok (inOrder rules)

/-- The first rule that takes a resource out of a chunk. -/
def classify? (rules : List Rule) (resource : List Char) (initial : Bool) : Option Rule :=
  rules.find? fun rule => rule.takes resource initial

theorem takes_of_classify? {rules : List Rule} {resource : List Char} {initial : Bool}
    {rule : Rule} (h : classify? rules resource initial = some rule) :
    rule.takes resource initial = true := by
  unfold classify? at h
  have holds := List.find?_some h
  exact holds

theorem mem_of_classify? {rules : List Rule} {resource : List Char} {initial : Bool}
    {rule : Rule} (h : classify? rules resource initial = some rule) : rule ∈ rules := by
  unfold classify? at h
  exact List.mem_of_find?_eq_some h

theorem inOrder_perm (rules : List Rule) : (inOrder rules).Perm rules :=
  List.mergeSort_perm _ _

end Rule

end WebBundle.CacheGroup
