import WebBundle.LoadGroup.Edges

/-!
# What is loaded before a group

A module is available to a group if it was loaded on every way to the group: each parent of the
group holds it or has it available. A group that is started on demand drops what is available to
it. Groups are treated after their parents.
-/

namespace WebBundle.LoadGroup

theorem length_erase_lt_of_find? {choose : Nat → Bool} {waiting : List Nat} {group : Nat}
    (found : waiting.find? choose = some group) :
    (waiting.erase group).length < waiting.length := by
  have member := List.mem_of_find?_eq_some found
  have positive := List.length_pos_of_mem member
  rw [List.length_erase_of_mem member]
  omega

/-- Puts groups behind their parents: takes out, again and again, the first waiting group whose
parents are all placed. `placed` holds the groups placed so far, last first. -/
def afterParents (edges : List Edge) (waiting placed : List Nat) : List Nat :=
  match found : waiting.find? fun group => (parentsOf edges group).all (· ∈ placed) with
  | none => placed.reverse
  | some group =>
      have := length_erase_lt_of_find? found
      afterParents edges (waiting.erase group) (group :: placed)
  termination_by waiting.length

/-- The modules available to groups, by the places of the groups. -/
abbrev Availability := List (Nat × List Nat)

def availableTo (available : Availability) (group : Nat) : List Nat :=
  (available.lookup group).getD []

/-- The modules that a group holds, none for a place without a group. -/
def modulesAt (groups : List LoadGroup) (place : Nat) : List Nat :=
  match groups[place]? with
  | some group => group.modules
  | none => []

/-- What is loaded once a group is loaded. -/
def loadedWith (groups : List LoadGroup) (available : Availability) (group : Nat) : List Nat :=
  availableTo available group ++ modulesAt groups group

/-- What all parents have loaded. A group without parents finds nothing loaded. -/
def inherited (groups : List LoadGroup) (edges : List Edge) (available : Availability)
    (group : Nat) : List Nat :=
  match parentsOf edges group with
  | [] => []
  | first :: others =>
      (loadedWith groups available first).filter fun module =>
        others.all fun parent => module ∈ loadedWith groups available parent

/-- What is available to every group, given an order that puts groups behind their parents. -/
def availability (groups : List LoadGroup) (edges : List Edge) (order : List Nat) :
    Availability :=
  order.foldl (fun available group =>
    (group, inherited groups edges available group) :: available) []

/-- Drops what is available to a group started on demand. -/
def dropAvailable (available : Availability) (group : LoadGroup) (place : Nat) : LoadGroup :=
  match group.start with
  | .entry => group
  | .onDemand =>
      { group with modules := group.modules.filter (· ∉ availableTo available place) }

/-- The groups without what is available to them. -/
def elide (groups : List LoadGroup) (edges : List Edge) : List LoadGroup :=
  let order := afterParents edges (List.range groups.length) []
  let available := availability groups edges order
  groups.mapIdx fun place group => dropAvailable available group place

theorem length_elide (groups : List LoadGroup) (edges : List Edge) :
    (elide groups edges).length = groups.length := by
  simp [elide]

end WebBundle.LoadGroup
