/-!
# Links between numbers

A finite directed graph on numbers, given by the successors of every number, and the walk that
visits what can be reached. The walk keeps a stack of numbers to visit: it takes the top one, skips
it if it was visited before, and puts its successors on the stack in their order. So it visits the
numbers in depth-first order, each of them once.
-/

namespace WebBundle

/-- The successors of numbers. Those from `bound` on have none. -/
structure Links where
  bound : Nat
  next : Nat → List Nat
  next_of_bound_le : ∀ id, bound ≤ id → next id = []

namespace Links

/-- The numbers below the bound that are still to be visited. -/
def unvisited (links : Links) (visited : List Nat) : List Nat :=
  (List.range links.bound).filter (· ∉ visited)

theorem mem_unvisited {links : Links} {visited : List Nat} {id : Nat} :
    id ∈ links.unvisited visited ↔ id < links.bound ∧ id ∉ visited := by
  simp [unvisited]

theorem unvisited_cons (links : Links) (visited : List Nat) (id : Nat) :
    links.unvisited (id :: visited) = (links.unvisited visited).filter (· ≠ id) := by
  simp only [unvisited, List.filter_filter]
  apply List.filter_congr
  intro other _
  by_cases h : other = id <;> simp [h]

theorem length_unvisited_cons_lt {links : Links} {visited : List Nat} {id : Nat}
    (below : id < links.bound) (fresh : id ∉ visited) :
    (links.unvisited (id :: visited)).length < (links.unvisited visited).length := by
  rw [unvisited_cons, List.length_filter_lt_length_iff_exists]
  exact ⟨id, mem_unvisited.2 ⟨below, fresh⟩, by simp⟩

theorem unvisited_cons_of_bound_le {links : Links} {visited : List Nat} {id : Nat}
    (beyond : links.bound ≤ id) : links.unvisited (id :: visited) = links.unvisited visited := by
  rw [unvisited_cons, List.filter_eq_self]
  intro other member
  have below := (mem_unvisited.1 member).1
  simp only [ne_eq, decide_eq_true_eq]
  omega

/-- Visits what the stack holds and leads to. `visited` holds the numbers visited so far, last
first; the answer is in the order of the visits. -/
def walk (links : Links) : (stack visited : List Nat) → List Nat
  | [], visited => visited.reverse
  | id :: stack, visited =>
      if id ∈ visited then walk links stack visited
      else walk links ((links.next id).filter (· ∉ id :: visited) ++ stack) (id :: visited)
  termination_by stack visited => ((links.unvisited visited).length, stack.length)
  decreasing_by
    · exact Prod.Lex.right _ (by simp)
    · rename_i fresh
      by_cases below : id < links.bound
      · exact Prod.Lex.left _ _ (length_unvisited_cons_lt below fresh)
      · have beyond : links.bound ≤ id := Nat.le_of_not_lt below
        rw [unvisited_cons_of_bound_le beyond, links.next_of_bound_le id beyond]
        exact Prod.Lex.right _ (by simp)

/-- Everything that can be reached from some numbers, in depth-first order. -/
def reached (links : Links) (roots : List Nat) : List Nat := links.walk roots []

/-- Whether one number leads to another. Every number leads to itself. -/
def leadsTo (links : Links) (source target : Nat) : Bool := target ∈ links.reached [source]

end Links

end WebBundle
