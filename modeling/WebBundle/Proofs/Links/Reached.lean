import Mathlib.Data.List.Nodup
import Mathlib.Logic.Relation
import WebBundle.Links

/-!
# What a walk visits, and in which order

The walk from some numbers visits exactly what they lead to over links, and each of it once. One
invariant carries both directions: what the walk has yet to visit is on its stack, so the numbers
visited in the end are closed under links.

A depth-first search told by recursion: the numbers of a list are searched one after another, and a
number that is new is visited before its successors are searched. The walk keeps what this recursion
has still to do on one stack, where a number may stand more than once, and puts no number there that
was visited before. Both visit the same numbers in the same order.
-/

namespace WebBundle.Links

/-- One number links to another. -/
def Follows (links : Links) (source target : Nat) : Prop := target ∈ links.next source

/-- One number leads to another over any number of links. -/
def Leads (links : Links) : Nat → Nat → Prop := Relation.ReflTransGen links.Follows

variable {links : Links}

theorem walk_nil (visited : List Nat) : links.walk [] visited = visited.reverse := by
  rw [walk]

theorem walk_of_mem {id : Nat} {stack visited : List Nat} (known : id ∈ visited) :
    links.walk (id :: stack) visited = links.walk stack visited := by
  rw [walk, if_pos known]

theorem walk_of_not_mem {id : Nat} {stack visited : List Nat} (fresh : id ∉ visited) :
    links.walk (id :: stack) visited =
      links.walk ((links.next id).filter (· ∉ id :: visited) ++ stack) (id :: visited) := by
  rw [walk, if_neg fresh]

/-- Induction along a walk: the stack is empty, its top was visited before, or its top is visited
now. -/
@[elab_as_elim]
theorem walk_induction (links : Links) {motive : List Nat → List Nat → Prop}
    (done : ∀ visited, motive [] visited)
    (skip : ∀ id stack visited, id ∈ visited → motive stack visited → motive (id :: stack) visited)
    (visit : ∀ id stack visited, id ∉ visited →
      motive ((links.next id).filter (· ∉ id :: visited) ++ stack) (id :: visited) →
        motive (id :: stack) visited)
    (stack visited : List Nat) : motive stack visited := by
  induction stack, visited using walk.induct links with
  | case1 visited => exact done visited
  | case2 id stack visited known ih => exact skip id stack visited known ih
  | case3 id stack visited fresh ih =>
      rw [List.unattach_filter, List.unattach_attach] at ih
      · exact visit id stack visited fresh ih
      · exact fun _ _ => rfl

theorem nodup_walk {stack visited : List Nat} (nodup : visited.Nodup) :
    (links.walk stack visited).Nodup := by
  induction stack, visited using walk_induction links with
  | done visited =>
      rw [walk_nil]
      exact List.nodup_reverse.2 nodup
  | skip id stack visited known ih =>
      rw [walk_of_mem known]
      exact ih nodup
  | visit id stack visited fresh ih =>
      rw [walk_of_not_mem fresh]
      exact ih (List.nodup_cons.2 ⟨fresh, nodup⟩)

/-- Nothing is visited but what the stack leads to. -/
theorem leads_of_mem_walk {stack visited : List Nat} {id : Nat}
    (member : id ∈ links.walk stack visited) :
    id ∈ visited ∨ ∃ source ∈ stack, links.Leads source id := by
  induction stack, visited using walk_induction links with
  | done visited =>
      rw [walk_nil] at member
      exact Or.inl (List.mem_reverse.1 member)
  | skip first stack visited known ih =>
      rw [walk_of_mem known] at member
      rcases ih member with seen | ⟨source, waiting, leads⟩
      · exact Or.inl seen
      · exact Or.inr ⟨source, List.mem_cons_of_mem _ waiting, leads⟩
  | visit first stack visited fresh ih =>
      rw [walk_of_not_mem fresh] at member
      rcases ih member with seen | ⟨source, waiting, leads⟩
      · rcases List.mem_cons.1 seen with rfl | seen
        · exact Or.inr ⟨id, List.mem_cons_self, .refl⟩
        · exact Or.inl seen
      · cases List.mem_append.1 waiting with
        | inl next =>
            have follows : links.Follows first source := (List.mem_filter.1 next).1
            exact Or.inr ⟨first, List.mem_cons_self, leads.head follows⟩
        | inr waiting => exact Or.inr ⟨source, List.mem_cons_of_mem _ waiting, leads⟩

theorem mem_walk_of_mem {stack visited : List Nat} {id : Nat} (member : id ∈ visited ∨ id ∈ stack) :
    id ∈ links.walk stack visited := by
  induction stack, visited using walk_induction links with
  | done visited =>
      rw [walk_nil]
      simpa using member
  | skip first stack visited known ih =>
      rw [walk_of_mem known]
      apply ih
      cases member with
      | inl seen => exact Or.inl seen
      | inr waiting =>
          rcases List.mem_cons.1 waiting with rfl | waiting
          · exact Or.inl known
          · exact Or.inr waiting
  | visit first stack visited fresh ih =>
      rw [walk_of_not_mem fresh]
      apply ih
      cases member with
      | inl seen => exact Or.inl (List.mem_cons_of_mem _ seen)
      | inr waiting =>
          rcases List.mem_cons.1 waiting with rfl | waiting
          · exact Or.inl List.mem_cons_self
          · exact Or.inr (List.mem_append_right _ waiting)

/-- The successors of what was visited are visited or on the stack. -/
def Pending (links : Links) (stack visited : List Nat) : Prop :=
  ∀ id ∈ visited, ∀ target, links.Follows id target → target ∈ visited ∨ target ∈ stack

theorem Pending.pop {id : Nat} {stack visited : List Nat}
    (pending : links.Pending (id :: stack) visited) (known : id ∈ visited) :
    links.Pending stack visited := by
  intro source seen target follows
  cases pending source seen target follows with
  | inl seen => exact Or.inl seen
  | inr waiting =>
      rcases List.mem_cons.1 waiting with rfl | waiting
      · exact Or.inl known
      · exact Or.inr waiting

theorem Pending.visit {id : Nat} {stack visited : List Nat}
    (pending : links.Pending (id :: stack) visited) :
    links.Pending ((links.next id).filter (· ∉ id :: visited) ++ stack) (id :: visited) := by
  intro source seen target follows
  by_cases known : target ∈ id :: visited
  · exact Or.inl known
  · refine Or.inr (List.mem_append.2 ?_)
    rcases List.mem_cons.1 seen with rfl | seen
    · exact Or.inl (List.mem_filter.2 ⟨follows, by simpa using known⟩)
    · cases pending source seen target follows with
      | inl seen => exact absurd (List.mem_cons_of_mem _ seen) known
      | inr waiting =>
          rcases List.mem_cons.1 waiting with rfl | waiting
          · exact absurd List.mem_cons_self known
          · exact Or.inr waiting

theorem follows_mem_walk {stack visited : List Nat} (pending : links.Pending stack visited)
    {id target : Nat} (member : id ∈ links.walk stack visited) (follows : links.Follows id target) :
    target ∈ links.walk stack visited := by
  induction stack, visited using walk_induction links with
  | done visited =>
      rw [walk_nil] at member ⊢
      cases pending id (List.mem_reverse.1 member) target follows with
      | inl seen => exact List.mem_reverse.2 seen
      | inr waiting => simp at waiting
  | skip first stack visited known ih =>
      rw [walk_of_mem known] at member ⊢
      exact ih (pending.pop known) member
  | visit first stack visited fresh ih =>
      rw [walk_of_not_mem fresh] at member ⊢
      exact ih pending.visit member

/-- The walk visits exactly what the roots lead to. -/
theorem mem_reached {roots : List Nat} {id : Nat} :
    id ∈ links.reached roots ↔ ∃ root ∈ roots, links.Leads root id := by
  constructor
  · intro member
    cases leads_of_mem_walk member with
    | inl seen => simp at seen
    | inr found => exact found
  · rintro ⟨root, member, leads⟩
    induction leads with
    | refl => exact mem_walk_of_mem (Or.inr member)
    | tail _ follows ih => exact follows_mem_walk (fun _ seen => by simp at seen) ih follows

theorem nodup_reached (roots : List Nat) : (links.reached roots).Nodup :=
  nodup_walk List.nodup_nil

theorem leadsTo_iff {source target : Nat} :
    links.leadsTo source target = true ↔ links.Leads source target := by
  simp [leadsTo, mem_reached]

theorem leadsTo_eq_false_iff {source target : Nat} :
    links.leadsTo source target = false ↔ ¬ links.Leads source target := by
  rw [← leadsTo_iff, Bool.not_eq_true]

/-! ## The recursive search -/

/-- The search of some numbers, with what is visited before it and after it, in order. -/
inductive Explores (links : Links) : (ids before after : List Nat) → Prop where
  | done (visited : List Nat) : links.Explores [] visited visited
  | skip {id : Nat} {ids before after : List Nat} (known : id ∈ before)
      (rest : links.Explores ids before after) : links.Explores (id :: ids) before after
  | visit {id : Nat} {ids before between after : List Nat} (fresh : id ∉ before)
      (inner : links.Explores (links.next id) (before ++ [id]) between)
      (rest : links.Explores ids between after) : links.Explores (id :: ids) before after

namespace Explores

variable {ids others before after after' : List Nat}

theorem subset (explores : links.Explores ids before after) : before ⊆ after := by
  induction explores with
  | done visited => exact List.Subset.refl _
  | skip known rest ih => exact ih
  | visit fresh inner rest ihInner ihRest =>
      exact List.Subset.trans (List.subset_append_left _ _) (List.Subset.trans ihInner ihRest)

theorem unique (explores : links.Explores ids before after)
    (explores' : links.Explores ids before after') : after = after' := by
  induction explores generalizing after' with
  | done visited =>
      cases explores'
      rfl
  | skip known rest ih =>
      cases explores' with
      | skip _ rest' => exact ih rest'
      | visit fresh' _ _ => exact absurd known fresh'
  | visit fresh inner rest ihInner ihRest =>
      cases explores' with
      | skip known' _ => exact absurd known' fresh
      | visit _ inner' rest' =>
          obtain rfl := ihInner inner'
          exact ihRest rest'

theorem of_append (explores : links.Explores (ids ++ others) before after) :
    ∃ between, links.Explores ids before between ∧ links.Explores others between after := by
  induction ids generalizing before with
  | nil => exact ⟨before, .done before, explores⟩
  | cons id ids ih =>
      cases explores with
      | skip known rest =>
          obtain ⟨between, first, second⟩ := ih rest
          exact ⟨between, .skip known first, second⟩
      | visit fresh inner rest =>
          obtain ⟨between, first, second⟩ := ih rest
          exact ⟨between, .visit fresh inner first, second⟩

/-- What was visited before may be left out or not. -/
theorem of_filter {seen : List Nat} (known : seen ⊆ before)
    (explores : links.Explores (ids.filter (· ∉ seen)) before after) :
    links.Explores ids before after := by
  induction ids generalizing before with
  | nil => exact explores
  | cons id ids ih =>
      by_cases member : id ∈ seen
      · rw [List.filter_cons_of_neg (by simpa using member)] at explores
        exact .skip (known member) (ih known explores)
      · rw [List.filter_cons_of_pos (by simpa using member)] at explores
        cases explores with
        | skip known' rest => exact .skip known' (ih known rest)
        | visit fresh inner rest =>
            have kept : seen ⊆ _ :=
              List.Subset.trans known (List.Subset.trans (List.subset_append_left _ _) inner.subset)
            exact .visit fresh inner (ih kept rest)

end Explores

/-- The search of what stands on the stack visits what the walk visits. -/
theorem explores_walk (stack visited : List Nat) :
    links.Explores stack visited.reverse (links.walk stack visited) := by
  induction stack, visited using walk_induction links with
  | done visited =>
      rw [walk_nil]
      exact .done _
  | skip id stack visited known ih =>
      rw [walk_of_mem known]
      exact .skip (List.mem_reverse.2 known) ih
  | visit id stack visited fresh ih =>
      rw [walk_of_not_mem fresh]
      obtain ⟨between, inner, rest⟩ := ih.of_append
      have inner := inner.of_filter fun _ member => List.mem_reverse.2 member
      rw [List.reverse_cons] at inner
      exact .visit (fun member => fresh (List.mem_reverse.1 member)) inner rest

/-- The walk is the only outcome of the search. -/
theorem explores_iff_eq_reached {roots order : List Nat} :
    links.Explores roots [] order ↔ order = links.reached roots := by
  have search : links.Explores roots [] (links.reached roots) := explores_walk roots []
  constructor
  · exact fun explores => explores.unique search
  · rintro rfl
    exact search

/-- The walk goes on from what was visited. -/
theorem exists_walk_eq_append (links : Links) (stack visited : List Nat) :
    ∃ later, links.walk stack visited = visited.reverse ++ later := by
  induction stack, visited using walk_induction links with
  | done visited => exact ⟨[], by rw [walk_nil, List.append_nil]⟩
  | skip id stack visited known ih => rwa [walk_of_mem known]
  | visit id stack visited fresh ih =>
      obtain ⟨later, same⟩ := ih
      refine ⟨id :: later, ?_⟩
      rw [walk_of_not_mem fresh, same, List.reverse_cons, List.append_assoc, List.singleton_append]

end WebBundle.Links
