import Mathlib.Data.List.Perm.Basic
import Mathlib.Order.OrderDual
import WebBundle.Proofs.Chunk.Sharing
import WebBundle.Proofs.Sorting

/-!
# The ranks of rules

Of two rules of a configuration one outranks the other: the one of higher priority, or the earlier
one. The order of evaluation is that of the ranks, so the first rule that takes a resource outranks
all others that take it. The best of several such rules is found by comparing them one by one.

The rules of a configuration are put in order by a stable sort, and the best one of several rules is
found by comparing ranks. Both go by the same strict total order. So the place of a rule in the
order of evaluation tells which rules it outranks, and the first rule that takes a resource is the
one that outranks all others that take it.
-/

namespace WebBundle

namespace CacheGroup.Rule

variable {rules : List Rule} {rule other : Rule}

theorem outranks_iff :
    rule.outranks other = true ↔ other.priority < rule.priority ∨
      other.priority = rule.priority ∧ rule.index < other.index := by
  simp [outranks]

theorem not_outranks_self (rule : Rule) : ¬ rule.outranks rule = true := by
  rw [outranks_iff]
  omega

theorem outranks_trans {third : Rule} (first : rule.outranks other = true)
    (second : other.outranks third = true) : rule.outranks third = true := by
  rw [outranks_iff] at *
  omega

theorem not_outranks_of_outranks (outranks : rule.outranks other = true) :
    ¬ other.outranks rule = true :=
  fun back => not_outranks_self rule (outranks_trans outranks back)

/-- The rule is the other one or outranks it. -/
def Heads (rule other : Rule) : Prop := other = rule ∨ rule.outranks other = true

theorem Heads.trans {third : Rule} (first : rule.Heads other) (second : other.Heads third) :
    rule.Heads third := by
  rcases first with rfl | first
  · exact second
  · rcases second with rfl | second
    · exact Or.inr first
    · exact Or.inr (outranks_trans first second)

/-- Rules from the highest rank down. -/
def Ranked (rules : List Rule) : Prop := rules.Pairwise fun rule other => rule.outranks other = true

theorem comparesBy_priority :
    ComparesBy (fun first second : Rule => decide (second.priority ≤ first.priority))
      fun rule => OrderDual.toDual rule.priority := by
  intro first second
  rw [decide_eq_true_eq, OrderDual.toDual_le_toDual]

theorem pairwise_inOrder (rules : List Rule) :
    (inOrder rules).Pairwise fun first second => second.priority ≤ first.priority :=
  comparesBy_priority.ascends rules

/-- Sorting keeps the rules of one priority in their order. -/
theorem filter_inOrder (rules : List Rule) (priority : Int) :
    (inOrder rules).filter (·.priority = priority) = rules.filter (·.priority = priority) :=
  comparesBy_priority.filter_mergeSort rules (OrderDual.toDual priority)

/-- Sorting by priority puts the rules of a configuration in the order of their ranks. -/
theorem ranked_inOrder (rising : rules.Pairwise fun rule other => rule.index < other.index) :
    Ranked (inOrder rules) := by
  apply List.pairwise_iff_forall_sublist.2
  intro first second together
  have falls := List.pairwise_iff_forall_sublist.1 (pairwise_inOrder rules) together
  apply outranks_iff.2
  by_cases same : second.priority = first.priority
  · have level := together.filter fun rule => decide (rule.priority = first.priority)
    rw [filter_inOrder] at level
    simp only [List.filter_cons, decide_true, same, if_true, List.filter_nil] at level
    exact Or.inr ⟨same, List.pairwise_iff_forall_sublist.1 rising (level.trans List.filter_sublist)⟩
  · omega

theorem ranked_ofGroups {groups : List CacheGroup} (made : ofGroups groups = .ok rules) :
    Ranked rules := by
  unfold ofGroups at made
  cases listed : ofGroupsFrom 0 groups with
  | error error => simp [listed] at made
  | ok inConfiguration =>
      simp only [listed, Except.ok.injEq] at made
      subst made
      apply ranked_inOrder
      rw [← List.pairwise_map, map_index_of_ofGroupsFrom listed]
      exact List.pairwise_lt_range'

/-- Of two rules one outranks the other. -/
theorem Ranked.total (ranked : Ranked rules) (listed : rule ∈ rules) (listed' : other ∈ rules) :
    rule.Heads other ∨ other.outranks rule = true := by
  induction rules with
  | nil => cases listed
  | cons first rules ih =>
      obtain ⟨highest, ranked⟩ := List.pairwise_cons.1 ranked
      cases listed with
      | head =>
          cases listed' with
          | head => exact Or.inl (Or.inl rfl)
          | tail _ later => exact Or.inl (Or.inr (highest other later))
      | tail _ later =>
          cases listed' with
          | head => exact Or.inr (highest rule later)
          | tail _ later' => exact ih ranked later later'

/-- The first rule that takes a resource is the one of the highest rank. -/
theorem Ranked.heads_of_classify? (ranked : Ranked rules) {resource : List Char} {initial : Bool}
    (found : classify? rules resource initial = some rule) :
    ∀ other ∈ rules, other.takes resource initial = true → rule.Heads other := by
  obtain ⟨_, before, after, order, passed⟩ := List.find?_eq_some_iff_append.1 found
  intro other listed takes
  rw [order] at listed ranked
  rcases List.mem_append.1 listed with early | late
  · have skipped := passed other early
    simp [takes] at skipped
  · rcases List.mem_cons.1 late with rfl | late
    · exact Or.inl rfl
    · have behind := (List.pairwise_append.1 ranked).2.1
      exact Or.inr ((List.pairwise_cons.1 behind).1 other late)

/-- The rules of a list that outrank a rule. -/
def above (rules : List Rule) (rule : Rule) : List Rule := rules.filter (·.outranks rule)

theorem above_cons_of_outranks (outranks : other.outranks rule = true) :
    above (other :: rules) rule = other :: above rules rule :=
  List.filter_cons_of_pos outranks

theorem above_cons_self : above (rule :: rules) rule = above rules rule :=
  List.filter_cons_of_neg (not_outranks_self rule)

/-- No rule behind the first one outranks it. -/
theorem Ranked.above_first (ranked : Ranked (rule :: rules)) {behind : List Rule}
    (sublist : behind.Sublist rules) : above behind rule = [] := by
  refine List.filter_eq_nil_iff.2 fun other member => ?_
  exact not_outranks_of_outranks ((List.pairwise_cons.1 ranked).1 other (sublist.subset member))

theorem Ranked.not_mem (ranked : Ranked (rule :: rules)) : rule ∉ rules :=
  fun member => not_outranks_self rule ((List.pairwise_cons.1 ranked).1 rule member)

theorem Ranked.nodup (ranked : Ranked rules) : rules.Nodup := by
  refine List.Pairwise.imp (fun {rule other} outranks => ?_) ranked
  rintro rfl
  exact not_outranks_self rule outranks

/-- Rules that stand in the order of their ranks are known by which they are. -/
theorem Ranked.eq_of_mem_iff {others : List Rule} (ranked : Ranked rules) (ranked' : Ranked others)
    (same : ∀ rule, rule ∈ rules ↔ rule ∈ others) : rules = others := by
  have perm := (List.perm_ext_iff_of_nodup ranked.nodup ranked'.nodup).2 same
  refine List.Perm.eq_of_pairwise (fun rule other _ _ above below => ?_) ranked ranked' perm
  exact absurd below (not_outranks_of_outranks above)

/-- The rules that outrank one of the list are those before it. -/
theorem Ranked.above_eq_take (ranked : Ranked rules) {index : Nat}
    (located : rules[index]? = some rule) : above rules rule = rules.take index := by
  induction rules generalizing index with
  | nil => cases located
  | cons first rules ih =>
      obtain ⟨highest, rankedRest⟩ := List.pairwise_cons.1 ranked
      cases index with
      | zero =>
          cases located
          rw [above_cons_self, ranked.above_first (List.Sublist.refl _), List.take_zero]
      | succ index =>
          rw [above_cons_of_outranks (highest rule (List.mem_of_getElem? located)),
            ih rankedRest located, List.take_succ_cons]

end CacheGroup.Rule

namespace Chunk

open CacheGroup Rule

variable {rules : List Rule} {options : List (Option Rule)} {start : Option Rule} {rule : Rule}

theorem higherRanked_eq_some {option : Option Rule} (found : higherRanked start option = some rule) :
    start = some rule ∨ option = some rule := by
  cases start with
  | none => exact Or.inr found
  | some best =>
      cases option with
      | none => exact Or.inl found
      | some new =>
          by_cases better : new.outranks best = true
          · exact Or.inr (by simpa [higherRanked, better] using found)
          · exact Or.inl (by simpa [higherRanked, better] using found)

/-- The better one of two rules heads both. -/
theorem exists_higherRanked_eq {option : Option Rule} (ranked : Ranked rules)
    (listed : ∀ rule, start = some rule ∨ option = some rule → rule ∈ rules) {other : Rule}
    (given : start = some other ∨ option = some other) :
    ∃ rule, higherRanked start option = some rule ∧ rule.Heads other := by
  cases start with
  | none =>
      cases given with
      | inl impossible => cases impossible
      | inr only => exact ⟨other, only, Or.inl rfl⟩
  | some best =>
      cases option with
      | none =>
          cases given with
          | inl only => exact ⟨other, only, Or.inl rfl⟩
          | inr impossible => cases impossible
      | some new =>
          by_cases better : new.outranks best = true
          · refine ⟨new, by simp [higherRanked, better], ?_⟩
            rcases given with same | same
            · cases same
              exact Or.inr better
            · cases same
              exact Or.inl rfl
          · refine ⟨best, by simp [higherRanked, better], ?_⟩
            rcases given with same | same
            · cases same
              exact Or.inl rfl
            · cases same
              cases ranked.total (listed best (Or.inl rfl)) (listed other (Or.inr rfl)) with
              | inl heads => exact heads
              | inr worse => exact absurd worse better

theorem foldl_higherRanked_eq_some (found : options.foldl higherRanked start = some rule) :
    start = some rule ∨ some rule ∈ options := by
  induction options generalizing start with
  | nil => exact Or.inl found
  | cons option options ih =>
      rcases ih found with early | later
      · rcases higherRanked_eq_some early with first | second
        · exact Or.inl first
        · exact Or.inr (second ▸ List.mem_cons_self)
      · exact Or.inr (List.mem_cons_of_mem _ later)

/-- Comparing one by one finds the rule that heads all the others. -/
theorem exists_foldl_higherRanked_eq (ranked : Ranked rules)
    (listed : ∀ rule, start = some rule ∨ some rule ∈ options → rule ∈ rules) {other : Rule}
    (given : start = some other ∨ some other ∈ options) :
    ∃ rule, options.foldl higherRanked start = some rule ∧ rule.Heads other := by
  induction options generalizing start other with
  | nil =>
      cases given with
      | inl only => exact ⟨other, only, Or.inl rfl⟩
      | inr impossible => cases impossible
  | cons option options ih =>
      have listedBoth : ∀ rule, start = some rule ∨ option = some rule → rule ∈ rules := by
        rintro rule (first | second)
        · exact listed rule (Or.inl first)
        · exact listed rule (Or.inr (second ▸ List.mem_cons_self))
      have listedNext : ∀ rule, higherRanked start option = some rule ∨ some rule ∈ options →
          rule ∈ rules := by
        rintro rule (better | later)
        · exact listedBoth rule (higherRanked_eq_some better)
        · exact listed rule (Or.inr (List.mem_cons_of_mem _ later))
      have early (both : start = some other ∨ option = some other) :
          ∃ rule, (option :: options).foldl higherRanked start = some rule ∧ rule.Heads other := by
        obtain ⟨better, found, heads⟩ := exists_higherRanked_eq ranked listedBoth both
        obtain ⟨rule, last, headsBetter⟩ := ih listedNext (Or.inl found)
        exact ⟨rule, last, headsBetter.trans heads⟩
      rcases given with first | member
      · exact early (Or.inl first)
      · rcases List.mem_cons.1 member with second | later
        · exact early (Or.inr second.symm)
        · exact ih listedNext (Or.inr later)

end Chunk

end WebBundle

namespace WebBundle.CacheGroup.Rule

/-! ## The order of evaluation -/

variable {groups : List CacheGroup} {rules : List Rule} {rule other : Rule}

/-- What the order of evaluation and the ranks of some rules have to do with each other. -/
structure EvaluatesByRank (groups : List CacheGroup) (rules : List Rule) : Prop where
  strictTotalOrder :
    IsStrictTotalOrder {rule // rule ∈ rules} fun rule other => rule.1.outranks other.1 = true
  permutes : ∃ order, order.Perm groups.zipIdx ∧ List.Forall₂ Carries rules order
  before_iff (i j : Nat) (rule other : Rule) : rules[i]? = some rule → rules[j]? = some other →
    (i < j ↔ rule.outranks other = true)
  classify_eq_some_iff (resource : List Char) (initial : Bool) (rule : Rule) :
    classify? rules resource initial = some rule ↔
      rule ∈ rules ∧ rule.admits initial = true ∧ rule.test.accepts resource = true ∧
        ∀ other ∈ rules, other ≠ rule → other.admits initial = true →
          other.test.accepts resource = true → rule.outranks other = true
  classify_eq_none_iff (resource : List Char) (initial : Bool) :
    classify? rules resource initial = none ↔
      ¬ ∃ rule ∈ rules, rule.admits initial = true ∧ rule.test.accepts resource = true

theorem takes_iff {resource : List Char} {initial : Bool} :
    rule.takes resource initial = true ↔
      rule.admits initial = true ∧ rule.test.accepts resource = true :=
  Bool.and_eq_true_iff

theorem Ranked.isStrictTotalOrder (ranked : Ranked rules) :
    IsStrictTotalOrder {rule // rule ∈ rules} fun rule other => rule.1.outranks other.1 = true where
  trichotomous rule other worse better := by
    rcases ranked.total rule.2 other.2 with (same | outranks) | outranks
    · exact Subtype.ext same.symm
    · exact absurd outranks worse
    · exact absurd outranks better
  irrefl rule := not_outranks_self rule.1
  trans _ _ _ := outranks_trans

/-- The rules that a rule outranks are those behind it. -/
theorem Ranked.lt_iff_outranks (ranked : Ranked rules) {i j : Nat} (located : rules[i]? = some rule)
    (located' : rules[j]? = some other) : i < j ↔ rule.outranks other = true := by
  obtain ⟨inside, rfl⟩ := List.getElem?_eq_some_iff.1 located
  obtain ⟨inside', rfl⟩ := List.getElem?_eq_some_iff.1 located'
  have later := List.pairwise_iff_getElem.1 ranked
  constructor
  · exact later i j inside inside'
  · intro outranks
    rcases Nat.lt_trichotomy i j with before | rfl | behind
    · exact before
    · exact absurd outranks (not_outranks_self _)
    · exact absurd outranks (not_outranks_of_outranks (later j i inside' inside behind))

theorem perm_carries_of_ofGroups (made : ofGroups groups = .ok rules) :
    ∃ order, order.Perm groups.zipIdx ∧ List.Forall₂ Carries rules order := by
  unfold ofGroups at made
  cases listed : ofGroupsFrom 0 groups with
  | error error => simp [listed] at made
  | ok inConfiguration =>
      simp only [listed, Except.ok.injEq] at made
      subst made
      obtain ⟨order, carry, perm⟩ := List.perm_comp_forall₂ (inOrder_perm inConfiguration)
        (forall₂_carries_of_ofGroupsFrom listed)
      exact ⟨order, perm, carry⟩

theorem Ranked.classify?_eq_some_iff (ranked : Ranked rules) (resource : List Char)
    (initial : Bool) :
    classify? rules resource initial = some rule ↔
      rule ∈ rules ∧ rule.takes resource initial = true ∧
        ∀ other ∈ rules, other ≠ rule → other.takes resource initial = true →
          rule.outranks other = true := by
  constructor
  · intro found
    refine ⟨mem_of_classify? found, takes_of_classify? found, fun other listed ne takes => ?_⟩
    exact (ranked.heads_of_classify? found other listed takes).resolve_left ne
  · rintro ⟨listed, takes, best⟩
    cases found : classify? rules resource initial with
    | none => exact absurd takes (List.find?_eq_none.1 found rule listed)
    | some first =>
        -- The rule that is found is the given one, since each would outrank the other.
        by_contra ne
        have other : first ≠ rule := fun same => ne (congrArg some same)
        have above := best first (mem_of_classify? found) other (takes_of_classify? found)
        have below := ranked.heads_of_classify? found rule listed takes
        exact not_outranks_of_outranks above (below.resolve_left other.symm)

theorem evaluatesByRank_of_ofGroups (made : ofGroups groups = .ok rules) :
    EvaluatesByRank groups rules := by
  have ranked := ranked_ofGroups made
  refine ⟨ranked.isStrictTotalOrder, perm_carries_of_ofGroups made,
    fun i j rule other located located' => ranked.lt_iff_outranks located located',
    fun resource initial rule => ?_, fun resource initial => ?_⟩
  · simpa only [takes_iff, and_assoc, and_imp] using
      ranked.classify?_eq_some_iff resource initial
  · simp [classify?, takes_iff]

/-- Two groups have one priority, and the one that is listed third has the highest. -/
def tiedGroups : List CacheGroup :=
  [⟨"libs", .contains ["lib/"], .all, 1, false⟩, ⟨"pages", .directory "pages", .onDemand, 1, true⟩,
    ⟨"vendor", .packages ["react"], .initial, 7, false⟩, ⟨"rest", .contains [""], .all, -2, false⟩]

def libsRule : Rule := ⟨"libs", .holdsOneOf ["lib/".toList], .all, 1, false, 0⟩

def pagesRule : Rule := ⟨"pages", .holdsOneOf [directoryRun "pages"], .onDemand, 1, true, 1⟩

def vendorRule : Rule := ⟨"vendor", .holdsOneOf [packageRun "react"], .initial, 7, false, 2⟩

def restRule : Rule := ⟨"rest", .holdsOneOf [[]], .all, -2, false, 3⟩

theorem ofGroups_tiedGroups :
    ofGroups tiedGroups = .ok [vendorRule, libsRule, pagesRule, restRule] := by
  have configured :
      ofGroupsFrom 0 tiedGroups = .ok [libsRule, pagesRule, vendorRule, restRule] := rfl
  have rising : [libsRule, pagesRule, vendorRule, restRule].Pairwise
      fun rule other => rule.index < other.index := by decide
  have ranked : Ranked [vendorRule, libsRule, pagesRule, restRule] := by
    unfold Ranked
    decide
  have order : inOrder [libsRule, pagesRule, vendorRule, restRule] =
      [vendorRule, libsRule, pagesRule, restRule] := by
    refine (ranked_inOrder rising).eq_of_mem_iff ranked fun rule => ?_
    rw [(inOrder_perm _).mem_iff]
    simp only [List.mem_cons, List.not_mem_nil, or_false]
    tauto
  rw [ofGroups, configured]
  exact congrArg Except.ok order

theorem evaluatesByRank_tiedGroups :
    ofGroups tiedGroups = .ok [vendorRule, libsRule, pagesRule, restRule] ∧
      EvaluatesByRank tiedGroups [vendorRule, libsRule, pagesRule, restRule] :=
  ⟨ofGroups_tiedGroups, evaluatesByRank_of_ofGroups ofGroups_tiedGroups⟩

end WebBundle.CacheGroup.Rule
