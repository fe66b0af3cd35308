import Mathlib.Data.List.Dedup
import Mathlib.Data.List.Forall2
import Mathlib.Data.List.Induction
import Mathlib.Data.List.Nodup
import Mathlib.Data.Nat.Find
import WebBundle.Keyed
import WebBundle.Proofs.Places

/-!
# Distinct keys

The items that stay have distinct keys. If the keys were distinct before, nothing is replaced, and
another item replaces at most the one of its key. In a list of pairs with distinct keys every pair
is found.

An item is replaced by the next one of its key. What stays are the items that none replaces, in
their order, and the replacements are listed in the order of the items that replace. Every place has
an item that stays or one that is replaced once, so as many items are replaced as there are more
items than keys.
-/

namespace WebBundle

theorem lookup_eq_some_of_mem {α : Type} {pairs : List (String × α)} {name : String} {value : α}
    (distinct : (pairs.map Prod.fst).Nodup) (listed : (name, value) ∈ pairs) :
    pairs.lookup name = some value := by
  induction pairs with
  | nil => cases listed
  | cons pair pairs ih =>
      obtain ⟨first, stored⟩ := pair
      rw [List.map_cons, List.nodup_cons] at distinct
      cases List.mem_cons.1 listed with
      | inl here =>
          obtain ⟨rfl, rfl⟩ := Prod.mk.inj here
          exact List.lookup_cons_self
      | inr later =>
          have other : (name == first) = false := by
            rw [beq_eq_false_iff_ne]
            rintro rfl
            exact distinct.1 (List.mem_map.2 ⟨_, later, rfl⟩)
          rw [List.lookup_cons, other]
          exact ih distinct.2 later

namespace Keyed

section

variable {α : Type} {key : α → String}

theorem nodup_lasts (items : List α) : ((lasts key items).map key).Nodup := by
  induction items with
  | nil => exact List.nodup_nil
  | cons item items ih =>
      rw [lasts]
      split
      next => exact ih
      next new =>
        rw [List.map_cons, List.nodup_cons]
        refine ⟨fun again => ?_, ih⟩
        obtain ⟨other, listed, same⟩ := List.mem_map.1 again
        exact new (List.any_eq_true.2 ⟨other, mem_of_mem_lasts key listed, decide_eq_true same⟩)

theorem any_eq_true_iff {items : List α} {item : α} :
    (items.any fun other => key other = key item) = true ↔ key item ∈ items.map key := by
  simp only [List.any_eq_true, decide_eq_true_eq, List.mem_map]

/-- Every key stays. -/
theorem exists_mem_lasts {items : List α} {item : α} (listed : item ∈ items) :
    ∃ kept ∈ lasts key items, key kept = key item := by
  induction items generalizing item with
  | nil => cases listed
  | cons first items ih =>
      rw [lasts]
      split
      next again =>
        cases List.mem_cons.1 listed with
        | inl same =>
            subst same
            obtain ⟨other, later, sameKey⟩ := List.any_eq_true.1 again
            obtain ⟨kept, stays, keyed⟩ := ih later
            exact ⟨kept, stays, keyed.trans (of_decide_eq_true sameKey)⟩
        | inr later => exact ih later
      next =>
        cases List.mem_cons.1 listed with
        | inl same => exact ⟨first, List.mem_cons_self, same ▸ rfl⟩
        | inr later =>
            obtain ⟨kept, stays, keyed⟩ := ih later
            exact ⟨kept, List.mem_cons_of_mem first stays, keyed⟩

theorem lasts_eq_self {items : List α} (distinct : (items.map key).Nodup) :
    lasts key items = items := by
  induction items with
  | nil => rfl
  | cons item items ih =>
      rw [List.map_cons, List.nodup_cons] at distinct
      rw [lasts, if_neg fun again => distinct.1 (any_eq_true_iff.1 again), ih distinct.2]

theorem lasts_concat {items : List α} (distinct : (items.map key).Nodup) (last : α) :
    lasts key (items ++ [last]) = items.filter (fun item => key item ≠ key last) ++ [last] := by
  induction items with
  | nil => rfl
  | cons item items ih =>
      rw [List.map_cons, List.nodup_cons] at distinct
      have replaced : ((items ++ [last]).any fun other => key other = key item) = true ↔
          key item = key last := by
        rw [any_eq_true_iff, List.map_append, List.mem_append, List.map_singleton,
          List.mem_singleton, or_iff_right distinct.1]
      rw [List.cons_append, lasts, ih distinct.2]
      by_cases same : key item = key last
      · rw [if_pos (replaced.2 same), List.filter_cons_of_neg (by simpa using same)]
      · rw [if_neg fun again => same (replaced.1 again),
          List.filter_cons_of_pos (by simpa using same), List.cons_append]

end

/-! ## Places of keys -/

/-- The key at the later place is the next one that equals the key at the earlier place. -/
structure Replaces (keys : List String) (old new : Nat) : Prop where
  before : old < new
  inside : new < keys.length
  same : keys[old]? = keys[new]?
  next : ∀ between, old < between → between < new → keys[between]? ≠ keys[new]?

/-- The key at the place does not come again. -/
structure IsLast (keys : List String) (place : Nat) : Prop where
  inside : place < keys.length
  noLater : ∀ later, place < later → keys[later]? ≠ keys[place]?

section

variable {keys : List String} {old new other place : Nat}

theorem Replaces.not_isLast (replaces : Replaces keys old new) : ¬IsLast keys old :=
  fun isLast => isLast.noLater new replaces.before replaces.same.symm

/-- An item is replaced once. -/
theorem Replaces.eq_new (replaces : Replaces keys old new) (replaces' : Replaces keys old other) :
    new = other := by
  rcases Nat.lt_trichotomy new other with earlier | same | later
  · exact absurd (replaces.same.symm.trans replaces'.same)
      (replaces'.next new replaces.before earlier)
  · exact same
  · exact absurd (replaces'.same.symm.trans replaces.same)
      (replaces.next other replaces'.before later)

theorem exists_replaces (inside : place < keys.length) (again : ¬IsLast keys place) :
    ∃ later, Replaces keys place later := by
  have comes : ∃ later, place < later ∧ keys[later]? = keys[place]? := by
    by_contra never
    rw [not_exists] at never
    exact again ⟨inside, fun later behind same => never later ⟨behind, same⟩⟩
  obtain ⟨behind, same⟩ := Nat.find_spec comes
  refine ⟨Nat.find comes, behind, ?_, same.symm, fun between after before same' => ?_⟩
  · have found := same.trans (List.getElem?_eq_getElem inside)
    exact (List.getElem?_eq_some_iff.1 found).1
  · exact Nat.find_min comes before ⟨after, same'.trans same⟩

theorem isLast_cons_zero {key : String} : IsLast (key :: keys) 0 ↔ key ∉ keys := by
  constructor
  · intro isLast again
    obtain ⟨place, found⟩ := List.mem_iff_getElem?.1 again
    exact isLast.noLater (place + 1) (Nat.succ_pos place) (by simpa using found)
  · refine fun new => ⟨by simp, fun later behind same => new ?_⟩
    obtain ⟨place, rfl⟩ := Nat.exists_eq_succ_of_ne_zero (Nat.ne_of_gt behind)
    exact List.mem_of_getElem? (by simpa using same)

theorem isLast_cons_succ {key : String} : IsLast (key :: keys) (place + 1) ↔ IsLast keys place := by
  constructor
  · rintro ⟨inside, noLater⟩
    refine ⟨by simpa using inside, fun later behind => ?_⟩
    simpa using noLater (later + 1) (Nat.succ_lt_succ behind)
  · rintro ⟨inside, noLater⟩
    refine ⟨by simpa using inside, fun later behind => ?_⟩
    obtain ⟨later, rfl⟩ := Nat.exists_eq_succ_of_ne_zero (Nat.ne_of_gt (Nat.zero_lt_of_lt behind))
    simpa using noLater later (Nat.lt_of_succ_lt_succ behind)

/-- One more key replaces the last one that equals it. -/
theorem replaces_concat {key : String} :
    Replaces (keys ++ [key]) old new ↔ Replaces keys old new ∨
      new = keys.length ∧ IsLast keys old ∧ keys[old]? = some key := by
  have front {place : Nat} (inside : place < keys.length) :
      (keys ++ [key])[place]? = keys[place]? := List.getElem?_append_left inside
  have last : (keys ++ [key])[keys.length]? = some key := List.getElem?_concat_length
  constructor
  · rintro ⟨before, inside, same, next⟩
    rw [List.length_append, List.length_singleton] at inside
    rcases Nat.lt_succ_iff_lt_or_eq.1 inside with earlier | rfl
    · rw [front earlier, front (Nat.lt_trans before earlier)] at same
      refine .inl ⟨before, earlier, same, fun between after below => ?_⟩
      rw [← front (Nat.lt_trans below earlier), ← front earlier]
      exact next between after below
    · rw [front before, last] at same
      refine .inr ⟨rfl, ⟨before, fun later behind again => ?_⟩, same⟩
      rw [same] at again
      have below := (List.getElem?_eq_some_iff.1 again).1
      refine next later behind below ?_
      rw [front below, last, again]
  · rintro (⟨before, inside, same, next⟩ | ⟨rfl, isLast, same⟩)
    · refine ⟨before, by simpa using Nat.lt_succ_of_lt inside, ?_, fun between after below => ?_⟩
      · rwa [front inside, front (Nat.lt_trans before inside)]
      · rw [front inside, front (Nat.lt_trans below inside)]
        exact next between after below
    · refine ⟨isLast.inside, by simp, ?_, fun between after below => ?_⟩
      · rw [front isLast.inside, last, same]
      · rw [front below, last, ← same]
        exact isLast.noLater between after

end

/-! ## The items that stay -/

variable {α : Type} (key : α → String)

/-- Some items stand at some places of a list. -/
abbrev Stand (items : List α) (places : List Nat) (found : List α) : Prop :=
  List.Forall₂ (fun place item => items[place]? = some item) places found

theorem exists_places_lasts (items : List α) :
    ∃ places : List Nat, places.Pairwise (· < ·) ∧
      (∀ place, place ∈ places ↔ IsLast (items.map key) place) ∧
        Stand items places (lasts key items) := by
  induction items with
  | nil => exact ⟨[], .nil, fun place => ⟨nofun, fun isLast => nomatch isLast.inside⟩, .nil⟩
  | cons item items ih =>
      obtain ⟨places, rising, isPlace, stand⟩ := ih
      have rising' : (places.map (· + 1)).Pairwise (· < ·) :=
        List.pairwise_map.2 (rising.imp Nat.succ_lt_succ)
      have stand' : Stand (item :: items) (places.map (· + 1)) (lasts key items) :=
        List.forall₂_map_left_iff.2 (stand.imp fun _ _ found => found)
      have isLater (place : Nat) :
          place + 1 ∈ places.map (· + 1) ↔ IsLast ((item :: items).map key) (place + 1) := by
        rw [List.map_cons, isLast_cons_succ, ← isPlace]
        simp
      have again := @any_eq_true_iff α key items item
      rw [lasts]
      split
      next comes =>
        refine ⟨places.map (· + 1), rising', fun place => ?_, stand'⟩
        cases place with
        | zero =>
            rw [List.map_cons, isLast_cons_zero]
            exact iff_of_false (by simp) (not_not.2 (again.1 comes))
        | succ place => exact isLater place
      next never =>
        refine ⟨0 :: places.map (· + 1), ?_, fun place => ?_, .cons rfl stand'⟩
        · refine List.pairwise_cons.2 ⟨fun later listed => ?_, rising'⟩
          obtain ⟨place, _, rfl⟩ := List.mem_map.1 listed
          exact Nat.succ_pos place
        · cases place with
          | zero =>
              rw [List.map_cons, isLast_cons_zero]
              exact iff_of_true List.mem_cons_self (mt again.2 never)
          | succ place =>
              rw [← isLater place, List.mem_cons, or_iff_right (Nat.succ_ne_zero place)]

/-- Every key stays. -/
theorem mem_map_lasts {items : List α} {name : String} :
    name ∈ (lasts key items).map key ↔ name ∈ items.map key := by
  constructor
  · intro stays
    obtain ⟨item, kept, rfl⟩ := List.mem_map.1 stays
    exact List.mem_map_of_mem (mem_of_mem_lasts key kept)
  · intro given
    obtain ⟨item, listed, rfl⟩ := List.mem_map.1 given
    obtain ⟨kept, stays, same⟩ := @exists_mem_lasts _ key _ _ listed
    exact same ▸ List.mem_map_of_mem stays

/-- Behind an item that stays its key does not come again. -/
theorem exists_append_of_mem_lasts {items : List α} {item : α} (stays : item ∈ lasts key items) :
    ∃ before after, items = before ++ item :: after ∧ ∀ later ∈ after, key later ≠ key item := by
  induction items with
  | nil => cases stays
  | cons first items ih =>
      have later (stays : item ∈ lasts key items) : ∃ before after,
          first :: items = before ++ item :: after ∧ ∀ later ∈ after, key later ≠ key item := by
        obtain ⟨before, after, same, last⟩ := ih stays
        exact ⟨first :: before, after, by rw [same, List.cons_append], last⟩
      rw [lasts] at stays
      split at stays
      next => exact later stays
      next never =>
        cases List.mem_cons.1 stays with
        | inl here =>
            subst here
            refine ⟨[], items, rfl, fun other behind same => never ?_⟩
            exact any_eq_true_iff.2 (same ▸ List.mem_map_of_mem behind)
        | inr stays => exact later stays

theorem length_lasts (items : List α) :
    (lasts key items).length = (items.map key).dedup.length := by
  have same : ((lasts key items).map key).Perm (items.map key).dedup :=
    (List.perm_ext_iff_of_nodup (nodup_lasts items) (List.nodup_dedup _)).2 fun name => by
      rw [mem_map_lasts, List.mem_dedup]
  rw [← same.length_eq, List.length_map]

/-! ## The replacements -/

theorem replacements_append (earlier items others : List α) :
    replacements key earlier (items ++ others) =
      replacements key earlier items ++ replacements key (items.reverse ++ earlier) others := by
  induction items generalizing earlier with
  | nil => rfl
  | cons item items ih =>
      rw [List.cons_append, replacements, replacements, ih, List.reverse_cons, List.append_assoc]
      cases earlier.find? fun other => key other = key item with
      | none => rfl
      | some old => rfl

/-- The last item of a key is found from the end of the list. -/
theorem find?_reverse_eq_some {items : List α} {name : String} {item : α}
    (found : items.reverse.find? (fun other => key other = name) = some item) :
    ∃ place, IsLast (items.map key) place ∧ items[place]? = some item ∧ key item = name := by
  rw [List.find?_eq_some_iff_getElem] at found
  obtain ⟨same, index, inside, isItem, none⟩ := found
  rw [List.length_reverse] at inside
  have behind {later : Nat} (below : later < index) : key items.reverse[later] ≠ name := by
    simpa using none later below
  have here : items.reverse[index]? = items[items.length - 1 - index]? :=
    List.getElem?_reverse inside
  have isItem : items[items.length - 1 - index]? = some item := by
    rw [← here, List.getElem?_eq_getElem (by simpa using inside), isItem]
  have same : key item = name := of_decide_eq_true same
  refine ⟨items.length - 1 - index, ⟨by rw [List.length_map]; omega, fun later below again => ?_⟩,
    isItem, same⟩
  rw [List.getElem?_map, List.getElem?_map, isItem, Option.map_some, same,
    Option.map_eq_some_iff] at again
  obtain ⟨other, isOther, sameKey⟩ := again
  have short := (List.getElem?_eq_some_iff.1 isOther).1
  have there : items.reverse[items.length - 1 - later]? = some other := by
    rw [List.getElem?_reverse (by omega), ← isOther]
    congr 1
    omega
  obtain ⟨inside', isOther'⟩ := List.getElem?_eq_some_iff.1 there
  exact behind (by omega) (isOther' ▸ sameKey)

/-- The pairs of an item and the one that replaces it, at some pairs of places. -/
abbrev StandPaired (items : List α) (places : List (Nat × Nat)) (found : List (α × α)) : Prop :=
  List.Forall₂ (fun pair both => items[pair.1]? = some both.1 ∧ items[pair.2]? = some both.2)
    places found

theorem exists_places_replacements (items : List α) :
    ∃ places : List (Nat × Nat), places.Pairwise (fun first second => first.2 < second.2) ∧
      (∀ old new, (old, new) ∈ places ↔ Replaces (items.map key) old new) ∧
        StandPaired items places (replacements key [] items) := by
  induction items using List.reverseRecOn with
  | nil => exact ⟨[], .nil, fun old new => ⟨nofun, fun replaces => nomatch replaces.inside⟩, .nil⟩
  | append_singleton items item ih =>
      obtain ⟨places, rising, isPair, stand⟩ := ih
      have longer : ∀ {place : Nat} {other : α}, items[place]? = some other →
          (items ++ [item])[place]? = some other := fun found =>
        (List.getElem?_append_left (List.getElem?_eq_some_iff.1 found).1).trans found
      have stand' : StandPaired (items ++ [item]) places (replacements key [] items) :=
        stand.imp fun _ _ found => ⟨longer found.1, longer found.2⟩
      have replaced : (items ++ [item]).map key = items.map key ++ [key item] := List.map_append
      rw [replacements_append, List.append_nil, replaced]
      cases earlier : items.reverse.find? fun other => key other = key item with
      | none =>
          have new : key item ∉ items.map key := by
            intro again
            obtain ⟨other, listed, same⟩ := List.mem_map.1 again
            rw [List.find?_eq_none] at earlier
            exact earlier other (List.mem_reverse.2 listed) (decide_eq_true same)
          refine ⟨places, rising, fun old last => ?_, ?_⟩
          · rw [isPair, replaces_concat, or_iff_left]
            rintro ⟨_, _, again⟩
            exact new (List.mem_of_getElem? again)
          · simpa [replacements, earlier] using stand'
      | some old =>
          obtain ⟨place, isLast, isOld, same⟩ := find?_reverse_eq_some key earlier
          refine ⟨places ++ [(place, items.length)], ?_, fun old' last => ?_, ?_⟩
          · refine List.pairwise_append.2 ⟨rising, List.pairwise_singleton _ _, ?_⟩
            rintro ⟨first, second⟩ listed _ end'
            obtain rfl := List.mem_singleton.1 end'
            simpa using ((isPair first second).1 listed).inside
          · rw [replaces_concat, List.mem_append, isPair, List.mem_singleton, Prod.mk.injEq,
              List.length_map]
            refine or_congr_right ⟨?_, ?_⟩
            · rintro ⟨rfl, rfl⟩
              refine ⟨rfl, isLast, ?_⟩
              rw [List.getElem?_map, isOld, Option.map_some, same]
            · rintro ⟨rfl, isLast', same'⟩
              refine ⟨?_, rfl⟩
              have atPlace : (items.map key)[place]? = some (key item) := by
                rw [List.getElem?_map, isOld, Option.map_some, same]
              rcases Nat.lt_trichotomy old' place with before | here | behind
              · exact absurd (atPlace.trans same'.symm) (isLast'.noLater place before)
              · exact here
              · exact absurd (same'.trans atPlace.symm) (isLast.noLater old' behind)
          · have last : replacements key items.reverse [item] = [(old, item)] := by
              simp [replacements, earlier]
            rw [last]
            refine List.rel_append stand' (.cons ⟨longer isOld, ?_⟩ .nil)
            exact List.getElem?_concat_length

/-- Every place has an item that stays or one that is replaced, and no place comes twice. -/
theorem perm_range {keys : List String} {stays : List Nat} {places : List (Nat × Nat)}
    (rising : stays.Pairwise (· < ·)) (isLast : ∀ place, place ∈ stays ↔ IsLast keys place)
    (rising' : places.Pairwise fun first second => first.2 < second.2)
    (isPair : ∀ old new, (old, new) ∈ places ↔ Replaces keys old new) :
    (places.map Prod.fst ++ stays).Perm (List.range keys.length) := by
  have once : (places.map Prod.fst).Nodup := by
    refine List.pairwise_map.2 (rising'.imp_of_mem ?_)
    rintro ⟨old, new⟩ ⟨old', new'⟩ listed listed' below rfl
    have same := ((isPair old new).1 listed).eq_new ((isPair old new').1 listed')
    exact absurd same (Nat.ne_of_lt below)
  have apart : (places.map Prod.fst).Disjoint stays := by
    intro place replaced stay
    obtain ⟨⟨_, new⟩, listed, rfl⟩ := List.mem_map.1 replaced
    exact ((isPair _ new).1 listed).not_isLast ((isLast _).1 stay)
  have nodup : (places.map Prod.fst ++ stays).Nodup :=
    once.append (nodup_of_pairwise_lt rising) apart
  refine (List.perm_ext_iff_of_nodup nodup List.nodup_range).2 fun place => ?_
  rw [List.mem_append, isLast, List.mem_range]
  constructor
  · rintro (replaced | stay)
    · obtain ⟨⟨_, new⟩, listed, rfl⟩ := List.mem_map.1 replaced
      have replaces := (isPair _ new).1 listed
      exact Nat.lt_trans replaces.before replaces.inside
    · exact stay.inside
  · intro inside
    refine or_iff_not_imp_right.2 fun again => ?_
    obtain ⟨new, replaces⟩ := exists_replaces inside again
    exact List.mem_map.2 ⟨(place, new), (isPair place new).2 replaces, rfl⟩

theorem length_replacements (items : List α) :
    (replacements key [] items).length + (lasts key items).length = items.length := by
  obtain ⟨stays, rising, isLast, stand⟩ := exists_places_lasts key items
  obtain ⟨places, rising', isPair, paired⟩ := exists_places_replacements key items
  have whole := (perm_range rising isLast rising' isPair).length_eq
  rw [List.length_append, List.length_map, List.length_range, List.length_map] at whole
  rw [← paired.length_eq, ← stand.length_eq, whole]

/-- Nothing is replaced among items with distinct keys. -/
theorem replacements_eq_nil {items : List α} (distinct : (items.map key).Nodup) :
    replacements key [] items = [] := by
  have whole := length_replacements key items
  rw [lasts_eq_self distinct] at whole
  exact List.length_eq_zero_iff.1 (by omega)

end Keyed

end WebBundle
