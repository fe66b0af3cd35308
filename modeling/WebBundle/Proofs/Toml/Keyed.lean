import Mathlib.Data.List.Nodup
import WebBundle.Toml.Reader

/-!
# Distinct keys

No table of a document has a key twice: a pair or a header for a key that is taken is an error, and
whatever else a header changes keeps the keys of the table. This holds for the tree while it is put
together, for every inline table, and so for the value that is read.
-/

namespace WebBundle.Toml

/-- Every table in a value has distinct keys. -/
inductive Keyed : Toml → Prop where
  | string (value : String) : Keyed (.string value)
  | integer (value : Int) : Keyed (.integer value)
  | real : Keyed .real
  | bool (value : Bool) : Keyed (.bool value)
  | moment (text : String) : Keyed (.moment text)
  | array {items : List Toml} : (∀ item ∈ items, Keyed item) → Keyed (.array items)
  | table {fields : List (String × Toml)} : (fields.map Prod.fst).Nodup →
      (∀ field ∈ fields, Keyed field.2) → Keyed (.table fields)

namespace Node

/-- Every table in a tree has distinct keys. -/
inductive Keyed : Node → Prop where
  | value {value : Toml} : value.Keyed → Keyed (.value value)
  | table {implied dotted : Bool} {fields : List (String × Node)} : (fields.map Prod.fst).Nodup →
      (∀ field ∈ fields, Keyed field.2) → Keyed (.table implied dotted fields)
  | series {earlier : List Node} {last : Node} : (∀ node ∈ earlier, Keyed node) → Keyed last →
      Keyed (.series earlier last)

theorem keyed_empty {implied dotted : Bool} : Keyed (.table implied dotted []) :=
  .table List.nodup_nil fun _ impossible => absurd impossible List.not_mem_nil

/-! ## Children -/

variable {key : String} {node : Node} {fields : List (String × Node)}

theorem mem_of_child? (found : child? key fields = some node) : (key, node) ∈ fields := by
  induction fields with
  | nil => cases found
  | cons field fields ih =>
      obtain ⟨name, first⟩ := field
      rw [child?] at found
      split at found
      next same =>
        obtain rfl := Option.some.inj found
        rw [same]
        exact List.mem_cons_self
      next => exact List.mem_cons_of_mem _ (ih found)

theorem not_mem_of_child? (missing : child? key fields = none) : key ∉ fields.map Prod.fst := by
  induction fields with
  | nil => simp
  | cons field fields ih =>
      obtain ⟨name, first⟩ := field
      rw [child?] at missing
      split at missing
      next => cases missing
      next other =>
        rw [List.map_cons, List.mem_cons, not_or]
        exact ⟨fun same => other same.symm, ih missing⟩

theorem mem_setChild {field : String × Node} (member : field ∈ setChild key node fields) :
    field = (key, node) ∨ field ∈ fields := by
  induction fields with
  | nil => exact Or.inl (List.mem_singleton.1 member)
  | cons first fields ih =>
      obtain ⟨name, old⟩ := first
      rw [setChild] at member
      split at member
      next same =>
        rcases List.mem_cons.1 member with rfl | later
        · exact Or.inl (by rw [same])
        · exact Or.inr (List.mem_cons_of_mem _ later)
      next =>
        rcases List.mem_cons.1 member with rfl | later
        · exact Or.inr List.mem_cons_self
        · exact (ih later).imp_right (List.mem_cons_of_mem _)

theorem nodup_setChild (nodup : (fields.map Prod.fst).Nodup) :
    ((setChild key node fields).map Prod.fst).Nodup := by
  induction fields with
  | nil => simp [setChild]
  | cons first fields ih =>
      obtain ⟨name, old⟩ := first
      rw [List.map_cons, List.nodup_cons] at nodup
      rw [setChild]
      split
      next => exact List.nodup_cons.2 nodup
      next other =>
        refine List.nodup_cons.2 ⟨fun member => ?_, ih nodup.2⟩
        obtain ⟨field, listed, same⟩ := List.mem_map.1 member
        rcases mem_setChild listed with rfl | there
        · exact other same.symm
        · exact nodup.1 (List.mem_map.2 ⟨field, there, same⟩)

section

variable {implied dotted : Bool} (keyed : Keyed (.table implied dotted fields))

include keyed

theorem Keyed.child (found : child? key fields = some node) : node.Keyed := by
  cases keyed with
  | table _ inside => exact inside _ (mem_of_child? found)

theorem Keyed.setChild (child : node.Keyed) :
    Keyed (.table implied dotted (Node.setChild key node fields)) := by
  cases keyed with
  | table nodup inside =>
      refine .table (nodup_setChild nodup) fun field member => ?_
      rcases mem_setChild member with rfl | there
      · exact child
      · exact inside field there

theorem Keyed.add (missing : child? key fields = none) (child : node.Keyed) :
    Keyed (.table implied dotted (fields ++ [(key, node)])) := by
  cases keyed with
  | table nodup inside =>
      constructor
      · rw [List.map_append, List.nodup_append]
        refine ⟨nodup, List.nodup_singleton _, ?_⟩
        rintro first member second last rfl
        rw [List.mem_singleton.1 last] at member
        exact not_mem_of_child? missing member
      · intro field member
        cases List.mem_append.1 member with
        | inl there => exact inside field there
        | inr last =>
            obtain rfl := List.mem_singleton.1 last
            exact child

end

/-! ## Changes -/

/-- A change below a path keeps keys distinct if it does so where it is made. -/
theorem keyed_changeAt {dotted : Bool} {change : Node → Option Node}
    (keeps : ∀ node changed, Keyed node → change node = some changed → changed.Keyed)
    {path : List String} {node changed : Node} (keyed : node.Keyed)
    (made : changeAt dotted change path node = some changed) : changed.Keyed := by
  induction path, node using changeAt.induct dotted generalizing changed with
  | case1 node =>
      rw [changeAt] at made
      exact keeps node changed keyed made
  | case2 key path implied isDotted fields missing ih =>
      rw [changeAt, missing] at made
      obtain ⟨child, childMade, same⟩ := Option.bind_eq_some_iff.1 made
      obtain rfl := Option.some.inj same
      exact keyed.setChild (ih keyed_empty childMade)
  | case3 key path implied isDotted fields value found =>
      rw [changeAt, found] at made
      cases made
  | case4 key path implied isDotted fields earlier last found ih =>
      rw [changeAt, found] at made
      obtain ⟨child, childMade, same⟩ := Option.bind_eq_some_iff.1 made
      obtain ⟨changedLast, lastMade, rfl⟩ := Option.map_eq_some_iff.1 childMade
      obtain rfl := Option.some.inj same
      cases keyed.child found with
      | series keyedEarlier keyedLast =>
          exact keyed.setChild (.series keyedEarlier (ih keyedLast lastMade))
  | case5 key path implied isDotted fields childImplied childDotted childFields found headed =>
      rw [changeAt, found] at made
      simp [headed] at made
  | case6 key path implied isDotted fields childImplied childDotted childFields found free ih =>
      rw [changeAt, found] at made
      simp only [free] at made
      obtain ⟨child, childMade, same⟩ := Option.bind_eq_some_iff.1 made
      obtain rfl := Option.some.inj same
      exact keyed.setChild (ih (keyed.child found) childMade)
  | case7 key path node noTable =>
      cases node with
      | table implied isDotted fields => exact absurd rfl (noTable implied isDotted fields)
      | value value => cases made
      | series earlier last => cases made

theorem keyed_insert {path : List String} {value : Toml} {changed : Node} (keyed : node.Keyed)
    (keyedValue : value.Keyed) (made : insert path key value node = some changed) :
    changed.Keyed := by
  refine keyed_changeAt (fun table changed keyed made => ?_) keyed made
  cases table with
  | value => cases made
  | series => cases made
  | table implied dotted fields =>
      dsimp only at made
      split at made
      next => cases made
      next free =>
        obtain rfl := Option.some.inj made
        have missing : child? key fields = none := by
          simp only [Bool.or_eq_true, not_or, Bool.not_eq_true, Option.isSome_eq_false_iff,
            Option.isNone_iff_eq_none] at free
          exact free.2
        exact keyed.add missing (.value keyedValue)

theorem keyed_openTable {path : List String} {changed : Node} (keyed : node.Keyed)
    (made : openTable path key node = some changed) : changed.Keyed := by
  refine keyed_changeAt (fun table changed keyed made => ?_) keyed made
  cases table with
  | value => cases made
  | series => cases made
  | table implied dotted fields =>
      dsimp only at made
      split at made
      next missing =>
        obtain rfl := Option.some.inj made
        exact keyed.add missing keyed_empty
      next childFields found =>
        obtain rfl := Option.some.inj made
        have old : Keyed (.table true false childFields) := keyed.child found
        refine keyed.setChild ?_
        cases old with
        | table nodupChild insideChild => exact .table nodupChild insideChild
      next => cases made

theorem keyed_openElement {path : List String} {changed : Node} (keyed : node.Keyed)
    (made : openElement path key node = some changed) : changed.Keyed := by
  refine keyed_changeAt (fun table changed keyed made => ?_) keyed made
  cases table with
  | value => cases made
  | series => cases made
  | table implied dotted fields =>
      dsimp only at made
      split at made
      next missing =>
        obtain rfl := Option.some.inj made
        refine keyed.add missing (.series ?_ keyed_empty)
        exact fun _ impossible => absurd impossible List.not_mem_nil
      next earlier last found =>
        obtain rfl := Option.some.inj made
        have old : Keyed (.series earlier last) := keyed.child found
        refine keyed.setChild ?_
        cases old with
        | series keyedEarlier keyedLast =>
            refine .series (fun item member => ?_) keyed_empty
            cases List.mem_append.1 member with
            | inl there => exact keyedEarlier item there
            | inr isLast =>
                rw [List.mem_singleton.1 isLast]
                exact keyedLast
      next => cases made

/-! ## The finished value -/

theorem fieldsToToml_eq (fields : List (String × Node)) :
    fieldsToToml fields = fields.map fun field => (field.1, field.2.toToml) := by
  induction fields with
  | nil => rfl
  | cons field fields ih => rw [fieldsToToml, ih, List.map_cons]

theorem itemsToToml_eq (nodes : List Node) : itemsToToml nodes = nodes.map toToml := by
  induction nodes with
  | nil => rfl
  | cons node nodes ih => rw [itemsToToml, ih, List.map_cons]

theorem Keyed.toToml {node : Node} (keyed : node.Keyed) : node.toToml.Keyed := by
  induction keyed with
  | value keyed =>
      rw [Node.toToml]
      exact keyed
  | table nodup _ ih =>
      rw [Node.toToml, fieldsToToml_eq]
      constructor
      · rw [List.map_map]
        exact nodup
      · intro field member
        obtain ⟨origin, listed, rfl⟩ := List.mem_map.1 member
        exact ih origin listed
  | series _ _ ih ihLast =>
      rw [Node.toToml, itemsToToml_eq]
      refine .array fun item member => ?_
      cases List.mem_append.1 member with
      | inl there =>
          obtain ⟨origin, listed, rfl⟩ := List.mem_map.1 there
          exact ih origin listed
      | inr isLast =>
          rw [List.mem_singleton.1 isLast]
          exact ihLast

end Node

/-! ## Reading -/

variable {text rest : List Char} {value : Toml}

theorem keyed_of_boundedInteger? {n : Int} (read : boundedInteger? n = some value) :
    value.Keyed := by
  rw [boundedInteger?] at read
  split at read
  next =>
    obtain rfl := Option.some.inj read
    exact .integer n
  next => cases read

theorem keyed_of_readRadix? {base : Nat} {isDigit : Char → Bool}
    (read : readRadix? base isDigit text = some (value, rest)) : value.Keyed := by
  obtain ⟨⟨digits, after⟩, _, read⟩ := Option.bind_eq_some_iff.1 read
  obtain ⟨number, bounded, same⟩ := Option.bind_eq_some_iff.1 read
  obtain ⟨rfl, _⟩ := Prod.mk.inj (Option.some.inj same)
  exact keyed_of_boundedInteger? bounded

theorem keyed_of_readInteger? : readInteger? text = some (value, rest) → value.Keyed := by
  fun_cases readInteger? text with
  | case1 => exact keyed_of_readRadix?
  | case2 => exact keyed_of_readRadix?
  | case3 => exact keyed_of_readRadix?
  | case4 =>
      intro read
      obtain ⟨⟨digits, after⟩, _, read⟩ := Option.bind_eq_some_iff.1 read
      obtain ⟨number, bounded, same⟩ := Option.bind_eq_some_iff.1 read
      obtain ⟨rfl, _⟩ := Prod.mk.inj (Option.some.inj same)
      exact keyed_of_boundedInteger? bounded

theorem keyed_of_readReal? : readReal? text = some (value, rest) → value.Keyed := by
  have real : ∀ {after : List Char}, some (Toml.real, after) = some (value, rest) →
      value.Keyed := by
    intro after same
    obtain ⟨rfl, _⟩ := Prod.mk.inj (Option.some.inj same)
    exact .real
  fun_cases readReal? text with
  | case1 => exact real
  | case2 => exact real
  | case3 =>
      intro read
      obtain ⟨⟨whole, text⟩, _, read⟩ := Option.bind_eq_some_iff.1 read
      obtain ⟨⟨fraction, text⟩, _, read⟩ := Option.bind_eq_some_iff.1 read
      obtain ⟨⟨exponent, after⟩, _, read⟩ := Option.bind_eq_some_iff.1 read
      dsimp only at read
      split at read
      next => cases read
      next =>
        split at read
        next => cases read
        next => exact real read

theorem keyed_of_readMoment? : readMoment? text = some (value, rest) → value.Keyed := by
  have moment : ∀ {written : String} {after : List Char},
      some (Toml.moment written, after) = some (value, rest) → value.Keyed := by
    intro written after same
    obtain ⟨rfl, _⟩ := Prod.mk.inj (Option.some.inj same)
    exact .moment written
  fun_cases readMoment? text with
  | case1 =>
      intro read
      obtain ⟨after, _, same⟩ := Option.map_eq_some_iff.1 read
      exact moment (congrArg some same)
  | case2 => exact moment
  | case3 => exact moment

theorem keyed_of_readNumber? : readNumber? text = some (value, rest) → value.Keyed := by
  fun_cases readNumber? text with
  | case1 read isMoment =>
      rintro ⟨⟩
      exact keyed_of_readMoment? isMoment
  | case2 _ read isReal =>
      rintro ⟨⟩
      exact keyed_of_readReal? isReal
  | case3 => exact keyed_of_readInteger?

/-- What is read with some fuel has distinct keys, if what it is put together from has. -/
structure KeyedReads (fuel : Nat) : Prop where
  values : ∀ room text value rest, readValue? fuel room text = some (value, rest) → value.Keyed
  items : ∀ room listed text value rest, (∀ item ∈ listed, Keyed item) →
    readItems? fuel room listed text = some (value, rest) → value.Keyed
  fields : ∀ room node text value rest, Node.Keyed node →
    readFields? fuel room node text = some (value, rest) → value.Keyed

/-- By induction on the fuel that values, items and fields share. -/
theorem keyedReads (fuel : Nat) : KeyedReads fuel := by
  induction fuel using Nat.strongRecOn with
  | _ fuel earlier =>
      constructor
      case values =>
        intro room text value rest
        fun_cases readValue? fuel room text with
        | case1 => exact nofun
        | case2 =>
            intro read
            obtain ⟨⟨content, after⟩, _, same⟩ := Option.map_eq_some_iff.1 read
            obtain ⟨rfl, _⟩ := Prod.mk.inj same
            exact .string _
        | case3 =>
            intro read
            obtain ⟨⟨content, after⟩, _, same⟩ := Option.map_eq_some_iff.1 read
            obtain ⟨rfl, _⟩ := Prod.mk.inj same
            exact .string _
        | case4 => exact nofun
        | case5 fuel room text =>
            exact (earlier fuel (Nat.lt_succ_self fuel)).items _ _ _ _ _ fun _ impossible =>
              absurd impossible List.not_mem_nil
        | case6 => exact nofun
        | case7 =>
            rintro ⟨⟩
            exact .table List.nodup_nil fun _ impossible => absurd impossible List.not_mem_nil
        | case8 fuel room text =>
            exact (earlier fuel (Nat.lt_succ_self fuel)).fields _ _ _ _ _ Node.keyed_empty
        | case9 =>
            rintro ⟨⟩
            exact .bool true
        | case10 =>
            rintro ⟨⟩
            exact .bool false
        | case11 => exact keyed_of_readNumber?
      case items =>
        intro room listed text value rest inside read
        cases fuel with
        | zero => simp [readItems?] at read
        | succ fuel =>
            have shorter := earlier fuel (Nat.lt_succ_self fuel)
            rw [readItems?] at read
            split at read
            · cases read
              exact .array fun item member => inside item (List.mem_reverse.1 member)
            · cases one : readValue? fuel room (skipLines fuel text) with
              | none => simp [one] at read
              | some found =>
                  obtain ⟨item, after⟩ := found
                  have both := List.forall_mem_cons.2 ⟨shorter.values _ _ _ _ one, inside⟩
                  simp only [one] at read
                  split at read
                  · exact shorter.items _ _ _ _ _ both read
                  · cases read
                    exact .array fun other member => both other (List.mem_reverse.1 member)
                  · cases read
      case fields =>
        intro room node text value rest keyed
        fun_cases readFields? fuel room node text with
        | case1 => exact nofun
        | case2 => exact nofun
        | case3 => exact nofun
        | case4 => exact nofun
        | case5 fuel room node text path key behind item after read changed inserted =>
            have keyedItem := (earlier fuel (Nat.lt_succ_self fuel)).values _ _ _ _ read
            exact (earlier fuel (Nat.lt_succ_self fuel)).fields _ _ _ _ _
              (Node.keyed_insert keyed keyedItem inserted)
        | case6 fuel room node text path key behind item after read changed inserted =>
            have keyedItem := (earlier fuel (Nat.lt_succ_self fuel)).values _ _ _ _ read
            rintro ⟨⟩
            exact (Node.keyed_insert keyed keyedItem inserted).toToml
        | case7 => exact nofun
        | case8 => exact nofun

/-! ## Documents -/

theorem keyed_of_readHeader? {document changed : Document} (keyed : document.root.Keyed) :
    readHeader? document text = some (changed, rest) → changed.root.Keyed := by
  fun_cases readHeader? document text with
  | case1 text =>
      intro read
      obtain ⟨⟨⟨path, key⟩, after⟩, _, read⟩ := Option.bind_eq_some_iff.1 read
      dsimp only at read
      split at read
      next =>
        obtain ⟨root, opened, same⟩ := Option.bind_eq_some_iff.1 read
        obtain ⟨rfl, _⟩ := Prod.mk.inj (Option.some.inj same)
        exact Node.keyed_openElement keyed opened
      next => cases read
  | case2 text =>
      intro read
      obtain ⟨⟨⟨path, key⟩, after⟩, _, read⟩ := Option.bind_eq_some_iff.1 read
      dsimp only at read
      split at read
      next =>
        obtain ⟨root, opened, same⟩ := Option.bind_eq_some_iff.1 read
        obtain ⟨rfl, _⟩ := Prod.mk.inj (Option.some.inj same)
        exact Node.keyed_openTable keyed opened
      next => cases read

theorem keyed_of_readPair? {document changed : Document} (keyed : document.root.Keyed)
    (read : readPair? document text = some (changed, rest)) : changed.root.Keyed := by
  obtain ⟨⟨⟨path, key⟩, after⟩, _, read⟩ := Option.bind_eq_some_iff.1 read
  obtain ⟨behind, _, read⟩ := Option.bind_eq_some_iff.1 read
  obtain ⟨⟨value, last⟩, isValue, read⟩ := Option.bind_eq_some_iff.1 read
  obtain ⟨root, inserted, same⟩ := Option.bind_eq_some_iff.1 read
  obtain ⟨rfl, _⟩ := Prod.mk.inj (Option.some.inj same)
  have keyedValue := (keyedReads _).values _ _ _ _ isValue
  exact Node.keyed_changeAt (fun node changed keyed made => Node.keyed_insert keyed keyedValue made)
    keyed inserted

theorem keyed_of_readLines? {fuel : Nat} {document last : Document}
    (keyed : document.root.Keyed) :
    readLines? fuel document text = some last → last.root.Keyed := by
  induction fuel using Nat.strongRecOn generalizing document text with
  | _ fuel earlier =>
      fun_cases readLines? fuel document text with
      | case1 => exact nofun
      | case2 =>
          rintro ⟨⟩
          exact keyed
      | case3 fuel =>
          intro read
          obtain ⟨next, _, read⟩ := Option.bind_eq_some_iff.1 read
          exact earlier fuel (Nat.lt_succ_self fuel) keyed read
      | case4 fuel document text behind header changed after opened =>
          intro read
          obtain ⟨next, _, read⟩ := Option.bind_eq_some_iff.1 read
          exact earlier fuel (Nat.lt_succ_self fuel) (keyed_of_readHeader? keyed opened) read
      | case5 => exact nofun
      | case6 fuel => exact earlier fuel (Nat.lt_succ_self fuel) keyed
      | case7 fuel document text changed after _ _ _ _ isPair =>
          intro read
          obtain ⟨next, _, read⟩ := Option.bind_eq_some_iff.1 read
          exact earlier fuel (Nat.lt_succ_self fuel) (keyed_of_readPair? keyed isPair) read
      | case8 => exact nofun

/-- What a document writes has distinct keys in every table. -/
theorem keyed_of_parse? {document : String} (read : parse? document = some value) :
    value.Keyed := by
  obtain ⟨last, isLast, rfl⟩ := Option.map_eq_some_iff.1 read
  have keyed : last.root.Keyed := keyed_of_readLines? Node.keyed_empty isLast
  exact keyed.toToml

end WebBundle.Toml
