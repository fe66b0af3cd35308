import Mathlib.Data.List.Nodup
import WebBundle.Config.Reader
import WebBundle.Proofs.Toml.Keyed

/-!
# Names in a configuration

The entries of a configuration come from the keys of a table and so have distinct names. What is
checked keeps the names of cache groups apart from these, from one another and from the runtime.
-/

namespace WebBundle

/-- In a chain of steps each has to succeed. -/
theorem exists_ok_of_bind {ε α β : Type} {first : Except ε α} {next : α → Except ε β} {last : β}
    (made : first >>= next = .ok last) : ∃ value, first = .ok value ∧ next value = .ok last := by
  cases first with
  | error error => cases made
  | ok value => exact ⟨value, rfl, made⟩

namespace Config

/-- The names that a configuration gives to chunks are distinct, and none is that of the runtime. -/
structure NamesApart (config : Config) : Prop where
  entries : (config.entries.map Prod.fst).Nodup
  groups : (config.cacheGroups.map (·.name)).Nodup
  apart : ∀ group ∈ config.cacheGroups, group.name ∉ config.entries.map Prod.fst
  reserved : runtimeName ∉ config.entries.map Prod.fst
  reservedGroups : runtimeName ∉ config.cacheGroups.map (·.name)

/-! ## Entries -/

/-- The parts of a record are values of its table or items of its list. -/
theorem keyed_of_parts? {value part : Toml} {names : List String} {parts : List (Option Toml)}
    (keyed : value.Keyed) (split : value.parts? names = some parts) (member : some part ∈ parts) :
    part.Keyed := by
  cases keyed with
  | table _ inside =>
      obtain rfl := Option.some.inj split
      obtain ⟨name, _, found⟩ := List.mem_map.1 member
      obtain ⟨before, after, same, _⟩ := List.lookup_eq_some_iff.1 found
      refine inside (name, part) ?_
      rw [same]
      exact List.mem_append_right _ List.mem_cons_self
  | array inside =>
      obtain rfl := Option.some.inj split
      cases List.mem_append.1 member with
      | inl there =>
          obtain ⟨item, listed, same⟩ := List.mem_map.1 there
          obtain rfl := Option.some.inj same
          exact inside item (List.mem_of_mem_take listed)
      | inr missing => cases List.eq_of_mem_replicate missing
  | moment text =>
      obtain rfl := Option.some.inj split
      obtain ⟨name, _, same⟩ := List.mem_map.1 member
      cases same
  | string => cases split
  | integer => cases split
  | real => cases split
  | bool => cases split

theorem map_fst_of_mapM {fields : List (String × Toml)} {entries : List (String × List String)}
    (read : fields.mapM entryOf? = some entries) : entries.map Prod.fst = fields.map Prod.fst := by
  induction fields generalizing entries with
  | nil =>
      obtain rfl := Option.some.inj read
      rfl
  | cons field fields ih =>
      rw [List.mapM_cons] at read
      obtain ⟨entry, isEntry, read⟩ := Option.bind_eq_some_iff.1 read
      obtain ⟨others, areOthers, same⟩ := Option.bind_eq_some_iff.1 read
      obtain rfl := Option.some.inj same
      obtain ⟨specifiers, _, rfl⟩ := Option.map_eq_some_iff.1 isEntry
      rw [List.map_cons, List.map_cons, ih areOthers]

theorem nodup_entriesOf? {value : Toml} {entries : List (String × List String)}
    (keyed : value.Keyed) (read : entriesOf? value = some entries) :
    (entries.map Prod.fst).Nodup := by
  cases keyed with
  | table nodup _ =>
      obtain ⟨listed, isRead, rfl⟩ := Option.map_eq_some_iff.1 read
      rw [← map_fst_of_mapM isRead] at nodup
      exact ((List.mergeSort_perm listed _).map Prod.fst).nodup_iff.2 nodup
  | moment text =>
      obtain rfl := Option.some.inj read
      exact List.nodup_singleton _
  | array => cases read
  | string => cases read
  | integer => cases read
  | real => cases read
  | bool => cases read

theorem nodup_entries_of_ofToml? {value : Toml} {config : Config} (keyed : value.Keyed)
    (read : ofToml? value = some config) : (config.entries.map Prod.fst).Nodup := by
  obtain ⟨parts, isSplit, read⟩ := Option.bind_eq_some_iff.1 read
  dsimp only at read
  split at read
  next project entries resolve output optimization groups assets html worker server =>
    obtain ⟨_, _, read⟩ := Option.bind_eq_some_iff.1 read
    obtain ⟨listed, areEntries, read⟩ := Option.bind_eq_some_iff.1 read
    have kept : config.entries = listed := by
      obtain ⟨_, _, read⟩ := Option.bind_eq_some_iff.1 read
      obtain ⟨_, _, read⟩ := Option.bind_eq_some_iff.1 read
      obtain ⟨_, _, read⟩ := Option.bind_eq_some_iff.1 read
      obtain ⟨_, _, read⟩ := Option.bind_eq_some_iff.1 read
      obtain ⟨_, _, read⟩ := Option.bind_eq_some_iff.1 read
      obtain ⟨_, _, read⟩ := Option.bind_eq_some_iff.1 read
      obtain ⟨_, _, read⟩ := Option.bind_eq_some_iff.1 read
      obtain ⟨_, _, read⟩ := Option.bind_eq_some_iff.1 read
      rw [← Option.some.inj read]
    rw [kept]
    cases entries with
    | none =>
        obtain rfl := Option.some.inj areEntries
        exact List.nodup_nil
    | some part =>
        have keyedPart : part.Keyed := keyed_of_parts? keyed isSplit (by simp)
        exact nodup_entriesOf? keyedPart areEntries
  next => cases read

/-! ## Checks -/

theorem eq_true_of_require {condition : Bool} {error : ConfigError} {done : Unit}
    (passed : require condition error = .ok done) : condition = true := by
  unfold require at passed
  split at passed
  next holds => exact holds
  next => cases passed

/-- Cache groups that pass have names of their own. -/
theorem namesApart_of_checkGroups {taken : List String} {groups : List CacheGroup}
    (passed : checkGroups taken groups = .ok ()) :
    (groups.map (·.name)).Nodup ∧
      ∀ group ∈ groups, group.name ∉ taken ∧ group.name ≠ runtimeName := by
  induction groups generalizing taken with
  | nil => simp
  | cons group groups ih =>
      rw [checkGroups] at passed
      split at passed
      next => cases passed
      next =>
        split at passed
        next => cases passed
        next free =>
          split at passed
          next => cases passed
          next =>
            obtain ⟨nodup, apart⟩ := ih passed
            have free : group.name ≠ runtimeName ∧ group.name ∉ taken := by
              simpa using free
            constructor
            · rw [List.map_cons, List.nodup_cons]
              refine ⟨fun member => ?_, nodup⟩
              obtain ⟨other, listed, same⟩ := List.mem_map.1 member
              exact (apart other listed).1 (by rw [same]; exact List.mem_cons_self)
            · intro other member
              rcases List.mem_cons.1 member with rfl | later
              · exact ⟨free.2, free.1⟩
              · obtain ⟨notTaken, notRuntime⟩ := apart other later
                exact ⟨fun known => notTaken (List.mem_cons_of_mem _ known), notRuntime⟩

theorem namesApart_of_check {config : Config} (entries : (config.entries.map Prod.fst).Nodup)
    (passed : config.check = .ok ()) : config.NamesApart := by
  obtain ⟨_, _, passed⟩ := exists_ok_of_bind passed
  obtain ⟨_, _, passed⟩ := exists_ok_of_bind passed
  obtain ⟨_, _, passed⟩ := exists_ok_of_bind passed
  obtain ⟨_, _, passed⟩ := exists_ok_of_bind passed
  obtain ⟨_, _, passed⟩ := exists_ok_of_bind passed
  obtain ⟨_, notReserved, passed⟩ := exists_ok_of_bind passed
  obtain ⟨_, groupsApart, _⟩ := exists_ok_of_bind passed
  obtain ⟨nodup, apart⟩ := namesApart_of_checkGroups groupsApart
  have unreserved := eq_true_of_require notReserved
  constructor
  case entries => exact entries
  case groups => exact nodup
  case apart => exact fun group listed => (apart group listed).1
  case reserved =>
    intro member
    obtain ⟨entry, listed, same⟩ := List.mem_map.1 member
    simp only [Bool.not_eq_true', List.any_eq_false, decide_eq_true_eq] at unreserved
    exact unreserved entry listed same
  case reservedGroups =>
    intro member
    obtain ⟨group, listed, same⟩ := List.mem_map.1 member
    exact (apart group listed).2 same

/-- An accepted configuration gives every chunk that it names a name of its own. -/
theorem namesApart_of_ofText {text : String} {config : Config}
    (accepted : ofText text = .ok config) : config.NamesApart := by
  unfold ofText at accepted
  split at accepted
  next => cases accepted
  next read isRead =>
    split at accepted
    next passed =>
      obtain rfl := Except.ok.inj accepted
      obtain ⟨value, parsed, isConfig⟩ := Option.bind_eq_some_iff.1 isRead
      exact namesApart_of_check
        (nodup_entries_of_ofToml? (Toml.keyed_of_parse? parsed) isConfig) passed
    next => cases accepted

end Config

end WebBundle
