import WebBundle.Proofs.Chunk.Splitting
import WebBundle.Proofs.Config.Names
import WebBundle.Proofs.Text.Hex
import WebBundle.Proofs.Text.Pieces

/-!
# Names of chunks

Entries and cache groups give their names to chunks, and an import on demand gives the key of its
target. These names are apart. A chunk of modules that no cache group took is named by joining the
names of its holders, and since the separator may be part of a name, two such chunks may have one
name, or the name of another chunk. They do not if no entry has the separator in its name and no
cache group has the name of such a chunk.
-/

namespace WebBundle

/-- Keys are written in hexadecimal digits. -/
theorem ModuleGraph.isSome_value?_of_mem_keyOf {graph : ModuleGraph} {id : Nat} {c : Char}
    (member : c ∈ (graph.keyOf id).toList) : (Text.Hex.value? c).isSome := by
  unfold keyOf at member
  split at member
  next module _ =>
    rw [Module.key, ContentDigest.short, String.toList_ofList] at member
    exact Text.Hex.isSome_value?_of_mem_encode (List.mem_of_mem_take member)
  next => simp at member

theorem ModuleGraph.keyOf_ne_runtimeName (graph : ModuleGraph) (id : Nat) :
    graph.keyOf id ≠ runtimeName := by
  intro same
  have member : 'r' ∈ (graph.keyOf id).toList := by
    rw [same]
    decide
  exact absurd (isSome_value?_of_mem_keyOf member) (by decide)

namespace CacheGroup.Rule

theorem map_name_of_ofGroupsFrom {index : Nat} {groups : List CacheGroup} {rules : List Rule}
    (made : ofGroupsFrom index groups = .ok rules) :
    rules.map (·.name) = groups.map (·.name) := by
  have same : rules.map (·.name) = (groups.zipIdx index).map fun configured => configured.1.name :=
    map_eq_of_forall₂
      ((forall₂_carries_of_ofGroupsFrom made).imp fun _ _ carries => carries.name)
  rw [same, ← List.zipIdx_map_fst index groups, List.map_map, List.zipIdx_map_fst]
  rfl

theorem perm_name_of_ofGroups {groups : List CacheGroup} {rules : List Rule}
    (made : ofGroups groups = .ok rules) :
    (rules.map (·.name)).Perm (groups.map (·.name)) := by
  unfold ofGroups at made
  cases listed : ofGroupsFrom 0 groups with
  | error error => simp [listed] at made
  | ok inConfiguration =>
      simp only [listed, Except.ok.injEq] at made
      subst made
      rw [← map_name_of_ofGroupsFrom listed]
      exact (inOrder_perm inConfiguration).map _

end CacheGroup.Rule

namespace Chunk

open CacheGroup ModuleGraph

/-- What a chunk and its draft tell about its name. -/
structure Label where
  kind : ChunkKind
  group : Option String
  name : String

/-- The label of a chunk of modules that no cache group took. -/
def Label.isDefault (label : Label) : Bool := label.kind = .shared && label.group.isNone

def label (chunk : Chunk) : Label := ⟨chunk.kind, chunk.group, chunk.name⟩

def Draft.label (draft : Draft) : Label := ⟨draft.kind, draft.group, draft.name⟩

end Chunk

/-- No chunk that is named for its holders has the name of another chunk. -/
def ChunkGraph.DefaultNamesApart (chunks : ChunkGraph) : Prop :=
  ((chunks.chunks.filter (·.label.isDefault)).map (·.name)).Nodup ∧
    ∀ chunk ∈ chunks.chunks, chunk.label.isDefault = true → ∀ other ∈ chunks.chunks,
      other.label.isDefault = false → other.name ≠ chunk.name

namespace Chunk

open CacheGroup ModuleGraph

variable {graph : ModuleGraph} {rules : List Rule} {limits : Limits}

/-! ## The labels that splitting gives -/

/-- The labels of the drafts that splitting makes, and that of the runtime. -/
def labels (graph : ModuleGraph) (rules : List Rule) (limits : Limits) : List Label :=
  graph.groupDrafts.map (·.label) ++
    (sharedDrafts graph rules limits graph.groupDrafts).map (·.label) ++
      [⟨.runtime, none, runtimeName⟩]

theorem label_sublist {reports : List Diagnostic} {chunks : ChunkGraph}
    (made : split graph rules limits = (reports, .ok chunks)) :
    (chunks.chunks.map (·.label)).Sublist (labels graph rules limits) := by
  obtain ⟨rfl, _⟩ := split_ok made
  have live : (numbered (finalDrafts (spreadDrafts graph rules limits))).chunks.map (·.label) =
      ((finalDrafts (spreadDrafts graph rules limits)).filter fun draft =>
        !isDissolved draft).map (·.label) :=
    map_chunks_numbered (fun _ _ => rfl) fun _ _ _ => rfl
  have final : (finalDrafts (spreadDrafts graph rules limits)).map (·.label) =
      labels graph rules limits := by
    rw [map_finalDrafts fun _ _ => rfl, spreadDrafts, spread, List.map_append, withoutMoved,
      List.map_map]
    rfl
  rw [live, ← final]
  exact List.filter_sublist.map _

theorem map_name_groupDrafts_sublist :
    (graph.groupDrafts.map (·.name)).Sublist
      (graph.entries.map (·.name) ++ graph.groupRoots.map graph.keyOf) := by
  have elided : graph.elidedGroups.map (·.name) = graph.loadGroups.map (·.name) := by
    refine List.ext_getElem? fun place => ?_
    rw [List.getElem?_map, getElem?_elidedGroups, List.getElem?_map, Option.map_map]
    congr 1
    funext group
    exact LoadGroup.name_dropAvailable _ group place
  have groups : graph.loadGroups.map (·.name) =
      graph.entries.map (·.name) ++ graph.groupRoots.map graph.keyOf := by
    rw [loadGroups, List.map_append, List.map_map, List.map_map]
    rfl
  have drafts : graph.groupDrafts.map (·.name) =
      (graph.placedGroups.map (·.group)).map (·.name) := by
    rw [groupDrafts, List.map_map, List.map_map]
    rfl
  rw [drafts, map_group_placedGroups, ← groups, ← elided]
  exact List.filter_sublist.map _

/-- The lists of holders that name a chunk. -/
def namingHolders (graph : ModuleGraph) (rules : List Rule) (limits : Limits) : List (List Nat) :=
  holderLists graph.groupDrafts (repeated graph.groupDrafts
    ((cacheGroupDrafts graph rules limits graph.groupDrafts).1.flatMap (·.modules)))

theorem map_label_sharedDrafts :
    ∃ chosen : List Rule, chosen.Sublist rules ∧
      (sharedDrafts graph rules limits graph.groupDrafts).map (·.label) =
        chosen.map (fun rule => ⟨.shared, some rule.name, rule.name⟩) ++
          (namingHolders graph rules limits).map fun parents =>
            ⟨.shared, none, sharedName graph.groupDrafts parents⟩ := by
  obtain ⟨chosen, isSublist, _, made⟩ :=
    @exists_cacheGroupDrafts_eq graph.groupDrafts graph rules limits
  refine ⟨chosen, isSublist, ?_⟩
  rw [sharedDrafts, List.map_append, namingHolders, made, List.map_map, dedupDrafts, List.map_map]
  rfl

theorem isDefault_label_of_groupDraft {draft : Draft} (listed : draft ∈ graph.groupDrafts) :
    draft.label.isDefault = false := by
  rcases isGroup_of_mem_groupDrafts listed with entry | onDemand
  · simp [Draft.label, Label.isDefault, entry]
  · simp [Draft.label, Label.isDefault, onDemand]

theorem filter_of_forall (listed : List Label) (default : Bool)
    (all : ∀ label ∈ listed, label.isDefault = default) :
    listed.filter (·.isDefault) = (if default then listed else []) ∧
      listed.filter (!·.isDefault) = if default then [] else listed := by
  cases default with
  | true =>
      exact ⟨List.filter_eq_self.2 all, List.filter_eq_nil_iff.2 fun label member => by
        simp [all label member]⟩
  | false =>
      exact ⟨List.filter_eq_nil_iff.2 fun label member => by simp [all label member],
        List.filter_eq_self.2 fun label member => by simp [all label member]⟩

/-- The names of the labels: those for holders, and apart from them those that the configuration
gives and keys. -/
theorem exists_names_labels :
    ∃ chosen : List Rule, chosen.Sublist rules ∧
      ((labels graph rules limits).filter (·.isDefault)).map (·.name) =
        (namingHolders graph rules limits).map (sharedName graph.groupDrafts) ∧
      ((labels graph rules limits).filter (!·.isDefault)).map (·.name) =
        graph.groupDrafts.map (·.name) ++ chosen.map (·.name) ++ [runtimeName] := by
  obtain ⟨chosen, isSublist, shared⟩ := @map_label_sharedDrafts graph rules limits
  obtain ⟨groups, groups'⟩ := filter_of_forall (graph.groupDrafts.map (·.label)) false (by
    intro label member
    obtain ⟨draft, listed, rfl⟩ := List.mem_map.1 member
    exact isDefault_label_of_groupDraft listed)
  obtain ⟨claimed, claimed'⟩ := filter_of_forall
    (chosen.map fun rule => ⟨.shared, some rule.name, rule.name⟩) false (by
      intro label member
      obtain ⟨rule, _, rfl⟩ := List.mem_map.1 member
      rfl)
  obtain ⟨repeated, repeated'⟩ := filter_of_forall
    ((namingHolders graph rules limits).map fun parents =>
      ⟨.shared, none, sharedName graph.groupDrafts parents⟩) true (by
      intro label member
      obtain ⟨parents, _, rfl⟩ := List.mem_map.1 member
      rfl)
  refine ⟨chosen, isSublist, ?_, ?_⟩
  · rw [labels, shared, List.filter_append, List.filter_append, List.filter_append, groups, claimed,
      repeated]
    simp [Label.isDefault, Function.comp_def]
  · rw [labels, shared, List.filter_append, List.filter_append, List.filter_append, groups',
      claimed', repeated']
    simp [Label.isDefault, Function.comp_def, Draft.label]

/-! ## Names that are given -/

/-- The names that chunks may get: those of entries, keys of targets, those of cache groups and that
of the runtime. -/
def givenNames (graph : ModuleGraph) (rules : List Rule) : List String :=
  graph.entries.map (·.name) ++ graph.groupRoots.map graph.keyOf ++ rules.map (·.name) ++
    [runtimeName]

theorem names_labels_sublist :
    (((labels graph rules limits).filter (!·.isDefault)).map (·.name)).Sublist
      (givenNames graph rules) := by
  obtain ⟨chosen, isSublist, _, given⟩ := @exists_names_labels graph rules limits
  rw [given]
  exact (map_name_groupDrafts_sublist.append (isSublist.map _)).append (List.Sublist.refl _)

/-- If the names that are given are distinct, only names for holders can clash. -/
theorem nodup_names_iff (distinct : (givenNames graph rules).Nodup) {reports : List Diagnostic}
    {chunks : ChunkGraph} (made : split graph rules limits = (reports, .ok chunks)) :
    (chunks.chunks.map (·.name)).Nodup ↔ chunks.DefaultNamesApart := by
  have given : ((chunks.chunks.filter (!·.label.isDefault)).map (·.name)).Nodup := by
    have kept := (((label_sublist made).filter (!·.isDefault)).map (·.name)).trans
      names_labels_sublist
    rw [List.filter_map, List.map_map] at kept
    exact distinct.sublist kept
  have apart := (List.filter_append_perm (·.label.isDefault) chunks.chunks).map (·.name)
  rw [← apart.nodup_iff, List.map_append, List.nodup_append, ChunkGraph.DefaultNamesApart]
  constructor
  · rintro ⟨defaults, _, distinct⟩
    refine ⟨defaults, fun chunk listed isDefault other listed' isGiven same => ?_⟩
    refine distinct chunk.name ?_ other.name ?_ same.symm
    · exact List.mem_map_of_mem (List.mem_filter.2 ⟨listed, isDefault⟩)
    · exact List.mem_map_of_mem (List.mem_filter.2 ⟨listed', by simp [isGiven]⟩)
  · rintro ⟨defaults, distinct⟩
    refine ⟨defaults, given, ?_⟩
    rintro name member other member' rfl
    obtain ⟨chunk, isDefault, rfl⟩ := List.mem_map.1 member
    obtain ⟨second, isGiven, same⟩ := List.mem_map.1 member'
    rw [List.mem_filter] at isDefault isGiven
    exact distinct chunk isDefault.1 isDefault.2 second isGiven.1 (by simpa using isGiven.2) same

/-! ## Names for holders -/

/-- A name that no chunk has that is named for its holders. -/
def Plain (name : String) : Prop := ¬ "default~".toList <+: name.toList

theorem plain_of_not_mem {name : String} (free : '~' ∉ name.toList) : Plain name := by
  intro starts
  exact free (starts.subset (by decide))

theorem not_plain_sharedName (drafts : List Draft) (parents : List Nat) :
    ¬ Plain (sharedName drafts parents) := by
  rw [Plain, not_not, sharedName, String.toList_append]
  exact List.prefix_append _ _

/-- The names that are joined. -/
def namesAt (drafts : List Draft) (places : List Nat) : List String :=
  (places.filterMap fun place => drafts[place]?).map (·.name)

theorem mem_namesAt {drafts : List Draft} {places : List Nat} {name : String} :
    name ∈ namesAt drafts places ↔
      ∃ place ∈ places, ∃ draft, drafts[place]? = some draft ∧ draft.name = name := by
  constructor
  · intro named
    obtain ⟨draft, member, same⟩ := List.mem_map.1 named
    obtain ⟨place, listed, found⟩ := List.mem_filterMap.1 member
    exact ⟨place, listed, draft, found, same⟩
  · rintro ⟨place, listed, draft, found, same⟩
    exact List.mem_map.2 ⟨draft, List.mem_filterMap.2 ⟨place, listed, found⟩, same⟩

/-- If names are distinct, what holds the names at some places is at these places. -/
theorem subset_of_perm_namesAt {drafts : List Draft} (names : (drafts.map (·.name)).Nodup)
    {module other : Nat} (same : (namesAt drafts (holders drafts module)).Perm
      (namesAt drafts (holders drafts other))) : holders drafts module ⊆ holders drafts other := by
  intro place holds
  obtain ⟨draft, found, _⟩ := mem_holders.1 holds
  have named := same.subset (mem_namesAt.2 ⟨place, holds, draft, found, rfl⟩)
  obtain ⟨place', holds', draft', found', sameName⟩ := mem_namesAt.1 named
  have inside : place < (drafts.map (·.name)).length := by
    rw [List.length_map]
    exact (List.getElem?_eq_some_iff.1 found).1
  have samePlace : place = place' := by
    refine (List.getElem?_inj inside names).1 ?_
    rw [List.getElem?_map, found, List.getElem?_map, found', Option.map_some, Option.map_some,
      sameName]
  rwa [samePlace]

/-- Without the separator in names, the name of a chunk tells its holders. -/
theorem holders_eq_of_sharedName_eq {drafts : List Draft} (names : (drafts.map (·.name)).Nodup)
    (free : ∀ draft ∈ drafts, '~' ∉ draft.name.toList) {module other : Nat}
    (held : holders drafts module ≠ []) (held' : holders drafts other ≠ [])
    (same : sharedName drafts (holders drafts module) = sharedName drafts (holders drafts other)) :
    holders drafts module = holders drafts other := by
  have sorted : ∀ id, ((namesAt drafts (holders drafts id)).mergeSort fun a b =>
      textLe a.toList b.toList).Perm (namesAt drafts (holders drafts id)) :=
    fun id => List.mergeSort_perm _ _
  have nonempty : ∀ id, holders drafts id ≠ [] → ((namesAt drafts (holders drafts id)).mergeSort
      fun a b => textLe a.toList b.toList) ≠ [] := by
    intro id holds none
    obtain ⟨place, member⟩ := List.exists_mem_of_ne_nil _ holds
    obtain ⟨draft, found, _⟩ := mem_holders.1 member
    have named := (sorted id).symm.subset (mem_namesAt.2 ⟨place, member, draft, found, rfl⟩)
    rw [none] at named
    cases named
  have apart : ∀ id, ∀ name ∈ (namesAt drafts (holders drafts id)).mergeSort fun a b =>
      textLe a.toList b.toList, '~' ∉ name.toList := by
    intro id name member
    obtain ⟨_, _, draft, found, rfl⟩ := mem_namesAt.1 ((sorted id).subset member)
    exact free draft (List.mem_of_getElem? found)
  have joined := (String.append_right_inj _).1 same
  have lists := Text.intercalate_inj (nonempty module held) (nonempty other held') (apart module)
    (apart other) joined
  have perm : (namesAt drafts (holders drafts module)).Perm
      (namesAt drafts (holders drafts other)) := (sorted module).symm.trans (lists ▸ sorted other)
  refine pairwise_holders.eq_of_mem_iff pairwise_holders fun place => ⟨?_, ?_⟩
  · exact fun holds => subset_of_perm_namesAt names perm holds
  · exact fun holds => subset_of_perm_namesAt names perm.symm holds

theorem holders_ne_nil_of_repeated {drafts : List Draft} {moved : List Nat} {module : Nat}
    (moves : module ∈ repeated drafts moved) : holders drafts module ≠ [] := by
  intro none
  have several := (mem_repeated.1 moves).2.2
  simp [none] at several

theorem nodup_map_name_groupDrafts (distinct : (givenNames graph rules).Nodup) :
    (graph.groupDrafts.map (·.name)).Nodup := by
  refine distinct.sublist (map_name_groupDrafts_sublist.trans ?_)
  rw [givenNames, List.append_assoc]
  exact List.sublist_append_left _ _

/-- A key does not have the separator. -/
theorem not_mem_name_groupDraft (free : ∀ entry ∈ graph.entries, '~' ∉ entry.name.toList)
    {draft : Draft} (listed : draft ∈ graph.groupDrafts) : '~' ∉ draft.name.toList := by
  have member := map_name_groupDrafts_sublist.subset (List.mem_map_of_mem listed)
  cases List.mem_append.1 member with
  | inl entry =>
      obtain ⟨entry, listed, same⟩ := List.mem_map.1 entry
      rw [← same]
      exact free entry listed
  | inr key =>
      obtain ⟨target, _, same⟩ := List.mem_map.1 key
      rw [← same]
      intro separator
      exact absurd (isSome_value?_of_mem_keyOf separator) (by decide)

theorem plain_of_mem_givenNames (free : ∀ entry ∈ graph.entries, '~' ∉ entry.name.toList)
    (plain : ∀ rule ∈ rules, Plain rule.name) {name : String}
    (member : name ∈ givenNames graph rules) : Plain name := by
  simp only [givenNames, List.mem_append, List.mem_map, List.mem_singleton] at member
  rcases member with ((⟨entry, listed, rfl⟩ | ⟨target, _, rfl⟩) | ⟨rule, listed, rfl⟩) | rfl
  · exact plain_of_not_mem (free entry listed)
  · refine plain_of_not_mem fun separator => ?_
    exact absurd (isSome_value?_of_mem_keyOf separator) (by decide)
  · exact plain rule listed
  · exact plain_of_not_mem (by decide)

theorem nodup_names_of_free (distinct : (givenNames graph rules).Nodup)
    (free : ∀ entry ∈ graph.entries, '~' ∉ entry.name.toList)
    (plain : ∀ rule ∈ rules, Plain rule.name) {reports : List Diagnostic} {chunks : ChunkGraph}
    (made : split graph rules limits = (reports, .ok chunks)) :
    (chunks.chunks.map (·.name)).Nodup := by
  obtain ⟨_, _, defaults, _⟩ := @exists_names_labels graph rules limits
  have labelsNodup : ((labels graph rules limits).map (·.name)).Nodup := by
    have apart := (List.filter_append_perm (·.isDefault) (labels graph rules limits)).map (·.name)
    rw [← apart.nodup_iff, List.map_append, List.nodup_append]
    refine ⟨?_, distinct.sublist names_labels_sublist, ?_⟩
    · rw [defaults]
      refine List.Nodup.map_on ?_ (nodup_eraseDups _)
      intro parents member parents' member' same
      obtain ⟨module, moves, rfl⟩ := mem_holderLists.1 member
      obtain ⟨other, moves', rfl⟩ := mem_holderLists.1 member'
      exact holders_eq_of_sharedName_eq (nodup_map_name_groupDrafts distinct)
        (fun _ => not_mem_name_groupDraft free) (holders_ne_nil_of_repeated moves)
        (holders_ne_nil_of_repeated moves') same
    · rintro name member other member' rfl
      rw [defaults] at member
      obtain ⟨parents, _, rfl⟩ := List.mem_map.1 member
      exact not_plain_sharedName graph.groupDrafts parents
        (plain_of_mem_givenNames free plain (names_labels_sublist.subset member'))
  have sublist := (label_sublist made).map (·.name)
  rw [List.map_map] at sublist
  exact labelsNodup.sublist sublist

/-! ## Names of a configured project -/

theorem mem_allOnDemandTargets_of_groupRoot {root : Nat} (member : root ∈ graph.groupRoots) :
    root ∈ graph.allOnDemandTargets := by
  obtain ⟨index, located⟩ := List.mem_iff_getElem?.1 member
  obtain ⟨_, _, _, _, imported⟩ := exists_importer located
  exact mem_allOnDemandTargets imported

/-- A configuration that is accepted, and a graph with its entries in which the keys of targets are
apart from one another and from the names that the configuration gives. -/
structure Configured (text : String) (config : Config) (graph : ModuleGraph) : Prop where
  accepted : Config.ofText text = .ok config
  entries : (graph.entries.map (·.name)).Perm (config.entries.map Prod.fst)
  keys : (graph.allOnDemandTargets.map graph.keyOf).Nodup
  apart : ∀ target ∈ graph.allOnDemandTargets,
    graph.keyOf target ∉ config.entries.map Prod.fst ∧
      graph.keyOf target ∉ config.cacheGroups.map (·.name)

variable {text : String} {config : Config}

theorem Configured.nodup_givenNames (configured : Configured text config graph)
    (compiled : Rule.ofGroups config.cacheGroups = .ok rules) : (givenNames graph rules).Nodup := by
  have names := Config.namesApart_of_ofText configured.accepted
  have groups := Rule.perm_name_of_ofGroups compiled
  have keys : (graph.groupRoots.map graph.keyOf).Nodup := by
    refine List.Nodup.map_on ?_ nodup_groupRoots
    intro root member other member' same
    exact List.inj_on_of_nodup_map configured.keys (mem_allOnDemandTargets_of_groupRoot member)
      (mem_allOnDemandTargets_of_groupRoot member') same
  have entryNames : ∀ name, name ∈ graph.entries.map (·.name) ↔
      name ∈ config.entries.map Prod.fst := fun name => configured.entries.mem_iff
  have ruleNames : ∀ name, name ∈ rules.map (·.name) ↔ name ∈ config.cacheGroups.map (·.name) :=
    fun name => groups.mem_iff
  have isKey : ∀ name ∈ graph.groupRoots.map graph.keyOf,
      name ∉ config.entries.map Prod.fst ∧ name ∉ config.cacheGroups.map (·.name) ∧
        name ≠ runtimeName := by
    intro name member
    obtain ⟨root, isRoot, rfl⟩ := List.mem_map.1 member
    obtain ⟨notEntry, notGroup⟩ :=
      configured.apart root (mem_allOnDemandTargets_of_groupRoot isRoot)
    exact ⟨notEntry, notGroup, graph.keyOf_ne_runtimeName root⟩
  have isGroup : ∀ name ∈ config.cacheGroups.map (·.name), name ∉ config.entries.map Prod.fst := by
    intro name member
    obtain ⟨group, listed, rfl⟩ := List.mem_map.1 member
    exact names.apart group listed
  refine (((?_ : (graph.entries.map (·.name)).Nodup).append keys ?_).append ?_ ?_).append
    (List.nodup_singleton runtimeName) ?_
  · exact configured.entries.nodup_iff.2 names.entries
  · intro name entry key
    exact (isKey name key).1 ((entryNames name).1 entry)
  · exact groups.nodup_iff.2 names.groups
  · intro name given rule
    have group := (ruleNames name).1 rule
    cases List.mem_append.1 given with
    | inl entry => exact isGroup name group ((entryNames name).1 entry)
    | inr key => exact (isKey name key).2.1 group
  · intro name given last
    obtain rfl := List.mem_singleton.1 last
    rcases List.mem_append.1 given with given | rule
    · cases List.mem_append.1 given with
      | inl entry => exact names.reserved ((entryNames _).1 entry)
      | inr key => exact (isKey _ key).2.2 rfl
    · exact names.reservedGroups ((ruleNames _).1 rule)

/-- The names of chunks are distinct if those for holders are, which they are if no entry has the
separator in its name and no cache group the name of such a chunk. -/
theorem nodup_names_iff_of_split (configured : Configured text config graph)
    (compiled : Rule.ofGroups config.cacheGroups = .ok rules) {reports : List Diagnostic}
    {chunks : ChunkGraph} (made : split graph rules limits = (reports, .ok chunks)) :
    ((chunks.chunks.map (·.name)).Nodup ↔ chunks.DefaultNamesApart) ∧
      ((∀ entry ∈ config.entries, '~' ∉ entry.1.toList) →
        (∀ group ∈ config.cacheGroups, Plain group.name) →
          (chunks.chunks.map (·.name)).Nodup) := by
  have distinct := configured.nodup_givenNames compiled
  refine ⟨nodup_names_iff distinct made, fun free plain => ?_⟩
  refine nodup_names_of_free distinct ?_ ?_ made
  · intro entry listed
    have member := configured.entries.subset (List.mem_map_of_mem listed)
    obtain ⟨given, isEntry, same⟩ := List.mem_map.1 member
    rw [← same]
    exact free given isEntry
  · intro rule listed
    have member := (Rule.perm_name_of_ofGroups compiled).subset (List.mem_map_of_mem listed)
    obtain ⟨group, isGroup, same⟩ := List.mem_map.1 member
    rw [← same]
    exact plain group isGroup

/-! ## Two projects -/

/-- The configuration of the two pages with a cache group for the tool. -/
def pagesText : String :=
  "[project]\nname = \"pages\"\n[entry]\nmain = \"./main\"\n" ++
    "[[cache_groups]]\nname = \"tools\"\ntest = \x7b contains = [\"/tool\"] \x7d\n"

def pagesConfig : Config where
  name := "pages"
  entries := [("main", ["./main"])]
  cacheGroups := toolGroups

theorem keys_twoPages :
    twoPages.allOnDemandTargets.map twoPages.keyOf = ["128718aa", "8681bbff"] := by cbv

theorem configured_twoPages : Configured pagesText pagesConfig twoPages where
  accepted := by
    have read : (Toml.parse? pagesText).bind Config.ofToml? = some pagesConfig := by cbv
    have passed : pagesConfig.check = .ok () := by cbv
    rw [Config.ofText, read]
    simp only [passed]
  entries := .refl _
  keys := by
    rw [keys_twoPages]
    decide
  apart := by
    intro target member
    have key : twoPages.keyOf target ∈ twoPages.allOnDemandTargets.map twoPages.keyOf :=
      List.mem_map_of_mem member
    generalize twoPages.keyOf target = name at key
    rw [keys_twoPages] at key
    have all : ∀ name ∈ ["128718aa", "8681bbff"], name ∉ pagesConfig.entries.map Prod.fst ∧
        name ∉ pagesConfig.cacheGroups.map (·.name) := by decide
    exact all name key

theorem names_twoPages :
    ∃ reports chunks, Configured pagesText pagesConfig twoPages ∧
      split twoPages toolRules {} = (reports, .ok chunks) ∧ (chunks.chunks.map (·.name)).Nodup := by
  obtain ⟨reports, chunks, made⟩ := exists_split_twoPages
  obtain ⟨_, distinct⟩ := nodup_names_iff_of_split configured_twoPages ofGroups_toolGroups made
  refine ⟨reports, chunks, configured_twoPages, made, distinct ?_ ?_⟩
  · decide
  · intro group member
    exact plain_of_not_mem (by
      have all : ∀ group ∈ toolGroups, '~' ∉ group.name.toList := by decide
      exact all group member)

/-- Four entries, of which two share a module and the other two share another one. -/
def sharingText : String :=
  "[project]\nname = \"sharing\"\n[entry]\na = \"./a\"\n\"a~b\" = \"./ab\"\n" ++
    "\"b~c\" = \"./bc\"\nc = \"./c\"\n"

def sharingConfig : Config where
  name := "sharing"
  entries := [("a", ["./a"]), ("a~b", ["./ab"]), ("b~c", ["./bc"]), ("c", ["./c"])]

def sharingPages : ModuleGraph where
  root := "/app"
  modules := ⟨#[
    moduleAt 0 "a.js" [⟨4, .sync, "./first"⟩],
    moduleAt 1 "ab.js" [⟨5, .sync, "./second"⟩],
    moduleAt 2 "bc.js" [⟨4, .sync, "./first"⟩],
    moduleAt 3 "c.js" [⟨5, .sync, "./second"⟩],
    moduleAt 4 "first.js" [],
    moduleAt 5 "second.js" []]⟩
  entries := [⟨"a", [0]⟩, ⟨"a~b", [1]⟩, ⟨"b~c", [2]⟩, ⟨"c", [3]⟩]

theorem configured_sharingPages : Configured sharingText sharingConfig sharingPages where
  accepted := by
    have read : (Toml.parse? sharingText).bind Config.ofToml? = some sharingConfig := by cbv
    have passed : sharingConfig.check = .ok () := by cbv
    rw [Config.ofText, read]
    simp only [passed]
  entries := .refl _
  keys := by
    have none : sharingPages.allOnDemandTargets = [] := by cbv
    rw [none]
    exact List.nodup_nil
  apart := by
    have none : sharingPages.allOnDemandTargets = [] := by cbv
    rw [none]
    exact fun _ impossible => absurd impossible List.not_mem_nil

/-- Both shared modules get a chunk of the same name. -/
theorem not_nodup_names_sharingPages :
    ∃ rules reports chunks, Configured sharingText sharingConfig sharingPages ∧
      Rule.ofGroups sharingConfig.cacheGroups = .ok rules ∧
        split sharingPages rules {} = (reports, .ok chunks) ∧
          ¬ (chunks.chunks.map (·.name)).Nodup := by
  obtain ⟨reports, chunks, made⟩ := exists_split_of_no_rules sharingPages {}
  refine ⟨[], reports, chunks, configured_sharingPages, ?_, made, ?_⟩
  · cbv
  · have names : chunks.chunks.map (·.name) =
        ["a", "a~b", "b~c", "c", "default~a~b~c", "default~a~b~c", "runtime"] := by
      rw [(split_ok made).1]
      cbv
    rw [names]
    decide

end Chunk

end WebBundle
