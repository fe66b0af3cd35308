import WebBundle.Output.Manifest
import WebBundle.Proofs.Json.Reading
import WebBundle.Proofs.Keyed
import WebBundle.Proofs.Sorting
import WebBundle.Proofs.Text.Substring

/-!
# Manifests and the workers they are written to

If no two files share a path, no two addresses are the same. The manifest then has an entry for
every file that is stored and ascends by address, and the report is on the files that are too large.

The written manifest takes the place of the marker in a template that has it once, counted from the
left and without overlap, and the text before and behind it stays. What is written there is read
back as the entries. Any other template is refused with the number of markers that were found, which
is none for an empty marker.
-/

namespace WebBundle.Output

theorem firstOfEachRun_eq_self {entries : List ManifestEntry}
    (ascending : entries.Pairwise fun first second => first.url < second.url) :
    firstOfEachRun entries = entries := by
  fun_induction firstOfEachRun entries with
  | case1 => rfl
  | case2 => rfl
  | case3 first second entries same ih =>
      have below := List.rel_of_pairwise_cons ascending List.mem_cons_self
      rw [same] at below
      exact absurd below (String.lt_irrefl _)
  | case4 first second entries differ ih => rw [ih (List.pairwise_cons.1 ascending).2]

namespace PrecacheRule

variable (rule : PrecacheRule)

/-- The worker stores the file ahead of use. -/
def stores (file : File) : Bool := file.size ≤ rule.sizeLimit && !rule.excludes file

end PrecacheRule

section

variable (rule : PrecacheRule) {files : List File}

theorem url_injective : Function.Injective fun path => rule.publicPath ++ path :=
  fun _ _ same => String.append_right_inj _ |>.1 same

section

variable (distinct : (files.map File.path).Nodup)

include distinct

theorem nodup_urls : ((files.map (manifestEntry rule)).map (·.url)).Nodup := by
  have urls : (files.map (manifestEntry rule)).map (·.url) =
      (files.map File.path).map fun path => rule.publicPath ++ path := by
    rw [List.map_map, List.map_map]
    rfl
  rw [urls]
  exact distinct.map (url_injective rule)

theorem manifest_fst :
    (manifest rule files).1 = ((files.filter rule.stores).map (manifestEntry rule)).mergeSort
      fun first second => textLe first.url.toList second.url.toList := by
  have stored : (files.filter fun file => !rule.excludes file).filter
      (fun file => file.size ≤ rule.sizeLimit) = files.filter rule.stores := List.filter_filter
  have apart : ((files.filter rule.stores).map File.path).Nodup :=
    distinct.sublist (List.filter_sublist.map _)
  rw [manifest, stored]
  exact firstOfEachRun_eq_self (pairwise_lt_of_sorted ManifestEntry.url (nodup_urls rule apart))

/-- The entries are those of the files that are stored. -/
theorem perm_manifest :
    (manifest rule files).1.Perm ((files.filter rule.stores).map (manifestEntry rule)) := by
  rw [manifest_fst rule distinct]
  exact List.mergeSort_perm _ _

theorem mem_manifest {entry : ManifestEntry} :
    entry ∈ (manifest rule files).1 ↔
      ∃ file ∈ files, rule.stores file = true ∧ manifestEntry rule file = entry := by
  rw [(perm_manifest rule distinct).mem_iff, List.mem_map]
  simp only [List.mem_filter, and_assoc]

end

end

/-! ## The marker of a worker template -/

/-- The script is a template with a text in the place of the marker, which occurs in it once. -/
structure Fills (template marker filler script : String) : Prop where
  once : Text.occurrences marker.toList template.toList = 1
  filled : ∃ before rest, Text.FirstBetween marker.toList before rest template.toList ∧
    script = String.ofList (before ++ filler.toList ++ rest)

theorem fills_of_inject {template name marker script : String} {entries : List ManifestEntry}
    (injected : inject template name marker entries = .ok script) :
    Fills template marker (manifestJson entries).render script := by
  cases empty : marker.isEmpty with
  | true => simp [inject, empty] at injected
  | false =>
      simp only [inject, empty, Bool.false_eq_true, if_false] at injected
      split at injected
      next once =>
        have occurs : marker.toList <:+: template.toList :=
          Text.infix_of_occurrences (by rw [once]; exact Nat.one_pos)
        obtain ⟨before, rest, between, replaced⟩ := Text.exists_firstBetween occurs
        refine ⟨once, before, rest, between, ?_⟩
        rw [← Except.ok.inj injected, replaced, Json.render, String.toList_ofList]
      next => cases injected

theorem isTextual_manifestJson (entries : List ManifestEntry) :
    (manifestJson entries).IsTextual := by
  refine .array fun value listed => ?_
  obtain ⟨entry, _, rfl⟩ := List.mem_map.1 listed
  refine .object fun field member => ?_
  rcases List.mem_cons.1 member with rfl | member
  · exact .string entry.url
  · rw [List.mem_singleton.1 member]
    exact .string entry.revision

/-- The script is the template with another text in the place of the marker, which the template does
not have any earlier. -/
def IsFilled (template marker filler script : String) : Prop :=
  ∃ before rest : String, template = before ++ marker ++ rest ∧
    (∀ earlier later, template = earlier ++ marker ++ later → before.length ≤ earlier.length) ∧
    script = before ++ filler ++ rest

theorem isFilled_iff {template marker filler script : String} :
    IsFilled template marker filler script ↔
      ∃ before rest, Text.FirstBetween marker.toList before rest template.toList ∧
        script = String.ofList (before ++ filler.toList ++ rest) := by
  have joined (first second third : String) :
      (first ++ second ++ third).toList = first.toList ++ second.toList ++ third.toList := by
    rw [String.toList_append, String.toList_append]
  constructor
  · rintro ⟨before, rest, between, first, rfl⟩
    refine ⟨before.toList, rest.toList, ⟨between ▸ joined _ _ _, fun earlier later same => ?_⟩, ?_⟩
    · have here := first (String.ofList earlier) (String.ofList later) (by
        rw [← String.toList_inj, same, joined, String.toList_ofList, String.toList_ofList])
      rwa [String.length_ofList, ← String.length_toList] at here
    · rw [← joined, String.ofList_toList]
  · rintro ⟨before, rest, ⟨between, first⟩, rfl⟩
    refine ⟨String.ofList before, String.ofList rest, ?_, fun earlier later same => ?_, ?_⟩
    · rw [← String.toList_inj, between, joined, String.toList_ofList, String.toList_ofList]
    · have here := first earlier.toList later.toList (by rw [same, joined])
      rwa [String.length_ofList, ← String.length_toList]
    · rw [← String.toList_inj, joined]
      simp only [String.toList_ofList]

/-- Where a marker occurs, it stands between two texts. -/
theorem exists_isFilled {template marker : String} (filler : String)
    (occurs : marker.toList <:+: template.toList) :
    IsFilled template marker filler
      (String.ofList (Text.replaceFirst marker.toList filler.toList template.toList)) := by
  obtain ⟨before, rest, first, replaced⟩ := Text.exists_firstBetween occurs
  exact isFilled_iff.2 ⟨before, rest, first, by rw [replaced]⟩

/-- A text is filled in one way. -/
theorem IsFilled.unique {template marker filler script other : String}
    (isFilled : IsFilled template marker filler script)
    (isFilled' : IsFilled template marker filler other) : script = other := by
  obtain ⟨before, rest, ⟨between, first⟩, rfl⟩ := isFilled_iff.1 isFilled
  obtain ⟨before', rest', ⟨between', first'⟩, rfl⟩ := isFilled_iff.1 isFilled'
  have length : before.length = before'.length :=
    Nat.le_antisymm (first before' rest' between') (first' before rest between)
  rw [between, List.append_assoc, List.append_assoc] at between'
  obtain ⟨rfl, behind⟩ := List.append_inj between' length
  rw [List.append_cancel_left behind]

/-- What putting the written entries in the place of a marker comes to. -/
structure Injects (template name marker literal : String) (entries : List ManifestEntry) :
    Prop where
  reads : Json.parse? literal = some (.array (entries.map fun entry =>
    .object [("url", .string entry.url), ("revision", .string entry.revision)]))
  script (script : String) : inject template name marker entries = .ok script ↔
    (marker ≠ "" ∧ Text.Occurs marker.toList 1 template.toList) ∧
      IsFilled template marker literal script
  accepts : (∃ script, inject template name marker entries = .ok script) ↔
    marker ≠ "" ∧ Text.Occurs marker.toList 1 template.toList
  error (error : InjectionError) : inject template name marker entries = .error error ↔
    (error.template = name ∧ error.marker = marker) ∧ error.found ≠ 1 ∧
      if marker = "" then error.found = 0
      else Text.Occurs marker.toList error.found template.toList

section

variable {template name marker : String} {entries : List ManifestEntry}

theorem inject_of_nonempty (nonempty : marker ≠ "") :
    inject template name marker entries =
      if Text.occurrences marker.toList template.toList = 1 then
        .ok (String.ofList (Text.replaceFirst marker.toList (manifestJson entries).render.toList
          template.toList))
      else .error ⟨name, marker, Text.occurrences marker.toList template.toList⟩ := by
  have notEmpty : marker.isEmpty = false := by
    rwa [← Bool.not_eq_true, String.isEmpty_iff]
  simp only [inject, notEmpty, Bool.false_eq_true, if_false, Json.render, String.toList_ofList]

theorem inject_eq_ok_iff {script : String} :
    inject template name marker entries = .ok script ↔
      (marker ≠ "" ∧ Text.Occurs marker.toList 1 template.toList) ∧
        IsFilled template marker (manifestJson entries).render script := by
  by_cases empty : marker = ""
  · subst empty
    exact iff_of_false (by simp [inject]) (by simp)
  · have part : marker.toList ≠ [] := mt String.toList_eq_nil_iff.1 empty
    rw [inject_of_nonempty empty, ← Text.occurrences_eq_iff part, and_iff_right empty]
    split
    next once =>
      have filled := exists_isFilled (manifestJson entries).render
        (Text.infix_of_occurrences (by rw [once]; exact Nat.one_pos))
      rw [and_iff_right once, Except.ok.injEq]
      exact ⟨fun same => same ▸ filled, filled.unique⟩
    next notOnce => exact iff_of_false (by simp) fun filled => notOnce filled.1

theorem inject_eq_error_iff {error : InjectionError} :
    inject template name marker entries = .error error ↔
      (error.template = name ∧ error.marker = marker) ∧ error.found ≠ 1 ∧
        if marker = "" then error.found = 0
        else Text.Occurs marker.toList error.found template.toList := by
  obtain ⟨template', marker', found⟩ := error
  have refuses {count : Nat} (notOnce : count ≠ 1) :
      (.error ⟨name, marker, count⟩ : Except InjectionError String) =
          .error ⟨template', marker', found⟩ ↔
        (template' = name ∧ marker' = marker) ∧ found ≠ 1 ∧ count = found := by
    rw [Except.error.injEq, InjectionError.mk.injEq]
    constructor
    · rintro ⟨rfl, rfl, rfl⟩
      exact ⟨⟨rfl, rfl⟩, notOnce, rfl⟩
    · rintro ⟨⟨rfl, rfl⟩, _, rfl⟩
      exact ⟨rfl, rfl, rfl⟩
  by_cases empty : marker = ""
  · have refused : inject template name marker entries = .error ⟨name, marker, 0⟩ := by
      simp [inject, empty]
    rw [refused, refuses Nat.zero_ne_one, if_pos empty, eq_comm (a := found)]
  · have part : marker.toList ≠ [] := mt String.toList_eq_nil_iff.1 empty
    rw [inject_of_nonempty empty, if_neg empty, ← Text.occurrences_eq_iff part]
    split
    next once => exact iff_of_false (by simp) fun refused => refused.2.1 (refused.2.2 ▸ once)
    next notOnce => exact refuses notOnce

end

/-- The manifest is put in the place of the only marker, and is read back from there. -/
theorem injects (template name marker : String) (entries : List ManifestEntry) :
    Injects template name marker (manifestJson entries).render entries where
  reads := Json.parse?_render (isTextual_manifestJson entries)
  script _ := inject_eq_ok_iff
  accepts := by
    constructor
    · rintro ⟨script, injected⟩
      exact (inject_eq_ok_iff.1 injected).1
    · intro once
      have occurs : marker.toList <:+: template.toList := by
        cases once.2 with
        | next first _ =>
            rw [first.between]
            exact ⟨_, _, rfl⟩
      exact ⟨_, inject_eq_ok_iff.2 ⟨once, exists_isFilled _ occurs⟩⟩
  error _ := inject_eq_error_iff

end WebBundle.Output
