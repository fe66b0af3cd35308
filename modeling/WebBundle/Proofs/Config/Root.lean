import WebBundle.Config.Options
import WebBundle.Proofs.Path.Above
import WebBundle.Proofs.Storage.Parents

/-!
# The root of a project

The root of a project is the first path on the way up by parents that holds a configuration file. A
parent leaves out the last step even if this is a step up, and then it lies further down. So the
root lies above the start if what is left out behind it are names, or if steps up stand only at the
beginning of the start. In the second case no path between them holds a configuration file, however
it is written.
-/

namespace WebBundle

namespace Storage

variable {storage : Storage} {follow : Bool} {links : Nat} {start place : Place} {item : Item}
  {before behind steps others : List String}

/-! ## Walks that may take more steps -/

/-- A still step may stand before other steps of a walk. -/
theorem walk_insert_still {step : String} (still : IsStill step) (goesOn : behind ≠ [])
    (ends : storage.walk true links start (before ++ behind) = .ok (.taken place item)) :
    storage.walk true links start (before ++ step :: behind) = .ok (.taken place item) := by
  obtain ⟨place', item', there, isDirectory⟩ := exists_walk_of_append ends
  obtain rfl := isDirectory goesOn
  obtain ⟨left, _, onwards⟩ := exists_walk_onwards there
  rw [onwards (by simp)] at ends ⊢
  have found : storage.itemAt? place' = some .directory := stands_of_walk there
  exact (walk_still found still).trans ends

/-- Still steps that were left out may be put back, if other steps come behind them. -/
theorem walk_of_thinned (thins : Thins steps others) (goesOn : behind ≠ [])
    (ends : storage.walk true links start (before ++ (others ++ behind)) =
      .ok (.taken place item)) :
    storage.walk true links start (before ++ (steps ++ behind)) = .ok (.taken place item) := by
  induction thins generalizing before with
  | nil => exact ends
  | @keep steps others step rest ih =>
      have kept := @ih (before ++ [step])
      rw [List.append_assoc, List.append_assoc] at kept
      exact kept ends
  | skip still rest ih => exact walk_insert_still still (by simp [goesOn]) (ih ends)

/-- A walk along the segments that are kept may go along all of them, if steps up stand only at the
beginning. -/
theorem walk_of_keeps {absolute : Bool} {names : List (List Char)}
    (upFirst : names.Pairwise fun before behind =>
      behind = ['.', '.'] → Path.isStill before = true ∨ before = ['.', '.'])
    (root : absolute = true → start = []) (goesOn : behind ≠ [])
    (ends : storage.walk true links start
      ((names.filter (Path.keeps absolute)).map String.ofList ++ behind) =
        .ok (.taken place item)) :
    storage.walk true links start (names.map String.ofList ++ behind) =
      .ok (.taken place item) := by
  have further {names : List (List Char)} (same : names.filter (Path.keeps absolute) =
      names.filter fun name => !Path.isStill name)
      (ends : storage.walk true links start
        ((names.filter (Path.keeps absolute)).map String.ofList ++ behind) =
          .ok (.taken place item)) :
      storage.walk true links start (names.map String.ofList ++ behind) =
        .ok (.taken place item) := by
    rw [same] at ends
    exact @walk_of_thinned storage links start place item [] _ _ _ (thins_moving names) goesOn ends
  cases absolute with
  | false => exact further (List.filter_congr fun name _ => by simp [Path.keeps]) ends
  | true =>
      obtain rfl := root rfl
      have found : storage.itemAt? [] = some .directory := rfl
      induction names with
      | nil => exact ends
      | cons name names ih =>
          obtain ⟨behindName, later⟩ := List.pairwise_cons.1 upFirst
          by_cases still : Path.isStill name = true
          · rw [List.filter_cons_of_neg (by simp [Path.keeps, still])] at ends
            rw [List.map_cons, List.cons_append,
              walk_still found ((Path.isStill_ofList name).trans still)]
            exact ih later ends
          · by_cases up : name = ['.', '.']
            · rw [List.filter_cons_of_neg (by simp [Path.keeps, up])] at ends
              rw [up, List.map_cons, List.cons_append]
              exact (walk_up found).trans (ih later ends)
            · refine further (List.filter_congr fun other listed => ?_) ends
              have notUp : other ≠ ['.', '.'] := by
                rcases List.mem_cons.1 listed with rfl | listed
                · exact up
                · exact fun isUp => (behindName other listed isUp).elim still up
              simp [Path.keeps, notUp]

/-- A file below the resource path of a path is below the path too, if steps up stand only at its
beginning. -/
theorem isFile_join_of_normalize {path rest : String} (ascends : Path.Ascends path)
    (relative : Path.isAbsolute rest = false) (isPath : IsPath (Path.join path rest))
    (there : storage.isFile (Path.join (Path.normalize path) rest) = true) :
    storage.isFile (Path.join path rest) = true := by
  by_cases empty : path = ""
  · rw [empty] at there ⊢
    exact there
  · obtain ⟨place, bytes, ends⟩ := locate_of_isFile there
    obtain ⟨more, shape, _⟩ := Path.exists_segments_eq empty
    have upFirst := ascends.upFirst
    rw [shape, List.pairwise_append] at upFirst
    have goesOn : (Path.segments rest).map String.ofList ≠ [] := by
      simp [Path.segments, Text.pieces_ne_nil]
    rw [locate_eq_walk (isPath_of_locate ends), Path.isAbsolute_join relative,
      Path.isAbsolute_normalize_eq, Path.rooted_eq_isAbsolute ascends.noBackslash, stepsOf,
      Path.segments_join relative, List.map_append] at ends
    have thinned := walk_of_thins ((thins_moving _).append_right _) ends
    rw [← Path.movesOf_eq_filter, ascends.movesOf_normalize] at thinned
    have whole := walk_of_keeps upFirst.1 (fun absolute => if_pos absolute) goesOn thinned
    rw [isFile, locate_eq_walk isPath, Path.isAbsolute_join relative, stepsOf,
      Path.segments_join relative, List.map_append, whole]

end Storage

namespace Options

open WebBundle.Path

variable {storage : Storage} {start root path : String}

/-- The root is the first path on the way up that holds a configuration file. -/
theorem findRootFrom_eq_ok_iff {rounds : Nat} (enough : path.length < rounds) :
    findRootFrom storage start rounds path = .ok root ↔
      ∃ passed, WayUp path passed root ∧ storage.isFile (join root configFileName) = true ∧
        ∀ other ∈ passed, storage.isFile (join other configFileName) = false := by
  induction rounds generalizing path with
  | zero => exact absurd enough (Nat.not_lt_zero _)
  | succ rounds ih =>
      rw [findRootFrom]
      by_cases here : storage.isFile (join path configFileName) = true
      · rw [if_pos here, Except.ok.injEq]
        constructor
        · rintro rfl
          exact ⟨[], .here path, here, nofun⟩
        · rintro ⟨passed, way, _, none⟩
          cases way with
          | here => rfl
          | up =>
              rw [none path List.mem_cons_self] at here
              cases here
      · rw [if_neg here]
        cases isParent : parent? path with
        | none =>
            refine ⟨nofun, ?_⟩
            rintro ⟨passed, way, holds, _⟩
            cases way with
            | here => exact absurd holds here
            | up isParent' =>
                rw [isParent] at isParent'
                cases isParent'
        | some parent =>
            have shorter := length_lt_of_parent? isParent
            dsimp only
            rw [ih (by omega)]
            constructor
            · rintro ⟨passed, way, holds, none⟩
              refine ⟨path :: passed, .up isParent way, holds, ?_⟩
              exact List.forall_mem_cons.2 ⟨eq_false_of_ne_true here, none⟩
            · rintro ⟨passed, way, holds, none⟩
              cases way with
              | here => exact absurd holds here
              | up isParent' way =>
                  obtain rfl := Option.some.inj (isParent.symm.trans isParent')
                  exact ⟨_, way, holds, (List.forall_mem_cons.1 none).2⟩

theorem findRoot_eq_ok_iff : findRoot storage start = .ok root ↔
    ∃ passed, WayUp start passed root ∧ storage.isFile (join root configFileName) = true ∧
      ∀ path ∈ passed, storage.isFile (join path configFileName) = false :=
  findRootFrom_eq_ok_iff (by omega)

/-- The paths that are passed on the way up from a start to a root. -/
structure Passes (storage : Storage) (start root : String) (passed : List String) : Prop where
  way : WayUp start passed root
  none : ∀ path ∈ passed, storage.isFile (join path configFileName) = false
  above (stepsUp : ∀ path ∈ passed, StepsUp path) : LiesAbove root start
  /-- Every path between the root and the start is passed in some spelling. -/
  between (stepsUp : ∀ path ∈ passed, StepsUp path) (path : String)
    (isBelow : LiesAbove root path) (ne : normalize path ≠ normalize root)
    (isAbove : LiesAbove path start) : ∃ other ∈ passed, normalize other = normalize path

/-- The root that is found from a start. -/
structure FindsUpward (storage : Storage) (start root : String) : Prop where
  holds : storage.isFile (join root configFileName) = true
  passes : ∃ passed, Passes storage start root passed
  above (ascends : Ascends start) : LiesAbove root start
  /-- The lookup at the start must not fail for the length of the path. -/
  nearest (ascends : Ascends start) (isPath : Storage.IsPath (join start configFileName))
    (between : String) (isResource : IsCanonical between) (isBelow : LiesAbove root between)
    (ne : between ≠ normalize root) (isAbove : LiesAbove between start) :
    storage.isFile (join between configFileName) = false

theorem findsUpward_iff : findRoot storage start = .ok root ↔ FindsUpward storage start root := by
  rw [findRoot_eq_ok_iff]
  constructor
  · rintro ⟨passed, way, holds, none⟩
    have stepsUp (ascends : Ascends start) : ∀ path ∈ passed, StepsUp path :=
      fun path listed => .inl (way.of_mem_passed ascends path listed).1
    refine ⟨holds, ⟨passed, way, none, way.liesAbove, ?_⟩,
      fun ascends => way.liesAbove (stepsUp ascends), ?_⟩
    · exact fun stepsUp path isBelow ne isAbove => way.exists_passed stepsUp isBelow ne isAbove
    · intro ascends isPath between isResource isBelow ne isAbove
      have same := normalize_eq_self_iff.2 isResource
      obtain ⟨other, listed, spelled⟩ :=
        way.exists_passed (stepsUp ascends) isBelow (same.symm ▸ ne) isAbove
      obtain ⟨ascends', sublist⟩ := way.of_mem_passed ascends other listed
      rw [same] at spelled
      rw [← Bool.not_eq_true]
      intro there
      have relative : isAbsolute configFileName = false := by decide
      have isPath' : Storage.IsPath (join other configFileName) := by
        refine isPath.of_shorter ?_ ?_
        · rw [Ne, ← String.toList_eq_nil_iff, toList_join relative, List.append_eq_nil_iff]
          exact fun empty => absurd empty.2 (by decide)
        · rw [toList_join relative, toList_join relative]
          exact (front_sublist sublist).append_right _
      rw [← spelled] at there
      have missing := none other listed
      rw [Storage.isFile_join_of_normalize ascends' relative isPath' there] at missing
      cases missing
  · rintro ⟨holds, ⟨passed, passes⟩, _, _⟩
    exact ⟨passed, passes.way, holds, passes.none⟩

/-- Projects in a project, one of them beside a directory whose name has a backslash. -/
def nested : Storage where
  items := [(["shard.toml"], .file .empty), (["app"], .directory), (["app", "src"], .directory),
    (["app", "src", "shard.toml"], .file .empty), (["app", "src", "js"], .directory),
    (["app", "lib"], .directory), (["app", "lib", "shard.toml"], .file .empty),
    (["app", "lib\\js"], .directory)]
  workingDirectory := ["app"]

theorem findsUpward_nested :
    findRoot nested "/app/src/./js/" = .ok "/app/src" ∧
      FindsUpward nested "/app/src/./js/" "/app/src" ∧ Ascends "/app/src/./js/" ∧
        LiesAbove "/app/src" "/app/src/./js/" := by
  have found : findRoot nested "/app/src/./js/" = .ok "/app/src" := by
    refine findRoot_eq_ok_iff.2 ⟨["/app/src/./js/"], .up (by decide) (.here _), ?_⟩
    simp only [Storage.isFile_eq_locateSteps]
    decide +kernel
  have upward := findsUpward_iff.1 found
  have ascends : Ascends "/app/src/./js/" := by decide
  exact ⟨found, upward, ascends, upward.above ascends⟩

/-- From a step up behind a name the way leads down to the name. Past a backslash it misses the path
that ends there. -/
theorem not_liesAbove_nested :
    (findRoot nested "/app/src/.." = .ok "/app/src" ∧ ¬LiesAbove "/app/src" "/app/src/..") ∧
      findRoot nested "/app/lib\\js" = .ok "/" ∧ LiesAbove "/" "/app/lib" ∧
        LiesAbove "/app/lib" "/app/lib\\js" ∧
          nested.isFile (join "/app/lib" configFileName) = true := by
  have down : findRoot nested "/app/src/.." = .ok "/app/src" := by
    refine findRoot_eq_ok_iff.2 ⟨["/app/src/.."], .up (by decide) (.here _), ?_⟩
    simp only [Storage.isFile_eq_locateSteps]
    decide +kernel
  have past : findRoot nested "/app/lib\\js" = .ok "/" := by
    refine findRoot_eq_ok_iff.2 ⟨["/app/lib\\js", "/app"],
      .up (by decide) (.up (by decide) (.here _)), ?_⟩
    simp only [Storage.isFile_eq_locateSteps]
    decide +kernel
  refine ⟨⟨down, by decide⟩, past, by decide, by decide, ?_⟩
  simp only [Storage.isFile_eq_locateSteps]
  decide +kernel

end Options

end WebBundle
