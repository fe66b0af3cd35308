import WebBundle.Proofs.Storage.Steps
import WebBundle.Proofs.Storage.Tree

/-!
# What a walk meets

A path depends on the places that its walk meets: those at which it looks, and where it is lost, the
place to which the steps that are left would lead. Changes below a place are not noticed by a walk
that passes only directories above it and is not lost in it: the path leads to the same item, or it
led nowhere and leads to a directory that was made above the place.
-/

namespace WebBundle.Storage

variable {storage later : Storage} {near place : Place} {path : String}

/-! ## The places on the way -/

/-- What a walk meets: a place on its way, or a place to which it does not come because it is lost
above it. -/
inductive Encounter where
  | passed (place : Place)
  | lost (place : Place)

def Encounter.position : Encounter → Place
  | .passed place => place
  | .lost place => place

/-- Where the steps that are left would lead from a place at which nothing is. A step up is not
taken from there. -/
def lostAt (place : Place) (steps : List String) : Encounter :=
  if ".." ∈ steps then .passed place
  else .lost (place ++ steps.filter fun step => !(step = "" || step = "."))

/-- What is met behind a link: its target, the directory with the link, and the steps behind it. -/
abbrev Prospect := (target : String) → Place → List String → List Encounter

/-- What is met up to the first link. -/
def meetSteps (storage : Storage) (onwards : Prospect) : Place → List String → List Encounter
  | place, [] => if (storage.itemAt? place).isSome then [.passed place] else [lostAt place []]
  | place, step :: rest =>
      match storage.itemAt? place with
      | none => [lostAt place (step :: rest)]
      | some .directory =>
          if step = "" || step = "." then .passed place :: meetSteps storage onwards place rest
          else if step = ".." then .passed place :: meetSteps storage onwards place.dropLast rest
          else if nameBound < step.utf8ByteSize then [.passed place]
          else
            match storage.itemAt? (place ++ [step]) with
            | none => [.passed place, lostAt (place ++ [step]) rest]
            | some (.link target) =>
                .passed place :: .passed (place ++ [step]) :: onwards target place rest
            | some _ => .passed place :: meetSteps storage onwards (place ++ [step]) rest
      | some _ => [.passed place]

/-- What is met behind a link, while some may still be followed. -/
def meetLink (storage : Storage) : (links : Nat) → Prospect
  | 0 => fun _ _ _ => []
  | links + 1 => fun target place rest =>
      if target.isEmpty then []
      else
        meetSteps storage (meetLink storage links) (if Path.isAbsolute target then [] else place)
          (stepsOf target ++ rest)

/-- A walk meets the place at which it begins. -/
theorem mem_meetSteps {item : Item} (found : storage.itemAt? place = some item)
    (onwards : Prospect) (steps : List String) :
    .passed place ∈ storage.meetSteps onwards place steps := by
  fun_cases storage.meetSteps onwards place steps with
  | case2 _ free => simp [found] at free
  | case3 _ _ _ missing =>
      rw [found] at missing
      cases missing
  | _ => exact List.mem_cons_self

/-- What the walk of a path meets. -/
def met (storage : Storage) (path : String) : List Encounter :=
  meetSteps storage (meetLink storage linkBound)
    (if Path.isAbsolute path then [] else storage.workingDirectory) (stepsOf path)

/-! ## What a path leads to -/

/-- The item at the end of a walk. -/
def ended? : Except Fault Location → Option (Place × Item)
  | .ok (.taken place item) => some (place, item)
  | _ => none

/-- The place and the item to which a path leads. -/
def found? (storage : Storage) (path : String) : Option (Place × Item) :=
  ended? (storage.locate true path)

theorem found?_eq_some {item : Item} :
    storage.found? path = some (place, item) ↔
      storage.locate true path = .ok (.taken place item) := by
  rw [found?]
  cases storage.locate true path with
  | error fault => exact ⟨nofun, nofun⟩
  | ok location =>
      cases location with
      | taken other found => simp [ended?]
      | vacant parent name slash => exact ⟨nofun, nofun⟩

theorem isFile_iff : storage.isFile path = true ↔
    ∃ place bytes, storage.found? path = some (place, .file bytes) := by
  simp only [found?_eq_some]
  unfold isFile
  split
  next place bytes ends => exact ⟨fun _ => ⟨place, bytes, ends⟩, fun _ => rfl⟩
  next other => exact ⟨nofun, fun ⟨place, bytes, ends⟩ => absurd ends (other place bytes)⟩

theorem isDirectory_iff : storage.isDirectory path = true ↔
    ∃ place, storage.found? path = some (place, .directory) := by
  simp only [found?_eq_some]
  unfold isDirectory
  split
  next place ends => exact ⟨fun _ => ⟨place, ends⟩, fun _ => rfl⟩
  next other => exact ⟨nofun, fun ⟨place, ends⟩ => absurd ends (other place)⟩

theorem read_eq_ok {bytes : ByteArray} : storage.read path = .ok bytes ↔
    ∃ place, storage.found? path = some (place, .file bytes) := by
  simp only [found?_eq_some]
  unfold read
  split
  next place held ends =>
    rw [ends]
    simp
  next ends =>
    rw [ends]
    simp_all
  next ends =>
    rw [ends]
    simp
  next ends =>
    rw [ends]
    simp

theorem readText_eq_ok {text : String} : storage.readText path = .ok text ↔
    ∃ bytes, storage.read path = .ok bytes ∧ Text.Utf8.strict? bytes = some text := by
  unfold readText
  cases storage.read path with
  | error fault => simp
  | ok bytes =>
      cases isText : Text.Utf8.strict? bytes with
      | none => simp [isText]
      | some other => simp [isText]

/-! ## Changes below a place -/

/-- What a path leads to stays, except that it may lead to a directory where it led nowhere. -/
def Kept (before after : Option (Place × Item)) : Prop :=
  after = before ∨ (before = none ∧ ∃ place, after = some (place, .directory))

namespace Kept

variable {before after : Option (Place × Item)}

theorem finds {found : Place × Item} (kept : Kept before after) (given : before = some found) :
    after = some found := by
  cases kept with
  | inl same => rw [same, given]
  | inr new =>
      rw [given] at new
      cases new.1

theorem file_iff {bytes : ByteArray} (kept : Kept before after) :
    after = some (place, .file bytes) ↔ before = some (place, .file bytes) := by
  cases kept with
  | inl same => rw [same]
  | inr new =>
      obtain ⟨rfl, place, rfl⟩ := new
      simp

end Kept

section

variable (kept : Kept (storage.found? path) (later.found? path))

include kept

theorem isFile_of_kept : later.isFile path = storage.isFile path := by
  rw [Bool.eq_iff_iff, isFile_iff, isFile_iff]
  simp only [kept.file_iff]

theorem isDirectory_of_kept (there : storage.isDirectory path = true) :
    later.isDirectory path = true := by
  obtain ⟨place, found⟩ := isDirectory_iff.1 there
  exact isDirectory_iff.2 ⟨place, kept.finds found⟩

theorem read_of_kept (bytes : ByteArray) :
    later.read path = .ok bytes ↔ storage.read path = .ok bytes := by
  simp only [read_eq_ok, kept.file_iff]

theorem readText_of_kept (text : String) :
    later.readText path = .ok text ↔ storage.readText path = .ok text := by
  simp only [readText_eq_ok, read_of_kept kept]

end

/-- A place is passed without notice if it does not lie near the other one, or if it is a directory
above it or in its place. A walk that is lost may not lead into the other place. -/
def Apart (storage : Storage) (near : Place) : Encounter → Prop
  | .passed place => ¬Near near place ∨ (place <+: near ∧ storage.itemAt? place = some .directory)
  | .lost place => ¬near <+: place

/-- What was changed lies near a place, above which there are directories now. -/
structure Frames (near : Place) (storage later : Storage) : Prop where
  elsewhere (place : Place) (apart : ¬Near near place) :
    later.itemAt? place = storage.itemAt? place
  above (place : Place) (above : place <+: near) : later.itemAt? place = some .directory
  workingDirectory : later.workingDirectory = storage.workingDirectory

theorem lostAt_still {step : String} {rest : List String} (still : IsStill step) :
    lostAt place (step :: rest) = lostAt place rest := by
  have notUp : step ≠ ".." := by
    rintro rfl
    cases still
  rw [lostAt, lostAt, List.filter_cons_of_neg (by rw [still]; exact Bool.false_ne_true)]
  simp [notUp.symm]

theorem lostAt_name {step : String} {rest : List String} (moves : ¬IsStill step)
    (noUp : ".." ∉ step :: rest) : lostAt place (step :: rest) = lostAt (place ++ [step]) rest := by
  have noUp' : ".." ∉ rest := fun up => noUp (List.mem_cons_of_mem step up)
  rw [lostAt, lostAt, if_neg noUp, if_neg noUp', List.filter_cons_of_pos (by simpa using moves),
    List.append_assoc]
  rfl

/-- A walk that is lost apart from a place is lost above its end. -/
theorem outside_of_lost {steps : List String} (free : storage.itemAt? place = none)
    (apart : Apart storage near (lostAt place steps)) : ¬near <+: place := by
  unfold lostAt at apart
  split at apart
  next =>
    cases apart with
    | inl away => exact fun inside => away (.inl inside)
    | inr above =>
        rw [free] at above
        cases above.2
  next => exact fun inside => apart (inside.trans (List.prefix_append _ _))

namespace Frames

variable (frames : Frames near storage later)

include frames

theorem itemAt?_eq (apart : Apart storage near (.passed place)) :
    later.itemAt? place = storage.itemAt? place := by
  cases apart with
  | inl away => exact frames.elsewhere place away
  | inr above => rw [frames.above place above.1, above.2]

/-- Outside of the place nothing is new but the directories above it. -/
theorem new_outside (free : storage.itemAt? place = none) (outside : ¬near <+: place) :
    later.itemAt? place = none ∨ later.itemAt? place = some .directory := by
  by_cases above : place <+: near
  · exact .inr (frames.above place above)
  · refine .inl ((frames.elsewhere place ?_).trans free)
    exact fun isNear => isNear.elim outside above

/-- A walk that steps to a place at which there was nothing goes on from there, or ends. -/
theorem kept_of_step {links : Nat} {step : String} {rest : List String}
    (found : later.itemAt? place = some .directory) (moves : ¬IsStill step) (notUp : step ≠ "..")
    (free : storage.itemAt? (place ++ [step]) = none) (outside : ¬near <+: place ++ [step])
    (onwards : Kept none (ended? (later.walk true links (place ++ [step]) rest))) :
    Kept none (ended? (later.walk true links place (step :: rest))) := by
  rw [walk.eq_def]
  simp only [found, moves, notUp, if_false]
  split
  next => exact .inl rfl
  next =>
    cases frames.new_outside free outside with
    | inl missing =>
        simp only [missing]
        split
        next => exact .inl rfl
        next => exact .inl rfl
    | inr made =>
        simp only [made]
        exact onwards

variable (tree : storage.IsTree)

include tree

/-- A walk from a place at which there was nothing leads at most to a directory that was made. -/
theorem kept_of_lost {links : Nat} {steps : List String}
    (free : storage.itemAt? place = none) (apart : Apart storage near (lostAt place steps)) :
    Kept none (ended? (later.walk true links place steps)) := by
  have stops (missing : later.itemAt? place = none) :
      Kept none (ended? (later.walk true links place steps)) := by
    rw [walk.eq_def]
    simp only [missing]
    exact .inl rfl
  cases frames.new_outside free (outside_of_lost free apart) with
  | inl missing => exact stops missing
  | inr made =>
      by_cases up : ".." ∈ steps
      · rw [lostAt, if_pos up] at apart
        exact stops ((frames.itemAt?_eq apart).trans free)
      · clear stops
        induction steps generalizing place with
        | nil =>
            rw [walk_nil made]
            exact .inr ⟨rfl, place, rfl⟩
        | cons step rest ih =>
            have noUp : ".." ∉ rest := fun inside => up (List.mem_cons_of_mem step inside)
            have notUp : step ≠ ".." := fun same => up (same ▸ List.mem_cons_self)
            by_cases still : IsStill step
            · rw [lostAt_still still] at apart
              rw [walk_still made still]
              exact ih free apart made noUp
            · rw [lostAt_name still up] at apart
              have freeNext := tree.free_below free (List.prefix_append place [step])
              have outside := outside_of_lost freeNext apart
              refine frames.kept_of_step made still notUp freeNext outside ?_
              cases frames.new_outside freeNext outside with
              | inl missing =>
                  rw [walk.eq_def]
                  simp only [missing]
                  exact .inl rfl
              | inr made => exact ih freeNext apart made noUp

/-- A walk that steps to a free name leads at most to a directory that was made. -/
theorem kept_of_free {links : Nat} {step : String} {rest : List String}
    (found : storage.itemAt? place = some .directory) (isName : IsName step)
    (free : storage.itemAt? (place ++ [step]) = none)
    (apart : ∀ met ∈ storage.meetSteps (storage.meetLink links) place (step :: rest),
      Apart storage near met) :
    Kept none (ended? (later.walk true links place (step :: rest))) := by
  rw [meetSteps, found] at apart
  simp only [isName.moves, isName.notUp, isName.short, free, if_false, Bool.false_eq_true,
    List.forall_mem_cons] at apart
  obtain ⟨here, lost, _⟩ := apart
  have there := (frames.itemAt?_eq here).trans found
  exact frames.kept_of_step there isName.moves isName.notUp free (outside_of_lost free lost)
    (frames.kept_of_lost tree free lost)

/-- A walk that meets nothing near the place leads where it led before. -/
theorem kept_walk {links : Nat} {steps : List String}
    (apart : ∀ met ∈ storage.meetSteps (storage.meetLink links) place steps,
      Apart storage near met) :
    Kept (ended? (storage.walk true links place steps))
      (ended? (later.walk true links place steps)) := by
  fun_induction storage.walk true links place steps with
  | case1 links place steps missing =>
      have lost : lostAt place steps ∈ storage.meetSteps (storage.meetLink links) place steps := by
        cases steps with
        | nil => simp [meetSteps, missing]
        | cons step rest => simp [meetSteps, missing]
      exact frames.kept_of_lost tree missing (apart _ lost)
  | case2 links place item found =>
      have there := (frames.itemAt?_eq (apart _ (mem_meetSteps found _ []))).trans found
      rw [walk_nil there]
      exact .inl rfl
  | case3 links place step rest found still ih =>
      rw [meetSteps, found] at apart
      simp only [still, if_true, List.forall_mem_cons] at apart
      obtain ⟨here, onwards⟩ := apart
      rw [walk_still ((frames.itemAt?_eq here).trans found) still]
      exact ih onwards
  | case4 links place rest found moves ih =>
      rw [meetSteps, found] at apart
      simp only [moves, if_true, if_false, Bool.false_eq_true, List.forall_mem_cons] at apart
      obtain ⟨here, onwards⟩ := apart
      rw [walk_up ((frames.itemAt?_eq here).trans found)]
      exact ih onwards
  | case5 links place step rest found moves notUp long =>
      rw [meetSteps, found] at apart
      simp only [moves, notUp, long, if_true, if_false, Bool.false_eq_true,
        List.forall_mem_cons] at apart
      have there := (frames.itemAt?_eq apart.1).trans found
      rw [walk.eq_def]
      simp only [there, moves, notUp, long, if_true, if_false, Bool.false_eq_true]
      exact .inl rfl
  | case6 links place step rest found moves notUp short free isEnd =>
      exact frames.kept_of_free tree found ⟨moves, notUp, short⟩ free apart
  | case7 links place step rest found moves notUp short free goesOn =>
      exact frames.kept_of_free tree found ⟨moves, notUp, short⟩ free apart
  | case8 links place step rest found moves notUp short target link isEnd => simp at isEnd
  | case9 place step rest found moves notUp short target link goesOn =>
      rw [meetSteps, found] at apart
      simp only [moves, notUp, short, link, if_false, Bool.false_eq_true,
        List.forall_mem_cons] at apart
      obtain ⟨here, atLink, _⟩ := apart
      have there := (frames.itemAt?_eq here).trans found
      have linkThere := (frames.itemAt?_eq atLink).trans link
      rw [walk.eq_def]
      simp only [there, moves, notUp, short, linkThere, goesOn, if_false, Bool.false_eq_true]
      exact .inl rfl
  | case10 place step rest found moves notUp short target link goesOn links empty =>
      rw [meetSteps, found] at apart
      simp only [moves, notUp, short, link, if_false, Bool.false_eq_true,
        List.forall_mem_cons] at apart
      obtain ⟨here, atLink, _⟩ := apart
      have there := (frames.itemAt?_eq here).trans found
      have linkThere := (frames.itemAt?_eq atLink).trans link
      rw [walk.eq_def]
      simp only [there, moves, notUp, short, linkThere, goesOn, empty, if_true, if_false,
        Bool.false_eq_true]
      exact .inl rfl
  | case11 place step rest found moves notUp short target link goesOn links nonempty ih =>
      rw [meetSteps, found] at apart
      simp only [moves, notUp, short, link, if_false, Bool.false_eq_true, List.forall_mem_cons,
        meetLink, nonempty] at apart
      obtain ⟨here, atLink, onwards⟩ := apart
      have there := (frames.itemAt?_eq here).trans found
      have linkThere := (frames.itemAt?_eq atLink).trans link
      rw [walk_link there ⟨moves, notUp, short⟩ linkThere goesOn nonempty]
      exact ih onwards
  | case12 links place step rest found moves notUp short item noLink held ih =>
      have meets : storage.meetSteps (storage.meetLink links) place (step :: rest) =
          .passed place :: storage.meetSteps (storage.meetLink links) (place ++ [step]) rest := by
        rw [meetSteps, found]
        simp only [moves, notUp, short, held, if_false, Bool.false_eq_true]
      rw [meets, List.forall_mem_cons] at apart
      obtain ⟨here, onwards⟩ := apart
      have there := (frames.itemAt?_eq here).trans found
      have heldThere := (frames.itemAt?_eq (onwards _ (mem_meetSteps held _ rest))).trans held
      rw [walk_on there ⟨moves, notUp, short⟩ heldThere noLink]
      exact ih onwards
  | case13 links place item step rest notDirectory found =>
      have there := (frames.itemAt?_eq (apart _ (mem_meetSteps found _ _))).trans found
      rw [walk.eq_def]
      simp only [there]
      exact .inl rfl

/-- What a path leads to is kept if it meets nothing near the place. -/
theorem kept (apart : ∀ met ∈ storage.met path, Apart storage near met) :
    Kept (storage.found? path) (later.found? path) := by
  rw [found?, found?, locate, locate, frames.workingDirectory]
  split
  next => exact .inl rfl
  next =>
    split
    next => exact .inl rfl
    next =>
      split
      next => exact .inl rfl
      next => exact frames.kept_walk tree apart

end Frames

end WebBundle.Storage
