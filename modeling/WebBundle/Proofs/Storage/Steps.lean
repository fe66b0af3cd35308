import Mathlib.Data.List.Basic
import WebBundle.Proofs.Path.Steps
import WebBundle.Proofs.Storage.Items

/-!
# Walks by steps

A walk goes through its steps one after the other, and starts anew wherever it follows a link. In
this form, which is recursive on the steps and on the links that may still be followed, a walk can
be computed in a storage that is known.

Empty steps and single dots lead nowhere, so a walk that reaches an item reaches it without them.
Only a directory can be reached by a walk that ends with one.
-/

namespace WebBundle.Storage

/-! ## Steps in turn -/

section

variable {storage : Storage} {follow : Bool}

/-- What a walk does at a link: its target, the directory with the link, and the steps behind it. -/
abbrev Jump := (target : String) → Place → List String → Except Fault Location

/-- Walks up to the first link that is followed. -/
def walkSteps (storage : Storage) (follow : Bool) (jump : Jump) :
    Place → List String → Except Fault Location
  | place, [] =>
      match storage.itemAt? place with
      | none => .error .missing
      | some item => .ok (.taken place item)
  | place, step :: rest =>
      match storage.itemAt? place with
      | none => .error .missing
      | some .directory =>
          if step = "" || step = "." then walkSteps storage follow jump place rest
          else if step = ".." then walkSteps storage follow jump place.dropLast rest
          else if nameBound < step.utf8ByteSize then .error .nameTooLong
          else
            match storage.itemAt? (place ++ [step]) with
            | none =>
                if rest.all (· = "") then .ok (.vacant place step !rest.isEmpty)
                else .error .missing
            | some (.link target) =>
                if rest.isEmpty && !follow then .ok (.taken (place ++ [step]) (.link target))
                else jump target place rest
            | some _ => walkSteps storage follow jump (place ++ [step]) rest
      | some _ => .error .notDirectory

/-- Follows a link while some may still be followed. -/
def followLink (storage : Storage) (follow : Bool) : (links : Nat) → Jump
  | 0 => fun _ _ _ => .error .tooManyLinks
  | links + 1 => fun target place rest =>
      if target.isEmpty then .error .missing
      else
        walkSteps storage follow (followLink storage follow links)
          (if Path.isAbsolute target then [] else place) (stepsOf target ++ rest)

theorem walk_eq_walkSteps (links : Nat) (place : Place) (steps : List String) :
    storage.walk follow links place steps =
      storage.walkSteps follow (storage.followLink follow links) place steps := by
  fun_induction storage.walk follow links place steps with
  | case1 links place steps missing =>
      cases steps with
      | nil => rw [walkSteps, missing]
      | cons step rest => rw [walkSteps, missing]
  | case2 links place item found => rw [walkSteps, found]
  | case3 links place step rest found still ih =>
      rw [ih, walkSteps.eq_2, found]
      simp only [still, if_true]
  | case4 links place rest found moves ih =>
      rw [ih, walkSteps.eq_2, found]
      simp only [moves, if_true, if_false, Bool.false_eq_true]
  | case5 links place step rest found moves notUp long =>
      rw [walkSteps, found]
      simp only [moves, notUp, long, if_true, if_false, Bool.false_eq_true]
  | case6 links place step rest found moves notUp short free isEnd =>
      rw [walkSteps, found]
      simp only [moves, notUp, short, free, isEnd, if_true, if_false, Bool.false_eq_true]
  | case7 links place step rest found moves notUp short free goesOn =>
      rw [walkSteps, found]
      simp only [moves, notUp, short, free, goesOn, if_false, Bool.false_eq_true]
  | case8 links place step rest found moves notUp short target link isEnd =>
      rw [walkSteps, found]
      simp only [moves, notUp, short, link, isEnd, if_true, if_false, Bool.false_eq_true]
  | case9 place step rest found moves notUp short target link goesOn =>
      rw [walkSteps, found]
      simp only [moves, notUp, short, link, goesOn, if_false, Bool.false_eq_true]
      rfl
  | case10 place step rest found moves notUp short target link goesOn links empty =>
      rw [walkSteps, found]
      simp only [moves, notUp, short, link, goesOn, if_false, Bool.false_eq_true]
      exact (if_pos empty).symm
  | case11 place step rest found moves notUp short target link goesOn links nonempty ih =>
      rw [walkSteps.eq_2, found]
      simp only [moves, notUp, short, link, goesOn, if_false, Bool.false_eq_true]
      exact ih.trans (if_neg nonempty).symm
  | case12 links place step rest found moves notUp short item noLink there ih =>
      rw [ih, walkSteps.eq_2, found]
      simp only [moves, notUp, short, there, if_false, Bool.false_eq_true]
  | case13 links place item step rest notDirectory found =>
      rw [walkSteps, found]
      cases item with
      | directory => exact absurd rfl notDirectory
      | file bytes => rfl
      | link target => rfl

/-- A path is walked by its steps. -/
def locateSteps (storage : Storage) (follow : Bool) (path : String) : Except Fault Location :=
  if path.isEmpty then .error .missing
  else if path.toList.any (·.toNat = 0) then .error .invalidName
  else if pathBound ≤ path.utf8ByteSize then .error .nameTooLong
  else
    storage.walkSteps follow (storage.followLink follow linkBound)
      (if Path.isAbsolute path then [] else storage.workingDirectory) (stepsOf path)

theorem locate_eq_locateSteps (path : String) :
    storage.locate follow path = storage.locateSteps follow path := by
  rw [locate, locateSteps, walk_eq_walkSteps]

theorem isFile_eq_locateSteps (storage : Storage) :
    storage.isFile = fun path =>
      match storage.locateSteps true path with
      | .ok (.taken _ (.file _)) => true
      | _ => false := by
  funext path
  rewrite [isFile, locate_eq_locateSteps]
  rfl

end

/-! ## Still steps -/

/-- A step that names no item and leads nowhere. -/
abbrev IsStill (step : String) : Prop := (step = "" || step = ".") = true

/-- Some still steps of a list are left out. -/
inductive Thins : List String → List String → Prop where
  | nil : Thins [] []
  | keep {steps others : List String} (step : String) (rest : Thins steps others) :
      Thins (step :: steps) (step :: others)
  | skip {step : String} {steps others : List String} (still : IsStill step)
      (rest : Thins steps others) : Thins (step :: steps) others

variable {steps others : List String}

theorem Thins.append_left (thins : Thins steps others) (before : List String) :
    Thins (before ++ steps) (before ++ others) := by
  induction before with
  | nil => exact thins
  | cons step before ih => exact .keep step ih

theorem Thins.append_right (thins : Thins steps others) (behind : List String) :
    Thins (steps ++ behind) (others ++ behind) := by
  induction thins with
  | nil =>
      induction behind with
      | nil => exact .nil
      | cons step behind ih => exact .keep step ih
  | keep step _ ih => exact .keep step ih
  | skip still _ ih => exact .skip still ih

theorem Thins.refl (steps : List String) : Thins steps steps := by
  induction steps with
  | nil => exact .nil
  | cons step steps ih => exact .keep step ih

theorem thins_moving (names : List (List Char)) :
    Thins (names.map String.ofList)
      ((names.filter fun name => !Path.isStill name).map String.ofList) := by
  induction names with
  | nil => exact .nil
  | cons name names ih =>
      by_cases still : Path.isStill name = true
      · rw [List.filter_cons_of_neg (by simp [still])]
        exact .skip ((Path.isStill_ofList name).trans still) ih
      · rw [List.filter_cons_of_pos (by simpa using still)]
        exact .keep (String.ofList name) ih

variable {storage : Storage} {links : Nat} {place final : Place} {item : Item}

theorem walk_of_thins (thins : Thins steps others)
    (ends : storage.walk true links place steps = .ok (.taken final item)) :
    storage.walk true links place others = .ok (.taken final item) := by
  fun_induction storage.walk true links place steps generalizing others with
  | case2 _ _ _ found =>
      cases thins
      exact (walk_nil found).trans ends
  | case3 _ _ _ _ found still ih =>
      cases thins with
      | keep _ rest => exact (walk_still found still).trans (ih rest ends)
      | skip _ rest => exact ih rest ends
  | case4 _ _ _ found _ ih =>
      cases thins with
      | keep _ rest => exact (walk_up found).trans (ih rest ends)
      | skip still _ => cases still
  | case8 _ _ _ _ _ _ _ _ _ _ isEnd => simp at isEnd
  | case11 _ _ _ found moves notUp short _ link _ _ nonempty ih =>
      cases thins with
      | keep _ rest =>
          exact (walk_link found ⟨moves, notUp, short⟩ link (by simp) nonempty).trans
            (ih (rest.append_left _) ends)
      | skip still _ => exact absurd still moves
  | case12 _ _ _ _ found moves notUp short _ noLink there ih =>
      cases thins with
      | keep _ rest =>
          exact (walk_on found ⟨moves, notUp, short⟩ there noLink).trans (ih rest ends)
      | skip still _ => exact absurd still moves
  | _ => cases ends

end WebBundle.Storage
