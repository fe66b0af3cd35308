import WebBundle.Proofs.Page.Stripping

/-!
# Stripping character by character

Behind a character that stays, stripping drops a blank if only blanks follow on its line, and it
drops a line feed if only blanks follow on the next line. So of all the blanks between two lines
that stay one line feed stays, the last one. In a part that ends with a character that is no blank,
what is dropped does not depend on what follows.
-/

namespace WebBundle.Page

open Text

variable {c : Char} {text : List Char}

/-- The line on which the text begins has a character that is no blank. -/
def isSolid : List Char → Bool
  | [] => false
  | c :: text => c ≠ '\n' && (!isBlank c || isSolid text)

/-- Stripping drops the character before the text. -/
def drops (c : Char) (text : List Char) : Bool := isBlank c && !isSolid text

/-- What stripping leaves of a text behind a character that stays. -/
def stripFrom : List Char → List Char
  | [] => ['\n']
  | c :: text => if drops c text then stripFrom text else c :: stripFrom text

theorem stripFrom_of_drops (dropped : drops c text = true) :
    stripFrom (c :: text) = stripFrom text :=
  if_pos dropped

theorem stripFrom_of_kept (kept : drops c text = false) :
    stripFrom (c :: text) = c :: stripFrom text :=
  if_neg (by rw [kept]; exact Bool.false_ne_true)

theorem kept_of_not_isBlank (solid : isBlank c = false) (text : List Char) :
    drops c text = false := by
  rw [drops, solid, Bool.false_and]

theorem stripFrom_of_not_isBlank (solid : isBlank c = false) (text : List Char) :
    stripFrom (c :: text) = c :: stripFrom text :=
  stripFrom_of_kept (kept_of_not_isBlank solid text)

theorem isSolid_of_not_isBlank (solid : isBlank c = false) (text : List Char) :
    isSolid (c :: text) = true := by
  have noFeed : c ≠ '\n' := by
    rintro rfl
    exact absurd solid (by decide)
  simp [isSolid, solid, noFeed]

theorem ne_of_isBlank {d : Char} (blank : isBlank c = true) (solid : isBlank d = false) :
    c ≠ d := by
  rintro rfl
  rw [blank] at solid
  cases solid

theorem drops_iff : drops c text = true ↔ isBlank c = true ∧ isSolid text = false := by
  rw [drops, Bool.and_eq_true, Bool.not_eq_true']

theorem isSolid_cons_eq_false_iff :
    isSolid (c :: text) = false ↔ c = '\n' ∨ drops c text = true := by
  rw [drops_iff, or_iff_not_imp_left]
  simp [isSolid]

/-- Where only blanks are left on the line, its line feed comes next. -/
theorem exists_stripFrom_eq (ends : isSolid text = false) :
    ∃ more, stripFrom text = '\n' :: more := by
  induction text with
  | nil => exact ⟨[], rfl⟩
  | cons c text ih =>
      cases dropped : drops c text with
      | true =>
          rw [stripFrom_of_drops dropped]
          exact ih (drops_iff.1 dropped).2
      | false =>
          rw [isSolid_cons_eq_false_iff, dropped, or_iff_left Bool.false_ne_true] at ends
          rw [stripFrom_of_kept dropped, ends]
          exact ⟨_, rfl⟩

theorem head?_stripFrom (solid : isBlank c = false) :
    (stripFrom text).head? = some c ↔ text.head? = some c := by
  have noFeed : '\n' ≠ c := ne_of_isBlank (by decide) solid
  cases text with
  | nil => simp [stripFrom, noFeed]
  | cons d text =>
      cases dropped : drops d text with
      | true =>
          obtain ⟨blank, ends⟩ := drops_iff.1 dropped
          obtain ⟨more, feed⟩ := exists_stripFrom_eq ends
          rw [stripFrom_of_drops dropped, feed]
          simp [noFeed, ne_of_isBlank blank solid]
      | false => rw [stripFrom_of_kept dropped, List.head?_cons, List.head?_cons]

/-! ## Runs of characters -/

section

variable {p : Char → Bool}

/-- A run without blanks stays as it is. -/
theorem dropWhile_stripFrom (solid : ∀ c, p c = true → isBlank c = false) (text : List Char) :
    (stripFrom text).dropWhile p = stripFrom (text.dropWhile p) := by
  have stays {c : Char} (blank : isBlank c = true) : p c = false := by
    rw [← Bool.not_eq_true]
    intro runs
    rw [solid c runs] at blank
    cases blank
  induction text with
  | nil => rw [stripFrom, List.dropWhile_cons, stays (by decide)]; rfl
  | cons c text ih =>
      cases runs : p c with
      | true =>
          rw [stripFrom_of_not_isBlank (solid c runs), List.dropWhile_cons, List.dropWhile_cons,
            if_pos runs, if_pos runs, ih]
      | false =>
          rw [List.dropWhile_cons, runs, if_neg Bool.false_ne_true]
          cases dropped : drops c text with
          | true =>
              obtain ⟨more, feed⟩ := exists_stripFrom_eq (drops_iff.1 dropped).2
              rw [stripFrom_of_drops dropped, feed, List.dropWhile_cons, stays (by decide),
                if_neg Bool.false_ne_true]
          | false =>
              rw [stripFrom_of_kept dropped, List.dropWhile_cons, runs,
                if_neg Bool.false_ne_true]

/-- The rest of a line goes up to its line feed. -/
theorem dropLine_stripFrom (text : List Char) :
    (stripFrom text).dropWhile (· ≠ '\n') = stripFrom (text.dropWhile (· ≠ '\n')) := by
  induction text with
  | nil => rfl
  | cons c text ih =>
      by_cases feed : c = '\n'
      · obtain ⟨more, starts⟩ := exists_stripFrom_eq (isSolid_cons_eq_false_iff.2 (.inl feed))
        rw [List.dropWhile_cons, if_neg (by simp [feed]), starts, List.dropWhile_cons,
          if_neg (by decide)]
      · rw [List.dropWhile_cons, if_pos (by simpa using feed), ← ih]
        cases dropped : drops c text with
        | true => rw [stripFrom_of_drops dropped]
        | false =>
            rw [stripFrom_of_kept dropped, List.dropWhile_cons, if_pos (by simpa using feed)]

variable (inLine : p '\n' = false)

include inLine

/-- If only blanks are left on the line, a run ends with one that is dropped. -/
theorem drops_of_getLast? {last : Char} (ends : isSolid text = false)
    (found : (text.takeWhile p).getLast? = some last) : drops last (text.dropWhile p) = true := by
  induction text with
  | nil => cases found
  | cons c text ih =>
      cases runs : p c with
      | false =>
          rw [List.takeWhile_cons, runs, if_neg Bool.false_ne_true] at found
          cases found
      | true =>
          have noFeed : c ≠ '\n' := by
            rintro rfl
            rw [inLine] at runs
            cases runs
          have dropped := (isSolid_cons_eq_false_iff.1 ends).resolve_left noFeed
          rw [List.takeWhile_cons, if_pos runs] at found
          rw [List.dropWhile_cons, if_pos runs]
          cases more : (text.takeWhile p).getLast? with
          | some other =>
              rw [List.getLast?_cons, more, Option.getD_some] at found
              obtain rfl := Option.some.inj found
              exact ih (drops_iff.1 dropped).2 more
          | none =>
              rw [List.getLast?_eq_none_iff] at more
              rw [more] at found
              obtain rfl := Option.some.inj found
              have stops : text.dropWhile p = text := by
                have whole : text.takeWhile p ++ text.dropWhile p = text :=
                  List.takeWhile_append_dropWhile
                rwa [more] at whole
              rwa [stops]

/-- The first character of a run stays if the last one does. -/
theorem kept_of_run (runs : p c = true)
    (kept : ∀ last, ((c :: text).takeWhile p).getLast? = some last →
      drops last ((c :: text).dropWhile p) = false) : drops c text = false := by
  rw [← Bool.not_eq_true]
  intro dropped
  have nonempty : (c :: text).takeWhile p ≠ [] := by
    rw [List.takeWhile_cons, if_pos runs]
    exact List.cons_ne_nil _ _
  have found := List.getLast?_eq_some_getLast nonempty
  have dropped := drops_of_getLast? inLine (isSolid_cons_eq_false_iff.2 (.inr dropped)) found
  rw [kept _ found] at dropped
  cases dropped

/-- A run of which the last character stays is left as it is. -/
theorem run_stripFrom
    (kept : ∀ last, (text.takeWhile p).getLast? = some last →
      drops last (text.dropWhile p) = false) :
    (stripFrom text).takeWhile p = text.takeWhile p ∧
      (stripFrom text).dropWhile p = stripFrom (text.dropWhile p) := by
  induction text with
  | nil =>
      rw [stripFrom, List.takeWhile_cons, List.dropWhile_cons, inLine]
      exact ⟨rfl, rfl⟩
  | cons c text ih =>
      cases runs : p c with
      | false =>
          simp only [List.takeWhile_cons, List.dropWhile_cons, runs, if_neg Bool.false_ne_true]
          cases dropped : drops c text with
          | true =>
              obtain ⟨more, feed⟩ := exists_stripFrom_eq (drops_iff.1 dropped).2
              rw [stripFrom_of_drops dropped, feed, List.takeWhile_cons, List.dropWhile_cons,
                inLine]
              exact ⟨rfl, rfl⟩
          | false =>
              rw [stripFrom_of_kept dropped, List.takeWhile_cons, List.dropWhile_cons, runs]
              exact ⟨rfl, rfl⟩
      | true =>
          rw [stripFrom_of_kept (kept_of_run inLine runs kept)]
          simp only [List.takeWhile_cons, List.dropWhile_cons, runs, if_true] at kept ⊢
          have later : ∀ last, (text.takeWhile p).getLast? = some last →
              drops last (text.dropWhile p) = false := by
            intro last found
            refine kept last ?_
            rw [List.getLast?_cons, found, Option.getD_some]
          obtain ⟨run, rest⟩ := ih later
          rw [run, rest]
          exact ⟨rfl, rfl⟩

end

/-! ## Lines -/

theorem trimEnd_cons (c : Char) (text : List Char) :
    trimEnd (c :: text) =
      if isBlank c && (trimEnd text).isEmpty then [] else c :: trimEnd text := by
  rw [trimEnd, trimEnd, List.reverse_cons, List.dropWhile_append, List.isEmpty_reverse]
  cases empty : text.reverse.dropWhile isBlank with
  | nil => cases blank : isBlank c <;> simp [blank]
  | cons last others => simp

theorem isSolid_eq {first : List Char} {others : List (List Char)}
    (cut : pieces (· = '\n') text = first :: others) :
    isSolid text = !(trimEnd first).isEmpty := by
  induction text generalizing first others with
  | nil =>
      obtain ⟨rfl, _⟩ := List.cons.inj cut
      rfl
  | cons c text ih =>
      obtain ⟨next, more, rest⟩ := List.exists_cons_of_ne_nil (pieces_ne_nil (· = '\n') text)
      rw [pieces, rest] at cut
      by_cases feed : c = '\n'
      · rw [if_pos (decide_eq_true feed)] at cut
        obtain ⟨rfl, _⟩ := List.cons.inj cut
        rw [isSolid_cons_eq_false_iff.2 (.inl feed)]
        rfl
      · rw [if_neg (by simpa using feed)] at cut
        obtain ⟨rfl, _⟩ := List.cons.inj cut
        rw [isSolid, ih rest, trimEnd_cons]
        cases isBlank c <;> cases (trimEnd next).isEmpty <;> simp [feed]

/-- The text on which a line begins is stripped line by line. -/
theorem stripFrom_eq {first : List Char} {others : List (List Char)}
    (cut : pieces (· = '\n') text = first :: others) :
    stripFrom text = trimEnd first ++ '\n' :: ((others.map trimEnd).filter
      (fun line => !line.isEmpty)).flatMap fun line => line ++ ['\n'] := by
  induction text generalizing first others with
  | nil =>
      obtain ⟨rfl, rfl⟩ := List.cons.inj cut
      rfl
  | cons c text ih =>
      obtain ⟨next, more, rest⟩ := List.exists_cons_of_ne_nil (pieces_ne_nil (· = '\n') text)
      have solid := isSolid_eq rest
      rw [pieces, rest] at cut
      rw [stripFrom, drops, solid, Bool.not_not, ih rest]
      by_cases feed : c = '\n'
      · rw [if_pos (decide_eq_true feed)] at cut
        obtain ⟨rfl, rfl⟩ := List.cons.inj cut
        have blank : isBlank '\n' = true := by decide
        rw [feed, blank, Bool.true_and, List.map_cons, List.filter_cons]
        cases empty : (trimEnd next).isEmpty with
        | true =>
            rw [List.isEmpty_iff.1 empty]
            rfl
        | false =>
            simp only [if_neg Bool.false_ne_true, Bool.not_false, if_true, List.flatMap_cons,
              List.append_assoc, List.singleton_append]
            rfl
      · rw [if_neg (by simpa using feed)] at cut
        obtain ⟨rfl, rfl⟩ := List.cons.inj cut
        rw [trimEnd_cons]
        cases dropped : isBlank c && (trimEnd next).isEmpty with
        | true =>
            rw [Bool.and_eq_true, List.isEmpty_iff] at dropped
            rw [if_pos rfl, dropped.2]
            rfl
        | false => rfl

theorem cons_stripBlank (text : String) :
    '\n' :: (stripBlank text).toList = stripFrom ('\n' :: text.toList) := by
  have cut : pieces (· = '\n') ('\n' :: text.toList) = [] :: pieces (· = '\n') text.toList := rfl
  rw [stripFrom_eq cut, toList_stripBlank, solidLines]
  rfl

/-! ## Parts of a text -/

/-- A part without the blanks at the ends of its lines, and without its blank lines. -/
def squeeze (part : List Char) : List Char := List.intercalate ['\n'] (solidLines part)

theorem isSolid_append {last : Char} (solid : isBlank last = false) (before rest : List Char) :
    isSolid (before ++ last :: rest) = isSolid (before ++ [last]) := by
  induction before with
  | nil => rw [List.nil_append, List.nil_append, isSolid_of_not_isBlank solid,
      isSolid_of_not_isBlank solid]
  | cons c before ih => rw [List.cons_append, List.cons_append, isSolid, isSolid, ih]

theorem exists_stripFrom_append {last : Char} (solid : isBlank last = false)
    (before : List Char) :
    ∃ kept, ∀ rest, stripFrom (before ++ last :: rest) = kept ++ stripFrom rest := by
  induction before with
  | nil => exact ⟨[last], stripFrom_of_not_isBlank solid⟩
  | cons c before ih =>
      obtain ⟨kept, strips⟩ := ih
      cases dropped : drops c (before ++ [last]) with
      | true =>
          refine ⟨kept, fun rest => ?_⟩
          rw [List.cons_append, stripFrom, drops, isSolid_append solid, ← drops, dropped,
            if_pos rfl, strips]
      | false =>
          refine ⟨c :: kept, fun rest => ?_⟩
          rw [List.cons_append, stripFrom, drops, isSolid_append solid, ← drops, dropped,
            if_neg Bool.false_ne_true, strips, List.cons_append]

theorem flatMap_eq_intercalate {written : List (List Char)} (nonempty : written ≠ []) :
    (written.flatMap fun line => line ++ ['\n']) = List.intercalate ['\n'] written ++ ['\n'] := by
  induction written with
  | nil => exact absurd rfl nonempty
  | cons line written ih =>
      by_cases last : written = []
      · rw [last, List.intercalate_singleton, List.flatMap_cons, List.flatMap_nil, List.append_nil]
      · rw [List.flatMap_cons, ih last, List.intercalate_cons_of_ne_nil last]
        simp only [List.append_assoc]

theorem stripFrom_eq_squeeze (solid : isSolid text = true) :
    stripFrom text = squeeze text ++ ['\n'] := by
  obtain ⟨first, others, cut⟩ := List.exists_cons_of_ne_nil (pieces_ne_nil (· = '\n') text)
  rw [isSolid_eq cut] at solid
  have lines : solidLines text = trimEnd first :: (others.map trimEnd).filter
      (fun line => !line.isEmpty) := by
    rw [solidLines, cut, List.map_cons, List.filter_cons, if_pos solid]
  rw [squeeze, lines, ← flatMap_eq_intercalate (List.cons_ne_nil _ _), stripFrom_eq cut,
    List.flatMap_cons, List.append_assoc]
  rfl

/-- What is stripped from a part that begins and ends with characters that are no blanks does not
depend on what follows. -/
theorem stripFrom_append {first last : Char} (solid : isBlank first = false)
    (solid' : isBlank last = false) (inner rest : List Char) :
    stripFrom (first :: (inner ++ last :: rest)) =
      squeeze (first :: (inner ++ [last])) ++ stripFrom rest := by
  obtain ⟨kept, strips⟩ := exists_stripFrom_append solid' (first :: inner)
  have alone := strips []
  rw [List.cons_append, stripFrom_eq_squeeze (isSolid_of_not_isBlank solid _)] at alone
  rw [← List.cons_append, strips, List.append_cancel_right alone]

/-- A part is left as it is if its lines are not blank and have no blanks at their ends. -/
theorem squeeze_eq_self_iff {part : List Char} (nonempty : part ≠ []) :
    squeeze part = part ↔
      ∀ line ∈ pieces (· = '\n') part, line ≠ [] ∧ trimEnd line = line := by
  constructor
  · intro same line listed
    have some : solidLines part ≠ [] := by
      intro none
      rw [squeeze, none] at same
      exact nonempty same.symm
    have free : ∀ line ∈ solidLines part, '\n' ∉ line := by
      intro line listed feed
      obtain ⟨_, piece, cut, rfl⟩ := mem_solidLines listed
      exact (not_mem_of_mem_pieces cut '\n' ((prefix_trimEnd piece).subset feed)).1 rfl
    have cut : pieces (· = '\n') part = solidLines part := by
      rw [← same, pieces_eq_splitOn, squeeze, List.splitOn_intercalate '\n' free some, ← squeeze,
        same]
    rw [cut] at listed
    obtain ⟨some', piece, _, rfl⟩ := mem_solidLines listed
    exact ⟨some', trimEnd_trimEnd piece⟩
  · intro kept
    have trimmed : (pieces (· = '\n') part).map trimEnd = pieces (· = '\n') part :=
      (List.map_congr_left fun line listed => (kept line listed).2).trans (List.map_id _)
    have solid : ∀ line ∈ pieces (· = '\n') part, (!line.isEmpty) = true := by
      intro line listed
      simpa using (kept line listed).1
    rw [squeeze, solidLines, trimmed, List.filter_eq_self.2 solid, intercalate_pieces]

end WebBundle.Page
