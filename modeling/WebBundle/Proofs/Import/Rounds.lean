import Mathlib
import WebBundle.Import.Bytewise

/-!
# Rounds of loops over bytes

A round that goes on moves to a later place, and so does a round that leaves its loop, unless it
stands at a line break. This holds on any bytes and at any place, so it holds behind an escape that
ends inside a character or behind the last byte. A loop that is left somewhere is therefore left
within as many rounds as there are bytes, and an embedded expression is left with the brace that
closes it, before a brace more is closed.
-/

namespace WebBundle.Import.Bytewise

variable {σ ρ : Type}

/-- A round moves on from a place with a byte. Only at a line break it may leave its loop without
moving. -/
def Round.Moves (place : Nat) (byte : UInt8) : Round σ ρ → Prop
  | .again next _ => place < next
  | .leave stop _ => place < stop ∨ stop = place ∧ Char.ofUInt8 byte = '\n'

/-- A mapped value without a fault comes from a value without one. -/
theorem exists_of_map_eq_ok {α β : Type} {value : Except Fault α} {f : α → β} {made : β}
    (same : value.map f = .ok made) : ∃ found, value = .ok found ∧ f found = made := by
  cases value with
  | error fault => cases same
  | ok found => exact ⟨found, rfl, Except.ok.inj same⟩

/-- The byte at a place is the first one from there on. -/
theorem of_drop_eq_cons {bytes rest : List UInt8} {place : Nat} {byte : UInt8}
    (here : bytes.drop place = byte :: rest) :
    bytes[place]? = some byte ∧ bytes.drop (place + 1) = rest := by
  constructor
  · rw [← List.head?_drop, here, List.head?_cons]
  · rw [← List.tail_drop, here, List.tail_cons]

namespace Loop

variable {loop : Loop σ ρ} {bytes : List UInt8} {place next stop limit : Nat} {state state' : σ}
  {result : ρ}

/-- Every round moves on, whatever the place and the state are. -/
def Advances (loop : Loop σ ρ) (bytes : List UInt8) : Prop :=
  ∀ place state byte made, bytes[place]? = some byte → loop.goes byte = true →
    loop.round place state byte = .ok made → made.Moves place byte

/-- The places and states at which a loop comes to the head of a round. -/
inductive Reaches (loop : Loop σ ρ) (bytes : List UInt8) (start : Nat) (initial : σ) :
    Nat → σ → Prop where
  | start : Reaches loop bytes start initial start initial
  | again {place next : Nat} {state state' : σ}
      (reaches : Reaches loop bytes start initial place state)
      (step : loop.step bytes place state = .ok (.again next state')) :
      Reaches loop bytes start initial next state'

/-- Where a loop is left from a place on, and with which result. -/
inductive Ends (loop : Loop σ ρ) (bytes : List UInt8) : Nat → σ → Nat → ρ → Prop where
  | leave {place stop : Nat} {state : σ} {result : ρ}
      (step : loop.step bytes place state = .ok (.leave stop result)) :
      Ends loop bytes place state stop result
  | again {place next stop : Nat} {state state' : σ} {result : ρ}
      (step : loop.step bytes place state = .ok (.again next state'))
      (rest : Ends loop bytes next state' stop result) : Ends loop bytes place state stop result

/-! ## Steps -/

theorem step_of_none (none : bytes[place]? = none) :
    loop.step bytes place state = .ok (.leave place (loop.atEnd state)) := by
  rw [step, none]

theorem step_of_some {byte : UInt8} (reads : bytes[place]? = some byte) :
    loop.step bytes place state =
      if loop.goes byte then loop.round place state byte
      else .ok (.leave place (loop.atEnd state)) := by
  rw [step, reads]

theorem step_of_goes {byte : UInt8} (reads : bytes[place]? = some byte)
    (goes : loop.goes byte = true) :
    loop.step bytes place state = loop.round place state byte := by
  rw [step_of_some reads, if_pos goes]

/-- A loop goes on only by a round, at a byte. -/
theorem round_of_step (step : loop.step bytes place state = .ok (.again next state')) :
    ∃ byte, bytes[place]? = some byte ∧ loop.goes byte = true ∧
      loop.round place state byte = .ok (.again next state') := by
  cases reads : bytes[place]? with
  | none =>
      rw [step_of_none reads] at step
      cases step
  | some byte =>
      by_cases goes : loop.goes byte = true
      · rw [step_of_goes reads goes] at step
        exact ⟨byte, rfl, goes, step⟩
      · rw [step_of_some reads, if_neg goes] at step
        cases step

theorem lt_length_of_step (step : loop.step bytes place state = .ok (.again next state')) :
    place < bytes.length := by
  obtain ⟨byte, reads, _, _⟩ := round_of_step step
  exact (List.getElem?_eq_some_iff.1 reads).1

namespace Advances

variable (advances : loop.Advances bytes)
include advances

theorem lt_of_step (step : loop.step bytes place state = .ok (.again next state')) :
    place < next := by
  obtain ⟨byte, reads, goes, round⟩ := round_of_step step
  exact advances place state byte _ reads goes round

theorem le_of_leave (step : loop.step bytes place state = .ok (.leave stop result)) :
    place ≤ stop := by
  cases reads : bytes[place]? with
  | none =>
      rw [step_of_none reads] at step
      cases step
      exact Nat.le_refl place
  | some byte =>
      by_cases goes : loop.goes byte = true
      · rw [step_of_goes reads goes] at step
        rcases advances place state byte _ reads goes step with later | ⟨same, _⟩
        · exact later.le
        · exact same.ge
      · rw [step_of_some reads, if_neg goes] at step
        cases step
        exact Nat.le_refl place

theorem le_of_steps (steps : loop.steps bytes limit place state = .ok (stop, result)) :
    place ≤ stop := by
  induction limit generalizing place state with
  | zero => cases steps
  | succ limit ih =>
      rw [Loop.steps] at steps
      split at steps
      next => cases steps
      next next state' step => exact (advances.lt_of_step step).le.trans (ih steps)
      next stop' result' step =>
        cases steps
        exact advances.le_of_leave step

theorem le_of_run (run : loop.run bytes place state = .ok (stop, result)) : place ≤ stop :=
  advances.le_of_steps run

theorem le_of_skip (skip : loop.skip bytes place state = .ok stop) : place ≤ stop := by
  obtain ⟨⟨stop, result⟩, run, rfl⟩ := exists_of_map_eq_ok skip
  exact advances.le_of_run run

/-- A loop that makes a round is left behind the place where it began. -/
theorem lt_of_skip (step : loop.step bytes place state = .ok (.again next state'))
    (skip : loop.skip bytes place state = .ok stop) : place < stop := by
  obtain ⟨⟨stop, result⟩, run, rfl⟩ := exists_of_map_eq_ok skip
  rw [Loop.run, Loop.steps, step] at run
  exact (advances.lt_of_step step).trans_le (advances.le_of_steps run)

end Advances

/-! ## Where loops are left -/

namespace Ends

/-- Where a loop that moves on is left does not depend on a limit that is large enough. -/
theorem steps_eq (ends : loop.Ends bytes place state stop result)
    (advances : loop.Advances bytes) (enough : bytes.length - place < limit) :
    loop.steps bytes limit place state = .ok (stop, result) := by
  induction ends generalizing limit with
  | leave step =>
      obtain ⟨limit, rfl⟩ := Nat.exists_eq_add_one_of_ne_zero (Nat.ne_zero_of_lt enough)
      rw [Loop.steps, step]
  | again step _ ih =>
      have inside := lt_length_of_step step
      have later := advances.lt_of_step step
      obtain ⟨limit, rfl⟩ := Nat.exists_eq_add_one_of_ne_zero (Nat.ne_zero_of_lt enough)
      rw [Loop.steps, step]
      exact ih (by omega)

theorem run_eq (ends : loop.Ends bytes place state stop result)
    (advances : loop.Advances bytes) : loop.run bytes place state = .ok (stop, result) :=
  ends.steps_eq advances (Nat.lt_succ_of_le (Nat.sub_le bytes.length place))

theorem skip_eq (ends : loop.Ends bytes place state stop result)
    (advances : loop.Advances bytes) : loop.skip bytes place state = .ok stop := by
  rw [Loop.skip, ends.run_eq advances]
  rfl

/-- Bytes at which a loop goes on with the next one are passed one by one. The state tells those
that were passed. -/
theorem pass {front back : List UInt8} (after : List UInt8 → σ) (passed : List UInt8)
    (here : bytes.drop place = front ++ back)
    (step : ∀ place passed, ∀ byte ∈ front, bytes[place]? = some byte →
      loop.step bytes place (after passed) = .ok (.again (place + 1) (after (passed ++ [byte]))))
    (ends : loop.Ends bytes (place + front.length) (after (passed ++ front)) stop result) :
    loop.Ends bytes place (after passed) stop result := by
  induction front generalizing place passed with
  | nil => rwa [List.append_nil] at ends
  | cons byte front ih =>
      obtain ⟨reads, behind⟩ := of_drop_eq_cons here
      refine .again (step place passed byte List.mem_cons_self reads)
        (ih (passed ++ [byte]) behind ?_ ?_)
      · intro place passed byte member
        exact step place passed byte (List.mem_cons_of_mem _ member)
      · rwa [List.append_assoc, List.singleton_append, Nat.add_assoc, Nat.add_comm 1]

end Ends

end Loop

/-! ## The loops of the lexer -/

section

variable {bytes : List UInt8}

theorem advances_span (test : Char → Bool) : (span test).Advances bytes := by
  intro place state byte made _ _ round
  cases round
  exact Nat.lt_succ_self place

theorem advances_blockComment : (blockComment bytes).Advances bytes := by
  intro place state byte made _ _ round
  simp only [blockComment] at round
  split_ifs at round
  · cases round
    exact .inl (Nat.lt_add_of_pos_right Nat.zero_lt_two)
  · cases round
    exact Nat.lt_succ_self place

theorem advances_literal (quote : Char) : (literal bytes quote).Advances bytes := by
  intro place content byte made _ _ round
  simp only [literal] at round
  split_ifs at round with escapes feed closes
  · cases round
    exact Nat.lt_add_of_pos_right Nat.zero_lt_two
  · cases round
    exact .inr ⟨rfl, feed⟩
  · cases round
    exact .inl (Nat.lt_succ_self place)
  · cases round
    exact Nat.lt_succ_self place

theorem advances_regex : (regex bytes).Advances bytes := by
  intro place inClass byte made _ _ round
  simp only [regex] at round
  split_ifs at round with escapes feed
  · cases round
    exact Nat.lt_add_of_pos_right Nat.zero_lt_two
  · cases round
    exact .inr ⟨rfl, feed⟩
  · cases round
    exact Nat.lt_succ_self place
  · cases round
    exact Nat.lt_succ_self place
  · obtain ⟨stop, skips, rfl⟩ := exists_of_map_eq_ok round
    exact .inl ((advances_span Char.isAlpha).le_of_skip skips)
  · cases round
    exact Nat.lt_succ_self place

/-- A function that gives places never gives one before the place that it was given. -/
def GoesForward (after : Nat → Except Fault Nat) : Prop :=
  ∀ place stop, after place = .ok stop → place ≤ stop

theorem advances_template {after : Nat → Except Fault Nat} (forward : GoesForward after) :
    (template bytes after).Advances bytes := by
  intro place state byte made _ _ round
  simp only [template] at round
  split_ifs at round
  · cases round
    exact Nat.lt_add_of_pos_right Nat.zero_lt_two
  · cases round
    exact .inl (Nat.lt_succ_self place)
  · obtain ⟨stop, skips, rfl⟩ := exists_of_map_eq_ok round
    exact Nat.lt_of_lt_of_le (Nat.lt_add_of_pos_right Nat.zero_lt_two) (forward _ _ skips)
  · cases round
    exact Nat.lt_succ_self place

theorem advances_expression {after : Nat → Except Fault Nat} (forward : GoesForward after) :
    (expression bytes after).Advances bytes := by
  intro place depth byte made _ _ round
  simp only [expression] at round
  split_ifs at round
  · cases round
    exact Nat.lt_succ_self place
  · match depth, round with
    | 1, rfl => exact .inl (Nat.lt_succ_self place)
    | depth + 2, rfl => exact Nat.lt_succ_self place
  · obtain ⟨stop, skips, rfl⟩ := exists_of_map_eq_ok round
    exact (advances_literal _).le_of_skip skips
  · obtain ⟨stop, skips, rfl⟩ := exists_of_map_eq_ok round
    exact forward _ _ skips
  · cases round
    exact Nat.lt_succ_self place

theorem goesForward_after (bytes : List UInt8) (nesting : Nat) :
    GoesForward (afterTemplate bytes nesting) ∧ GoesForward (afterExpression bytes nesting) := by
  induction nesting with
  | zero =>
      constructor
      · intro place stop skips
        rw [afterTemplate] at skips
        cases skips
      · intro place stop skips
        rw [afterExpression] at skips
        cases skips
  | succ nesting ih =>
      constructor
      · intro place stop skips
        rw [afterTemplate] at skips
        exact (advances_template ih.2).le_of_skip skips
      · intro place stop skips
        rw [afterExpression] at skips
        exact (advances_expression ih.1).le_of_skip skips

/-- A run that begins at a byte of its own is not empty. -/
theorem lt_of_skip_span {test : Char → Bool} {place stop : Nat} {byte : UInt8}
    (reads : bytes[place]? = some byte) (passes : test (Char.ofUInt8 byte) = true)
    (skips : (span test).skip bytes place () = .ok stop) : place < stop := by
  have step : (span test).step bytes place () = .ok (.again (place + 1) ()) :=
    Loop.step_of_goes reads passes
  exact (advances_span test).lt_of_skip step skips

theorem advances_script : (script bytes).Advances bytes := by
  intro place tokens byte made reads _ round
  simp only [script] at round
  split_ifs at round with blank line block regexBegins quote backtick digit word
  · cases round
    exact Nat.lt_succ_self place
  · obtain ⟨stop, skips, rfl⟩ := exists_of_map_eq_ok round
    have slash : Char.ofUInt8 byte = '/' := of_decide_eq_true (Bool.and_eq_true_iff.1 line).1
    refine lt_of_skip_span reads ?_ skips
    rw [slash]
    decide
  · obtain ⟨stop, skips, rfl⟩ := exists_of_map_eq_ok round
    exact Nat.lt_of_lt_of_le (Nat.lt_add_of_pos_right Nat.zero_lt_two)
      (advances_blockComment.le_of_skip skips)
  · obtain ⟨stop, skips, rfl⟩ := exists_of_map_eq_ok round
    exact advances_regex.le_of_skip skips
  · obtain ⟨⟨stop, content⟩, run, rfl⟩ := exists_of_map_eq_ok round
    exact (advances_literal _).le_of_run run
  · obtain ⟨stop, skips, rfl⟩ := exists_of_map_eq_ok round
    exact (goesForward_after bytes _).1 _ _ skips
  · obtain ⟨stop, skips, rfl⟩ := exists_of_map_eq_ok round
    refine lt_of_skip_span reads ?_ skips
    rw [isNumberChar, Char.isAlphanum, digit]
    simp
  · cases skips : (span isWordChar).skip bytes place () with
    | error fault =>
        rw [skips] at round
        cases round
    | ok stop =>
        rw [skips] at round
        obtain ⟨found, cut, rfl⟩ := exists_of_map_eq_ok round
        exact lt_of_skip_span reads word skips
  · cases round
    exact Nat.lt_succ_self place

/-- An embedded expression has an open brace at the head of every round. -/
theorem pos_of_reaches {after : Nat → Except Fault Nat} {start place depth : Nat}
    (reaches : (expression bytes after).Reaches bytes start 1 place depth) : 0 < depth := by
  induction reaches with
  | start => exact Nat.one_pos
  | @again place next depth depth' _ step ih =>
      obtain ⟨byte, _, _, round⟩ := Loop.round_of_step step
      simp only [expression] at round
      split_ifs at round
      · cases round
        exact Nat.succ_pos depth
      · match depth, round with
        | depth + 2, rfl => exact Nat.succ_pos depth
      · obtain ⟨stop, _, same⟩ := exists_of_map_eq_ok round
        cases same
        exact ih
      · obtain ⟨stop, _, same⟩ := exists_of_map_eq_ok round
        cases same
        exact ih
      · cases round
        exact ih

end

end WebBundle.Import.Bytewise
