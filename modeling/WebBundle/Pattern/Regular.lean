/-!
# Regular patterns

Patterns over any alphabet: single letters by a test, sequence, choice, repetition, and conditions
on the two neighbours of a position. A pattern is run on a whole set of positions at once: marks on
some positions of a text become marks on the positions that a match from a marked one can end at.
-/

namespace WebBundle.Pattern

inductive Regular (α : Type) where
  | never
  | empty
  | letter (test : α → Bool)
  | border (test : Option α → Option α → Bool)
  | seq (first second : Regular α)
  | choice (first second : Regular α)
  | repeated (body : Regular α)

/-- A mark for every position of a text, the position at its end included. -/
abbrev Marks := List Bool

namespace Regular

variable {α : Type}

def all : List (Regular α) → Regular α
  | [] => .empty
  | [pattern] => pattern
  | pattern :: patterns => .seq pattern (all patterns)

def any : List (Regular α) → Regular α
  | [] => .never
  | [pattern] => pattern
  | pattern :: patterns => .choice pattern (any patterns)

/-- Between `least` and `most` repetitions, without bound if there is no `most`. -/
def between (least : Nat) (most : Option Nat) (body : Regular α) : Regular α :=
  let front := List.replicate least body
  match most with
  | none => all (front ++ [.repeated body])
  | some most =>
      all (front ++ [(List.range (most - least)).foldl
        (fun inner _ => .choice (.seq body inner) .empty) .empty])

/-- The two neighbours of every position. -/
def borders : Option α → List α → List (Option α × Option α)
  | before, [] => [(before, none)]
  | before, c :: text => (before, some c) :: borders (some c) text

/-- Adds the marks of a step until nothing changes. Every round but the last marks a new position,
so one round for every position is enough. -/
def saturate (step : Marks → Marks) : (rounds : Nat) → Marks → Marks
  | 0, marks => marks
  | rounds + 1, marks =>
      let grown := List.zipWith (· || ·) marks (step marks)
      if grown = marks then marks else saturate step rounds grown

def run (text : List α) : Regular α → Marks → Marks
  | .never, marks => marks.map fun _ => false
  | .empty, marks => marks
  | .letter test, marks => false :: List.zipWith (fun mark c => mark && test c) marks text
  | .border test, marks =>
      List.zipWith (fun mark (neighbours : Option α × Option α) =>
        mark && test neighbours.1 neighbours.2) marks (borders none text)
  | .seq first second, marks => run text second (run text first marks)
  | .choice first second, marks =>
      List.zipWith (· || ·) (run text first marks) (run text second marks)
  | .repeated body, marks => saturate (run text body) marks.length marks

/-- The pattern matches the whole text. -/
def matchesAll (pattern : Regular α) (text : List α) : Bool :=
  (run text pattern (true :: text.map fun _ => false)).getLast? = some true

/-- The pattern matches somewhere in the text. -/
def matchesIn (pattern : Regular α) (text : List α) : Bool :=
  (run text pattern (true :: text.map fun _ => true)).any id

end Regular

end WebBundle.Pattern
