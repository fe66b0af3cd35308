/-!
# Tables of runs

A table over all code points is written as a text: for every run of code points with the same
value the name of the value, which has a fixed number of letters, and the length of the run behind
it if that is not one. The table is searched by halving.
-/

namespace WebBundle.Text

/-- The first code point of every run with its name. A name of `width` letters is taken first and
then the digits behind it; every round takes one run. -/
def readRuns (width : Nat) : (rounds position : Nat) → List Char → List (Nat × List Char)
  | 0, _, _ => []
  | _, _, [] => []
  | rounds + 1, position, text =>
      let rest := text.drop width
      let count := (rest.takeWhile Char.isDigit).foldl
        (fun n c => 10 * n + (c.toNat - '0'.toNat)) 0
      (position, text.take width) ::
        readRuns width rounds (position + max count 1) (rest.dropWhile Char.isDigit)

def runTable (width : Nat) (lines : List String) : Array (Nat × List Char) :=
  let text := lines.flatMap String.toList
  (readRuns width text.length 0 text).toArray

/-- The last of the runs from `low` on and before `high` that begins at or before a code point.
Every round halves the range. -/
def searchRuns (table : Array (Nat × List Char)) (n : Nat) :
    (rounds low high : Nat) → List Char
  | 0, low, _ => (table.getD low (0, [])).2
  | rounds + 1, low, high =>
      if high ≤ low + 1 then (table.getD low (0, [])).2
      else
        let middle := (low + high) / 2
        if (table.getD middle (0, [])).1 ≤ n then searchRuns table n rounds middle high
        else searchRuns table n rounds low middle

/-- The name of the run that a code point lies in. -/
def runAt (table : Array (Nat × List Char)) (n : Nat) : List Char :=
  searchRuns table n table.size 0 table.size

end WebBundle.Text
