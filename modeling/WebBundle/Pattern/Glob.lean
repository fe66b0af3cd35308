import WebBundle.Pattern.Regular

/-!
# Globs

A glob matches whole relative paths. `?` stands for one byte and `*` for any run of bytes, neither
of them a slash; `**` as a whole segment stands for any run of segments; `[...]` lists bytes and
byte ranges and may be negated; `{...}` lists alternatives, which may be nested; a backslash takes
the next character as it is. Characters are matched as their UTF-8 bytes.
-/

namespace WebBundle.Pattern

inductive GlobError where
  | unclosedClass
  | invalidRange (low high : Char)
  | unopenedAlternates
  | unclosedAlternates
  | danglingEscape
  deriving DecidableEq, Repr

def GlobError.message : GlobError → String
  | .unclosedClass => "unclosed character class; missing ']'"
  | .invalidRange low high =>
      "invalid range; '" ++ String.singleton low ++ "' > '" ++ String.singleton high ++ "'"
  | .unopenedAlternates =>
      "unopened alternate group; missing '\x7b' (maybe escape '\x7d' with '[\x7d]'?)"
  | .unclosedAlternates =>
      "unclosed alternate group; missing '\x7d' (maybe escape '\x7b' with '[\x7b]'?)"
  | .danglingEscape => "dangling '\\'"

inductive GlobToken where
  | literal (c : Char)
  | any
  | star
  | deepFront
  | deepEnd
  | deepMiddle
  | set (negated : Bool) (ranges : List (Char × Char))
  | choice (branches : List (List GlobToken))

namespace Glob

/-- An alternative that is being read: what stands before its group, and its finished branches,
last first. -/
structure Frame where
  before : List GlobToken
  branches : List (List GlobToken)

/-- What has been read: the tokens of the innermost open branch, last first, the open groups, and
the last character. -/
structure State where
  tokens : List GlobToken
  frames : List Frame
  last : Option Char

def State.push (state : State) (token : GlobToken) : State :=
  { state with tokens := token :: state.tokens }

/-- Extends the last range of a class up to a character. -/
def closeRange (ranges : List (Char × Char)) (high : Char) :
    Except GlobError (List (Char × Char)) :=
  match ranges with
  | (low, _) :: ranges =>
      if high < low then .error (.invalidRange low high) else .ok ((low, high) :: ranges)
  | [] => .ok [(high, high)]

/-- Reads the members of a class, last first, up to its closing bracket. A bracket or a dash at the
front and a dash at the end stand for themselves. -/
def readClass (front open' : Bool) (ranges : List (Char × Char)) :
    List Char → Except GlobError (List (Char × Char) × List Char)
  | [] => .error .unclosedClass
  | c :: text =>
      if c = ']' && !front then
        .ok ((if open' then ('-', '-') :: ranges else ranges).reverse, text)
      else if c = '-' && !front && !open' then readClass false true ranges text
      else if open' && c ≠ ']' then
        match closeRange ranges c with
        | .error cause => .error cause
        | .ok ranges => readClass false false ranges text
      else readClass false false ((c, c) :: ranges) text

/-- Two stars behind the first character of a branch or segment. `before` is the character before
them and `text` is what follows. -/
def readDeep (state : State) (before : Option Char) (text : List Char) : State × List Char :=
  let plain := ((state.push .star).push .star, text)
  if state.tokens.isEmpty then
    match text with
    | [] => (state.push .deepFront, [])
    | '/' :: text => ({ state.push .deepFront with last := some '/' }, text)
    | _ => plain
  else if before ≠ some '/' &&
      (state.frames.isEmpty || (before ≠ some ',' && before ≠ some '{')) then plain
  else
    let replaceLast (token : GlobToken) : State :=
      match state.tokens with
      | .deepFront :: tokens => { state with tokens := .deepFront :: tokens }
      | .deepEnd :: tokens => { state with tokens := .deepEnd :: tokens }
      | _ :: tokens => { state with tokens := token :: tokens }
      | [] => state.push token
    match text with
    | [] => (replaceLast .deepEnd, [])
    | '/' :: text => ({ replaceLast .deepMiddle with last := some '/' }, text)
    | c :: _ =>
        if (c = ',' || c = '}') && !state.frames.isEmpty then (replaceLast .deepEnd, text)
        else plain

def openGroup (state : State) : State :=
  { state with tokens := [], frames := ⟨state.tokens, []⟩ :: state.frames }

def nextBranch (state : State) : State :=
  match state.frames with
  | [] => state.push (.literal ',')
  | frame :: frames =>
      { state with tokens := [], frames := ⟨frame.before, state.tokens.reverse :: frame.branches⟩ :: frames }

def closeGroup (state : State) : Except GlobError State :=
  match state.frames with
  | [] => .error .unopenedAlternates
  | frame :: frames =>
      let branches := (state.tokens.reverse :: frame.branches).reverse
      .ok { state with tokens := .choice branches :: frame.before, frames }

/-- Reads one construct that begins with `c`. -/
def readOne (state : State) (c : Char) (text : List Char) :
    Except GlobError (State × List Char) :=
  let before := state.last
  let state := { state with last := some c }
  match c with
  | '?' => .ok (state.push .any, text)
  | '*' =>
      match text with
      | '*' :: text => .ok (readDeep state before text)
      | _ => .ok (state.push .star, text)
  | '[' =>
      let negated := text.head? = some '!' || text.head? = some '^'
      match readClass true false [] (if negated then text.tail else text) with
      | .error cause => .error cause
      | .ok (ranges, text) => .ok ({ state.push (.set negated ranges) with last := some ']' }, text)
  | '{' => .ok (openGroup state, text)
  | '}' =>
      match closeGroup state with
      | .error cause => .error cause
      | .ok state => .ok (state, text)
  | ',' => .ok (nextBranch state, text)
  | '\\' =>
      match text with
      | [] => .error .danglingEscape
      | c :: text => .ok ({ state.push (.literal c) with last := some c }, text)
  | c => .ok (state.push (.literal c), text)

/-- Reads constructs to the end. Every construct takes at least one character, so the length of
the text is enough fuel. -/
def readAll : (fuel : Nat) → State → List Char → Except GlobError State
  | _, state, [] => .ok state
  | 0, state, _ :: _ => .ok state
  | fuel + 1, state, c :: text =>
      match readOne state c text with
      | .error cause => .error cause
      | .ok (state, text) => readAll fuel state text

def parse (text : String) : Except GlobError (List GlobToken) :=
  match readAll text.length ⟨[], [], none⟩ text.toList with
  | .error cause => .error cause
  | .ok state => if state.frames.isEmpty then .ok state.tokens.reverse else .error .unclosedAlternates

def bytesOf (c : Char) : List UInt8 := (String.singleton c).toUTF8.toList

def isByte (b : UInt8) : Regular UInt8 := .letter (· == b)

def slash : UInt8 := 0x2F

def anything : Regular UInt8 := .repeated (.letter fun _ => true)

/-- The byte ranges that a range of characters writes: the bytes of both ends one by one, but for
the last of the lower and the first of the upper end, which span a range. -/
def byteRanges (low high : Char) : List (UInt8 × UInt8) :=
  if low = high then (bytesOf low).map fun b => (b, b)
  else
    match (bytesOf low).reverse, bytesOf high with
    | last :: lows, first :: highs =>
        lows.reverse.map (fun b => (b, b)) ++ [(last, first)] ++ highs.map fun b => (b, b)
    | _, _ => []

mutual

def tokenPattern : GlobToken → Regular UInt8
  | .literal c => Regular.all ((bytesOf c).map isByte)
  | .any => .letter (· != slash)
  | .star => .repeated (.letter (· != slash))
  | .deepFront => .choice .empty (.seq (.choice .empty anything) (isByte slash))
  | .deepEnd => .seq (isByte slash) anything
  | .deepMiddle =>
      .choice (isByte slash) (.seq (isByte slash) (.seq anything (isByte slash)))
  | .set negated ranges =>
      let ranges := ranges.flatMap fun (low, high) => byteRanges low high
      .letter fun b => negated != ranges.any fun (low, high) => low ≤ b && b ≤ high
  | .choice branches => choicePattern branches

def tokensPattern : List GlobToken → Regular UInt8
  | [] => .empty
  | token :: tokens => .seq (tokenPattern token) (tokensPattern tokens)

/-- Branches that write nothing do not take part. -/
def branchPatterns : List (List GlobToken) → List (Regular UInt8)
  | [] => []
  | branch :: branches =>
      if writesNothing branch then branchPatterns branches
      else tokensPattern branch :: branchPatterns branches

def choicePattern (branches : List (List GlobToken)) : Regular UInt8 :=
  match branchPatterns branches with
  | [] => .empty
  | patterns => Regular.any patterns

/-- The tokens are only groups without a branch that writes something. -/
def writesNothing : List GlobToken → Bool
  | [] => true
  | .choice branches :: tokens => allWriteNothing branches && writesNothing tokens
  | _ :: _ => false

def allWriteNothing : List (List GlobToken) → Bool
  | [] => true
  | branch :: branches => writesNothing branch && allWriteNothing branches

end

def literal? : GlobToken → Option Char
  | .literal c => some c
  | _ => none

/-- A path that ends in a dot has no last name, and so no extension either. Of the globs that end
in a literal dot, it is matched only by those that are literal, from the front or from some segment
on with a slash in the literal. -/
def seesDotEnd (tokens : List GlobToken) : Bool :=
  match tokens.getLast? with
  | some (.literal '.') =>
      match tokens with
      | .deepFront :: rest =>
          match rest.mapM literal? with
          | some text => text.contains '/'
          | none => false
      | _ => (tokens.mapM literal?).isSome
  | _ => true

end Glob

structure Glob where
  tokens : List GlobToken

namespace Glob

def pattern (glob : Glob) : Regular UInt8 :=
  match glob.tokens with
  | [.deepFront] => anything
  | tokens => tokensPattern tokens

/-- The glob matches a whole path. -/
def accepts (glob : Glob) (path : String) : Bool :=
  (path.toList.getLast? ≠ some '.' || seesDotEnd glob.tokens) &&
  glob.pattern.matchesAll path.toUTF8.toList

def ofText (text : String) : Except GlobError Glob :=
  match parse text with
  | .ok tokens => .ok ⟨tokens⟩
  | .error cause => .error cause

end Glob

end WebBundle.Pattern
