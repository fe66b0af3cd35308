import WebBundle.Pattern.Regular
import WebBundle.Text.Blank
import WebBundle.Text.CaseFold
import WebBundle.Text.Category
import WebBundle.Text.Hex
import WebBundle.Text.Letter
import WebBundle.Text.Script

/-!
# Regular expressions

The written form of regular patterns over characters: literals, classes with nesting and set
operations, groups with flags, repetitions, anchors and word boundaries. Look-around and back
references do not exist. Reading gives the pattern, or nothing for a text that is no expression.
-/

namespace WebBundle.Pattern.Expression

abbrev CharSet := Char → Bool

/-- The flags that hold from some place of an expression on. -/
structure Flags where
  ignoreCase : Bool := false
  multiLine : Bool := false
  dotAll : Bool := false
  verbose : Bool := false
  carriageReturn : Bool := false
  unicode : Bool := true

/-- The bound on the size of a pattern after its counted repetitions were written out, and the one
on its nesting. -/
def sizeBound : Nat := 400000
def nestBound : Nat := 250

/-- A pattern with its size. -/
structure Sized where
  pattern : Regular Char
  size : Nat

/-- What a single construct stands for. -/
inductive Primitive where
  | literal (c : Char)
  | set (test : CharSet) (size : Nat)
  | border (pattern : Regular Char)

def Flags.isWord (flags : Flags) (c : Char) : Bool :=
  if flags.unicode then Text.isWordChar c else c.isAlphanum || c = '_'

def Flags.isDigit (flags : Flags) (c : Char) : Bool :=
  if flags.unicode then Text.isDecimal c else c.isDigit

def Flags.isSpace (flags : Flags) (c : Char) : Bool :=
  if flags.unicode then Text.isBlank c else Text.isBlank c && c.toNat < 0x80

def Flags.variants (flags : Flags) (c : Char) : List Char :=
  if flags.unicode then Text.caseVariants c else Text.asciiVariants c

/-- The set with all characters that differ from a member by case only, where case is ignored. -/
def Flags.close (flags : Flags) (set : CharSet) : CharSet :=
  if flags.ignoreCase then fun c => (flags.variants c).any set else set

def Flags.literal (flags : Flags) (c : Char) : CharSet := flags.close (· = c)

/-- The set or its complement. Without Unicode there are no complements. -/
def Flags.negateIf (flags : Flags) (negated : Bool) (set : CharSet) : Option CharSet :=
  if negated then if flags.unicode then some fun c => !set c else none else some set

/-! ## Borders -/

def atStart : Regular Char := .border fun before _ => before.isNone
def atEnd : Regular Char := .border fun _ after => after.isNone

def lineStart (flags : Flags) : Regular Char :=
  if !flags.multiLine then atStart
  else if flags.carriageReturn then
    .border fun before after =>
      before.isNone || before = some '\n' || (before = some '\r' && after ≠ some '\n')
  else .border fun before _ => before.isNone || before = some '\n'

def lineEnd (flags : Flags) : Regular Char :=
  if !flags.multiLine then atEnd
  else if flags.carriageReturn then
    .border fun before after =>
      after.isNone || after = some '\r' || (after = some '\n' && before ≠ some '\r')
  else .border fun _ after => after.isNone || after = some '\n'

def wordBorder (flags : Flags) (test : Bool → Bool → Bool) : Regular Char :=
  .border fun before after => test (before.any flags.isWord) (after.any flags.isWord)

/-- The word borders that have names. -/
def namedBorder? (flags : Flags) (name : List Char) : Option (Regular Char) :=
  if name = "start".toList then some (wordBorder flags fun before after => !before && after)
  else if name = "end".toList then some (wordBorder flags fun before after => before && !after)
  else if name = "start-half".toList then some (wordBorder flags fun before _ => !before)
  else if name = "end-half".toList then some (wordBorder flags fun _ after => !after)
  else none

/-! ## Classes by name -/

/-- A property name without case, blanks, dashes, underscores and characters outside ASCII, and
without a leading `is`. -/
def plainName (name : List Char) : List Char :=
  let plain (text : List Char) :=
    (text.filter fun c => c.toNat < 0x80 && c ≠ ' ' && c ≠ '-' && c ≠ '_').map Char.toLower
  match name with
  | a :: b :: rest =>
      if a.toLower = 'i' && b.toLower = 's' then
        if plain rest = ['c'] then "isc".toList else plain rest
      else plain name
  | _ => plain name

/-- The names of the categories and of the groups of categories, each with its letters. A group has
one letter; `lc` joins the three cased kinds of letters. -/
def categoryNames : List (String × String) :=
  [("letter", "L"), ("casedletter", "LC"), ("uppercaseletter", "Lu"), ("lowercaseletter", "Ll"),
   ("titlecaseletter", "Lt"), ("modifierletter", "Lm"), ("otherletter", "Lo"), ("mark", "M"),
   ("combiningmark", "M"), ("nonspacingmark", "Mn"), ("spacingmark", "Mc"),
   ("enclosingmark", "Me"), ("number", "N"), ("decimalnumber", "Nd"), ("digit", "Nd"),
   ("letternumber", "Nl"), ("othernumber", "No"), ("punctuation", "P"), ("punct", "P"),
   ("connectorpunctuation", "Pc"), ("dashpunctuation", "Pd"), ("openpunctuation", "Ps"),
   ("closepunctuation", "Pe"), ("initialpunctuation", "Pi"), ("finalpunctuation", "Pf"),
   ("otherpunctuation", "Po"), ("symbol", "S"), ("mathsymbol", "Sm"), ("currencysymbol", "Sc"),
   ("modifiersymbol", "Sk"), ("othersymbol", "So"), ("separator", "Z"), ("spaceseparator", "Zs"),
   ("lineseparator", "Zl"), ("paragraphseparator", "Zp"), ("other", "C"), ("control", "Cc"),
   ("cntrl", "Cc"), ("format", "Cf"), ("surrogate", "Cs"), ("privateuse", "Co"),
   ("unassigned", "Cn")]

/-- The set of the characters of a category or of a group of them. -/
def categorySet? (name : List Char) : Option CharSet :=
  if name = "any".toList then some fun _ => true
  else if name = "ascii".toList then some fun c => c.toNat < 0x80
  else if name = "assigned".toList then some fun c => Text.category c ≠ ('C', 'n')
  else
    let letters :=
      match categoryNames.find? fun (long, short) =>
          long.toList = name || short.toList.map Char.toLower = name with
      | some (_, short) => some short.toList
      | none => none
    match letters with
    | some ['L', 'C'] =>
        some fun c => [('L', 'u'), ('L', 'l'), ('L', 't')].contains (Text.category c)
    | some [group] => some fun c => (Text.category c).1 = group
    | some [group, kind] => some fun c => Text.category c = (group, kind)
    | _ => none

def scriptSet? (name : List Char) : Option CharSet :=
  (Text.scriptNamed? name).map fun code c => Text.script c = code

/-- Properties that a character has or has not. -/
def propertyNames : List (List String × CharSet) :=
  [(["whitespace", "wspace", "space"], Text.isBlank),
   (["alphabetic", "alpha"], Text.isAlphabetic),
   (["lowercase", "lower"], Text.isLowercase),
   (["uppercase", "upper"], Text.isUppercase),
   (["asciihexdigit", "ahex"], fun c => (Text.Hex.value? c).isSome),
   (["joincontrol", "joinc"], fun c => c.toNat = 0x200C || c.toNat = 0x200D)]

/-- A name alone is one of a property, of a category or of a script. -/
def propertySet? (name : List Char) : Option CharSet :=
  let name := plainName name
  match propertyNames.find? fun (names, _) => names.any fun known => known.toList = name with
  | some (_, set) => some set
  | none => (categorySet? name).or (scriptSet? name)

/-- A category or a script may be given as the value of a property. -/
def valueSet? (property value : List Char) : Option CharSet :=
  let property := plainName property
  if property = "gc".toList || property = "generalcategory".toList then
    categorySet? (plainName value)
  else if property = "sc".toList || property = "script".toList then scriptSet? (plainName value)
  else none

def asciiSet? (name : String) : Option CharSet :=
  let within (low high : Char) : CharSet := fun c => low ≤ c && c ≤ high
  match name with
  | "alnum" => some Char.isAlphanum
  | "alpha" => some Char.isAlpha
  | "ascii" => some fun c => c.toNat < 0x80
  | "blank" => some fun c => c = ' ' || c = '\t'
  | "cntrl" => some fun c => c.toNat < 0x20 || c.toNat = 0x7F
  | "digit" => some Char.isDigit
  | "graph" => some (within '!' '~')
  | "lower" => some Char.isLower
  | "print" => some (within ' ' '~')
  | "punct" => some fun c => within '!' '~' c && !c.isAlphanum
  | "space" => some fun c => c = ' ' || (9 ≤ c.toNat && c.toNat ≤ 13)
  | "upper" => some Char.isUpper
  | "word" => some fun c => c.isAlphanum || c = '_'
  | "xdigit" => some fun c => (Text.Hex.value? c).isSome
  | _ => none

/-! ## Escapes -/

/-- Splits a text at the first occurrence of a character. -/
def upTo? (end' : Char) : List Char → Option (List Char × List Char)
  | [] => none
  | c :: text =>
      if c = end' then some ([], text)
      else (upTo? end' text).map fun (before, rest) => (c :: before, rest)

def scalar? (digits : List Char) : Option Char := do
  let n ← Text.Hex.number? digits
  if n < 0xD800 || (0xDFFF < n && n < 0x110000) then some (Char.ofNat n) else none

/-- Reads a code point of a fixed number of digits, or of any number of them in braces. -/
def readCode? (count : Nat) (text : List Char) : Option (Char × List Char) :=
  match text with
  | '{' :: text => do
      let (digits, rest) ← upTo? '}' text
      return (← scalar? digits, rest)
  | _ =>
      let digits := text.take count
      if digits.length = count then (scalar? digits).map (·, text.drop count) else none

/-- Reads a property behind its `p`. -/
def readProperty? (flags : Flags) (negated : Bool) (text : List Char) :
    Option (CharSet × List Char) := do
  if !flags.unicode then none
  let (name, rest) ←
    match text with
    | '{' :: text => upTo? '}' text
    | '\\' :: _ => none
    | c :: text => some ([c], text)
    | [] => none
  let (set, flipped) ←
    match upTo? '=' name with
    | some (property, value) =>
        match property.reverse with
        | '!' :: property => (valueSet? property.reverse value).map (·, true)
        | _ => (valueSet? property value).map (·, false)
    | none =>
        match upTo? ':' name with
        | some (property, value) => (valueSet? property value).map (·, false)
        | none => (propertySet? name).map (·, false)
  return (← flags.negateIf (negated != flipped) (flags.close set), rest)

def isMeta (c : Char) : Bool :=
  ['\\', '.', '+', '*', '?', '(', ')', '|', '[', ']', '{', '}', '^', '$', '#', '&', '-',
   '~'].contains c

/-- A border name in braces, if the text begins like one. -/
def readBorderName? (text : List Char) : Option (Option (List Char × List Char)) :=
  match text with
  | '{' :: c :: text =>
      if c.isAlpha || c = '-' then
        (upTo? '}' (c :: text)).map some
      else some none
  | _ => some none

/-- Reads an escape behind its backslash. -/
def readEscape? (flags : Flags) (text : List Char) : Option (Primitive × List Char) :=
  let set (test : CharSet) (size : Nat) (negated : Bool) (rest : List Char) :=
    (flags.negateIf negated test).map fun test => (Primitive.set test size, rest)
  match text with
  | [] => none
  | c :: rest =>
      match c with
      | 'd' => set flags.isDigit 50 false rest
      | 'D' => set flags.isDigit 50 true rest
      | 's' => set flags.isSpace 10 false rest
      | 'S' => set flags.isSpace 10 true rest
      | 'w' => set flags.isWord 800 false rest
      | 'W' => set flags.isWord 800 true rest
      | 'p' => (readProperty? flags false rest).map fun (test, rest) => (.set test 400, rest)
      | 'P' => (readProperty? flags true rest).map fun (test, rest) => (.set test 400, rest)
      | 'x' =>
          match readCode? 2 rest with
          | none => none
          | some (code, after) =>
              if !flags.unicode && 0x7F < code.toNat && rest.head? ≠ some '{' then none
              else some (.literal code, after)
      | 'u' => (readCode? 4 rest).map fun (code, rest) => (.literal code, rest)
      | 'U' => (readCode? 8 rest).map fun (code, rest) => (.literal code, rest)
      | 'a' => some (.literal (Char.ofNat 7), rest)
      | 'f' => some (.literal (Char.ofNat 12), rest)
      | 't' => some (.literal '\t', rest)
      | 'n' => some (.literal '\n', rest)
      | 'r' => some (.literal '\r', rest)
      | 'v' => some (.literal (Char.ofNat 11), rest)
      | 'A' => some (.border atStart, rest)
      | 'z' => some (.border atEnd, rest)
      | '<' => (namedBorder? flags "start".toList).map fun border => (.border border, rest)
      | '>' => (namedBorder? flags "end".toList).map fun border => (.border border, rest)
      | 'B' => some (.border (wordBorder flags (· == ·)), rest)
      | 'b' =>
          match readBorderName? rest with
          | none => none
          | some none => some (.border (wordBorder flags (· != ·)), rest)
          | some (some (name, rest)) =>
              (namedBorder? flags name).map fun border => (.border border, rest)
      | _ =>
          if isMeta c || (c.toNat < 0x80 && !c.isAlphanum) then some (.literal c, rest) else none

/-! ## Bracketed classes -/

/-- Blanks and comments have no meaning in a verbose expression. -/
def skipVerbose : (fuel : Nat) → List Char → List Char
  | 0, text => text
  | fuel + 1, text =>
      match text with
      | c :: rest =>
          if Text.isBlank c then skipVerbose fuel rest
          else if c = '#' then skipVerbose fuel (rest.dropWhile (· ≠ '\n'))
          else text
      | [] => []

def Flags.skip (flags : Flags) (text : List Char) : List Char :=
  if flags.verbose then skipVerbose (text.length + 1) text else text

inductive SetOperation where
  | intersection
  | difference
  | symmetricDifference

/-- A member of a class that was read: a single character or a set. -/
inductive Member where
  | single (c : Char)
  | set (test : CharSet)

def Member.test : Member → CharSet
  | .single c => (· = c)
  | .set test => test

/-- Reads a character or an escape inside a class. Borders have no place there. -/
def readMember? (flags : Flags) (text : List Char) : Option (Member × List Char) :=
  match text with
  | '\\' :: text =>
      match readEscape? flags text with
      | some (.literal c, rest) => some (.single c, rest)
      | some (.set test _, rest) => some (.set test, rest)
      | _ => none
  | c :: text => some (.single c, text)
  | [] => none

/-- Without Unicode a class holds ASCII characters only. -/
def Flags.admits (flags : Flags) : Member → Bool
  | .single c => flags.unicode || c.toNat < 0x80
  | .set _ => true

/-- Reads a member or a range of characters. -/
def readRange? (flags : Flags) (text : List Char) : Option (CharSet × List Char) := do
  let (first, text) ← readMember? flags text
  if !flags.admits first then none
  match flags.skip text with
  | [] => none
  | '-' :: after =>
      match flags.skip after with
      | [] => none
      | ']' :: _ => some (first.test, '-' :: after)
      | '-' :: _ => some (first.test, '-' :: after)
      | after =>
          match first, ← readMember? flags after with
          | .single low, (.single high, rest) =>
              if low ≤ high && flags.admits (.single high) then
                some (fun c => low ≤ c && c ≤ high, rest)
              else none
          | _, _ => none
  | text => some (first.test, text)

/-- Reads a named class such as `[:alpha:]` behind its first bracket. -/
def readNamed? (flags : Flags) (text : List Char) : Option (CharSet × List Char) :=
  match text with
  | ':' :: text => do
      let negated := text.head? = some '^'
      let (name, rest) ← upTo? ':' (if negated then text.tail else text)
      match rest with
      | ']' :: rest =>
          let set ← asciiSet? (String.ofList name)
          return (← flags.negateIf negated (flags.close set), rest)
      | _ => none
  | _ => none

def unionOf (sets : List CharSet) : CharSet := fun c => sets.any fun set => set c

/-- Applies the pending operation of a class. -/
def applyPending (flags : Flags) (pending : Option (CharSet × SetOperation)) (set : CharSet) :
    CharSet :=
  let set := flags.close set
  match pending with
  | none => set
  | some (left, .intersection) => fun c => left c && set c
  | some (left, .difference) => fun c => left c && !set c
  | some (left, .symmetricDifference) => fun c => left c != set c

/-- The dashes at the front of a class, or else a bracket there, stand for themselves. -/
def readFront (flags : Flags) (text : List Char) : List CharSet × List Char :=
  let text := flags.skip text
  match text with
  | ']' :: rest => ([(· = ']')], rest)
  | _ =>
      let dashes := text.takeWhile (· = '-')
      (dashes.map fun dash c => c = dash, text.dropWhile (· = '-'))

mutual

/-- Reads a class behind its opening bracket. -/
def readClass? : (fuel : Nat) → Flags → List Char → Option (CharSet × List Char)
  | 0, _, _ => none
  | fuel + 1, flags, text =>
      let text := flags.skip text
      let negated := text.head? = some '^'
      let (front, text) := readFront flags (if negated then text.tail else text)
      match readClassBody? fuel flags none front text with
      | some (set, rest) => (flags.negateIf negated set).map (·, rest)
      | none => none

/-- Reads the members of a class behind a pending operation and some members. -/
def readClassBody? : (fuel : Nat) → Flags → Option (CharSet × SetOperation) → List CharSet →
    List Char → Option (CharSet × List Char)
  | 0, _, _, _, _ => none
  | fuel + 1, flags, pending, sets, text =>
      let close := applyPending flags pending (unionOf sets)
      match flags.skip text with
      | [] => none
      | ']' :: text => some (close, text)
      | '&' :: '&' :: text => readClassBody? fuel flags (some (close, .intersection)) [] text
      | '-' :: '-' :: text => readClassBody? fuel flags (some (close, .difference)) [] text
      | '~' :: '~' :: text =>
          readClassBody? fuel flags (some (close, .symmetricDifference)) [] text
      | '[' :: text =>
          match readNamed? flags text with
          | some (set, text) => readClassBody? fuel flags pending (set :: sets) text
          | none =>
              match readClass? fuel flags text with
              | some (set, text) => readClassBody? fuel flags pending (set :: sets) text
              | none => none
      | text =>
          match readRange? flags text with
          | some (set, text) => readClassBody? fuel flags pending (set :: sets) text
          | none => none

end

/-! ## Groups and repetitions -/

/-- An item of a sequence. A flag group is no item that can be repeated. -/
inductive Item where
  | pattern (sized : Sized)
  | flags

def Item.sized : Item → Sized
  | .pattern sized => sized
  | .flags => ⟨.empty, 0⟩

def sequence (items : List Item) : Sized :=
  let parts := items.reverse.map Item.sized
  ⟨Regular.all (parts.map Sized.pattern), parts.foldl (fun total part => total + part.size) 0⟩

/-- Joins branches, last first. -/
def alternatives (branches : List Sized) : Sized :=
  ⟨Regular.any (branches.reverse.map Sized.pattern),
    branches.foldl (fun total branch => total + branch.size) 1⟩

/-- Repeats the last item. -/
def repeatLast? (least : Nat) (most : Option Nat) (items : List Item) : Option (List Item) :=
  match items with
  | .pattern sized :: items =>
      let size := (max least (most.getD least) + 1) * (sized.size + 1)
      if sizeBound < size then none
      else some (.pattern ⟨Regular.between least most sized.pattern, size⟩ :: items)
  | _ => none

def isSpaceAround (c : Char) : Bool := Text.isBlank c

/-- Reads a count with blanks around it. -/
def readCount? (text : List Char) : Option (Nat × List Char) :=
  let text := text.dropWhile isSpaceAround
  match text.takeWhile Char.isDigit with
  | [] => none
  | digits =>
      let n := digits.foldl (fun total c => 10 * total + (c.toNat - '0'.toNat)) 0
      if n < UInt32.size then some (n, (text.dropWhile Char.isDigit).dropWhile isSpaceAround) else none

/-- Reads the bounds of a repetition behind the opening brace. -/
def readBounds? (text : List Char) : Option ((Nat × Option Nat) × List Char) := do
  let (least, text) ← readCount? text
  match text with
  | '}' :: text => return ((least, some least), text)
  | ',' :: '}' :: text => return ((least, none), text)
  | ',' :: text =>
      let (most, text) ← readCount? text
      match text with
      | '}' :: text => if least ≤ most then return ((least, some most), text) else none
      | _ => none
  | _ => none

/-- A question mark behind a repetition changes which match is preferred, not whether there is
one. -/
def skipPreference (text : List Char) : List Char :=
  if text.head? = some '?' then text.tail else text

/-- Reads flags up to the colon or parenthesis behind them. -/
def readFlags? (flags : Flags) (on : Bool) (seen : List Char) :
    List Char → Option (Flags × Char × Bool × List Char)
  | [] => none
  | c :: text =>
      if c = ')' || c = ':' then
        if seen.head? = some '-' then none else some (flags, c, seen.isEmpty, text)
      else if seen.contains c then none
      else
        let next (flags : Flags) := readFlags? flags on (c :: seen) text
        match c with
        | '-' => readFlags? flags false (c :: seen) text
        | 'i' => next { flags with ignoreCase := on }
        | 'm' => next { flags with multiLine := on }
        | 's' => next { flags with dotAll := on }
        | 'x' => next { flags with verbose := on }
        | 'R' => next { flags with carriageReturn := on }
        | 'u' => next { flags with unicode := on }
        | 'U' => next flags
        | _ => none

def isNameChar (front : Bool) (c : Char) : Bool :=
  if front then c = '_' || Text.isAlphabetic c
  else
    c = '_' || c = '.' || c = '[' || c = ']' || Text.isAlphabetic c || (Text.category c).1 = 'N'

/-- Reads the name of a group behind its opening bracket. Names may not repeat. -/
def readName? (names : List (List Char)) (text : List Char) :
    Option (List (List Char) × List Char) := do
  let (name, rest) ← upTo? '>' text
  match name with
  | [] => none
  | c :: more =>
      if isNameChar true c && more.all (isNameChar false) && !names.contains name then
        return (name :: names, rest)
      else none

/-- The set that a dot stands for. -/
def dotSet? (flags : Flags) : Option CharSet :=
  if !flags.unicode then none
  else if flags.dotAll then some fun _ => true
  else if flags.carriageReturn then some fun c => c ≠ '\n' && c ≠ '\r'
  else some fun c => c ≠ '\n'

/-- The pattern of a primitive. -/
def ofPrimitive (flags : Flags) : Primitive → Sized
  | .literal c => ⟨.letter (flags.literal c), 1⟩
  | .set test size => ⟨.letter test, size⟩
  | .border pattern => ⟨pattern, 1⟩

/-- Reads one construct that is no group, class or repetition. -/
def readPrimitive? (flags : Flags) (c : Char) (text : List Char) : Option (Sized × List Char) :=
  match c with
  | '\\' => (readEscape? flags text).map fun (primitive, rest) => (ofPrimitive flags primitive, rest)
  | '.' => (dotSet? flags).map fun set => (⟨.letter set, 10⟩, text)
  | '^' => some (⟨lineStart flags, 1⟩, text)
  | '$' => some (⟨lineEnd flags, 1⟩, text)
  | c => some (ofPrimitive flags (.literal c), text)

/-- Reads branches up to the end of the group or of the text. `branches` and `items` hold what was
read, last first; flags hold to the end of the group. -/
def readGroup? : (fuel nesting : Nat) → Flags → (names : List (List Char)) →
    (branches : List Sized) → (items : List Item) → List Char →
    Option (Sized × List (List Char) × List Char)
  | 0, _, _, _, _, _, _ => none
  | fuel + 1, nesting, flags, names, branches, items, text =>
      let finished := alternatives (sequence items :: branches)
      let continue' (item : Item) (names : List (List Char)) (text : List Char) :=
        readGroup? fuel nesting flags names branches (item :: items) text
      let repeated (least : Nat) (most : Option Nat) (text : List Char) :=
        match repeatLast? least most items with
        | some items => readGroup? fuel nesting flags names branches items (skipPreference text)
        | none => none
      let inner (flags : Flags) (names : List (List Char)) (text : List Char) :=
        if nesting = 0 then none
        else
          match readGroup? fuel (nesting - 1) flags names [] [] text with
          | some (sized, names, ')' :: text) => continue' (.pattern sized) names text
          | _ => none
      match flags.skip text with
      | [] => some (finished, names, [])
      | c :: text =>
          match c with
          | ')' => some (finished, names, c :: text)
          | '|' => readGroup? fuel nesting flags names (sequence items :: branches) [] text
          | '*' => repeated 0 none text
          | '+' => repeated 1 none text
          | '?' => repeated 0 (some 1) text
          | '{' =>
              match readBounds? text with
              | some ((least, most), text) => repeated least most text
              | none => none
          | '[' =>
              match readClass? (text.length + 1) flags text with
              | some (set, text) => continue' (.pattern ⟨.letter set, 20⟩) names text
              | none => none
          | '(' =>
              match text with
              | '?' :: '=' :: _ => none
              | '?' :: '!' :: _ => none
              | '?' :: '<' :: '=' :: _ => none
              | '?' :: '<' :: '!' :: _ => none
              | '?' :: 'P' :: '<' :: text =>
                  match readName? names text with
                  | some (names, text) => inner flags names text
                  | none => none
              | '?' :: '<' :: text =>
                  match readName? names text with
                  | some (names, text) => inner flags names text
                  | none => none
              | '?' :: text =>
                  match readFlags? flags true [] text with
                  | some (changed, ':', _, text) => inner changed names text
                  | some (changed, _, false, text) =>
                      readGroup? fuel nesting changed names branches (.flags :: items) text
                  | _ => none
              | text => inner flags names text
          | c =>
              match readPrimitive? flags c text with
              | some (sized, text) => continue' (.pattern sized) names text
              | none => none

/-- The pattern that an expression writes. -/
def parse? (text : String) : Option (Regular Char) :=
  let chars := text.toList
  match readGroup? (2 * chars.length + 2) nestBound {} [] [] [] chars with
  | some (sized, _, []) => if sized.size ≤ sizeBound then some sized.pattern else none
  | _ => none

end WebBundle.Pattern.Expression
