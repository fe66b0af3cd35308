import WebBundle.Text.Substring

/-!
# Settings on a command line

A command line is a list of words. A word that begins with two dashes names an option, one that
begins with a single dash is a run of option letters. An option may take a value, which stands
behind an equals sign, behind the letter, or in the next word; a next word that begins with a dash
is no value, a lone dash excepted. An option may be given once. Two dashes end the options.
-/

namespace WebBundle.Command

/-- An option. One that takes no value accepts none; for the others `accepts` tells the values. -/
structure OptionForm where
  name : String
  letter : Option Char := none
  takesValue : Bool := true
  accepts : String → Bool := fun _ => true

/-- An option as it was given. The value is empty for an option that takes none. -/
structure Setting where
  name : String
  value : String
  deriving DecidableEq, Repr

/-- What keeps a command line from being carried out: it asks for help or for the version, or it is
refused. -/
inductive Stop where
  | help
  | version
  | refused
  deriving DecidableEq, Repr

/-- The options that a command knows, and whether it tells its version. -/
structure Grammar where
  options : List OptionForm
  tellsVersion : Bool := false

namespace Grammar

def named? (grammar : Grammar) (name : List Char) : Option OptionForm :=
  grammar.options.find? fun form => form.name.toList = name

def lettered? (grammar : Grammar) (letter : Char) : Option OptionForm :=
  grammar.options.find? fun form => form.letter = some letter

/-- Adds a setting. An option that was given already is refused, and so is a value that the option
does not accept. -/
def set (settings : List Setting) (form : OptionForm) (value : String) :
    Except Stop (List Setting) :=
  if settings.any (fun setting => setting.name = form.name) then .error .refused
  else if form.takesValue && !form.accepts value then .error .refused
  else .ok (settings ++ [⟨form.name, value⟩])

/-- The settings so far, and the option that waits for a value in the next word. -/
structure State where
  settings : List Setting := []
  waiting : Option OptionForm := none

/-- Reads a word that names an option, given without its dashes. -/
def readName (grammar : Grammar) (settings : List Setting) (word : List Char) :
    Except Stop State :=
  let (name, attached) :=
    match Text.splitOnce? (· = '=') word with
    | some (name, value) => (name, some (String.ofList value))
    | none => (word, none)
  match grammar.named? name, attached with
  | some form, some value =>
      if form.takesValue then (set settings form value).map fun settings => ⟨settings, none⟩
      else .error .refused
  | some form, none =>
      if form.takesValue then .ok ⟨settings, some form⟩
      else (set settings form "").map fun settings => ⟨settings, none⟩
  | none, none =>
      if name = "help".toList then .error .help
      else if name = "version".toList && grammar.tellsVersion then .error .version
      else .error .refused
  | none, some _ => .error .refused

/-- The value behind a letter. -/
def attachedValue (text : List Char) : String :=
  String.ofList (if text.head? = some '=' then text.tail else text)

/-- Reads a run of option letters. -/
def readLetters (grammar : Grammar) (settings : List Setting) : List Char → Except Stop State
  | [] => .ok ⟨settings, none⟩
  | letter :: rest =>
      match grammar.lettered? letter with
      | some form =>
          if form.takesValue then
            if rest.isEmpty then .ok ⟨settings, some form⟩
            else
              (set settings form (attachedValue rest)).map fun settings => ⟨settings, none⟩
          else
            match set settings form "" with
            | .error stop => .error stop
            | .ok settings => readLetters grammar settings rest
      | none =>
          if letter = 'h' then .error .help
          else if letter = 'V' && grammar.tellsVersion then .error .version
          else .error .refused

/-- How a word begins. -/
inductive WordKind where
  | endOfOptions
  | name (text : List Char)
  | letters (text : List Char)
  | plain
  deriving DecidableEq, Repr

def kindOf (word : String) : WordKind :=
  match word.toList with
  | ['-', '-'] => .endOfOptions
  | '-' :: '-' :: text => .name text
  | '-' :: c :: text => .letters (c :: text)
  | _ => .plain

/-- Reads options up to the first word that is none, which begins the rest. -/
def read (grammar : Grammar) : State → List String → Except Stop (List Setting × List String)
  | ⟨settings, none⟩, [] => .ok (settings, [])
  | ⟨_, some _⟩, [] => .error .refused
  | ⟨settings, some form⟩, word :: words =>
      if kindOf word = .plain then
        match set settings form word with
        | .error stop => .error stop
        | .ok settings => read grammar ⟨settings, none⟩ words
      else .error .refused
  | ⟨settings, none⟩, word :: words =>
      match kindOf word with
      | .plain => .ok (settings, word :: words)
      | .endOfOptions => if words.isEmpty then .ok (settings, []) else .error .refused
      | .name text =>
          match readName grammar settings text with
          | .error stop => .error stop
          | .ok state => read grammar state words
      | .letters text =>
          match readLetters grammar settings text with
          | .error stop => .error stop
          | .ok state => read grammar state words

end Grammar

/-- The value of an option that was given. -/
def valueOf? (settings : List Setting) (name : String) : Option String :=
  (settings.find? fun setting => setting.name = name).map (·.value)

def isGiven (settings : List Setting) (name : String) : Bool := (valueOf? settings name).isSome

end WebBundle.Command
