import WebBundle.Text.Substring

/-!
# Paths as written

A path is kept as the text that was written. Joining, taking the parent and taking the last name
work on that text alone: they resolve no `..`, follow no link and look at no file.
-/

namespace WebBundle.Path

def isAbsolute (path : String) : Bool := path.toList.head? = some '/'

/-- Puts `path` below `base`. An absolute `path` takes the place of `base`. -/
def join (base path : String) : String :=
  if isAbsolute path || base.isEmpty then path
  else if base.toList.getLast? = some '/' then base ++ path
  else base ++ "/" ++ path

/-- The text between the slashes. -/
def segments (path : String) : List (List Char) := Text.pieces (· = '/') path.toList

/-- An empty segment or a single dot names no step. -/
def isStill (segment : List Char) : Bool := segment.isEmpty || segment = ['.']

/-- The leading segments that stay when the end of a path is cut off: the empty one before a
leading slash, or a dot that a relative path begins with. -/
def anchor (path : String) : List (List Char) × List (List Char) :=
  match segments path with
  | first :: rest =>
      if isAbsolute path || first = ['.'] then ([first], rest) else ([], first :: rest)
  | [] => ([], [])

/-- The steps of a path without the still segments at its end, last step first. -/
def stepsBackwards (steps : List (List Char)) : List (List Char) :=
  steps.reverse.dropWhile isStill

/-- Writes segments behind an anchor. A lone root is written as a slash. -/
def render (absolute : Bool) (path : List (List Char)) : String :=
  if absolute && path = [[]] then "/" else String.ofList (List.intercalate ['/'] path)

/-- The path without its last step. The root and the empty path have no parent. -/
def parent? (path : String) : Option String :=
  let (head, steps) := anchor path
  match stepsBackwards steps with
  | _ :: before =>
      some (render (isAbsolute path) (head ++ (before.dropWhile isStill).reverse))
  | [] => if head = [['.']] then some "" else none

/-- The last step of a path, if it is a name. -/
def fileName? (path : String) : Option (List Char) :=
  match stepsBackwards (anchor path).2 with
  | last :: _ => if last = ['.', '.'] then none else some last
  | [] => none

/-- The part of a name after its last dot. A dot that begins the name does not count. -/
def extensionOf? (name : List Char) : Option (List Char) :=
  match Text.splitLast? (fun rest => rest.head? = some '.') name with
  | some (before, _ :: extension) => if before.isEmpty then none else some extension
  | _ => none

def extension? (path : String) : Option (List Char) := (fileName? path).bind extensionOf?

def scriptExtensions : List String := ["js", "jsx", "mjs", "cjs", "ts", "tsx"]

/-- Scripts are told by their extension, in lower case only. -/
def isScript (path : String) : Bool :=
  match extension? path with
  | some extension => scriptExtensions.any fun known => known.toList = extension
  | none => false

end WebBundle.Path
