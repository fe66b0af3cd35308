import WebBundle.Path.Lexical

/-!
# Resource paths

A resource path is the canonical text of a path: slashes only, no empty and no `.` segment, and
`..` only as a leading run of a path that is not absolute. Module identity, cache groups, hashed
keys and globs all work on resource paths.
-/

namespace WebBundle.Path

/-- Adds one segment to the canonical segments so far, kept last first. `..` takes back the last
segment. It cannot leave an absolute path, nor a drive such as `C:` that stands alone, and it is
kept where there is nothing to take back. -/
def pushSegment (absolute : Bool) (stack : List (List Char)) (segment : List Char) :
    List (List Char) :=
  if isStill segment then stack
  else if segment = ['.', '.'] then
    match stack with
    | [] => if absolute then [] else [segment]
    | top :: below =>
        if !absolute && top = ['.', '.'] then segment :: stack
        else if below.isEmpty && top.getLast? = some ':' then stack
        else below
  else segment :: stack

def canonicalSegments (absolute : Bool) (path : List (List Char)) : List (List Char) :=
  (path.foldl (pushSegment absolute) []).reverse

/-- A backslash separates like a slash. -/
def withSlashes (path : List Char) : List Char :=
  path.map fun c => if c = '\\' then '/' else c

def normalize (path : String) : String :=
  let text := withSlashes path.toList
  let absolute := text.head? = some '/'
  let body := List.intercalate ['/'] (canonicalSegments absolute (Text.pieces (· = '/') text))
  String.ofList (if absolute then '/' :: body else body)

/-- The resource path of `path` seen from `root`, or the whole resource path where `path` lies
outside `root`. -/
def relativeTo (root path : String) : String :=
  let root := (normalize root).toList
  let path := (normalize path).toList
  let front := if root.getLast? = some '/' then root else root ++ ['/']
  String.ofList ((Text.afterPart? front path).getD path)

end WebBundle.Path
