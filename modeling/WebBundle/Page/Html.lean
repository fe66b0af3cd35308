import WebBundle.Text.Substring

/-!
# The entry document

The document that starts the scripts. In a template the script tags stand before the last closing
body tag, whatever its case, or at the end. Without a template a small document is made.
-/

namespace WebBundle.Page

def scriptTag (address : String) : String :=
  "<script defer src=\"" ++ address ++ "\"></script>\n"

def scriptTags (addresses : List String) : String := String.join (addresses.map scriptTag)

/-- The text begins with a closing body tag. -/
def beginsWithBodyEnd (text : List Char) : Bool :=
  "</body>".toList.isPrefixOf ((text.take 7).map Char.toLower)

def document (title tags : String) : String :=
  "<!DOCTYPE html>\n<html>\n<head>\n<meta charset=\"utf-8\">\n<title>" ++ title ++
  "</title>\n</head>\n<body>\n" ++ tags ++ "</body>\n</html>\n"

def render (template : Option String) (title : String) (addresses : List String) : String :=
  let tags := scriptTags addresses
  match template with
  | none => document title tags
  | some template =>
      match Text.splitLast? beginsWithBodyEnd template.toList with
      | some (before, rest) => String.ofList before ++ tags ++ String.ofList rest
      | none => template ++ tags

end WebBundle.Page
