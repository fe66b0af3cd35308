import WebBundle.Config.Options
import WebBundle.Serve.MediaType
import WebBundle.Serve.Route

/-!
# Responses

What the development server answers. `GET` and `HEAD` are answered with the routed file, the latter
without its content; everything else is answered with a status alone.
-/

namespace WebBundle.Serve

/-- The served directory, and how unknown routes are answered. -/
structure Site where
  root : String
  document : String
  historyFallback : Bool
  deriving DecidableEq, Repr

def Site.ofOptions (options : Options) : Site where
  root := options.outDir
  document := options.htmlFileName
  historyFallback := options.server.historyFallback

def Site.fallback (site : Site) : Option String :=
  if site.historyFallback then some site.document else none

inductive Status where
  | ok
  | forbidden
  | notFound
  | methodNotAllowed
  | internalError
  deriving DecidableEq, Repr

def Status.number : Status → Nat
  | .ok => 200
  | .forbidden => 403
  | .notFound => 404
  | .methodNotAllowed => 405
  | .internalError => 500

def Status.reason : Status → String
  | .ok => "OK"
  | .forbidden => "Forbidden"
  | .notFound => "Not Found"
  | .methodNotAllowed => "Method Not Allowed"
  | .internalError => "Internal Server Error"

/-- Header names are in lower case and in order. -/
structure Response where
  status : Status
  headers : List (String × String)
  body : ByteArray

def Response.ofStatus (status : Status) : Response := ⟨status, [], status.reason.toUTF8⟩

def Response.ofFile (path : String) (content : ByteArray) (withBody : Bool) : Response where
  status := .ok
  headers := [("cache-control", "no-cache"), ("content-length", toString content.size),
    ("content-type", contentType path)]
  body := if withBody then content else .empty

def answer (storage : Storage) (site : Site) (target : String) (withBody : Bool) : Response :=
  match route storage site.root target site.fallback with
  | .forbidden => .ofStatus .forbidden
  | .notFound => .ofStatus .notFound
  | .file path | .fallback path =>
      match storage.read path with
      | .ok content => .ofFile path content withBody
      | .error _ => .ofStatus .internalError

def respond (storage : Storage) (site : Site) (method target : String) : Response :=
  if method = "GET" then answer storage site target true
  else if method = "HEAD" then answer storage site target false
  else .ofStatus .methodNotAllowed

end WebBundle.Serve
