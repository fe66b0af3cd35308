import WebBundle.Proofs.Serve.Confinement

/-!
# Answers without content

`GET` and `HEAD` are routed alike and read the same file, so their answers have one status and the
same headers, and the length that is announced is that of the content. Only the content of a file is
left out for `HEAD`: where there is no file to answer with, the reason is written out for both.
Every other method is refused, whatever is stored.

A file may be there and not be readable, so the law is stated for any way of reading the routed
file. The server is the case in which the storage is read.
-/

namespace WebBundle.Serve

open Storage

/-- What routing a target and reading the routed file come to. -/
inductive Outcome where
  | refused (status : Status)
  | found (path : String) (content : ByteArray)

/-- The outcome of a route, if files are read by `read`. -/
def Route.outcome (read : String → Except Fault ByteArray) : Route → Outcome
  | .forbidden => .refused .forbidden
  | .notFound => .refused .notFound
  | .file path | .fallback path =>
      match read path with
      | .ok content => .found path content
      | .error _ => .refused .internalError

def Outcome.answer (withBody : Bool) : Outcome → Response
  | .refused status => .ofStatus status
  | .found path content => .ofFile path content withBody

/-- What a server answers that reads files by `read`. -/
def respondBy (read : String → Except Fault ByteArray) (storage : Storage) (site : Site)
    (method target : String) : Response :=
  let outcome := (route storage site.root target site.fallback).outcome read
  if method = "GET" then outcome.answer true
  else if method = "HEAD" then outcome.answer false
  else .ofStatus .methodNotAllowed

variable {read : String → Except Fault ByteArray} {storage : Storage} {site : Site}
  {method target : String}

theorem answer_eq_outcome (withBody : Bool) : answer storage site target withBody =
    ((route storage site.root target site.fallback).outcome storage.read).answer withBody := by
  have read (path : String) :
      (match storage.read path with
        | .ok content => Response.ofFile path content withBody
        | .error _ => .ofStatus .internalError) =
        (match storage.read path with
          | .ok content => Outcome.found path content
          | .error _ => .refused .internalError).answer withBody := by
    cases storage.read path with
    | ok content => rfl
    | error fault => rfl
  rw [answer]
  cases route storage site.root target site.fallback with
  | file path => exact read path
  | fallback path => exact read path
  | forbidden => rfl
  | notFound => rfl

theorem respond_eq_respondBy :
    respond storage site method target = respondBy storage.read storage site method target := by
  rw [respond, answer_eq_outcome, answer_eq_outcome]
  rfl

theorem respondBy_of_other (notGet : method ≠ "GET") (notHead : method ≠ "HEAD") :
    respondBy read storage site method target = .ofStatus .methodNotAllowed := by
  simp only [respondBy, notGet, notHead, if_false]

/-! ## Two answers to one target -/

/-- Two answers with one status and the same headers, of which the second leaves out the content of
a file, and nothing but that. -/
structure Mirrors (full bare : Response) : Prop where
  status : bare.status = full.status
  headers : bare.headers = full.headers
  isEmpty_iff : bare.body = .empty ↔ full.status = .ok
  reason : full.status ≠ .ok → full.headers = [] ∧ bare.body = full.body
  length : full.status = .ok →
    full.headers.lookup "content-length" = some (toString full.body.size)

theorem toUTF8_reason_ne_empty (status : Status) : status.reason.toUTF8 ≠ .empty := by
  cases status <;> decide

theorem mirrors_ofStatus {status : Status} (notOk : status ≠ .ok) :
    Mirrors (.ofStatus status) (.ofStatus status) where
  status := rfl
  headers := rfl
  isEmpty_iff := iff_of_false (toUTF8_reason_ne_empty status) notOk
  reason _ := ⟨rfl, rfl⟩
  length isOk := absurd isOk notOk

theorem mirrors_ofFile (path : String) (content : ByteArray) :
    Mirrors (.ofFile path content true) (.ofFile path content false) where
  status := rfl
  headers := rfl
  isEmpty_iff := iff_of_true rfl rfl
  reason notOk := absurd rfl notOk
  length _ := rfl

/-- No route is refused as a success. -/
theorem mirrors_outcome (routed : Route) :
    Mirrors ((routed.outcome read).answer true) ((routed.outcome read).answer false) := by
  have reads (path : String) : Mirrors ((Route.file path).outcome read |>.answer true)
      ((Route.file path).outcome read |>.answer false) := by
    unfold Route.outcome
    dsimp only
    cases read path with
    | ok content => exact mirrors_ofFile path content
    | error fault => exact mirrors_ofStatus (by decide)
  cases routed with
  | file path => exact reads path
  | fallback path => exact reads path
  | forbidden => exact mirrors_ofStatus (by decide)
  | notFound => exact mirrors_ofStatus (by decide)

/-- What a server answers to the methods of one target. -/
structure AnswersMethods (read : String → Except Fault ByteArray) (storage : Storage) (site : Site)
    (target : String) : Prop where
  mirrors : Mirrors (respondBy read storage site "GET" target)
    (respondBy read storage site "HEAD" target)
  other (method : String) (notGet : method ≠ "GET") (notHead : method ≠ "HEAD")
    (read' : String → Except Fault ByteArray) (storage' : Storage) :
    respondBy read' storage' site method target = .ofStatus .methodNotAllowed
  respond_eq (method : String) :
    respond storage site method target = respondBy storage.read storage site method target

theorem answersMethods (read : String → Except Fault ByteArray) (storage : Storage) (site : Site)
    (target : String) : AnswersMethods read storage site target where
  mirrors := mirrors_outcome (route storage site.root target site.fallback)
  other _ notGet notHead _ _ := respondBy_of_other notGet notHead
  respond_eq _ := respond_eq_respondBy

/-- A missing file is answered in words, even where no content is asked for. -/
theorem not_empty_website :
    (respond website ⟨"/www", "index.html", true⟩ "HEAD" "/missing.js").status = .notFound ∧
      (respond website ⟨"/www", "index.html", true⟩ "HEAD" "/missing.js").body ≠ .empty := by
  have missing : route website "/www" "/missing.js" (some "index.html") = .notFound := by
    simp only [route, fileAt?, fallbackRoute, isFile, isDirectory, locate_eq_locateSteps]
    decide +kernel
  have refused : respond website ⟨"/www", "index.html", true⟩ "HEAD" "/missing.js" =
      .ofStatus .notFound := by
    rw [respond_eq_respondBy]
    change ((route website "/www" "/missing.js" (some "index.html")).outcome _).answer false = _
    rw [missing]
    rfl
  rw [refused]
  exact ⟨rfl, toUTF8_reason_ne_empty .notFound⟩

end WebBundle.Serve
