import Stepwise.Service.Command
import Stepwise.Service.MediaType
import Stepwise.Service.Target

/-!
# HTTP requests

The same questions over HTTP. A path that is not served is not found, whatever the
method; a served path with another method is not allowed.

What a body asks for is taken out of it by an **extractor**, before a handler answers.
The standard one wants a body that is declared as JSON, is of moderate size, is JSON,
and has the shape of its request, in this order of complaint.
-/

namespace Stepwise.Service

/-- The status of a response. -/
inductive Status
  | ok
  | badRequest
  | notFound
  | methodNotAllowed
  | payloadTooLarge
  | unsupportedMediaType
  | unprocessable
deriving DecidableEq

/-- The number of a status. -/
def Status.code : Status → Nat
  | .ok => 200
  | .badRequest => 400
  | .notFound => 404
  | .methodNotAllowed => 405
  | .payloadTooLarge => 413
  | .unsupportedMediaType => 415
  | .unprocessable => 422

/-- The body of a response. -/
inductive Content
  | text (s : String)
  | json (value : Json)

/-- A request over HTTP. -/
structure HttpRequest where
  method : String
  /-- The path that is asked for, which may be empty. -/
  path : String
  contentType : Option String
  body : String

/-- Whether a character may stand in the value of a header. -/
def isHeaderChar (c : Char) : Bool := c == '\t' || (0x20 ≤ c.toNat && c.toNat != 0x7F)

/-- A request from its parts, if they are such that a request can be made of them: a
method is a token, the target has a form that gives a path, and no header holds a
control character. -/
def HttpRequest.ofParts? (method target : String) (contentType : Option String)
    (body : String) : Option HttpRequest := do
  let path ← Target.path? target
  if isToken method ∧ contentType.all (·.toList.all isHeaderChar) then
    return { method, path, contentType, body }
  else none

/-- A response over HTTP. Only a successful one needs its body. -/
structure Response where
  status : Status
  content : Content := .text ""

/-- The version of the solver. -/
def version : String := "0.1.0"

/-- What is said to a visitor of the root. -/
def banner : String := "Hello from Solver Backend! (solver-core v" ++ version ++ ")"

/-- The most bytes of a body that is read. -/
def maxBodySize : Nat := 2097152

/-- What takes the value that a handler wants out of a request, or refuses the request
with a status. -/
structure Extractor where
  extract : {α : Type} → Json.Decoder α → HttpRequest → Except Status α

/-- The extractor that reads a body as far as its value goes. -/
def Extractor.standard : Extractor where
  extract decoder r :=
    if !(r.contentType.bind MediaType.ofText?).any MediaType.isJson then
      .error .unsupportedMediaType
    else if maxBodySize < r.body.utf8ByteSize then .error .payloadTooLarge
    else
      match Json.readAs decoder.shape r.body with
      | .error .malformed => .error .badRequest
      | .error .mismatch => .error .unprocessable
      | .ok (json, _) =>
        match decoder.ofJson? json with
        | some value => .ok value
        | none => .error .unprocessable

/-- The response to a request for a solution. -/
def respondSolve (r : SolveRequest) : Response :=
  match Registry.builtin.solve r.script with
  | .ok steps => { status := .ok, content := .json (.object [("steps", Step.listToJson steps)]) }
  | .error fault =>
    { status := .unprocessable, content := .json (.object [("error", .string fault.message)]) }

/-- The response to a request for an edit. -/
def respondEdit (r : EditRequest) : Response where
  status := .ok
  content := .json (.object [("script", .string r.answer)])

/-- The response to a request for a page, which `HEAD` gets without its body. -/
def page (method : String) (content : Content) : Response :=
  if method = "GET" then { status := .ok, content }
  else if method = "HEAD" then { status := .ok }
  else { status := .methodNotAllowed }

/-- The response of a handler to a request that must post what it asks for. -/
def posted (extractor : Extractor) (decoder : Json.Decoder α) (handler : α → Response)
    (r : HttpRequest) : Response :=
  if r.method = "POST" then
    match extractor.extract decoder r with
    | .ok value => handler value
    | .error status => { status }
  else { status := .methodNotAllowed }

/-- The response to a request whose body an extractor takes. The path of the socket is
served to clients that upgrade, and a plain request is a bad one. -/
def respondWith (extractor : Extractor) (r : HttpRequest) : Response :=
  match r.path with
  | "/" => page r.method (.text banner)
  | "/families" => page r.method (.json (.ofTexts Registry.builtin.names))
  | "/solve" => posted extractor SolveRequest.decoder respondSolve r
  | "/rewrite" => posted extractor EditRequest.decoder respondEdit r
  | "/ws" => { status := if r.method = "GET" then .badRequest else .methodNotAllowed }
  | _ => { status := .notFound }

/-- The response to a request. -/
def respond (r : HttpRequest) : Response := respondWith .standard r

end Stepwise.Service
