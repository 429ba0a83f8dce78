import Stepwise.Catalog.Builtin
import Stepwise.Service.Request
import Stepwise.Solution.Json
import Stepwise.Solution.Solve

/-!
# The text protocol

A client sends commands as texts and gets one reply for each.

* `SOLVE:` and a session line is answered by the steps of its solution.
* `REWRITE:` and a request in JSON is answered by the edited line.
* Anything else is answered by an error.

Payloads are read and replies are printed by a library for JSON.
-/

namespace Stepwise.Service

/-- How bad an error is. -/
inductive Severity
  | error
  | warning
deriving DecidableEq

/-- The word for a severity. -/
def Severity.name : Severity → String
  | .error => "error"
  | .warning => "warning"

/-- What went wrong with a command. -/
inductive CommandFault
  /-- A relation failed. -/
  | solveFailed (fault : SolveFault)
  /-- The payload of an edit is no request. -/
  | badPayload (reason : String)
  /-- The text is no command. -/
  | unknown (text : String)

namespace CommandFault

/-- The code of an error. -/
def code : CommandFault → String
  | .solveFailed _ => "SOLVE_FAILED"
  | .badPayload _ => "BAD_COMMAND"
  | .unknown _ => "UNKNOWN_COMMAND"

/-- What is said of an unreadable payload before the reason. -/
def payloadMessage : String := "Invalid REWRITE payload: "

/-- What is said of an error. -/
def message : CommandFault → String
  | .solveFailed fault => "Solve failed: " ++ fault.message
  | .badPayload reason => payloadMessage ++ reason
  | .unknown text => "Unknown command: " ++ text

/-- How bad an error is: only a failed relation is no mistake of the client. -/
def severity : CommandFault → Severity
  | .solveFailed _ => .error
  | .badPayload _ | .unknown _ => .warning

/-- An error as JSON. -/
def toJson (f : CommandFault) : Json := .object [
  ("code", .string f.code),
  ("message", .string f.message),
  ("severity", .string f.severity.name)]

end CommandFault

/-- The reply to a command. -/
inductive Reply
  | steps (steps : List Step)
  | script (line : String)
  | error (fault : CommandFault)

namespace Reply

/-- The word that a reply begins with. -/
def tag : Reply → String
  | .steps _ => "STEPS_UPDATE"
  | .script _ => "SCRIPT_UPDATE"
  | .error _ => "ERROR_UPDATE"

/-- The text of a reply. -/
def text (json : Json.Library) (r : Reply) : String :=
  r.tag ++ ":" ++ match r with
    | .steps list => json.print (Step.listToJson list)
    | .script line => line
    | .error fault => json.print fault.toJson

end Reply

/-- The rest of a text that begins with a word. -/
def after? (word text : String) : Option String :=
  if word.toList.isPrefixOf text.toList then
    some (String.ofList (text.toList.drop word.length))
  else none

/-- The reply to a request for the solution of a line. -/
def solveCommand (line : String) : Reply :=
  match Registry.builtin.solve line with
  | .ok steps => .steps steps
  | .error fault => .error (.solveFailed fault)

/-- The reply to a request for an edit. -/
def editCommand (json : Json.Library) (payload : String) : Reply :=
  match json.read EditRequest.decoder payload with
  | .ok request => .script request.answer
  | .error reason => .error (.badPayload reason)

/-- The reply to a command whose payload a library reads. -/
def replyWith (json : Json.Library) (text : String) : Reply :=
  match after? "SOLVE:" text, after? "REWRITE:" text with
  | some line, _ => solveCommand line
  | none, some payload => editCommand json payload
  | none, none => .error (.unknown text)

/-- The reply to a command. -/
def reply (text : String) : Reply := replyWith .standard text

end Stepwise.Service
