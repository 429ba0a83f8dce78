import Stepwise.Catalog.Registry
import Stepwise.Session.Line
import Stepwise.Solution.Derive
import Stepwise.Solution.Remark

/-!
# Solutions of session lines

The steps of a line are, in this order: an error for every fault of the line; an
error for the first unknown catalog, which ends the solution; an error for every
hint without a meaning; the onboarding, which ends the solution, if nothing is
imported; the warnings; the moves of the derivation; the summary.
-/

namespace Stepwise

namespace Registry

/-- The catalogs of some names, or the first name that is unknown. -/
def resolve (r : Registry) : List String → Except String (List Catalog)
  | [] => .ok []
  | name :: rest =>
    match r.get? name with
    | none => .error name
    | some catalog => (r.resolve rest).map (catalog :: ·)

/-- The steps of a session, whatever line it was read from. -/
def solveSession (r : Registry) (s : Session) : Except SolveFault (List Step) :=
  match r.resolve s.libraries with
  | .error name => .ok [.error ("Unknown library \"" ++ name ++ "\"")]
  | .ok [] => .ok (unknownHintSteps [] s.hints ++ [.hint onboarding])
  | .ok imports =>
    (derive imports (!s.hasHint noImplicit) s.values).map fun (steps, final) =>
      unknownHintSteps imports s.hints ++ warningSteps imports s.hints s.values ++
        steps ++ [.summary final]

/-- The steps of a session line: its faults, then the steps of its session. -/
def solve (r : Registry) (line : String) : Except SolveFault (List Step) :=
  let reading := Session.read line
  (r.solveSession reading.session).map
    (reading.faults.map (fun fault => .error fault.message) ++ ·)

end Registry

end Stepwise
