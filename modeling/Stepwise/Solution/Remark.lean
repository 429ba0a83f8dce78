import Stepwise.Catalog.Basic
import Stepwise.Solution.Move

/-!
# Remarks around a derivation

What is said besides the moves: hints that have no meaning, warnings about the
values that the user entered, and a first suggestion for an empty session.
-/

namespace Stepwise

/-- A warning as a hint, which ends with the edit that silences it. -/
def Warning.hint (w : Warning) (advice : Advice) : Hint where
  message := advice.text
  buttons := advice.actions ++ [.activating "Ignore this warning" w.bypass]

/-- The warnings on given values that no hint silences. -/
def warningSteps (imports : List Catalog) (hints : List String) (b : Bindings) : List Step :=
  (imports.flatMap (·.warnings)).filterMap fun w =>
    if hints.contains w.bypass then none
    else (w.check b).map fun advice => .hint (w.hint advice)

/-- The hints that have a meaning under some imports. -/
def knownHints (imports : List Catalog) : List String :=
  noImplicit :: imports.flatMap (·.bypasses)

/-- An error for every hint without a meaning. -/
def unknownHintSteps (imports : List Catalog) (hints : List String) : List Step :=
  (hints.filter fun hint => !(knownHints imports).contains hint).map
    fun hint => .error ("Unknown hint \"" ++ hint ++ "\"")

/-- What is said to a user who has imported nothing. -/
def onboarding : Hint where
  message := "You haven't imported any libraries yet."
  buttons :=
    [(Button.importing "I'm doing a kinematics (physics) problem" "kinematics").recommended,
      .importing "I'm doing a slopes (geometry) problem" "slopes"]

end Stepwise
