import Stepwise.Service.Address
import Stepwise.Text.Blank

/-!
# Configuration

The server listens on the address that one variable of its environment gives, and
on a local one if the variable is not set.
-/

namespace Stepwise.Service

/-- The configuration of a server. -/
structure Config where
  bindAddress : SocketAddress

/-- A value of the environment that cannot be used. -/
inductive ConfigFault
  | invalidAddress (variableName value : String)

/-- What is said of a value that cannot be used. -/
def ConfigFault.message : ConfigFault → String
  | .invalidAddress variableName value =>
    variableName ++ " is not a valid socket address: '" ++ value ++ "'"

namespace Config

/-- The variable of the address. -/
def bindAddressVariable : String := "SOLVER_BIND_ADDR"

/-- The configuration of an empty environment. -/
def default : Config := ⟨.v4 ⟨127, 0, 0, 1⟩ 3000⟩

/-- The configuration of an environment. Blanks around the address do not count. -/
def ofLookup (lookup : String → Option String) : Except ConfigFault Config :=
  match lookup bindAddressVariable with
  | none => .ok default
  | some value =>
    match SocketAddress.ofText? (Text.trim value.toList) with
    | some address => .ok ⟨address⟩
    | none => .error (.invalidAddress bindAddressVariable value)

end Config

end Stepwise.Service
