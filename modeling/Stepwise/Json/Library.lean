import Stepwise.Json.Printer
import Stepwise.Json.Reader

/-!
# Libraries for JSON

What is exchanged as text goes through a **library**, which prints values and reads
texts. No answer depends on how it spells a value or words a refusal, so whatever
exchanges texts takes the library as a parameter. What may be relied on is that a
library reads what it has printed.

The standard library prints without blanks and reads against the shape of what is
asked for.
-/

namespace Stepwise.Json

/-- How the values of a type are read from JSON: the shape that a text must have, and
the value that JSON of that shape stands for. -/
structure Decoder (α : Type) where
  shape : Shape
  ofJson? : Json → Option α

/-- A library for JSON. -/
structure Library where
  /-- The text of a value. -/
  print : Json → String
  /-- The value that a text stands for, or the reason why it stands for none. -/
  read : {α : Type} → Decoder α → String → Except String α

/-- The library that prints by `Json.text` and reads by `Json.readWhole`. -/
def Library.standard : Library where
  print := text
  read decoder source :=
    match readWhole decoder.shape source with
    | .error fault => .error fault.message
    | .ok json =>
      match decoder.ofJson? json with
      | some value => .ok value
      | none => .error Fault.mismatch.message

end Stepwise.Json
