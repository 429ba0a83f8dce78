import Stepwise.Service.Command

/-!
# The text protocol on standard input

Every line of input is a command, and its reply is a line of output.
-/

open Stepwise.Service

/-- Answer one command after another until the input ends. -/
partial def answerLines (input output : IO.FS.Stream) : IO Unit := do
  let line ← input.getLine
  if line.isEmpty then return
  let command := (line.dropEndWhile (fun c => c == '\n' || c == '\r')).toString
  output.putStrLn ((reply command).text .standard)
  output.flush
  answerLines input output

/-- Serve the text protocol. -/
def main : IO Unit := do
  answerLines (← IO.getStdin) (← IO.getStdout)
