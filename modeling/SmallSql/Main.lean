import SmallSql.Shell

namespace SmallSql.Shell

/-- The bytes of the next line, its newline included; none at the end of the input. -/
partial def readLine (input : IO.FS.Stream) (line : List UInt8) : IO (List UInt8) := do
  match (← input.read 1).toList with
  | [] => return line.reverse
  | byte :: _ => if byte = 10 then return (byte :: line).reverse else readLine input (byte :: line)

def Outcome.print (outcome : Outcome) : IO UInt32 := do
  (← IO.getStdout).putStr outcome.stdout
  (← IO.getStdout).flush
  (← IO.getStderr).putStr outcome.stderr
  return outcome.exit.toUInt32

partial def converse (state : Format) : IO UInt32 := do
  (← IO.getStdout).putStr prompt
  (← IO.getStdout).flush
  let line ← readLine (← IO.getStdin) []
  match (if line.isEmpty then .stop farewell else turn state line) with
  | .stop outcome => outcome.print
  | .goOn outcome next =>
    discard outcome.print
    converse next

end SmallSql.Shell

open SmallSql.Shell

def main (args : List String) : IO UInt32 :=
  match Options.read? args with
  | some ⟨none, format⟩ => converse (format.getD .text)
  | _ => (run args []).print
