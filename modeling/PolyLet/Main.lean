import PolyLet.Command.Run

/-!
# The program

The command line of the compiler on the machine it runs on: the surroundings of a command are the
real files, and what a command prints is printed.

## Main definitions

* `machineHost`: the surroundings that the machine gives
* `main`: the program
-/

namespace PolyLet

/-- The error for a failure of the machine. Some calls give the number of the error negated. -/
def FileError.ofFailure : IO.Error → FileError
  | .noFileOrDirectory .. => .notFound
  | .inappropriateType _ 21 _ => .isADirectory
  | .inappropriateType .. => .notADirectory
  | error@(.invalidArgument _ code _) =>
    if code = 36 ∨ code = 0 - 36 then .nameTooLong else .other (toString error)
  | error => .other (toString error)

/-- The surroundings that the machine gives. `clock` holds the time of the last look at it, in
nanoseconds. -/
def machineHost (clock : IO.Ref Nat) : Host IO where
  readInput := do
    try
      let content ← (← IO.getStdin).readBinToEnd
      pure (.ok content)
    catch error => pure (.error (.ofFailure error))
  readFile p := do
    try
      let content ← IO.FS.readBinFile p.text
      pure (.ok content)
    catch error => pure (.error (.ofFailure error))
  writeFile p content := do
    try
      IO.FS.writeBinFile p.text content
      pure (.ok ())
    catch error => pure (.error (.ofFailure error))
  lapTime := do
    let now ← IO.monoNanosNow
    let last ← clock.swap now
    pure (toString ((now - last) / 1000) ++ "µs")

end PolyLet

open PolyLet in
/-- Runs the compiler on its command line. -/
def main (args : List String) : IO UInt32 := do
  let clock ← IO.mkRef (← IO.monoNanosNow)
  let output ← runArgs (machineHost clock) args (← IO.getEnv "KESTREL_LOG")
  IO.print output.console.stdout
  for line in output.console.stderr do
    IO.eprintln line
  if output.status = 2 then
    IO.eprintln usageText
  return output.status.toUInt32
