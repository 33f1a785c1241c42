/-
# Wikidown.Main -- the program

The program converts a page bundle or a piece of storage markup, and reports success and
failure as `Wikidown.CommandLine` says.  Only reading and writing files and printing
happen here.
-/
import Wikidown.CommandLine

open Wikidown

/-- The disk of the machine. -/
def machineDisk : CommandLine.Disk IO where
  read path := do
    match ← (IO.FS.readFile (String.ofList path)).toBaseIO with
    | .ok content => pure (.ok content.toList)
    | .error reason => pure (.error (toString reason).toList)
  write path content := do
    match ← (IO.FS.writeFile (String.ofList path) (String.ofList content)).toBaseIO with
    | .ok () => pure (.ok ())
    | .error reason => pure (.error (toString reason).toList)

def main (arguments : List String) : IO UInt32 := do
  let outcome ← CommandLine.execute machineDisk (arguments.map String.toList)
  IO.print (String.ofList outcome.output)
  IO.eprint (String.ofList outcome.report)
  pure outcome.code
