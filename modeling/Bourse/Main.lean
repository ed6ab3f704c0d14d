import Bourse.CommandLine

/-!
# The Program

Reads the arguments and the configuration and ends with an error if they are not in
order. Otherwise the program runs until it is interrupted. It has no way to reach a
feed of its own, so it prints no prices, like one whose feed never answers.

## Main definitions

* `main`: the program.
-/

open Bourse CommandLine

/-- The text of a file, if it can be read. -/
def fileText (path : String) : IO (Option String) := do
  try
    return some (← IO.FS.readFile path)
  catch _ =>
    return none

/-- Ends the program. -/
def finishWith (e : Exit) : IO UInt32 := do
  (← IO.getStderr).putStr e.errors
  return e.code.toUInt32

/-- Waits to be interrupted. -/
partial def waitForEver : IO UInt32 := do
  IO.sleep 1000
  waitForEver

def main (args : List String) : IO UInt32 := do
  match Arguments.parse args with
  | .error e => finishWith e
  | .ok a =>
    let text ← match a.configPath with
      | some path => fileText path
      | none => pure none
    let feed ← IO.getEnv "FEED"
    let symbols ← IO.getEnv "SYMBOLS"
    let var (name : String) := if name = "FEED" then feed else if name = "SYMBOLS" then symbols else none
    match a.configure (fun _ => text) var with
    | .error e => finishWith e
    | .ok _ => waitForEver
