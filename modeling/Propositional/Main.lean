import Propositional.CommandLine

/-!
# The program

Runs the command line on its arguments and prints the response.  Pictures are never drawn here: the
surroundings are described as having neither the folder for them nor a drawing program.
-/

/-- Prints the lines of the response and ends with its exit code. -/
def main (arguments : List String) : IO UInt32 := do
  let setting : Propositional.Rendering.Setting :=
    { folderExists := false, folderFailure := some "no access to folders",
      drawFailure := some "no drawing program" }
  let response := Propositional.CommandLine.run setting .info arguments
  for line in response.lines do
    IO.println line
  return UInt32.ofNat response.exitCode
