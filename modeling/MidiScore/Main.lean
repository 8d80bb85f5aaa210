import MidiScore.CommandLine

/-!
# The program

Carries out what `CommandLine.run` says: writes the file, prints the line and ends with the code.
-/

open MidiScore in
def main (args : List String) : IO UInt32 := do
  let outcome := CommandLine.run args
  for (name, bytes) in outcome.files do
    IO.FS.writeBinFile name ⟨bytes.toArray⟩
  IO.print outcome.output
  IO.eprint outcome.complaint
  return .ofNat outcome.code
