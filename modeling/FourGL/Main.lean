import FourGL.CommandLine

/-!
# The program
-/

namespace FourGL

/-- The files of the machine. -/
def machineFiles : FileSystem IO where
  read path := do
    try return some (← IO.FS.readFile path)
    catch _ => return none
  isFile path := do
    try return (← (← IO.FS.realPath path).metadata).type == .file
    catch _ => return false
  write path content := IO.FS.writeFile path content

end FourGL

def main (words : List String) : IO UInt32 := do
  let outcome ← FourGL.CommandLine.run FourGL.machineFiles (← IO.currentDir).toString words
  IO.print outcome.output
  for line in outcome.remarks ++ outcome.summary.toList do IO.eprintln line
  return outcome.exitCode.toUInt32
