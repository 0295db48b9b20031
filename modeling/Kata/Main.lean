/-
# The program

Reads the files that the command names, lets the command line decide, and writes what
it says to write.
-/

import Kata.CommandLine

namespace Kata.CommandLine

/-- Read the bytes of a file. -/
def loadFile (path : String) : IO (Except FileFault ByteArray) := do
  try
    return .ok (← IO.FS.readBinFile path)
  catch e =>
    match e with
    | .noFileOrDirectory .. => return .error .notFound
    | .inappropriateType _ 21 _ => return .error .isDirectory
    | .inappropriateType .. => return .error .notDirectory
    | e => return .error (.other (toString e))

/-- Carry out the command that the arguments give. -/
def perform (args : List String) : IO UInt32 := do
  let command := Command.read args
  let paths := match command with
    | .ok command => command.paths
    | .error _ => []
  let loaded ← paths.mapM fun path => do return (path, ← loadFile path)
  let disk : Disk := fun path => (loaded.lookup path).getD (.error .notFound)
  let transcript := Transcript.ofCommand disk.files command
  IO.print transcript.output
  IO.eprint transcript.errors
  return UInt32.ofNat transcript.exitCode

end Kata.CommandLine

/-- The program. -/
def main (args : List String) : IO UInt32 := Kata.CommandLine.perform args
