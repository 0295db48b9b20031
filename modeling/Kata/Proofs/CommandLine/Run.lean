/-
# What a command leaves behind

A command that fails has written nothing: all that can go wrong in a run goes wrong before the
suite is shown. What goes wrong first is known from the disk alone. The settings are looked at
before the implementation and the implementation before the tests, and a file fails if there is
none or if its bytes are no text. Otherwise the runner decides, and both forms of output tell
the status that the outcome goes by.
-/

import Kata.CommandLine
import Kata.Proofs.Desk.Status

namespace Kata.CommandLine

/-! ## Acts -/

namespace Act

variable {α β : Type} (before : String)

end Act

/-! ## Files -/

/-- A file holds a text if its bytes encode it. -/
def Disk.Holds (disk : Disk) (path text : String) : Prop := disk path = .ok text.toUTF8

/-- There is no text at a path: there are no bytes, or they encode none. -/
inductive Disk.Lacks (disk : Disk) (path : String) : FileFault → Prop
  | unread {fault : FileFault} (failed : disk path = .error fault) : Lacks disk path fault
  | notText {bytes : ByteArray} (read : disk path = .ok bytes)
      (garbled : ∀ text : String, bytes ≠ text.toUTF8) : Lacks disk path .notText

variable {disk : Disk} {path text : String} {bytes : ByteArray} {problem : Problem}

namespace RunOptions

variable {o : RunOptions} {base settings : Settings} {implementation tests : String}

/-- What the settings file says, or the settings of a run that names none. -/
inductive Configured (disk : Disk) (o : RunOptions) : Settings → Prop
  | unnamed (unnamed : o.settings = none) : Configured disk o {}
  | file {path text : String} {settings : Settings} (named : o.settings = some path)
      (held : disk.Holds path text) (valid : Settings.parse? text = some settings) :
      Configured disk o settings

/-- What keeps a run from starting. Nothing behind it is looked at. -/
inductive Stops (disk : Disk) (o : RunOptions) : Problem → Prop
  | settingsFile {path : String} {fault : FileFault} (named : o.settings = some path)
      (lacks : disk.Lacks path fault) : Stops disk o (.file path fault)
  | settings {path text : String} (named : o.settings = some path) (held : disk.Holds path text)
      (invalid : Settings.parse? text = none) : Stops disk o (.settings path)
  | implementation {base : Settings} {fault : FileFault} (configured : o.Configured disk base)
      (lacks : disk.Lacks o.implementation fault) : Stops disk o (.file o.implementation fault)
  | tests {base : Settings} {implementation : String} {fault : FileFault}
      (configured : o.Configured disk base) (held : disk.Holds o.implementation implementation)
      (lacks : disk.Lacks o.tests fault) : Stops disk o (.file o.tests fault)

/-- What a run reads before it does anything. -/
def inputs (files : Files) (o : RunOptions) : Except Problem (Settings × String × String) := do
  let settings ← o.runnerSettings files
  let implementation ← readFile files o.implementation
  let tests ← readFile files o.tests
  return (settings, implementation, tests)

end RunOptions

/-! ## Runs -/

/-- What is shown of a suite. -/
def shown (json : Bool) (suite : Suite) : String :=
  if json then suite.toJson.indented ++ "\n"
  else suite.report ++ "\n" ++ "status: " ++ suite.status.word ++ "\n"

/-- No file is longer than this in memory. -/
def Disk.Fits (disk : Disk) : Prop :=
  ∀ path bytes, disk path = .ok bytes → bytes.size < 2 ^ 63

end Kata.CommandLine
