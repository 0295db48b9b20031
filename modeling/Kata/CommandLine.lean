/-
# The command line

A command is read from its arguments and carried out against files that are given as a
function, so everything but the access to files and channels is decided here. What it
writes goes to an output that only grows; what was written before a problem stays there.
-/

import Kata.Desk
import Kata.Settings.Json

namespace Kata.CommandLine

/-- What `run` is asked to do. -/
structure RunOptions where
  implementation : String
  tests : String
  suite : Option String := none
  allAssertions : Bool := false
  json : Bool := false
  settings : Option String := none
  deriving DecidableEq, Repr

/-- What the program is asked to do. -/
inductive Command
  | run (options : RunOptions)
  | call (implementation function : String) (literals : List String)
  | reference
  | help
  | version
  deriving DecidableEq, Repr

/-- Why a file could not be read. -/
inductive FileFault
  | notFound
  | isDirectory
  /-- The path goes on behind something that is no directory. -/
  | notDirectory
  /-- The bytes are no UTF-8. -/
  | notText
  | other (message : String)
  deriving DecidableEq, Repr

/-- The wording of a file fault. -/
def FileFault.message : FileFault → String
  | .notFound => "No such file or directory (os error 2)"
  | .isDirectory => "Is a directory (os error 21)"
  | .notDirectory => "Not a directory (os error 20)"
  | .notText => "stream did not contain valid UTF-8"
  | .other message => message

/-- Mistakes in the arguments of a known command. -/
inductive Misuse
  | noCommand
  | unknownOption (flag : String)
  | noValue (flag : String)
  | runFiles
  | callArguments
  deriving DecidableEq, Repr

/-- The wording of a mistake. -/
def Misuse.message : Misuse → String
  | .noCommand => "Missing command"
  | .unknownOption flag => "Unknown option '" ++ flag ++ "'"
  | .noValue flag => "'" ++ flag ++ "' needs a value"
  | .runFiles => "'run' needs an implementation file and a test file"
  | .callArguments => "'call' needs an implementation file and a function name"

/-- Why a command was not carried out. -/
inductive Problem
  | misuse (misuse : Misuse)
  | unknownCommand (command : String)
  | file (path : String) (fault : FileFault)
  | settings (path : String)
  | literal (error : ReadError)
  | missing (error : MissingFunction)
  deriving DecidableEq, Repr

namespace Problem

/-- What the user is told. What is wrong with a settings file is told in the words of the reader
of JSON, which are left open here: a fixed phrase stands in their place. -/
def message : Problem → String
  | .misuse m => m.message
  | .unknownCommand command => "Unknown command '" ++ command ++ "'"
  | .file path fault => "Failed to read '" ++ path ++ "': " ++ fault.message
  | .settings path => "Invalid config '" ++ path ++ "': no runner settings"
  | .literal error => error.message
  | .missing error => error.message

/-- Whether the usage text would help. -/
def isUsage : Problem → Bool
  | .misuse _ | .unknownCommand _ => true
  | _ => false

end Problem

/-- How to use the program. -/
def usage : String := String.join (
  ["Pseudocode TDD runner", "", "Usage:",
    "  pseudo run <impl> <tests> [options]   Run a test script against an implementation",
    "      --suite <name>                    Suite name (default from config, else \"Default\")",
    "      --all-assertions                  Check every assertion line, not only the first",
    "      --json                            Print the suite as JSON",
    "      --config <file>                   Read runner settings from a JSON file",
    "  pseudo call <impl> <function> [literal...]",
    "                                        Call one function with literal arguments",
    "  pseudo reference                      Print the language reference",
    "  pseudo help                           Show this help message",
    "  pseudo version                        Show version information"].map (· ++ "\n"))

/-- What the arguments of `run` have said so far. -/
structure Gathered where
  files : List String := []
  suite : Option String := none
  allAssertions : Bool := false
  json : Bool := false
  settings : Option String := none

/-- Go through the arguments of `run`. Two options take the argument behind them,
whatever it looks like; said twice, the later counts. -/
def gather (seen : Gathered) : List String → Except Misuse Gathered
  | [] => .ok seen
  | "--suite" :: rest =>
    match rest with
    | value :: rest => gather { seen with suite := some value } rest
    | [] => .error (.noValue "--suite")
  | "--config" :: rest =>
    match rest with
    | value :: rest => gather { seen with settings := some value } rest
    | [] => .error (.noValue "--config")
  | "--all-assertions" :: rest => gather { seen with allAssertions := true } rest
  | "--json" :: rest => gather { seen with json := true } rest
  | arg :: rest =>
    if "--".toList.isPrefixOf arg.toList then .error (.unknownOption arg)
    else gather { seen with files := seen.files ++ [arg] } rest

/-- Read the arguments of `run`. -/
def RunOptions.read (args : List String) : Except Misuse RunOptions := do
  let seen ← gather {} args
  match seen.files with
  | [implementation, tests] =>
    return ⟨implementation, tests, seen.suite, seen.allAssertions, seen.json, seen.settings⟩
  | _ => .error .runFiles

/-- Read a command from its arguments. -/
def Command.read : List String → Except Problem Command
  | [] => .error (.misuse .noCommand)
  | name :: args =>
    if ["help", "--help", "-h"].contains name then .ok .help
    else if ["version", "--version", "-v"].contains name then .ok .version
    else if name = "reference" then .ok .reference
    else if name = "run" then
      match RunOptions.read args with
      | .ok options => .ok (.run options)
      | .error misuse => .error (.misuse misuse)
    else if name = "call" then
      match args with
      | implementation :: function :: literals => .ok (.call implementation function literals)
      | _ => .error (.misuse .callArguments)
    else .error (.unknownCommand name)

/-- The files that a command reads, in order. -/
def Command.paths : Command → List String
  | .run options => options.settings.toList ++ [options.implementation, options.tests]
  | .call implementation _ _ => [implementation]
  | _ => []

/-- How a command ends that was carried out. -/
inductive Outcome
  | success
  /-- The suite ran and is red. -/
  | testsFailed
  deriving DecidableEq, Repr

/-- The exit code of an outcome. -/
def Outcome.exitCode : Outcome → Nat
  | .success => 0
  | .testsFailed => 1

/-- The files that a command can see: the text at a path, or why there is none. -/
abbrev Files := String → Except FileFault String

/-- The files of a machine: the bytes at a path, or why there are none. -/
abbrev Disk := String → Except FileFault ByteArray

/-- The text that bytes encode. -/
def decode (bytes : ByteArray) : Except FileFault String :=
  match String.fromUTF8? bytes with
  | some text => .ok text
  | none => .error .notText

/-- The files of a machine as texts. -/
def Disk.files (disk : Disk) : Files := fun path => (disk path).bind decode

/-- Read a file. -/
def readFile (files : Files) (path : String) : Except Problem String :=
  (files path).mapError (.file path)

/-- The settings of a run: those of the file, with the options on top. -/
def RunOptions.runnerSettings (files : Files) (options : RunOptions) :
    Except Problem Settings := do
  let settings ← match options.settings with
    | none => pure {}
    | some path =>
      match Settings.parse? (← readFile files path) with
      | some settings => pure settings
      | none => .error (.settings path)
  return if options.allAssertions then { settings with mode := .all } else settings

/-- What a command does: it writes to the output, and it ends or meets a problem. -/
abbrev Act := ExceptT Problem (StateM String)

/-- Write a text to the output. -/
def write (text : String) : Act Unit := modify (· ++ text)

/-- Write a text and end the line. -/
def writeLine (text : String) : Act Unit := write (text ++ "\n")

/-- What is done, given what has been written so far. -/
def Act.perform {α : Type} (act : Act α) (before : String) : Except Problem α × String :=
  act.run.run before

/-- Write a suite for a reader or for a program. -/
def writeSuite (json : Bool) (suite : Suite) : Act Unit := do
  if json then writeLine suite.toJson.indented
  else
    writeLine suite.report
    writeLine ("status: " ++ suite.status.word)

/-- Run the tests under the name that the options give, or else the settings. -/
def RunOptions.runTests (options : RunOptions) (runner : Runner)
    (implementation tests : String) : Suite × Runner :=
  match options.suite with
  | some name => runner.run implementation tests name
  | none => runner.runDefault implementation tests

/-- Carry out `run`. -/
def RunOptions.execute (files : Files) (options : RunOptions) : Act Outcome := do
  let settings ← options.runnerSettings files
  let implementation ← readFile files options.implementation
  let tests ← readFile files options.tests
  let runner : Runner := { settings := settings }
  let (suite, _) := options.runTests runner implementation tests
  writeSuite options.json suite
  return if suite.status = .red then .testsFailed else .success

/-- Call one function of a program on literals. -/
def callFunction (files : Files) (implementation function : String) (literals : List String) :
    Except Problem Value := do
  let source ← readFile files implementation
  let args ← (literals.mapM fun text => Literal.read text.toList).mapError .literal
  ((Interpreter.empty.load source).2.call function args).1.mapError .missing

/-- Carry out a command. -/
def Command.execute (files : Files) : Command → Act Outcome
  | .run options => options.execute files
  | .call implementation function literals => do
    let value ← callFunction files implementation function literals
    writeLine value.display
    return .success
  | .reference => do
    write Reference.text
    return .success
  | .help => do
    write usage
    return .success
  | .version => do
    writeLine ("pseudo " ++ Kata.version)
    return .success

/-- What a whole run of the program leaves behind. -/
structure Transcript where
  exitCode : Nat
  output : String
  errors : String

/-- The transcript of a command, or of the attempt to read one. -/
def Transcript.ofCommand (files : Files) (command : Except Problem Command) : Transcript :=
  let act : Act Outcome := do (← command).execute files
  match act.perform "" with
  | (.ok outcome, output) => ⟨outcome.exitCode, output, ""⟩
  | (.error problem, output) =>
    ⟨1, output, "Error: " ++ problem.message ++ "\n" ++
      if problem.isUsage then "\n" ++ usage else ""⟩

end Kata.CommandLine
