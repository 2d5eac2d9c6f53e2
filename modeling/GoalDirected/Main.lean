import GoalDirected.CommandLine.Running

/-!
# The program

Reads the files and the variables that a command line asks for, carries it out, and writes its
report.
-/

namespace GoalDirected

section Defs

/-- The text of a file, if it can be read. -/
def readText? (name : String) : IO (Option String) := do
  try
    return some (← IO.FS.readFile name)
  catch _ =>
    return none

/-- The files among the given names that can be read. -/
def readFiles : List String → IO Files
  | [] => return []
  | name :: rest => do
      let files ← readFiles rest
      match ← readText? name with
      | some text => return (name, text) :: files
      | none => return files

/-- The variables among the given names that are set. -/
def readVariables : List String → IO Variables
  | [] => return []
  | name :: rest => do
      let environment ← readVariables rest
      match ← IO.getEnv name with
      | some value => return (name, value) :: environment
      | none => return environment

end Defs

end GoalDirected

open GoalDirected in
/-- Carries out a command line. -/
def main (words : List String) : IO UInt32 := do
  let files ← readFiles (CommandLine.wanted words)
  let environment ← readVariables Config.variableNames
  let report := CommandLine.perform words environment files
  IO.print report.output
  IO.eprint report.errors
  return UInt32.ofNat report.code
