/-!
# Usage

**Results.** `Usage` lists what a command line can be answered with instead of being carried out,
and the texts of help.
-/

namespace GoalDirected
namespace CommandLine

section Defs

/-- What help is about. -/
inductive Topic where
  | overview
  | run
  | order
  | help
deriving DecidableEq

/-- Why a command line is not carried out. -/
inductive Usage where
  /-- It asks for help. -/
  | help (topic : Topic)
  /-- It is empty. -/
  | nothingGiven
  | missingCommand
  | unknownCommand
  | unknownArgument
  | missingProgram
  /-- An option has no value, or a path is empty. -/
  | missingValue
  | malformedNumber
  | repeatedOption
  /-- Something that takes no value has one. -/
  | unexpectedValue
deriving DecidableEq

/-! ## Help -/

/-- The options that every command takes. -/
def optionLines : List String :=
  [ "Options:",
    "      --config <CONFIG>                  Path to config file (overrides default search)",
    "      --queue-capacity <QUEUE_CAPACITY>  Co-expression result queue capacity (overrides config)",
    "  -h, --help                             Print help" ]

/-- The lines of help on a topic. -/
def Topic.lines : Topic → List String
  | .overview =>
      [ "goalvm - execution core for goal-directed programs",
        "",
        "Usage: goalvm [OPTIONS] <COMMAND>",
        "",
        "Commands:",
        "  run    Link, initialize and run a program",
        "  order  Print the global initialization order of a program",
        "  help   Print this message or the help of the given subcommand(s)",
        "" ] ++ optionLines
  | .run =>
      [ "Link, initialize and run a program",
        "",
        "Usage: goalvm run [OPTIONS] <PROGRAM> [ARGS]...",
        "",
        "Arguments:",
        "  <PROGRAM>  Program IR (JSON)",
        "  [ARGS]...  Arguments passed to main",
        "" ] ++ optionLines
  | .order =>
      [ "Print the global initialization order of a program",
        "",
        "Usage: goalvm order [OPTIONS] <PROGRAM>",
        "",
        "Arguments:",
        "  <PROGRAM>  Program IR (JSON)",
        "" ] ++ optionLines
  | .help =>
      [ "Print this message or the help of the given subcommand(s)",
        "",
        "Usage: goalvm help [COMMAND]...",
        "",
        "Arguments:",
        "  [COMMAND]...  Print help for the subcommand(s)" ]

/-- The text of lines, each with its line break. -/
def unlines (lines : List String) : String :=
  String.join (lines.map fun line => line ++ "\n")

def Topic.text (t : Topic) : String :=
  unlines t.lines

/-- What is wrong with a command line. -/
def Usage.message : Usage → String
  | .help t => t.text
  | .nothingGiven => Topic.overview.text
  | .missingCommand => "error: a command is required\n"
  | .unknownCommand => "error: there is no such command\n"
  | .unknownArgument => "error: there is an argument that is not expected\n"
  | .missingProgram => "error: a program is required\n"
  | .missingValue => "error: a value is required\n"
  | .malformedNumber => "error: a number is malformed\n"
  | .repeatedOption => "error: an option is given more than once\n"
  | .unexpectedValue => "error: an option does not take a value\n"

end Defs

end CommandLine
end GoalDirected
