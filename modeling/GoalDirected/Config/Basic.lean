import GoalDirected.Config.EnvironmentFile
import GoalDirected.Config.Ini
import GoalDirected.Config.Json5
import GoalDirected.Config.Ron
import GoalDirected.Config.Setting
import GoalDirected.Config.Yaml
import GoalDirected.Json.Reader

/-!
# Configuration

**Input.** The variables of the environment, the files that can be read, an optional path of a
configuration file, and an optional capacity of result queues.

**Algorithm.** Four layers, each of which hides the ones before it: the defaults, a file, the
variables with the name of the program in front, and the capacity given by the caller. A file that
was asked for has to be there.

**Results.** `Config.load` is the configuration; queues have room for at least one value, and at
least one co-expression may be live.
-/

namespace GoalDirected

section Defs

/-- Files that can be read: their names with their texts. -/
abbrev Files := List (String × String)

structure Config where
  /-- Which events are logged. -/
  logFilter : String := "warn"
  /-- The capacity of the result queue of a co-expression. -/
  queueCapacity : Nat := 1
  /-- The number of co-expressions that may be live at a time. -/
  maxTasks : Nat := 512
  /-- The number of activations that a report lists. -/
  tracebackLimit : Nat := 32
deriving DecidableEq

namespace Config

/-- Why there is no configuration. -/
inductive Error where
  /-- The file is not there, or is not a document of its format. -/
  | unreadable
  /-- A setting has no meaning for its option. -/
  | invalid
deriving DecidableEq

def Error.message : Error → String
  | .unreadable => "Failed to load configuration"
  | .invalid => "Invalid configuration"

/-! ## Files -/

/-- The formats of configuration files. -/
inductive Format where
  | toml
  | json
  | yaml
  | ini
  | ron
  | json5
deriving DecidableEq

/-- The extensions of configuration files with their formats. -/
def formats : List (String × Format) :=
  [("toml", .toml), ("json", .json), ("yaml", .yaml), ("yml", .yaml), ("ini", .ini), ("ron", .ron),
    ("json5", .json5)]

/-- The extension of the last component of a path; a name has to stand in front of it. -/
def extension? (path : String) : Option String :=
  let name := path.toList.reverse.takeWhile (· != '/')
  let reversed := name.takeWhile (· != '.')
  match name.drop reversed.length with
  | '.' :: _ :: _ => some (.ofList reversed.reverse)
  | _ => none

/-- The format of a file by its extension. -/
def Format.ofPath? (path : String) : Option Format :=
  (extension? path).bind fun e => formats.lookup e

/-- The file that is looked for if no other is asked for. -/
def defaultFile : String := "goalvm.toml"

/-- The components of a path, the last one first, without those at its end that lead nowhere. -/
def components (path : String) : List String :=
  (path.splitOn "/").reverse.dropWhile fun c => c == "" || c == "."

/-- The files that a path may stand for: itself, or its last component with an extension. -/
def candidates (path : String) : List String :=
  match components path with
  | [] => [path]
  | ".." :: _ => [path]
  | parts =>
      let stem := "/".intercalate parts.reverse
      path :: formats.map fun (extension, _) => stem ++ "." ++ extension

/-- The settings of a document. -/
def Format.parse? (f : Format) (text : String) : Option (List (String × Option Setting)) :=
  let ofTrees (entries : List (String × Tree)) : List (String × Option Setting) :=
    entries.map fun (name, t) => (name, Setting.ofTree? t)
  match f with
  | .toml =>
      (Toml.parse? text).map fun entries => entries.map fun (name, v) => (name, Setting.ofToml? v)
  | .json =>
      match Json.parseMeaningful? text with
      | some (.object members) =>
          some ((Tree.lastEntries members).map fun (name, v) => (name, Setting.ofJson? v))
      | _ => none
  | .yaml => (Yaml.parse? text).map ofTrees
  | .ini => (Ini.parse? text).map ofTrees
  | .ron => (Ron.parse? text).map ofTrees
  | .json5 => (Json5.parse? text).map ofTrees

/-- A text without the mark of its encoding. -/
def unmarked (text : String) : String :=
  match text.toList with
  | '\ufeff' :: rest => .ofList rest
  | _ => text

/-- The settings of a file, if it is there. -/
def readFile (files : Files) (path : String) :
    Except Error (Option (List (String × Option Setting))) :=
  match (candidates path).find? fun name => (files.lookup name).isSome with
  | none => .ok none
  | some name =>
      match (Format.ofPath? name).bind fun f => (files.lookup name).bind fun text => f.parse? (unmarked text) with
      | some settings => .ok (some settings)
      | none => .error .unreadable

/-- The layer of the configuration file. -/
def fileLayer (files : Files) (path : Option String) :
    Except Error (List (String × Option Setting)) :=
  match readFile files (path.getD defaultFile), path with
  | .error e, _ => .error e
  | .ok (some settings), _ => .ok settings
  | .ok none, some _ => .error .unreadable
  | .ok none, none => .ok []

/-! ## Variables -/

/-- What stands in front of the name of a setting in the environment. -/
def variableMark : List Char := "goalvm_".toList

/-- The names of the options. -/
def optionNames : List String :=
  ["log_filter", "queue_capacity", "max_tasks", "traceback_limit"]

/-- The variables that set options, in the two usual spellings. -/
def variableNames : List String :=
  let names := optionNames.map fun name => String.ofList variableMark ++ name
  names.map String.toUpper ++ names

/-- The layer of the environment. -/
def variableLayer : Variables → List (String × Option Setting)
  | [] => []
  | (name, v) :: rest =>
      let cs := (Settings.lower name).toList
      if variableMark.isPrefixOf cs then
        (.ofList (cs.drop variableMark.length), some (Setting.ofVariable v)) :: variableLayer rest
      else variableLayer rest

/-! ## Options -/

/-- The value of an option: its default, unless it is set. -/
def option {α : Type} (settings : Settings) (name : String) (convert? : Setting → Option α)
    (default : α) : Except Error α :=
  match settings.lookup name with
  | none => .ok default
  | some v =>
      match convert? v with
      | some a => .ok a
      | none => .error .invalid

/-- The configuration of settings. -/
def ofSettings (settings : Settings) : Except Error Config := do
  let defaults : Config := {}
  let logFilter ← option settings "log_filter" Setting.toText? defaults.logFilter
  let queueCapacity ← option settings "queue_capacity" Setting.toCount? defaults.queueCapacity
  let maxTasks ← option settings "max_tasks" Setting.toCount? defaults.maxTasks
  let tracebackLimit ← option settings "traceback_limit" Setting.toCount? defaults.tracebackLimit
  return {
    logFilter
    queueCapacity := max 1 queueCapacity
    maxTasks := max 1 maxTasks
    tracebackLimit }

/-- The layer of the caller. -/
def overrideLayer : Option Nat → List (String × Option Setting)
  | none => []
  | some n => [("queue_capacity", some (.integer n))]

/-- The configuration of all layers. -/
def load (environment : Variables) (files : Files) (path : Option String) (capacity : Option Nat) :
    Except Error Config := do
  let file ← fileLayer files path
  ofSettings (Settings.assignAll [] (file ++ variableLayer environment ++ overrideLayer capacity))

end Config

end Defs

end GoalDirected
