import GoalDirected.CommandLine.Reading
import GoalDirected.Config.Basic
import GoalDirected.Ir.Reading
import GoalDirected.Program.Basic

/-!
# Carrying out a command line

**Input.** The words of a command line, the variables of the environment, and the files that can be
read.

**Algorithm.** Variables are completed from the environment file before anything else. Then the
command line is read, the configuration is loaded, the program is read and linked, and its globals
are initialized before its `main` is called.

**Results.** `perform` is what the process writes, and the code that it ends with.
-/

namespace GoalDirected
namespace CommandLine

section Defs

/-- What a process writes, and the code that it ends with. -/
structure Report where
  code : Nat
  output : String := ""
  errors : String := ""
deriving DecidableEq

/-- Help that was asked for is output; everything else is an error. -/
def Usage.report : Usage → Report
  | .help topic => { code := 0, output := topic.text }
  | u => { code := 2, errors := u.message }

/-- The report on something that failed before the program was linked. -/
def failure (message : String) : Report :=
  { code := 1, errors := "Error: " ++ message ++ "\n" }

def Command.path : Command → String
  | .run program _ => program
  | .order program => program

/-- The code of a process that could not make a queue. -/
def abortCode : Nat := 101

/-- The report on a program that came to an end. A process ends with the low eight bits of the code
that its program asks for. -/
def stopReport (config : Config) (p : Program) : Machine.Stop → Report
  | .raised r =>
      if p.store.areShown r.fault.offending then
        { code := r.fault.exitCode
          output := p.store.output
          errors := p.store.report r config.tracebackLimit ++ "\n" }
      else { code := Halt.overflowCode, output := p.store.output, errors := "the stack is used up\n" }
  | .halted (.exit code) => { code := (code % 256).toNat, output := p.store.output }
  | .halted .impossibleQueue =>
      { code := abortCode, output := p.store.output, errors := "the queue is too large\n" }
  | .halted .blocked =>
      { code := abortCode, output := p.store.output, errors := "nothing can go on\n" }

/-- Links a program, initializes its globals and calls its `main`. -/
def runReport (config : Config) (ir : Ir.Program) (args : List String) : Report :=
  match (Program.new config.maxTasks).link ir with
  | (.error m, p) => stopReport config p (.raised ⟨.malfunction m, []⟩)
  | (.ok _, p) =>
      match p.runInitializers with
      | (.error stop, p) => stopReport config p stop
      | (.ok _, p) =>
          match p.runMain args with
          | (.error stop, p) => stopReport config p stop
          | (.ok _, p) => { code := 0, output := p.store.output }

/-- Links a program and lists its globals in the order of initialization. -/
def orderReport (config : Config) (ir : Ir.Program) : Report :=
  match (Program.new config.maxTasks).link ir with
  | (.error m, p) => stopReport config p (.raised ⟨.malfunction m, []⟩)
  | (.ok _, p) =>
      match p.initializationOrder with
      | .error f => stopReport config p (.raised ⟨f, []⟩)
      | .ok names => { code := 0, output := unlines names }

/-- Carries out a command under a configuration. -/
def Command.perform (config : Config) (files : Files) (c : Command) : Report :=
  match files.lookup c.path with
  | none => failure ("Failed to read " ++ c.path)
  | some text =>
      match Ir.Program.parse? text with
      | none => failure ("Invalid program IR in " ++ c.path)
      | some ir =>
          match c with
          | .run _ args => runReport config ir args
          | .order _ => orderReport config ir

/-- The configuration of an invocation. -/
def Invocation.config (i : Invocation) (environment : Variables) (files : Files) :
    Except Config.Error Config :=
  Config.load environment files i.options.configFile i.options.queueCapacity

/-! ## Processes -/

/-- The file with variables that are not set. -/
def variableFile : String := ".env"

/-- The files that a command line may read. -/
def wanted (words : List String) : List String :=
  match read words with
  | .error _ => [variableFile]
  | .ok i =>
      variableFile :: i.command.path ::
        Config.candidates (i.options.configFile.getD Config.defaultFile)

/-- The variables after the environment file has been read. -/
def completed (environment : Variables) (files : Files) : Variables :=
  match files.lookup variableFile with
  | some text => EnvironmentFile.load environment text
  | none => environment

/-- Carries out a command line. -/
def perform (words : List String) (environment : Variables) (files : Files) : Report :=
  match read words with
  | .error u => u.report
  | .ok i =>
      match i.config (completed environment files) files with
      | .error e => failure e.message
      | .ok config => i.command.perform config files

end Defs

end CommandLine
end GoalDirected
