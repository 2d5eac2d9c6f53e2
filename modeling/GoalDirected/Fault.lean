import GoalDirected.Value

/-!
# Faults

**Results.** Two kinds of error exist. An exception is an error of the program that runs, which a
recovery procedure may catch; it has a cause and offending values. A malfunction is a broken
invariant of the machinery and is never caught. `Cause.message` and `Malfunction.message` hold all
wording. A `Raised` fault carries one trace entry for each activation that it has left, innermost
first.
-/

namespace GoalDirected

section Defs

/-- Why an exception arose. -/
inductive Cause where
  | numberExpected
  | textExpected
  | variableExpected
  | procedureExpected
  | recordExpected
  | channelExpected
  | coexpressionExpected
  | divisionByZero
  | notIndexable
  | notSliceable
  | noSize
  | noElements
  | noParameter (procedure name : String)
  | noField (record name : String)
  | noKeywords (procedure : String)
  | tooManyProducers (active limit : Nat)
  | sendOnClosed
  | listTooLarge
  | textTooLarge
  | negativeRoot
  | negativeRepeat
  | circular (names : List String)
  /-- A value thrown by the program, with its text at the time. -/
  | thrown (value : Value) (text : String)

namespace Cause

def message : Cause → String
  | .numberExpected => "numeric value expected"
  | .textExpected => "string value expected"
  | .variableExpected => "variable expected"
  | .procedureExpected => "procedure expected"
  | .recordExpected => "record expected"
  | .channelExpected => "channel expected"
  | .coexpressionExpected => "co-expression expected"
  | .divisionByZero => "division by zero"
  | .notIndexable => "cannot index value"
  | .notSliceable => "cannot slice value"
  | .noSize => "size of value not defined"
  | .noElements => "cannot generate elements of value"
  | .noParameter procedure name => procedure ++ " has no parameter named " ++ name
  | .noField record name => "record " ++ record ++ " has no field " ++ name
  | .noKeywords procedure => procedure ++ " does not accept keyword arguments"
  | .tooManyProducers active limit =>
      "too many live co-expressions (" ++ toString active ++ " of " ++ toString limit ++ ")"
  | .sendOnClosed => "send on closed channel"
  | .listTooLarge => "list size too large"
  | .textTooLarge => "string size too large"
  | .negativeRoot => "square root of negative number"
  | .negativeRepeat => "negative repeat count"
  | .circular names => "circular dependency among initializers: " ++ ", ".intercalate names
  | .thrown _ text => text

/-- The value that a recovery procedure gets for a cause: what was thrown, or else the message. -/
def value : Cause → Value
  | .thrown value _ => value
  | cause => .text cause.message

end Cause

/-- Why a malfunction arose. `place` is the qualified name of the procedure concerned. -/
inductive Malfunction where
  | noOperator (name : String) (arity : Nat)
  | slotOutOfRange (slot size : Nat) (place : String)
  | noValueInSlot (slot : Nat) (place : String)
  | noContinuationInSlot (slot : Nat) (place : String)
  | noLabelInSlot (slot : Nat) (place : String)
  | unresolvedName (name place : String)
  | wrongScope (scope innermost place : String)
  | noOpenScope (scope place : String)
  | duplicateLabel (label place : String)
  | noEntry (entry place : String)
  | undeclaredLabel (chunk place label : String)
  | slotBeyondTemps (chunk place : String) (slot temps : Nat)
  | noChunk (label place : String)
  | fellOffEnd (label place : String)
  | jumpOutside (label place : String)
  | produceOutside
  | exhaustOutside
  | tooManyNames (place : String) (names args : Nat)
  | duplicateDeclaration (qualified : String)
  | unassignedDynamic (name : String)
  | undeclaredDynamic (name : String)
  | noMain
  | mainNotProcedure

namespace Malfunction

def message : Malfunction → String
  | .noOperator name arity => "no operator " ++ name ++ " of arity " ++ toString arity
  | .slotOutOfRange slot size place =>
      "slot " ++ toString slot ++ " out of range (" ++ toString size ++ ") in " ++ place
  | .noValueInSlot slot place => "slot " ++ toString slot ++ " holds no value in " ++ place
  | .noContinuationInSlot slot place =>
      "slot " ++ toString slot ++ " holds no continuation in " ++ place
  | .noLabelInSlot slot place => "slot " ++ toString slot ++ " holds no label in " ++ place
  | .unresolvedName name place => "unresolved name " ++ name ++ " in " ++ place
  | .wrongScope scope innermost place =>
      "exit from scope " ++ scope ++ " while " ++ innermost ++ " is innermost in " ++ place
  | .noOpenScope scope place =>
      "exit from scope " ++ scope ++ " with no open scope in " ++ place
  | .duplicateLabel label place => "duplicate chunk label " ++ label ++ " in " ++ place
  | .noEntry entry place => "entry label " ++ entry ++ " not declared in " ++ place
  | .undeclaredLabel chunk place label =>
      "chunk " ++ chunk ++ " of " ++ place ++ " refers to undeclared label " ++ label
  | .slotBeyondTemps chunk place slot temps =>
      "chunk " ++ chunk ++ " of " ++ place ++ " uses slot " ++ toString slot ++ " of "
        ++ toString temps
  | .noChunk label place => "no chunk " ++ label ++ " in " ++ place
  | .fellOffEnd label place => "fell off the end of chunk " ++ label ++ " in " ++ place
  | .jumpOutside label place =>
      "indirect goto to " ++ label ++ " outside its target set in " ++ place
  | .produceOutside => "co-expression return outside a co-expression"
  | .exhaustOutside => "co-expression failure outside a co-expression"
  | .tooManyNames place names args =>
      "call to " ++ place ++ " names " ++ toString names ++ " arguments but passes "
        ++ toString args
  | .duplicateDeclaration qualified => "duplicate declaration of " ++ qualified
  | .unassignedDynamic name => "dynamic variable %" ++ name ++ " used before assignment"
  | .undeclaredDynamic name => "dynamic variable %" ++ name ++ " is not declared"
  | .noMain => "no procedure main"
  | .mainNotProcedure => "main is not a procedure"

end Malfunction

inductive Fault where
  | exception (cause : Cause) (offending : List Value)
  | malfunction (reason : Malfunction)

namespace Fault

def message : Fault → String
  | .exception cause _ => cause.message
  | .malfunction reason => reason.message

def isMalfunction : Fault → Bool
  | .exception _ _ => false
  | .malfunction _ => true

/-- The values that a fault complains about. -/
def offending : Fault → List Value
  | .exception _ offending => offending
  | .malfunction _ => []

/-- The exit code of a process that ends with the fault. -/
def exitCode : Fault → Nat
  | .exception _ _ => 1
  | .malfunction _ => 2

end Fault

/-- An activation that a fault has left, in the words of a report. -/
structure TraceEntry where
  procedure : String
  args : List String
  coord : String
  offender : Option String
deriving DecidableEq

/-- One line of a traceback. -/
def TraceEntry.line (t : TraceEntry) : String :=
  let place := if t.coord = "" then "" else " at " ++ t.coord
  let offender := match t.offender with
    | some image => " [offending " ++ image ++ "]"
    | none => ""
  t.procedure ++ "(" ++ ", ".intercalate t.args ++ ")" ++ place ++ offender

/-- A fault on its way out of nested activations. -/
structure Raised where
  fault : Fault
  trace : List TraceEntry := []

/-- Notes that the fault leaves one more activation. -/
def Raised.leave (r : Raised) (entry : TraceEntry) : Raised :=
  { r with trace := r.trace ++ [entry] }

end Defs

end GoalDirected
