import GoalDirected.Callable
import GoalDirected.CommandLine.Reading
import GoalDirected.CommandLine.Running
import GoalDirected.CommandLine.Usage
import GoalDirected.Config.Basic
import GoalDirected.Config.EnvironmentFile
import GoalDirected.Config.Ini
import GoalDirected.Config.Json5
import GoalDirected.Config.Ron
import GoalDirected.Config.Setting
import GoalDirected.Config.Toml
import GoalDirected.Config.Tree
import GoalDirected.Config.Yaml
import GoalDirected.Decimal.Binary
import GoalDirected.Decimal.Positional
import GoalDirected.Decimal.Reading
import GoalDirected.Decimal.Scaled
import GoalDirected.Decimal.Shortest
import GoalDirected.Fault
import GoalDirected.Ir.Instruction
import GoalDirected.Ir.Linking
import GoalDirected.Ir.Program
import GoalDirected.Ir.Reading
import GoalDirected.Ir.Writing
import GoalDirected.Json.Basic
import GoalDirected.Json.Printer
import GoalDirected.Json.Reader
import GoalDirected.Machine.Activation
import GoalDirected.Machine.Basic
import GoalDirected.Machine.Drain
import GoalDirected.Machine.Execution
import GoalDirected.Machine.Producer
import GoalDirected.Main
import GoalDirected.Number
import GoalDirected.Outcome
import GoalDirected.Primitive.Library
import GoalDirected.Primitive.Operator
import GoalDirected.Primitive.Select
import GoalDirected.Program.Basic
import GoalDirected.Program.Schedule
import GoalDirected.Store.Basic
import GoalDirected.Store.Bindings
import GoalDirected.Store.Channel
import GoalDirected.Store.Dynamics
import GoalDirected.Store.Frame
import GoalDirected.Store.Globals
import GoalDirected.Text.Blank
import GoalDirected.Text.Hidden
import GoalDirected.Text.Quoted
import GoalDirected.Value
import GoalDirected.Proofs.Schedule.Order
import GoalDirected.Proofs.Machine.Activity
import GoalDirected.Proofs.Machine.Execution
import GoalDirected.Proofs.Machine.Slots
import GoalDirected.Proofs.Machine.Replies
import GoalDirected.Proofs.Machine.Session
import GoalDirected.Proofs.Linkage.Fits
import GoalDirected.Proofs.Linkage.Runs
import GoalDirected.Proofs.Coexpression.Law
import GoalDirected.Proofs.Coexpression.Separation
import GoalDirected.Proofs.Coexpression.Observation
import GoalDirected.Proofs.Coexpression.Coupling
import GoalDirected.Proofs.Coexpression.Delivery
import GoalDirected.Proofs.Select.Choice
import GoalDirected.Proofs.Program.Course
import GoalDirected.Proofs.Store.Changes
import GoalDirected.Proofs.Store.Variables
import GoalDirected.Proofs.Store.Answers
import GoalDirected.Proofs.Machine.Handling
import GoalDirected.Proofs.Program.Linking
import GoalDirected.Proofs.Program.Flatness
import GoalDirected.Proofs.Machine.Layout
import GoalDirected.Proofs.Machine.Growth
import GoalDirected.Proofs.Coexpression.Storage
import GoalDirected.Proofs.Program.Custody
import GoalDirected.Proofs.Machine.Unwinding
import GoalDirected.Proofs.Machine.Discipline
import GoalDirected.Proofs.Program.Recovery
import GoalDirected.Proofs.Channel.Conservation
import GoalDirected.Proofs.Coexpression.Shifts
import GoalDirected.Proofs.Coexpression.Pool
import GoalDirected.Proofs.Machine.Scene
import GoalDirected.Proofs.Coexpression.Tasks
import GoalDirected.Proofs.Coexpression.Interleaving
import GoalDirected.Proofs.Machine.Scopes
import GoalDirected.Proofs.Program.Dependencies
import GoalDirected.Proofs.Machine.Repertoire
import GoalDirected.Proofs.Machine.References
import GoalDirected.Proofs.Program.Confinement
import GoalDirected.Proofs.Store.Arguments
import GoalDirected.Proofs.Store.Registry
import GoalDirected.Proofs.Schedule.Declaration
import GoalDirected.Proofs.Store.Environments
import GoalDirected.Proofs.Store.Frames
import GoalDirected.Proofs.Ir.RoundTrip
import GoalDirected.Proofs.Store.Likeness
import GoalDirected.Proofs.Machine.Twins
import GoalDirected.Proofs.Machine.Lockstep
import GoalDirected.Proofs.Program.Seclusion
import GoalDirected.Proofs.Program.Independence
import GoalDirected.Proofs.Machine.Rotation
import GoalDirected.Proofs.Select.Fairness
import GoalDirected.Proofs.Program.Initialization
import GoalDirected.Proofs.Machine.Bystanders
import GoalDirected.Proofs.Program.Draining
import GoalDirected.Proofs.Store.Constructors
import GoalDirected.Proofs.Sequence.Positions
import GoalDirected.Proofs.Sequence.Elements
import GoalDirected.Proofs.Sequence.Slices
import GoalDirected.Proofs.Machine.Duplication
import GoalDirected.Proofs.Store.Dereferencing
import GoalDirected.Proofs.Operator.Dispatch
import GoalDirected.Proofs.Operator.Operands
import GoalDirected.Proofs.Coexpression.Forwarding
import GoalDirected.Proofs.Operator.Errors
