import CallDecoration.Bytecode.Assembly
import CallDecoration.Bytecode.Builder
import CallDecoration.Bytecode.CallShape
import CallDecoration.Bytecode.Chunk
import CallDecoration.Bytecode.Codec
import CallDecoration.Bytecode.Instruction
import CallDecoration.Bytecode.Opcode
import CallDecoration.CommandLine.Demo
import CallDecoration.CommandLine.Program
import CallDecoration.Decoration.Adapter
import CallDecoration.Decoration.Decorate
import CallDecoration.Decoration.History
import CallDecoration.Decoration.Registry
import CallDecoration.Dict
import CallDecoration.Error
import CallDecoration.Function.Binding
import CallDecoration.Function.Listing
import CallDecoration.Host.Routine
import CallDecoration.Instrumentation.Expansion
import CallDecoration.Instrumentation.Pass
import CallDecoration.Machine.Action
import CallDecoration.Machine.Basic
import CallDecoration.Machine.Execute
import CallDecoration.Machine.Operands
import CallDecoration.Machine.Operator
import CallDecoration.Machine.Step
import CallDecoration.Machine.World
import CallDecoration.Main
import CallDecoration.Proofs.Machine.Nesting
import CallDecoration.Proofs.Machine.Operations
import CallDecoration.Proofs.Machine.Runs
import CallDecoration.Proofs.Machine.Watching
import CallDecoration.Proofs.Bytecode.Bodies
import CallDecoration.Proofs.Bytecode.Building
import CallDecoration.Proofs.Bytecode.BuiltCode
import CallDecoration.Proofs.Bytecode.ConstantPool
import CallDecoration.Proofs.Bytecode.Encoding
import CallDecoration.Proofs.Bytecode.RoundTrip
import CallDecoration.Proofs.Decoration.Copies
import CallDecoration.Proofs.Decoration.Decorating
import CallDecoration.Proofs.Decoration.Expansion
import CallDecoration.Proofs.Decoration.Failing
import CallDecoration.Proofs.Decoration.Fidelity
import CallDecoration.Proofs.Decoration.Mirroring
import CallDecoration.Proofs.Decoration.Growth
import CallDecoration.Proofs.Decoration.HandOver
import CallDecoration.Proofs.Decoration.Hygiene
import CallDecoration.Proofs.Decoration.Inheritance
import CallDecoration.Proofs.Decoration.Chains
import CallDecoration.Proofs.Decoration.Programs
import CallDecoration.Proofs.Decoration.CallLog
import CallDecoration.Proofs.Decoration.Registries
import CallDecoration.Proofs.Decoration.Resolution
import CallDecoration.Proofs.Decoration.Stretches
import CallDecoration.Proofs.Decoration.CallTree
import CallDecoration.Proofs.Decoration.Stacking
import CallDecoration.Proofs.Instrumentation.Layers
import CallDecoration.Proofs.Machine.Deep
import CallDecoration.Proofs.Decoration.Transparency
import CallDecoration.Proofs.Function.Binding
import CallDecoration.Proofs.Function.Convention
import CallDecoration.Proofs.Function.Listing
import CallDecoration.Proofs.Function.Parameters
import CallDecoration.Proofs.Instrumentation.Acceptance
import CallDecoration.Proofs.Instrumentation.Images
import CallDecoration.Proofs.Instrumentation.Layout
import CallDecoration.Proofs.Instrumentation.Marks
import CallDecoration.Proofs.Instrumentation.Relocation
import CallDecoration.Proofs.Instrumentation.Rounds
import CallDecoration.Proofs.Machine.CallOperands
import CallDecoration.Proofs.Machine.Effects
import CallDecoration.Proofs.Machine.Errors
import CallDecoration.Proofs.Machine.HigherLimits
import CallDecoration.Proofs.Machine.Instructions
import CallDecoration.Proofs.Machine.Isolation
import CallDecoration.Proofs.Machine.Limits
import CallDecoration.Proofs.Machine.Moves
import CallDecoration.Proofs.Machine.Returning
import CallDecoration.Proofs.Machine.Stepping
import CallDecoration.Proofs.Machine.Suspension
import CallDecoration.Proofs.Machine.TwoWays
import CallDecoration.Proofs.Text.Reading
import CallDecoration.Proofs.Value.Display
import CallDecoration.Proofs.Value.Equality
import CallDecoration.Settings
import CallDecoration.Settings.File
import CallDecoration.Signature
import CallDecoration.Stack
import CallDecoration.Text.Hex
import CallDecoration.Text.Integer
import CallDecoration.Text.Printable
import CallDecoration.Text.Quoted
import CallDecoration.Text.Ranges
import CallDecoration.Text.WhiteSpace
import CallDecoration.Value.Basic
import CallDecoration.Value.Construct
import CallDecoration.Value.Display
import CallDecoration.Value.Equality
import CallDecoration.Proofs.Machine.Operators
import CallDecoration.Proofs.Value.Comparison
import CallDecoration.Proofs.Value.Construct
import CallDecoration.Proofs.CommandLine.Demonstration
