import RegisterMachine.Main
import RegisterMachine.Proofs.Machine.Memory
import RegisterMachine.Proofs.Machine.Register
import RegisterMachine.Proofs.Machine.Handler
import RegisterMachine.Proofs.Machine.Stack
import RegisterMachine.Proofs.Machine.Failure
import RegisterMachine.Proofs.Machine.Bookkeeping
import RegisterMachine.Proofs.Machine.Fetch
import RegisterMachine.Proofs.Machine.Attempt
import RegisterMachine.Proofs.Machine.Run
import RegisterMachine.Proofs.Machine.Output
import RegisterMachine.Proofs.Machine.FailedStep
import RegisterMachine.Proofs.Machine.StackAccess
import RegisterMachine.Proofs.Machine.Assignment
import RegisterMachine.Proofs.Machine.WordStack
import RegisterMachine.Proofs.Machine.Frame
import RegisterMachine.Proofs.Machine.Image
import RegisterMachine.Proofs.Machine.StackRun
import RegisterMachine.Proofs.Machine.Heap
import RegisterMachine.Proofs.Machine.Session
import RegisterMachine.Proofs.Consecutive
import RegisterMachine.Proofs.Machine.Allocation
import RegisterMachine.Proofs.Machine.Contents
import RegisterMachine.Proofs.Machine.Status
import RegisterMachine.Proofs.Machine.Walk
import RegisterMachine.Proofs.Machine.Fuel
import RegisterMachine.Proofs.Isa.Opcode
import RegisterMachine.Proofs.Instruction.Codec
import RegisterMachine.Proofs.Instruction.Canonical
import RegisterMachine.Proofs.Instruction.Faithful
import RegisterMachine.Proofs.Container.Codec
import RegisterMachine.Proofs.Layout.Address
import RegisterMachine.Proofs.Layout.Placement
import RegisterMachine.Proofs.Layout.Code
import RegisterMachine.Proofs.Source.Outline
import RegisterMachine.Proofs.Source.Kinds
import RegisterMachine.Proofs.Source.Names
import RegisterMachine.Proofs.Source.Spelling
import RegisterMachine.Proofs.Source.Grammar
import RegisterMachine.Proofs.Source.Split
import RegisterMachine.Proofs.Source.Acceptance
import RegisterMachine.Proofs.Source.Scanning
import RegisterMachine.Proofs.Source.Alike
import RegisterMachine.Proofs.Source.Lexing
import RegisterMachine.Proofs.Source.Composition
import RegisterMachine.Proofs.Source.Wording
import RegisterMachine.Proofs.Source.Written
import RegisterMachine.Proofs.Source.Rows
import RegisterMachine.Proofs.Source.RoundTrip
import RegisterMachine.Proofs.Simulation.Statement
import RegisterMachine.Proofs.Simulation.Execution
import RegisterMachine.Proofs.Simulation.Lowering
import RegisterMachine.Proofs.Simulation.Lockstep
import RegisterMachine.Proofs.Machine.Loading
import RegisterMachine.Proofs.Container.Serialization
import RegisterMachine.Proofs.Layout.Alignment
import RegisterMachine.Proofs.Simulation.Effect
import RegisterMachine.Proofs.Simulation.Faults
import RegisterMachine.Proofs.Layout.Conditions
import RegisterMachine.Proofs.Layout.Sizes
import RegisterMachine.Proofs.Layout.FirstFault
import RegisterMachine.Proofs.Layout.Checks
import RegisterMachine.Proofs.Layout.Entry
import RegisterMachine.Proofs.Layout.Contents
import RegisterMachine.Proofs.Assembler.Emission
import RegisterMachine.Proofs.Assembler.Bindings
import RegisterMachine.Proofs.Assembler.Loadable
import RegisterMachine.Proofs.Assembler.Constants
import RegisterMachine.Proofs.Reports
import RegisterMachine.Proofs.Machine.Guard
import RegisterMachine.Proofs.Source.Reporting
import RegisterMachine.Proofs.Source.Boundary
import RegisterMachine.Proofs.Assembler.Capacity
import RegisterMachine.Proofs.Layout.Values
import RegisterMachine.Proofs.Layout.Existence
import RegisterMachine.Proofs.Source.Widths
import RegisterMachine.Proofs.Layout.Extent
import RegisterMachine.Proofs.Layout.Pieces
import RegisterMachine.Proofs.Layout.Arrangement
import RegisterMachine.Proofs.Assembler.Decoding
import RegisterMachine.Proofs.Layout.Location
import RegisterMachine.Proofs.Layout.Rearrangement
import RegisterMachine.Proofs.Assembler.Order
import RegisterMachine.Proofs.Source.Interning
import RegisterMachine.Proofs.Layout.Renaming
import RegisterMachine.Proofs.Assembler.Renaming
import RegisterMachine.Proofs.Source.Spacing
import RegisterMachine.Proofs.Source.Recasing
import RegisterMachine.Proofs.Source.Mnemonics
import RegisterMachine.Proofs.Source.Formatting
import RegisterMachine.Proofs.Assembler.Formatting
import RegisterMachine.Proofs.Source.Classes
import RegisterMachine.Proofs.Source.Patterns
import RegisterMachine.Proofs.Source.Lines
import RegisterMachine.Proofs.Source.Faults
import RegisterMachine.Proofs.Source.Truncation
import RegisterMachine.Proofs.Source.Refusals
import RegisterMachine.Proofs.Source.LineNumbers
import RegisterMachine.Proofs.Source.Literals
import RegisterMachine.Proofs.Machine.SuccessfulStep
import RegisterMachine.Proofs.Machine.OperandModes
import RegisterMachine.Proofs.Machine.Addressing
import RegisterMachine.Proofs.Machine.Arithmetic
import RegisterMachine.Proofs.Machine.Comparison
import RegisterMachine.Proofs.Machine.Upcoming
import RegisterMachine.Proofs.Machine.Stepping
import RegisterMachine.Proofs.Machine.Recording
import RegisterMachine.Proofs.Isa.Register
import RegisterMachine.Proofs.Text.Numeral
import RegisterMachine.Proofs.Instruction.Disassembly
import RegisterMachine.Proofs.Container.Rows
import RegisterMachine.Proofs.Container.Listing
import RegisterMachine.Proofs.Container.Dump
import RegisterMachine.Proofs.Interner
import RegisterMachine.Proofs.Machine.LastWrite
