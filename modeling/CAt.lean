import CAt.Library.ByteMemory
import CAt.Library.GuardedLoop
import CAt.Library.UintLoop
import CAt.Library.Segments
import CAt.Library.Faults
import CAt.Library.FoldOutput
import CAt.Library.Records
import CAt.Library.Binary32
import CAt.Library.LastMatch
import CAt.Library.Printf
import CAt.Vm.InstructionSet
import CAt.Vm.Machine
import CAt.Vm.ExecuteOp
import CAt.Vm.Effects
import CAt.Vm.Faults
import CAt.Vm.CallStack
import CAt.Vm.DataStack
import CAt.Vm.ForwardOnly
import CAt.Vm.CallDepth
import CAt.Vm.GuestMemory
import CAt.Vm.FreshMachine
import CAt.Vm.Relocation
import CAt.Vm.FloatIndependence
import CAt.Vm.InstructionTraces
import CAt.Vm.CountingLoop
import CAt.Vm.RecursiveCalls
import CAt.Vm.CallInputs
import CAt.Vm.SaveLoad
import CAt.Vm.InvalidOpcodes
import CAt.Vm.Casts
import CAt.Vm.LogDiscipline
import CAt.Strings.Str
import CAt.Strings.Append
import CAt.Strings.Pattern
import CAt.Strings.Affixes
import CAt.Strings.Substr
import CAt.Strings.Copies
import CAt.Assembler.ReadSource
import CAt.Assembler.Tokenizer
import CAt.Assembler.Lexemes
import CAt.Assembler.TokenSpans
import CAt.Assembler.TokenLists
import CAt.Assembler.LineWise
import CAt.Assembler.SourceBounds
import CAt.Assembler.TokenLiterals
import CAt.Assembler.Printing
import CAt.Assembler.AssembleLine
import CAt.Assembler.OperandText
import CAt.Assembler.LiteralClassifiers
import CAt.Assembler.OpcodePreservation
import CAt.Assembler.ConditionalJumps
import CAt.Assembler.Literals
import CAt.Assembler.LineErrors
import CAt.Assembler.UninitialisedReg
import CAt.Assembler.Completeness
import CAt.Assembler.RegisterInstructions
import CAt.Assembler.Passes
import CAt.Assembler.SourceLines
import CAt.Assembler.LineModes
import CAt.Assembler.InsertedComments
import CAt.Assembler.InstructionOrder
import CAt.Assembler.KeptLines
import CAt.Assembler.LinePasses
import CAt.Assembler.PassBounds
import CAt.Assembler.OperandBuffers
import CAt.Assembler.FinalNewline
import CAt.Assembler.SourceComments
import CAt.Assembler.RegisterOperands
import CAt.Assembler.MemoryInstructions
import CAt.Assembler.LabelEntries
import CAt.Assembler.LabelAgreement
import CAt.Assembler.LabelNames
import CAt.Assembler.ProgramFile
import CAt.Assembler.Disassembler
import CAt.Assembler.HiddenOperands
import CAt.Language.Syntax
import CAt.Language.Assembly
import CAt.Language.Layout
import CAt.Language.Semantics
import CAt.Language.Simulation
import CAt.Language.Linking
import CAt.Toolchain.CommandLine
import CAt.Toolchain.Caasm
import CAt.Toolchain.Assembling
import CAt.Toolchain.PrintedSource
import CAt.Toolchain.Set
import CAt.Toolchain.EndToEnd
import CAt.Toolchain.Renaming
import CAt.Toolchain.Outcomes
import CAt.Toolchain.Visible
import CAt.Toolchain.UnreadBytes
import CAt.Toolchain.Listing
import CAt.Testing.FileHasStr
import CAt.Testing.NativeTests
