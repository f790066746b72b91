import CilSsa.CommandLine.Files
import CilSsa.CommandLine.Options
import CilSsa.CommandLine.Path
import CilSsa.CommandLine.Run
import CilSsa.Fault
import CilSsa.Json.Basic
import CilSsa.Json.Decoder
import CilSsa.Json.Reader
import CilSsa.Json.Writer
import CilSsa.Lowering.Blocks
import CilSsa.Lowering.Coercion
import CilSsa.Lowering.Dispatch
import CilSsa.Lowering.DispatchTable
import CilSsa.Lowering.Emit.Arithmetic
import CilSsa.Lowering.Emit.Arrays
import CilSsa.Lowering.Emit.Branch
import CilSsa.Lowering.Emit.Calls
import CilSsa.Lowering.Emit.Compare
import CilSsa.Lowering.Emit.Constants
import CilSsa.Lowering.Emit.Convert
import CilSsa.Lowering.Emit.Fields
import CilSsa.Lowering.Emit.Instruction
import CilSsa.Lowering.Emit.Memory
import CilSsa.Lowering.Emit.State
import CilSsa.Lowering.Emit.Variables
import CilSsa.Lowering.Error
import CilSsa.Lowering.EvalStack
import CilSsa.Lowering.Functions
import CilSsa.Lowering.Layout
import CilSsa.Lowering.Method
import CilSsa.Lowering.Names
import CilSsa.Lowering.Program
import CilSsa.Lowering.Registry
import CilSsa.Lowering.Session
import CilSsa.Lowering.TypeMap
import CilSsa.Lowering.Types
import CilSsa.Main
import CilSsa.Metadata.Assembly
import CilSsa.Metadata.Codec
import CilSsa.Metadata.Definition
import CilSsa.Metadata.Flags
import CilSsa.Metadata.Hierarchy
import CilSsa.Metadata.Instruction
import CilSsa.Metadata.Opcode
import CilSsa.Metadata.Signature
import CilSsa.Metadata.Slots
import CilSsa.Metadata.Validation
import CilSsa.Numeric.Binary64
import CilSsa.Numeric.Printed
import CilSsa.Numeric.Shortest
import CilSsa.Proofs.Arrivals
import CilSsa.Proofs.Branches
import CilSsa.Proofs.Builder
import CilSsa.Proofs.Changes
import CilSsa.Proofs.Conversion
import CilSsa.Proofs.Edges
import CilSsa.Proofs.Emission
import CilSsa.Proofs.Emitting
import CilSsa.Proofs.Freshness
import CilSsa.Proofs.InBlock
import CilSsa.Proofs.Keeps
import CilSsa.Proofs.Later
import CilSsa.Proofs.Leaders
import CilSsa.Proofs.Merging
import CilSsa.Proofs.Methods
import CilSsa.Proofs.Passing
import CilSsa.Proofs.Persistence
import CilSsa.Proofs.Phases
import CilSsa.Proofs.Prologue
import CilSsa.Proofs.Registrations
import CilSsa.Proofs.Routine
import CilSsa.Proofs.StackMerges
import CilSsa.Proofs.Statics
import CilSsa.Proofs.Straight
import CilSsa.Proofs.Success
import CilSsa.Ssa.Basic
import CilSsa.Ssa.Build
import CilSsa.Ssa.Command
import CilSsa.Ssa.DataLayout
import CilSsa.Ssa.DeadBlocks
import CilSsa.Ssa.Describe
import CilSsa.Ssa.Misuse
import CilSsa.Ssa.Module
import CilSsa.Ssa.Operation
import CilSsa.Ssa.OptLevel
import CilSsa.Ssa.Printer
import CilSsa.Ssa.Verifier
import CilSsa.Text.Escaped
import CilSsa.Text.Hex
import CilSsa.Text.Invisible
import CilSsa.Text.Quoted
import CilSsa.Proofs.Naming
import CilSsa.Proofs.Declarations
import CilSsa.Proofs.Definitions
import CilSsa.Proofs.DerivedObjects
import CilSsa.Proofs.ControlFlow
import CilSsa.Proofs.PhiEntries
import CilSsa.Proofs.Stores
import CilSsa.Proofs.StaticWrites
import CilSsa.Proofs.StaticContents
import CilSsa.Proofs.DispatchTables
import CilSsa.Proofs.ObjectMembers
import CilSsa.Proofs.CompleteTypes
import CilSsa.Proofs.StructBodies
import CilSsa.Proofs.References
import CilSsa.Proofs.Answers
import CilSsa.Proofs.Misuses
import CilSsa.Proofs.KnownIds
import CilSsa.Proofs.KnownQueries
import CilSsa.Proofs.SafeBuilding
import CilSsa.Proofs.SafeLowering
import CilSsa.Proofs.SafeEmission
import CilSsa.Proofs.SafeCompilation
import CilSsa.Proofs.Instructions
import CilSsa.Proofs.LoweredBodies
import CilSsa.Proofs.NewObjects
import CilSsa.Proofs.ObjectTables
import CilSsa.Proofs.SlotCalls
import CilSsa.Proofs.VirtualDispatch
import CilSsa.Proofs.SharedTypes
import CilSsa.Proofs.Flow
import CilSsa.Proofs.GrowingBodies
import CilSsa.Proofs.LiveBlocks
import CilSsa.Proofs.OptimizationLevels
import CilSsa.Proofs.Assembling
import CilSsa.Proofs.Confinement
import CilSsa.Proofs.FailingTypes
import CilSsa.Proofs.FieldMembers
import CilSsa.Proofs.FoundEntries
import CilSsa.Proofs.FittingStores
import CilSsa.Proofs.StackEffects
import CilSsa.Proofs.WideStacks
import CilSsa.Proofs.Containment
import CilSsa.Proofs.Faults
import CilSsa.Proofs.TypeFaults
import CilSsa.Proofs.SlotResolution
import CilSsa.Proofs.Outcomes
import CilSsa.Proofs.Decimals
import CilSsa.Proofs.FlagTexts
import CilSsa.Proofs.Documents
import CilSsa.Proofs.Serialization
import CilSsa.Proofs.TruthfulStacks
import CilSsa.Proofs.Junctions
import CilSsa.Proofs.LayoutQueries
import CilSsa.Proofs.IndirectionSlots
import CilSsa.Proofs.FixedEntries
import CilSsa.Proofs.OpenBlocks
import CilSsa.Proofs.Compiling
import CilSsa.Proofs.DispatchNeeds
import CilSsa.Proofs.AllocationRoutines
import CilSsa.Proofs.IntegerConversions
import CilSsa.Proofs.ScalarCoercions
import CilSsa.Proofs.Stops
import CilSsa.Proofs.TypeStops
import CilSsa.Proofs.BaseChains
import CilSsa.Proofs.InterfaceClosures
import CilSsa.Proofs.SlotCoherence
import CilSsa.Proofs.DefinitionRuns
import CilSsa.Proofs.DefinitionOrder
import CilSsa.Proofs.Refusals
import CilSsa.Proofs.SoundLayouts
import CilSsa.Proofs.FixedSizes
import CilSsa.Proofs.Merges
import CilSsa.Proofs.MergeCounts
import CilSsa.Proofs.ClosedModules
import CilSsa.Proofs.ClosedBuilding
import CilSsa.Proofs.ClosedRequests
import CilSsa.Proofs.Printing
