import CilSsa.Fault
import CilSsa.Metadata.Opcode
import CilSsa.Ssa.Verifier

/-!
Why a compilation stops.  Constructs that merely have no lowering yet do not stop it; their methods
are skipped and reported.
-/

namespace CilSsa.Lowering

open CilSsa.Metadata CilSsa.Ssa

/-- What is wrong with the operand of an instruction. -/
inductive OperandProblem where
  | fieldExpected
  | methodExpected
  | typeExpected
  | targetExpected
  | jumpTableExpected
  | stringExpected
  | constantMismatch
  | noSuchArgument
  | noSuchLocal
  | targetNotInstruction (target : Nat)
  | bitwiseOnFloats
  | noReceiver
  | interfaceInstance
deriving DecidableEq, Repr

def OperandProblem.message : OperandProblem → String
  | fieldExpected => "expected a field token"
  | methodExpected => "expected a method token"
  | typeExpected => "expected a type token"
  | targetExpected => "expected a branch target"
  | jumpTableExpected => "expected a jump table"
  | stringExpected => "expected a string literal"
  | constantMismatch => "constant operand does not match the opcode"
  | noSuchArgument => "no such argument"
  | noSuchLocal => "no such local"
  | targetNotInstruction target => s!"branch target {target} is not an instruction"
  | bitwiseOnFloats => "bitwise operation on floating-point operands"
  | noReceiver => "virtual call without a receiver"
  | interfaceInstance => "cannot instantiate an interface"

/-- What is registered at most once. -/
inductive EntryKind where
  | function
  | staticField
  | type
  | vtable
  | slotTable
  | newobj
  | interface
deriving DecidableEq, Repr

def EntryKind.words : EntryKind → String
  | function => "function"
  | staticField => "static field"
  | type => "type"
  | vtable => "vtable"
  | slotTable => "slot table"
  | newobj => "allocation routine"
  | interface => "interface"

/-- A failure of the compilation. -/
inductive LoweringError where
  | unsupportedPacking (type : String) (packing : Nat)
  | fixedSizeOnNonStruct (type : String)
  | malformedOperand (method : String) (index : Nat) (opcode : Opcode) (problem : OperandProblem)
  | typeNotFound (type : String)
  | vtableNotFound (type : String)
  | newobjNotFound (type : String)
  | fieldNotInLayout (type field : String)
  | vtableSlotNotFound (type : String)
  | methodSlotNotFound (type method : String)
  | interfaceNotIndexed (type : String)
  | cyclicInheritance (type : String)
  | stackUnderflow (method : String) (index : Nat) (opcode : Opcode)
  | verification (error : VerifyError)
  | unsupportedInstruction (method : String) (opcode : Opcode)
  | duplicate (kind : EntryKind) (name : String)
deriving DecidableEq, Repr

/-- Where the cause of a failure lies. -/
inductive ErrorCategory where
  /-- The input asks for something that is not offered. -/
  | configuration
  /-- An earlier phase left something undone. -/
  | invariant
  /-- An instruction without a lowering. -/
  | unsupported
  /-- A key written twice. -/
  | duplicate
deriving DecidableEq, Repr

def ErrorCategory.name : ErrorCategory → String
  | configuration => "Configuration"
  | invariant => "Invariant"
  | unsupported => "Unsupported"
  | duplicate => "Duplicate"

namespace LoweringError

/-- The text of a failure. -/
def message : LoweringError → String
  | unsupportedPacking type packing =>
      s!"type `{type}` uses packing {packing}; only 0 and 1 are supported"
  | fixedSizeOnNonStruct type => s!"type `{type}` declares a fixed size but is not a struct"
  | malformedOperand method index opcode problem =>
      s!"instruction {index} (`{opcode.mnemonic}`) of `{method}`: {problem.message}"
  | typeNotFound type => s!"type `{type}` has no registered IR type"
  | vtableNotFound type => s!"type `{type}` has no vtable"
  | newobjNotFound type => s!"type `{type}` has no allocation routine"
  | fieldNotInLayout type field => s!"field `{field}` is not part of the layout of `{type}`"
  | vtableSlotNotFound type => s!"type `{type}` has no class vtable slot in its layout"
  | methodSlotNotFound type method => s!"method `{method}` has no slot in the vtable of `{type}`"
  | interfaceNotIndexed type => s!"interface `{type}` was not assigned an index"
  | cyclicInheritance type => s!"type `{type}` is its own ancestor"
  | stackUnderflow method index opcode =>
      s!"evaluation stack underflow at instruction {index} (`{opcode.mnemonic}`) of `{method}`"
  | verification error => error.message
  | unsupportedInstruction method opcode =>
      s!"unsupported instruction `{opcode.mnemonic}` in `{method}`"
  | duplicate kind name => s!"duplicate {kind.words} registration for `{name}`"

/-- The name of the kind of failure. -/
def name : LoweringError → String
  | unsupportedPacking .. => "UnsupportedPacking"
  | fixedSizeOnNonStruct _ => "FixedSizeOnNonStruct"
  | malformedOperand .. => "MalformedOperand"
  | typeNotFound _ => "TypeNotFound"
  | vtableNotFound _ => "VTableNotFound"
  | newobjNotFound _ => "NewobjNotFound"
  | fieldNotInLayout .. => "FieldNotInLayout"
  | vtableSlotNotFound _ => "VTableSlotNotFound"
  | methodSlotNotFound .. => "MethodSlotNotFound"
  | interfaceNotIndexed _ => "InterfaceNotIndexed"
  | cyclicInheritance _ => "CyclicInheritance"
  | stackUnderflow .. => "StackUnderflow"
  | verification _ => "Verification"
  | unsupportedInstruction .. => "UnsupportedInstruction"
  | duplicate .. => "Duplicate"

/-- Where the cause of a failure lies. -/
def category : LoweringError → ErrorCategory
  | unsupportedPacking .. | fixedSizeOnNonStruct _ | malformedOperand .. => .configuration
  | unsupportedInstruction .. => .unsupported
  | duplicate .. => .duplicate
  | _ => .invariant

end LoweringError

/-- Why a phase stops: an id that leads nowhere, or a failure of the compilation. -/
inductive Stop where
  | fault (fault : Fault)
  | error (error : LoweringError)
deriving DecidableEq, Repr

/-- A question about ids, asked where compilations may stop. -/
def answer {α : Type} : Except Fault α → Except Stop α
  | .ok a => .ok a
  | .error fault => .error (.fault fault)

end CilSsa.Lowering
