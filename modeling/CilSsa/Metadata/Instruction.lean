import CilSsa.Metadata.Opcode
import CilSsa.Metadata.Signature
import CilSsa.Numeric.Binary64

/-!
Instructions and their operands.  Branch targets are positions in the instruction list.
-/

namespace CilSsa.Metadata

open CilSsa.Numeric

inductive Operand where
  | none
  | int32 (value : Int)
  | int64 (value : Int)
  /-- A number of the 32-bit format. -/
  | float32 (value : Binary64)
  | float64 (value : Binary64)
  | string (text : String)
  | type (sig : TypeSig)
  | field (id : FieldId)
  | method (id : MethodId)
  | target (position : Nat)
  | switch (positions : List Nat)
  /-- Position of an argument. -/
  | arg (position : Nat)
  /-- Position of a local. -/
  | loc (position : Nat)
deriving DecidableEq, Repr

structure Instruction where
  opcode : Opcode
  operand : Operand := .none
  /-- Whether it carries the `volatile.` prefix. -/
  isVolatile : Bool := false
deriving DecidableEq, Repr

namespace Instruction

/-- The branch targets of the operand, in order. -/
def targets (instr : Instruction) : List Nat :=
  match instr.operand with
  | .target position => [position]
  | .switch positions => positions
  | _ => []

end Instruction

end CilSsa.Metadata
