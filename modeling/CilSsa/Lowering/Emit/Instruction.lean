import CilSsa.Lowering.Emit.Arithmetic
import CilSsa.Lowering.Emit.Arrays
import CilSsa.Lowering.Emit.Branch
import CilSsa.Lowering.Emit.Calls
import CilSsa.Lowering.Emit.Constants
import CilSsa.Lowering.Emit.Convert
import CilSsa.Lowering.Emit.Fields
import CilSsa.Lowering.Emit.Variables

/-!
Emission of one instruction.
-/

namespace CilSsa.Lowering.Emit

open CilSsa.Metadata CilSsa.Ssa

/-- `dup`. -/
def duplicate (site : Site) : Emit Unit := do
  let top ← pop site
  push top
  push top

/-- `pop`. -/
def discard (site : Site) : Emit Unit := do
  let _ ← pop site

/-- Carries out an action. -/
def perform (site : Site) : Action → Emit Unit
  | .constant source => loadConstant site source
  | .null => loadNull
  | .string => loadString site
  | .loadVariable kind fixed => loadVariable site kind fixed
  | .loadVariableAddress kind => loadVariableAddress site kind
  | .storeVariable kind fixed => storeVariable site kind fixed
  | .nop => return ()
  | .dup => duplicate site
  | .pop => discard site
  | .sizeof => loadSize site
  | .binary op => binary site op
  | .negate => negate site
  | .complement => complement site
  | .compare relation unsigned => compare site relation unsigned
  | .branch => branch site
  | .branchIf onZero => branchIf site onZero
  | .compareBranch relation unsigned => compareBranch site relation unsigned
  | .switch => switch site
  | .ret => ret site
  | .convert target unsignedSource => convert site target unsignedSource
  | .loadIndirect sig => loadIndirect site sig
  | .storeIndirect sig => storeIndirect site sig
  | .loadObject => loadObject site
  | .storeObject => storeObject site
  | .initObject => initObject site
  | .loadField => loadField site
  | .loadFieldAddress => loadFieldAddress site
  | .storeField => storeField site
  | .loadStatic => loadStatic site
  | .loadStaticAddress => loadStaticAddress site
  | .storeStatic => storeStatic site
  | .call => call site
  | .callVirtual => callVirtual site
  | .newObject => newObject site
  | .newArray => newArray site
  | .loadElementAddress => loadElementAddress site
  | .loadElement source => loadElement site source
  | .storeElement source => storeElement site source

/-- Emits an instruction.  A body with an operation that has no action is never emitted. -/
def instruction (site : Site) : Emit Unit :=
  match dispatch site.instr.opcode with
  | .action action => perform site action
  | .deferred | .unsupported => fail (.unsupportedInstruction site.name site.instr.opcode)

/-- Emits the instructions of a body from position `index` on. -/
def instructions (frame : Frame) : Nat → List Instruction → Emit Unit
  | _, [] => return ()
  | index, instr :: rest => do
      let site : Site := { frame with index, instr }
      if (leader? (← get) index).isSome then enterBlock site
      instruction site
      instructions frame (index + 1) rest

end CilSsa.Lowering.Emit
