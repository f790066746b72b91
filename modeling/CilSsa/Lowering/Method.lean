import CilSsa.Lowering.Blocks
import CilSsa.Lowering.Emit.Instruction
import CilSsa.Text.Hex

/-!
Methods.

The function of a body starts with a block for the storage of arguments and locals.  Every leader
of the body gets a block of its own, and the instructions are emitted in one pass.  A body with an
operation that has no lowering yet is skipped, and its function is left to other modules.
-/

namespace CilSsa.Lowering

open CilSsa.Metadata CilSsa.Ssa

/-- Why a method has no function of its own. -/
inductive SkipReason where
  /-- New values of a struct are zero already. -/
  | defaultConstructor
  | notLowered (opcode : Opcode)
deriving DecidableEq, Repr

def SkipReason.message : SkipReason → String
  | defaultConstructor => "default value-type constructor"
  | notLowered opcode => s!"`{opcode.mnemonic}` is not implemented yet"

inductive MethodOutcome where
  | compiled (function : FunctionId)
  /-- Without a body; the function is defined elsewhere. -/
  | external (function : FunctionId)
  /-- Without a body; the function is never called. -/
  | abstract (function : FunctionId)
  | skipped (reason : SkipReason)
deriving DecidableEq, Repr

/-- What the operations of a body allow. -/
inductive BodySupport where
  | full
  /-- The first operation without an action has no lowering yet. -/
  | deferred (opcode : Opcode)
  /-- The first operation without an action is refused. -/
  | refused (opcode : Opcode)
deriving DecidableEq, Repr

/-- The first operation without an action decides. -/
def bodySupport : List Instruction → BodySupport
  | [] => .full
  | instr :: rest =>
      match dispatch instr.opcode with
      | .action _ => bodySupport rest
      | .deferred => .deferred instr.opcode
      | .unsupported => .refused instr.opcode

def Emit.run {α : Type} (start : Session → EmitState) (emission : Emit α) : Lower α :=
  fun session =>
    match emission (start session) with
    | .ok a s => .ok a s.session
    | .error stop s => .error stop s.session

variable (asm : Assembly)

section Body

/-- Storage for the arguments from number `index` on, filled with the parameters. -/
def argVariables (f : FunctionId) : Nat → List TypeSig → Lower (List Variable)
  | _, [] => return []
  | index, sig :: rest => do
      let type ← irType asm sig
      let pointer ← Build.alloca type
      let value ← Build.query (·.param f index)
      Build.store pointer value false
      return ⟨pointer, sig, type⟩ :: (← argVariables f (index + 1) rest)

/-- Storage for a local, filled with zero. -/
def localVariable (sig : TypeSig) : Lower Variable := do
  let type ← irType asm sig
  let pointer ← Build.alloca type
  let zero ← Build.constNull type
  Build.store pointer zero false
  return ⟨pointer, sig, type⟩

def blockName (position : Nat) : String := "IL_" ++ Text.paddedHex 4 position

def appendLeader (f : FunctionId) (index refers : Nat) : Build Leader := do
  let block ← Build.appendBlock f (blockName index)
  return { index, block, refers }

/-- The emission of a body.  Control does not leave a body at its end. -/
def emission (frame : Frame) (body : MethodBody) : Emit Unit := do
  Emit.instructions frame 0 body.instructions
  let current := (← get).current
  if !(← Emit.lower (Build.query (·.isTerminated current))) then Build.unreachable

def emitBody (d : MethodDef) (name : String) (f : FunctionId) (body : MethodBody) :
    Lower Unit := do
  let entry ← Build.appendBlock f "entry"
  Build.positionAtEnd entry
  let args ← argVariables asm f 0 (← argSigs asm d)
  let locals ← body.locals.mapM (localVariable asm)
  let leaders ← (analyze body.instructions).mapM fun (index, refers) =>
    Lower.build (appendLeader f index refers)
  let frame : Frame := { asm, method := d, name, args, locals }
  Emit.run (fun session => { session, leaders, current := entry }) (emission frame body)

end Body

variable (settings : Settings)

def compileBody (m : MethodId) (d : MethodDef) (name : String) (body : MethodBody) :
    Lower MethodOutcome := do
  match bodySupport body.instructions with
  | .refused opcode => Lower.fail (.unsupportedInstruction name opcode)
  | .deferred opcode => do
      let f ← declareFunction asm m
      Build.setLinkage f .external
      return .skipped (.notLowered opcode)
  | .full => do
      let f ← declareFunction asm m
      Build.setLinkage f (linkageOf d)
      emitBody asm d name f body
      Lower.finish settings f
      return .compiled f

def compileMethod (m : MethodId) : Lower MethodOutcome := do
  let d ← asm.method m
  let kind ← asm.kindOf d.declaringType
  let name ← asm.qualifiedName d
  if d.isConstructor && d.params.isEmpty && kind = .structType then
    return .skipped .defaultConstructor
  else
    match d.body with
    | some body => compileBody asm settings m d name body
    | none => do
        let f ← declareFunction asm m
        return if d.isAbstract then .abstract f else .external f

end CilSsa.Lowering
