import CilSsa.Lowering.Dispatch
import CilSsa.Lowering.EvalStack
import CilSsa.Lowering.Types

/-!
The state while the body of a method is emitted, and the steps that all instructions share: using
the evaluation stack, reading operands, and passing the stack on to other blocks.
-/

namespace CilSsa.Lowering

open CilSsa.Metadata CilSsa.Ssa

/-- An argument or local: its address and its declared type. -/
structure Variable where
  pointer : ValueId
  sig : TypeSig
  type : TypeId
deriving DecidableEq, Repr

/-- What stays the same while a body is emitted. -/
structure Frame where
  asm : Assembly
  method : MethodDef
  /-- The name of the method in diagnostics. -/
  name : String
  args : List Variable
  locals : List Variable

/-- An instruction in its place. -/
structure Site extends Frame where
  index : Nat
  instr : Instruction

/-- A block that starts at an instruction: the number of edges into it, and the stack that the
edges emitted so far bring along. -/
structure Leader where
  index : Nat
  block : BlockId
  refers : Nat
  incoming : EvalStack := {}
deriving DecidableEq, Repr

/-- What changes while a body is emitted. -/
structure EmitState where
  session : Session
  stack : EvalStack := {}
  leaders : List Leader
  current : BlockId
deriving DecidableEq, Repr

/-- An action of the emission. -/
abbrev Emit := EStateM Stop EmitState

namespace Emit

/-- An action of the compilation. -/
def lower {α : Type} (action : Lower α) : Emit α := fun s =>
  match action s.session with
  | .ok a session => .ok a { s with session }
  | .error stop session => .error stop { s with session }

instance : MonadLift Lower Emit := ⟨lower⟩

/-- Stops with a failure. -/
def fail {α : Type} (error : LoweringError) : Emit α := throw (.error error)

/-- Stops because of an operand. -/
def malformed {α : Type} (site : Site) (problem : OperandProblem) : Emit α :=
  fail (.malformedOperand site.name site.index site.instr.opcode problem)

def push (e : Element) : Emit Unit := modify fun s => { s with stack := s.stack.push e }

/-- Takes the top off the stack. -/
def pop (site : Site) : Emit Element := do
  match (← get).stack.pop? with
  | some (e, stack) => do
      modify fun s => { s with stack }
      return e
  | none => fail (.stackUnderflow site.name site.index site.instr.opcode)

/-- Takes `count` elements off the stack and puts them in front of `above`, so that they end up in
the order they were pushed. -/
def popOnto (site : Site) : Nat → List Element → Emit (List Element)
  | 0, above => return above
  | count + 1, above => do
      let e ← pop site
      popOnto site count (e :: above)

/-- Takes `count` elements off the stack, in the order they were pushed. -/
def popN (site : Site) (count : Nat) : Emit (List Element) := popOnto site count []

def fieldOperand (site : Site) : Emit FieldId :=
  match site.instr.operand with
  | .field id => return id
  | _ => malformed site .fieldExpected

def methodOperand (site : Site) : Emit MethodId :=
  match site.instr.operand with
  | .method id => return id
  | _ => malformed site .methodExpected

def typeOperand (site : Site) : Emit TypeSig :=
  match site.instr.operand with
  | .type sig => return sig
  | _ => malformed site .typeExpected

def targetOperand (site : Site) : Emit Nat :=
  match site.instr.operand with
  | .target position => return position
  | _ => malformed site .targetExpected

def leader? (s : EmitState) (position : Nat) : Option Leader :=
  s.leaders.find? fun l => l.index = position

/-- Replaces the stack of the leader at a position. -/
def setIncoming (position : Nat) (incoming : EvalStack) : Emit Unit :=
  modify fun s =>
    { s with leaders := s.leaders.map fun l =>
        if l.index = position then { l with incoming } else l }

/-- Passes the stack on to the block at a position, before the branch to it is emitted. -/
def reconcile (site : Site) (position : Nat) : Emit BlockId := do
  let s ← get
  match leader? s position with
  | none => malformed site (.targetNotInstruction position)
  | some l => do
      let incoming ← lower (l.incoming.merge site.asm s.stack s.current l.block l.refers)
      setIncoming position incoming
      return l.block

/-- Goes on with the block of a leader.  A block that is still open falls through to it. -/
def enterBlock (site : Site) : Emit Unit := do
  let current := (← get).current
  if !(← lower (Build.query (·.isTerminated current))) then
    let block ← reconcile site site.index
    Build.br block
  match leader? (← get) site.index with
  | none => malformed site (.targetNotInstruction site.index)
  | some l => do
      modify fun s => { s with current := l.block, stack := l.incoming.snapshot }
      Build.positionAtEnd l.block

end Emit

end CilSsa.Lowering
