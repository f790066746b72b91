import CilSsa.Numeric.Binary64
import CilSsa.Ssa.Operation

/-!
The parts of an SSA module: types, values, instructions, blocks and functions.  They refer to each
other by ids that index the arenas of the module.
-/

namespace CilSsa.Ssa

open CilSsa.Numeric

structure TypeId where
  index : Nat
deriving DecidableEq, Repr

/-- A value of a module: constant, global, function, parameter or instruction. -/
structure ValueId where
  index : Nat
deriving DecidableEq, Repr

/-- A basic block of a module. -/
structure BlockId where
  index : Nat
deriving DecidableEq, Repr

structure FunctionId where
  index : Nat
deriving DecidableEq, Repr

/-- A type.  All but structs are the same exactly if their parts are. -/
inductive IrType where
  | void
  | int (bits : Nat)
  | float (bits : Nat)
  | pointer (pointee : TypeId)
  | array (element : TypeId) (length : Nat)
  | function (result : TypeId) (params : List TypeId)
  /-- A struct with a name of its own; without a body it is not defined yet. -/
  | struct (name : String) (body : Option (List TypeId)) (packed : Bool)
deriving DecidableEq, Repr

/-- What instructions ask of a type. -/
inductive TypeClass where
  | void
  | int (bits : Nat)
  | float (bits : Nat)
  | pointer
  | array
  | struct
  | function
deriving DecidableEq, Repr

namespace TypeClass

def isInt : TypeClass → Bool
  | int _ => true
  | _ => false

def isFloat : TypeClass → Bool
  | float _ => true
  | _ => false

def isPointer : TypeClass → Bool
  | pointer => true
  | _ => false

/-- The width of integers and floating-point numbers. -/
def bits? : TypeClass → Option Nat
  | int bits | float bits => some bits
  | _ => none

end TypeClass

def IrType.classify : IrType → TypeClass
  | void => .void
  | int bits => .int bits
  | float bits => .float bits
  | pointer _ => .pointer
  | array .. => .array
  | function .. => .function
  | struct .. => .struct

/-- What a call calls. -/
inductive Callee where
  | direct (function : FunctionId)
  | indirect (type : TypeId) (pointer : ValueId)
deriving DecidableEq, Repr

/-- An instruction that does not end a block. -/
inductive Inst where
  | binary (op : BinaryOp) (lhs rhs : ValueId)
  | unary (op : UnaryOp) (operand : ValueId)
  | icmp (pred : IntPredicate) (lhs rhs : ValueId)
  | fcmp (pred : FloatPredicate) (lhs rhs : ValueId)
  | cast (op : CastOp) (value : ValueId)
  | alloca (type : TypeId)
  | load (pointer : ValueId)
  | store (pointer value : ValueId) (isVolatile : Bool)
  /-- The address of a member of a struct. -/
  | structGep (type : TypeId) (pointer : ValueId) (index : Nat)
  /-- The address of an element of an array. -/
  | gep (element : TypeId) (pointer index : ValueId)
  /-- Zeroed storage for one or for `count` values. -/
  | heapAlloc (type : TypeId) (count : Option ValueId)
  | phi (incoming : List (ValueId × BlockId))
  | call (callee : Callee) (args : List ValueId)
deriving DecidableEq, Repr

/-- Whether an instruction is a phi. -/
def Inst.isPhi : Inst → Bool
  | phi _ => true
  | _ => false

/-- The end of a block. -/
inductive Terminator where
  | br (target : BlockId)
  | condBr (cond : ValueId) (thenBlock elseBlock : BlockId)
  | switch (value : ValueId) (default : BlockId) (cases : List (Int × BlockId))
  | ret (value : Option ValueId)
  | unreachable
deriving DecidableEq, Repr

/-- The blocks that control may go to, in the order of the operands. -/
def Terminator.successors : Terminator → List BlockId
  | br target => [target]
  | condBr _ thenBlock elseBlock => [thenBlock, elseBlock]
  | switch _ default cases => default :: cases.map Prod.snd
  | ret _ | unreachable => []

inductive ValueKind where
  | constInt (value : Int)
  | constFloat (value : Binary64)
  /-- The zero of the type. -/
  | constNull
  | constAggregate (items : List ValueId)
  /-- The bytes of a text and a zero byte. -/
  | constBytes (text : String)
  /-- Storage of type `content`; the value itself is its address. -/
  | global (name : String) (content : TypeId) (initial : ValueId)
  | function (function : FunctionId)
  | param (function : FunctionId) (index : Nat)
  /-- The result of an instruction.  An instruction built outside of any block has none. -/
  | inst (block : Option BlockId) (inst : Inst)
deriving DecidableEq, Repr

/-- Whether a value is the same in every run. -/
def ValueKind.isConstant : ValueKind → Bool
  | constInt _ | constFloat _ | constNull | constAggregate _ | constBytes _ | global .. => true
  | function _ => true
  | param .. | inst .. => false

structure Value where
  type : TypeId
  kind : ValueKind
deriving DecidableEq, Repr

/-- The instruction of a value that is one. -/
def Value.inst? (v : Value) : Option Inst :=
  match v.kind with
  | .inst _ inst => some inst
  | _ => none

structure Block where
  name : String
  function : FunctionId
  insts : List ValueId := []
  terminator : Option Terminator := none
deriving DecidableEq, Repr

/-- The blocks that control may go to. -/
def Block.successors (b : Block) : List BlockId :=
  match b.terminator with
  | some t => t.successors
  | none => []

/-- A function; without blocks it is only declared. -/
structure Function where
  name : String
  type : TypeId
  linkage : Linkage
  params : List ValueId
  blocks : List BlockId := []
  /-- The function as a pointer. -/
  value : ValueId
deriving DecidableEq, Repr

end CilSsa.Ssa
