import CilSsa.Ssa.DeadBlocks

/-!
Builder actions as data, so that histories of a module can be spoken of.

A command is one request to the builder.  `Reached` holds of the modules that some list of commands
builds from a new one, stopped by no dangling id.
-/

namespace CilSsa.Ssa

open CilSsa.Numeric

/-- One request to the builder. -/
inductive Command where
  | voidType
  | intType (bits : Nat)
  | floatType (bits : Nat)
  | pointerType (pointee : TypeId)
  | arrayType (element : TypeId) (length : Nat)
  | functionType (result : TypeId) (params : List TypeId)
  | genericPointer
  | namedStruct (name : String)
  | setStructBody (struct : TypeId) (members : List TypeId) (packed : Bool)
  | constInt (type : TypeId) (value : Int)
  | constIntOf (bits : Nat) (value : Int)
  | constFloat (type : TypeId) (value : Binary64)
  | constNull (type : TypeId)
  | constStruct (type : TypeId) (items : List ValueId)
  | constArray (element : TypeId) (items : List ValueId)
  | constString (text : String)
  | addGlobal (name : String) (content : TypeId)
  | setInitializer (global value : ValueId)
  | addFunction (name : String) (type : TypeId) (linkage : Linkage)
  | setLinkage (function : FunctionId) (linkage : Linkage)
  | functionValue (function : FunctionId)
  | param (function : FunctionId) (index : Nat)
  | appendBlock (function : FunctionId) (name : String)
  | positionAtEnd (block : BlockId)
  | binary (op : BinaryOp) (lhs rhs : ValueId)
  | unary (op : UnaryOp) (operand : ValueId)
  | icmp (pred : IntPredicate) (lhs rhs : ValueId)
  | fcmp (pred : FloatPredicate) (lhs rhs : ValueId)
  | cast (op : CastOp) (value : ValueId) (target : TypeId)
  | intCast (value : ValueId) (target : TypeId) (signed : Bool)
  | alloca (type : TypeId)
  | load (type : TypeId) (pointer : ValueId)
  | store (pointer value : ValueId) (isVolatile : Bool)
  | structGep (type : TypeId) (pointer : ValueId) (index : Nat)
  | gep (element : TypeId) (pointer index : ValueId)
  | heapAlloc (type : TypeId) (count : Option ValueId)
  | phi (block : BlockId) (type : TypeId)
  | addIncoming (phi value : ValueId) (source : BlockId)
  | call (function : FunctionId) (args : List ValueId)
  | callIndirect (type : TypeId) (callee : ValueId) (args : List ValueId)
  | br (target : BlockId)
  | condBr (cond : ValueId) (thenBlock elseBlock : BlockId)
  | switch (value : ValueId) (default : BlockId) (cases : List (Int × BlockId))
  | ret (value : Option ValueId)
  | unreachable
  | optimize (function : FunctionId) (level : OptLevel)
deriving DecidableEq, Repr

/-- What a request makes or finds. -/
inductive Handle where
  | type (id : TypeId)
  | value (id : ValueId)
  | block (id : BlockId)
  | function (id : FunctionId)
deriving DecidableEq, Repr

def Handle.index : Handle → Nat
  | type id => id.index
  | value id => id.index
  | block id => id.index
  | function id => id.index

namespace Command

def nothing (action : Build Unit) : Build (Option Handle) := do
  action
  return none

def aType (action : Build TypeId) : Build (Option Handle) := return some (.type (← action))

def aValue (action : Build ValueId) : Build (Option Handle) := return some (.value (← action))

/-- Carries out a request. -/
def run : Command → Build (Option Handle)
  | voidType => aType Build.voidType
  | intType bits => aType (Build.intType bits)
  | floatType bits => aType (Build.floatType bits)
  | pointerType pointee => aType (Build.pointerType pointee)
  | arrayType element length => aType (Build.arrayType element length)
  | functionType result params => aType (Build.functionType result params)
  | genericPointer => aType Build.genericPointer
  | namedStruct name => aType (Build.namedStruct name)
  | setStructBody struct members packed => nothing (Build.setStructBody struct members packed)
  | constInt type value => aValue (Build.constInt type value)
  | constIntOf bits value => aValue (Build.constIntOf bits value)
  | constFloat type value => aValue (Build.constFloat type value)
  | constNull type => aValue (Build.constNull type)
  | constStruct type items => aValue (Build.constStruct type items)
  | constArray element items => aValue (Build.constArray element items)
  | constString text => aValue (Build.constString text)
  | addGlobal name content => aValue (Build.addGlobal name content)
  | setInitializer global value => nothing (Build.setInitializer global value)
  | addFunction name type linkage =>
      return some (.function (← Build.addFunction name type linkage))
  | setLinkage function linkage => nothing (Build.setLinkage function linkage)
  | functionValue function => aValue (Build.functionValue function)
  | param function index => aValue (Build.query (·.param function index))
  | appendBlock function name => return some (.block (← Build.appendBlock function name))
  | positionAtEnd block => nothing (Build.positionAtEnd block)
  | binary op lhs rhs => aValue (Build.binary op lhs rhs)
  | unary op operand => aValue (Build.unary op operand)
  | icmp pred lhs rhs => aValue (Build.icmp pred lhs rhs)
  | fcmp pred lhs rhs => aValue (Build.fcmp pred lhs rhs)
  | cast op value target => aValue (Build.cast op value target)
  | intCast value target signed => aValue (Build.intCast value target signed)
  | alloca type => aValue (Build.alloca type)
  | load type pointer => aValue (Build.load type pointer)
  | store pointer value isVolatile => nothing (Build.store pointer value isVolatile)
  | structGep type pointer index => aValue (Build.structGep type pointer index)
  | gep element pointer index => aValue (Build.gep element pointer index)
  | heapAlloc type count => aValue (Build.heapAlloc type count)
  | phi block type => aValue (Build.phi block type)
  | addIncoming node value source => nothing (Build.addIncoming node value source)
  | call function args => return (← Build.call function args).map .value
  | callIndirect type callee args => return (← Build.callIndirect type callee args).map .value
  | br target => nothing (Build.br target)
  | condBr cond thenBlock elseBlock => nothing (Build.condBr cond thenBlock elseBlock)
  | switch value default cases => nothing (Build.switch value default cases)
  | ret value => nothing (Build.ret value)
  | unreachable => nothing Build.unreachable
  | optimize function level => nothing (Build.optimize function level)

/-- Carries out requests one after the other. -/
def runAll (commands : List Command) : Build Unit := commands.forM fun command => do
  let _ ← command.run

end Command

/-- The modules that requests to the builder lead to. -/
def Module.Reached (m : Module) : Prop :=
  ∃ (name : String) (commands : List Command), Command.runAll commands { name } = .ok () m

end CilSsa.Ssa
