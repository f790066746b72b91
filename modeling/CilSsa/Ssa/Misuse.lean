import CilSsa.Ssa.Describe

/-!
Misuse of the builder.  Building never stops on it: the misuse is recorded against the function
being built and shows when that function is verified.
-/

namespace CilSsa.Ssa

/-- A request that does not make a well-formed module. -/
inductive Misuse where
  | bodySetTwice (struct : String)
  | bodyOfNonStruct (type : IrType)
  | aggregateSize (given expected : Nat)
  | unfitInitializer (global : String)
  | initializerOfNonGlobal
  | globalTwice (name : String)
  | functionTwice (name : String)
  | functionOfNonFunctionType (name : String)
  | instOutsideBlock (inst : Inst)
  | terminatorOutsideBlock (terminator : Terminator)
  | instAfterTerminator (inst : Inst) (block : String)
  | terminatedTwice (block : String)
  | operandTypesDiffer (op : BinaryOp)
  | operandClass (op : BinaryOp) (actual : TypeClass)
  | unaryOperandClass (op : UnaryOp) (actual : TypeClass)
  | icmpOperands (pred : IntPredicate)
  | fcmpOperands (pred : FloatPredicate)
  | castClasses (op : CastOp) (source target : TypeClass)
  | loadFromNonPointer
  | storeToNonPointer
  | memberOutOfRange (index : Nat) (type : TypeId)
  | gepIndexClass
  | incomingType
  | incomingOfNonPhi
  | callOfNonFunctionType (type : TypeId)
  | callArity (given expected : Nat)
  | callArgument (position : Nat)
  | calleeOfNonPointer
  | conditionClass
  | returnType
deriving DecidableEq, Repr

def Misuse.message : Misuse → String
  | bodySetTwice struct => s!"struct `{struct}` body set twice"
  | bodyOfNonStruct type => s!"set_struct_body on non-struct {type.describe}"
  | aggregateSize given expected =>
      s!"constant struct has {given} members, type has {expected}"
  | unfitInitializer global => s!"initializer of `{global}` is not a constant of its type"
  | initializerOfNonGlobal => "set_initializer on a non-global"
  | globalTwice name => s!"global `{name}` defined twice"
  | functionTwice name => s!"function `{name}` defined twice"
  | functionOfNonFunctionType name => s!"function `{name}` declared with a non-function type"
  | instOutsideBlock inst => s!"{inst.describe} built without an insertion block"
  | terminatorOutsideBlock terminator =>
      s!"{terminator.describe} built without an insertion block"
  | instAfterTerminator inst block =>
      s!"{inst.describe} appended after the terminator of `{block}`"
  | terminatedTwice block => s!"block `{block}` terminated twice"
  | operandTypesDiffer op => s!"{op.mnemonic} operands have different types"
  | operandClass op actual => s!"{op.mnemonic} on {actual.describe} operands"
  | unaryOperandClass op actual => s!"{op.mnemonic} on {actual.describe} operand"
  | icmpOperands pred => s!"icmp {pred.mnemonic} on mismatched operands"
  | fcmpOperands pred => s!"fcmp {pred.mnemonic} on mismatched operands"
  | castClasses op source target =>
      s!"{op.mnemonic} from {source.describe} to {target.describe}"
  | loadFromNonPointer => "load from a non-pointer"
  | storeToNonPointer => "store to a non-pointer"
  | memberOutOfRange index type => s!"struct_gep index {index} out of range for {type.describe}"
  | gepIndexClass => "gep with a non-integer index"
  | incomingType => "phi incoming value has the wrong type"
  | incomingOfNonPhi => "add_incoming on a non-phi"
  | callOfNonFunctionType type => s!"call through non-function type {type.describe}"
  | callArity given expected =>
      s!"call passes {given} arguments to a function taking {expected}"
  | callArgument position => s!"call argument {position} has the wrong type"
  | calleeOfNonPointer => "indirect call through a non-pointer"
  | conditionClass => "conditional branch on a non-i1 value"
  | returnType => "return value does not match the function type"

end CilSsa.Ssa
