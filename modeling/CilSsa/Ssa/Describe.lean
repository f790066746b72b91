import CilSsa.Ssa.Basic
import CilSsa.Text.Quoted

/-!
Descriptions of types and instructions in messages: the name of the alternative, then its parts.
-/

namespace CilSsa.Ssa

def describeRecord (name : String) (parts : List (String × String)) : String :=
  name ++ " \x7b " ++ ", ".intercalate (parts.map fun (key, value) => key ++ ": " ++ value)
    ++ " \x7d"

/-- An alternative with parts in order. -/
def describeTuple (name : String) (parts : List String) : String :=
  name ++ "(" ++ ", ".intercalate parts ++ ")"

def describeList (items : List String) : String := "[" ++ ", ".intercalate items ++ "]"

/-- An optional part. -/
def describeOption : Option String → String
  | none => "None"
  | some s => describeTuple "Some" [s]

/-- A truth value. -/
def describeBool (b : Bool) : String := if b then "true" else "false"

def TypeId.describe (id : TypeId) : String := describeTuple "TypeId" [toString id.index]

def ValueId.describe (id : ValueId) : String := describeTuple "ValueId" [toString id.index]

def BlockId.describe (id : BlockId) : String := describeTuple "BlockId" [toString id.index]

def FunctionId.describe (id : FunctionId) : String :=
  describeTuple "FunctionId" [toString id.index]

def TypeClass.describe : TypeClass → String
  | void => "Void"
  | int bits => describeTuple "Int" [toString bits]
  | float bits => describeTuple "Float" [toString bits]
  | pointer => "Pointer"
  | array => "Array"
  | struct => "Struct"
  | function => "Function"

def IrType.describe : IrType → String
  | void => "Void"
  | int bits => describeTuple "Int" [toString bits]
  | float bits => describeTuple "Float" [toString bits]
  | pointer pointee => describeTuple "Pointer" [pointee.describe]
  | array element length =>
      describeRecord "Array" [("element", element.describe), ("len", toString length)]
  | function result params =>
      describeRecord "Function"
        [("ret", result.describe), ("params", describeList (params.map TypeId.describe))]
  | struct name body packed =>
      describeRecord "Struct"
        [("name", Text.quoted name),
         ("body", describeOption (body.map fun fields =>
            describeList (fields.map TypeId.describe))),
         ("packed", describeBool packed)]

/-- The description of what a call calls. -/
def Callee.describe : Callee → String
  | direct function => describeTuple "Direct" [function.describe]
  | indirect type pointer =>
      describeRecord "Indirect" [("fn_ty", type.describe), ("ptr", pointer.describe)]

/-- The description of an instruction. -/
def Inst.describe : Inst → String
  | binary op lhs rhs =>
      describeRecord "Binary" [("op", op.name), ("lhs", lhs.describe), ("rhs", rhs.describe)]
  | unary op operand => describeRecord "Unary" [("op", op.name), ("operand", operand.describe)]
  | icmp pred lhs rhs =>
      describeRecord "ICmp" [("pred", pred.name), ("lhs", lhs.describe), ("rhs", rhs.describe)]
  | fcmp pred lhs rhs =>
      describeRecord "FCmp" [("pred", pred.name), ("lhs", lhs.describe), ("rhs", rhs.describe)]
  | cast op value => describeRecord "Cast" [("op", op.name), ("value", value.describe)]
  | alloca type => describeRecord "Alloca" [("ty", type.describe)]
  | load pointer => describeRecord "Load" [("ptr", pointer.describe)]
  | store pointer value isVolatile =>
      describeRecord "Store"
        [("ptr", pointer.describe), ("value", value.describe),
         ("volatile", describeBool isVolatile)]
  | structGep type pointer index =>
      describeRecord "StructGep"
        [("struct_ty", type.describe), ("ptr", pointer.describe), ("index", toString index)]
  | gep element pointer index =>
      describeRecord "Gep"
        [("element", element.describe), ("ptr", pointer.describe), ("index", index.describe)]
  | heapAlloc type count =>
      describeRecord "HeapAlloc"
        [("ty", type.describe), ("count", describeOption (count.map ValueId.describe))]
  | phi incoming =>
      describeRecord "Phi"
        [("incoming", describeList (incoming.map fun (value, block) =>
            describeTuple "" [value.describe, block.describe]))]
  | call callee args =>
      describeRecord "Call"
        [("callee", callee.describe), ("args", describeList (args.map ValueId.describe))]

/-- The description of the end of a block. -/
def Terminator.describe : Terminator → String
  | br target => describeTuple "Br" [target.describe]
  | condBr cond thenBlock elseBlock =>
      describeRecord "CondBr"
        [("cond", cond.describe), ("then_block", thenBlock.describe),
         ("else_block", elseBlock.describe)]
  | switch value default cases =>
      describeRecord "Switch"
        [("value", value.describe), ("default", default.describe),
         ("cases", describeList (cases.map fun (case, block) =>
            describeTuple "" [toString case, block.describe]))]
  | ret value => describeTuple "Ret" [describeOption (value.map ValueId.describe)]
  | unreachable => "Unreachable"

end CilSsa.Ssa
