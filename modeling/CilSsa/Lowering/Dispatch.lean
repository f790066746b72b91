import CilSsa.Metadata.Opcode
import CilSsa.Metadata.Signature
import CilSsa.Ssa.Operation

/-!
What each operation does.  Short and immediate forms of an operation are the same action; an
operation without an action is either skipped with its method or refused.
-/

namespace CilSsa.Lowering

open CilSsa.Metadata CilSsa.Ssa

inductive ConstantSource where
  /-- The operation itself. -/
  | fixed (value : Int)
  | int32
  | int64
  | float32
  | float64
deriving DecidableEq, Repr

inductive VariableKind where
  | argument
  | local
deriving DecidableEq, Repr

/-- A comparison, apart from signs and floating-point order. -/
inductive Relation where
  | eq
  | ne
  | gt
  | ge
  | lt
  | le
deriving DecidableEq, Repr

/-- Where the type of an array element comes from. -/
inductive ElementSource where
  /-- The operation itself. -/
  | fixed (sig : TypeSig)
  /-- The operand. -/
  | token
  /-- The array for loads, the stored value for stores. -/
  | reference
deriving DecidableEq, Repr

/-- What an operation does. -/
inductive Action where
  | constant (source : ConstantSource)
  | null
  | string
  /-- Variables are numbered by the operation, or else by the operand. -/
  | loadVariable (kind : VariableKind) (fixed : Option Nat)
  | loadVariableAddress (kind : VariableKind)
  | storeVariable (kind : VariableKind) (fixed : Option Nat)
  | nop
  | dup
  | pop
  | sizeof
  | binary (op : BinaryOp)
  | negate
  | complement
  | compare (relation : Relation) (unsigned : Bool)
  | branch
  | branchIf (onZero : Bool)
  | compareBranch (relation : Relation) (unsigned : Bool)
  | switch
  | ret
  | convert (target : TypeSig) (unsignedSource : Bool)
  /-- Without a signature the type is that of a reference. -/
  | loadIndirect (sig : Option TypeSig)
  | storeIndirect (sig : Option TypeSig)
  | loadObject
  | storeObject
  | initObject
  | loadField
  | loadFieldAddress
  | storeField
  | loadStatic
  | loadStaticAddress
  | storeStatic
  | call
  | callVirtual
  | newObject
  | newArray
  | loadElementAddress
  | loadElement (source : ElementSource)
  | storeElement (source : ElementSource)
deriving DecidableEq, Repr

/-- How an operation is treated. -/
inductive Dispatch where
  | action (action : Action)
  /-- Not lowered yet: the method is skipped. -/
  | deferred
  /-- Never lowered: the compilation fails. -/
  | unsupported
deriving DecidableEq, Repr

def Dispatch.word : Dispatch → String
  | .action _ => "handler"
  | .deferred => "deferred"
  | .unsupported => "unsupported"

/-- The treatment of an operation. -/
def dispatch : Opcode → Dispatch
  | .ldcI4M1 => .action (.constant (.fixed (-1)))
  | .ldcI40 => .action (.constant (.fixed 0))
  | .ldcI41 => .action (.constant (.fixed 1))
  | .ldcI42 => .action (.constant (.fixed 2))
  | .ldcI43 => .action (.constant (.fixed 3))
  | .ldcI44 => .action (.constant (.fixed 4))
  | .ldcI45 => .action (.constant (.fixed 5))
  | .ldcI46 => .action (.constant (.fixed 6))
  | .ldcI47 => .action (.constant (.fixed 7))
  | .ldcI48 => .action (.constant (.fixed 8))
  | .ldcI4S | .ldcI4 => .action (.constant .int32)
  | .ldcI8 => .action (.constant .int64)
  | .ldcR4 => .action (.constant .float32)
  | .ldcR8 => .action (.constant .float64)
  | .ldnull => .action .null
  | .ldstr => .action .string
  | .ldarg0 => .action (.loadVariable .argument (some 0))
  | .ldarg1 => .action (.loadVariable .argument (some 1))
  | .ldarg2 => .action (.loadVariable .argument (some 2))
  | .ldarg3 => .action (.loadVariable .argument (some 3))
  | .ldargS | .ldarg => .action (.loadVariable .argument none)
  | .ldargaS | .ldarga => .action (.loadVariableAddress .argument)
  | .stargS | .starg => .action (.storeVariable .argument none)
  | .ldloc0 => .action (.loadVariable .local (some 0))
  | .ldloc1 => .action (.loadVariable .local (some 1))
  | .ldloc2 => .action (.loadVariable .local (some 2))
  | .ldloc3 => .action (.loadVariable .local (some 3))
  | .ldlocS | .ldloc => .action (.loadVariable .local none)
  | .ldlocaS | .ldloca => .action (.loadVariableAddress .local)
  | .stloc0 => .action (.storeVariable .local (some 0))
  | .stloc1 => .action (.storeVariable .local (some 1))
  | .stloc2 => .action (.storeVariable .local (some 2))
  | .stloc3 => .action (.storeVariable .local (some 3))
  | .stlocS | .stloc => .action (.storeVariable .local none)
  | .nop => .action .nop
  | .dup => .action .dup
  | .pop => .action .pop
  | .sizeof => .action .sizeof
  | .add | .addOvf | .addOvfUn => .action (.binary .add)
  | .sub | .subOvf | .subOvfUn => .action (.binary .sub)
  | .mul | .mulOvf | .mulOvfUn => .action (.binary .mul)
  | .div => .action (.binary .sdiv)
  | .divUn => .action (.binary .udiv)
  | .rem => .action (.binary .srem)
  | .remUn => .action (.binary .urem)
  | .and => .action (.binary .and)
  | .or => .action (.binary .or)
  | .xor => .action (.binary .xor)
  | .shl => .action (.binary .shl)
  | .shr => .action (.binary .ashr)
  | .shrUn => .action (.binary .lshr)
  | .neg => .action .negate
  | .not => .action .complement
  | .ceq => .action (.compare .eq false)
  | .cgt => .action (.compare .gt false)
  | .cgtUn => .action (.compare .gt true)
  | .clt => .action (.compare .lt false)
  | .cltUn => .action (.compare .lt true)
  | .br | .brS => .action .branch
  | .brtrue | .brtrueS => .action (.branchIf false)
  | .brfalse | .brfalseS => .action (.branchIf true)
  | .beq | .beqS => .action (.compareBranch .eq false)
  | .bge | .bgeS => .action (.compareBranch .ge false)
  | .bgt | .bgtS => .action (.compareBranch .gt false)
  | .ble | .bleS => .action (.compareBranch .le false)
  | .blt | .bltS => .action (.compareBranch .lt false)
  | .bneUn | .bneUnS => .action (.compareBranch .ne true)
  | .bgeUn | .bgeUnS => .action (.compareBranch .ge true)
  | .bgtUn | .bgtUnS => .action (.compareBranch .gt true)
  | .bleUn | .bleUnS => .action (.compareBranch .le true)
  | .bltUn | .bltUnS => .action (.compareBranch .lt true)
  | .switch => .action .switch
  | .ret => .action .ret
  | .convI1 | .convOvfI1 => .action (.convert .i1 false)
  | .convU1 | .convOvfU1 => .action (.convert .u1 false)
  | .convI2 | .convOvfI2 => .action (.convert .i2 false)
  | .convU2 | .convOvfU2 => .action (.convert .u2 false)
  | .convI4 | .convOvfI4 => .action (.convert .i4 false)
  | .convU4 | .convOvfU4 => .action (.convert .u4 false)
  | .convI8 | .convOvfI8 => .action (.convert .i8 false)
  | .convU8 | .convOvfU8 => .action (.convert .u8 false)
  | .convI | .convOvfI => .action (.convert .intPtr false)
  | .convU | .convOvfU => .action (.convert .uintPtr false)
  | .convR4 => .action (.convert .r4 false)
  | .convR8 => .action (.convert .r8 false)
  | .convRUn => .action (.convert .r8 true)
  | .convOvfI1Un => .action (.convert .i1 true)
  | .convOvfU1Un => .action (.convert .u1 true)
  | .convOvfI2Un => .action (.convert .i2 true)
  | .convOvfU2Un => .action (.convert .u2 true)
  | .convOvfI4Un => .action (.convert .i4 true)
  | .convOvfU4Un => .action (.convert .u4 true)
  | .convOvfI8Un => .action (.convert .i8 true)
  | .convOvfU8Un => .action (.convert .u8 true)
  | .convOvfIUn => .action (.convert .intPtr true)
  | .convOvfUUn => .action (.convert .uintPtr true)
  | .ldindI1 => .action (.loadIndirect (some .i1))
  | .ldindU1 => .action (.loadIndirect (some .u1))
  | .ldindI2 => .action (.loadIndirect (some .i2))
  | .ldindU2 => .action (.loadIndirect (some .u2))
  | .ldindI4 => .action (.loadIndirect (some .i4))
  | .ldindU4 => .action (.loadIndirect (some .u4))
  | .ldindI8 => .action (.loadIndirect (some .i8))
  | .ldindI => .action (.loadIndirect (some .intPtr))
  | .ldindR4 => .action (.loadIndirect (some .r4))
  | .ldindR8 => .action (.loadIndirect (some .r8))
  | .ldindRef => .action (.loadIndirect none)
  | .stindI1 => .action (.storeIndirect (some .i1))
  | .stindI2 => .action (.storeIndirect (some .i2))
  | .stindI4 => .action (.storeIndirect (some .i4))
  | .stindI8 => .action (.storeIndirect (some .i8))
  | .stindI => .action (.storeIndirect (some .intPtr))
  | .stindR4 => .action (.storeIndirect (some .r4))
  | .stindR8 => .action (.storeIndirect (some .r8))
  | .stindRef => .action (.storeIndirect none)
  | .ldobj => .action .loadObject
  | .stobj => .action .storeObject
  | .initobj => .action .initObject
  | .ldfld => .action .loadField
  | .ldflda => .action .loadFieldAddress
  | .stfld => .action .storeField
  | .ldsfld => .action .loadStatic
  | .ldsflda => .action .loadStaticAddress
  | .stsfld => .action .storeStatic
  | .call => .action .call
  | .callvirt => .action .callVirtual
  | .newobj => .action .newObject
  | .newarr => .action .newArray
  | .ldelema => .action .loadElementAddress
  | .ldelemI1 => .action (.loadElement (.fixed .i1))
  | .ldelemU1 => .action (.loadElement (.fixed .u1))
  | .ldelemI2 => .action (.loadElement (.fixed .i2))
  | .ldelemU2 => .action (.loadElement (.fixed .u2))
  | .ldelemI4 => .action (.loadElement (.fixed .i4))
  | .ldelemU4 => .action (.loadElement (.fixed .u4))
  | .ldelemI8 => .action (.loadElement (.fixed .i8))
  | .ldelemI => .action (.loadElement (.fixed .intPtr))
  | .ldelemR4 => .action (.loadElement (.fixed .r4))
  | .ldelemR8 => .action (.loadElement (.fixed .r8))
  | .ldelemRef => .action (.loadElement .reference)
  | .ldelem => .action (.loadElement .token)
  | .stelemI => .action (.storeElement (.fixed .intPtr))
  | .stelemI1 => .action (.storeElement (.fixed .i1))
  | .stelemI2 => .action (.storeElement (.fixed .i2))
  | .stelemI4 => .action (.storeElement (.fixed .i4))
  | .stelemI8 => .action (.storeElement (.fixed .i8))
  | .stelemR4 => .action (.storeElement (.fixed .r4))
  | .stelemR8 => .action (.storeElement (.fixed .r8))
  | .stelemRef => .action (.storeElement .reference)
  | .stelem => .action (.storeElement .token)
  | .box | .unbox | .unboxAny | .isinst | .castclass | .throw | .rethrow | .leave | .leaveS
  | .endfinally | .endfilter | .ldtoken | .ldftn | .ldvirtftn | .ldlen | .localloc
  | .ckfinite => .deferred
  | .breakpoint | .jmp | .calli | .arglist | .mkrefany | .refanyval | .refanytype | .cpblk
  | .initblk | .cpobj => .unsupported

/-- The action of an operation that has one. -/
def Dispatch.action? : Dispatch → Option Action
  | .action a => some a
  | _ => none

/-- What is found when all operations are looked at holds of an operation and its action. -/
theorem of_dispatch {P : Opcode → Action → Prop} {opcode : Opcode} {action : Action}
    (h : dispatch opcode = .action action)
    (hall : ∀ op ∈ Opcode.all, ∀ a ∈ (dispatch op).action?, P op a) : P opcode action :=
  hall opcode opcode.mem_all action (by rw [h]; rfl)

end CilSsa.Lowering
