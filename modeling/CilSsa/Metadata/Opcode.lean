/-!
The operations of the stack machine, short and immediate forms included.

Prefixes such as `volatile.` are no operations of their own; an instruction carries them as a flag.
-/

namespace CilSsa.Metadata

/-- How an instruction passes control on. -/
inductive Flow where
  /-- To the next instruction. -/
  | next
  /-- To the operand's target. -/
  | branch
  /-- To the operand's target or to the next instruction. -/
  | condBranch
  /-- To one of the operand's targets or to the next instruction. -/
  | switch
  /-- Out of the method. -/
  | exit
  /-- To an exception handler. -/
  | raise
deriving DecidableEq, Repr

namespace Flow

/-- Whether control can reach the instruction that follows. -/
def fallsThrough : Flow → Bool
  | next | condBranch | switch => true
  | branch | exit | raise => false

/-- Whether the instruction is the last one of its basic block. -/
def endsBlock : Flow → Bool
  | next => false
  | branch | condBranch | switch | exit | raise => true

/-- Whether the operand has to name where control goes. -/
def needsTarget : Flow → Bool
  | branch | condBranch | switch => true
  | next | exit | raise => false

def name : Flow → String
  | next => "Next"
  | branch => "Branch"
  | condBranch => "CondBranch"
  | switch => "Switch"
  | exit => "Return"
  | raise => "Throw"

end Flow

/-- An operation. -/
inductive Opcode where
  | nop
  | breakpoint
  | ldarg0
  | ldarg1
  | ldarg2
  | ldarg3
  | ldloc0
  | ldloc1
  | ldloc2
  | ldloc3
  | stloc0
  | stloc1
  | stloc2
  | stloc3
  | ldargS
  | ldargaS
  | stargS
  | ldlocS
  | ldlocaS
  | stlocS
  | ldnull
  | ldcI4M1
  | ldcI40
  | ldcI41
  | ldcI42
  | ldcI43
  | ldcI44
  | ldcI45
  | ldcI46
  | ldcI47
  | ldcI48
  | ldcI4S
  | ldcI4
  | ldcI8
  | ldcR4
  | ldcR8
  | dup
  | pop
  | jmp
  | call
  | calli
  | ret
  | brS
  | brfalseS
  | brtrueS
  | beqS
  | bgeS
  | bgtS
  | bleS
  | bltS
  | bneUnS
  | bgeUnS
  | bgtUnS
  | bleUnS
  | bltUnS
  | br
  | brfalse
  | brtrue
  | beq
  | bge
  | bgt
  | ble
  | blt
  | bneUn
  | bgeUn
  | bgtUn
  | bleUn
  | bltUn
  | switch
  | ldindI1
  | ldindU1
  | ldindI2
  | ldindU2
  | ldindI4
  | ldindU4
  | ldindI8
  | ldindI
  | ldindR4
  | ldindR8
  | ldindRef
  | stindRef
  | stindI1
  | stindI2
  | stindI4
  | stindI8
  | stindR4
  | stindR8
  | add
  | sub
  | mul
  | div
  | divUn
  | rem
  | remUn
  | and
  | or
  | xor
  | shl
  | shr
  | shrUn
  | neg
  | not
  | convI1
  | convI2
  | convI4
  | convI8
  | convR4
  | convR8
  | convU4
  | convU8
  | callvirt
  | cpobj
  | ldobj
  | ldstr
  | newobj
  | castclass
  | isinst
  | convRUn
  | unbox
  | throw
  | ldfld
  | ldflda
  | stfld
  | ldsfld
  | ldsflda
  | stsfld
  | stobj
  | convOvfI1Un
  | convOvfI2Un
  | convOvfI4Un
  | convOvfI8Un
  | convOvfU1Un
  | convOvfU2Un
  | convOvfU4Un
  | convOvfU8Un
  | convOvfIUn
  | convOvfUUn
  | box
  | newarr
  | ldlen
  | ldelema
  | ldelemI1
  | ldelemU1
  | ldelemI2
  | ldelemU2
  | ldelemI4
  | ldelemU4
  | ldelemI8
  | ldelemI
  | ldelemR4
  | ldelemR8
  | ldelemRef
  | stelemI
  | stelemI1
  | stelemI2
  | stelemI4
  | stelemI8
  | stelemR4
  | stelemR8
  | stelemRef
  | ldelem
  | stelem
  | unboxAny
  | convOvfI1
  | convOvfU1
  | convOvfI2
  | convOvfU2
  | convOvfI4
  | convOvfU4
  | convOvfI8
  | convOvfU8
  | refanyval
  | ckfinite
  | mkrefany
  | ldtoken
  | convU2
  | convU1
  | convI
  | convOvfI
  | convOvfU
  | addOvf
  | addOvfUn
  | mulOvf
  | mulOvfUn
  | subOvf
  | subOvfUn
  | endfinally
  | leave
  | leaveS
  | stindI
  | convU
  | arglist
  | ceq
  | cgt
  | cgtUn
  | clt
  | cltUn
  | ldftn
  | ldvirtftn
  | ldarg
  | ldarga
  | starg
  | ldloc
  | ldloca
  | stloc
  | localloc
  | endfilter
  | initobj
  | cpblk
  | initblk
  | rethrow
  | sizeof
  | refanytype
deriving DecidableEq, Repr

namespace Opcode

/-- Every operation, in the order of the encodings. -/
def all : List Opcode :=
  [nop, breakpoint, ldarg0, ldarg1, ldarg2, ldarg3, ldloc0, ldloc1, ldloc2, ldloc3, stloc0,
   stloc1, stloc2, stloc3, ldargS, ldargaS, stargS, ldlocS, ldlocaS, stlocS, ldnull, ldcI4M1,
   ldcI40, ldcI41, ldcI42, ldcI43, ldcI44, ldcI45, ldcI46, ldcI47, ldcI48, ldcI4S, ldcI4,
   ldcI8, ldcR4, ldcR8, dup, pop, jmp, call, calli, ret, brS, brfalseS, brtrueS, beqS, bgeS,
   bgtS, bleS, bltS, bneUnS, bgeUnS, bgtUnS, bleUnS, bltUnS, br, brfalse, brtrue, beq, bge,
   bgt, ble, blt, bneUn, bgeUn, bgtUn, bleUn, bltUn, switch, ldindI1, ldindU1, ldindI2,
   ldindU2, ldindI4, ldindU4, ldindI8, ldindI, ldindR4, ldindR8, ldindRef, stindRef, stindI1,
   stindI2, stindI4, stindI8, stindR4, stindR8, add, sub, mul, div, divUn, rem, remUn, and, or,
   xor, shl, shr, shrUn, neg, not, convI1, convI2, convI4, convI8, convR4, convR8, convU4,
   convU8, callvirt, cpobj, ldobj, ldstr, newobj, castclass, isinst, convRUn, unbox, throw,
   ldfld, ldflda, stfld, ldsfld, ldsflda, stsfld, stobj, convOvfI1Un, convOvfI2Un, convOvfI4Un,
   convOvfI8Un, convOvfU1Un, convOvfU2Un, convOvfU4Un, convOvfU8Un, convOvfIUn, convOvfUUn,
   box, newarr, ldlen, ldelema, ldelemI1, ldelemU1, ldelemI2, ldelemU2, ldelemI4, ldelemU4,
   ldelemI8, ldelemI, ldelemR4, ldelemR8, ldelemRef, stelemI, stelemI1, stelemI2, stelemI4,
   stelemI8, stelemR4, stelemR8, stelemRef, ldelem, stelem, unboxAny, convOvfI1, convOvfU1,
   convOvfI2, convOvfU2, convOvfI4, convOvfU4, convOvfI8, convOvfU8, refanyval, ckfinite,
   mkrefany, ldtoken, convU2, convU1, convI, convOvfI, convOvfU, addOvf, addOvfUn, mulOvf,
   mulOvfUn, subOvf, subOvfUn, endfinally, leave, leaveS, stindI, convU, arglist, ceq, cgt,
   cgtUn, clt, cltUn, ldftn, ldvirtftn, ldarg, ldarga, starg, ldloc, ldloca, stloc, localloc,
   endfilter, initobj, cpblk, initblk, rethrow, sizeof, refanytype]

theorem mem_all (op : Opcode) : op ∈ all := by
  have hall : (List.range 213).map ofNat = all := by decide +kernel
  have hlt : op.ctorIdx < 213 := by cases op <;> decide
  rw [← hall]
  exact List.mem_map.mpr ⟨op.ctorIdx, List.mem_range.mpr hlt, ofNat_ctorIdx op⟩

/-- The name of an operation in serialized form. -/
def name : Opcode → String
  | nop => "Nop"
  | breakpoint => "Break"
  | ldarg0 => "Ldarg0"
  | ldarg1 => "Ldarg1"
  | ldarg2 => "Ldarg2"
  | ldarg3 => "Ldarg3"
  | ldloc0 => "Ldloc0"
  | ldloc1 => "Ldloc1"
  | ldloc2 => "Ldloc2"
  | ldloc3 => "Ldloc3"
  | stloc0 => "Stloc0"
  | stloc1 => "Stloc1"
  | stloc2 => "Stloc2"
  | stloc3 => "Stloc3"
  | ldargS => "LdargS"
  | ldargaS => "LdargaS"
  | stargS => "StargS"
  | ldlocS => "LdlocS"
  | ldlocaS => "LdlocaS"
  | stlocS => "StlocS"
  | ldnull => "Ldnull"
  | ldcI4M1 => "LdcI4M1"
  | ldcI40 => "LdcI40"
  | ldcI41 => "LdcI41"
  | ldcI42 => "LdcI42"
  | ldcI43 => "LdcI43"
  | ldcI44 => "LdcI44"
  | ldcI45 => "LdcI45"
  | ldcI46 => "LdcI46"
  | ldcI47 => "LdcI47"
  | ldcI48 => "LdcI48"
  | ldcI4S => "LdcI4S"
  | ldcI4 => "LdcI4"
  | ldcI8 => "LdcI8"
  | ldcR4 => "LdcR4"
  | ldcR8 => "LdcR8"
  | dup => "Dup"
  | pop => "Pop"
  | jmp => "Jmp"
  | call => "Call"
  | calli => "Calli"
  | ret => "Ret"
  | brS => "BrS"
  | brfalseS => "BrfalseS"
  | brtrueS => "BrtrueS"
  | beqS => "BeqS"
  | bgeS => "BgeS"
  | bgtS => "BgtS"
  | bleS => "BleS"
  | bltS => "BltS"
  | bneUnS => "BneUnS"
  | bgeUnS => "BgeUnS"
  | bgtUnS => "BgtUnS"
  | bleUnS => "BleUnS"
  | bltUnS => "BltUnS"
  | br => "Br"
  | brfalse => "Brfalse"
  | brtrue => "Brtrue"
  | beq => "Beq"
  | bge => "Bge"
  | bgt => "Bgt"
  | ble => "Ble"
  | blt => "Blt"
  | bneUn => "BneUn"
  | bgeUn => "BgeUn"
  | bgtUn => "BgtUn"
  | bleUn => "BleUn"
  | bltUn => "BltUn"
  | switch => "Switch"
  | ldindI1 => "LdindI1"
  | ldindU1 => "LdindU1"
  | ldindI2 => "LdindI2"
  | ldindU2 => "LdindU2"
  | ldindI4 => "LdindI4"
  | ldindU4 => "LdindU4"
  | ldindI8 => "LdindI8"
  | ldindI => "LdindI"
  | ldindR4 => "LdindR4"
  | ldindR8 => "LdindR8"
  | ldindRef => "LdindRef"
  | stindRef => "StindRef"
  | stindI1 => "StindI1"
  | stindI2 => "StindI2"
  | stindI4 => "StindI4"
  | stindI8 => "StindI8"
  | stindR4 => "StindR4"
  | stindR8 => "StindR8"
  | add => "Add"
  | sub => "Sub"
  | mul => "Mul"
  | div => "Div"
  | divUn => "DivUn"
  | rem => "Rem"
  | remUn => "RemUn"
  | and => "And"
  | or => "Or"
  | xor => "Xor"
  | shl => "Shl"
  | shr => "Shr"
  | shrUn => "ShrUn"
  | neg => "Neg"
  | not => "Not"
  | convI1 => "ConvI1"
  | convI2 => "ConvI2"
  | convI4 => "ConvI4"
  | convI8 => "ConvI8"
  | convR4 => "ConvR4"
  | convR8 => "ConvR8"
  | convU4 => "ConvU4"
  | convU8 => "ConvU8"
  | callvirt => "Callvirt"
  | cpobj => "Cpobj"
  | ldobj => "Ldobj"
  | ldstr => "Ldstr"
  | newobj => "Newobj"
  | castclass => "Castclass"
  | isinst => "Isinst"
  | convRUn => "ConvRUn"
  | unbox => "Unbox"
  | throw => "Throw"
  | ldfld => "Ldfld"
  | ldflda => "Ldflda"
  | stfld => "Stfld"
  | ldsfld => "Ldsfld"
  | ldsflda => "Ldsflda"
  | stsfld => "Stsfld"
  | stobj => "Stobj"
  | convOvfI1Un => "ConvOvfI1Un"
  | convOvfI2Un => "ConvOvfI2Un"
  | convOvfI4Un => "ConvOvfI4Un"
  | convOvfI8Un => "ConvOvfI8Un"
  | convOvfU1Un => "ConvOvfU1Un"
  | convOvfU2Un => "ConvOvfU2Un"
  | convOvfU4Un => "ConvOvfU4Un"
  | convOvfU8Un => "ConvOvfU8Un"
  | convOvfIUn => "ConvOvfIUn"
  | convOvfUUn => "ConvOvfUUn"
  | box => "Box"
  | newarr => "Newarr"
  | ldlen => "Ldlen"
  | ldelema => "Ldelema"
  | ldelemI1 => "LdelemI1"
  | ldelemU1 => "LdelemU1"
  | ldelemI2 => "LdelemI2"
  | ldelemU2 => "LdelemU2"
  | ldelemI4 => "LdelemI4"
  | ldelemU4 => "LdelemU4"
  | ldelemI8 => "LdelemI8"
  | ldelemI => "LdelemI"
  | ldelemR4 => "LdelemR4"
  | ldelemR8 => "LdelemR8"
  | ldelemRef => "LdelemRef"
  | stelemI => "StelemI"
  | stelemI1 => "StelemI1"
  | stelemI2 => "StelemI2"
  | stelemI4 => "StelemI4"
  | stelemI8 => "StelemI8"
  | stelemR4 => "StelemR4"
  | stelemR8 => "StelemR8"
  | stelemRef => "StelemRef"
  | ldelem => "Ldelem"
  | stelem => "Stelem"
  | unboxAny => "UnboxAny"
  | convOvfI1 => "ConvOvfI1"
  | convOvfU1 => "ConvOvfU1"
  | convOvfI2 => "ConvOvfI2"
  | convOvfU2 => "ConvOvfU2"
  | convOvfI4 => "ConvOvfI4"
  | convOvfU4 => "ConvOvfU4"
  | convOvfI8 => "ConvOvfI8"
  | convOvfU8 => "ConvOvfU8"
  | refanyval => "Refanyval"
  | ckfinite => "Ckfinite"
  | mkrefany => "Mkrefany"
  | ldtoken => "Ldtoken"
  | convU2 => "ConvU2"
  | convU1 => "ConvU1"
  | convI => "ConvI"
  | convOvfI => "ConvOvfI"
  | convOvfU => "ConvOvfU"
  | addOvf => "AddOvf"
  | addOvfUn => "AddOvfUn"
  | mulOvf => "MulOvf"
  | mulOvfUn => "MulOvfUn"
  | subOvf => "SubOvf"
  | subOvfUn => "SubOvfUn"
  | endfinally => "Endfinally"
  | leave => "Leave"
  | leaveS => "LeaveS"
  | stindI => "StindI"
  | convU => "ConvU"
  | arglist => "Arglist"
  | ceq => "Ceq"
  | cgt => "Cgt"
  | cgtUn => "CgtUn"
  | clt => "Clt"
  | cltUn => "CltUn"
  | ldftn => "Ldftn"
  | ldvirtftn => "Ldvirtftn"
  | ldarg => "Ldarg"
  | ldarga => "Ldarga"
  | starg => "Starg"
  | ldloc => "Ldloc"
  | ldloca => "Ldloca"
  | stloc => "Stloc"
  | localloc => "Localloc"
  | endfilter => "Endfilter"
  | initobj => "Initobj"
  | cpblk => "Cpblk"
  | initblk => "Initblk"
  | rethrow => "Rethrow"
  | sizeof => "Sizeof"
  | refanytype => "Refanytype"

/-- The assembler mnemonic of an operation. -/
def mnemonic : Opcode → String
  | nop => "nop"
  | breakpoint => "break"
  | ldarg0 => "ldarg.0"
  | ldarg1 => "ldarg.1"
  | ldarg2 => "ldarg.2"
  | ldarg3 => "ldarg.3"
  | ldloc0 => "ldloc.0"
  | ldloc1 => "ldloc.1"
  | ldloc2 => "ldloc.2"
  | ldloc3 => "ldloc.3"
  | stloc0 => "stloc.0"
  | stloc1 => "stloc.1"
  | stloc2 => "stloc.2"
  | stloc3 => "stloc.3"
  | ldargS => "ldarg.s"
  | ldargaS => "ldarga.s"
  | stargS => "starg.s"
  | ldlocS => "ldloc.s"
  | ldlocaS => "ldloca.s"
  | stlocS => "stloc.s"
  | ldnull => "ldnull"
  | ldcI4M1 => "ldc.i4.m1"
  | ldcI40 => "ldc.i4.0"
  | ldcI41 => "ldc.i4.1"
  | ldcI42 => "ldc.i4.2"
  | ldcI43 => "ldc.i4.3"
  | ldcI44 => "ldc.i4.4"
  | ldcI45 => "ldc.i4.5"
  | ldcI46 => "ldc.i4.6"
  | ldcI47 => "ldc.i4.7"
  | ldcI48 => "ldc.i4.8"
  | ldcI4S => "ldc.i4.s"
  | ldcI4 => "ldc.i4"
  | ldcI8 => "ldc.i8"
  | ldcR4 => "ldc.r4"
  | ldcR8 => "ldc.r8"
  | dup => "dup"
  | pop => "pop"
  | jmp => "jmp"
  | call => "call"
  | calli => "calli"
  | ret => "ret"
  | brS => "br.s"
  | brfalseS => "brfalse.s"
  | brtrueS => "brtrue.s"
  | beqS => "beq.s"
  | bgeS => "bge.s"
  | bgtS => "bgt.s"
  | bleS => "ble.s"
  | bltS => "blt.s"
  | bneUnS => "bne.un.s"
  | bgeUnS => "bge.un.s"
  | bgtUnS => "bgt.un.s"
  | bleUnS => "ble.un.s"
  | bltUnS => "blt.un.s"
  | br => "br"
  | brfalse => "brfalse"
  | brtrue => "brtrue"
  | beq => "beq"
  | bge => "bge"
  | bgt => "bgt"
  | ble => "ble"
  | blt => "blt"
  | bneUn => "bne.un"
  | bgeUn => "bge.un"
  | bgtUn => "bgt.un"
  | bleUn => "ble.un"
  | bltUn => "blt.un"
  | switch => "switch"
  | ldindI1 => "ldind.i1"
  | ldindU1 => "ldind.u1"
  | ldindI2 => "ldind.i2"
  | ldindU2 => "ldind.u2"
  | ldindI4 => "ldind.i4"
  | ldindU4 => "ldind.u4"
  | ldindI8 => "ldind.i8"
  | ldindI => "ldind.i"
  | ldindR4 => "ldind.r4"
  | ldindR8 => "ldind.r8"
  | ldindRef => "ldind.ref"
  | stindRef => "stind.ref"
  | stindI1 => "stind.i1"
  | stindI2 => "stind.i2"
  | stindI4 => "stind.i4"
  | stindI8 => "stind.i8"
  | stindR4 => "stind.r4"
  | stindR8 => "stind.r8"
  | add => "add"
  | sub => "sub"
  | mul => "mul"
  | div => "div"
  | divUn => "div.un"
  | rem => "rem"
  | remUn => "rem.un"
  | and => "and"
  | or => "or"
  | xor => "xor"
  | shl => "shl"
  | shr => "shr"
  | shrUn => "shr.un"
  | neg => "neg"
  | not => "not"
  | convI1 => "conv.i1"
  | convI2 => "conv.i2"
  | convI4 => "conv.i4"
  | convI8 => "conv.i8"
  | convR4 => "conv.r4"
  | convR8 => "conv.r8"
  | convU4 => "conv.u4"
  | convU8 => "conv.u8"
  | callvirt => "callvirt"
  | cpobj => "cpobj"
  | ldobj => "ldobj"
  | ldstr => "ldstr"
  | newobj => "newobj"
  | castclass => "castclass"
  | isinst => "isinst"
  | convRUn => "conv.r.un"
  | unbox => "unbox"
  | throw => "throw"
  | ldfld => "ldfld"
  | ldflda => "ldflda"
  | stfld => "stfld"
  | ldsfld => "ldsfld"
  | ldsflda => "ldsflda"
  | stsfld => "stsfld"
  | stobj => "stobj"
  | convOvfI1Un => "conv.ovf.i1.un"
  | convOvfI2Un => "conv.ovf.i2.un"
  | convOvfI4Un => "conv.ovf.i4.un"
  | convOvfI8Un => "conv.ovf.i8.un"
  | convOvfU1Un => "conv.ovf.u1.un"
  | convOvfU2Un => "conv.ovf.u2.un"
  | convOvfU4Un => "conv.ovf.u4.un"
  | convOvfU8Un => "conv.ovf.u8.un"
  | convOvfIUn => "conv.ovf.i.un"
  | convOvfUUn => "conv.ovf.u.un"
  | box => "box"
  | newarr => "newarr"
  | ldlen => "ldlen"
  | ldelema => "ldelema"
  | ldelemI1 => "ldelem.i1"
  | ldelemU1 => "ldelem.u1"
  | ldelemI2 => "ldelem.i2"
  | ldelemU2 => "ldelem.u2"
  | ldelemI4 => "ldelem.i4"
  | ldelemU4 => "ldelem.u4"
  | ldelemI8 => "ldelem.i8"
  | ldelemI => "ldelem.i"
  | ldelemR4 => "ldelem.r4"
  | ldelemR8 => "ldelem.r8"
  | ldelemRef => "ldelem.ref"
  | stelemI => "stelem.i"
  | stelemI1 => "stelem.i1"
  | stelemI2 => "stelem.i2"
  | stelemI4 => "stelem.i4"
  | stelemI8 => "stelem.i8"
  | stelemR4 => "stelem.r4"
  | stelemR8 => "stelem.r8"
  | stelemRef => "stelem.ref"
  | ldelem => "ldelem"
  | stelem => "stelem"
  | unboxAny => "unbox.any"
  | convOvfI1 => "conv.ovf.i1"
  | convOvfU1 => "conv.ovf.u1"
  | convOvfI2 => "conv.ovf.i2"
  | convOvfU2 => "conv.ovf.u2"
  | convOvfI4 => "conv.ovf.i4"
  | convOvfU4 => "conv.ovf.u4"
  | convOvfI8 => "conv.ovf.i8"
  | convOvfU8 => "conv.ovf.u8"
  | refanyval => "refanyval"
  | ckfinite => "ckfinite"
  | mkrefany => "mkrefany"
  | ldtoken => "ldtoken"
  | convU2 => "conv.u2"
  | convU1 => "conv.u1"
  | convI => "conv.i"
  | convOvfI => "conv.ovf.i"
  | convOvfU => "conv.ovf.u"
  | addOvf => "add.ovf"
  | addOvfUn => "add.ovf.un"
  | mulOvf => "mul.ovf"
  | mulOvfUn => "mul.ovf.un"
  | subOvf => "sub.ovf"
  | subOvfUn => "sub.ovf.un"
  | endfinally => "endfinally"
  | leave => "leave"
  | leaveS => "leave.s"
  | stindI => "stind.i"
  | convU => "conv.u"
  | arglist => "arglist"
  | ceq => "ceq"
  | cgt => "cgt"
  | cgtUn => "cgt.un"
  | clt => "clt"
  | cltUn => "clt.un"
  | ldftn => "ldftn"
  | ldvirtftn => "ldvirtftn"
  | ldarg => "ldarg"
  | ldarga => "ldarga"
  | starg => "starg"
  | ldloc => "ldloc"
  | ldloca => "ldloca"
  | stloc => "stloc"
  | localloc => "localloc"
  | endfilter => "endfilter"
  | initobj => "initobj"
  | cpblk => "cpblk"
  | initblk => "initblk"
  | rethrow => "rethrow"
  | sizeof => "sizeof"
  | refanytype => "refanytype"

/-- How an operation passes control on. -/
def flow : Opcode → Flow
  | brS | br | leave | leaveS => .branch
  | brfalseS | brtrueS | beqS | bgeS | bgtS | bleS | bltS | bneUnS | bgeUnS | bgtUnS | bleUnS |
    bltUnS | brfalse | brtrue | beq | bge | bgt | ble | blt | bneUn | bgeUn | bgtUn | bleUn |
    bltUn => .condBranch
  | switch => .switch
  | jmp | ret | endfinally | endfilter => .exit
  | throw | rethrow => .raise
  | _ => .next

end Opcode

end CilSsa.Metadata
