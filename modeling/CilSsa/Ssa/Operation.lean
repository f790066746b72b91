/-!
The operators of SSA instructions, and the linkage of functions.
-/

namespace CilSsa.Ssa

/-- Who sees a function. -/
inductive Linkage where
  /-- Other modules too. -/
  | external
  /-- This module only. -/
  | internal
deriving DecidableEq, Repr

def Linkage.name : Linkage → String
  | .external => "External"
  | .internal => "Internal"

/-- Operators with two operands. -/
inductive BinaryOp where
  | add
  | sub
  | mul
  | sdiv
  | udiv
  | srem
  | urem
  | and
  | or
  | xor
  | shl
  /-- A right shift that repeats the sign. -/
  | ashr
  /-- A right shift that brings in zeros. -/
  | lshr
  | fadd
  | fsub
  | fmul
  | fdiv
  | frem
deriving DecidableEq, Repr

namespace BinaryOp

/-- Every one of them. -/
def all : List BinaryOp :=
  [.add, .sub, .mul, .sdiv, .udiv, .srem, .urem, .and, .or, .xor, .shl, .ashr, .lshr, .fadd,
   .fsub, .fmul, .fdiv, .frem]

/-- The mnemonic in printed modules. -/
def mnemonic : BinaryOp → String
  | add => "add"
  | sub => "sub"
  | mul => "mul"
  | sdiv => "sdiv"
  | udiv => "udiv"
  | srem => "srem"
  | urem => "urem"
  | and => "and"
  | or => "or"
  | xor => "xor"
  | shl => "shl"
  | ashr => "ashr"
  | lshr => "lshr"
  | fadd => "fadd"
  | fsub => "fsub"
  | fmul => "fmul"
  | fdiv => "fdiv"
  | frem => "frem"

def name : BinaryOp → String
  | add => "Add"
  | sub => "Sub"
  | mul => "Mul"
  | sdiv => "SDiv"
  | udiv => "UDiv"
  | srem => "SRem"
  | urem => "URem"
  | and => "And"
  | or => "Or"
  | xor => "Xor"
  | shl => "Shl"
  | ashr => "AShr"
  | lshr => "LShr"
  | fadd => "FAdd"
  | fsub => "FSub"
  | fmul => "FMul"
  | fdiv => "FDiv"
  | frem => "FRem"

/-- Whether the operands are floating-point numbers. -/
def isFloat : BinaryOp → Bool
  | fadd | fsub | fmul | fdiv | frem => true
  | _ => false

/-- Whether the second operand is a shift distance. -/
def isShift : BinaryOp → Bool
  | shl | ashr | lshr => true
  | _ => false

end BinaryOp

/-- Operators with one operand. -/
inductive UnaryOp where
  | neg
  | fneg
  | not
deriving DecidableEq, Repr

namespace UnaryOp

/-- Every one of them. -/
def all : List UnaryOp :=
  [.neg, .fneg, .not]

/-- The mnemonic in printed modules. -/
def mnemonic : UnaryOp → String
  | neg => "neg"
  | fneg => "fneg"
  | not => "not"

def name : UnaryOp → String
  | neg => "Neg"
  | fneg => "FNeg"
  | not => "Not"

end UnaryOp

/-- Conversions between types. -/
inductive CastOp where
  | trunc
  | zext
  | sext
  | fptrunc
  | fpext
  | fptosi
  | fptoui
  | sitofp
  | uitofp
  | ptrtoint
  | inttoptr
  | bitcast
deriving DecidableEq, Repr

namespace CastOp

/-- Every one of them. -/
def all : List CastOp :=
  [.trunc, .zext, .sext, .fptrunc, .fpext, .fptosi, .fptoui, .sitofp, .uitofp, .ptrtoint,
   .inttoptr, .bitcast]

/-- The mnemonic in printed modules. -/
def mnemonic : CastOp → String
  | trunc => "trunc"
  | zext => "zext"
  | sext => "sext"
  | fptrunc => "fptrunc"
  | fpext => "fpext"
  | fptosi => "fptosi"
  | fptoui => "fptoui"
  | sitofp => "sitofp"
  | uitofp => "uitofp"
  | ptrtoint => "ptrtoint"
  | inttoptr => "inttoptr"
  | bitcast => "bitcast"

def name : CastOp → String
  | trunc => "Trunc"
  | zext => "ZExt"
  | sext => "SExt"
  | fptrunc => "FpTrunc"
  | fpext => "FpExt"
  | fptosi => "FpToSi"
  | fptoui => "FpToUi"
  | sitofp => "SiToFp"
  | uitofp => "UiToFp"
  | ptrtoint => "PtrToInt"
  | inttoptr => "IntToPtr"
  | bitcast => "BitCast"

end CastOp

/-- Comparisons of integers and pointers. -/
inductive IntPredicate where
  | eq
  | ne
  | sgt
  | sge
  | slt
  | sle
  | ugt
  | uge
  | ult
  | ule
deriving DecidableEq, Repr

namespace IntPredicate

/-- Every one of them. -/
def all : List IntPredicate :=
  [.eq, .ne, .sgt, .sge, .slt, .sle, .ugt, .uge, .ult, .ule]

/-- The mnemonic in printed modules. -/
def mnemonic : IntPredicate → String
  | eq => "eq"
  | ne => "ne"
  | sgt => "sgt"
  | sge => "sge"
  | slt => "slt"
  | sle => "sle"
  | ugt => "ugt"
  | uge => "uge"
  | ult => "ult"
  | ule => "ule"

def name : IntPredicate → String
  | eq => "Eq"
  | ne => "Ne"
  | sgt => "Sgt"
  | sge => "Sge"
  | slt => "Slt"
  | sle => "Sle"
  | ugt => "Ugt"
  | uge => "Uge"
  | ult => "Ult"
  | ule => "Ule"

end IntPredicate

/-- Comparisons of floating-point numbers, ordered (`o`) or true on unordered operands (`u`). -/
inductive FloatPredicate where
  | oeq
  | one
  | ogt
  | oge
  | olt
  | ole
  | ueq
  | une
  | ugt
  | uge
  | ult
  | ule
deriving DecidableEq, Repr

namespace FloatPredicate

/-- Every one of them. -/
def all : List FloatPredicate :=
  [.oeq, .one, .ogt, .oge, .olt, .ole, .ueq, .une, .ugt, .uge, .ult, .ule]

/-- The mnemonic in printed modules. -/
def mnemonic : FloatPredicate → String
  | oeq => "oeq"
  | one => "one"
  | ogt => "ogt"
  | oge => "oge"
  | olt => "olt"
  | ole => "ole"
  | ueq => "ueq"
  | une => "une"
  | ugt => "ugt"
  | uge => "uge"
  | ult => "ult"
  | ule => "ule"

def name : FloatPredicate → String
  | oeq => "Oeq"
  | one => "One"
  | ogt => "Ogt"
  | oge => "Oge"
  | olt => "Olt"
  | ole => "Ole"
  | ueq => "Ueq"
  | une => "Une"
  | ugt => "Ugt"
  | uge => "Uge"
  | ult => "Ult"
  | ule => "Ule"

end FloatPredicate

end CilSsa.Ssa
