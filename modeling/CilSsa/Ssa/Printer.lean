import CilSsa.Numeric.Printed
import CilSsa.Ssa.Module

/-!
The printed form of a module.
-/

namespace CilSsa.Ssa

def commas (texts : List String) : String := ", ".intercalate texts

namespace Module

variable (m : Module)

/-- A type, with `fuel` bounding how deep pointers, arrays and functions nest. -/
def typeTextWith : Nat → TypeId → Except Fault String
  | 0, _ => .error .endless
  | fuel + 1, id => do
      match ← m.typeData id with
      | .void => return "void"
      | .int bits => return s!"i{bits}"
      | .float bits => return if bits = 32 then "float" else "double"
      | .pointer pointee => return (← typeTextWith fuel pointee) ++ "*"
      | .array element length => return s!"[{length} x {← typeTextWith fuel element}]"
      | .function result params => do
          let params ← params.mapM (typeTextWith fuel)
          return s!"{← typeTextWith fuel result} ({commas params})"
      | .struct name _ _ => return "%" ++ name

def typeText (id : TypeId) : Except Fault String := m.typeTextWith (m.types.size + 1) id

def zeroText : IrType → String
  | .pointer _ => "null"
  | .int _ => "0"
  | .float _ => "0.0"
  | _ => "zeroinitializer"

/-- A value where it is used, with `fuel` bounding how deep constants nest. -/
def operandWith : Nat → ValueId → Except Fault String
  | 0, _ => .error .endless
  | fuel + 1, id => do
      let v ← m.value id
      match v.kind with
      | .constInt value => return toString value
      | .constFloat value => return value.text
      | .constNull => return zeroText (← m.typeData v.type)
      | .constAggregate items => do
          let items ← items.mapM fun item => do
            let type ← m.typeText (← m.typeOf item)
            return s!"{type} {← operandWith fuel item}"
          return "\x7b " ++ commas items ++ " \x7d"
      | .constBytes text => return "c\"" ++ Text.escaped text ++ "\\00\""
      | .global name _ _ => return "@" ++ name
      | .function f => return "@" ++ (← m.function f).name
      | .param _ index => return s!"%arg{index}"
      | .inst .. => return s!"%v{id.index}"

/-- A value where it is used. -/
def operand (id : ValueId) : Except Fault String := m.operandWith (m.values.size + 1) id

def typed (id : ValueId) : Except Fault String := do
  let type ← m.typeText (← m.typeOf id)
  return s!"{type} {← m.operand id}"

/-- A block where it is branched to. -/
def label (id : BlockId) : Except Fault String := return "%" ++ (← m.block id).name

/-- An instruction of type `type` without the name of its result. -/
def instBody (type : TypeId) : Inst → Except Fault String
  | .binary op lhs rhs => return s!"{op.mnemonic} {← m.typed lhs}, {← m.operand rhs}"
  | .unary op operand => return s!"{op.mnemonic} {← m.typed operand}"
  | .icmp pred lhs rhs => return s!"icmp {pred.mnemonic} {← m.typed lhs}, {← m.operand rhs}"
  | .fcmp pred lhs rhs => return s!"fcmp {pred.mnemonic} {← m.typed lhs}, {← m.operand rhs}"
  | .cast op value => return s!"{op.mnemonic} {← m.typed value} to {← m.typeText type}"
  | .alloca content => return s!"alloca {← m.typeText content}"
  | .load pointer => return s!"load {← m.typeText type}, {← m.typed pointer}"
  | .store pointer value isVolatile => do
      let marker := if isVolatile then " volatile" else ""
      return s!"store{marker} {← m.typed value}, {← m.typed pointer}"
  | .structGep struct pointer index => do
      let struct ← m.typeText struct
      return s!"getelementptr inbounds {struct}, {← m.typed pointer}, i32 0, i32 {index}"
  | .gep element pointer index => do
      let element ← m.typeText element
      return s!"getelementptr {element}, {← m.typed pointer}, {← m.typed index}"
  | .heapAlloc content count => do
      let content ← m.typeText content
      match count with
      | some count => return s!"alloc.zeroed {content}, {← m.typed count}"
      | none => return s!"alloc.zeroed {content}"
  | .phi incoming => do
      let edges ← incoming.mapM fun (v, b) => do
        return s!"[ {← m.operand v}, {← m.label b} ]"
      return s!"phi {← m.typeText type} {commas edges}"
  | .call callee args => do
      let args ← args.mapM m.typed
      let target ← match callee with
        | .direct f => do pure ("@" ++ (← m.function f).name)
        | .indirect _ pointer => m.operand pointer
      return s!"call {← m.typeText type} {target}({commas args})"

def namesResult (type : TypeId) : Inst → Except Fault Bool
  | .store .. => return false
  | .call .. => return decide ((← m.typeData type) ≠ .void)
  | _ => return true

/-- An instruction. -/
def instText (id : ValueId) (inst : Inst) : Except Fault String := do
  let type ← m.typeOf id
  let body ← m.instBody type inst
  return if ← m.namesResult type inst then s!"%v{id.index} = {body}" else body

/-- The end of a block. -/
def terminatorText : Terminator → Except Fault String
  | .br target => return s!"br label {← m.label target}"
  | .condBr cond thenBlock elseBlock =>
      return s!"br {← m.typed cond}, label {← m.label thenBlock}, label {← m.label elseBlock}"
  | .switch value default cases => do
      let type ← m.typeText (← m.typeOf value)
      let cases ← cases.mapM fun (case, b) => do
        return s!"{type} {case}, label {← m.label b}"
      let cases := " ".intercalate cases
      return s!"switch {← m.typed value}, label {← m.label default} [ {cases} ]"
  | .ret (some value) => return s!"ret {← m.typed value}"
  | .ret none => return "ret void"
  | .unreachable => return "unreachable"

def blockLines (id : BlockId) : Except Fault (List String) := do
  let block ← m.block id
  let insts ← block.insts.filterMapM fun v => do
    match ← m.inst? v with
    | some inst => return some ("  " ++ (← m.instText v inst))
    | none => return none
  let last ← match block.terminator with
    | some t => m.terminatorText t
    | none => pure "; missing terminator"
  return (block.name ++ ":") :: insts ++ ["  " ++ last]

/-- The parameters of a function from position `index` on. -/
def paramTexts : Nat → List TypeId → Except Fault (List String)
  | _, [] => return []
  | index, type :: rest => do
      let text ← m.typeText type
      return s!"{text} %arg{index}" :: (← paramTexts (index + 1) rest)

def functionLines (f : Function) : Except Fault (List String) := do
  let (result, params) ← match ← m.signature? f.type with
    | some (result, params) => do pure (← m.typeText result, params)
    | none => pure ("void", [])
  let params := commas (← m.paramTexts 0 params)
  match f.blocks with
  | [] => return [s!"declare {result} @{f.name}({params})"]
  | blocks => do
      let linkage := match f.linkage with
        | .external => ""
        | .internal => "internal "
      let body ← blocks.mapM m.blockLines
      return s!"define {linkage}{result} @{f.name}({params}) \x7b" :: body.flatten ++ ["\x7d"]

def structLine? : IrType → Except Fault (Option String)
  | .struct name none _ => return some s!"%{name} = type opaque"
  | .struct name (some body) packed => do
      let members := commas (← body.mapM m.typeText)
      return some (if packed then s!"%{name} = type <\x7b {members} \x7d>"
        else s!"%{name} = type \x7b {members} \x7d")
  | _ => return none

def globalLine? (id : ValueId) : Except Fault (Option String) := do
  match (← m.value id).kind with
  | .global name content initial => do
      let kind := if ".str".toList.isPrefixOf name.toList then "private constant" else "global"
      return some s!"@{name} = {kind} {← m.typeText content} {← m.operand initial}"
  | _ => return none

def lines : Except Fault (List String) := do
  let structs ← m.types.toList.filterMapM m.structLine?
  let globals ← m.globals.toList.filterMapM m.globalLine?
  let functions ← m.functions.toList.mapM fun f => return "" :: (← m.functionLines f)
  return s!"; module '{m.name}'" :: structs ++ globals ++ functions.flatten

/-- The text of a module. -/
def render : Except Fault String := do
  return String.join ((← m.lines).map (· ++ "\n"))

end Module

end CilSsa.Ssa
