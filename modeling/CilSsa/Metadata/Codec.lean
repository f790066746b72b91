import CilSsa.Json.Decoder
import CilSsa.Json.Reader
import CilSsa.Metadata.Assembly

/-!
Assemblies as JSON documents.  Decoding checks shapes and ranges only; references are checked by
validation.
-/

namespace CilSsa.Metadata

open CilSsa.Json

/-- Ids and sizes are below this bound. -/
def wordBound : Nat := Nat.pow 2 32

/-- Branch targets are below this bound. -/
def targetBound : Nat := Nat.pow 2 64

/-- Positions of arguments and locals are below this bound. -/
def positionBound : Nat := Nat.pow 2 16

/-- An id or a size. -/
def decodeWord : Decoder Nat := Decoder.natBelow wordBound

def TypeDefId.decode : Decoder TypeDefId := fun levels doc =>
  (decodeWord levels doc).map TypeDefId.mk

def FieldId.decode : Decoder FieldId := fun levels doc => (decodeWord levels doc).map FieldId.mk

def MethodId.decode : Decoder MethodId := fun levels doc => (decodeWord levels doc).map MethodId.mk

namespace TypeSig

/-- The signatures without content, with their names. -/
def simple : List (String × TypeSig) :=
  [("Void", void), ("Boolean", boolean), ("Char", char), ("I1", i1), ("U1", u1), ("I2", i2),
   ("U2", u2), ("I4", i4), ("U4", u4), ("I8", i8), ("U8", u8), ("IntPtr", intPtr),
   ("UIntPtr", uintPtr), ("R4", r4), ("R8", r8), ("String", string), ("Object", object)]

/-- A signature; every wrapper enters one level. -/
def decode : Decoder TypeSig
  | _, .string (some name) => simple.lookup name
  | levels + 2, .object [(some name, content)] =>
      match name with
      | "Named" => (TypeDefId.decode (levels + 1) content).map named
      | "Pointer" => (decode (levels + 1) content).map pointer
      | "ByRef" => (decode (levels + 1) content).map byRef
      | "Array" => (decode (levels + 1) content).map array
      | name => if Decoder.noContent (some (levels + 1, content)) then simple.lookup name else none
  | _, _ => none

/-- The document of a signature. -/
def encode : TypeSig → Document
  | void => .text "Void"
  | boolean => .text "Boolean"
  | char => .text "Char"
  | i1 => .text "I1"
  | u1 => .text "U1"
  | i2 => .text "I2"
  | u2 => .text "U2"
  | i4 => .text "I4"
  | u4 => .text "U4"
  | i8 => .text "I8"
  | u8 => .text "U8"
  | intPtr => .text "IntPtr"
  | uintPtr => .text "UIntPtr"
  | r4 => .text "R4"
  | r8 => .text "R8"
  | string => .text "String"
  | object => .text "Object"
  | named id => .record [("Named", .nat id.index)]
  | pointer inner => .record [("Pointer", inner.encode)]
  | byRef inner => .record [("ByRef", inner.encode)]
  | array inner => .record [("Array", inner.encode)]

end TypeSig

def Opcode.decode : Decoder Opcode := Decoder.named Opcode.all Opcode.name

namespace Operand

def decode : Decoder Operand := fun levels doc => do
  let (name, content) ← Decoder.variant levels doc
  match name with
  | "None" => if Decoder.noContent content then some .none else Option.none
  | "Int32" => (Decoder.content (Decoder.intOfBits 32) content).map int32
  | "Int64" => (Decoder.content (Decoder.intOfBits 64) content).map int64
  | "Float32" => (Decoder.content Decoder.single content).map float32
  | "Float64" => (Decoder.content Decoder.double content).map float64
  | "String" => (Decoder.content Decoder.text content).map string
  | "Type" => (Decoder.content TypeSig.decode content).map type
  | "Field" => (Decoder.content FieldId.decode content).map field
  | "Method" => (Decoder.content MethodId.decode content).map method
  | "Target" => (Decoder.content (Decoder.natBelow targetBound) content).map target
  | "Switch" =>
      (Decoder.content (Decoder.list (Decoder.natBelow targetBound)) content).map switch
  | "Arg" => (Decoder.content (Decoder.natBelow positionBound) content).map arg
  | "Local" => (Decoder.content (Decoder.natBelow positionBound) content).map loc
  | _ => Option.none

def encode : Operand → Document
  | none => .text "None"
  | int32 value => .record [("Int32", .int value)]
  | int64 value => .record [("Int64", .int value)]
  | float32 value => .record [("Float32", .float value)]
  | float64 value => .record [("Float64", .float value)]
  | string s => .record [("String", .text s)]
  | type sig => .record [("Type", sig.encode)]
  | field id => .record [("Field", .nat id.index)]
  | method id => .record [("Method", .nat id.index)]
  | target position => .record [("Target", .nat position)]
  | switch positions => .record [("Switch", .list .nat positions)]
  | arg position => .record [("Arg", .nat position)]
  | loc position => .record [("Local", .nat position)]

end Operand

namespace Instruction

def decode : Decoder Instruction := fun levels doc => do
  let (inner, slots) ← Decoder.record ["opcode", "operand", "volatile"] levels doc
  match slots with
  | [opcode, operand, isVolatile] =>
      return {
        opcode := ← Decoder.required Opcode.decode inner opcode
        operand := ← Decoder.orElse Operand.decode .none inner operand
        isVolatile := ← Decoder.orElse Decoder.bool false inner isVolatile }
  | _ => none

def encode (instr : Instruction) : Document :=
  .record [
    ("opcode", .text instr.opcode.name),
    ("operand", instr.operand.encode),
    ("volatile", .bool instr.isVolatile)]

end Instruction

namespace TypeFlags

def decode : Decoder TypeFlags := fun levels doc => do
  return ⟨← FlagWord.parse? names (← Decoder.text levels doc)⟩

/-- The text of the attributes. -/
def render (flags : TypeFlags) : String := FlagWord.render names flags.word

end TypeFlags

namespace MethodFlags

def decode : Decoder MethodFlags := fun levels doc => do
  return ⟨← FlagWord.parse? names (← Decoder.text levels doc)⟩

/-- The text of the attributes. -/
def render (flags : MethodFlags) : String := FlagWord.render names flags.word

end MethodFlags

namespace TypeDef

def decode : Decoder TypeDef := fun levels doc => do
  let (inner, slots) ← Decoder.record
    ["namespace", "name", "flags", "base", "interfaces", "packing", "class_size", "fields",
      "methods"] levels doc
  match slots with
  | [space, name, flags, base, interfaces, packing, classSize, fields, methods] =>
      return {
        namespaceName := ← Decoder.required Decoder.text inner space
        name := ← Decoder.required Decoder.text inner name
        flags := ← Decoder.required TypeFlags.decode inner flags
        base := ← Decoder.orElse (Decoder.opt TypeDefId.decode) none inner base
        interfaces := ← Decoder.orElse (Decoder.list TypeDefId.decode) [] inner interfaces
        packing := ← Decoder.orElse (Decoder.opt decodeWord) none inner packing
        classSize := ← Decoder.orElse (Decoder.opt decodeWord) none inner classSize
        fields := ← Decoder.orElse (Decoder.list FieldId.decode) [] inner fields
        methods := ← Decoder.orElse (Decoder.list MethodId.decode) [] inner methods }
  | _ => none

def encode (d : TypeDef) : Document :=
  .record [
    ("namespace", .text d.namespaceName),
    ("name", .text d.name),
    ("flags", .text d.flags.render),
    ("base", .opt (fun id => .nat id.index) d.base),
    ("interfaces", .list (fun id => .nat id.index) d.interfaces),
    ("packing", .opt .nat d.packing),
    ("class_size", .opt .nat d.classSize),
    ("fields", .list (fun id => .nat id.index) d.fields),
    ("methods", .list (fun id => .nat id.index) d.methods)]

end TypeDef

namespace FieldDef

def decode : Decoder FieldDef := fun levels doc => do
  let (inner, slots) ← Decoder.record ["name", "declaring_type", "ty", "is_static"] levels doc
  match slots with
  | [name, declaringType, sig, isStatic] =>
      return {
        name := ← Decoder.required Decoder.text inner name
        declaringType := ← Decoder.required TypeDefId.decode inner declaringType
        sig := ← Decoder.required TypeSig.decode inner sig
        isStatic := ← Decoder.required Decoder.bool inner isStatic }
  | _ => none

def encode (d : FieldDef) : Document :=
  .record [
    ("name", .text d.name),
    ("declaring_type", .nat d.declaringType.index),
    ("ty", d.sig.encode),
    ("is_static", .bool d.isStatic)]

end FieldDef

namespace Param

/-- A parameter. -/
def decode : Decoder Param := fun levels doc => do
  let (inner, slots) ← Decoder.record ["name", "ty"] levels doc
  match slots with
  | [name, sig] =>
      return {
        name := ← Decoder.required Decoder.text inner name
        sig := ← Decoder.required TypeSig.decode inner sig }
  | _ => none

/-- The document of a parameter. -/
def encode (p : Param) : Document := .record [("name", .text p.name), ("ty", p.sig.encode)]

end Param

namespace MethodBody

def decode : Decoder MethodBody := fun levels doc => do
  let (inner, slots) ← Decoder.record ["locals", "instructions"] levels doc
  match slots with
  | [locals, instructions] =>
      return {
        locals := ← Decoder.orElse (Decoder.list TypeSig.decode) [] inner locals
        instructions := ← Decoder.required (Decoder.list Instruction.decode) inner instructions }
  | _ => none

def encode (body : MethodBody) : Document :=
  .record [
    ("locals", .list TypeSig.encode body.locals),
    ("instructions", .list Instruction.encode body.instructions)]

end MethodBody

def Visibility.decode : Decoder Visibility := Decoder.named Visibility.all Visibility.name

namespace MethodDef

def decode : Decoder MethodDef := fun levels doc => do
  let (inner, slots) ← Decoder.record
    ["name", "declaring_type", "params", "return_type", "flags", "visibility", "body"] levels doc
  match slots with
  | [name, declaringType, params, returnType, flags, visibility, body] =>
      return {
        name := ← Decoder.required Decoder.text inner name
        declaringType := ← Decoder.required TypeDefId.decode inner declaringType
        params := ← Decoder.orElse (Decoder.list Param.decode) [] inner params
        returnType := ← Decoder.required TypeSig.decode inner returnType
        flags := ← Decoder.orElse MethodFlags.decode {} inner flags
        visibility := ← Decoder.orElse Visibility.decode .publicAccess inner visibility
        body := ← Decoder.orElse (Decoder.opt MethodBody.decode) none inner body }
  | _ => none

def encode (d : MethodDef) : Document :=
  .record [
    ("name", .text d.name),
    ("declaring_type", .nat d.declaringType.index),
    ("params", .list Param.encode d.params),
    ("return_type", d.returnType.encode),
    ("flags", .text d.flags.render),
    ("visibility", .text d.visibility.name),
    ("body", .opt MethodBody.encode d.body)]

end MethodDef

namespace Assembly

def decode : Decoder Assembly := fun levels doc => do
  let (inner, slots) ← Decoder.record ["name", "types", "fields", "methods"] levels doc
  match slots with
  | [name, types, fields, methods] =>
      return {
        name := ← Decoder.required Decoder.text inner name
        types := (← Decoder.required (Decoder.list TypeDef.decode) inner types).toArray
        fields := (← Decoder.required (Decoder.list FieldDef.decode) inner fields).toArray
        methods := (← Decoder.required (Decoder.list MethodDef.decode) inner methods).toArray }
  | _ => none

def encode (asm : Assembly) : Document :=
  .record [
    ("name", .text asm.name),
    ("types", .list TypeDef.encode asm.types.toList),
    ("fields", .list FieldDef.encode asm.fields.toList),
    ("methods", .list MethodDef.encode asm.methods.toList)]

def ofDocument? (doc : Document) : Option Assembly := decode nestingLevels doc

/-- The assembly that a JSON text writes. -/
def ofText? (text : String) : Option Assembly := do ofDocument? (← Document.parse? text)

end Assembly

end CilSsa.Metadata
