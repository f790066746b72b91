import CilSsa.Metadata.Assembly

/-!
Checking the references of an assembly.

The checks run in a fixed order and stop at the first failure: roots, then types with their bases,
interfaces and member lists, then the types of fields, then methods with their signatures, locals
and operands.
-/

namespace CilSsa.Metadata

/-- What a checked id refers to. -/
inductive RefKind where
  | type
  | field
  | method
  | branchTarget
deriving DecidableEq, Repr

def RefKind.word : RefKind → String
  | .type => "type"
  | .field => "field"
  | .method => "method"
  | .branchTarget => "branch target"

/-- Why an assembly is refused. -/
inductive MetadataError where
  | danglingId (kind : RefKind) (id : Nat) (context : String)
  | missingRoot (name : String)
  | operandMismatch (method : String) (index : Nat) (opcode : Opcode)
deriving DecidableEq, Repr

namespace MetadataError

/-- The text of an error. -/
def message : MetadataError → String
  | danglingId kind id context =>
      s!"{kind.word} id {id} referenced from {context} is out of range"
  | missingRoot name => s!"assembly is missing the hierarchy root `{name}`"
  | operandMismatch method index opcode =>
      s!"instruction {index} of `{method}` has an operand that does not fit `{opcode.mnemonic}`"

def name : MetadataError → String
  | danglingId .. => "DanglingId"
  | missingRoot _ => "MissingRoot"
  | operandMismatch .. => "OperandMismatch"

end MetadataError

/-- Branch targets are compared in this many bits. -/
def targetBits : Nat := 32

namespace Assembly

variable (asm : Assembly)

/-- An id must be below the size of its arena. -/
def checkRef (kind : RefKind) (id size : Nat) (context : String) : Except MetadataError Unit :=
  if id < size then .ok () else .error (.danglingId kind id context)

/-- The id of a type must exist. -/
def checkType (context : String) (id : TypeDefId) : Except MetadataError Unit :=
  checkRef .type id.index asm.types.size context

/-- The types of a signature must exist. -/
def checkSig (context : String) : TypeSig → Except MetadataError Unit
  | .named id => asm.checkType context id
  | .pointer inner | .byRef inner | .array inner => checkSig context inner
  | _ => .ok ()

/-- A root must be there under its name. -/
def checkRoot (root : TypeDefId × String) : Except MetadataError Unit :=
  match asm.types[root.1.index]? with
  | some d => if d.fullName = root.2 then .ok () else .error (.missingRoot root.2)
  | none => .error (.missingRoot root.2)

def checkTypeDef (d : TypeDef) : Except MetadataError Unit := do
  let context := d.fullName
  if let some base := d.base then asm.checkType context base
  d.interfaces.forM (asm.checkType context)
  d.fields.forM fun f => checkRef .field f.index asm.fields.size context
  d.methods.forM fun m => checkRef .method m.index asm.methods.size context

/-- A branch target of a body with `length` instructions, compared in its low bits. -/
def checkTarget (context : String) (length target : Nat) : Except MetadataError Unit :=
  checkRef .branchTarget (target % Nat.pow 2 targetBits) length context

def checkOperand (context : String) (length index : Nat) (instr : Instruction) :
    Except MetadataError Unit :=
  match instr.operand with
  | .field f => checkRef .field f.index asm.fields.size context
  | .method m => checkRef .method m.index asm.methods.size context
  | .type sig => asm.checkSig context sig
  | .target _ | .switch _ => instr.targets.forM (checkTarget context length)
  | _ =>
      if instr.opcode.flow.needsTarget then .error (.operandMismatch context index instr.opcode)
      else .ok ()

def checkOperands (context : String) (length : Nat) :
    Nat → List Instruction → Except MetadataError Unit
  | _, [] => .ok ()
  | index, instr :: rest => do
      asm.checkOperand context length index instr
      checkOperands context length (index + 1) rest

def checkMethodDef (d : MethodDef) : Except MetadataError Unit := do
  asm.checkType d.name d.declaringType
  asm.checkSig d.name d.returnType
  d.params.forM fun p => asm.checkSig d.name p.sig
  if let some body := d.body then
    body.locals.forM (asm.checkSig d.name)
    asm.checkOperands d.name body.instructions.length 0 body.instructions

/-- Whether every checked reference leads into its arena. -/
def validate : Except MetadataError Unit := do
  roots.forM asm.checkRoot
  asm.types.toList.forM asm.checkTypeDef
  asm.fields.toList.forM fun d => asm.checkSig d.name d.sig
  asm.methods.toList.forM asm.checkMethodDef

end Assembly

end CilSsa.Metadata
