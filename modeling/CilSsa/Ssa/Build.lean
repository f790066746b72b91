import CilSsa.Ssa.Module

/-!
The builder: adding types, constants, functions, blocks and instructions to a module.

A builder action takes the module and returns it changed; if it meets a dangling id it stops and
leaves the module as changed so far.  Misuse does not stop it.
-/

namespace CilSsa.Ssa

open CilSsa.Numeric

/-- An action on a module. -/
abbrev Build := EStateM Fault Module

namespace Build

/-- A question about the module. -/
def query {α : Type} (ask : Module → Except Fault α) : Build α := fun m =>
  match ask m with
  | .ok a => .ok a m
  | .error fault => .error fault m

theorem query_eq_ok_iff {α : Type} {ask : Module → Except Fault α} {m m' : Module} {a : α} :
    query ask m = .ok a m' ↔ ask m = .ok a ∧ m' = m := by
  unfold query
  cases ask m <;> simp [eq_comm]

theorem query_eq_error_iff {α : Type} {ask : Module → Except Fault α} {m m' : Module}
    {fault : Fault} : query ask m = .error fault m' ↔ ask m = .error fault ∧ m' = m := by
  unfold query
  cases ask m <;> simp [eq_comm]

/-- A question about ids that does not concern the module. -/
def ask {α : Type} (question : Except Fault α) : Build α := query fun _ => question

section Types

/-- The id of a type that is determined by its parts: the one it has, or a new one. -/
def intern (type : IrType) : Build TypeId := fun m =>
  match m.types.idxOf? type with
  | some index => .ok ⟨index⟩ m
  | none => .ok ⟨m.types.size⟩ { m with types := m.types.push type }

def voidType : Build TypeId := intern .void

def intType (bits : Nat) : Build TypeId := intern (.int bits)

def floatType (bits : Nat) : Build TypeId := intern (.float bits)

def pointerType (pointee : TypeId) : Build TypeId := intern (.pointer pointee)

def arrayType (element : TypeId) (length : Nat) : Build TypeId := intern (.array element length)

def functionType (result : TypeId) (params : List TypeId) : Build TypeId :=
  intern (.function result params)

/-- The pointer type of object references and table entries. -/
def genericPointer : Build TypeId := do pointerType (← intType 8)

/-- A new struct without a body. -/
def namedStruct (name : String) : Build TypeId := fun m =>
  .ok ⟨m.types.size⟩ { m with types := m.types.push (.struct name none false) }

end Types

/-- Records misuse against the function being built. -/
def record (misuse : Misuse) : Build Unit := do
  let function ← query (·.currentFunction)
  modify fun m => { m with misuses := m.misuses.push (function, misuse) }

def pushValue (type : TypeId) (kind : ValueKind) : Build ValueId := fun m =>
  .ok ⟨m.values.size⟩ { m with values := m.values.push ⟨type, kind⟩ }

def modifyBlock (id : BlockId) (change : Block → Block) : Build Unit :=
  modify fun m => { m with blocks := m.blocks.modify id.index change }

def modifyFunction (id : FunctionId) (change : Function → Function) : Build Unit :=
  modify fun m => { m with functions := m.functions.modify id.index change }

/-- Changes what a value is; its type stays. -/
def setKind (id : ValueId) (kind : ValueKind) : Build Unit :=
  modify fun m =>
    { m with values := m.values.modify id.index fun v => { v with kind } }

/-- Gives a struct its members, once. -/
def setStructBody (id : TypeId) (members : List TypeId) (packed : Bool) : Build Unit := do
  match ← query (·.typeData id) with
  | .struct name none _ =>
      modify fun m =>
        { m with types := m.types.setIfInBounds id.index (.struct name (some members) packed) }
  | .struct name (some _) _ => record (.bodySetTwice name)
  | type => record (.bodyOfNonStruct type)

section Constants

def constInt (type : TypeId) (value : Int) : Build ValueId := pushValue type (.constInt value)

/-- An integer constant of the given width. -/
def constIntOf (bits : Nat) (value : Int) : Build ValueId := do constInt (← intType bits) value

def constFloat (type : TypeId) (value : Binary64) : Build ValueId :=
  pushValue type (.constFloat value)

def constNull (type : TypeId) : Build ValueId := pushValue type .constNull

def constStruct (type : TypeId) (items : List ValueId) : Build ValueId := do
  if let some (body, _) ← query (·.structBody? type) then
    if body.length ≠ items.length then record (.aggregateSize items.length body.length)
  pushValue type (.constAggregate items)

def constArray (element : TypeId) (items : List ValueId) : Build ValueId := do
  let type ← arrayType element items.length
  pushValue type (.constAggregate items)

def stringName (number : Nat) : String := s!".str.{number}"

/-- A global with the bytes of a text and a zero byte; the value points to the first byte. -/
def constString (text : String) : Build ValueId := do
  let byte ← intType 8
  let content ← arrayType byte (text.utf8ByteSize + 1)
  let bytes ← pushValue content (.constBytes text)
  let number := (← get).stringCount
  modify fun m => { m with stringCount := m.stringCount + 1 }
  let pointer ← pointerType byte
  let global ← pushValue pointer (.global (stringName number) content bytes)
  modify fun m => { m with globals := m.globals.push global }
  return global

/-- A global that starts as zero; the value is its address. -/
def addGlobal (name : String) (content : TypeId) : Build ValueId := do
  let zero ← constNull content
  let pointer ← pointerType content
  let taken := ((← get).globalNamed? name).isSome
  let global ← pushValue pointer (.global name content zero)
  modify fun m => { m with globals := m.globals.push global }
  if taken then record (.globalTwice name)
  return global

/-- Sets the value that a global starts with to a constant of its type. -/
def setInitializer (global value : ValueId) : Build Unit := do
  let type ← query (·.typeOf value)
  let isConstant ← query (·.isConstant value)
  match (← query (·.value global)).kind with
  | .global name content _ =>
      if content ≠ type || !isConstant then record (.unfitInitializer name)
      else setKind global (.global name content value)
  | _ => record .initializerOfNonGlobal

end Constants

section Functions

/-- Adds the parameters of a function as values, from position `index` on. -/
def pushParams (function : FunctionId) : Nat → List TypeId → Build (List ValueId)
  | _, [] => return []
  | index, type :: rest => do
      let id ← pushValue type (.param function index)
      return id :: (← pushParams function (index + 1) rest)

def addFunction (name : String) (type : TypeId) (linkage : Linkage) : Build FunctionId := do
  let id : FunctionId := ⟨(← get).functions.size⟩
  let paramTypes ← match ← query (·.signature? type) with
    | some (_, params) => pure params
    | none => do
        record (.functionOfNonFunctionType name)
        pure []
  let pointer ← pointerType type
  let value ← pushValue pointer (.function id)
  let params ← pushParams id 0 paramTypes
  let taken := ((← get).functionNamed? name).isSome
  modify fun m =>
    { m with functions := m.functions.push { name, type, linkage, params, value } }
  if taken then record (.functionTwice name)
  return id

def setLinkage (id : FunctionId) (linkage : Linkage) : Build Unit := do
  let _ ← query (·.function id)
  modifyFunction id fun f => { f with linkage }

def functionValue (id : FunctionId) : Build ValueId := return (← query (·.function id)).value

/-- Adds an empty block at the end of a function. -/
def appendBlock (function : FunctionId) (name : String) : Build BlockId := do
  let id : BlockId := ⟨(← get).blocks.size⟩
  modify fun m => { m with blocks := m.blocks.push { name, function } }
  let _ ← query (·.function function)
  modifyFunction function fun f => { f with blocks := f.blocks ++ [id] }
  return id

/-- Adds instructions to this block from now on. -/
def positionAtEnd (id : BlockId) : Build Unit := modify fun m => { m with position := some id }

end Functions

section Instructions

/-- Adds an instruction to the current block. -/
def pushInst (type : TypeId) (inst : Inst) : Build ValueId := do
  match (← get).position with
  | none => do
      record (.instOutsideBlock inst)
      pushValue type (.inst none inst)
  | some b => do
      let block ← query (·.block b)
      if block.terminator.isSome then record (.instAfterTerminator inst block.name)
      let id ← pushValue type (.inst (some b) inst)
      modifyBlock b fun block => { block with insts := block.insts ++ [id] }
      return id

/-- Ends the current block. -/
def terminate (terminator : Terminator) : Build Unit := do
  match (← get).position with
  | none => record (.terminatorOutsideBlock terminator)
  | some b => do
      let block ← query (·.block b)
      if block.terminator.isSome then record (.terminatedTwice block.name)
      else modifyBlock b fun block => { block with terminator := some terminator }

def binary (op : BinaryOp) (lhs rhs : ValueId) : Build ValueId := do
  let type ← query (·.typeOf lhs)
  let actual ← query (·.classify type)
  if type ≠ (← query (·.typeOf rhs)) then record (.operandTypesDiffer op)
  else if op.isFloat ≠ actual.isFloat || !(actual.isInt || actual.isFloat) then
    record (.operandClass op actual)
  pushInst type (.binary op lhs rhs)

/-- Whether an operator takes an operand of this class. -/
def unaryFits : UnaryOp → TypeClass → Bool
  | .fneg, actual => actual.isFloat
  | .neg, actual | .not, actual => actual.isInt

def unary (op : UnaryOp) (operand : ValueId) : Build ValueId := do
  let type ← query (·.typeOf operand)
  let actual ← query (·.classify type)
  if !unaryFits op actual then record (.unaryOperandClass op actual)
  pushInst type (.unary op operand)

def icmp (pred : IntPredicate) (lhs rhs : ValueId) : Build ValueId := do
  let type ← query (·.typeOf lhs)
  let actual ← query (·.classify type)
  if type ≠ (← query (·.typeOf rhs)) || !(actual.isInt || actual.isPointer) then
    record (.icmpOperands pred)
  pushInst (← intType 1) (.icmp pred lhs rhs)

def fcmp (pred : FloatPredicate) (lhs rhs : ValueId) : Build ValueId := do
  let type ← query (·.typeOf lhs)
  let otherType ← query (·.typeOf rhs)
  if type ≠ otherType then record (.fcmpOperands pred)
  else if !(← query (·.classify type)).isFloat then record (.fcmpOperands pred)
  pushInst (← intType 1) (.fcmp pred lhs rhs)

/-- Whether a conversion leads from one class to another. -/
def castFits (op : CastOp) (source target : TypeClass) : Bool :=
  match op, source, target with
  | .trunc, .int a, .int b => a > b
  | .zext, .int a, .int b | .sext, .int a, .int b => a < b
  | .fptrunc, .float a, .float b => a > b
  | .fpext, .float a, .float b => a < b
  | .fptosi, .float _, .int _ | .fptoui, .float _, .int _ => true
  | .sitofp, .int _, .float _ | .uitofp, .int _, .float _ => true
  | .ptrtoint, .pointer, .int _ => true
  | .inttoptr, .int _, .pointer => true
  | .bitcast, source, target => source = target
  | _, _, _ => false

def cast (op : CastOp) (value : ValueId) (target : TypeId) : Build ValueId := do
  let sourceClass ← query (·.classOf value)
  let targetClass ← query (·.classify target)
  if !castFits op sourceClass targetClass then
    record (.castClasses op sourceClass targetClass)
  pushInst target (.cast op value)

/-- An integer at another width.  Widening repeats the sign if `signed`, except of single bits;
values that need no change or are not integers stay as they are. -/
def intCast (value : ValueId) (target : TypeId) (signed : Bool) : Build ValueId := do
  let source ← query (·.typeOf value)
  if source = target then return value
  else
    match ← query (·.classify source), ← query (·.classify target) with
    | .int a, .int b =>
        if a > b then cast .trunc value target
        else if a < b then cast (if signed && a > 1 then .sext else .zext) value target
        else return value
    | _, _ => return value

def alloca (type : TypeId) : Build ValueId := do pushInst (← pointerType type) (.alloca type)

def load (type : TypeId) (pointer : ValueId) : Build ValueId := do
  if !(← query (·.classOf pointer)).isPointer then record .loadFromNonPointer
  pushInst type (.load pointer)

def store (pointer value : ValueId) (isVolatile : Bool) : Build Unit := do
  if !(← query (·.classOf pointer)).isPointer then record .storeToNonPointer
  let _ ← pushInst (← voidType) (.store pointer value isVolatile)

/-- The type of a member of a defined struct. -/
def member? (type : TypeId) (index : Nat) (m : Module) : Except Fault (Option TypeId) := do
  match ← m.structBody? type with
  | some (body, _) => return body[index]?
  | none => return none

def structGep (type : TypeId) (pointer : ValueId) (index : Nat) : Build ValueId := do
  let member ← match ← query (member? type index) with
    | some member => pure member
    | none => do
        record (.memberOutOfRange index type)
        intType 8
  pushInst (← pointerType member) (.structGep type pointer index)

def gep (element : TypeId) (pointer index : ValueId) : Build ValueId := do
  if !(← query (·.classOf index)).isInt then record .gepIndexClass
  pushInst (← pointerType element) (.gep element pointer index)

def heapAlloc (type : TypeId) (count : Option ValueId) : Build ValueId := do
  pushInst (← pointerType type) (.heapAlloc type count)

def isPhi (m : Module) (id : ValueId) : Bool :=
  match m.values[id.index]? with
  | some v => (v.inst?.map Inst.isPhi).getD false
  | none => false

/-- Adds a phi without entries to a block, behind the phis it has and before everything else. -/
def phi (b : BlockId) (type : TypeId) : Build ValueId := do
  let id ← pushValue type (.inst (some b) (.phi []))
  let block ← query (·.block b)
  let m ← get
  let heads := block.insts.takeWhile (isPhi m)
  let rest := block.insts.dropWhile (isPhi m)
  modifyBlock b fun block => { block with insts := heads ++ id :: rest }
  return id

def addIncoming (phi value : ValueId) (source : BlockId) : Build Unit := do
  if (← query (·.typeOf phi)) ≠ (← query (·.typeOf value)) then record .incomingType
  match (← query (·.value phi)).kind with
  | .inst block (.phi incoming) => setKind phi (.inst block (.phi (incoming ++ [(value, source)])))
  | _ => record .incomingOfNonPhi

/-- Checks the types of arguments against parameters, from position `index` on. -/
def checkArgs : Nat → List ValueId → List TypeId → Build Unit
  | index, arg :: args, param :: params => do
      if (← query (·.typeOf arg)) ≠ param then record (.callArgument index)
      checkArgs (index + 1) args params
  | _, _, _ => return ()

def buildCall (type : TypeId) (callee : Callee) (args : List ValueId) :
    Build (Option ValueId) := do
  match ← query (·.signature? type) with
  | none => do
      record (.callOfNonFunctionType type)
      let _ ← pushInst (← voidType) (.call callee args)
      return none
  | some (result, params) => do
      if params.length ≠ args.length then record (.callArity args.length params.length)
      else checkArgs 0 args params
      let value ← pushInst result (.call callee args)
      return if (← query (·.classify result)) = .void then none else some value

def call (function : FunctionId) (args : List ValueId) : Build (Option ValueId) := do
  let type := (← query (·.function function)).type
  buildCall type (.direct function) args

def callIndirect (type : TypeId) (callee : ValueId) (args : List ValueId) :
    Build (Option ValueId) := do
  let calleeType ← query (·.typeOf callee)
  if (← query (·.pointee? calleeType)).isNone then record .calleeOfNonPointer
  buildCall type (.indirect type callee) args

def br (target : BlockId) : Build Unit := terminate (.br target)

def condBr (cond : ValueId) (thenBlock elseBlock : BlockId) : Build Unit := do
  if (← query (·.classOf cond)) ≠ .int 1 then record .conditionClass
  terminate (.condBr cond thenBlock elseBlock)

def switch (value : ValueId) (default : BlockId) (cases : List (Int × BlockId)) : Build Unit :=
  terminate (.switch value default cases)

def returnFits (function : FunctionId) (value : Option ValueId) (m : Module) :
    Except Fault Bool := do
  let result := (← m.signature? (← m.function function).type).map Prod.fst
  match value with
  | some value => do
      let type ← m.typeOf value
      match result with
      | some result => return decide ((← m.classify result) ≠ .void ∧ type = result)
      | none => return false
  | none =>
      match result with
      | some result => return decide ((← m.classify result) = .void)
      | none => return true

def ret (value : Option ValueId) : Build Unit := do
  if let some function ← query (·.currentFunction) then
    if !(← query (returnFits function value)) then record .returnType
  terminate (.ret value)

def unreachable : Build Unit := terminate .unreachable

end Instructions

end Build

end CilSsa.Ssa
