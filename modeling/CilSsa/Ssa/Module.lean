import CilSsa.Fault
import CilSsa.Ssa.Misuse

/-!
An SSA module: arenas of types, values, blocks and functions, the place where instructions are
being added, and the misuse recorded so far.
-/

namespace CilSsa.Ssa

/-- A module under construction. -/
structure Module where
  name : String
  types : Array IrType := #[]
  values : Array Value := #[]
  blocks : Array Block := #[]
  functions : Array Function := #[]
  /-- The globals in the order of their creation. -/
  globals : Array ValueId := #[]
  /-- The block that instructions are added to. -/
  position : Option BlockId := none
  /-- Recorded misuse, each with the function that was being built. -/
  misuses : Array (Option FunctionId × Misuse) := #[]
  /-- The number of string constants made so far. -/
  stringCount : Nat := 0
deriving DecidableEq, Repr

namespace Module

variable (m : Module)

def typeData (id : TypeId) : Except Fault IrType := Arena.irType.entry m.types id.index

def value (id : ValueId) : Except Fault Value := Arena.value.entry m.values id.index

def block (id : BlockId) : Except Fault Block := Arena.block.entry m.blocks id.index

def function (id : FunctionId) : Except Fault Function :=
  Arena.function.entry m.functions id.index

def typeOf (id : ValueId) : Except Fault TypeId := return (← m.value id).type

def classify (id : TypeId) : Except Fault TypeClass := return (← m.typeData id).classify

def classOf (id : ValueId) : Except Fault TypeClass := do m.classify (← m.typeOf id)

/-- What a pointer type points to. -/
def pointee? (id : TypeId) : Except Fault (Option TypeId) := do
  match ← m.typeData id with
  | .pointer pointee => return some pointee
  | _ => return none

/-- Result and parameters of a function type. -/
def signature? (id : TypeId) : Except Fault (Option (TypeId × List TypeId)) := do
  match ← m.typeData id with
  | .function result params => return some (result, params)
  | _ => return none

/-- Members and packing of a defined struct. -/
def structBody? (id : TypeId) : Except Fault (Option (List TypeId × Bool)) := do
  match ← m.typeData id with
  | .struct _ (some body) packed => return some (body, packed)
  | _ => return none

def structNamed? (name : String) : Option TypeId :=
  (m.types.findIdx? fun
    | .struct n _ _ => n = name
    | _ => false).map TypeId.mk

/-- The instruction of a value that is one. -/
def inst? (id : ValueId) : Except Fault (Option Inst) := return (← m.value id).inst?

/-- The entries of a phi. -/
def incoming? (id : ValueId) : Except Fault (Option (List (ValueId × BlockId))) := do
  match ← m.inst? id with
  | some (.phi incoming) => return some incoming
  | _ => return none

def functionIds : List FunctionId := (List.range m.functions.size).map FunctionId.mk

/-- The function of this name that was added last. -/
def functionNamed? (name : String) : Option FunctionId :=
  m.functionIds.reverse.find? fun id =>
    (m.functions[id.index]?.map Function.name) = some name

def globalName? (id : ValueId) : Option String :=
  match m.values[id.index]? with
  | some ⟨_, .global name _ _⟩ => some name
  | _ => none

/-- The global of this name that was added last. -/
def globalNamed? (name : String) : Option ValueId :=
  m.globals.toList.reverse.find? fun id => m.globalName? id = some name

/-- The value that a global starts with. -/
def initializer? (id : ValueId) : Except Fault (Option ValueId) := do
  match (← m.value id).kind with
  | .global _ _ initial => return some initial
  | _ => return none

/-- The integer of a constant that is one. -/
def constInt? (id : ValueId) : Except Fault (Option Int) := do
  match (← m.value id).kind with
  | .constInt value => return some value
  | _ => return none

/-- The floating-point number of a constant that is one. -/
def constFloat? (id : ValueId) : Except Fault (Option Numeric.Binary64) := do
  match (← m.value id).kind with
  | .constFloat value => return some value
  | _ => return none

def isConstant (id : ValueId) : Except Fault Bool := return (← m.value id).kind.isConstant

/-- Whether a block has its end. -/
def isTerminated (id : BlockId) : Except Fault Bool := return (← m.block id).terminator.isSome

def blocksOf (id : FunctionId) : Except Fault (List BlockId) := return (← m.function id).blocks

/-- The instructions of a function, block by block. -/
def instructionsOf (id : FunctionId) : Except Fault (List (ValueId × Inst)) := do
  let insts ← (← m.blocksOf id).mapM fun b => do
    (← m.block b).insts.filterMapM fun v => return (← m.inst? v).map fun inst => (v, inst)
  return insts.flatten

def param (id : FunctionId) (index : Nat) : Except Fault ValueId := do
  let f ← m.function id
  Arena.parameter.entry f.params.toArray index

/-- The function that the current block belongs to. -/
def currentFunction : Except Fault (Option FunctionId) :=
  match m.position with
  | none => return none
  | some b => return some (← m.block b).function

/-- The texts of the recorded misuse. -/
def messages : List String := m.misuses.toList.map fun (_, misuse) => misuse.message

end Module

end CilSsa.Ssa
