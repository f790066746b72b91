import Mathlib.Logic.Relation
import CilSsa.Ssa.DeadBlocks

/-!
The elementary changes of a module.

Everything that the builder does is a sequence of the changes below, so a property that each of
them leaves alone holds as long as the module lives.
-/

namespace CilSsa.Ssa

def Value.addEntry (value : ValueId) (source : BlockId) (v : Value) : Value :=
  match v.kind with
  | .inst block (.phi incoming) =>
      { v with kind := .inst block (.phi (incoming ++ [(value, source)])) }
  | _ => v

/-- A global that starts with another value; any other value as it is. -/
def Value.setInitial (initial : ValueId) (v : Value) : Value :=
  match v.kind with
  | .global name content _ => { v with kind := .global name content initial }
  | _ => v

/-- The address that an instruction stores to. -/
def Inst.destination? : Inst → Option ValueId
  | .store pointer _ _ => some pointer
  | _ => none

/-- An elementary change of a module. -/
inductive Change where
  | addType (type : IrType)
  /-- Gives a struct its members. -/
  | defineStruct (id : TypeId) (type : IrType)
  /-- Adds a value that is no instruction. -/
  | addValue (value : Value)
  /-- Adds an instruction at the current place. -/
  | addInst (block : Option BlockId) (type : TypeId) (inst : Inst)
  | addPhi (block : BlockId) (type : TypeId)
  | addEntry (phi value : ValueId) (source : BlockId)
  | setInitial (global value : ValueId)
  | addFunction (function : Function)
  | setLinkage (function : FunctionId) (linkage : Linkage)
  | addBlock (function : FunctionId) (name : String)
  | moveTo (block : BlockId)
  /-- Ends the current block. -/
  | terminate (block : BlockId) (terminator : Terminator)
  /-- Takes blocks out of a function. -/
  | keepBlocks (function : FunctionId) (kept : List BlockId)
  | record (misuse : Option FunctionId × Misuse)
  | listGlobal (global : ValueId)
  | countString
deriving DecidableEq, Repr

/-- Whether a misuse is about the place of code rather than about the code. -/
abbrev Misuse.isMisplaced : Misuse → Bool
  | .instOutsideBlock _ | .terminatorOutsideBlock _ | .instAfterTerminator ..
      | .terminatedTwice _ => true
  | _ => false

/-- A block with one more instruction at its end. -/
def Block.append (id : ValueId) (b : Block) : Block := { b with insts := b.insts ++ [id] }

/-- A block with one more instruction behind those at its head for which `isHead` holds. -/
def Block.insert (isHead : ValueId → Bool) (id : ValueId) (b : Block) : Block :=
  { b with insts := b.insts.takeWhile isHead ++ id :: b.insts.dropWhile isHead }

namespace Module

def pushValue (m : Module) (v : Value) : Module := { m with values := m.values.push v }

def apply (m : Module) : Change → Module
  | .addType type => { m with types := m.types.push type }
  | .defineStruct id type => { m with types := m.types.setIfInBounds id.index type }
  | .addValue value => m.pushValue value
  | .addInst none type inst => m.pushValue ⟨type, .inst none inst⟩
  | .addInst (some b) type inst =>
      { m.pushValue ⟨type, .inst (some b) inst⟩ with
        blocks := m.blocks.modify b.index (Block.append ⟨m.values.size⟩) }
  | .addPhi b type =>
      let pushed := m.pushValue ⟨type, .inst (some b) (.phi [])⟩
      { pushed with
        blocks := m.blocks.modify b.index (Block.insert (Build.isPhi pushed) ⟨m.values.size⟩) }
  | .addEntry phi value source =>
      { m with values := m.values.modify phi.index (Value.addEntry value source) }
  | .setInitial global value =>
      { m with values := m.values.modify global.index (Value.setInitial value) }
  | .addFunction function => { m with functions := m.functions.push function }
  | .setLinkage id linkage =>
      { m with functions := m.functions.modify id.index fun f => { f with linkage } }
  | .addBlock function name =>
      { m with
        blocks := m.blocks.push { name, function }
        functions := m.functions.modify function.index fun f =>
          { f with blocks := f.blocks ++ [⟨m.blocks.size⟩] } }
  | .moveTo b => { m with position := some b }
  | .terminate b terminator =>
      { m with
        blocks := m.blocks.modify b.index fun block =>
          { block with terminator := some terminator } }
  | .keepBlocks function kept => m.keepBlocks function kept
  | .record misuse => { m with misuses := m.misuses.push misuse }
  | .listGlobal global => { m with globals := m.globals.push global }
  | .countString => { m with stringCount := m.stringCount + 1 }

/-- No code can be added: there is no current block, or it has its end. -/
def Stuck (m : Module) : Prop :=
  ∀ b block, m.position = some b → m.blocks[b.index]? = some block → block.terminator.isSome

/-- When the builder makes a change. -/
def Fits (m : Module) : Change → Prop
  | .defineStruct id type =>
      ∃ name packed members packed', m.types[id.index]? = some (.struct name none packed) ∧
        type = .struct name (some members) packed'
  | .addValue value => value.inst? = none
  | .addInst block _ inst =>
      m.position = block ∧ inst.isPhi = false ∧
        (∀ pointer, inst.destination? = some pointer → pointer.index < m.values.size) ∧
        ∀ b, block = some b → b.index < m.blocks.size
  | .addPhi b _ => b.index < m.blocks.size
  | .addEntry phi _ _ =>
      ∃ type block incoming, m.values[phi.index]? = some ⟨type, .inst block (.phi incoming)⟩
  | .setInitial global _ =>
      ∃ type name content initial,
        m.values[global.index]? = some ⟨type, .global name content initial⟩
  | .addFunction function =>
      function.blocks = [] ∧
        ∃ type, m.values[function.value.index]? = some ⟨type, .function ⟨m.functions.size⟩⟩
  | .terminate b _ =>
      m.position = some b ∧
        ∃ block, m.blocks[b.index]? = some block ∧ block.terminator = none
  | .record misuse =>
      m.currentFunction = .ok misuse.1 ∧ (misuse.2.isMisplaced = true → m.Stuck)
  | _ => True

/-- A change that is permitted and fits leads from one module to the next. -/
def Step (P : Change → Prop) (m m' : Module) : Prop := ∃ c, P c ∧ m.Fits c ∧ m' = m.apply c

/-- A sequence of permitted changes leads from one module to another. -/
def Evolves (P : Change → Prop) : Module → Module → Prop := Relation.ReflTransGen (Step P)

instance (P : Change → Prop) : IsPreorder Module (Evolves P) :=
  inferInstanceAs (IsPreorder Module (Relation.ReflTransGen (Step P)))

namespace Evolves

variable {P Q : Change → Prop} {m m' : Module}

theorem one {c : Change} (hc : P c) (hfits : m.Fits c) : m.Evolves P (m.apply c) :=
  Relation.ReflTransGen.single ⟨c, hc, hfits, rfl⟩

theorem mono (hPQ : ∀ c, P c → Q c) (h : m.Evolves P m') : m.Evolves Q m' := by
  refine Relation.ReflTransGen.mono ?_ m m' h
  rintro _ _ ⟨c, hc, hstep⟩
  exact ⟨c, hPQ c hc, hstep⟩

/-- What every permitted change preserves is preserved. -/
theorem preserves {I : Module → Prop} (h : m.Evolves P m')
    (step : ∀ m c, P c → m.Fits c → I m → I (m.apply c)) (hm : I m) : I m' := by
  induction h with
  | refl => exact hm
  | tail _ hlast ih =>
      obtain ⟨c, hc, hfits, rfl⟩ := hlast
      exact step _ c hc hfits ih

end Evolves

end Module

end CilSsa.Ssa
