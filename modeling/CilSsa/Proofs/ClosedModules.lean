import CilSsa.Proofs.Builder
import CilSsa.Ssa.Command

/-!
Modules whose handles lead somewhere.

Types, values, blocks and functions hold handles of each other.  A module is closed if all of these
are of things that it has, and if types and constants are made of older ones: what a type that is
determined by its parts is made of comes before it, and so do the items of a constant.  Members of
structs, initial values of globals and entries of phis may come later.
-/

namespace CilSsa.Ssa

section Contents

/-- The parts that determine a type; a struct has a name instead. -/
def IrType.parts : IrType → List TypeId
  | .pointer pointee => [pointee]
  | .array element _ => [element]
  | .function result params => result :: params
  | .void | .int _ | .float _ | .struct .. => []

def IrType.members : IrType → List TypeId
  | .struct _ (some members) _ => members
  | _ => []

def IrType.handles (type : IrType) : List Handle := (type.parts ++ type.members).map .type

def Callee.handles : Callee → List Handle
  | .direct function => [.function function]
  | .indirect type pointer => [.type type, .value pointer]

def Inst.handles : Inst → List Handle
  | .binary _ lhs rhs | .icmp _ lhs rhs | .fcmp _ lhs rhs => [.value lhs, .value rhs]
  | .unary _ value | .cast _ value | .load value => [.value value]
  | .alloca type => [.type type]
  | .store pointer value _ => [.value pointer, .value value]
  | .structGep type pointer _ => [.type type, .value pointer]
  | .gep element pointer index => [.type element, .value pointer, .value index]
  | .heapAlloc type count => .type type :: count.toList.map .value
  | .phi incoming => incoming.flatMap fun (value, source) => [.value value, .block source]
  | .call callee args => callee.handles ++ args.map .value

def Terminator.handles : Terminator → List Handle
  | .br target => [.block target]
  | .condBr cond thenBlock elseBlock => [.value cond, .block thenBlock, .block elseBlock]
  | .switch value default cases =>
      .value value :: .block default :: cases.map fun (_, target) => .block target
  | .ret value => value.toList.map .value
  | .unreachable => []

/-- The constants that a constant is made of. -/
def ValueKind.items : ValueKind → List ValueId
  | .constAggregate items => items
  | _ => []

def ValueKind.handles : ValueKind → List Handle
  | .constInt _ | .constFloat _ | .constNull | .constBytes _ => []
  | .constAggregate items => items.map .value
  | .global _ content initial => [.type content, .value initial]
  | .function f | .param f _ => [.function f]
  | .inst place i => place.toList.map .block ++ i.handles

def Value.handles (value : Value) : List Handle := .type value.type :: value.kind.handles

def Block.handles (block : Block) : List Handle :=
  .function block.function :: block.insts.map .value ++
    block.terminator.toList.flatMap Terminator.handles

def Function.handles (function : Function) : List Handle :=
  .type function.type :: .value function.value :: function.params.map .value ++
    function.blocks.map .block

theorem ValueKind.handles_of_mem_items {kind : ValueKind} {item : ValueId} (h : item ∈ kind.items) :
    .value item ∈ kind.handles := by
  cases kind with
  | constAggregate items => simpa [handles, ValueKind.items] using h
  | _ => cases h

end Contents

section Arenas

variable {α : Type} {entries : Array α} {P Q : Nat → α → Prop}

/-- Whether something holds of every entry of an arena at its index. -/
def Throughout (entries : Array α) (P : Nat → α → Prop) : Prop :=
  ∀ i a, entries[i]? = some a → P i a

theorem Throughout.imp (h : Throughout entries P) (himp : ∀ i a, P i a → Q i a) :
    Throughout entries Q :=
  fun i a ha => himp i a (h i a ha)

theorem Throughout.of_mem {a : α} (h : Throughout entries P) (ha : a ∈ entries.toList) :
    ∃ i, P i a := by
  obtain ⟨i, hi⟩ := List.mem_iff_getElem?.mp ha
  exact ⟨i, h i a (by simpa using hi)⟩

theorem Throughout.push {a : α} (h : Throughout entries P) (ha : P entries.size a) :
    Throughout (entries.push a) P := by
  intro i b hb
  rw [Array.getElem?_push] at hb
  split at hb
  · rename_i hi
    obtain rfl := Option.some.inj hb
    exact hi ▸ ha
  · exact h i b hb

theorem Throughout.modify {i : Nat} {change : α → α} (h : Throughout entries P)
    (hchange : ∀ a, entries[i]? = some a → P i a → P i (change a)) :
    Throughout (entries.modify i change) P := by
  intro j b hb
  rw [Array.getElem?_modify] at hb
  split at hb
  · rename_i hij
    subst hij
    obtain ⟨a, ha, rfl⟩ := Option.map_eq_some_iff.mp hb
    exact hchange a ha (h i a ha)
  · exact h j b hb

theorem Throughout.setIfInBounds {i : Nat} {a : α} (h : Throughout entries P) (ha : P i a) :
    Throughout (entries.setIfInBounds i a) P := by
  intro j b hb
  rw [Array.getElem?_setIfInBounds] at hb
  split at hb
  · rename_i hij
    subst hij
    split at hb
    · obtain rfl := Option.some.inj hb
      exact ha
    · cases hb
  · exact h j b hb

theorem Throughout.mapIdx {change : Nat → α → α} (h : Throughout entries P)
    (hchange : ∀ i a, P i a → P i (change i a)) : Throughout (entries.mapIdx change) P := by
  intro i b hb
  rw [Array.getElem?_mapIdx] at hb
  obtain ⟨a, ha, rfl⟩ := Option.map_eq_some_iff.mp hb
  exact hchange i a (h i a ha)

end Arenas

namespace Module

def Has (m : Module) : Handle → Prop
  | .type id => id.index < m.types.size
  | .value id => id.index < m.values.size
  | .block id => id.index < m.blocks.size
  | .function id => id.index < m.functions.size

instance (m : Module) : DecidablePred m.Has
  | .type id => inferInstanceAs (Decidable (id.index < m.types.size))
  | .value id => inferInstanceAs (Decidable (id.index < m.values.size))
  | .block id => inferInstanceAs (Decidable (id.index < m.blocks.size))
  | .function id => inferInstanceAs (Decidable (id.index < m.functions.size))

/-- Whether a module has everything that another has. -/
def Grows (m m' : Module) : Prop := ∀ handle, m.Has handle → m'.Has handle

instance : IsPreorder Module Grows where
  refl _ _ := id
  trans _ _ _ h h' handle hhas := h' handle (h handle hhas)

theorem grows_of_le {m m' : Module} (htypes : m.types.size ≤ m'.types.size)
    (hvalues : m.values.size ≤ m'.values.size) (hblocks : m.blocks.size ≤ m'.blocks.size)
    (hfunctions : m.functions.size ≤ m'.functions.size) : m.Grows m'
  | .type _, h => Nat.lt_of_lt_of_le h htypes
  | .value _, h => Nat.lt_of_lt_of_le h hvalues
  | .block _, h => Nat.lt_of_lt_of_le h hblocks
  | .function _, h => Nat.lt_of_lt_of_le h hfunctions

/-- Whether a module has everything that is named. -/
def HasAll (m : Module) (handles : List Handle) : Prop := ∀ handle ∈ handles, m.Has handle

instance (m : Module) (handles : List Handle) : Decidable (m.HasAll handles) :=
  inferInstanceAs (Decidable (∀ handle ∈ handles, m.Has handle))

theorem HasAll.grows {m m' : Module} {handles : List Handle} (h : m.HasAll handles)
    (hgrows : m.Grows m') : m'.HasAll handles :=
  fun handle hmem => hgrows handle (h handle hmem)

/-- A type at an index: what it names is there, and its parts are older. -/
structure TypeAt (m : Module) (index : Nat) (type : IrType) : Prop where
  known : m.HasAll type.handles
  older : ∀ part ∈ type.parts, part.index < index

/-- A value at an index: what it names is there, and the items of a constant are older. -/
structure ValueAt (m : Module) (index : Nat) (value : Value) : Prop where
  known : m.HasAll value.handles
  older : ∀ item ∈ value.kind.items, item.index < index

/-- The entries of one module name what another module has. -/
structure ClosedIn (whole m : Module) : Prop where
  types : Throughout m.types whole.TypeAt
  values : Throughout m.values whole.ValueAt
  blocks : Throughout m.blocks fun _ block => whole.HasAll block.handles
  functions : Throughout m.functions fun _ function => whole.HasAll function.handles
  globals : ∀ global ∈ m.globals, whole.Has (.value global)

/-- Whatever the module names is there, and types and constants are made of older ones. -/
def Closed (m : Module) : Prop := m.ClosedIn m

theorem closed_new (name : String) : ({ name } : Module).Closed where
  types _ _ h := by simp at h
  values _ _ h := by simp at h
  blocks _ _ h := by simp at h
  functions _ _ h := by simp at h
  globals _ h := by simp at h

variable {whole whole' m : Module}

theorem ClosedIn.grows (h : whole.ClosedIn m) (hgrows : whole.Grows whole') :
    whole'.ClosedIn m where
  types := h.types.imp fun _ _ htype => ⟨htype.known.grows hgrows, htype.older⟩
  values := h.values.imp fun _ _ hvalue => ⟨hvalue.known.grows hgrows, hvalue.older⟩
  blocks := h.blocks.imp fun _ _ hblock => hblock.grows hgrows
  functions := h.functions.imp fun _ _ hfunction => hfunction.grows hgrows
  globals global hmem := hgrows _ (h.globals global hmem)

section Answers

variable {id : TypeId} {v : ValueId}

theorem Closed.typeAt {type : IrType} (hclosed : m.Closed) (h : m.typeData id = .ok type) :
    m.TypeAt id.index type :=
  hclosed.types _ _ (Arena.entry_eq_ok_iff.mp h)

theorem Closed.valueAt {value : Value} (hclosed : m.Closed) (h : m.value v = .ok value) :
    m.ValueAt v.index value :=
  hclosed.values _ _ (Arena.entry_eq_ok_iff.mp h)

theorem Closed.block {b : BlockId} {block : Block} (hclosed : m.Closed)
    (h : m.block b = .ok block) : m.HasAll block.handles :=
  hclosed.blocks _ _ (Arena.entry_eq_ok_iff.mp h)

theorem Closed.function {f : FunctionId} {function : Function} (hclosed : m.Closed)
    (h : m.function f = .ok function) : m.HasAll function.handles :=
  hclosed.functions _ _ (Arena.entry_eq_ok_iff.mp h)

theorem Closed.typeOf {type : TypeId} (hclosed : m.Closed) (h : m.typeOf v = .ok type) :
    m.Has (.type type) := by
  simp only [Module.typeOf, exceptBind_eq_ok_iff, exceptPure_eq_ok_iff] at h
  obtain ⟨value, hvalue, rfl⟩ := h
  exact (hclosed.valueAt hvalue).known _ List.mem_cons_self

theorem Closed.inst {inst : Inst} (hclosed : m.Closed) (h : m.inst? v = .ok (some inst)) :
    m.HasAll inst.handles := by
  simp only [inst?, exceptBind_eq_ok_iff, exceptPure_eq_ok_iff, Value.inst?] at h
  obtain ⟨value, hvalue, h⟩ := h
  split at h
  · rename_i place inst' hkind
    obtain rfl := Option.some.inj h
    refine fun handle hmem => (hclosed.valueAt hvalue).known handle ?_
    simp [Value.handles, hkind, ValueKind.handles, hmem]
  · cases h

theorem Closed.signature {result : TypeId} {params : List TypeId} (hclosed : m.Closed)
    (h : m.signature? id = .ok (some (result, params))) :
    m.HasAll (.type result :: params.map .type) := by
  simp only [signature?, exceptBind_eq_ok_iff] at h
  obtain ⟨type, htype, h⟩ := h
  have hknown := (hclosed.typeAt htype).known
  split at h
  · cases exceptPure_eq_ok_iff.mp h
    simpa [IrType.handles, IrType.parts, IrType.members] using hknown
  · cases exceptPure_eq_ok_iff.mp h

theorem Closed.structBody {members : List TypeId} {packed : Bool} (hclosed : m.Closed)
    (h : m.structBody? id = .ok (some (members, packed))) : m.HasAll (members.map .type) := by
  simp only [structBody?, exceptBind_eq_ok_iff] at h
  obtain ⟨type, htype, h⟩ := h
  have hknown := (hclosed.typeAt htype).known
  split at h
  · cases exceptPure_eq_ok_iff.mp h
    simpa [IrType.handles, IrType.parts, IrType.members] using hknown
  · cases exceptPure_eq_ok_iff.mp h

theorem Closed.pointee {pointee : TypeId} (hclosed : m.Closed)
    (h : m.pointee? id = .ok (some pointee)) : m.Has (.type pointee) := by
  simp only [pointee?, exceptBind_eq_ok_iff] at h
  obtain ⟨type, htype, h⟩ := h
  have hknown := (hclosed.typeAt htype).known
  split at h
  · cases exceptPure_eq_ok_iff.mp h
    exact hknown _ (by simp [IrType.handles, IrType.parts])
  · cases exceptPure_eq_ok_iff.mp h

end Answers

section Order

def PartOf (m : Module) (part id : TypeId) : Prop :=
  ∃ type, m.types[id.index]? = some type ∧ part ∈ type.parts

/-- Whether a constant is one of the items of another. -/
def ItemOf (m : Module) (item id : ValueId) : Prop :=
  ∃ value, m.values[id.index]? = some value ∧ item ∈ value.kind.items

theorem Closed.lt_of_partOf {part id : TypeId} (h : m.Closed) (hpart : m.PartOf part id) :
    part.index < id.index := by
  obtain ⟨type, htype, hmem⟩ := hpart
  exact (h.types _ type htype).older part hmem

theorem Closed.lt_of_itemOf {item id : ValueId} (h : m.Closed) (hitem : m.ItemOf item id) :
    item.index < id.index := by
  obtain ⟨value, hvalue, hmem⟩ := hitem
  exact (h.values _ value hvalue).older item hmem

/-- Types are made of their parts, and the parts of theirs, in finitely many steps. -/
theorem Closed.wellFounded_partOf (h : m.Closed) : WellFounded m.PartOf :=
  Subrelation.wf h.lt_of_partOf (measure TypeId.index).wf

/-- Constants are made of their items, and the items of theirs, in finitely many steps. -/
theorem Closed.wellFounded_itemOf (h : m.Closed) : WellFounded m.ItemOf :=
  Subrelation.wf h.lt_of_itemOf (measure ValueId.index).wf

end Order

end Module

end CilSsa.Ssa
