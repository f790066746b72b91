import CilSsa.Proofs.ClosedModules
import CilSsa.Proofs.Registrations

/-!
Actions that keep modules closed.

An action names what it was given, what it has found in the module and what it has added before.  So
if everything given is there, a closed module stays closed, and what the action answers with is
there, too.
-/

namespace CilSsa.Ssa

/-- Data in which handles can be looked for. -/
class HoldsHandles (α : Type) where
  handles : α → List Handle

namespace HoldsHandles

variable {α β : Type}

instance : HoldsHandles TypeId := ⟨fun id => [.type id]⟩

instance : HoldsHandles ValueId := ⟨fun id => [.value id]⟩

instance : HoldsHandles BlockId := ⟨fun id => [.block id]⟩

instance : HoldsHandles FunctionId := ⟨fun id => [.function id]⟩

instance : HoldsHandles Handle := ⟨fun handle => [handle]⟩

instance : HoldsHandles IrType := ⟨IrType.handles⟩

instance : HoldsHandles Value := ⟨Value.handles⟩

instance : HoldsHandles Block := ⟨Block.handles⟩

instance : HoldsHandles Function := ⟨Function.handles⟩

instance : HoldsHandles PUnit := ⟨fun _ => []⟩

instance : HoldsHandles Bool := ⟨fun _ => []⟩

instance : HoldsHandles TypeClass := ⟨fun _ => []⟩

/-- What a module holds is not looked at when the module is. -/
instance : HoldsHandles Module := ⟨fun _ => []⟩

instance [HoldsHandles α] : HoldsHandles (List α) := ⟨fun l => l.flatMap handles⟩

instance [HoldsHandles α] : HoldsHandles (Option α) := ⟨fun item => item.toList.flatMap handles⟩

instance [HoldsHandles α] [HoldsHandles β] : HoldsHandles (α × β) :=
  ⟨fun p => handles p.1 ++ handles p.2⟩

section Rules

@[simp] theorem handles_type (id : TypeId) : handles id = [.type id] := rfl

@[simp] theorem handles_value (id : ValueId) : handles id = [.value id] := rfl

@[simp] theorem handles_block (id : BlockId) : handles id = [.block id] := rfl

@[simp] theorem handles_function (id : FunctionId) : handles id = [.function id] := rfl

@[simp] theorem handles_handle (handle : Handle) : handles handle = [handle] := rfl

@[simp] theorem handles_irType (type : IrType) : handles type = type.handles := rfl

@[simp] theorem handles_irValue (value : Value) : handles value = value.handles := rfl

@[simp] theorem handles_irBlock (block : Block) : handles block = block.handles := rfl

@[simp] theorem handles_irFunction (function : Function) : handles function = function.handles :=
  rfl

@[simp] theorem handles_unit (u : PUnit) : handles u = [] := rfl

@[simp] theorem handles_bool (b : Bool) : handles b = [] := rfl

@[simp] theorem handles_module (m : Module) : handles m = [] := rfl

@[simp] theorem handles_none [HoldsHandles α] : handles (none : Option α) = [] := rfl

@[simp] theorem handles_some [HoldsHandles α] (a : α) : handles (some a) = handles a :=
  List.append_nil _

@[simp] theorem handles_pair [HoldsHandles α] [HoldsHandles β] (a : α) (b : β) :
    handles (a, b) = handles a ++ handles b := rfl

@[simp] theorem handles_types (ids : List TypeId) : handles ids = ids.map .type :=
  List.map_eq_flatMap.symm

@[simp] theorem handles_values (ids : List ValueId) : handles ids = ids.map .value :=
  List.map_eq_flatMap.symm

end Rules

end HoldsHandles

open HoldsHandles (handles)

namespace Build

open Ssa.Module

variable {α β : Type} [HoldsHandles α] [HoldsHandles β] {given : List Handle}

/-- An action that keeps a module closed that has what the action is given, takes nothing away and
answers with something that is there. -/
class Closes (given : List Handle) (x : Build α) : Prop where
  run : ∀ {m : Module} {a : α} {m' : Module}, x m = .ok a m' → m.Closed → m.HasAll given →
    m'.Closed ∧ m.Grows m' ∧ m'.HasAll (handles a)

namespace Closes

theorem mono {x : Build α} {given' : List Handle} (hx : Closes given x)
    (hgiven : ∀ handle ∈ given, handle ∈ given') : Closes given' x where
  run h hclosed hgiven' := hx.run h hclosed fun handle hmem => hgiven' handle (hgiven handle hmem)

theorem pure_of {a : α} (ha : ∀ handle ∈ handles a, handle ∈ given) :
    Closes given (pure a : Build α) where
  run h hclosed hgiven := by
    obtain ⟨rfl, rfl⟩ := pure_eq_ok_iff.mp h
    exact ⟨hclosed, Std.Refl.refl _, fun handle hmem => hgiven handle (ha handle hmem)⟩

instance pure : Closes given (pure PUnit.unit : Build PUnit) := pure_of (by simp)

instance get : Closes given (get : Build Module) where
  run h hclosed _ := by
    obtain ⟨-, rfl⟩ := get_eq_ok_iff.mp h
    exact ⟨hclosed, Std.Refl.refl _, by simp [HasAll]⟩

/-- What comes after an action is given the answer of the action. -/
theorem seq {x : Build α} {f : α → Build β} (hx : Closes given x)
    (hf : ∀ a, Closes (handles a ++ given) (f a)) : Closes given (x >>= f) where
  run h hclosed hgiven := by
    obtain ⟨a, m₁, hfirst, hthen⟩ := bind_eq_ok_iff.mp h
    obtain ⟨hclosed₁, hgrows, hanswer⟩ := hx.run hfirst hclosed hgiven
    have hgiven₁ : m₁.HasAll (handles a ++ given) := fun handle hmem =>
      (List.mem_append.mp hmem).elim (hanswer handle) (hgiven.grows hgrows handle)
    obtain ⟨hclosed', hgrows', hanswer'⟩ := (hf a).run hthen hclosed₁ hgiven₁
    exact ⟨hclosed', IsTrans.trans _ _ _ hgrows hgrows', hanswer'⟩

theorem andThen {x : Build α} {f : α → Build β} (hx : Closes given x)
    (hf : ∀ a, Closes given (f a)) : Closes given (x >>= f) :=
  hx.seq fun a => (hf a).mono fun _ => List.mem_append_right _

instance bind (x : Build α) (f : α → Build β) [hx : Closes given x] [hf : ∀ a, Closes given (f a)] :
    Closes given (x >>= f) :=
  hx.andThen hf

instance ite (c : Prop) [Decidable c] (x y : Build α) [hx : Closes given x]
    [hy : Closes given y] : Closes given (if c then x else y) := by
  split
  · exact hx
  · exact hy

end Closes

section Questions

theorem query_closes {ask : Module → Except Fault α}
    (h : ∀ {m : Module} {a : α}, ask m = .ok a → m.Closed → m.HasAll (handles a)) :
    Closes given (query ask) where
  run hrun hclosed _ := by
    obtain ⟨hanswer, rfl⟩ := query_eq_ok_iff.mp hrun
    exact ⟨hclosed, Std.Refl.refl _, h hanswer hclosed⟩

instance (id : TypeId) : Closes given (query (·.typeData id)) :=
  query_closes fun h hclosed => (hclosed.typeAt h).known

instance (id : ValueId) : Closes given (query (·.value id)) :=
  query_closes fun h hclosed => (hclosed.valueAt h).known

instance (id : FunctionId) : Closes given (query (·.function id)) :=
  query_closes fun h hclosed => hclosed.function h

instance (id : BlockId) : Closes given (query (·.block id)) :=
  query_closes fun h hclosed => hclosed.block h

instance (id : ValueId) : Closes given (query (·.typeOf id)) :=
  query_closes fun h hclosed => by simpa [HasAll] using hclosed.typeOf h

instance (id : TypeId) : Closes given (query (·.classify id)) :=
  query_closes fun _ _ _ h => nomatch h

instance (id : ValueId) : Closes given (query (·.classOf id)) :=
  query_closes fun _ _ _ h => nomatch h

instance (id : ValueId) : Closes given (query (·.isConstant id)) :=
  query_closes fun _ _ _ h => nomatch h

instance (f : FunctionId) (value : Option ValueId) : Closes given (query (returnFits f value)) :=
  query_closes fun _ _ _ h => nomatch h

instance (id : TypeId) : Closes given (query (·.signature? id)) := by
  refine query_closes fun {m signature} h hclosed => ?_
  rcases signature with _ | ⟨result, params⟩
  · simp [HasAll]
  · simpa [HasAll] using hclosed.signature h

instance (id : TypeId) : Closes given (query (·.structBody? id)) := by
  refine query_closes fun {m body} h hclosed => ?_
  rcases body with _ | ⟨members, packed⟩
  · simp [HasAll]
  · simpa [HasAll] using hclosed.structBody h

instance (type : TypeId) (index : Nat) : Closes given (query (member? type index)) := by
  refine query_closes fun {m member} h hclosed => ?_
  simp only [member?, exceptBind_eq_ok_iff] at h
  obtain ⟨body, hbody, h⟩ := h
  cases member with
  | none => simp [HasAll]
  | some member =>
      split at h
      · rename_i members packed
        have hmember := List.mem_of_getElem? (exceptPure_eq_ok_iff.mp h).symm
        simpa [HasAll] using hclosed.structBody hbody _ (List.mem_map_of_mem hmember)
      · cases exceptPure_eq_ok_iff.mp h

instance (id : TypeId) : Closes given (query (·.pointee? id)) := by
  refine query_closes fun {m pointee} h hclosed => ?_
  cases pointee with
  | none => simp [HasAll]
  | some pointee => simpa [HasAll] using hclosed.pointee h

instance : Closes given (query (·.currentFunction)) := by
  refine query_closes fun {m function} h hclosed => ?_
  unfold Module.currentFunction at h
  split at h
  · cases exceptPure_eq_ok_iff.mp h
    simp [HasAll]
  · simp only [exceptBind_eq_ok_iff, exceptPure_eq_ok_iff] at h
    obtain ⟨block, hblock, rfl⟩ := h
    simpa [HasAll] using hclosed.block hblock _ List.mem_cons_self

instance (f : FunctionId) (index : Nat) : Closes given (query (·.param f index)) := by
  refine query_closes fun {m param} h hclosed => ?_
  simp only [Module.param, exceptBind_eq_ok_iff, Arena.entry_eq_ok_iff] at h
  obtain ⟨function, hfunction, h⟩ := h
  have hparam : param ∈ function.params := by simpa using Array.mem_of_getElem? h
  have hhas := hclosed.function hfunction (.value param) (by simp [Function.handles, hparam])
  simpa [HasAll] using hhas

end Questions

section Changes

variable {m m' : Module}

/-- Changes that concern no entries. -/
theorem closed_of_same (htypes : m'.types = m.types) (hvalues : m'.values = m.values)
    (hblocks : m'.blocks = m.blocks) (hfunctions : m'.functions = m.functions)
    (hglobals : m'.globals = m.globals) (hclosed : m.Closed) : m'.Closed ∧ m.Grows m' := by
  have hgrows : m.Grows m' := grows_of_le (htypes ▸ Nat.le_refl _) (hvalues ▸ Nat.le_refl _)
    (hblocks ▸ Nat.le_refl _) (hfunctions ▸ Nat.le_refl _)
  have h := hclosed.grows hgrows
  exact ⟨⟨htypes ▸ h.types, hvalues ▸ h.values, hblocks ▸ h.blocks, hfunctions ▸ h.functions,
    hglobals ▸ h.globals⟩, hgrows⟩

theorem modify_closes {change : Module → Module}
    (h : ∀ {m : Module}, m.Closed → m.HasAll given → (change m).Closed ∧ m.Grows (change m)) :
    Closes given (modify change : Build PUnit) where
  run hrun hclosed hgiven := by
    obtain rfl := modify_eq_ok_iff.mp hrun
    obtain ⟨hclosed', hgrows⟩ := h hclosed hgiven
    exact ⟨hclosed', hgrows, by simp [HasAll]⟩

instance (misuse : Misuse) : Closes given (record misuse) where
  run {m _ _} hrun hclosed _ := by
    obtain ⟨function, -, rfl⟩ := record_eq_ok_iff.mp hrun
    obtain ⟨hclosed', hgrows⟩ : (m.apply (.record (function, misuse))).Closed ∧ m.Grows _ :=
      closed_of_same rfl rfl rfl rfl rfl hclosed
    exact ⟨hclosed', hgrows, by simp [HasAll]⟩

instance (b : BlockId) : Closes given (positionAtEnd b) :=
  modify_closes fun hclosed _ => closed_of_same rfl rfl rfl rfl rfl hclosed

instance countString_closes :
    Closes given (modify fun m => { m with stringCount := m.stringCount + 1 } : Build PUnit) :=
  modify_closes fun hclosed _ => closed_of_same rfl rfl rfl rfl rfl hclosed

theorem listGlobal_closes {global : ValueId} (h : .value global ∈ given) :
    Closes given (modify fun m => { m with globals := m.globals.push global } : Build PUnit) := by
  refine modify_closes fun {m} hclosed hgiven => ?_
  have hgrows : m.Grows { m with globals := m.globals.push global } := by
    apply grows_of_le <;> simp
  obtain ⟨htypes, hvalues, hblocks, hfunctions, hglobals⟩ := hclosed.grows hgrows
  refine ⟨⟨htypes, hvalues, hblocks, hfunctions, fun other hmem => ?_⟩, hgrows⟩
  rcases Array.mem_push.mp hmem with hold | rfl
  · exact hglobals other hold
  · exact hgrows _ (hgiven _ h)

/-- A type is added behind its parts. -/
theorem closed_addType {type : IrType} (h : ∀ handle ∈ type.handles, handle ∈ given)
    (hclosed : m.Closed) (hgiven : m.HasAll given) :
    (m.apply (.addType type)).Closed ∧ m.Grows (m.apply (.addType type)) := by
  have hgrows : m.Grows (m.apply (.addType type)) := by
    apply grows_of_le <;> simp [Module.apply]
  obtain ⟨htypes, hvalues, hblocks, hfunctions, hglobals⟩ := hclosed.grows hgrows
  have htype : (m.apply (.addType type)).TypeAt m.types.size type := by
    refine ⟨fun handle hmem => hgrows _ (hgiven _ (h handle hmem)), fun part hpart => ?_⟩
    exact hgiven (.type part) (h _ (List.mem_map_of_mem (List.mem_append_left _ hpart)))
  exact ⟨⟨htypes.push htype, hvalues, hblocks, hfunctions, hglobals⟩, hgrows⟩

theorem intern_closes {type : IrType} (h : ∀ handle ∈ type.handles, handle ∈ given) :
    Closes given (intern type) where
  run {m id m'} hrun hclosed hgiven := by
    have hid : m'.HasAll (handles id) := by
      intro handle hmem
      obtain rfl : handle = .type id := by simpa using hmem
      exact (Array.getElem?_eq_some_iff.mp (intern_type hrun)).1
    rcases intern_cases hrun with ⟨-, rfl⟩ | ⟨-, -, rfl⟩
    · exact ⟨hclosed, Std.Refl.refl _, hid⟩
    · obtain ⟨hclosed', hgrows⟩ := closed_addType h hclosed hgiven
      exact ⟨hclosed', hgrows, hid⟩

instance (name : String) : Closes given (namedStruct name) where
  run {m id m'} hrun hclosed hgiven := by
    cases hrun
    have hbare : ∀ handle ∈ (IrType.struct name none false).handles, handle ∈ given :=
      fun _ h => nomatch h
    obtain ⟨hclosed', hgrows⟩ := closed_addType hbare hclosed hgiven
    refine ⟨hclosed', hgrows, fun handle hmem => ?_⟩
    obtain rfl : handle = .type ⟨m.types.size⟩ := by simpa using hmem
    simp [Has]

theorem pushValue_closes {type : TypeId} {kind : ValueKind} (htype : .type type ∈ given)
    (hkind : ∀ handle ∈ kind.handles, handle ∈ given) : Closes given (pushValue type kind) where
  run {m id m'} hrun hclosed hgiven := by
    cases hrun
    have hgrows : m.Grows (m.pushValue ⟨type, kind⟩) := by
      apply grows_of_le <;> simp [Module.pushValue]
    obtain ⟨htypes, hvalues, hblocks, hfunctions, hglobals⟩ := hclosed.grows hgrows
    have hvalue : (m.pushValue ⟨type, kind⟩).ValueAt m.values.size ⟨type, kind⟩ := by
      constructor
      · intro handle hmem
        rcases List.mem_cons.mp hmem with rfl | hmem
        · exact hgrows _ (hgiven _ htype)
        · exact hgrows _ (hgiven _ (hkind handle hmem))
      · exact fun item hitem =>
          hgiven (.value item) (hkind _ (ValueKind.handles_of_mem_items hitem))
    refine ⟨⟨htypes, hvalues.push hvalue, hblocks, hfunctions, hglobals⟩, hgrows, ?_⟩
    intro handle hmem
    obtain rfl : handle = .value ⟨m.values.size⟩ := by simpa using hmem
    simp [Has]

/-- A type without parts replaces another. -/
theorem setType_closes {id : TypeId} {type : IrType} (h : ∀ handle ∈ type.handles, handle ∈ given)
    (hparts : type.parts = []) :
    Closes given (modify fun m => { m with types := m.types.setIfInBounds id.index type } :
      Build PUnit) := by
  refine modify_closes fun {m} hclosed hgiven => ?_
  have hgrows : m.Grows { m with types := m.types.setIfInBounds id.index type } := by
    apply grows_of_le <;> simp
  obtain ⟨htypes, hvalues, hblocks, hfunctions, hglobals⟩ := hclosed.grows hgrows
  refine ⟨⟨htypes.setIfInBounds ⟨fun handle hmem => ?_, ?_⟩, hvalues, hblocks, hfunctions,
    hglobals⟩, hgrows⟩
  · exact hgrows _ (hgiven _ (h handle hmem))
  · simp [hparts]

theorem setKind_closes {id : ValueId} {kind : ValueKind}
    (hkind : ∀ handle ∈ kind.handles, handle ∈ given) (hitems : kind.items = []) :
    Closes given (setKind id kind) := by
  refine modify_closes fun {m} hclosed hgiven => ?_
  have hgrows : m.Grows { m with values := m.values.modify id.index fun v => { v with kind } } := by
    apply grows_of_le <;> simp
  obtain ⟨htypes, hvalues, hblocks, hfunctions, hglobals⟩ := hclosed.grows hgrows
  refine ⟨⟨htypes, hvalues.modify fun v _ hv => ⟨fun handle hmem => ?_, ?_⟩, hblocks, hfunctions,
    hglobals⟩, hgrows⟩
  · rcases List.mem_cons.mp hmem with rfl | hmem
    · exact hv.known _ List.mem_cons_self
    · exact hgrows _ (hgiven _ (hkind handle hmem))
  · simp [hitems]

theorem modifyBlock_closes {id : BlockId} {change : Block → Block}
    (hchange : ∀ block, ∀ handle ∈ (change block).handles,
      handle ∈ block.handles ∨ handle ∈ given) : Closes given (modifyBlock id change) := by
  refine modify_closes fun {m} hclosed hgiven => ?_
  have hgrows : m.Grows { m with blocks := m.blocks.modify id.index change } := by
    apply grows_of_le <;> simp
  obtain ⟨htypes, hvalues, hblocks, hfunctions, hglobals⟩ := hclosed.grows hgrows
  refine ⟨⟨htypes, hvalues, hblocks.modify fun block _ hblock handle hmem => ?_, hfunctions,
    hglobals⟩, hgrows⟩
  rcases hchange block handle hmem with hold | hnew
  · exact hblock handle hold
  · exact hgrows _ (hgiven _ hnew)

theorem modifyInsts_closes {id : BlockId} (change : List ValueId → List ValueId)
    (hchange : ∀ insts, ∀ v ∈ change insts, v ∈ insts ∨ .value v ∈ given) :
    Closes given (modifyBlock id fun block => { block with insts := change block.insts }) := by
  refine modifyBlock_closes fun block handle hmem => ?_
  simp only [Block.handles, List.mem_append, List.mem_cons, List.mem_map] at hmem ⊢
  obtain (hfunction | ⟨v, hv, rfl⟩) | hterminator := hmem
  · exact .inl (.inl (.inl hfunction))
  · exact (hchange block.insts v hv).imp (fun hold => .inl (.inr ⟨v, hold, rfl⟩)) fun hnew => hnew
  · exact .inl (.inr hterminator)

end Changes

end Build

end CilSsa.Ssa
