import CilSsa.Proofs.Answers
import CilSsa.Proofs.Handles
import CilSsa.Proofs.NewObjects

/-!
Code that is added to an open block.

The builder takes every instruction where there is a block without an end to add it to, and it
records misuse only for operands that do not fit.  So the code of an allocation routine is built
without misuse, whatever else the module holds.
-/

namespace CilSsa

open Ssa Lowering

namespace Ssa.Build

variable {α : Type} {m : Module} {a : α}

/-- A question that has an answer. -/
theorem query_of_ok {question : Module → Except Fault α} (h : question m = .ok a) :
    query question m = .ok a m :=
  query_eq_ok_iff.mpr ⟨h, rfl⟩

theorem ask_of_ok {question : Except Fault α} (h : question = .ok a) : ask question m = .ok a m :=
  query_of_ok (m := m) h

end Ssa.Build

namespace Ssa.Module

variable {m m' m'' : Module} {f : FunctionId} {b : BlockId}

/-- Code is added to a block of a function, which has no end yet. -/
structure Open (m : Module) (f : FunctionId) (b : BlockId) : Prop where
  position : m.position = some b
  block : ∃ block, m.blocks[b.index]? = some block ∧ block.function = f ∧ block.terminator = none

/-- Nothing but a block and the types and values has changed, and no misuse is recorded. -/
structure Fills (b : BlockId) (m m' : Module) : Prop where
  misuses : m'.misuses = m.misuses
  functions : m'.functions = m.functions
  size : m'.blocks.size = m.blocks.size
  others : ∀ c : BlockId, c ≠ b → m'.blocks[c.index]? = m.blocks[c.index]?

theorem Fills.refl (b : BlockId) (m : Module) : m.Fills b m :=
  ⟨rfl, rfl, rfl, fun _ _ => rfl⟩

theorem Fills.trans (h : Fills b m m') (h' : Fills b m' m'') : Fills b m m'' where
  misuses := h'.misuses.trans h.misuses
  functions := h'.functions.trans h.functions
  size := h'.size.trans h.size
  others c hc := (h'.others c hc).trans (h.others c hc)

theorem fills_modify (change : Block → Block) (h : m'.misuses = m.misuses)
    (hfunctions : m'.functions = m.functions)
    (hblocks : m'.blocks = m.blocks.modify b.index change) :
    m.Fills b m' where
  misuses := h
  functions := hfunctions
  size := by rw [hblocks, Array.size_modify]
  others c hc := by
    have hne : b.index ≠ c.index := fun heq => hc (congrArg BlockId.mk heq.symm)
    rw [hblocks, Array.getElem?_modify, if_neg hne]

theorem Open.currentFunction (h : m.Open f b) : m.currentFunction = .ok (some f) := by
  obtain ⟨block, hblock, hfunction, -⟩ := h.block
  exact currentFunction_of_owns h.position ⟨block, hblock, hfunction⟩

section Steps

open Build

theorem exists_intern (type : IrType) (m : Module) : ∃ id m', intern type m = .ok id m' := by
  unfold Build.intern
  split <;> exact ⟨_, _, rfl⟩

/-- New types leave the block as it is. -/
theorem Open.intern (h : m.Open f b) (type : IrType) : ∃ id m', intern type m = .ok id m' ∧
    m'.Open f b ∧ m.Fills b m' ∧ m'.values = m.values ∧ m'.types[id.index]? = some type := by
  obtain ⟨id, m', hrun⟩ := exists_intern type m
  have htype := intern_type hrun
  obtain ⟨types, rfl⟩ := intern_same hrun
  exact ⟨id, _, hrun, ⟨h.position, h.block⟩, ⟨rfl, rfl, rfl, fun _ _ => rfl⟩, rfl, htype⟩

/-- A type that is there already is found. -/
theorem intern_of_idxOf? {type : IrType} {id : TypeId} (h : m.types.idxOf? type = some id.index) :
    intern type m = .ok id m := by
  simp [Build.intern, h]

/-- An instruction at the end of the block. -/
theorem Open.pushInst (h : m.Open f b) (type : TypeId) (inst : Inst) : ∃ m',
    pushInst type inst m = .ok ⟨m.values.size⟩ m' ∧ m'.Open f b ∧ m.Fills b m' ∧
      m'.types = m.types ∧ m'.values[m.values.size]? = some ⟨type, .inst (some b) inst⟩ := by
  obtain ⟨block, hblock, hfunction, hopen⟩ := h.block
  have hfound : m.block b = .ok block := Arena.entry_eq_ok_iff.mpr hblock
  refine ⟨m.apply (.addInst (some b) type inst), ?_, ⟨h.position, block.append ⟨m.values.size⟩, ?_,
    hfunction, hopen⟩, fills_modify _ rfl rfl rfl, rfl, ?_⟩
  · rw [Build.pushInst, getBind_eq_ok_iff, h.position]
    dsimp only
    rw [bind_of_ok (query_of_ok hfound), hopen]
    rfl
  · simp [apply, pushValue, Array.getElem?_modify, hblock]
  · simp [apply, pushValue]

/-- The type that an instruction has when it is asked for. -/
theorem typeOf_eq_ok {v : ValueId} {value : Value} (h : m.values[v.index]? = some value) :
    m.typeOf v = .ok value.type := by
  rw [typeOf, Module.value, Arena.entry_eq_ok_iff.mpr h]
  rfl

/-- The allocation of an object, which is a pointer to the struct. -/
theorem Open.heapAlloc (h : m.Open f b) {struct pointer : TypeId}
    (hpointer : m.types.idxOf? (.pointer struct) = some pointer.index) :
    ∃ v m', heapAlloc struct none m = .ok v m' ∧ m'.Open f b ∧ m.Fills b m' ∧ m'.types = m.types ∧
      m'.values[v.index]? = some ⟨pointer, .inst (some b) (.heapAlloc struct none)⟩ := by
  have hfound : Build.pointerType struct m = .ok pointer m := intern_of_idxOf? hpointer
  obtain ⟨m', hpush, hopen, hfills, htypes, hvalue⟩ := h.pushInst pointer (.heapAlloc struct none)
  rw [Build.heapAlloc, bind_of_ok hfound]
  exact ⟨_, m', hpush, hopen, hfills, htypes, hvalue⟩

variable {struct : TypeId} {name : String} {body : List TypeId} {packed : Bool}

/-- The address of a member of a defined struct. -/
theorem Open.structGep (h : m.Open f b) {index : Nat} {member : TypeId} (object : ValueId)
    (htype : m.types[struct.index]? = some (.struct name (some body) packed))
    (hmember : body[index]? = some member) :
    ∃ v m', structGep struct object index m = .ok v m' ∧ m'.Open f b ∧ m.Fills b m' ∧
      m'.classOf v = .ok .pointer := by
  have hfound : member? struct index m = .ok (some member) := by
    rw [Build.member?, structBody?, typeData, Arena.entry_eq_ok_iff.mpr htype]
    exact congrArg Except.ok hmember
  obtain ⟨pointer, m₁, hpointer, hopen₁, hfills₁, -, htype₁⟩ := h.intern (.pointer member)
  obtain ⟨m₂, hpush, hopen₂, hfills₂, htypes, hvalue⟩ :=
    hopen₁.pushInst pointer (.structGep struct object index)
  refine ⟨⟨m₁.values.size⟩, m₂, ?_, hopen₂, hfills₁.trans hfills₂, ?_⟩
  · rw [Build.structGep, bind_of_ok (query_of_ok hfound)]
    exact bind_eq_ok_iff.mpr ⟨member, m, rfl, (bind_of_ok hpointer).trans hpush⟩
  · have hvalue' : m₂.typeOf ⟨m₁.values.size⟩ = .ok pointer := typeOf_eq_ok hvalue
    have hclass : m₂.classify pointer = .ok .pointer :=
      classify_eq_ok_iff.mpr ⟨_, htypes ▸ htype₁, rfl⟩
    rw [classOf, hvalue']
    exact hclass

/-- A store to an address. -/
theorem Open.store (h : m.Open f b) {pointer : ValueId} (value : ValueId) (isVolatile : Bool)
    (hpointer : m.classOf pointer = .ok .pointer) :
    ∃ m', store pointer value isVolatile m = .ok () m' ∧ m'.Open f b ∧ m.Fills b m' := by
  obtain ⟨void, m₁, hvoid, hopen₁, hfills₁, -, -⟩ := h.intern .void
  obtain ⟨m₂, hpush, hopen₂, hfills₂, -, -⟩ :=
    hopen₁.pushInst void (.store pointer value isVolatile)
  rw [Build.store, bind_of_ok (query_of_ok hpointer)]
  refine ⟨m₂, ?_, hopen₂, hfills₁.trans hfills₂⟩
  exact (bind_of_ok hvoid).trans ((bind_of_ok hpush).trans rfl)

/-- The stores to the members of a new object, each of which is there. -/
theorem Open.storeTables (h : m.Open f b) {stores : List (Nat × ValueId)} (object : ValueId)
    (htype : m.types[struct.index]? = some (.struct name (some body) packed))
    (hmembers : ∀ store ∈ stores, store.1 < body.length) :
    ∃ m', storeTables struct object stores m = .ok () m' ∧ m'.Open f b ∧ m.Fills b m' := by
  induction stores generalizing m with
  | nil => exact ⟨m, rfl, h, .refl b m⟩
  | cons first rest ih =>
      obtain ⟨hfirst, hrest⟩ := List.forall_mem_cons.mp hmembers
      obtain ⟨address, m₁, hgep, hopen₁, hfills₁, haddress⟩ :=
        h.structGep object htype (List.getElem?_eq_getElem hfirst)
      obtain ⟨m₂, hstore, hopen₂, hfills₂⟩ := hopen₁.store first.2 false haddress
      have hboth : Keeps (Module.Evolves Change.Any) (do
          let member ← Build.structGep struct object first.1
          Build.store member first.2 false) := inferInstance
      have hrun : (do
          let member ← Build.structGep struct object first.1
          Build.store member first.2 false : Build Unit) m = .ok () m₂ :=
        bind_eq_ok_iff.mpr ⟨address, m₁, hgep, hstore⟩
      have htype₂ := (hboth.run hrun).partsKept htype (by simp)
      obtain ⟨m₃, hothers, hopen₃, hfills₃⟩ := ih hopen₂ htype₂ hrest
      refine ⟨m₃, ?_, hopen₃, (hfills₁.trans hfills₂).trans hfills₃⟩
      exact (bind_of_ok hrun).trans hothers

theorem Open.terminate (h : m.Open f b) (t : Terminator) :
    terminate t m = .ok () (m.apply (.terminate b t)) := by
  obtain ⟨block, hblock, -, hopen⟩ := h.block
  have hfound : m.block b = .ok block := Arena.entry_eq_ok_iff.mpr hblock
  rw [Build.terminate, getBind_eq_ok_iff, h.position]
  dsimp only
  rw [bind_of_ok (query_of_ok hfound), hopen]
  rfl

/-- The end of the block, with a value of the type that its function returns. -/
theorem Open.ret (h : m.Open f b) {function : Function} {value : ValueId} {type : TypeId}
    {params : List TypeId} (hfunction : m.functions[f.index]? = some function)
    (hsignature : m.types[function.type.index]? = some (.function type params))
    (hvalue : m.typeOf value = .ok type) (hclass : m.classify type = .ok .pointer) :
    ∃ m', ret (some value) m = .ok () m' ∧ m.Fills b m' := by
  have hfits : returnFits f (some value) m = .ok true := by
    have hresult : m.signature? function.type = .ok (some (type, params)) := by
      rw [signature?, typeData, Arena.entry_eq_ok_iff.mpr hsignature]
      rfl
    rw [returnFits, Module.function, Arena.entry_eq_ok_iff.mpr hfunction]
    simp only [exceptBind_eq_ok_iff]
    refine ⟨function, rfl, some (type, params), hresult, type, hvalue, ?_⟩
    simp only [Option.map_some, exceptBind_eq_ok_iff, exceptPure_eq_ok_iff]
    exact ⟨.pointer, hclass, by simp⟩
  refine ⟨m.apply (.terminate b (.ret (some value))), ?_,
    fills_modify (fun block => { block with terminator := some (.ret (some value)) }) rfl rfl rfl⟩
  rw [Build.ret, bind_of_ok (query_of_ok h.currentFunction)]
  exact (bind_of_ok (query_of_ok hfits)).trans (h.terminate (.ret (some value)))

/-- The code of an allocation routine, from the first block on. -/
theorem Open.allocate (h : m.Open f b) {stores : List (Nat × ValueId)} {function : Function}
    {pointer : TypeId} (htype : m.types[struct.index]? = some (.struct name (some body) packed))
    (hmembers : ∀ store ∈ stores, store.1 < body.length)
    (hfunction : m.functions[f.index]? = some function)
    (hsignature : m.types[function.type.index]? = some (.function pointer []))
    (hpointer : m.types.idxOf? (.pointer struct) = some pointer.index) :
    ∃ object allocated stored ended, Build.heapAlloc struct none m = .ok object allocated ∧
      Lowering.storeTables struct object stores allocated = .ok () stored ∧
      Build.ret (some object) stored = .ok () ended ∧ m.Fills b ended := by
  obtain ⟨object, allocated, hallocate, hopen₁, hfills₁, htypes, hobject⟩ := h.heapAlloc hpointer
  obtain ⟨stored, hstore, hopen₂, hfills₂⟩ :=
    hopen₁.storeTables object (htypes ▸ htype) hmembers
  have hlasts : allocated.Lasts stored :=
    (inferInstance : Keeps Module.Lasts (Lowering.storeTables struct object stores)).run hstore
  have hevolves : allocated.Evolves Change.Any stored :=
    (inferInstance : Keeps (Module.Evolves Change.Any)
      (Lowering.storeTables struct object stores)).run hstore
  have hobject' := hlasts.values hobject (by simp [Value.inst?, Inst.isPhi])
  have hpointer' : allocated.types[pointer.index]? = some (.pointer struct) :=
    htypes ▸ (idxOf?_eq_some_iff.mp hpointer).1
  have hclass : stored.classify pointer = .ok .pointer :=
    hevolves.classify (classify_eq_ok_iff.mpr ⟨_, hpointer', rfl⟩)
  have hsignature' : stored.types[function.type.index]? = some (.function pointer []) :=
    hevolves.partsKept (htypes ▸ hsignature) (by simp)
  have hfunction' : stored.functions[f.index]? = some function := by
    rw [hfills₂.functions, hfills₁.functions, hfunction]
  obtain ⟨ended, hret, hfills₃⟩ :=
    hopen₂.ret hfunction' hsignature' (typeOf_eq_ok hobject') hclass
  exact ⟨object, allocated, stored, ended, hallocate, hstore, hret,
    (hfills₁.trans hfills₂).trans hfills₃⟩

end Steps

end Ssa.Module

end CilSsa
