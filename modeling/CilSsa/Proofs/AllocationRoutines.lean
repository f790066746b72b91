import CilSsa.Proofs.Compiling
import CilSsa.Proofs.OpenBlocks
import CilSsa.Proofs.DispatchNeeds

/-!
Allocation routines.

In every state of a compilation under way the routine of a class is made without misuse of its own,
or is found.  It fills in just the pointers to the dispatch tables that the objects of the class
have, and whatever is being built meanwhile goes on undisturbed.
-/

namespace CilSsa

open Ssa Metadata Lowering

namespace Ssa.Module

variable {m m' : Module} {f : FunctionId} {struct : TypeId} {stores : List (Nat × ValueId)}

theorem resume_misuses (saved : Option BlockId) : (m.resume saved).misuses = m.misuses := by
  cases saved <;> rfl

/-- A function without parameters is added, also if its name is taken. -/
theorem Located.addFunction (h : m.Located) {type result : TypeId}
    (htype : m.types[type.index]? = some (.function result [])) (name : String)
    (linkage : Linkage) :
    ∃ m', Build.addFunction name type linkage m = .ok ⟨m.functions.size⟩ m' := by
  obtain ⟨pointer, m₁, hpointer⟩ := exists_intern (.pointer type) m
  have hsignature : m.signature? type = .ok (some (result, [])) := by
    rw [signature?, typeData, Arena.entry_eq_ok_iff.mpr htype]
    rfl
  obtain ⟨types, hsame⟩ := Build.intern_same hpointer
  let value : ValueId := ⟨m₁.values.size⟩
  let added : Module := (m₁.apply (.addValue ⟨pointer, .function ⟨m.functions.size⟩⟩)).apply
    (.addFunction { name, type, linkage, params := [], value })
  have hadded : added.Located := by
    simp only [added, hsame]
    exact h
  have hlast : ∃ m', (if (m₁.functionNamed? name).isSome = true then do
      Build.record (.functionTwice name)
      return ⟨m.functions.size⟩
    else return ⟨m.functions.size⟩ : Build FunctionId) added = .ok ⟨m.functions.size⟩ m' := by
    split
    · obtain ⟨function, hrecord⟩ := hadded.record (.functionTwice name)
      exact ⟨_, (bind_of_ok hrecord).trans rfl⟩
    · exact ⟨added, rfl⟩
  obtain ⟨m', hm'⟩ := hlast
  refine ⟨m', ?_⟩
  rw [Build.addFunction, getBind_eq_ok_iff, bind_of_ok (Build.query_of_ok hsignature)]
  refine bind_eq_ok_iff.mpr ⟨[], m, rfl, (bind_of_ok hpointer).trans ?_⟩
  exact bind_eq_ok_iff.mpr ⟨value, _, rfl, bind_eq_ok_iff.mpr ⟨[], _, rfl, hm'⟩⟩

/-- The code of an allocation routine has no phis. -/
theorem StoresIn.not_phi {object : ValueId} {code : List ValueId}
    (h : m.StoresIn struct object stores code) :
    ∀ v ∈ code, ∃ inst, m.Performs v inst ∧ inst.isPhi = false := by
  induction h with
  | nil => simp
  | cons place put _ ih =>
      intro v hv
      rcases List.mem_cons.mp hv with rfl | hv
      · exact ⟨_, place, rfl⟩
      · rcases List.mem_cons.mp hv with rfl | hv
        · exact ⟨_, put, rfl⟩
        · exact ih v hv

/-- A function that allocates an object is in order if no misuse is recorded against it. -/
theorem Allocates.verified (h : m.Allocates f struct stores) (hclean : m.misuseOf? f = none) :
    m.verify f = .ok (.ok ()) := by
  obtain ⟨function, b, block, object, code, hfunction, hblocks, hblock, hinsts,
    hend, hobject, hcode⟩ := h
  have hplain : ∀ v ∈ block.insts, ∃ inst, m.Performs v inst ∧ inst.isPhi = false := by
    intro v hv
    rw [hinsts] at hv
    rcases List.mem_cons.mp hv with rfl | hv
    · exact ⟨_, hobject, rfl⟩
    · exact hcode.not_phi v hv
  have hphi {v : ValueId} {type : TypeId} {place : Option BlockId}
      {entries : List (ValueId × BlockId)} (hv : v ∈ block.insts)
      (hvalue : m.values[v.index]? = some ⟨type, .inst place (.phi entries)⟩) : False := by
    obtain ⟨inst, ⟨type', place', hperforms⟩, hinst⟩ := hplain v hv
    cases hvalue.symm.trans hperforms
    exact Bool.noConfusion hinst
  refine verify_eq_ok_iff.mpr ⟨function, hfunction, hclean, fun c hc => ?_,
    fun c hc block' hblock' => ?_⟩
  · obtain rfl : c = b := by simpa [hblocks] using hc
    exact ⟨block, _, hblock, hend, by simp [Terminator.successors]⟩
  · obtain rfl : c = b := by simpa [hblocks] using hc
    obtain rfl := Option.some.inj (hblock.symm.trans hblock')
    exact {
      known := fun v hv => by
        obtain ⟨inst, ⟨type, place, hvalue⟩, -⟩ := hplain v hv
        exact ⟨_, hvalue⟩
      first := by
        refine List.pairwise_of_forall_mem_list fun v _ w hw hwphi => ?_
        obtain ⟨type, place, entries, hvalue⟩ := isPhi_eq_true_iff.mp hwphi
        exact (hphi hw hvalue).elim
      entries := fun v hv type place entries hvalue => (hphi hv hvalue).elim }

end Ssa.Module

namespace Lowering

variable {asm : Assembly} {settings : Settings} {ty : TypeDefId} {f : FunctionId}
  {s s' defined : Session}

section Steps

theorem resume_ok (saved : Option BlockId) :
    s' = { s with module := s.module.resume saved } → (match saved with
      | some block => do
          Build.positionAtEnd block
          pure f
      | _ => pure f : Lower FunctionId) s = .ok f s' := by
  rintro rfl
  cases saved <;> rfl

/-- The steps of a routine, one after another, make it. -/
theorem Routine.run (h : Routine asm ty f s s') (hnew : s.registry.hasNewobj ty = false) :
    newobjFunction asm ty s = .ok f s' := by
  obtain ⟨function, hfunction, -⟩ := h.declared_function
  have hentry : Build.appendBlock f "entry" h.declared.module =
      .ok ⟨h.declared.module.blocks.size⟩ (h.declared.module.apply (.addBlock f "entry")) := by
    have hfound : h.declared.module.function f = .ok function := Arena.entry_eq_ok_iff.mpr hfunction
    rw [Build.appendBlock, getBind_eq_ok_iff]
    exact bind_eq_ok_iff.mpr ⟨(), _, rfl, (bind_of_ok (Build.query_of_ok hfound)).trans rfl⟩
  have hdeclare := h.declare
  simp only [bind_eq_ok_iff, Lower.liftM_build, Lower.build_eq_ok_iff, pure_eq_ok_iff] at hdeclare
  obtain ⟨pointer, _, ⟨m₁, hpointer, rfl⟩, type, _, ⟨m₂, htype, rfl⟩, name, _, hname, f', _,
    ⟨m₃, hadd, rfl⟩, _, declared, hregister, rfl, hsame⟩ := hdeclare
  subst hsame
  unfold newobjFunction
  rw [getBind_eq_ok_iff]
  simp only [hnew, Bool.false_eq_true, if_false]
  refine bind_eq_ok_iff.mpr ⟨h.struct, s, Lower.consult_eq_ok_iff.mpr ⟨h.struct_eq, rfl⟩, ?_⟩
  refine bind_eq_ok_iff.mpr ⟨pointer, _, Lower.build_eq_ok_iff.mpr ⟨m₁, hpointer, rfl⟩, ?_⟩
  refine bind_eq_ok_iff.mpr ⟨type, _, Lower.build_eq_ok_iff.mpr ⟨m₂, htype, rfl⟩, ?_⟩
  refine bind_eq_ok_iff.mpr ⟨name, _, hname, ?_⟩
  refine bind_eq_ok_iff.mpr ⟨f, _, Lower.build_eq_ok_iff.mpr ⟨m₃, hadd, rfl⟩, ?_⟩
  refine bind_eq_ok_iff.mpr ⟨_, _, hregister, ?_⟩
  rw [getBind_eq_ok_iff]
  refine bind_eq_ok_iff.mpr ⟨_, _, Lower.build_eq_ok_iff.mpr ⟨_, hentry, rfl⟩, ?_⟩
  refine bind_eq_ok_iff.mpr ⟨_, _, Lower.build_eq_ok_iff.mpr ⟨_, rfl, rfl⟩, ?_⟩
  refine bind_eq_ok_iff.mpr ⟨h.object, _, Lower.build_eq_ok_iff.mpr ⟨_, h.allocate, rfl⟩, ?_⟩
  rw [getBind_eq_ok_iff]
  dsimp only
  have htables := h.tables
  have hlast : s' = { h.declared with
      layouts := h.layouts, module := h.ended.resume h.declared.module.position } := h.result
  split
  · rename_i hvtable
    rw [if_pos hvtable] at htables
    obtain ⟨vtable, hfound, hstores⟩ := htables
    refine bind_eq_ok_iff.mpr ⟨vtable, _, Lower.consult_eq_ok_iff.mpr ⟨hfound, rfl⟩, ?_⟩
    refine bind_eq_ok_iff.mpr ⟨h.stores, _, Lower.layout_eq_ok_iff.mpr ⟨_, hstores, rfl⟩, ?_⟩
    refine bind_eq_ok_iff.mpr ⟨(), _, Lower.build_eq_ok_iff.mpr ⟨_, h.store, rfl⟩, ?_⟩
    refine bind_eq_ok_iff.mpr ⟨(), _, Lower.build_eq_ok_iff.mpr ⟨_, h.ends, rfl⟩, ?_⟩
    exact resume_ok _ hlast
  · rename_i hvtable
    rw [if_neg hvtable] at htables
    obtain ⟨hstores, hlayouts⟩ := htables
    have hstore := h.store
    rw [hstores] at hstore
    obtain ⟨-, hsame⟩ := pure_eq_ok_iff.mp hstore
    have hends := h.ends
    rw [hsame] at hends
    refine bind_eq_ok_iff.mpr ⟨(), _, Lower.build_eq_ok_iff.mpr ⟨_, hends, rfl⟩, ?_⟩
    rw [hlayouts] at hlast
    exact resume_ok _ hlast

theorem addNewobj_of_new {r : Registry} (h : r.hasNewobj ty = false) :
    Registering.addNewobj asm ty f r = .ok () { r with newobjs := (ty, f) :: r.newobjs } := by
  rw [Registering.addNewobj, getBind_eq_ok_iff]
  exact bind_eq_ok_iff.mpr ⟨(), r, by simp [Registering.claim, h], rfl⟩

/-- The state in which the function of a routine is there and registered. -/
def Session.withRoutine (s : Session) (ty : TypeDefId) (f : FunctionId) (m : Module) : Session :=
  { s with module := m, registry := { s.registry with newobjs := (ty, f) :: s.registry.newobjs } }

theorem exists_declared {d : TypeDef} (hd : asm.typeDef ty = .ok d) (hs : s.module.Located)
    (hnew : s.registry.hasNewobj ty = false) (struct : TypeId) :
    ∃ f m function pointer, (do
      let object ← Build.pointerType struct
      let type ← Build.functionType object []
      let f ← Build.addFunction (← Names.newobj asm ty) type .internal
      Registering.addNewobj asm ty f
      return f : Lower FunctionId) s = .ok f (s.withRoutine ty f m) ∧
      s.module.Evolves Change.Any m ∧ m.functions[f.index]? = some function ∧
      m.types[function.type.index]? = some (.function pointer []) ∧
      m.types.idxOf? (.pointer struct) = some pointer.index := by
  obtain ⟨pointer, m₁, hpointer⟩ := Module.exists_intern (.pointer struct) s.module
  obtain ⟨type, m₂, htype⟩ := Module.exists_intern (.function pointer []) m₁
  have hfirst := Build.intern_first hpointer
  have hsignature := Build.intern_type htype
  have hm₂ : m₂.Located := by
    obtain ⟨types, hm₁⟩ := Build.intern_same hpointer
    obtain ⟨types', hm₂⟩ := Build.intern_same htype
    rw [hm₂, hm₁]
    exact hs
  obtain ⟨name, hname⟩ : ∃ name, Names.newobj asm ty = .ok name := by
    simp [Names.newobj, Names.type, Assembly.typeName, hd, bind, Except.bind, pure, Except.pure]
  obtain ⟨m₃, hadd⟩ := hm₂.addFunction hsignature name .internal
  have hadded : m₂.Evolves Change.Any m₃ :=
    (inferInstance : Keeps _ (Build.addFunction name type .internal)).run hadd
  have hevolves : m₁.Evolves Change.Any m₃ := IsTrans.trans _ _ _
    ((inferInstance : Keeps _ (Build.functionType pointer [])).run htype) hadded
  obtain ⟨-, params, value, hfunctions⟩ := Build.addFunction_functions hadd
  refine ⟨⟨m₂.functions.size⟩, m₃, { name, type, linkage := .internal, params, value }, pointer, ?_,
    IsTrans.trans _ _ _ ((inferInstance : Keeps _ (Build.pointerType struct)).run hpointer)
      hevolves,
    by simp [hfunctions], hadded.partsKept hsignature (by simp), hevolves.idxOf? rfl hfirst⟩
  refine bind_eq_ok_iff.mpr ⟨pointer, _, Lower.build_eq_ok_iff.mpr ⟨m₁, hpointer, rfl⟩, ?_⟩
  refine bind_eq_ok_iff.mpr ⟨type, _, Lower.build_eq_ok_iff.mpr ⟨m₂, htype, rfl⟩, ?_⟩
  refine bind_eq_ok_iff.mpr ⟨name, _, Lower.ask_eq_ok_iff.mpr ⟨hname, rfl⟩, ?_⟩
  refine bind_eq_ok_iff.mpr ⟨_, _, Lower.build_eq_ok_iff.mpr ⟨m₃, hadd, rfl⟩, ?_⟩
  exact bind_eq_ok_iff.mpr ⟨(), _, Lower.register_eq_ok_iff.mpr ⟨_, addNewobj_of_new hnew, rfl⟩,
    rfl⟩

/-- The layout of a class is remembered if it has one. -/
def LayoutCache.Knows (asm : Assembly) (c : LayoutCache) (ty : TypeDefId) : Prop :=
  ∀ layout, LayoutOf asm ty layout → c.entries.lookup ty = some layout

/-- Where the table of a class goes is known once its layout is. -/
theorem classVTableIndex_of_knows {owner : TypeDefId} {index : Nat} {c : LayoutCache}
    (h : TableMember asm owner index) (hknown : c.Knows asm owner) :
    Layouts.classVTableIndex asm owner c = .ok index c := by
  obtain ⟨layout, hlayout, hmember⟩ := h
  have hfound : Layouts.structLayout asm owner c = .ok layout c :=
    Layouts.structLayout_of_remembered (hknown layout hlayout)
  rw [Layouts.classVTableIndex]
  refine bind_eq_ok_iff.mpr ⟨layout, c, hfound, bind_eq_ok_iff.mpr ⟨some index, c, ?_, rfl⟩⟩
  exact Layouts.ask_eq_ok_iff.mpr ⟨hmember, rfl⟩

/-- So is where all tables of new objects go. -/
theorem tableStores_of_knows {table : VTable} {stores : List (Nat × ValueId)} {c : LayoutCache}
    (h : StoresOf asm table stores) (hknown : ∀ t ∈ table.tables, c.Knows asm t.owner) :
    tableStores asm table c = .ok stores c := by
  obtain ⟨own, hown, rfl⟩ := h
  refine bind_eq_ok_iff.mpr ⟨own, c, ?_, rfl⟩
  generalize table.tables = tables at hown hknown
  induction tables generalizing own with
  | nil =>
      cases hown
      rfl
  | cons t rest ih =>
      obtain ⟨hfirst, hrest⟩ := List.forall_mem_cons.mp hknown
      rw [List.filterMapM_cons]
      cases hinst : t.inst with
      | none =>
          rw [List.filter_cons_of_neg (by simp [hinst])] at hown
          exact bind_eq_ok_iff.mpr ⟨none, c, rfl, ih own hown hrest⟩
      | some inst =>
          rw [List.filter_cons_of_pos (by simp [hinst])] at hown
          cases hown with
          | @cons _ store _ own hstore hown =>
              obtain ⟨hsame, hmember⟩ := hstore
              obtain rfl : inst = store.2 := Option.some.inj (hinst.symm.trans hsame)
              have hindex := classVTableIndex_of_knows hmember hfirst
              refine bind_eq_ok_iff.mpr ⟨some store, c, ?_, ?_⟩
              · exact bind_eq_ok_iff.mpr ⟨store.1, c, hindex, rfl⟩
              · exact bind_eq_ok_iff.mpr ⟨own, c, ih own hown hrest, rfl⟩

/-- A routine can be made where code may be added, and no misuse is recorded for its code. -/
theorem exists_routine {d : TypeDef} {struct : TypeId} {name : String} {body : List TypeId}
    {packed : Bool} {stores : List (Nat × ValueId)} (hd : asm.typeDef ty = .ok d)
    (hs : s.module.Located) (hnew : s.registry.hasNewobj ty = false)
    (hfound : s.registry.type asm ty = .ok struct)
    (htype : s.module.types[struct.index]? = some (.struct name (some body) packed))
    (htables : if s.registry.hasVTable ty then
        ∃ table, s.registry.vtable asm ty = .ok table ∧
          tableStores asm table s.layouts = .ok stores s.layouts
      else stores = [])
    (hmembers : ∀ store ∈ stores, store.1 < body.length) :
    ∃ f s', ∃ routine : Routine asm ty f s s', routine.struct = struct ∧ routine.stores = stores ∧
      routine.ended.misuses = routine.declared.module.misuses := by
  obtain ⟨f, m, function, pointer, hdeclare, hevolves, hfunction, hsignature, hpointer⟩ :=
    exists_declared hd hs hnew struct
  have hopen : ((m.apply (.addBlock f "entry")).apply (.moveTo ⟨m.blocks.size⟩)).Open f
      ⟨m.blocks.size⟩ :=
    ⟨rfl, { name := "entry", function := f }, by simp [Module.apply], rfl, rfl⟩
  have hentered :
      ((m.apply (.addBlock f "entry")).apply (.moveTo ⟨m.blocks.size⟩)).functions[f.index]? =
      some { function with blocks := function.blocks ++ [⟨m.blocks.size⟩] } := by
    simp [Module.apply, Array.getElem?_modify, hfunction]
  obtain ⟨object, allocated, stored, ended, hallocate, hstore, hends, hfills⟩ :=
    hopen.allocate (hevolves.partsKept htype (by simp)) hmembers hentered hsignature hpointer
  refine ⟨f, _, {
    struct, struct_eq := hfound, declared := s.withRoutine ty f m, declare := hdeclare, object,
    allocated, allocate := hallocate, stores, layouts := s.layouts, tables := ?_, stored,
    store := hstore, ended, ends := hends, result := rfl }, rfl, rfl, hfills.misuses⟩
  by_cases htabled : s.registry.hasVTable ty
  · have htabled' : (s.withRoutine ty f m).registry.hasVTable ty = true := htabled
    rw [if_pos htabled] at htables
    rw [if_pos htabled']
    exact htables
  · have htabled' : ¬ (s.withRoutine ty f m).registry.hasVTable ty = true := htabled
    rw [if_neg htabled] at htables
    rw [if_neg htabled']
    exact ⟨htables, rfl⟩

/-- No misuse is recorded against a routine whose code fits: what misuse there was concerns
functions that had blocks. -/
theorem Routine.clean (h : Routine asm ty f s s') (hs : s.module.Blames)
    (hseparate : s.module.Separate) (hfits : h.ended.misuses = h.declared.module.misuses) :
    s'.module.misuseOf? f = none := by
  obtain ⟨hdeclares, -, hblocks⟩ := h.declared_stays
  have hmisuses : s'.module.misuses = h.declared.module.misuses := by
    have hmodule : s'.module = h.ended.resume h.declared.module.position :=
      congrArg Session.module h.result
    rw [hmodule, Module.resume_misuses, hfits]
  have hothers : ∀ x ∈ s'.module.misuses, x.1 ≠ some f := by
    intro x hx hf
    rw [hmisuses] at hx
    obtain ⟨b, block, hblock, rfl⟩ := (hdeclares.blames hs) x hx f hf
    have hlt := hseparate.owner (hblocks ▸ hblock)
    have hle := h.functions_le
    omega
  simpa [Module.misuseOf?] using hothers

end Steps

section Stores

variable {cls : TypeDefId} {struct : TypeId} {table : VTable} {stores : List (Nat × ValueId)}

/-- The tables that are stored in new objects of a class: one for each base that introduces slots,
where the base has it, and if there are interfaces one for all of them at the beginning. -/
def FillsTables (asm : Assembly) (s : Session) (cls : TypeDefId) (stores : List (Nat × ValueId)) :
    Prop :=
  ∃ chain owners own ifaces first, asm.selfAndAncestors cls = .ok chain ∧ owners.Nodup ∧
    (∀ owner, owner ∈ owners ↔ owner ∈ chain.types ∧ Assembly.isRoot owner = false ∧
      ∃ slots, asm.introducedSlots owner = .ok slots ∧ slots ≠ []) ∧
    List.Forall₂ (StoredFor asm s cls) owners own ∧ asm.allInterfaces cls = .ok ifaces ∧
    (ifaces = [] ∧ first = [] ∨ ifaces ≠ [] ∧ ∃ g tables, first = [(0, g)] ∧
      List.Forall₂ (TableOfInterface asm s cls) ifaces tables ∧ IndirectionFor s tables g) ∧
    stores = own ++ first

theorem ObjectsOf.fillsTables (h : ObjectsOf asm s cls struct table stores)
    (hindirection : table.indirection.isSome = !table.interfaces.isEmpty) :
    FillsTables asm s cls stores := by
  obtain ⟨owners, own, howners, hown, hstores⟩ := h.own_stores
  obtain ⟨chain, hchain, hnodup, hiff⟩ := slotOwners_spec howners
  obtain ⟨ifaces, hifaces, htables⟩ := h.tables.interfaces
  refine ⟨chain, owners, own, ifaces, _, hchain, hnodup, hiff, hown, hifaces, ?_, hstores⟩
  cases ifaces with
  | nil =>
      left
      have hnone : table.interfaces = [] := by simpa using htables
      have hnothing : table.indirection = none := by simpa [hnone] using hindirection
      simp [hnothing]
  | cons iface rest =>
      right
      have hsome : table.interfaces ≠ [] := by
        rintro hnone
        simp [hnone] at htables
      obtain ⟨g, hg, hentries⟩ := h.tables.indirection hsome
      exact ⟨List.cons_ne_nil _ _, g, table.interfaces, by simp [hg, indirectionMember],
        htables, hentries⟩

/-- The layouts of the classes that have tables along the bases are known when
the types are defined. -/
theorem ObjectsOf.knows {start : Session} {u : Unit}
    (h : ObjectsOf asm defined cls struct table stores) (hrooted : asm.Rooted)
    (hbehind : asm.NoSlotsBehindRoots) (hstart : Declared asm start)
    (hcompile : compileTypes asm start = .ok u defined) :
    ∀ t ∈ table.tables, defined.layouts.Knows asm t.owner := by
  obtain ⟨packed, layout, members, hstruct⟩ := h.struct
  obtain ⟨owners, howners, htables⟩ := h.tables.tables
  obtain ⟨chain, hchain, -, hiff⟩ := slotOwners_spec howners
  intro t ht layout' hlayout'
  have hwithin := (List.forall₂_and_left owners table.tables).mpr ⟨fun _ howner => howner, htables⟩
  obtain ⟨owner, -, howner, hrel⟩ := exists_mem_of_forall₂ hwithin.flip ht
  obtain rfl := hrel.owner_eq
  obtain ⟨hmem, hroot, slots, hslots, hsome⟩ := (hiff _).mp howner
  have hbelow := hbehind.below_of_chain hchain hmem hroot hslots hsome
  obtain ⟨hclass, -⟩ := hrooted.class_of_below hbelow h.kind h.root
  obtain ⟨d, hd, hkind⟩ := Assembly.kindOf_eq_ok_iff.mp hclass
  exact remembered_of_compileTypes hstart hcompile hd (.inl hkind) hroot hlayout'

theorem LayoutCache.Knows.later {s s' : Session} (h : s.layouts.Knows asm cls)
    (hlater : Session.Later asm s s') (hsound : s.layouts.Sound asm) : s'.layouts.Knows asm cls :=
  fun layout hlayout => hlater.layouts.remembered hsound (h layout hlayout)

end Stores

section Making

variable {d : TypeDef}

structure MakesRoutine (asm : Assembly) (ty : TypeDefId) (f : FunctionId) (s s' : Session) :
    Prop where
  /-- The function is new. -/
  function : s.module.functions.size ≤ f.index
  /-- It allocates an object and stores its tables, each to a pointer of its own in the struct. -/
  code : ∃ struct name body packed stores, s'.registry.types.lookup ty = some struct ∧
    s'.module.types[struct.index]? = some (.struct name (some body) packed) ∧
    s'.module.Allocates f struct stores ∧ (stores.map Prod.fst).Nodup ∧
    (∀ store ∈ stores, s'.module.PointerAt body store.1) ∧
    (s.registry.hasVTable ty = true ∧ FillsTables asm s' ty stores ∨
      s.registry.hasVTable ty = false ∧ asm.allInterfaces ty = .ok [] ∧ stores = [])
  verified : s'.module.verify f = .ok (.ok ())
  /-- All that was there is as it was, and code is added where it was before. -/
  outside : s.module.Outside (fun _ => False) s'.module
  position : s.module.position = none ∨ s'.module.position = s.module.position

theorem newobjFunction_of_registered (h : s.registry.newobjs.lookup ty = some f) :
    newobjFunction asm ty s = .ok f s := by
  have hfound : s.registry.hasNewobj ty = true := by simp [Registry.hasNewobj, h]
  rw [newobjFunction, getBind_eq_ok_iff, if_pos hfound]
  exact Lower.consult_eq_ok_iff.mpr ⟨Registry.found_eq_ok_iff.mpr h, rfl⟩

/-- A routine is made when the struct of the class and the stores to its members are known. -/
theorem Session.Ordered.makesRoutine {struct : TypeId} {name : String} {body : List TypeId}
    {packed : Bool} {stores : List (Nat × ValueId)} (hs : s.Ordered asm defined)
    (hd : asm.typeDef ty = .ok d) (hnew : s.registry.hasNewobj ty = false)
    (hfound : s.registry.types.lookup ty = some struct)
    (htype : s.module.types[struct.index]? = some (.struct name (some body) packed))
    (hnodup : (stores.map Prod.fst).Nodup)
    (hmembers : ∀ store ∈ stores, s.module.PointerAt body store.1)
    (htables : if s.registry.hasVTable ty then
        ∃ table, s.registry.vtable asm ty = .ok table ∧
          tableStores asm table s.layouts = .ok stores s.layouts
      else stores = [])
    (hfills : ∀ {t : Session}, Session.Later asm s t →
      s.registry.hasVTable ty = true ∧ FillsTables asm t ty stores ∨
        s.registry.hasVTable ty = false ∧ asm.allInterfaces ty = .ok [] ∧ stores = []) :
    ∃ f s', newobjFunction asm ty s = .ok f s' ∧ MakesRoutine asm ty f s s' := by
  have hwithin : ∀ store ∈ stores, store.1 < body.length := by
    intro store hstore
    obtain ⟨id, pointee, hid, -⟩ := hmembers store hstore
    exact (List.getElem?_eq_some_iff.mp hid).1
  obtain ⟨f, s', routine, rfl, rfl, hfits⟩ := exists_routine hd hs.located hnew
    (Registry.found_eq_ok_iff.mpr hfound) htype htables hwithin
  have hrun := routine.run hnew
  have hlater : Session.Later asm s s' := Keeps.run hrun
  have hapart := routine.apart hs.separate
  have hallocates := routine.allocates
  refine ⟨f, s', hrun, ?_⟩
  exact {
    function := routine.functions_le
    code := by
      refine ⟨routine.struct, name, body, packed, routine.stores, hlater.registry.types hfound,
        hlater.module.partsKept htype (by simp), hallocates, hnodup, fun store hstore => ?_,
        hfills hlater⟩
      obtain ⟨id, pointee, hid, hpointer⟩ := hmembers store hstore
      exact ⟨id, pointee, hid, hlater.module.partsKept hpointer (by simp)⟩
    verified := hallocates.verified (routine.clean hs.blames hs.separate hfits)
    outside := hapart.evolves.outside hs.placed
    position := routine.position }

/-- The routine of a class can be asked for in every state of a compilation under way.  When it is
asked for first, a function is made that allocates an object and fills in one table for each class
along the bases that introduces slots, and the table of interface tables if and only if there are
interfaces.  Later on the same function is found, and nothing changes. -/
theorem allocation_routines (hrooted : asm.Rooted) (hbehind : asm.NoSlotsBehindRoots)
    (h : Compiling asm settings s)
    (hd : asm.typeDef ty = .ok d) (hkind : d.kind = .classType)
    (hroot : Assembly.isRoot ty = false) :
    ∃ f s', newobjFunction asm ty s = .ok f s' ∧
      (s.registry.newobjs.lookup ty = some f ∧ s' = s ∨
        s.registry.newobjs.lookup ty = none ∧ MakesRoutine asm ty f s s') ∧
      ∀ t : Session, s'.Extends t → newobjFunction asm ty t = .ok f t := by
  obtain ⟨declared, defined, hdeclare, hdefine, hs⟩ := h.ordered
  have hstart := declared_of_declareTypes hdeclare
  have htidy := tidy_of_declareTypes hdeclare
  have hdefined : Session.Later asm declared defined := Keeps.run hdefine
  have hsound : defined.layouts.Sound asm := by
    refine hdefined.layouts.sound fun {ty layout} hlookup => ?_
    simp [hstart.layouts] at hlookup
  have hsame {f : FunctionId} {s' : Session} (hfound : s'.registry.newobjs.lookup ty = some f)
      {t : Session} (ht : s'.Extends t) : newobjFunction asm ty t = .ok f t :=
    newobjFunction_of_registered (ht.registry.newobjs hfound)
  cases hlookup : s.registry.newobjs.lookup ty with
  | some f =>
      exact ⟨f, s, newobjFunction_of_registered hlookup, .inl ⟨rfl, rfl⟩, fun t => hsame hlookup⟩
  | none =>
      have hnew : s.registry.hasNewobj ty = false := by simp [Registry.hasNewobj, hlookup]
      suffices hmade : ∃ f s', newobjFunction asm ty s = .ok f s' ∧ MakesRoutine asm ty f s s' by
        obtain ⟨f, s', hrun, hmakes⟩ := hmade
        exact ⟨f, s', hrun, .inr ⟨rfl, hmakes⟩, fun t => hsame (newobj_of_newobjFunction hrun)⟩
      have hsameTables : s.registry.vtables = defined.registry.vtables := hs.vtables
      cases htable : defined.registry.vtables.lookup ty with
      | none =>
          have htabled : s.registry.hasVTable ty = false := by
            simp [Registry.hasVTable, hsameTables, htable]
          obtain ⟨struct, name, packed, layout, members, hfound, hbody, -, -, -⟩ :=
            class_struct hstart hdefine hd hkind hroot
          have hnone : (([] : List (Nat × ValueId)).map Prod.fst).Nodup := List.nodup_nil
          refine hs.makesRoutine hd hnew (hs.later.registry.types hfound)
            (hs.later.module.partsKept hbody (by simp)) hnone (by simp) (by simp [htabled])
            fun _ => .inr ⟨htabled, ?_, rfl⟩
          exact interfaces_of_no_tables hstart hdefine hd hkind hroot htable
      | some table =>
          have htabled : s.registry.hasVTable ty = true := by
            simp [Registry.hasVTable, hsameTables, htable]
          have hneeds : Dispatches asm declared ty :=
            (class_has_tables_iff hstart htidy hdefine hd hkind hroot).mp ⟨table, htable⟩
          obtain ⟨struct, table', stores, hobjects⟩ :=
            exists_objectsOf hrooted hbehind hstart htidy hdefine hd hkind hroot hneeds
          obtain rfl := Option.some.inj (htable.symm.trans hobjects.vtable)
          obtain ⟨asked, made, table', -, hmade, -, hfound⟩ :=
            class_table_made hstart hdefine hd hkind hroot hneeds
          obtain rfl := Option.some.inj (htable.symm.trans hfound)
          have hindirection := indirection_of_classVTable hmade
          have hstatics : defined.StaticsSound asm := hdefined.statics htidy.statics
          have hlater := hobjects.later hs.later hstatics
          obtain ⟨packed, layout, members, hstruct⟩ := hlater.struct
          obtain ⟨name, hbody⟩ := hstruct.body
          obtain ⟨hnodup, hmembers⟩ := hlater.apart hrooted hbehind hstruct
          have hknows := hobjects.knows hrooted hbehind hstart hdefine
          refine hs.makesRoutine hd hnew hstruct.found hbody hnodup hmembers ?_ fun ht =>
            .inl ⟨htabled, ?_⟩
          · rw [if_pos htabled]
            exact ⟨table, Registry.found_eq_ok_iff.mpr hlater.vtable,
              tableStores_of_knows hlater.stores fun t ht => (hknows t ht).later hs.later hsound⟩
          · exact (hlater.later ht (hs.later.statics hstatics)).fillsTables hindirection

def shapesDeclared : Session := stateOf (declareTypes shapes { module := { name := "module" } })

def shapesDefined : Session := stateOf (compileTypes shapes shapesDeclared)

/-- Once the types are defined, the routine of the tile is made. -/
theorem tile_allocated : Compiling shapes {} shapesDefined ∧ ∃ f s',
    newobjFunction shapes ⟨5⟩ shapesDefined = .ok f s' ∧
      MakesRoutine shapes ⟨5⟩ f shapesDefined s' := by
  have hdeclare : declareTypes shapes { module := { name := "module" } } = .ok () shapesDeclared :=
    eq_ok_stateOf (by decide +kernel)
  have hdefine : compileTypes shapes shapesDeclared = .ok () shapesDefined :=
    eq_ok_stateOf (by decide +kernel)
  have hcompiling : Compiling shapes {} shapesDefined := .types hdeclare hdefine
  have hd : shapes.typeDef ⟨5⟩ = .ok _ := rfl
  obtain ⟨f, s', hrun, hmakes, -⟩ :=
    allocation_routines shapes_rooted shapes_behind hcompiling hd rfl rfl
  rcases hmakes with ⟨hfound, -⟩ | ⟨-, hmakes⟩
  · have hnone : shapesDefined.registry.newobjs = [] := by decide +kernel
    simp [hnone] at hfound
  · exact ⟨hcompiling, f, s', hrun, hmakes⟩

/-- A class that introduces a slot, derived from a root behind which another one does. -/
def crowd : Assembly :=
  let slot : MethodFlags := ⟨MethodFlags.virtual ||| MethodFlags.newSlot⟩
  let one : MethodBody := { instructions := [{ opcode := .ldcI41 }, { opcode := .ret }] }
  { name := "crowd"
    types := #[
      TypeDef.ofKind .classType "System" "Object",
      { TypeDef.ofKind .classType "System" "ValueType" with base := some ⟨3⟩ },
      { TypeDef.ofKind .classType "System" "Enum" with base := some ⟨1⟩ },
      { TypeDef.ofKind .classType "" "X" with base := some ⟨0⟩, methods := [⟨0⟩] },
      { TypeDef.ofKind .classType "" "D" with base := some ⟨1⟩, methods := [⟨1⟩, ⟨2⟩, ⟨3⟩] }]
    fields := #[]
    methods := #[
      ⟨"A", ⟨3⟩, [], .i4, slot, .publicAccess, some one⟩,
      ⟨"B", ⟨4⟩, [], .i4, slot, .publicAccess, some one⟩,
      ⟨".ctor", ⟨4⟩, [], .void, {}, .publicAccess,
        some { instructions := [{ opcode := .ret }] }⟩,
      ⟨"Ask", ⟨4⟩, [], .i4, ⟨MethodFlags.static⟩, .publicAccess,
        some { instructions := [{ opcode := .newobj, operand := .method ⟨2⟩ },
          { opcode := .callvirt, operand := .method ⟨1⟩ }, { opcode := .ret }] }⟩] }

def crowdCompiled : Session := stateOf (compileProgram crowd {} { module := { name := "module" } })

/-- The routine of the class stores the tables for both of them to one member. -/
theorem crowd_collides :
    crowd.validate = .ok () ∧ (∀ ty, ¬ Relation.TransGen crowd.HasBase ty ty) ∧
      MethodsListed crowd ∧ crowd.Rooted ∧ ¬ crowd.NoSlotsBehindRoots ∧
      answerOf (compileProgram crowd {} { module := { name := "module" } }) =
        .ok { compiled := ["X::A", "D::B", "D::.ctor", "D::Ask"],
              staticInit := "module_static_init" } ∧
      crowdCompiled.registry.newobjs.lookup ⟨4⟩ = some ⟨4⟩ ∧
      crowdCompiled.module.Allocates ⟨4⟩ ⟨1⟩ [(1, ⟨4⟩), (1, ⟨9⟩)] := by
  obtain ⟨hcompile, hroutine, hfunction, hblock, hobject, hplace, hput, hplace', hput'⟩ :
      answerOf (compileProgram crowd {} { module := { name := "module" } }) =
        .ok { compiled := ["X::A", "D::B", "D::.ctor", "D::Ask"],
              staticInit := "module_static_init" } ∧
      crowdCompiled.registry.newobjs.lookup ⟨4⟩ = some ⟨4⟩ ∧
      crowdCompiled.module.functions[4]? = some ⟨"newobj_D", ⟨22⟩, .internal, [], [⟨8⟩], ⟨21⟩⟩ ∧
      crowdCompiled.module.blocks[8]? =
        some ⟨"entry", ⟨4⟩, [⟨22⟩, ⟨23⟩, ⟨24⟩, ⟨25⟩, ⟨26⟩], some (.ret (some ⟨22⟩))⟩ ∧
      crowdCompiled.module.values[22]? = some ⟨⟨11⟩, .inst (some ⟨8⟩) (.heapAlloc ⟨1⟩ none)⟩ ∧
      crowdCompiled.module.values[23]? = some ⟨⟨24⟩, .inst (some ⟨8⟩) (.structGep ⟨1⟩ ⟨22⟩ 1)⟩ ∧
      crowdCompiled.module.values[24]? = some ⟨⟨16⟩, .inst (some ⟨8⟩) (.store ⟨23⟩ ⟨4⟩ false)⟩ ∧
      crowdCompiled.module.values[25]? = some ⟨⟨24⟩, .inst (some ⟨8⟩) (.structGep ⟨1⟩ ⟨22⟩ 1)⟩ ∧
      crowdCompiled.module.values[26]? = some ⟨⟨16⟩, .inst (some ⟨8⟩) (.store ⟨25⟩ ⟨9⟩ false)⟩ := by
    decide +kernel
  have hstores : crowdCompiled.module.StoresIn ⟨1⟩ ⟨22⟩ [(1, ⟨4⟩), (1, ⟨9⟩)]
      [⟨23⟩, ⟨24⟩, ⟨25⟩, ⟨26⟩] :=
    .cons ⟨_, _, hplace⟩ ⟨_, _, hput⟩ (.cons ⟨_, _, hplace'⟩ ⟨_, _, hput'⟩ .nil)
  refine ⟨by decide +kernel, Assembly.acyclic_of_rank (fun ty => [0, 2, 3, 1, 3].getD ty.index 0)
    (by decide +kernel), methodsListed_of_forall (by decide), Assembly.rooted_of_forall (by decide),
    fun h => ?_, hcompile, hroutine, _, ⟨8⟩, _, ⟨22⟩, _, hfunction, rfl, hblock, rfl, rfl,
    ⟨_, _, hobject⟩, hstores⟩
  have hslots := h ⟨1⟩ ⟨3⟩ [⟨0⟩] rfl (.single ⟨_, rfl, rfl⟩) rfl (by decide +kernel)
  simp at hslots

end Making

end Lowering

end CilSsa
