import CilSsa.Proofs.ObjectLayouts
import CilSsa.Proofs.Phases

/-!
The declaration of types.

Every type gets a handle.  The handles of classes, structs and interfaces are structs of their own
that have no members yet, and types that are made later leave them alone.  The interfaces are
numbered in the order of the types, and every class whose slot some instruction calls is marked.
-/

namespace CilSsa

open Ssa Metadata Lowering

section Types

def Ssa.Module.TypesKept (m m' : Module) : Prop :=
  ∀ (i : Nat) (type : IrType), m.types[i]? = some type → m'.types[i]? = some type

instance : IsPreorder Module Module.TypesKept where
  refl _ _ _ := id
  trans _ _ _ h h' i type := h' i type ∘ h i type

namespace Ssa.Module

variable {m m' : Module}

theorem typesKept_apply {c : Change} (hc : ∀ id type, c ≠ .defineStruct id type) :
    m.TypesKept (m.apply c) := by
  intro i type h
  cases c with
  | addType added =>
      have hlt := (Array.getElem?_eq_some_iff.mp h).1
      simp [apply, Array.getElem?_push, Nat.ne_of_lt hlt, h]
  | defineStruct id type => exact absurd rfl (hc id type)
  | addInst block _ inst => cases block <;> exact h
  | _ => exact h

/-- Without definitions of structs all types stay as they are. -/
theorem Evolves.typesKept {P : Change → Prop} (h : m.Evolves P m')
    (hP : ∀ c, P c → ∀ id type, c ≠ .defineStruct id type) : m.TypesKept m' :=
  h.preserves (I := fun m' => m.TypesKept m')
    (fun _ c hc _ hkept => IsTrans.trans _ _ _ hkept (typesKept_apply (hP c hc))) (Std.Refl.refl m)

/-- A struct that is new may get its members. -/
theorem typesKept_defineStruct {id : TypeId} {type : IrType} (h : m.TypesKept m')
    (hnew : m.types.size ≤ id.index) : m.TypesKept (m'.apply (.defineStruct id type)) := by
  intro i type' htype
  have hlt := (Array.getElem?_eq_some_iff.mp htype).1
  have hne : id.index ≠ i := by omega
  simp [apply, hne, h i type' htype]

end Ssa.Module

namespace Lowering

instance : Building noAddress (Session.On Module.TypesKept) :=
  Session.On.building fun _ _ h => h.typesKept fun c hc id type heq => by
    subst heq
    exact hc

/-- The struct of slots is new, or nothing is done. -/
theorem slotTableType_typesKept {asm : Assembly} {owner : TypeDefId} {id : TypeId} {s s' : Session}
    (h : slotTableType asm owner s = .ok id s') : s.module.TypesKept s'.module := by
  rcases slotTableType_cases h with ⟨-, rfl⟩ | ⟨rfl, name, slots, members,
    t, m, hmembers, hset, rfl⟩
  · exact Std.Refl.refl _
  · have hslots : Keeps (Session.On Module.TypesKept) (slots.mapM (slotType asm)) := inferInstance
    have hkept : s.module.TypesKept t.module :=
      IsTrans.trans _ _ _ (Module.typesKept_apply (c := .addType (.struct name none false))
        (by simp))
        (hslots.run hmembers)
    rcases Build.setStructBody_cases hset with ⟨misuse, rfl, -⟩ | ⟨type, rfl, -⟩
    · exact IsTrans.trans _ _ _ hkept (Module.typesKept_apply (by simp))
    · exact Module.typesKept_defineStruct hkept (Nat.le_refl _)

instance (global initial : ValueId) : Keeps (Session.On Module.TypesKept)
    (Lower.build (Build.setInitializer global initial)) :=
  Session.On.keeps ⟨fun h => by
    rcases Build.setInitializer_cases h with ⟨misuse, rfl, -⟩ | ⟨rfl, -⟩ <;>
      exact Module.typesKept_apply (by simp)⟩

instance (asm : Assembly) : Defining asm (Session.On Module.TypesKept) where
  layout _ := inferInstance
  declareFunction := declareFunction_on
  staticField _ := inferInstance
  slotTableType _ := ⟨slotTableType_typesKept⟩
  constant _ _ _ := inferInstance
  indirectionTable := indirectionTable_keeps inferInstance

end Lowering

end Types

namespace Lowering

section Handles

def isInterface (asm : Assembly) (ty : TypeDefId) : Bool :=
  match asm.kindOf ty with
  | .ok .interfaceType => true
  | _ => false

/-- Whether the handle of a type is a struct of its own. -/
def hasStruct (asm : Assembly) (ty : TypeDefId) : Bool :=
  match asm.kindOf ty with
  | .ok .enumType => false
  | _ => true

theorem hasStruct_of_kind {asm : Assembly} {ty : TypeDefId} {d : TypeDef}
    (hd : asm.typeDef ty = .ok d) (hkind : d.kind = .classType ∨ d.kind = .structType) :
    hasStruct asm ty = true := by
  rcases hkind with hkind | hkind <;>
    simp [hasStruct, Assembly.kindOf, hd, hkind, pure, bind, Except.pure, Except.bind]

structure Declaring (asm : Assembly) (declared : List TypeDefId) (s : Session) : Prop where
  known : ∀ ty ∈ declared, ∃ id, s.registry.types.lookup ty = some id
  /-- Structs have no members yet. -/
  blank : ∀ {ty : TypeDefId} {id : TypeId}, s.registry.types.lookup ty = some id →
    hasStruct asm ty = true → ∃ name packed,
      s.module.types[id.index]? = some (.struct name none packed)
  /-- No two types share a struct. -/
  apart : ∀ {ty ty' : TypeDefId} {id : TypeId}, s.registry.types.lookup ty = some id →
    s.registry.types.lookup ty' = some id → hasStruct asm ty = true → hasStruct asm ty' = true →
    ty = ty'
  interfaces : s.registry.interfaces = declared.filter (isInterface asm)
  /-- Nothing else is registered. -/
  rest : s.registry.functions = [] ∧ s.registry.staticFields = [] ∧ s.registry.vtables = [] ∧
    s.registry.slotTables = [] ∧ s.registry.newobjs = []
  layouts : s.layouts = {}

variable {asm : Assembly}

theorem declaring_nil {m : Module} : Declaring asm [] { module := m } where
  known _ h := absurd h List.not_mem_nil
  blank h := by simp at h
  apart h := by simp at h
  interfaces := rfl
  rest := ⟨rfl, rfl, rfl, rfl, rfl⟩
  layouts := rfl

/-- Only the static constructors may differ. -/
def Session.SameButCctors (s s' : Session) : Prop :=
  s' = { s with registry := { s.registry with cctors := s'.registry.cctors } }

instance : IsPreorder Session Session.SameButCctors where
  refl _ := rfl
  trans s s' s'' h h' := by
    rw [Session.SameButCctors] at h h' ⊢
    rw [h', h]

instance (m : MethodId) :
    Keeps Session.SameButCctors (Lower.register (Registering.addCctor m)) where
  run h := by
    obtain ⟨r, hregister, rfl⟩ := Lower.register_eq_ok_iff.mp h
    obtain rfl := modify_eq_ok_iff.mp hregister
    rfl

def Session.OnlyModule (s s' : Session) : Prop := s' = { s with module := s'.module }

instance : Building noAddress Session.OnlyModule where
  refl _ := rfl
  trans s s' s'' h h' := by
    rw [Session.OnlyModule] at h h' ⊢
    rw [h', h]
  build _ := ⟨fun h => by
    obtain ⟨m, -, rfl⟩ := Lower.build_eq_ok_iff.mp h
    rfl⟩

variable {ty : TypeDefId} {d : TypeDef} {id : TypeId} {s s' : Session} {declared : List TypeDefId}

theorem declareHandle_enum (hkind : d.kind = .enumType) (h : declareHandle asm ty d s = .ok id s') :
    ∃ integer, enumUnderlying asm ty = .ok integer ∧ irType asm integer s = .ok id s' := by
  simp only [declareHandle, hkind, bind_eq_ok_iff, Lower.liftM_ask, Lower.ask_eq_ok_iff] at h
  obtain ⟨integer, _, ⟨hinteger, rfl⟩, htype⟩ := h
  exact ⟨integer, hinteger, htype⟩

/-- The handle of a type is new if it is a struct, and interfaces get numbers. -/
theorem declareHandle_cases (hd : asm.typeDef ty = .ok d)
    (h : declareHandle asm ty d s = .ok id s') :
    s.module.TypesKept s'.module ∧
      (hasStruct asm ty = true → s.module.types.size ≤ id.index ∧
        ∃ name, s'.module.types[id.index]? = some (.struct name none false)) ∧
      s' = { s with
        module := s'.module
        registry := { s.registry with
          interfaces := s.registry.interfaces ++ [ty].filter (isInterface asm) } } := by
  have hkind : asm.kindOf ty = .ok d.kind := by
    rw [Assembly.kindOf, hd]
    rfl
  have hstruct {name : String} {t t' : Session} {id : TypeId}
      (h : Lower.build (Build.namedStruct name) t = .ok id t') : t.module.TypesKept t'.module ∧
      t.module.types.size ≤ id.index ∧
      t'.module.types[id.index]? = some (.struct name none false) ∧
      t' = { t with module := t'.module } := by
    obtain ⟨m, hbuild, rfl⟩ := Lower.build_eq_ok_iff.mp h
    cases hbuild
    refine ⟨Module.typesKept_apply (c := .addType (.struct name none false)) (by simp),
      Nat.le_refl _, by simp, rfl⟩
  cases hcase : d.kind with
  | enumType =>
      rw [hcase] at hkind
      obtain ⟨sig, -, htype⟩ := declareHandle_enum hcase h
      have honly := (inferInstance : Keeps Session.OnlyModule (irType asm sig)).run htype
      refine ⟨(inferInstance : Keeps (Session.On Module.TypesKept) (irType asm sig)).run htype,
        ?_, ?_⟩
      · simp [hasStruct, hkind]
      · rw [Session.OnlyModule] at honly
        simpa [isInterface, hkind] using honly
  | interfaceType =>
      rw [hcase] at hkind
      simp only [declareHandle, hcase, bind_eq_ok_iff, Lower.liftM_ask, Lower.ask_eq_ok_iff,
        Lower.liftM_register, Lower.register_eq_ok_iff] at h
      obtain ⟨index, _, ⟨r, hregister, rfl⟩, name, _, ⟨-, rfl⟩, hnamed⟩ := h
      obtain ⟨-, -, rfl⟩ := Registering.addInterface_eq_ok hregister
      obtain ⟨hkept, hnew, hblank, honly⟩ := hstruct hnamed
      refine ⟨hkept, fun _ => ⟨hnew, name, hblank⟩, ?_⟩
      simpa [isInterface, hkind] using honly
  | classType | structType =>
      rw [hcase] at hkind
      simp only [declareHandle, hcase, bind_eq_ok_iff, Lower.liftM_ask, Lower.ask_eq_ok_iff] at h
      obtain ⟨name, _, ⟨-, rfl⟩, hnamed⟩ := h
      obtain ⟨hkept, hnew, hblank, honly⟩ := hstruct hnamed
      refine ⟨hkept, fun _ => ⟨hnew, name, hblank⟩, ?_⟩
      simpa [isInterface, hkind] using honly

/-- A type without a handle gets one, and its static constructors are noted. -/
theorem declareType_cases {u : Unit} (h : declareType asm ty s = .ok u s') :
    ∃ d handle s₁, asm.typeDef ty = .ok d ∧ declareHandle asm ty d s = .ok handle s₁ ∧
      s₁.registry.types.lookup ty = none ∧ s' = { s₁ with registry := { s₁.registry with
        types := (ty, handle) :: s₁.registry.types, cctors := s'.registry.cctors } } := by
  simp only [declareType, bind_eq_ok_iff, Lower.liftM_ask, Lower.ask_eq_ok_iff,
    Lower.liftM_register, Lower.register_eq_ok_iff] at h
  obtain ⟨d, t, ⟨hd, hsame⟩, handle, s₁, hhandle, _, _, ⟨r, hregister, rfl⟩, hcctors⟩ := h
  subst t
  have hloop : Keeps Session.SameButCctors (d.methods.forM fun m => do
      if (← asm.method m).isStaticConstructor then Registering.addCctor m : Lower PUnit) :=
    inferInstance
  have hafter := hloop.run hcctors
  obtain ⟨hnew, rfl⟩ := Registering.claimed_eq_ok (fun r => (r.types.lookup ty).isSome) hregister
  exact ⟨d, handle, s₁, hd, hhandle, by simpa using hnew, hafter⟩

theorem Declaring.step {u : Unit} (hs : Declaring asm declared s)
    (h : declareType asm ty s = .ok u s') : Declaring asm (declared ++ [ty]) s' := by
  obtain ⟨d, handle, s₁, hd, hhandle, -, hafter⟩ := declareType_cases h
  obtain ⟨hkept, hstruct, honly⟩ := declareHandle_cases hd hhandle
  have htypes : s'.registry.types = (ty, handle) :: s.registry.types := by rw [hafter, honly]
  have hmodule : s'.module = s₁.module := by rw [hafter]
  have hold {ty' : TypeDefId} {id : TypeId} (hlookup : s'.registry.types.lookup ty' = some id) :
      (ty' = ty ∧ id = handle) ∨ s.registry.types.lookup ty' = some id :=
    lookup_cons_cases (htypes ▸ hlookup)
  have hnewer {ty' : TypeDefId} (hstruct' : hasStruct asm ty' = true)
      (hlookup : s.registry.types.lookup ty' = some handle) : hasStruct asm ty = false := by
    refine Bool.eq_false_iff.mpr fun hty => ?_
    obtain ⟨hle, -⟩ := hstruct hty
    obtain ⟨name, packed, hblank⟩ := hs.blank hlookup hstruct'
    have hlt := (Array.getElem?_eq_some_iff.mp hblank).1
    omega
  refine ⟨fun ty' hty' => ?_, fun {ty' id} hlookup hstruct' => ?_,
    fun {ty' ty'' id} hlookup hlookup' hstruct' hstruct'' => ?_, ?_, ?_, ?_⟩
  · rw [htypes, List.lookup_cons]
    split
    · exact ⟨handle, rfl⟩
    · rename_i hne
      rcases List.mem_append.mp hty' with hmem | hmem
      · exact hs.known ty' hmem
      · obtain rfl := List.mem_singleton.mp hmem
        simp at hne
  · rw [hmodule]
    rcases hold hlookup with ⟨rfl, rfl⟩ | hlookup
    · obtain ⟨-, name, hblank⟩ := hstruct hstruct'
      exact ⟨name, false, hblank⟩
    · obtain ⟨name, packed, hblank⟩ := hs.blank hlookup hstruct'
      exact ⟨name, packed, hkept _ _ hblank⟩
  · rcases hold hlookup with ⟨rfl, rfl⟩ | hlookup
    · rcases hold hlookup' with ⟨rfl, -⟩ | hlookup'
      · rfl
      · simp [hnewer hstruct'' hlookup'] at hstruct'
    · rcases hold hlookup' with ⟨rfl, rfl⟩ | hlookup'
      · simp [hnewer hstruct' hlookup] at hstruct''
      · exact hs.apart hlookup hlookup' hstruct' hstruct''
  · rw [hafter, honly, List.filter_append, ← hs.interfaces]
  · rw [hafter, honly]
    exact hs.rest
  · rw [hafter, honly]
    exact hs.layouts

theorem Declaring.run {types : List TypeDefId} {u : PUnit} (hs : Declaring asm declared s)
    (h : types.forM (declareType asm) s = .ok u s') : Declaring asm (declared ++ types) s' := by
  induction types generalizing declared s with
  | nil =>
      obtain ⟨-, rfl⟩ := pure_eq_ok_iff.mp h
      simpa using hs
  | cons ty types ih =>
      obtain ⟨_, s₁, hfirst, hrest⟩ := bind_eq_ok_iff.mp h
      simpa using ih (hs.step hfirst) hrest

end Handles

section Marks

/-- What the declaration of all types leaves behind. -/
structure Declared (asm : Assembly) (s : Session) : Prop extends
    Declaring asm asm.userTypes s where
  /-- Classes whose slots are called are marked. -/
  marked : ∀ instr ∈ allInstructions asm, ∀ owner, virtualOwner? asm instr = .ok (some owner) →
    owner ∈ s.registry.virtualOwners

variable {asm : Assembly} {s s' : Session}

/-- Only the marks may differ, and none of them goes away. -/
def Session.MoreMarks (s s' : Session) : Prop :=
  s' = { s with registry := { s.registry with virtualOwners := s'.registry.virtualOwners } } ∧
    s.registry.virtualOwners ⊆ s'.registry.virtualOwners

instance : IsPreorder Session Session.MoreMarks where
  refl _ := ⟨rfl, List.Subset.refl _⟩
  trans s s' s'' h h' := by
    refine ⟨?_, List.Subset.trans h.2 h'.2⟩
    rw [h'.1, h.1]

instance (owner : TypeDefId) :
    Keeps Session.MoreMarks (Lower.register (Registering.markVirtualCall owner)) where
  run h := by
    obtain ⟨r, hregister, rfl⟩ := Lower.register_eq_ok_iff.mp h
    obtain rfl := modify_eq_ok_iff.mp hregister
    exact ⟨rfl, List.subset_cons_self _ _⟩

/-- Marks the class whose slot an instruction calls. -/
def markCall (asm : Assembly) (instr : Instruction) : Lower Unit := do
  if let some owner ← Lower.ask (virtualOwner? asm instr) then Registering.markVirtualCall owner

instance (instr : Instruction) : Keeps Session.MoreMarks (markCall asm instr) := by
  unfold markCall
  refine Keeps.seq inferInstance fun owner => ?_
  cases owner <;> infer_instance

theorem marked_of_forM (instrs : List Instruction) {u : PUnit}
    (h : instrs.forM (markCall asm) s = .ok u s') :
    s.MoreMarks s' ∧ ∀ instr ∈ instrs, ∀ owner, virtualOwner? asm instr = .ok (some owner) →
      owner ∈ s'.registry.virtualOwners := by
  induction instrs generalizing s with
  | nil =>
      obtain ⟨-, rfl⟩ := pure_eq_ok_iff.mp h
      exact ⟨Std.Refl.refl _, by simp⟩
  | cons instr rest ih =>
      obtain ⟨_, s₁, hfirst, hrest⟩ := bind_eq_ok_iff.mp h
      obtain ⟨hmore, hmarked⟩ := ih hrest
      have hstep : s.MoreMarks s₁ := (inferInstance : Keeps _ (markCall asm instr)).run hfirst
      refine ⟨IsTrans.trans _ _ _ hstep hmore, fun instr' hmem owner howner => ?_⟩
      rcases List.mem_cons.mp hmem with rfl | hmem
      · simp only [markCall, bind_eq_ok_iff, Lower.ask_eq_ok_iff, howner] at hfirst
        obtain ⟨_, _, ⟨hsome, rfl⟩, hmark⟩ := hfirst
        obtain rfl := (Except.ok.inj hsome).symm
        obtain ⟨r, hregister, rfl⟩ := Lower.register_eq_ok_iff.mp hmark
        obtain rfl := modify_eq_ok_iff.mp hregister
        exact hmore.2 List.mem_cons_self
      · exact hmarked instr' hmem owner howner

/-- What every declaration of a type preserves holds when all types are declared. -/
theorem declareTypes_induction {I : Session → Prop} {m : Module} {u : Unit}
    (hnone : I { module := m })
    (hstep : ∀ {ty : TypeDefId} {s s' : Session} {u : Unit}, I s → declareType asm ty s = .ok u s' →
      I s')
    (h : declareTypes asm { module := m } = .ok u s) : ∃ s₁, I s₁ ∧ s₁.MoreMarks s := by
  obtain ⟨_, s₁, htypes, hmarks⟩ := bind_eq_ok_iff.mp h
  refine ⟨s₁, ?_, (marked_of_forM (allInstructions asm) hmarks).1⟩
  have hrun {types : List TypeDefId} {v : PUnit} {s₀ s₁ : Session} (hs : I s₀)
      (h : types.forM (declareType asm) s₀ = .ok v s₁) : I s₁ := by
    induction types generalizing s₀ with
    | nil =>
        obtain ⟨-, rfl⟩ := pure_eq_ok_iff.mp h
        exact hs
    | cons ty types ih =>
        obtain ⟨_, s₂, hfirst, hrest⟩ := bind_eq_ok_iff.mp h
        exact ih (hstep hs hfirst) hrest
  exact hrun hnone htypes

theorem declared_of_declareTypes {m : Module} {u : Unit}
    (h : declareTypes asm { module := m } = .ok u s) : Declared asm s := by
  obtain ⟨_, s₁, htypes, hmarks⟩ := bind_eq_ok_iff.mp h
  have hs : Declaring asm asm.userTypes s₁ := by simpa using declaring_nil.run htypes
  obtain ⟨⟨honly, -⟩, hmarked⟩ := marked_of_forM (allInstructions asm) hmarks
  refine ⟨⟨?_, ?_, ?_, ?_, ?_, ?_⟩, hmarked⟩
  all_goals rw [honly]
  · exact hs.known
  · exact hs.blank
  · exact hs.apart
  · exact hs.interfaces
  · exact hs.rest
  · exact hs.layouts

end Marks

end Lowering

end CilSsa
