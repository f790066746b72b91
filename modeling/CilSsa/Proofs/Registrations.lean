import CilSsa.Proofs.Emission

/-!
What a compilation never takes back.

Entries of the registry stay, and so do types, values and code.  An action that only looks up or
makes what is needed gives the same answer ever after, without any change.
-/

namespace CilSsa

open Ssa Metadata Lowering

/-- An action that has succeeded gives the same answer in every later state, and changes
nothing. -/
class Settles {ε σ α : Type} (R : σ → σ → Prop) (x : EStateM ε σ α) : Prop where
  run : ∀ {s : σ} {a : α} {s' t : σ}, x s = .ok a s' → R s' t → x t = .ok a t

namespace Settles

variable {ε σ α β : Type} {R : σ → σ → Prop}

instance pure (a : α) : Settles R (pure a : EStateM ε σ α) where
  run h _ := by
    obtain ⟨rfl, -⟩ := pure_eq_ok_iff.mp h
    rfl

theorem seq [IsTrans σ R] {x : EStateM ε σ α} {f : α → EStateM ε σ β} (hx : Settles R x)
    (hf : ∀ a, Settles R (f a) ∧ Keeps R (f a)) : Settles R (x >>= f) where
  run h ht := by
    obtain ⟨a, s₁, hfirst, hthen⟩ := bind_eq_ok_iff.mp h
    have hlater := IsTrans.trans _ _ _ ((hf a).2.run hthen) ht
    exact bind_eq_ok_iff.mpr ⟨a, _, hx.run hfirst hlater, (hf a).1.run hthen ht⟩

instance bind [IsTrans σ R] (x : EStateM ε σ α) (f : α → EStateM ε σ β) [hx : Settles R x]
    [hf : ∀ a, Settles R (f a)] [hkeeps : ∀ a, Keeps R (f a)] : Settles R (x >>= f) :=
  seq hx fun a => ⟨hf a, hkeeps a⟩

instance ite (c : Prop) [Decidable c] (x y : EStateM ε σ α) [hx : Settles R x] [hy : Settles R y] :
    Settles R (if c then x else y) :=
  iteInduction (fun _ => hx) fun _ => hy

end Settles

section Types

/-- A type that is determined by its parts. -/
def Ssa.IrType.isInterned : IrType → Bool
  | .struct .. => false
  | _ => true

namespace Ssa.Module

variable {P : Change → Prop} {m m' : Module}

theorem idxOf?_eq_some_iff {types : Array IrType} {type : IrType} {i : Nat} :
    types.idxOf? type = some i ↔
      types[i]? = some type ∧ ∀ j < i, types[j]? ≠ some type := by
  simp only [Array.idxOf?_eq_map_finIdxOf?_val, Option.map_eq_some_iff, Array.finIdxOf?_eq_some_iff]
  constructor
  · rintro ⟨⟨i, hi⟩, ⟨hfound, hfirst⟩, rfl⟩
    refine ⟨Array.getElem?_eq_some_iff.mpr ⟨hi, hfound⟩, fun j hj hother => ?_⟩
    obtain ⟨hlt, hother⟩ := Array.getElem?_eq_some_iff.mp hother
    exact hfirst ⟨j, hlt⟩ hj hother
  · rintro ⟨hfound, hfirst⟩
    obtain ⟨hi, hfound⟩ := Array.getElem?_eq_some_iff.mp hfound
    refine ⟨⟨i, hi⟩, ⟨hfound, fun j hj hother => ?_⟩, rfl⟩
    exact hfirst j hj (Array.getElem?_eq_some_iff.mpr ⟨j.isLt, hother⟩)

/-- The first place of a type stays the first. -/
theorem Evolves.idxOf? {type : IrType} {i : Nat} (h : m.Evolves P m')
    (htype : type.isInterned = true) (hi : m.types.idxOf? type = some i) :
    m'.types.idxOf? type = some i := by
  refine h.preserves (I := fun m => m.types.idxOf? type = some i) ?_ hi
  intro m c _ hfits hi
  rw [idxOf?_eq_some_iff] at hi ⊢
  obtain ⟨hfound, hfirst⟩ := hi
  have hlt := (Array.getElem?_eq_some_iff.mp hfound).1
  cases c with
  | addType added =>
      have hkept {j : Nat} (hj : j ≤ i) : (m.types.push added)[j]? = m.types[j]? := by
        rw [Array.getElem?_push, if_neg (by omega)]
      refine ⟨(hkept (Nat.le_refl i)).trans hfound, fun j hj => ?_⟩
      exact (hkept (Nat.le_of_lt hj)).symm ▸ hfirst j hj
  | defineStruct id defined =>
      obtain ⟨name, packed, members, packed', hold, rfl⟩ := hfits
      have hne {t : IrType} (ht : t.isInterned = false) : t ≠ type := by
        rintro rfl
        simp [ht] at htype
      refine ⟨?_, fun j hj => ?_⟩
      · have hid : id.index ≠ i := by
          rintro heq
          rw [heq, hfound] at hold
          exact hne rfl (Option.some.inj hold).symm
        simp [apply, hid, hfound]
      · by_cases hid : id.index = j
        · intro hdefined
          refine hne (t := .struct name (some members) packed') rfl ?_
          have hltj : j < m.types.size := Nat.lt_trans hj hlt
          simpa [apply, hid, hltj] using hdefined
        · simpa [apply, hid] using hfirst j hj
  | addInst block _ inst => cases block <;> exact ⟨hfound, hfirst⟩
  | _ => exact ⟨hfound, hfirst⟩

end Ssa.Module

theorem Ssa.Build.intern_type {type : IrType} {id : TypeId} {m m' : Module}
    (h : Build.intern type m = .ok id m') : m'.types[id.index]? = some type := by
  rcases Build.intern_cases h with ⟨hfound, rfl⟩ | ⟨-, rfl, rfl⟩
  · exact (Module.idxOf?_eq_some_iff.mp hfound).1
  · simp [Module.apply]

end Types

namespace Lowering

section Registry

/-- Whether a registry has every entry of another.  Interfaces are numbered and virtual calls are
marked before anything else is registered. -/
structure Registry.Extends (r r' : Registry) : Prop where
  functions : ∀ {name : String} {f : FunctionId},
    r.functions.lookup name = some f → r'.functions.lookup name = some f
  staticFields : ∀ {f : FieldId} {g : ValueId},
    r.staticFields.lookup f = some g → r'.staticFields.lookup f = some g
  types : ∀ {ty : TypeDefId} {id : TypeId},
    r.types.lookup ty = some id → r'.types.lookup ty = some id
  vtables : ∀ {ty : TypeDefId} {table : VTable},
    r.vtables.lookup ty = some table → r'.vtables.lookup ty = some table
  slotTables : ∀ {owner : TypeDefId} {id : TypeId},
    r.slotTables.lookup owner = some id → r'.slotTables.lookup owner = some id
  newobjs : ∀ {ty : TypeDefId} {f : FunctionId},
    r.newobjs.lookup ty = some f → r'.newobjs.lookup ty = some f
  folded : ∀ f ∈ r.folded, f ∈ r'.folded
  interfaces : r'.interfaces = r.interfaces
  virtualOwners : r'.virtualOwners = r.virtualOwners

instance : IsPreorder Registry Registry.Extends where
  refl _ := ⟨id, id, id, id, id, id, fun _ h => h, rfl, rfl⟩
  trans _ _ _ h h' :=
    ⟨h'.functions ∘ h.functions, h'.staticFields ∘ h.staticFields, h'.types ∘ h.types,
      h'.vtables ∘ h.vtables, h'.slotTables ∘ h.slotTables, h'.newobjs ∘ h.newobjs,
      fun f hf => h'.folded f (h.folded f hf), h'.interfaces.trans h.interfaces,
      h'.virtualOwners.trans h.virtualOwners⟩

namespace Registering

variable {r r' : Registry} {u : Unit}

theorem claim_eq_ok {taken : Bool} {kind : EntryKind} {name : Except Fault String}
    (h : claim taken kind name r = .ok u r') : taken = false ∧ r' = r := by
  unfold claim at h
  split at h
  · split at h <;> cases h
  · rename_i htaken
    obtain rfl : r = r' := by simpa using h
    exact ⟨by simpa using htaken, rfl⟩

/-- What is registered under a key that must be new. -/
theorem claimed_eq_ok (taken : Registry → Bool) {kind : EntryKind} {name : Except Fault String}
    {change : Registry → Registry}
    (h : (do
      claim (taken (← get)) kind name
      modify change : Registering Unit) r = .ok u r') : taken r = false ∧ r' = change r := by
  rw [getBind_eq_ok_iff, bind_eq_ok_iff] at h
  obtain ⟨_, r₁, hclaim, hmodify⟩ := h
  obtain ⟨hnew, rfl⟩ := claim_eq_ok hclaim
  exact ⟨hnew, modify_eq_ok_iff.mp hmodify⟩

theorem addFunction_eq_ok {name : String} {f : FunctionId} (h : addFunction name f r = .ok u r') :
    r.function? name = none ∧ r' = { r with functions := (name, f) :: r.functions } := by
  obtain ⟨hnew, rfl⟩ := claimed_eq_ok (fun r => (r.function? name).isSome) h
  exact ⟨by simpa using hnew, rfl⟩

variable {asm : Assembly}

theorem addStaticField_eq_ok {f : FieldId} {g : ValueId} (h : addStaticField asm f g r = .ok u r') :
    r.staticField? f = none ∧ r' = { r with staticFields := (f, g) :: r.staticFields } := by
  obtain ⟨hnew, rfl⟩ := claimed_eq_ok (fun r => (r.staticField? f).isSome) h
  exact ⟨by simpa using hnew, rfl⟩

theorem addVTable_eq_ok {ty : TypeDefId} {table : VTable}
    (h : addVTable asm ty table r = .ok u r') :
    r.vtables.lookup ty = none ∧ r' = { r with vtables := (ty, table) :: r.vtables } := by
  obtain ⟨hnew, rfl⟩ := claimed_eq_ok (fun r => r.hasVTable ty) h
  exact ⟨by simpa [Registry.hasVTable] using hnew, rfl⟩

theorem addSlotTable_eq_ok {owner : TypeDefId} {id : TypeId}
    (h : addSlotTable asm owner id r = .ok u r') :
    r.slotTable? owner = none ∧ r' = { r with slotTables := (owner, id) :: r.slotTables } := by
  obtain ⟨hnew, rfl⟩ := claimed_eq_ok (fun r => (r.slotTable? owner).isSome) h
  exact ⟨by simpa using hnew, rfl⟩

theorem addInterface_eq_ok {ty : TypeDefId} {index : Nat}
    (h : addInterface asm ty r = .ok index r') :
    ty ∉ r.interfaces ∧ index = r.interfaces.length ∧
      r' = { r with interfaces := r.interfaces ++ [ty] } := by
  rw [addInterface, getBind_eq_ok_iff, bind_eq_ok_iff] at h
  obtain ⟨_, r₁, hclaim, h⟩ := h
  obtain ⟨hnew, rfl⟩ := claim_eq_ok hclaim
  rw [getBind_eq_ok_iff] at h
  simp only [bind_eq_ok_iff, modify_eq_ok_iff, pure_eq_ok_iff] at h
  obtain ⟨_, _, rfl, rfl, rfl⟩ := h
  exact ⟨by simpa using hnew, rfl, rfl⟩

theorem foldStatic_eq_ok {f : FieldId} {first : Bool} (h : foldStatic f r = .ok first r') :
    (first = false ∧ f ∈ r.folded ∧ r' = r) ∨
      (first = true ∧ f ∉ r.folded ∧ r' = { r with folded := f :: r.folded }) := by
  rw [foldStatic, getBind_eq_ok_iff] at h
  split at h
  · rename_i hmem
    obtain ⟨rfl, rfl⟩ := pure_eq_ok_iff.mp h
    exact .inl ⟨rfl, hmem, rfl⟩
  · rename_i hmem
    simp only [bind_eq_ok_iff, modify_eq_ok_iff, pure_eq_ok_iff] at h
    obtain ⟨_, _, rfl, rfl, rfl⟩ := h
    exact .inr ⟨rfl, hmem, rfl⟩

end Registering

/-- A registry with more entries, none of them for functions or static fields. -/
structure Registry.Settled (r r' : Registry) : Prop extends Registry.Extends r r' where
  sameFunctions : r'.functions = r.functions
  sameStatics : r'.staticFields = r.staticFields

instance : IsPreorder Registry Registry.Settled where
  refl _ := ⟨Std.Refl.refl _, rfl, rfl⟩
  trans _ _ _ h h' := ⟨IsTrans.trans _ _ _ h.toExtends h'.toExtends,
    h'.sameFunctions.trans h.sameFunctions, h'.sameStatics.trans h.sameStatics⟩

namespace Registering

variable {asm : Assembly}

instance (ty : TypeDefId) (table : VTable) : Keeps Registry.Settled (addVTable asm ty table) where
  run h := by
    obtain ⟨hnew, rfl⟩ := claimed_eq_ok (fun r => r.hasVTable ty) h
    exact ⟨⟨id, id, id, lookup_cons_of_new hnew, id, id, fun _ h => h, rfl, rfl⟩, rfl, rfl⟩

instance (owner : TypeDefId) (id : TypeId) :
    Keeps Registry.Settled (addSlotTable asm owner id) where
  run h := by
    obtain ⟨hnew, rfl⟩ := claimed_eq_ok (fun r => (r.slotTable? owner).isSome) h
    exact ⟨⟨fun h => h, fun h => h, fun h => h, fun h => h, lookup_cons_of_new hnew, fun h => h,
      fun _ h => h, rfl, rfl⟩, rfl, rfl⟩

instance (ty : TypeDefId) (f : FunctionId) : Keeps Registry.Settled (addNewobj asm ty f) where
  run h := by
    obtain ⟨hnew, rfl⟩ := claimed_eq_ok (fun r => r.hasNewobj ty) h
    exact ⟨⟨id, id, id, id, id, lookup_cons_of_new hnew, fun _ h => h, rfl, rfl⟩, rfl, rfl⟩

instance (f : FieldId) : Keeps Registry.Settled (foldStatic f) where
  run h := by
    rcases foldStatic_eq_ok h with ⟨-, -, rfl⟩ | ⟨-, -, rfl⟩
    · exact Std.Refl.refl _
    · exact ⟨⟨id, id, id, id, id, id, fun _ h => List.mem_cons_of_mem _ h, rfl, rfl⟩, rfl, rfl⟩

end Registering

end Registry

section Sessions

/-- Whether a session has everything that another has. -/
structure Session.Extends (s s' : Session) : Prop where
  module : s.module.Evolves Change.Any s'.module
  registry : s.registry.Extends s'.registry

instance : IsPreorder Session Session.Extends where
  refl _ := ⟨Std.Refl.refl _, Std.Refl.refl _⟩
  trans _ _ _ h h' :=
    ⟨IsTrans.trans _ _ _ h.module h'.module, IsTrans.trans _ _ _ h.registry h'.registry⟩

variable {asm : Assembly} {α : Type}

instance (x : Build α) [hx : Keeps (Module.Evolves Change.Any) x] :
    Keeps Session.Extends (Lower.build x) where
  run {s _ _} h := by
    obtain ⟨m, hbuild, rfl⟩ := Lower.build_eq_ok_iff.mp h
    exact ⟨hx.run hbuild, Std.Refl.refl s.registry⟩

instance : Building noAddress Session.Extends where
  build hx := by
    have : Keeps (Module.Evolves Change.Any) _ := ⟨fun h => (hx.run h).mono fun _ _ => trivial⟩
    infer_instance

section Settles

theorem intern_settles {type : IrType} (htype : type.isInterned = true) :
    Settles Session.Extends (Lower.build (Build.intern type)) where
  run {s id s' t} h ht := by
    obtain ⟨m, hintern, rfl⟩ := Lower.build_eq_ok_iff.mp h
    have hfound : m.types.idxOf? type = some id.index := by
      unfold Build.intern at hintern
      split at hintern
      · cases hintern
        assumption
      · rename_i hnone
        cases hintern
        rw [Module.idxOf?_eq_some_iff]
        have hfresh := Array.idxOf?_eq_none_iff.mp hnone
        refine ⟨by simp, fun j hj hother => ?_⟩
        rw [Array.getElem?_push, if_neg (Nat.ne_of_lt hj)] at hother
        exact hfresh (Array.mem_of_getElem? hother)
    have hfound' := ht.module.idxOf? htype hfound
    exact Lower.build_eq_ok_iff.mpr ⟨t.module, by simp [Build.intern, hfound'], rfl⟩

instance (question : Except Fault α) : Settles Session.Extends (Lower.ask question) where
  run h _ := by
    obtain ⟨hanswer, -⟩ := Lower.ask_eq_ok_iff.mp h
    exact Lower.ask_eq_ok_iff.mpr ⟨hanswer, rfl⟩

instance (x : Build α) [h : Settles Session.Extends (Lower.build x)] :
    Settles Session.Extends (liftM x : Lower α) :=
  h

instance (x : Except Fault α) [h : Settles Session.Extends (Lower.ask x)] :
    Settles Session.Extends (liftM x : Lower α) :=
  h

instance (ty : TypeDefId) : Settles Session.Extends (Lower.consult (·.type asm ty)) where
  run {s id s' t} h ht := by
    obtain ⟨hfound, rfl⟩ := Lower.consult_eq_ok_iff.mp h
    have hlookup := Registry.found_eq_ok_iff.mp hfound
    exact Lower.consult_eq_ok_iff.mpr
      ⟨Registry.found_eq_ok_iff.mpr (ht.registry.types hlookup), rfl⟩

instance : Settles Session.Extends (Lower.build Build.voidType) := intern_settles rfl

instance (bits : Nat) : Settles Session.Extends (Lower.build (Build.intType bits)) :=
  intern_settles rfl

instance (bits : Nat) : Settles Session.Extends (Lower.build (Build.floatType bits)) :=
  intern_settles rfl

instance (pointee : TypeId) : Settles Session.Extends (Lower.build (Build.pointerType pointee)) :=
  intern_settles rfl

instance : Settles Session.Extends (Lower.build Build.genericPointer) := by
  rw [Build.genericPointer, Lower.build_bind]
  infer_instance

instance (id : TypeDefId) : Settles Session.Extends (namedType asm id) := by
  unfold namedType
  split
  · infer_instance
  · refine Settles.seq inferInstance fun handle => ⟨?_, ?_⟩
    · refine Settles.seq inferInstance fun kind => ⟨?_, ?_⟩
      · cases kind <;> infer_instance
      · cases kind <;> infer_instance
    · refine Keeps.seq inferInstance fun kind => ?_
      cases kind <;> infer_instance

/-- The type of a signature never changes. -/
instance (sig : TypeSig) : Settles Session.Extends (irType asm sig) := by
  induction sig <;>
  · unfold irType
    infer_instance

end Settles

end Sessions

end Lowering

end CilSsa
