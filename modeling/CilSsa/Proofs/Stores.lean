import CilSsa.Proofs.Methods
import CilSsa.Proofs.Prologue

/-!
Stores to an address.

Stores are numbered as they are added, so those to an address come in the order of the code.  An
address that neither the stack nor a variable leads to is not stored to, and one that does not exist
yet cannot be.
-/

namespace CilSsa

open Ssa Metadata Lowering

namespace Ssa

def Value.storedTo? (address : ValueId) (v : Value) : Option ValueId :=
  match v.inst? with
  | some (.store pointer value _) => if pointer = address then some value else none
  | _ => none

theorem Value.Like.storedTo? {v v' : Value} (h : v.Like v') (address : ValueId) :
    v'.storedTo? address = v.storedTo? address := by
  obtain ⟨_, kind⟩ := v
  obtain ⟨_, kind'⟩ := v'
  have hkind : kind.Like kind' := h.kind
  cases hkind <;> rfl

def Change.storedTo? (address : ValueId) : Change → Option ValueId
  | .addInst block type inst => Value.storedTo? address ⟨type, .inst block inst⟩
  | _ => none

namespace Module

def storesTo (m : Module) (address : ValueId) : List ValueId :=
  m.values.toList.filterMap (Value.storedTo? address)

variable {m m' : Module} {address : ValueId}

theorem storesTo_pushValue (v : Value) :
    (m.pushValue v).storesTo address = m.storesTo address ++ (v.storedTo? address).toList := by
  cases h : v.storedTo? address <;> simp [storesTo, pushValue, h]

/-- A change that adds no value leaves the stores as they are. -/
theorem storesTo_of_size {c : Change} (hsize : (m.apply c).values.size = m.values.size) :
    (m.apply c).storesTo address = m.storesTo address := by
  have hmap : (m.apply c).values.toList.map (Value.storedTo? address) =
      m.values.toList.map (Value.storedTo? address) := by
    apply List.ext_getElem?
    intro i
    simp only [List.getElem?_map, Array.getElem?_toList]
    cases hv : m.values[i]? with
    | none =>
        have hnone : (m.apply c).values[i]? = none := by
          rw [Array.getElem?_eq_none_iff] at hv ⊢
          omega
        rw [hnone]
    | some v =>
        obtain ⟨v', hv', hlike⟩ := like_apply (c := c) hv
        rw [hv', Option.map_some, Option.map_some, hlike.storedTo?]
  have hstored (m : Module) : m.storesTo address =
      (m.values.toList.map (Value.storedTo? address)).filterMap id := by
    simp [storesTo, List.filterMap_map]
  rw [hstored, hstored, hmap]

/-- A change adds at most the store that it is. -/
theorem storesTo_apply {c : Change} (hfits : m.Fits c) :
    (m.apply c).storesTo address = m.storesTo address ++ (c.storedTo? address).toList := by
  cases c with
  | addValue value =>
      have hnone : value.storedTo? address = none := by
        rw [Value.storedTo?, show value.inst? = none from hfits]
      simp [apply, storesTo_pushValue, hnone, Change.storedTo?]
  | addInst block type inst => cases block <;> exact storesTo_pushValue _
  | addPhi b type => exact storesTo_pushValue ⟨type, .inst (some b) (.phi [])⟩
  | _ =>
      refine (storesTo_of_size ?_).trans (List.append_nil _).symm
      simp [apply, keepBlocks, prunedValues]

/-- The addresses in `spared` that there are already are not stored to. -/
structure Spares (spared : ValueId → Prop) (m m' : Module) : Prop where
  grows : m.values.size ≤ m'.values.size
  stores : ∀ g, spared g → g.index < m.values.size → m'.storesTo g = m.storesTo g

instance (spared : ValueId → Prop) : IsPreorder Module (Spares spared) where
  refl _ := ⟨Nat.le_refl _, fun _ _ _ => rfl⟩
  trans _ _ _ h h' := ⟨Nat.le_trans h.grows h'.grows, fun g hg hlt =>
    (h'.stores g hg (Nat.lt_of_lt_of_le hlt h.grows)).trans (h.stores g hg hlt)⟩

theorem Evolves.storesTo {P : Change → Prop} (h : m.Evolves P m')
    (hP : ∀ c, P c → c.storedTo? address = none) : m'.storesTo address = m.storesTo address := by
  refine h.preserves (I := fun m' => m'.storesTo address = m.storesTo address) ?_ rfl
  intro m₁ c hc hfits hsame
  rw [storesTo_apply hfits, hP c hc, hsame, Option.toList_none, List.append_nil]

theorem Evolves.storesTo_of_le {P : Change → Prop} (h : m.Evolves P m')
    (hle : m'.values.size ≤ address.index) : m'.storesTo address = m.storesTo address := by
  refine h.preserves (I := fun m' => m'.values.size ≤ address.index →
    m'.storesTo address = m.storesTo address) ?_ (fun _ => rfl) hle
  intro m₁ c _ hfits hsame hle
  have hgrows : m₁.values.size ≤ (m₁.apply c).values.size := 
    (Evolves.one (P := Change.Any) trivial hfits).values_le
  have hnone : c.storedTo? address = none := by
    cases c with
    | addInst block type inst =>
        cases inst with
        | store pointer value isVolatile =>
            have hlt : pointer.index < m₁.values.size := hfits.2.2.1 pointer rfl
            have hne : pointer ≠ address := by
              rintro rfl
              omega
            simp [Change.storedTo?, Value.storedTo?, Value.inst?, hne]
        | _ => rfl
    | _ => rfl
  rw [storesTo_apply hfits, hnone, hsame (Nat.le_trans hgrows hle), Option.toList_none,
    List.append_nil]

theorem storedTo?_of_isQuiet {c : Change} (h : c.isQuiet = true) : c.storedTo? address = none := by
  cases c with
  | addInst block type inst =>
      cases inst with
      | store => exact absurd h Bool.false_ne_true
      | _ => rfl
  | _ => rfl

theorem storedTo?_of_plain {spared : ValueId → Prop} {c : Change} (h : c.Plain spared)
    (hspared : spared address) : c.storedTo? address = none := by
  cases c with
  | addInst block type inst =>
      cases inst with
      | store pointer value isVolatile =>
          have hne : pointer ≠ address := by
            rintro rfl
            exact h pointer value isVolatile rfl hspared
          simp [Change.storedTo?, Value.storedTo?, Value.inst?, hne]
      | _ => rfl
  | _ => rfl

end Module

namespace Build

variable {spared : ValueId → Prop} {α : Type}

instance (x : Build α) [hx : Keeps (Module.Evolves Change.Quiet) x] :
    Keeps (Module.Spares spared) x where
  run h := ⟨(hx.run h).values_le, fun _ _ _ =>
    (hx.run h).storesTo fun _ => Module.storedTo?_of_isQuiet⟩

/-- A store to an address that is new. -/
theorem spares_store {m₀ m m' : Module} {pointer value : ValueId} {isVolatile : Bool} {u : Unit}
    (h : m₀.Spares spared m) (hnew : m₀.values.size ≤ pointer.index)
    (hstore : store pointer value isVolatile m = .ok u m') : m₀.Spares spared m' := by
  have hkeeps : Keeps (Module.Evolves (Change.Plain fun g => g.index < m₀.values.size))
      (store pointer value isVolatile) := by
    refine store_keeps fun block type => ?_
    rintro _ _ _ heq
    cases heq
    exact Nat.not_lt.mpr hnew
  have hevolves := hkeeps.run hstore
  refine ⟨Nat.le_trans h.grows hevolves.values_le, fun g hg hlt => ?_⟩
  rw [hevolves.storesTo fun _ hc => Module.storedTo?_of_plain hc hlt, h.stores g hg hlt]

theorem store_storesTo_of_ne {m m' : Module} {pointer value address : ValueId} {isVolatile : Bool}
    {u : Unit} (hne : pointer ≠ address) (h : store pointer value isVolatile m = .ok u m') :
    m'.storesTo address = m.storesTo address := by
  have hkeeps : Keeps (Module.Evolves (Change.Plain (· = address)))
      (store pointer value isVolatile) := by
    refine store_keeps fun block type => ?_
    rintro _ _ _ heq
    cases heq
    exact hne
  exact (hkeeps.run h).storesTo fun _ hc => Module.storedTo?_of_plain hc rfl

/-- Setting an initial value is no store. -/
theorem setInitializer_storesTo {m m' : Module} {global value address : ValueId} {u : Unit}
    (h : setInitializer global value m = .ok u m') : m'.storesTo address = m.storesTo address := by
  rcases setInitializer_cases h with ⟨misuse, rfl, hfits⟩ | ⟨rfl, hfits⟩ <;>
  · rw [Module.storesTo_apply hfits]
    exact List.append_nil _

/-- A store is the last to its address. -/
theorem store_storesTo {m m' : Module} {pointer value : ValueId} {isVolatile : Bool} {u : Unit}
    (h : store pointer value isVolatile m = .ok u m') :
    m'.storesTo pointer = m.storesTo pointer ++ [value] := by
  obtain ⟨hlt, type, v, m₁, hevolves, hpush⟩ := store_cases (P := Change.Quiet) h
  obtain ⟨m₂, hfirst, -, rfl, hplace⟩ := pushInst_cases hpush
  have hquiet : m.Evolves Change.Quiet m₂ := by
    rcases hfirst with rfl | ⟨misuse, rfl, hfits⟩
    · exact hevolves
    · exact hevolves.trans (evolves_record hfits)
  have hposition : m₂.position = m₁.position := by
    rcases hfirst with rfl | ⟨misuse, rfl, -⟩ <;> rfl
  have hfits : m₂.Fits (.addInst m₁.position type (.store pointer value isVolatile)) := by
    refine ⟨hposition, rfl, fun p hp => ?_, hplace⟩
    obtain rfl := Option.some.inj hp
    exact Nat.lt_of_lt_of_le hlt hquiet.values_le
  rw [Module.storesTo_apply hfits, hquiet.storesTo fun _ => Module.storedTo?_of_isQuiet]
  simp [Change.storedTo?, Value.storedTo?, Value.inst?]

end Build

end Ssa

namespace Lowering

variable {asm : Assembly} {spared : ValueId → Prop}

instance : Arranging (Session.On (Module.Spares spared)) where
  build _ := Session.On.keeps inferInstance

instance : Building spared (Session.On (Module.Spares spared)) :=
  Session.On.building fun _ _ h => ⟨h.values_le, fun _ hg _ =>
    h.storesTo fun _ hc => Module.storedTo?_of_plain hc hg⟩

/-- The tables of a new object are stored to members of the object. -/
instance (struct : TypeId) (object : ValueId) (stores : List (Nat × ValueId)) :
    Keeps (Module.Spares spared) (storeTables struct object stores) := by
  have hmember (index : Nat) (table : ValueId) : Keeps (Module.Spares spared) (do
      let member ← Build.structGep struct object index
      Build.store member table false : Build Unit) := by
    refine ⟨fun h => ?_⟩
    obtain ⟨member, m₁, hgep, hstore⟩ := bind_eq_ok_iff.mp h
    have hnew := (inferInstance : Fresh id (Build.structGep struct object index)).run hgep
    exact Build.spares_store
      ((inferInstance : Keeps _ (Build.structGep struct object index)).run hgep)
      hnew.1 hstore
  unfold storeTables
  infer_instance

instance : Emission asm spared (Session.On (Module.Spares spared)) :=
  Session.On.emission fun _ => newobjFunction_keeps inferInstance inferInstance
    fun _ _ _ => Session.On.keeps inferInstance

section Prologues

variable {s s' : Session}

/-- Storage for a variable is new. -/
theorem spares_variable {type : TypeId} {pointer value : ValueId} {m₁ m₂ m₃ : Module} {u : Unit}
    (hspares : s.module.Spares spared m₁) (halloca : Build.alloca type m₁ = .ok pointer m₂)
    (hevolves : m₂.Evolves Change.Quiet m₃) {m₄ : Module}
    (hstore : Build.store pointer value false m₃ = .ok u m₄) : s.module.Spares spared m₄ := by
  have hnew := (inferInstance : Fresh id (Build.alloca type)).run halloca
  have hmade : m₁.Spares spared m₂ := (inferInstance : Keeps _ (Build.alloca type)).run halloca
  have hthen : m₂.Spares spared m₃ :=
    ⟨hevolves.values_le, fun _ _ _ => hevolves.storesTo fun _ => Module.storedTo?_of_isQuiet⟩
  refine Build.spares_store (IsTrans.trans _ _ _ hspares (IsTrans.trans _ _ _ hmade hthen))
    ?_ hstore
  exact Nat.le_trans hspares.grows hnew.1

instance (f : FunctionId) (index : Nat) (sigs : List TypeSig) :
    Keeps (Session.On (Module.Spares spared)) (argVariables asm f index sigs) := by
  induction sigs generalizing index with
  | nil =>
      unfold argVariables
      infer_instance
  | cons sig rest ih =>
      refine ⟨fun {s args s'} h => ?_⟩
      simp only [argVariables, bind_eq_ok_iff, Lower.liftM_build, Lower.build_eq_ok_iff,
        Build.query_eq_ok_iff, pure_eq_ok_iff] at h
      obtain ⟨type, s₁, htype, pointer, _, ⟨m₂, halloca, rfl⟩, value, _, ⟨_, ⟨-, rfl⟩, rfl⟩, _, _,
        ⟨m₄, hstore, rfl⟩, args', s₅, hrest, -, rfl⟩ := h
      have hfirst : Session.On (Module.Spares spared) s s₁ :=
        (inferInstance : Keeps _ (irType asm sig)).run htype
      have hsecond : Session.On (Module.Spares spared) s { s₁ with module := m₄ } :=
        spares_variable hfirst halloca Relation.ReflTransGen.refl hstore
      exact IsTrans.trans _ _ _ hsecond ((ih (index + 1)).run hrest)

instance (sig : TypeSig) : Keeps (Session.On (Module.Spares spared)) (localVariable asm sig) where
  run {s v s'} h := by
    simp only [localVariable, bind_eq_ok_iff, Lower.liftM_build, Lower.build_eq_ok_iff,
      pure_eq_ok_iff] at h
    obtain ⟨type, s₁, htype, pointer, _, ⟨m₂, halloca, rfl⟩, zero, _, ⟨m₃, hzero, rfl⟩, _, _,
      ⟨m₄, hstore, rfl⟩, -, rfl⟩ := h
    have hfirst : Session.On (Module.Spares spared) s s₁ :=
      (inferInstance : Keeps _ (irType asm sig)).run htype
    exact spares_variable hfirst halloca
      ((inferInstance : Keeps (Module.Evolves Change.Quiet) (Build.constNull type)).run
        hzero) hstore

end Prologues

end Lowering

end CilSsa
