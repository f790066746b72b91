import CilSsa.Proofs.Freshness
import CilSsa.Proofs.Registrations

/-!
From one state of a compilation to a later one.

Values last, apart from the entries of phis and the initial values of static fields, which become
final once they are constants of the program.  Static fields have globals of their own, of the types
of the fields.
-/

namespace CilSsa

open Ssa Metadata Lowering

namespace Ssa.Module

/-- Whether all values but phis are as they were. -/
structure Lasts (m m' : Module) : Prop where
  evolves : m.Evolves Change.Any m'
  values : ∀ {i : Nat} {v : Value}, m.values[i]? = some v → v.inst?.map Inst.isPhi ≠ some true →
    m'.values[i]? = some v

instance : IsPreorder Module Lasts where
  refl _ := ⟨Relation.ReflTransGen.refl, fun hv _ => hv⟩
  trans _ _ _ h h' :=
    ⟨Relation.ReflTransGen.trans h.evolves h'.evolves, fun hv hphi =>
      h'.values (h.values hv hphi) hphi⟩

/-- Without changes of initial values everything but phis lasts. -/
theorem Evolves.lasts {m m' : Module} (h : m.Evolves Change.Tame m') : m.Lasts m' := by
  refine ⟨h.mono fun _ _ => trivial, fun {i v} hv hphi => ?_⟩
  refine h.preserves (I := fun m => m.values[i]? = some v) (fun m c hc hfits hv => ?_) hv
  refine value_apply ?_ hv
  cases c with
  | addEntry phi value source =>
      rintro rfl
      obtain ⟨type, block, incoming, hentry⟩ := hfits
      obtain rfl : v = ⟨type, .inst block (.phi incoming)⟩ := by simpa [hv] using hentry
      simp [Value.inst?, Inst.isPhi] at hphi
  | setInitial global value => exact Bool.noConfusion hc
  | keepBlocks function kept => exact hphi
  | _ => exact trivial

end Ssa.Module

namespace Ssa.Build

variable {α : Type}

instance (x : Build α) [hx : Keeps (Module.Evolves Change.Tame) x] : Keeps Module.Lasts x where
  run h := (hx.run h).lasts

/-- A global that is new. -/
theorem addGlobal_spec {name : String} {content : TypeId} {m m' : Module} {g : ValueId}
    (h : addGlobal name content m = .ok g m') :
    m.values.size ≤ g.index ∧ ∃ type zero,
      m'.values[g.index]? = some ⟨type, .global name content zero⟩ := by
  have hnew := (inferInstance : Fresh id (addGlobal name content)).run h
  refine ⟨hnew.1, ?_⟩
  obtain ⟨zero, m₁, pointer, m₂, m₃, -, -, hpush, hlast⟩ := addGlobal_eq_ok h
  cases hpush
  refine ⟨pointer, zero, ?_⟩
  rcases hlast with rfl | hrecord
  · simp [Module.apply]
  · obtain ⟨function, -, rfl⟩ := record_eq_ok_iff.mp hrecord
    simp [Module.apply]

theorem lasts_setInitializer {m m₁ m₂ : Module} {global value : ValueId} {u : Unit}
    (h : m.Lasts m₁) (hnew : m.values.size ≤ global.index)
    (hset : setInitializer global value m₁ = .ok u m₂) : m.Lasts m₂ := by
  rcases setInitializer_cases hset with ⟨misuse, rfl, hfits⟩ | ⟨rfl, hfits⟩
  · exact ⟨h.evolves.trans (evolves_record hfits), h.values⟩
  · refine ⟨h.evolves.trans (Module.Evolves.one trivial hfits), fun {i v} hv hphi => ?_⟩
    refine Module.value_apply (fun heq => ?_) (h.values hv hphi)
    have hlt := (Array.getElem?_eq_some_iff.mp hv).1
    omega

end Ssa.Build

namespace Lowering

/-- Whether static fields have globals of their own, of the right types. -/
structure Session.StaticsSound (asm : Assembly) (s : Session) : Prop where
  global : ∀ {f : FieldId} {g : ValueId}, s.registry.staticField? f = some g →
    ∃ d type name content initial, asm.field f = .ok d ∧ irType asm d.sig s = .ok content s ∧
      s.module.values[g.index]? = some ⟨type, .global name content initial⟩
  distinct : ∀ {f f' : FieldId} {g : ValueId}, s.registry.staticField? f = some g →
    s.registry.staticField? f' = some g → f = f'

/-- Whether functions are registered under their own names. -/
def Session.FunctionsSound (s : Session) : Prop :=
  ∀ {name : String} {f : FunctionId}, s.registry.function? name = some f →
    s.module.functions[f.index]?.map Function.name = some name

/-- What is true of any later state of a compilation. -/
structure Session.Later (asm : Assembly) (s s' : Session) : Prop extends Session.Extends s s' where
  layouts : LayoutCache.Looked asm s.layouts s'.layouts
  fresh : ∀ {f : FieldId} {g : ValueId}, s'.registry.staticField? f = some g →
    s.registry.staticField? f = some g ∨ s.module.values.size ≤ g.index
  values : ∀ {i : Nat} {v : Value}, s.module.values[i]? = some v →
    v.inst?.map Inst.isPhi ≠ some true →
    (∀ f, s.registry.staticField? f = some ⟨i⟩ → f ∈ s.registry.folded) →
    s'.module.values[i]? = some v
  statics : s.StaticsSound asm → s'.StaticsSound asm
  functions : s.FunctionsSound → s'.FunctionsSound

variable {asm : Assembly} {α : Type}

instance : IsPreorder Session (Session.Later asm) where
  refl _ := ⟨Std.Refl.refl _, Std.Refl.refl _, .inl, fun hv _ _ => hv, id, id⟩
  trans s s' s'' h h' := by
    have hle := h.module.values_le
    refine ⟨IsTrans.trans _ _ _ h.toExtends h'.toExtends, IsTrans.trans _ _ _ h.layouts h'.layouts,
      fun {f g} hg => ?_, fun {i v} hv hphi hstatic => ?_, fun hs => h'.statics (h.statics hs),
      fun hs => h'.functions (h.functions hs)⟩
    · rcases h'.fresh hg with hg | hnew
      · exact h.fresh hg
      · exact .inr (Nat.le_trans hle hnew)
    · refine h'.values (h.values hv hphi hstatic) hphi fun f hf => ?_
      rcases h.fresh hf with hold | hnew
      · exact h.registry.folded f (hstatic f hold)
      · have hlt := (Array.getElem?_eq_some_iff.mp hv).1
        exact absurd hlt (Nat.not_lt.mpr hnew)

section Primitives

/-- Static fields stay sound as long as their globals last. -/
theorem Session.StaticsSound.mono {s s' : Session} (h : s.StaticsSound asm) (hext : s.Extends s')
    (hsame : s'.registry.staticFields = s.registry.staticFields)
    (hglobal : ∀ {f : FieldId} {g : ValueId} {type : TypeId} {name : String} {content : TypeId}
      {initial : ValueId}, s.registry.staticField? f = some g →
      s.module.values[g.index]? = some ⟨type, .global name content initial⟩ →
      ∃ initial', s'.module.values[g.index]? = some ⟨type, .global name content initial'⟩) :
    s'.StaticsSound asm where
  global {f g} hg := by
    rw [Registry.staticField?, hsame] at hg
    obtain ⟨d, type, name, content, initial, hd, htype, hvalue⟩ := h.global hg
    obtain ⟨initial', hvalue'⟩ := hglobal hg hvalue
    exact ⟨d, type, name, content, initial', hd,
      (inferInstance : Settles Session.Extends (irType asm d.sig)).run htype hext, hvalue'⟩
  distinct {f f' g} hf hf' := by
    rw [Registry.staticField?, hsame] at hf hf'
    exact h.distinct hf hf'

/-- Functions stay sound as long as no other is registered. -/
theorem Session.FunctionsSound.mono {s s' : Session} (h : s.FunctionsSound) (hext : s.Extends s')
    (hsame : s'.registry.functions = s.registry.functions) : s'.FunctionsSound := by
  intro name f hf
  rw [Registry.function?, hsame] at hf
  exact hext.module.functionName (h hf)

theorem later_of_lasts {s : Session} {m : Module} (h : s.module.Lasts m) :
    Session.Later asm s { s with module := m } := by
  have hext : s.Extends { s with module := m } := ⟨h.evolves, Std.Refl.refl _⟩
  refine ⟨hext, Std.Refl.refl _, .inl, fun hv hphi _ => h.values hv hphi, fun hs => ?_,
    fun hs => hs.mono hext rfl⟩
  exact hs.mono hext rfl fun _ hv => ⟨_, h.values hv (by simp [Value.inst?])⟩

theorem later_build {x : Build α} (hx : Keeps Module.Lasts x) :
    Keeps (Session.Later asm) (Lower.build x) where
  run h := by
    obtain ⟨m, hbuild, rfl⟩ := Lower.build_eq_ok_iff.mp h
    exact later_of_lasts (hx.run hbuild)

instance (x : Build α) [hx : Keeps Module.Lasts x] : Keeps (Session.Later asm) (Lower.build x) :=
  later_build hx

instance (x : Registering α) [hx : Keeps Registry.Settled x] :
    Keeps (Session.Later asm) (Lower.register x) where
  run {s a s'} h := by
    obtain ⟨r, hregister, rfl⟩ := Lower.register_eq_ok_iff.mp h
    obtain ⟨hext, hfunctions, hstatics⟩ := hx.run hregister
    have hext' : s.Extends { s with registry := r } := ⟨Std.Refl.refl s.module, hext⟩
    refine ⟨hext', Std.Refl.refl _, fun hg => ?_, fun hv _ _ => hv, fun hs => ?_,
      fun hs => hs.mono hext' hfunctions⟩
    · rw [Registry.staticField?, hstatics] at hg
      exact .inl hg
    · exact hs.mono hext' hstatics fun _ hv => ⟨_, hv⟩

theorem later_layout {x : Layouts α} (hx : Keeps (LayoutCache.Looked asm) x) :
    Keeps (Session.Later asm) (Lower.layout x) where
  run {s a s'} h := by
    obtain ⟨c, hlayout, rfl⟩ := Lower.layout_eq_ok_iff.mp h
    have hext : s.Extends { s with layouts := c } :=
      ⟨Std.Refl.refl s.module, Std.Refl.refl s.registry⟩
    exact ⟨hext, hx.run hlayout, .inl, fun hv _ _ => hv,
      fun hs => hs.mono hext rfl fun _ hv => ⟨_, hv⟩, fun hs => hs.mono hext rfl⟩

instance : Building noAddress (Session.Later asm) where
  build hx := later_build ⟨fun h => Module.Evolves.lasts ((hx.run h).mono fun c hc => by
    cases c <;> first | exact rfl | exact hc.elim)⟩

instance : Arranging (Session.Later asm) where
  build hx := later_build ⟨fun h =>
    Module.Evolves.lasts ((hx.run h).mono fun _ => Change.isTame_of_isQuiet)⟩

/-- The ways to the global of a static field: it is there already, or it is made. -/
theorem staticField_cases {f : FieldId} {g : ValueId} {s s' : Session}
    (h : staticField asm f s = .ok g s') :
    (s.registry.staticField? f = some g ∧ s' = s) ∨
      (s.registry.staticField? f = none ∧ ∃ d content name s₁ m, asm.field f = .ok d ∧
        irType asm d.sig s = .ok content s₁ ∧
        Build.addGlobal name content s₁.module = .ok g m ∧
        s' = { s₁ with
          module := m
          registry :=
            { s₁.registry with staticFields := (f, g) :: s₁.registry.staticFields } }) := by
  rw [staticField, getBind_eq_ok_iff] at h
  cases hfound : s.registry.staticField? f with
  | some global =>
      simp only [hfound] at h
      obtain ⟨rfl, rfl⟩ := pure_eq_ok_iff.mp h
      exact .inl ⟨rfl, rfl⟩
  | none =>
      simp only [hfound, bind_eq_ok_iff, Lower.liftM_ask, Lower.ask_eq_ok_iff, Lower.liftM_build,
        Lower.build_eq_ok_iff, Lower.liftM_register, Lower.register_eq_ok_iff, pure_eq_ok_iff] at h
      obtain ⟨d, _, ⟨hd, rfl⟩, content, s₁, htype, name, t, ⟨-, hsame⟩, g', _, ⟨m, hadd, rfl⟩, _, _,
        ⟨r, hregister, rfl⟩, rfl, rfl⟩ := h
      subst t
      obtain ⟨-, rfl⟩ := Registering.addStaticField_eq_ok hregister
      exact .inr ⟨rfl, d, content, name, s₁, m, hd, htype, hadd, rfl⟩

/-- Whether nothing was registered. -/
def Session.SameRegistry (s s' : Session) : Prop := s'.registry = s.registry

instance : Building noAddress Session.SameRegistry where
  refl _ := rfl
  trans _ _ _ h h' := Eq.trans h' h
  build _ := ⟨fun h => by
    obtain ⟨m, -, rfl⟩ := Lower.build_eq_ok_iff.mp h
    rfl⟩

theorem irType_registry {sig : TypeSig} {type : TypeId} {s s' : Session}
    (h : irType asm sig s = .ok type s') : s'.registry = s.registry :=
  (inferInstance : Keeps Session.SameRegistry (irType asm sig)).run h

theorem Session.StaticsSound.register {s : Session} {f : FieldId} {g zero : ValueId} {d : FieldDef}
    {type content : TypeId} {name : String} (h : s.StaticsSound asm)
    (hext : s.registry.Extends
      { s.registry with staticFields := (f, g) :: s.registry.staticFields })
    (hd : asm.field f = .ok d) (htype : irType asm d.sig s = .ok content s)
    (hvalue : s.module.values[g.index]? = some ⟨type, .global name content zero⟩)
    (hfree : ∀ f', s.registry.staticField? f' ≠ some g) :
    Session.StaticsSound asm { s with
      registry := { s.registry with staticFields := (f, g) :: s.registry.staticFields } } where
  global {f' g'} hg' := by
    rcases lookup_cons_cases hg' with ⟨rfl, rfl⟩ | hold
    · exact ⟨d, type, name, content, zero, hd,
        (inferInstance : Settles Session.Extends (irType asm d.sig)).run htype
          ⟨Std.Refl.refl _, hext⟩, hvalue⟩
    · obtain ⟨d', type', name', content', initial', hd', htype', hvalue'⟩ := h.global hold
      exact ⟨d', type', name', content', initial', hd',
        (inferInstance : Settles Session.Extends (irType asm d'.sig)).run htype'
          ⟨Std.Refl.refl _, hext⟩, hvalue'⟩
  distinct {f' f'' g'} hf' hf'' := by
    rcases lookup_cons_cases hf' with ⟨rfl, rfl⟩ | hold'
    · rcases lookup_cons_cases hf'' with ⟨rfl, -⟩ | hold''
      · rfl
      · exact absurd hold'' (hfree f'')
    · rcases lookup_cons_cases hf'' with ⟨rfl, rfl⟩ | hold''
      · exact absurd hold' (hfree f')
      · exact h.distinct hold' hold''

instance (f : FieldId) : Keeps (Session.Later asm) (staticField asm f) where
  run {s g s'} h := by
    rcases staticField_cases h with ⟨-, rfl⟩ | ⟨hnone, d, content, name,
      s₁, m, hd, htype, hadd, rfl⟩
    · exact Std.Refl.refl _
    · have hregistry := irType_registry htype
      have hfirst : Session.Later asm s s₁ :=
        (inferInstance : Keeps (Session.Later asm) (irType asm d.sig)).run htype
      have hglobal : Session.Later asm s₁ { s₁ with module := m } :=
        (inferInstance : Keeps (Session.Later asm) (Lower.build (Build.addGlobal name content))).run
          (Lower.build_eq_ok_iff.mpr ⟨m, hadd, rfl⟩)
      have hlater := IsTrans.trans _ _ _ hfirst hglobal
      obtain ⟨hle, type, zero, hvalue⟩ := Build.addGlobal_spec hadd
      have hnew : s.module.values.size ≤ g.index := Nat.le_trans hfirst.module.values_le hle
      have hunknown : (s₁.registry.staticFields.lookup f).isSome = false := by
        rw [hregistry]
        exact Option.isSome_eq_false_iff.mpr (Option.isNone_iff_eq_none.mpr hnone)
      have hregistry' : s₁.registry.Extends
          { s₁.registry with staticFields := (f, g) :: s₁.registry.staticFields } :=
        ⟨id, lookup_cons_of_new hunknown, id, id, id, id, fun _ h => h, rfl, rfl⟩
      have hsettled := (inferInstance : Settles Session.Extends (irType asm d.sig)).run htype
        hglobal.toExtends
      refine ⟨⟨hlater.module, IsTrans.trans _ _ _ hlater.registry hregistry'⟩, hlater.layouts,
        fun {f' g'} hg' => ?_, hlater.values,
        fun hs => (hlater.statics hs).register hregistry' hd hsettled hvalue fun f' hold => ?_,
        hlater.functions⟩
      · rcases lookup_cons_cases hg' with ⟨-, rfl⟩ | hold
        · exact .inr hnew
        · exact .inl (hregistry ▸ hold)
      · have hold' : s.registry.staticField? f' = some g := hregistry ▸ hold
        obtain ⟨_, _, _, _, _, -, -, hv⟩ := hs.global hold'
        have hlt := (Array.getElem?_eq_some_iff.mp hv).1
        omega

end Primitives

section Operations

instance (ty : TypeDefId) :
    Keeps (Session.Later asm) (Lower.layout (Layouts.structLayout asm ty)) :=
  later_layout inferInstance

instance (table : VTable) :
    Keeps (LayoutCache.Looked asm) (tableStores asm table) := by
  unfold tableStores
  refine Keeps.seq ?_ fun stores => inferInstance
  refine Keeps.composes.filterMapM fun t _ => ?_
  cases t.inst <;> infer_instance

instance (table : VTable) : Keeps (Session.Later asm) (Lower.layout (tableStores asm table)) :=
  later_layout inferInstance

instance (struct : TypeId) (object : ValueId) (stores : List (Nat × ValueId)) :
    Keeps (Module.Evolves Change.Tame) (storeTables struct object stores) := by
  unfold storeTables
  infer_instance

theorem later_addFunction {s : Session} {name : String} {type : TypeId} {linkage : Linkage}
    {f : FunctionId} {m : Module} {r : Registry} {u : Unit}
    (hadd : Build.addFunction name type linkage s.module = .ok f m)
    (hregister : Registering.addFunction name f s.registry = .ok u r) :
    Session.Later asm s { s with module := m, registry := r } := by
  obtain ⟨hnew, rfl⟩ := Registering.addFunction_eq_ok hregister
  have hmade : Session.Later asm s { s with module := m } :=
    (inferInstance : Keeps (Session.Later asm)
      (Lower.build (Build.addFunction name type linkage))).run
        (Lower.build_eq_ok_iff.mpr ⟨m, hadd, rfl⟩)
  have hregistry : s.registry.Extends
      { s.registry with functions := (name, f) :: s.registry.functions } := by
    refine ⟨lookup_cons_of_new ?_, id, id, id, id, id, fun _ h => h, rfl, rfl⟩
    exact Option.isSome_eq_false_iff.mpr (Option.isNone_iff_eq_none.mpr hnew)
  refine ⟨⟨hmade.module, hregistry⟩, hmade.layouts, hmade.fresh, hmade.values, fun hs => ?_,
    fun hs {name' f'} hf' => ?_⟩
  · exact (hmade.statics hs).mono ⟨Std.Refl.refl _, hregistry⟩ rfl fun _ hv => ⟨_, hv⟩
  · by_cases heq : name' = name
    · obtain rfl : f = f' := by simpa [Registry.function?, List.lookup_cons, heq] using hf'
      obtain ⟨rfl, params, value, hfunctions⟩ := Build.addFunction_functions hadd
      simp [hfunctions, heq]
    · have hold : s.registry.function? name' = some f' := by
        simpa [Registry.function?, List.lookup_cons, beq_eq_false_iff_ne.mpr heq] using hf'
      exact hmade.functions hs hold

instance (name : String) (type : TypeId) (linkage : Linkage) (next : FunctionId → Lower α)
    [hnext : ∀ f, Keeps (Session.Later asm) (next f)] : Keeps (Session.Later asm) (do
      let f ← Build.addFunction name type linkage
      Registering.addFunction name f
      next f : Lower α) where
  run h := by
    simp only [bind_eq_ok_iff, Lower.liftM_build, Lower.build_eq_ok_iff, Lower.liftM_register,
      Lower.register_eq_ok_iff] at h
    obtain ⟨f, _, ⟨m, hadd, rfl⟩, _, _, ⟨r, hregister, rfl⟩, h⟩ := h
    exact IsTrans.trans _ _ _ (later_addFunction hadd hregister) ((hnext f).run h)

theorem declareFunction_registered {m : MethodId} {f : FunctionId} {s s' : Session}
    (h : declareFunction asm m s = .ok f s') :
    ∃ name, Names.method asm m = .ok name ∧ s'.registry.function? name = some f := by
  simp only [declareFunction, bind_eq_ok_iff, Lower.liftM_ask, Lower.ask_eq_ok_iff] at h
  obtain ⟨name, t, ⟨hname, -⟩, hthen⟩ := h
  have h := getBind_eq_ok_iff.mp (bind_eq_ok_iff.mpr hthen)
  refine ⟨name, hname, ?_⟩
  cases hfound : t.registry.function? name with
  | some function =>
      simp only [hfound] at h
      obtain ⟨rfl, rfl⟩ := pure_eq_ok_iff.mp h
      exact hfound
  | none =>
      simp only [hfound, bind_eq_ok_iff, Lower.liftM_build, Lower.build_eq_ok_iff,
        Lower.liftM_register, Lower.register_eq_ok_iff, pure_eq_ok_iff] at h
      obtain ⟨d, _, -, type, _, -, f', _, -, _, _, ⟨r, hregister, rfl⟩, rfl, rfl⟩ := h
      obtain ⟨-, rfl⟩ := Registering.addFunction_eq_ok hregister
      simp [Registry.function?]

instance : Emission asm noAddress (Session.Later asm) where
  layout := later_layout
  declareFunction m := by
    unfold declareFunction
    refine Keeps.seq inferInstance fun name => Keeps.seq inferInstance fun s => ?_
    split <;> infer_instance
  newobjFunction _ := newobjFunction_keeps inferInstance inferInstance inferInstance

end Operations

end Lowering

end CilSsa
