import CilSsa.Proofs.Straight
import CilSsa.Proofs.Later

/-!
Stores to static fields, taken apart.

A store becomes the initial value of the global of the field, or it is code of the current block.
-/

namespace CilSsa.Lowering

open CilSsa.Metadata CilSsa.Ssa

theorem later_setInitial (asm : Assembly) {s : Session} {f : FieldId} {g value : ValueId}
    {m : Module} {u : Unit} (hg : s.registry.staticField? f = some g) (hf : f ∉ s.registry.folded)
    (h : Build.setInitializer g value s.module = .ok u m) :
    Session.Later asm s { s with module := m } := by
  rcases Build.setInitializer_cases h with ⟨misuse, rfl, hfits⟩ | ⟨rfl, hfits⟩
  · exact later_of_lasts ⟨Build.evolves_record hfits, fun hv _ => hv⟩
  · have hext : s.Extends { s with module := s.module.apply (.setInitial g value) } :=
      ⟨Module.Evolves.one trivial hfits, Std.Refl.refl _⟩
    refine ⟨hext, Std.Refl.refl _, .inl, fun {i v} hv _ hstatic => ?_, fun hs => ?_,
      fun hs => hs.mono hext rfl⟩
    · refine Module.value_apply (fun heq => hf (hstatic f ?_)) hv
      rw [hg, ← heq]
    · refine hs.mono hext rfl fun {f' g' type name content initial} _ hv => ?_
      by_cases heq : g.index = g'.index
      · exact ⟨value, by simp [Module.apply, Array.getElem?_modify, heq, hv, Value.setInitial]⟩
      · exact ⟨initial, Module.value_apply heq hv⟩

/-- Whether the global of a static field is registered once it was asked for. -/
theorem staticField_registered {asm : Assembly} {s s' : Session} {f : FieldId} {g : ValueId}
    (h : staticField asm f s = .ok g s') : s'.registry.staticField? f = some g := by
  rcases staticField_cases h with ⟨hfound, rfl⟩ | ⟨-, _, _, _, s₁, _, -, -, -, rfl⟩
  · exact hfound
  · simp [Registry.staticField?]

namespace Emit

/-- A store to a static field up to the point where it is known whether there is a constant for
it. -/
structure StaticStore (site : Site) (s : EmitState) where
  field : FieldId
  operand : site.instr.operand = .field field
  element : Element
  rest : EvalStack
  pop : s.stack.pop? = some (element, rest)
  global : ValueId
  registered : Session
  find : staticField site.asm field s.session = .ok global registered
  definition : FieldDef
  definition_eq : site.asm.field field = .ok definition
  type : TypeId
  typed : Session
  irType : irType site.asm definition.sig registered = .ok type typed
  constant : Option ValueId
  module : Module
  initial : (site.method.isStaticConstructor = true ∧
      foldable site.asm definition.sig = .ok true ∧
      constantAs? type element.value typed.module = .ok constant module) ∨
    ((site.method.isStaticConstructor = false ∨ foldable site.asm definition.sig = .ok false) ∧
      constant = none ∧ module = typed.module)

def StaticStore.state {site : Site} {s : EmitState} (store : StaticStore site s) : EmitState :=
  { s with session := { store.typed with module := store.module }, stack := store.rest }

theorem initialConstant?_eq_ok {site : Site} {sig : TypeSig} {type : TypeId} {value : ValueId}
    {constant : Option ValueId} {s s' : EmitState}
    (h : initialConstant? site sig type value s = .ok constant s') :
    ∃ m, s' = { s with session := { s.session with module := m } } ∧
      ((site.method.isStaticConstructor = true ∧ foldable site.asm sig = .ok true ∧
          constantAs? type value s.session.module = .ok constant m) ∨
        ((site.method.isStaticConstructor = false ∨ foldable site.asm sig = .ok false) ∧
          constant = none ∧ m = s.session.module)) := by
  unfold initialConstant? at h
  split at h
  · rename_i hcctor
    simp only [bind_eq_ok_iff, lower_eq_ok_iff, Lower.liftM_ask, Lower.ask_eq_ok_iff] at h
    obtain ⟨folds, t, ⟨_, ⟨hfolds, rfl⟩, hsame⟩, h⟩ := h
    subst t
    cases folds with
    | true =>
        simp only [if_true, lower_eq_ok_iff, Lower.liftM_build, Lower.build_eq_ok_iff] at h
        obtain ⟨_, ⟨m, hconstant, rfl⟩, rfl⟩ := h
        exact ⟨m, rfl, .inl ⟨hcctor, hfolds, hconstant⟩⟩
    | false =>
        obtain ⟨rfl, rfl⟩ := pure_eq_ok_iff.mp h
        exact ⟨_, rfl, .inr ⟨.inr hfolds, rfl, rfl⟩⟩
  · rename_i hcctor
    obtain ⟨rfl, rfl⟩ := pure_eq_ok_iff.mp h
    exact ⟨_, rfl, .inr ⟨.inl (by simpa using hcctor), rfl, rfl⟩⟩

theorem storeStatic_cases {site : Site} {s s' : EmitState} {u : Unit}
    (h : storeStatic site s = .ok u s') :
    ∃ store : StaticStore site s,
      (∃ c m, store.constant = some c ∧ store.field ∉ store.typed.registry.folded ∧
        Build.setInitializer store.global c store.module = .ok () m ∧
        s' = { store.state with session := { store.typed with
          module := m
          registry := { store.typed.registry with
            folded := store.field :: store.typed.registry.folded } } }) ∨
      ((store.constant = none ∨ store.field ∈ store.typed.registry.folded) ∧
        ∃ v m₁ m₂, valueOf site.asm store.type store.element store.module = .ok v m₁ ∧
          Build.store store.global v site.instr.isVolatile m₁ = .ok () m₂ ∧
          s' = { store.state with session := { store.typed with module := m₂ } }) := by
  unfold storeStatic at h
  dsimp only at h
  simp only [bind_eq_ok_iff, lower_eq_ok_iff, pop_eq_ok_iff, liftM_lower, Lower.liftM_ask,
    Lower.ask_eq_ok_iff] at h
  obtain ⟨f, t, hfield, e, _, ⟨rest, hpop, rfl⟩, g, _, ⟨t₁, hfind, rfl⟩,
    d, _, ⟨t', ⟨hd, hsame⟩, rfl⟩, type, _, ⟨t₂, htype, rfl⟩, constant, _, hconstant, h⟩ := h
  subst t'
  obtain ⟨hoperand, hsame⟩ := fieldOperand_eq_ok hfield
  subst t
  obtain ⟨m, rfl, hinitial⟩ := initialConstant?_eq_ok hconstant
  let store : StaticStore site s :=
    { field := f, operand := hoperand, element := e, rest, pop := hpop, global := g,
      registered := t₁, find := hfind, definition := d, definition_eq := hd, type, typed := t₂,
      irType := htype, constant, module := m, initial := hinitial }
  refine ⟨store, ?_⟩
  have hstore {t t' : EmitState} (hrun : (do
      let stored ← lower (valueOf site.asm type e)
      Build.store g stored site.instr.isVolatile : Emit Unit) t = .ok u t') :
      ∃ v m₁ m₂, valueOf site.asm type e t.session.module = .ok v m₁ ∧
        Build.store g v site.instr.isVolatile m₁ = .ok () m₂ ∧
        t' = { t with session := { t.session with module := m₂ } } := by
    simp only [bind_eq_ok_iff, lower_eq_ok_iff, Lower.liftM_build, Lower.build_eq_ok_iff,
      liftM_build] at hrun
    obtain ⟨v, _, ⟨_, ⟨m₁, hvalue, rfl⟩, rfl⟩, _, ⟨m₂, hput, rfl⟩, rfl⟩ := hrun
    exact ⟨v, m₁, m₂, hvalue, hput, rfl⟩
  cases constant with
  | none =>
      simp only [bind_eq_ok_iff, pure_eq_ok_iff] at h
      obtain ⟨folded, t, ⟨rfl, rfl⟩, h⟩ := h
      exact .inr ⟨.inl rfl, hstore (bind_eq_ok_iff.mpr h)⟩
  | some c =>
      simp only [bind_eq_ok_iff, lower_eq_ok_iff, Lower.liftM_register,
        Lower.register_eq_ok_iff] at h
      obtain ⟨folded, _, ⟨_, ⟨r, hfold, rfl⟩, rfl⟩, h⟩ := h
      rcases Registering.foldStatic_eq_ok hfold with ⟨rfl, hmem, rfl⟩ | ⟨rfl, hmem, rfl⟩
      · dsimp only at h
        exact .inr ⟨.inr hmem, hstore h⟩
      · simp only [liftM_build, lower_eq_ok_iff, Lower.build_eq_ok_iff] at h
        obtain ⟨_, ⟨m', hset, rfl⟩, rfl⟩ := h
        exact .inl ⟨c, m', rfl, hmem, hset, rfl⟩

end Emit

end CilSsa.Lowering
