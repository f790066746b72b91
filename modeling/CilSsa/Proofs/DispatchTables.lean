import CilSsa.Proofs.Definitions

/-!
Dispatch tables, as they are made.

A table is a global that starts with a constant: for each slot the function of the method that fills
it, or null for a method without code.  Nothing is stored to it and its initial value stays.
-/

namespace CilSsa

open Ssa Metadata Lowering

namespace Ssa.Module

section Functions

variable {m m' : Module}

/-- Whether every function is a value that leads back to it. -/
def Callable (m : Module) : Prop :=
  ∀ (i : Nat) (f : Function), m.functions[i]? = some f →
    ∃ type, m.values[f.value.index]? = some ⟨type, .function ⟨i⟩⟩

theorem callable_apply {c : Change} (hfits : m.Fits c) (h : m.Callable) : (m.apply c).Callable := by
  have hvalue {v : ValueId} {f : FunctionId}
      (hv : ∃ type, m.values[v.index]? = some ⟨type, .function f⟩) :
      ∃ type, (m.apply c).values[v.index]? = some ⟨type, .function f⟩ := by
    obtain ⟨type, hv⟩ := hv
    obtain ⟨⟨type', kind⟩, hv', ⟨-, hkind⟩⟩ := like_apply (c := c) hv
    cases hkind
    exact ⟨type', hv'⟩
  have hmodified {i : Nat} {f : Function} {j : Nat} {g : Function → Function}
      (hg : ∀ f, (g f).value = f.value) (hf : (m.functions.modify j g)[i]? = some f) :
      ∃ f₀, m.functions[i]? = some f₀ ∧ f₀.value = f.value := by
    rw [Array.getElem?_modify] at hf
    split at hf
    · obtain ⟨f₀, hf₀, rfl⟩ := Option.map_eq_some_iff.mp hf
      exact ⟨f₀, hf₀, (hg f₀).symm⟩
    · exact ⟨f, hf, rfl⟩
  intro i f hf
  have hold : (∃ f₀, m.functions[i]? = some f₀ ∧ f₀.value = f.value) →
      ∃ type, (m.apply c).values[f.value.index]? = some ⟨type, .function ⟨i⟩⟩ := by
    rintro ⟨f₀, hf₀, hsame⟩
    exact hvalue (hsame ▸ h i f₀ hf₀)
  cases c with
  | addFunction added =>
      by_cases hi : i = m.functions.size
      · subst hi
        obtain rfl : added = f := by simpa [apply] using hf
        exact hvalue hfits.2
      · exact hold ⟨f, by simpa [apply, Array.getElem?_push, hi] using hf, rfl⟩
  | setLinkage id linkage =>
      exact hold (hmodified (g := fun f => { f with linkage }) (fun _ => rfl) hf)
  | addBlock function name =>
      exact hold (hmodified (g := fun f => { f with blocks := f.blocks ++ [⟨m.blocks.size⟩] })
        (fun _ => rfl) hf)
  | keepBlocks function kept =>
      exact hold (hmodified (g := fun f => { f with blocks := f.blocks.filter (· ∈ kept) })
        (fun _ => rfl) hf)
  | addInst block type inst => cases block <;> exact hold ⟨f, hf, rfl⟩
  | _ => exact hold ⟨f, hf, rfl⟩

theorem Evolves.callable {P : Change → Prop} (h : m.Evolves P m') (hm : m.Callable) :
    m'.Callable :=
  h.preserves (fun _ _ _ hfits hm => callable_apply hfits hm) hm

end Functions

section Tables

variable {m : Module} {g : ValueId} {items : List ValueId}

/-- The entries of the constant that a global starts with. -/
def table? (m : Module) (g : ValueId) : Option (List ValueId) :=
  match m.values[g.index]? with
  | some ⟨_, .global _ _ initial⟩ =>
      match m.values[initial.index]? with
      | some ⟨_, .constAggregate items⟩ => some items
      | _ => none
  | _ => none

theorem table?_eq_some_iff : m.table? g = some items ↔ ∃ type name content initial type',
    m.values[g.index]? = some ⟨type, .global name content initial⟩ ∧
      m.values[initial.index]? = some ⟨type', .constAggregate items⟩ := by
  unfold table?
  split
  · rename_i type name content initial hg
    split
    · rename_i type' items' hitems
      constructor
      · intro h
        cases h
        exact ⟨type, name, content, initial, type', hg, hitems⟩
      · rintro ⟨_, _, _, _, _, hg', hitems'⟩
        cases hg.symm.trans hg'
        cases hitems.symm.trans hitems'
        rfl
    · rename_i hnone
      simp only [reduceCtorEq, false_iff, not_exists, not_and]
      intro _ _ _ _ type' hg' hitems'
      cases hg.symm.trans hg'
      exact hnone type' items hitems'
  · rename_i hnone
    simp only [reduceCtorEq, false_iff, not_exists, not_and]
    intro type name content initial _ hg'
    exact absurd hg' (hnone type name content initial)

end Tables

end Ssa.Module

namespace Lowering

variable {asm : Assembly} {s s' t : Session}

section Lasting

/-- Whether a value is the storage of a static field. -/
def Session.IsStatic (s : Session) (v : ValueId) : Prop :=
  ∃ f, s.registry.staticField? f = some v

/-- What is no global is not the storage of a static field. -/
theorem Session.StaticsSound.not_isStatic {v : ValueId} {value : Value} (h : s.StaticsSound asm)
    (hv : s.module.values[v.index]? = some value)
    (hkind : ∀ name content initial, value.kind ≠ .global name content initial) :
    ¬ s.IsStatic v := by
  rintro ⟨f, hf⟩
  obtain ⟨_, type, name, content, initial, -, -, hglobal⟩ := h.global hf
  obtain rfl := Option.some.inj (hv.symm.trans hglobal)
  exact hkind name content initial rfl

theorem Session.Later.not_isStatic {v : ValueId} (h : Session.Later asm s s')
    (hlt : v.index < s.module.values.size) (hv : ¬ s.IsStatic v) : ¬ s'.IsStatic v := by
  rintro ⟨f, hf⟩
  rcases h.fresh hf with hold | hnew
  · exact hv ⟨f, hold⟩
  · exact absurd hlt (Nat.not_lt.mpr hnew)

/-- A value that is neither a phi nor the storage of a static field stays as it is. -/
theorem Session.Later.value {v : ValueId} {value : Value} (h : Session.Later asm s s')
    (hv : s.module.values[v.index]? = some value) (hphi : value.inst?.map Inst.isPhi ≠ some true)
    (hstatic : ¬ s.IsStatic v) : s'.module.values[v.index]? = some value :=
  h.values hv hphi fun f hf => absurd ⟨f, hf⟩ hstatic

/-- Tables stay as they are. -/
theorem Session.Later.table? {g : ValueId} {items : List ValueId} (h : Session.Later asm s s')
    (hstatics : s.StaticsSound asm) (hg : s.module.table? g = some items)
    (hstatic : ¬ s.IsStatic g) :
    s'.module.table? g = some items := by
  obtain ⟨type, name, content, initial, type', hglobal, hitems⟩ := Module.table?_eq_some_iff.mp hg
  refine Module.table?_eq_some_iff.mpr ⟨type, name, content, initial, type', ?_, ?_⟩
  · exact h.value hglobal (by simp [Value.inst?]) hstatic
  · exact h.value hitems (by simp [Value.inst?]) (hstatics.not_isStatic hitems (by simp))

end Lasting

section Constants

variable {type : TypeId} {g initial : ValueId}

theorem constant_spec {name : Except Fault String} {kind : ValueKind}
    (hinitial : s.module.values[initial.index]? = some ⟨type, kind⟩)
    (hkind : kind.isConstant = true)
    (h : (do
      let global ← Build.addGlobal (← name) type
      Build.setInitializer global initial
      return global : Lower ValueId) s = .ok g s') :
    s.module.values.size ≤ g.index ∧ s'.registry = s.registry ∧ ∃ type' name,
      s'.module.values[g.index]? = some ⟨type', .global name type initial⟩ ∧
      s'.module.values[initial.index]? = some ⟨type, kind⟩ := by
  simp only [bind_eq_ok_iff, Lower.liftM_ask, Lower.ask_eq_ok_iff, Lower.liftM_build,
    Lower.build_eq_ok_iff, pure_eq_ok_iff] at h
  obtain ⟨name, t, ⟨-, hsame⟩, global, _, ⟨m₁, hadd, rfl⟩, _, _, ⟨m₂, hset, rfl⟩, rfl, rfl⟩ := h
  subst t
  obtain ⟨hnew, type', zero, hglobal⟩ := Build.addGlobal_spec hadd
  have hphi : (Value.mk type kind).inst?.map Inst.isPhi ≠ some true := by
    cases kind <;> simp_all [Value.inst?, ValueKind.isConstant]
  have hinitial₁ : m₁.values[initial.index]? = some ⟨type, kind⟩ :=
    ((inferInstance : Keeps Module.Lasts (Build.addGlobal name type)).run hadd).values hinitial hphi
  have hne : g.index ≠ initial.index := by
    have hlt := (Array.getElem?_eq_some_iff.mp hinitial).1
    omega
  have htype : m₁.typeOf initial = .ok type := by
    rw [Module.typeOf, Module.value, Arena.entry_eq_ok_iff.mpr hinitial₁]
    rfl
  have hconstant : m₁.isConstant initial = .ok true := by
    rw [Module.isConstant, Module.value, Arena.entry_eq_ok_iff.mpr hinitial₁, ← hkind]
    rfl
  have hvalue : m₁.value g = .ok ⟨type', .global name type zero⟩ :=
    Arena.entry_eq_ok_iff.mpr hglobal
  rw [Build.setInitializer, Build.query_bind htype, Build.query_bind hconstant,
    Build.query_bind hvalue] at hset
  simp only [ne_eq, not_true_eq_false, decide_false, Bool.not_true, Bool.or_self,
    Bool.false_eq_true, if_false] at hset
  obtain rfl := modify_eq_ok_iff.mp hset
  refine ⟨hnew, rfl, type', name, ?_, ?_⟩
  · simp [Array.getElem?_modify, hglobal]
  · simp [Array.getElem?_modify, hne, hinitial₁]

end Constants

section Slots

variable {cls : TypeDefId} {slot : MethodId} {v : ValueId}

/-- Whether a value fills a slot for objects of a class: it is the function of the method that
implements the slot, or null if this method is abstract and has no code. -/
inductive Fills (asm : Assembly) (s : Session) (cls : TypeDefId) (slot : MethodId) (v : ValueId) :
    Prop where
  | function {m : MethodId} {d : MethodDef} {name : String} {f : FunctionId} {type : TypeId}
      (implements : asm.implementation cls slot = .ok (some m)) (method : asm.method m = .ok d)
      (coded : (d.isAbstract && d.body.isNone) = false) (named : Names.method asm m = .ok name)
      (registered : s.registry.function? name = some f)
      (value : s.module.values[v.index]? = some ⟨type, .function f⟩)
  | null {m : MethodId} {d : MethodDef} {type : TypeId}
      (implements : asm.implementation cls slot = .ok (some m)) (method : asm.method m = .ok d)
      (uncoded : (d.isAbstract && d.body.isNone) = true)
      (value : s.module.values[v.index]? = some ⟨type, .constNull⟩)

theorem Fills.later (h : Fills asm s cls slot v) (hlater : Session.Later asm s s')
    (hstatics : s.StaticsSound asm) : Fills asm s' cls slot v := by
  cases h with
  | function himplements hmethod hcoded hnamed hregistered hvalue =>
      have hkept := hlater.value hvalue (by simp [Value.inst?])
        (hstatics.not_isStatic hvalue (by simp))
      exact .function himplements hmethod hcoded hnamed
        (hlater.registry.functions hregistered) hkept
  | null himplements hmethod huncoded hvalue =>
      have hkept := hlater.value hvalue (by simp [Value.inst?])
        (hstatics.not_isStatic hvalue (by simp))
      exact .null himplements hmethod huncoded hkept

theorem slotValue_fills (hcallable : s.module.Callable) (h : slotValue asm cls slot s = .ok v s') :
    Fills asm s' cls slot v := by
  simp only [slotValue, bind_eq_ok_iff, Lower.liftM_ask, Lower.ask_eq_ok_iff] at h
  obtain ⟨implementation, t, ⟨himplements, hsame⟩, h⟩ := h
  subst t
  cases implementation with
  | none => simp at h
  | some m =>
      simp only [bind_eq_ok_iff, Lower.ask_eq_ok_iff] at h
      obtain ⟨d, t, ⟨hmethod, hsame⟩, h⟩ := h
      subst t
      split at h
      · rename_i huncoded
        obtain ⟨type, s₁, -, hnull⟩ := bind_eq_ok_iff.mp h
        obtain ⟨m', hbuild, rfl⟩ := Lower.build_eq_ok_iff.mp hnull
        cases hbuild
        have hnull : (s₁.module.pushValue ⟨type, .constNull⟩).values[s₁.module.values.size]? =
            some ⟨type, .constNull⟩ := by simp [Module.pushValue]
        exact .null himplements hmethod huncoded hnull
      · rename_i hcoded
        obtain ⟨f, s₁, hdeclare, hvalue⟩ := bind_eq_ok_iff.mp h
        obtain ⟨name, hnamed, hregistered⟩ := declareFunction_registered hdeclare
        have hcallable₁ : s₁.module.Callable :=
          ((inferInstance : Keeps Session.Evolves (declareFunction asm m)).run hdeclare).callable
            hcallable
        simp only [Lower.liftM_build, Lower.build_eq_ok_iff, Build.functionValue, bind_eq_ok_iff,
          Build.query_eq_ok_iff, Module.function, Arena.entry_eq_ok_iff, pure_eq_ok_iff] at hvalue
        obtain ⟨m₁, ⟨function, _, ⟨hfunction, rfl⟩, rfl, rfl⟩, rfl⟩ := hvalue
        obtain ⟨type, hkind⟩ := hcallable₁ _ _ hfunction
        exact .function himplements hmethod (Bool.eq_false_iff.mpr hcoded) hnamed hregistered hkind

end Slots

section Instances

variable {cls : TypeDefId} {slots : List MethodId} {g : ValueId}

/-- What is known of a state while tables are made. -/
structure Session.Tidy (asm : Assembly) (s : Session) : Prop where
  callable : s.module.Callable
  statics : s.StaticsSound asm

theorem Session.Tidy.later (h : s.Tidy asm) (hlater : Session.Later asm s s') : s'.Tidy asm :=
  ⟨hlater.module.callable h.callable, hlater.statics h.statics⟩

/-- A table of a class for some slots. -/
structure TableFor (asm : Assembly) (s : Session) (cls : TypeDefId) (slots : List MethodId)
    (g : ValueId) : Prop where
  /-- No static field is stored there. -/
  storage : ¬ s.IsStatic g
  entries : ∃ items, s.module.table? g = some items ∧ List.Forall₂ (Fills asm s cls) slots items

theorem lt_of_table? {m : Module} {items : List ValueId} (h : m.table? g = some items) :
    g.index < m.values.size := by
  obtain ⟨_, _, _, _, _, hglobal, -⟩ := Module.table?_eq_some_iff.mp h
  exact (Array.getElem?_eq_some_iff.mp hglobal).1

theorem TableFor.later (h : TableFor asm s cls slots g) (hlater : Session.Later asm s s')
    (hstatics : s.StaticsSound asm) : TableFor asm s' cls slots g := by
  obtain ⟨items, htable, hfills⟩ := h.entries
  exact ⟨hlater.not_isStatic (lt_of_table? htable) h.storage, items,
    hlater.table? hstatics htable h.storage, hfills.imp fun _ _ hfill =>
    hfill.later hlater hstatics⟩

theorem constant_table {type : TypeId} {initial : ValueId} {items : List ValueId}
    {name : Except Fault String} (hs : s.Tidy asm)
    (hinitial : s.module.values[initial.index]? = some ⟨type, .constAggregate items⟩)
    (h : (do
      let global ← Build.addGlobal (← name) type
      Build.setInitializer global initial
      return global : Lower ValueId) s = .ok g s') :
    ¬ s'.IsStatic g ∧ s'.module.table? g = some items := by
  obtain ⟨hnew, hregistry, type', name, hglobal, hinitial'⟩ := constant_spec hinitial rfl h
  refine ⟨?_, Module.table?_eq_some_iff.mpr ⟨type', name, type, initial, type, hglobal, hinitial'⟩⟩
  rintro ⟨f, hf⟩
  rw [hregistry] at hf
  obtain ⟨_, _, _, _, _, -, -, hold⟩ := hs.statics.global hf
  have hlt := (Array.getElem?_eq_some_iff.mp hold).1
  omega

theorem constStruct_spec {type : TypeId} {items : List ValueId} {v : ValueId} {m m' : Module}
    (h : Build.constStruct type items m = .ok v m') :
    m'.values[v.index]? = some ⟨type, .constAggregate items⟩ := by
  have hpush {m₁ : Module} (h : Build.pushValue type (.constAggregate items) m₁ = .ok v m') :
      m'.values[v.index]? = some ⟨type, .constAggregate items⟩ := by
    cases h
    simp
  simp only [Build.constStruct, bind_eq_ok_iff] at h
  obtain ⟨body, m₁, -, h⟩ := h
  cases body with
  | none => exact hpush h
  | some body =>
      dsimp only at h
      split at h
      · obtain ⟨_, m₂, -, h⟩ := bind_eq_ok_iff.mp h
        exact hpush h
      · exact hpush h

theorem tableInstance_spec {name : Except Fault String} {type : TypeId} (hs : s.Tidy asm)
    (h : tableInstance asm cls name type slots s = .ok g s') : TableFor asm s' cls slots g := by
  obtain ⟨items, s₁, hitems, h⟩ := bind_eq_ok_iff.mp h
  have hfills : List.Forall₂ (Fills asm s₁ cls) slots items := by
    refine Keeps.forall₂_of_mapM (R := Session.Later asm) (P := fun s => Fills asm s cls)
      (fun _ => inferInstance) (Std.Refl.refl s) ?_ ?_ hitems
    · intro slot v t t' hlater hrun
      exact slotValue_fills (hs.later hlater).callable hrun
    · intro slot v t t' hlater hrest hfill
      exact hfill.later hrest (hs.later hlater).statics
  have hlater : Session.Later asm s s₁ :=
    (inferInstance : Keeps (Session.Later asm) (slots.mapM (slotValue asm cls))).run hitems
  obtain ⟨initial, s₂, hinitial, h⟩ := bind_eq_ok_iff.mp h
  have hlater' : Session.Later asm s₁ s₂ :=
    (inferInstance : Keeps (Session.Later asm) (Lower.build (Build.constStruct type items))).run
      hinitial
  obtain ⟨m, hbuild, rfl⟩ := Lower.build_eq_ok_iff.mp hinitial
  have hs₂ := hs.later (IsTrans.trans _ _ _ hlater hlater')
  obtain ⟨hstorage, htable⟩ := constant_table hs₂ (constStruct_spec hbuild) h
  have hlast : Session.Later asm _ s' :=
    ((inferInstance : Defining asm (Session.Later asm)).constant name type initial).run h
  refine ⟨hstorage, items, htable, hfills.imp fun slot v hfill => ?_⟩
  exact (hfill.later hlater' (hs.later hlater).statics).later hlast hs₂.statics

end Instances

section Indirection

variable {tables : List InterfaceTable} {index : Nat} {v g : ValueId}

def EntryAt (s : Session) (tables : List InterfaceTable) (index : Nat) (v : ValueId) : Prop :=
  match tables.find? fun t => t.index = index with
  | some table => v = table.inst
  | none => ∃ type, s.module.values[v.index]? = some ⟨type, .constNull⟩

theorem EntryAt.later (h : EntryAt s tables index v) (hlater : Session.Later asm s s')
    (hstatics : s.StaticsSound asm) : EntryAt s' tables index v := by
  unfold EntryAt at h ⊢
  split
  · rename_i table hfound
    rw [hfound] at h
    exact h
  · rename_i hnone
    rw [hnone] at h
    obtain ⟨type, hv⟩ := h
    exact ⟨type, hlater.value hv (by simp [Value.inst?]) (hstatics.not_isStatic hv (by simp))⟩

structure IndirectionFor (s : Session) (tables : List InterfaceTable) (g : ValueId) : Prop where
  /-- No static field is stored there. -/
  storage : ¬ s.IsStatic g
  entries : ∃ items, s.module.table? g = some items ∧
    List.Forall₂ (EntryAt s tables) (List.range s.registry.interfaceCount) items

theorem IndirectionFor.later (h : IndirectionFor s tables g) (hlater : Session.Later asm s s')
    (hstatics : s.StaticsSound asm) : IndirectionFor s' tables g := by
  obtain ⟨items, htable, hentries⟩ := h.entries
  refine ⟨hlater.not_isStatic (lt_of_table? htable) h.storage, items,
    hlater.table? hstatics htable h.storage, ?_⟩
  rw [Registry.interfaceCount, hlater.registry.interfaces]
  exact hentries.imp fun _ _ hentry => hentry.later hlater hstatics

theorem indirectionEntry_spec {pointer : TypeId}
    (h : Lower.build (indirectionEntry pointer tables index) s = .ok v s') :
    EntryAt s' tables index v := by
  obtain ⟨m, hbuild, rfl⟩ := Lower.build_eq_ok_iff.mp h
  unfold indirectionEntry at hbuild
  unfold EntryAt
  split
  · rename_i table hfound
    simp only [hfound] at hbuild
    exact (pure_eq_ok_iff.mp hbuild).1
  · rename_i hnone
    simp only [hnone] at hbuild
    cases hbuild
    exact ⟨pointer, by simp⟩

theorem constArray_spec {element type : TypeId} {items : List ValueId} {m m₁ m' : Module}
    (htype : Build.arrayType element items.length m = .ok type m₁)
    (h : Build.constArray element items m₁ = .ok v m') :
    m'.values[v.index]? = some ⟨type, .constAggregate items⟩ := by
  have hmade : Lower.build (Build.arrayType element items.length) { module := m } =
      .ok type { module := m₁ } := Lower.build_eq_ok_iff.mpr ⟨m₁, htype, rfl⟩
  have hsettles : Settles Session.Extends (Lower.build (Build.arrayType element items.length)) :=
    intern_settles rfl
  obtain ⟨m₂, hagain, hsame⟩ := Lower.build_eq_ok_iff.mp (hsettles.run hmade (Std.Refl.refl _))
  obtain rfl : m₁ = m₂ := congrArg Session.module hsame
  obtain ⟨_, _, hagain', hpush⟩ := bind_eq_ok_iff.mp h
  cases hagain.symm.trans hagain'
  cases hpush
  simp

theorem indirectionTable_spec {cls : TypeDefId} (hs : s.Tidy asm)
    (h : indirectionTable asm cls tables s = .ok g s') : IndirectionFor s' tables g := by
  obtain ⟨pointer, s₁, hpointer, h⟩ := bind_eq_ok_iff.mp h
  rw [getBind_eq_ok_iff] at h
  obtain ⟨items, s₂, hitems, h⟩ := bind_eq_ok_iff.mp h
  obtain ⟨type, s₃, htype, h⟩ := bind_eq_ok_iff.mp h
  obtain ⟨initial, s₄, hinitial, h⟩ := bind_eq_ok_iff.mp h
  have hlater₁ : Session.Later asm s s₁ :=
    (inferInstance : Keeps _ (Lower.build Build.genericPointer)).run hpointer
  have hentries : List.Forall₂ (EntryAt s₂ tables) (List.range s₁.registry.interfaceCount) items :=
    Keeps.forall₂_of_mapM (R := Session.Later asm) (P := fun s => EntryAt s tables)
      (fun _ => inferInstance) hlater₁ (fun _ hrun => indirectionEntry_spec hrun)
      (fun hlater hrest hentry => hentry.later hrest (hs.later hlater).statics) hitems
  have hlater₂ : Session.Later asm s s₂ := IsTrans.trans _ _ _ hlater₁
    ((inferInstance : Keeps (Session.Later asm) ((List.range s₁.registry.interfaceCount).mapM
      fun index => Lower.build (indirectionEntry pointer tables index))).run hitems)
  have hlater₃ : Session.Later asm s₂ s₃ :=
    (inferInstance : Keeps _ (Lower.build (Build.arrayType pointer _))).run htype
  have hlater₄ : Session.Later asm s₃ s₄ :=
    (inferInstance : Keeps _ (Lower.build (Build.constArray pointer items))).run hinitial
  have hlater : Session.Later asm s₂ s₄ := IsTrans.trans _ _ _ hlater₃ hlater₄
  have hs₄ := hs.later (IsTrans.trans _ _ _ hlater₂ hlater)
  have hconstant : s₄.module.values[initial.index]? = some ⟨type, .constAggregate items⟩ := by
    obtain ⟨m₃, harray, hs₃⟩ := Lower.build_eq_ok_iff.mp htype
    obtain ⟨m₄, hbuild, hs₄⟩ := Lower.build_eq_ok_iff.mp hinitial
    have hlength : items.length = s₁.registry.interfaceCount := by
      simpa using hentries.length_eq.symm
    rw [← hlength] at harray
    rw [hs₄]
    rw [hs₃] at hbuild
    exact constArray_spec harray hbuild
  obtain ⟨hstorage, htable⟩ := constant_table hs₄ hconstant h
  have hlast : Session.Later asm s₄ s' :=
    ((inferInstance : Defining asm (Session.Later asm)).constant
      (Names.indirectionTable asm cls) type initial).run h
  have hcount : s'.registry.interfaceCount = s₁.registry.interfaceCount := by
    have hitems' : Session.Later asm s₁ s₂ :=
      (inferInstance : Keeps (Session.Later asm) ((List.range s₁.registry.interfaceCount).mapM
        fun index => Lower.build (indirectionEntry pointer tables index))).run hitems
    rw [Registry.interfaceCount, hlast.registry.interfaces, hlater.registry.interfaces,
      hitems'.registry.interfaces, Registry.interfaceCount]
  refine ⟨hstorage, items, htable, hcount ▸ hentries.imp fun index v hentry => ?_⟩
  exact (hentry.later hlater (hs.later hlater₂).statics).later hlast hs₄.statics

end Indirection

section Classes

variable {cls : TypeDefId} {table : VTable}

/-- The table of the slots that a type introduces, for objects of a class. -/
structure OwnTable (asm : Assembly) (s : Session) (cls owner : TypeDefId) (t : SlotTable) :
    Prop where
  owner_eq : t.owner = owner
  slots : asm.introducedSlots owner = .ok t.slots
  inst : ∃ g, t.inst = some g ∧ TableFor asm s cls t.slots g

/-- The table of an interface, for objects of a class. -/
structure TableOfInterface (asm : Assembly) (s : Session) (cls iface : TypeDefId)
    (t : InterfaceTable) : Prop where
  interface_eq : t.interface = iface
  index : s.registry.interfaces.idxOf? iface = some t.index
  inst : ∃ slots, asm.introducedSlots iface = .ok slots ∧ TableFor asm s cls slots t.inst

structure ClassTables (asm : Assembly) (s : Session) (cls : TypeDefId) (table : VTable) : Prop where
  tables : ∃ owners, slotOwners asm cls = .ok owners ∧
    List.Forall₂ (OwnTable asm s cls) owners table.tables
  interfaces : ∃ ifaces, asm.allInterfaces cls = .ok ifaces ∧
    List.Forall₂ (TableOfInterface asm s cls) ifaces table.interfaces
  indirection : table.interfaces ≠ [] →
    ∃ g, table.indirection = some g ∧ IndirectionFor s table.interfaces g

theorem OwnTable.later {owner : TypeDefId} {t : SlotTable} (h : OwnTable asm s cls owner t)
    (hlater : Session.Later asm s s') (hstatics : s.StaticsSound asm) :
    OwnTable asm s' cls owner t := by
  obtain ⟨g, hinst, htable⟩ := h.inst
  exact ⟨h.owner_eq, h.slots, g, hinst, htable.later hlater hstatics⟩

theorem TableOfInterface.later {iface : TypeDefId} {t : InterfaceTable}
    (h : TableOfInterface asm s cls iface t) (hlater : Session.Later asm s s')
    (hstatics : s.StaticsSound asm) : TableOfInterface asm s' cls iface t := by
  obtain ⟨slots, hslots, htable⟩ := h.inst
  exact ⟨h.interface_eq, hlater.registry.interfaces ▸ h.index, slots, hslots,
    htable.later hlater hstatics⟩

theorem ClassTables.later (h : ClassTables asm s cls table) (hlater : Session.Later asm s s')
    (hstatics : s.StaticsSound asm) : ClassTables asm s' cls table := by
  obtain ⟨owners, howners, htables⟩ := h.tables
  obtain ⟨ifaces, hifaces, hinterfaces⟩ := h.interfaces
  refine ⟨⟨owners, howners, htables.imp fun _ _ ht => ht.later hlater hstatics⟩,
    ⟨ifaces, hifaces, hinterfaces.imp fun _ _ ht => ht.later hlater hstatics⟩, fun hne => ?_⟩
  obtain ⟨g, hg, hentries⟩ := h.indirection hne
  exact ⟨g, hg, hentries.later hlater hstatics⟩

theorem classTable_spec {owner : TypeDefId} {t : SlotTable} (hs : s.Tidy asm)
    (h : classTable asm cls owner s = .ok t s') : OwnTable asm s' cls owner t := by
  simp only [classTable, bind_eq_ok_iff, Lower.liftM_ask, Lower.ask_eq_ok_iff, pure_eq_ok_iff] at h
  obtain ⟨type, s₁, htype, slots, t, ⟨hslots, hsame⟩, g, s₂, hinst, rfl, rfl⟩ := h
  subst t
  have hlater : Session.Later asm s s₁ :=
    (inferInstance : Keeps _ (slotTableType asm owner)).run htype
  exact ⟨rfl, hslots, g, rfl, tableInstance_spec (hs.later hlater) hinst⟩

theorem interfaceTable_spec {iface : TypeDefId} {t : InterfaceTable} (hs : s.Tidy asm)
    (h : interfaceTable asm cls iface s = .ok t s') : TableOfInterface asm s' cls iface t := by
  simp only [interfaceTable, bind_eq_ok_iff, Lower.liftM_ask, Lower.ask_eq_ok_iff,
    Lower.consult_eq_ok_iff, pure_eq_ok_iff] at h
  obtain ⟨type, s₁, htype, slots, t, ⟨hslots, hsame⟩, g, s₂, hinst, index, _, ⟨hindex, rfl⟩,
    rfl, rfl⟩ := h
  subst t
  have hlater : Session.Later asm s s₁ :=
    (inferInstance : Keeps _ (slotTableType asm iface)).run htype
  exact ⟨rfl, Registry.found_eq_ok_iff.mp hindex, slots, hslots,
    tableInstance_spec (hs.later hlater) hinst⟩

theorem classVTable_spec (hs : s.Tidy asm) (h : classVTable asm cls s = .ok table s') :
    ClassTables asm s' cls table := by
  simp only [classVTable, bind_eq_ok_iff, Lower.liftM_ask, Lower.ask_eq_ok_iff] at h
  obtain ⟨owners, t, ⟨howners, hsame⟩, tables, s₁, htables, ifaces, t',
    ⟨hifaces, hsame'⟩, interfaces, s₂, hinterfaces, h⟩ := h
  subst t t'
  have hlater₁ : Session.Later asm s s₁ :=
    (inferInstance : Keeps (Session.Later asm) (owners.mapM (classTable asm cls))).run htables
  have hlater₂ : Session.Later asm s₁ s₂ :=
    (inferInstance : Keeps (Session.Later asm) (ifaces.mapM (interfaceTable asm cls))).run
      hinterfaces
  have hs₁ := hs.later hlater₁
  have hs₂ := hs₁.later hlater₂
  have htables' : List.Forall₂ (OwnTable asm s₁ cls) owners tables :=
    Keeps.forall₂_of_mapM (R := Session.Later asm) (P := fun s => OwnTable asm s cls)
      (fun _ => inferInstance) (Std.Refl.refl s)
      (fun hlater hrun => classTable_spec (hs.later hlater) hrun)
      (fun hlater hrest ht => ht.later hrest (hs.later hlater).statics) htables
  have hinterfaces' : List.Forall₂ (TableOfInterface asm s₂ cls) ifaces interfaces :=
    Keeps.forall₂_of_mapM (R := Session.Later asm) (P := fun s => TableOfInterface asm s cls)
      (fun _ => inferInstance) (Std.Refl.refl s₁)
      (fun hlater hrun => interfaceTable_spec (hs₁.later hlater) hrun)
      (fun hlater hrest ht => ht.later hrest (hs₁.later hlater).statics) hinterfaces
  split at h
  · rename_i hempty
    obtain ⟨rfl, rfl⟩ := pure_eq_ok_iff.mp h
    refine ⟨⟨owners, howners, htables'.imp fun _ _ ht => ht.later hlater₂ hs₁.statics⟩,
      ⟨ifaces, hifaces, hinterfaces'⟩, fun hne => absurd (List.isEmpty_iff.mp hempty) hne⟩
  · simp only [bind_eq_ok_iff, map_eq_ok_iff, pure_eq_ok_iff] at h
    obtain ⟨_, _, ⟨g, hindirection, rfl⟩, rfl, rfl⟩ := h
    have hlater₃ : Session.Later asm s₂ s' :=
      (inferInstance : Keeps _ (indirectionTable asm cls interfaces)).run hindirection
    have hlater := IsTrans.trans _ _ _ hlater₂ hlater₃
    refine ⟨⟨owners, howners, htables'.imp fun _ _ ht => ht.later hlater hs₁.statics⟩,
      ⟨ifaces, hifaces, hinterfaces'.imp fun _ _ ht => ht.later hlater₃ hs₂.statics⟩,
      fun _ => ⟨g, rfl, indirectionTable_spec hs₂ hindirection⟩⟩

end Classes

section Types

variable {ty : TypeDefId} {d : TypeDef} {u : Unit}

/-- A search finds something if there is something to be found. -/
theorem findSomeM?_isSome {α β : Type} {p : α → Option β} {items : List α} {a : α} {b : Option β}
    (ha : a ∈ items) (hp : (p a).isSome = true)
    (h : items.findSomeM? (fun a => (pure (p a) : Except Fault (Option β))) = .ok b) :
    b.isSome = true := by
  induction items with
  | nil => simp at ha
  | cons first rest ih =>
      rw [List.findSomeM?_cons, exceptBind_eq_ok_iff] at h
      obtain ⟨found, hfound, h⟩ := h
      obtain rfl := exceptPure_eq_ok_iff.mp hfound
      cases hfirst : p first with
      | some b' =>
          simp only [hfirst] at h
          obtain rfl := exceptPure_eq_ok_iff.mp h
          rfl
      | none =>
          simp only [hfirst] at h
          rcases List.mem_cons.mp ha with rfl | ha
          · simp [hfirst] at hp
          · exact ih ha h

/-- A class needs tables if it or a base is marked. -/
theorem needsVirtualCall_of_mem {r : Registry} {chain : BaseChain} {owner : TypeDefId}
    {needs : Bool} (hchain : asm.selfAndAncestors ty = .ok chain) (hmem : owner ∈ chain.types)
    (hmarked : owner ∈ r.virtualOwners) (h : r.needsVirtualCall asm ty = .ok needs) :
    needs = true := by
  simp only [Registry.needsVirtualCall, hchain, exceptBind_eq_ok_iff, Except.ok.injEq,
    BaseChain.findSome, exceptPure_eq_ok_iff] at h
  obtain ⟨_, rfl, hit, ⟨found, hfound, hhit⟩, rfl⟩ := h
  have hsome : found.isSome = true :=
    findSomeM?_isSome (p := fun t => if t ∈ r.virtualOwners then some t else none) hmem
      (by simp [hmarked]) hfound
  obtain ⟨t, rfl⟩ := Option.isSome_iff_exists.mp hsome
  obtain rfl := exceptPure_eq_ok_iff.mp hhit
  rfl

/-- Why a class has dispatch tables: a slot of it or of a base is called, or it has interfaces. -/
def Dispatches (asm : Assembly) (s : Session) (ty : TypeDefId) : Prop :=
  (∃ chain owner, asm.selfAndAncestors ty = .ok chain ∧ owner ∈ chain.types ∧
    owner ∈ s.registry.virtualOwners) ∨
  ∃ ifaces, asm.allInterfaces ty = .ok ifaces ∧ ifaces ≠ []

theorem requiresVTable_of_dispatches {dispatch : Bool} (hkind : d.kind = .classType)
    (h : requiresVTable asm ty d s = .ok dispatch s') (hneeds : Dispatches asm s ty) :
    dispatch = true := by
  simp only [requiresVTable, hkind, if_true, bind_eq_ok_iff, get_eq_ok_iff, Lower.liftM_ask,
    Lower.ask_eq_ok_iff] at h
  obtain ⟨_, _, ⟨rfl, rfl⟩, needs, _, ⟨hcalled, rfl⟩, h⟩ := h
  cases needs with
  | true =>
      simp only [if_true] at h
      exact (pure_eq_ok_iff.mp h).1
  | false =>
      rcases hneeds with ⟨chain, owner, hchain, hmem, hmarked⟩ | ⟨ifaces, hifaces, hne⟩
      · exact absurd (needsVirtualCall_of_mem hchain hmem hmarked hcalled) (by simp)
      · simp only [Bool.false_eq_true, if_false, bind_eq_ok_iff, Lower.ask_eq_ok_iff, hifaces,
          Except.ok.injEq, pure_eq_ok_iff] at h
        obtain ⟨_, _, ⟨rfl, rfl⟩, rfl, rfl⟩ := h
        simpa using hne

variable {start : Session}

/-- A class that needs them gets dispatch tables when it is defined. -/
theorem class_table_made (hstart : Declared asm start)
    (hcompile : compileTypes asm start = .ok u s') (hd : asm.typeDef ty = .ok d)
    (hkind : d.kind = .classType) (hroot : Assembly.isRoot ty = false)
    (hneeds : Dispatches asm start ty) :
    ∃ asked made table, Session.Later asm start asked ∧ classVTable asm ty asked = .ok table made ∧
      Session.Later asm made s' ∧ s'.registry.vtables.lookup ty = some table := by
  obtain ⟨t, t', hbefore, -, hdefine, hafter⟩ :=
    defined_of_compileTypes hstart hcompile (mem_userTypes hd hroot)
  obtain ⟨packed, -, -, hstruct⟩ := defineType_struct hd (.inl hkind) hdefine
  obtain ⟨run⟩ := nonempty_structRun hstruct
  have hdispatch : run.dispatch = true := by
    refine requiresVTable_of_dispatches hkind run.requires ?_
    unfold Dispatches
    rw [hbefore.registry.virtualOwners]
    exact hneeds
  obtain ⟨-, table, made, r, u', htable, hregister, htabled⟩ :=
    run.tables.resolve_left fun h => by simp [hdispatch] at h
  have hasked : Session.Later asm t run.asked :=
    (inferInstance : Keeps _ (requiresVTable asm ty d)).run run.requires
  have hregistered : Session.Later asm made run.tabled :=
    (inferInstance : Keeps _ (Lower.register (Registering.addVTable asm ty table))).run
      (Lower.register_eq_ok_iff.mpr ⟨r, hregister, htabled⟩)
  have hrest : Session.Later asm run.tabled s' :=
    IsTrans.trans _ _ _ (IsTrans.trans _ _ _ run.tabled_filled run.later_final) hafter
  refine ⟨run.asked, made, table, IsTrans.trans _ _ _ hbefore hasked, htable,
    IsTrans.trans _ _ _ hregistered hrest, hrest.registry.vtables ?_⟩
  obtain ⟨-, rfl⟩ := Registering.addVTable_eq_ok hregister
  rw [htabled]
  simp

theorem class_tables (hstart : Declared asm start) (htidy : start.Tidy asm)
    (hcompile : compileTypes asm start = .ok u s') (hd : asm.typeDef ty = .ok d)
    (hkind : d.kind = .classType) (hroot : Assembly.isRoot ty = false)
    (hneeds : Dispatches asm start ty) :
    ∃ table, s'.registry.vtables.lookup ty = some table ∧ ClassTables asm s' ty table := by
  obtain ⟨asked, made, table, hasked, htable, hrest, hfound⟩ :=
    class_table_made hstart hcompile hd hkind hroot hneeds
  have htidy' := htidy.later hasked
  have hmade : Session.Later asm asked made :=
    (inferInstance : Keeps _ (classVTable asm ty)).run htable
  exact ⟨table, hfound, (classVTable_spec htidy' htable).later hrest (htidy'.later hmade).statics⟩

theorem interface_table (hstart : Declared asm start) (hcompile : compileTypes asm start = .ok u s')
    (hd : asm.typeDef ty = .ok d) (hkind : d.kind = .interfaceType)
    (hroot : Assembly.isRoot ty = false) : ∃ table type slots,
      s'.registry.vtables.lookup ty = some table ∧ asm.introducedSlots ty = .ok slots ∧
      table.tables = [{ owner := ty, type, slots, inst := none }] := by
  obtain ⟨t, t', -, -, hdefine, hafter⟩ :=
    defined_of_compileTypes hstart hcompile (mem_userTypes hd hroot)
  simp only [defineType, bind_eq_ok_iff, Lower.liftM_ask, Lower.ask_eq_ok_iff, hd,
    Except.ok.injEq] at hdefine
  obtain ⟨_, _, ⟨rfl, rfl⟩, h⟩ := hdefine
  cases hpacked : packedOf d with
  | error error => simp [hpacked] at h
  | ok packed =>
      simp only [hpacked, hkind] at h
      split at h
      · simp at h
      · simp only [interfaceVTable, bind_eq_ok_iff, Lower.liftM_ask, Lower.ask_eq_ok_iff,
          pure_eq_ok_iff, Lower.liftM_register, Lower.register_eq_ok_iff] at h
        obtain ⟨table, _, ⟨type, t₁, -, slots, _, ⟨hslots, rfl⟩, rfl, rfl⟩, r, hregister, rfl⟩ := h
        obtain ⟨-, rfl⟩ := Registering.addVTable_eq_ok hregister
        exact ⟨_, type, slots, hafter.registry.vtables List.lookup_cons_self, hslots, rfl⟩

end Types

end Lowering

end CilSsa
