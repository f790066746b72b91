import CilSsa.Proofs.Meanings
import CilSsa.Proofs.Stores

/-!
Stores to one static field, followed through straight-line code.

The first constant for the field becomes the initial value of its global; everything else
is stored where it stands.  Only code that has taken the address of the field can store to
the global in another way.
-/

namespace CilSsa

open Ssa Metadata Lowering

namespace Ssa

section Globals

namespace Module

def global? (m : Module) (g : ValueId) : Option (TypeId × ValueId) :=
  match m.values[g.index]? with
  | some ⟨_, .global _ content initial⟩ => some (content, initial)
  | _ => none

theorem global?_eq_some_iff {m : Module} {g initial : ValueId} {content : TypeId} :
    m.global? g = some (content, initial) ↔
      ∃ type name, m.values[g.index]? = some ⟨type, .global name content initial⟩ := by
  unfold global?
  split
  · rename_i hv
    simp [hv]
  · rename_i hnone
    simp only [reduceCtorEq, false_iff, not_exists]
    exact fun type name hv => hnone type name content initial hv

theorem Evolves.global? {P : Change → Prop} {m m' : Module} {g initial : ValueId}
    {content : TypeId} (h : m.Evolves P m') (hg : m.global? g = some (content, initial)) :
    ∃ initial', m'.global? g = some (content, initial') := by
  obtain ⟨type, name, hv⟩ := global?_eq_some_iff.mp hg
  obtain ⟨⟨type', kind⟩, hv', hlike⟩ := h.like hv
  have hkind : ValueKind.Like (.global name content initial) kind := hlike.kind
  cases hkind with
  | same => exact ⟨initial, global?_eq_some_iff.mpr ⟨type', name, hv'⟩⟩
  | global _ _ _ initial' => exact ⟨initial', global?_eq_some_iff.mpr ⟨type', name, hv'⟩⟩

theorem Evolves.storesTo_append {P : Change → Prop} {m m' : Module} (h : m.Evolves P m')
    (address : ValueId) : ∃ added, m'.storesTo address = m.storesTo address ++ added := by
  refine h.preserves (I := fun m' => ∃ added, m'.storesTo address = m.storesTo address ++ added) ?_
    ⟨[], (List.append_nil _).symm⟩
  rintro m₁ c _ hfits ⟨added, hadded⟩
  exact ⟨added ++ (c.storedTo? address).toList, by rw [storesTo_apply hfits,
    hadded, List.append_assoc]⟩

end Module

end Globals

end Ssa

namespace Lowering

section Registries

/-- Nothing was registered for static fields. -/
structure Session.SameStatics (s s' : Session) : Prop where
  fields : s'.registry.staticFields = s.registry.staticFields
  folded : s'.registry.folded = s.registry.folded

instance : IsPreorder Session Session.SameStatics where
  refl _ := ⟨rfl, rfl⟩
  trans _ _ _ h h' := ⟨h'.fields.trans h.fields, h'.folded.trans h.folded⟩

theorem Session.SameStatics.staticField? {s s' : Session} {f : FieldId}
    (h : s.SameStatics s') : s'.registry.staticField? f = s.registry.staticField? f := by
  rw [Registry.staticField?, Registry.staticField?, h.fields]

variable {asm : Assembly} {α : Type}

instance (x : Build α) : Keeps Session.SameStatics (Lower.build x) where
  run h := by
    obtain ⟨m, -, rfl⟩ := Lower.build_eq_ok_iff.mp h
    exact ⟨rfl, rfl⟩

instance (x : Layouts α) : Keeps Session.SameStatics (Lower.layout x) where
  run h := by
    obtain ⟨c, -, rfl⟩ := Lower.layout_eq_ok_iff.mp h
    exact ⟨rfl, rfl⟩

instance (name : String) (f : FunctionId) :
    Keeps Session.SameStatics (Lower.register (Registering.addFunction name f)) where
  run h := by
    obtain ⟨r, hregister, rfl⟩ := Lower.register_eq_ok_iff.mp h
    obtain ⟨-, rfl⟩ := Registering.addFunction_eq_ok hregister
    exact ⟨rfl, rfl⟩

instance (ty : TypeDefId) (f : FunctionId) :
    Keeps Session.SameStatics (Lower.register (Registering.addNewobj asm ty f)) where
  run h := by
    obtain ⟨r, hregister, rfl⟩ := Lower.register_eq_ok_iff.mp h
    obtain ⟨-, rfl⟩ := Registering.claimed_eq_ok (fun r => r.hasNewobj ty) hregister
    exact ⟨rfl, rfl⟩

instance : Arranging Session.SameStatics where
  build _ := inferInstance

instance : Building noAddress Session.SameStatics where
  build _ := inferInstance

instance : Emission asm noAddress Session.SameStatics where
  layout _ := inferInstance
  declareFunction m := by
    unfold declareFunction
    refine Keeps.seq inferInstance fun name => Keeps.seq inferInstance fun s => ?_
    split <;> infer_instance
  newobjFunction _ := newobjFunction_keeps inferInstance inferInstance inferInstance

end Registries

section Tracking

/-- How a value gets to a static field: as the initial value of the global, by a store to the field,
or by a store to the address of the global. -/
inductive WriteKind where
  | folded
  | stored
  | through
deriving DecidableEq

/-- A write to a static field in a body. -/
structure Write where
  position : Nat
  value : ValueId
  kind : WriteKind

/-- The values that are stored at run time. -/
def stored (writes : List Write) : List ValueId :=
  (writes.filter fun w => w.kind ≠ .folded).map Write.value

theorem stored_append (writes writes' : List Write) :
    stored (writes ++ writes') = stored writes ++ stored writes' := by
  simp [stored]

/-- The writes by stores to the field itself. -/
def fieldWrites (writes : List Write) : List Write := writes.filter fun w => w.kind ≠ .through

/-- Stores to an address by one instruction. -/
def writesThrough (position : Nat) (values : List ValueId) : List Write :=
  values.map fun value => ⟨position, value, .through⟩

theorem stored_writesThrough (position : Nat) (values : List ValueId) :
    stored (writesThrough position values) = values := by
  simp [stored, writesThrough, List.filter_map, Function.comp_def]

theorem kind_of_mem_writesThrough {position : Nat} {values : List ValueId} {w : Write}
    (h : w ∈ writesThrough position values) : w.kind = .through := by
  obtain ⟨value, -, rfl⟩ := List.mem_map.mp h
  rfl

theorem fieldWrites_append (writes writes' : List Write) :
    fieldWrites (writes ++ writes') = fieldWrites writes ++ fieldWrites writes' :=
  List.filter_append ..

theorem fieldWrites_writesThrough (position : Nat) (values : List ValueId) :
    fieldWrites (writesThrough position values) = [] :=
  List.filter_eq_nil_iff.mpr fun w hw => by simp [kind_of_mem_writesThrough hw]

/-- What is known after some of the writes of a method to a static field. -/
structure Tracks (asm : Assembly) (f : FieldId) (start : Module) (writes : List Write)
    (s : Session) : Prop where
  evolves : start.Evolves Change.Any s.module
  statics : s.StaticsSound asm
  unknown : s.registry.staticField? f = none → writes = []
  stores : ∀ {g : ValueId}, s.registry.staticField? f = some g →
    s.module.storesTo g = start.storesTo g ++ stored writes
  /-- The initial value is that of the write that became it. -/
  initial : ∀ w ∈ writes, w.kind = .folded → f ∈ s.registry.folded ∧
    ∀ {g : ValueId}, s.registry.staticField? f = some g →
      ∃ content, s.module.global? g = some (content, w.value)

variable {asm : Assembly} {f : FieldId} {start : Module} {writes : List Write} {s s' : Session}

theorem Session.StaticsSound.global? {g : ValueId} (h : s.StaticsSound asm)
    (hg : s.registry.staticField? f = some g) :
    ∃ d content initial, asm.field f = .ok d ∧ irType asm d.sig s = .ok content s ∧
      s.module.global? g = some (content, initial) := by
  obtain ⟨d, type, name, content, initial, hd, htype, hv⟩ := h.global hg
  exact ⟨d, content, initial, hd, htype, Module.global?_eq_some_iff.mpr ⟨type, name, hv⟩⟩

/-- The global of a static field exists. -/
theorem Session.StaticsSound.lt {g : ValueId} (h : s.StaticsSound asm)
    (hg : s.registry.staticField? f = some g) : g.index < s.module.values.size := by
  obtain ⟨_, _, _, _, _, -, -, hv⟩ := h.global hg
  exact (Array.getElem?_eq_some_iff.mp hv).1

/-- An initial value stays once it is there. -/
theorem Tracks.initial_later {g : ValueId} {w : Write} (h : Tracks asm f start writes s)
    (hlater : Session.Later asm s s') (hw : w ∈ writes) (hfold : w.kind = .folded)
    (hg : s.registry.staticField? f = some g) :
    ∃ content, s'.module.global? g = some (content, w.value) := by
  obtain ⟨hmem, hinitial⟩ := h.initial w hw hfold
  obtain ⟨content, hglobal⟩ := hinitial hg
  obtain ⟨type, name, hv⟩ := Module.global?_eq_some_iff.mp hglobal
  refine ⟨content, Module.global?_eq_some_iff.mpr ⟨type, name, ?_⟩⟩
  refine hlater.values hv (by simp [Value.inst?]) fun f' hf' => ?_
  obtain rfl : f' = f := h.statics.distinct hf' hg
  exact hmem

/-- Code that asks for no static field writes through an address, if at all. -/
theorem Tracks.later (h : Tracks asm f start writes s) (hlater : Session.Later asm s s')
    (hfield : s'.registry.staticField? f = s.registry.staticField? f)
    (hfolded : f ∈ s'.registry.folded ↔ f ∈ s.registry.folded) (position : Nat) :
    ∃ values, Tracks asm f start (writes ++ writesThrough position values) s' ∧
      (s.module.Spares (fun g => s.registry.staticField? f = some g) s'.module → values = []) := by
  obtain ⟨values, hnone, hvalues⟩ : ∃ values, (s.registry.staticField? f = none → values = []) ∧
      ∀ g, s.registry.staticField? f = some g →
        s'.module.storesTo g = s.module.storesTo g ++ values := by
    cases hg : s.registry.staticField? f with
    | none => exact ⟨[], fun _ => rfl, by simp⟩
    | some g =>
        obtain ⟨values, hvalues⟩ := hlater.module.storesTo_append g
        exact ⟨values, by simp, fun g' hg' => Option.some.inj hg' ▸ hvalues⟩
  refine ⟨values, ⟨h.evolves.trans hlater.module, hlater.statics h.statics, fun hunknown => ?_,
    fun {g} hg => ?_, fun w hw hfold => ?_⟩, fun hspares => ?_⟩
  · rw [hfield] at hunknown
    rw [h.unknown hunknown, hnone hunknown]
    rfl
  · rw [hvalues g (hfield ▸ hg), h.stores (hfield ▸ hg), stored_append, stored_writesThrough,
      List.append_assoc]
  · rcases List.mem_append.mp hw with hw | hw
    · exact ⟨hfolded.mpr (h.initial w hw hfold).1, fun hg =>
        h.initial_later hlater hw hfold (hfield ▸ hg)⟩
    · exact absurd (hfold.symm.trans (kind_of_mem_writesThrough hw)) (by simp)
  · cases hg : s.registry.staticField? f with
    | none => exact hnone hg
    | some g =>
        have hsame := (hvalues g hg).symm.trans (hspares.stores g hg (h.statics.lt hg))
        simpa using hsame

/-- Code that is not about the field. -/
theorem Tracks.mono (h : Tracks asm f start writes s) (hlater : Session.Later asm s s')
    (hfield : s'.registry.staticField? f = s.registry.staticField? f)
    (hfolded : f ∈ s'.registry.folded ↔ f ∈ s.registry.folded)
    (hspares : s.module.Spares (fun g => s.registry.staticField? f = some g) s'.module) :
    Tracks asm f start writes s' := by
  obtain ⟨values, htracks, hnone⟩ := h.later hlater hfield hfolded 0
  simpa [hnone hspares, writesThrough] using htracks

/-- Nothing is stored while a global is made. -/
theorem staticField_storesTo {f' : FieldId} {g address : ValueId}
    (h : staticField asm f' s = .ok g s') :
    s'.module.storesTo address = s.module.storesTo address := by
  let M : Module → Module → Prop := fun m m' => m'.storesTo address = m.storesTo address
  have : IsPreorder Module M := { refl := fun _ => rfl, trans := fun _ _ _ h h' => h'.trans h }
  have : Building (fun _ => True) (Session.On M) :=
    Session.On.building fun _ _ h => h.storesTo fun _ hc => Module.storedTo?_of_plain hc trivial
  exact (inferInstance : Keeps (Session.On M) (staticField asm f')).run h

/-- The fields whose globals are known after one was asked for. -/
theorem staticField?_of_find {f' : FieldId} {g : ValueId} (h : staticField asm f' s = .ok g s')
    (hne : f' ≠ f ∨ s.registry.staticField? f ≠ none) :
    s'.registry.staticField? f = s.registry.staticField? f := by
  rcases staticField_cases h with ⟨-, rfl⟩ | ⟨hnone, d, content, name, s₁, m, -, htype, -, rfl⟩
  · rfl
  · have hother : f ≠ f' := by
      rintro rfl
      exact hne.elim (absurd rfl) (absurd hnone)
    simp [Registry.staticField?, List.lookup_cons, beq_eq_false_iff_ne.mpr hother,
      irType_registry htype]

theorem staticField_folded {f' : FieldId} {g : ValueId} (h : staticField asm f' s = .ok g s') :
    s'.registry.folded = s.registry.folded := by
  rcases staticField_cases h with ⟨-, rfl⟩ | ⟨-, _, _, _, s₁, _, -, htype, -, rfl⟩
  · rfl
  · simp [irType_registry htype]

/-- Asking for the global of a static field does nothing to another. -/
theorem Tracks.find {f' : FieldId} {g : ValueId} (h : Tracks asm f start writes s)
    (hfind : staticField asm f' s = .ok g s') : Tracks asm f start writes s' := by
  have hlater : Session.Later asm s s' :=
    (inferInstance : Keeps (Session.Later asm) (staticField asm f')).run hfind
  have hfolded := staticField_folded hfind
  by_cases hne : f' ≠ f ∨ s.registry.staticField? f ≠ none
  · refine h.mono hlater (staticField?_of_find hfind hne) (by rw [hfolded]) ?_
    exact ⟨hlater.module.values_le, fun _ _ _ => staticField_storesTo hfind⟩
  · simp only [not_or, ne_eq, Decidable.not_not] at hne
    obtain ⟨rfl, hnone⟩ := hne
    obtain rfl := h.unknown hnone
    refine ⟨h.evolves.trans hlater.module, hlater.statics h.statics, fun _ => rfl,
      fun {g'} hg' => ?_, by simp⟩
    rcases hlater.fresh hg' with hold | hnew
    · simp [hnone] at hold
    · rw [staticField_storesTo hfind, h.evolves.storesTo_of_le hnew]
      simp [stored]

theorem global?_setInitializer {g initial c : ValueId} {type : TypeId} {kind : ValueKind}
    {m m' : Module} {u : Unit} (hglobal : m.global? g = some (type, initial))
    (hc : m.values[c.index]? = some ⟨type, kind⟩) (hconstant : kind.isConstant = true)
    (h : Build.setInitializer g c m = .ok u m') :
    m' = m.apply (.setInitial g c) ∧ m'.global? g = some (type, c) := by
  obtain ⟨own, name, hg⟩ := Module.global?_eq_some_iff.mp hglobal
  have hset : m' = m.apply (.setInitial g c) := by
    simp only [Build.setInitializer, bind_eq_ok_iff, Build.query_eq_ok_iff, Module.typeOf,
      Module.isConstant, Module.value, exceptBind_eq_ok_iff, Arena.entry_eq_ok_iff,
      exceptPure_eq_ok_iff] at h
    obtain ⟨_, _, ⟨⟨_, hc', rfl⟩, rfl⟩, _, _, ⟨⟨_, hc'', rfl⟩, rfl⟩, _, _, ⟨hg', rfl⟩, h⟩ := h
    cases hc.symm.trans hc'
    cases hc.symm.trans hc''
    cases hg.symm.trans hg'
    simp only [ne_eq, not_true_eq_false, decide_false, hconstant, Bool.not_true, Bool.or_false,
      Bool.false_eq_true, if_false] at h
    obtain rfl := modify_eq_ok_iff.mp h
    rw [Module.apply]
    congr 1
    exact modify_congr hg rfl
  refine ⟨hset, Module.global?_eq_some_iff.mpr ⟨own, name, ?_⟩⟩
  rw [hset]
  simp [Module.apply, Array.getElem?_modify, hg, Value.setInitial]

/-- A store that becomes the initial value of the global. -/
theorem Tracks.fold {g initial value c : ValueId} {type : TypeId} {position : Nat} {m m' : Module}
    {u : Unit} (h : Tracks asm f start writes s) (hg : s.registry.staticField? f = some g)
    (hglobal : s.module.global? g = some (type, initial)) (hnew : f ∉ s.registry.folded)
    (hconstant : Emit.constantAs? type value s.module = .ok (some c) m)
    (hset : Build.setInitializer g c m = .ok u m')
    (hstatics : Session.StaticsSound asm { s with
      module := m'
      registry := { s.registry with folded := f :: s.registry.folded } }) :
    m.Evolves Change.Any m' ∧
      Tracks asm f start (writes ++ [⟨position, c, .folded⟩]) { s with
        module := m'
        registry := { s.registry with folded := f :: s.registry.folded } } := by
  have hquiet : s.module.Evolves Change.Quiet m :=
    (inferInstance : Keeps _ (Emit.constantAs? type value)).run hconstant
  obtain ⟨-, kind, hv, hkind⟩ := foldsTo_of_constantAs? hconstant
  obtain ⟨initial', hglobal'⟩ := hquiet.global? hglobal
  obtain ⟨rfl, hglobal''⟩ := global?_setInitializer hglobal' hv hkind hset
  have hsame {g' : ValueId} (hg' : s.registry.staticField? f = some g') : g' = g :=
    Option.some.inj (hg'.symm.trans hg)
  have hfits : m.Fits (.setInitial g c) := by
    obtain ⟨type', name, hvalue⟩ := Module.global?_eq_some_iff.mp hglobal'
    exact ⟨type', name, type, initial', hvalue⟩
  have hevolves : m.Evolves Change.Any (m.apply (.setInitial g c)) :=
    Module.Evolves.one trivial hfits
  refine ⟨hevolves, (h.evolves.trans (hquiet.mono fun _ _ => trivial)).trans hevolves, hstatics,
    fun hnone => ?_, fun {g'} hg' => ?_, fun w hw hfold => ?_⟩
  · exact absurd (hnone.symm.trans hg) (by simp)
  · obtain rfl := hsame hg'
    have hstores : m.storesTo g' = s.module.storesTo g' :=
      hquiet.storesTo fun _ => Module.storedTo?_of_isQuiet
    simp [Module.storesTo_apply hfits, Change.storedTo?, hstores, h.stores hg, stored]
  · rcases List.mem_append.mp hw with hw | hw
    · exact absurd (h.initial w hw hfold).1 hnew
    · obtain rfl := List.mem_singleton.mp hw
      refine ⟨List.mem_cons_self, fun {g'} hg' => ?_⟩
      obtain rfl := hsame hg'
      exact ⟨type, hglobal''⟩

/-- A store that is one at run time. -/
theorem Tracks.store {g v : ValueId} {e : Element} {type : TypeId} {position : Nat}
    {m m₁ m₂ : Module} {isVolatile : Bool} {u : Unit}
    (h : Tracks asm f start writes s) (hg : s.registry.staticField? f = some g)
    (hquiet : s.module.Evolves Change.Quiet m)
    (hvalue : Emit.valueOf asm type e m = .ok v m₁)
    (hput : Build.store g v isVolatile m₁ = .ok u m₂) :
    m₁.Evolves Change.Any m₂ ∧
      Tracks asm f start (writes ++ [⟨position, v, .stored⟩]) { s with module := m₂ } := by
  have hconvert : m.Evolves Change.Quiet m₁ :=
    (inferInstance : Keeps _ (Emit.valueOf asm type e)).run hvalue
  have hquiet' : s.module.Evolves Change.Quiet m₁ := hquiet.trans hconvert
  have hput' : m₁.Evolves Change.Tame m₂ :=
    (inferInstance : Keeps _ (Build.store g v isVolatile)).run hput
  have hlater : Session.Later asm s { s with module := m₂ } := later_of_lasts
    (Module.Evolves.lasts ((hquiet'.mono fun _ => Change.isTame_of_isQuiet).trans hput'))
  refine ⟨hput'.mono fun _ _ => trivial, h.evolves.trans hlater.module, hlater.statics h.statics,
    fun hnone => ?_, fun {g'} hg' => ?_, fun w hw hfold => ?_⟩
  · exact absurd (hnone.symm.trans hg) (by simp)
  · obtain rfl : g' = g := Option.some.inj (hg'.symm.trans hg)
    have hstores : m₁.storesTo g' = s.module.storesTo g' :=
      hquiet'.storesTo fun _ => Module.storedTo?_of_isQuiet
    simp [Build.store_storesTo hput, hstores, h.stores hg, stored]
  · rcases List.mem_append.mp hw with hw | hw
    · exact ⟨(h.initial w hw hfold).1, fun hg' => h.initial_later hlater hw hfold hg'⟩
    · obtain rfl := List.mem_singleton.mp hw
      cases hfold

end Tracking

/-- Whether the element that is stored is a number with a sign. -/
def Emit.StaticStore.signed {site : Site} {s : EmitState} (store : Emit.StaticStore site s) :
    Bool :=
  isSigned site.asm store.element.sig = .ok true

/-- What a module has of a store to a static field: the constant that became the initial value of
the global, or the value at the type of the field. -/
inductive Emit.StaticStore.Leaves {site : Site} {s : EmitState} (store : Emit.StaticStore site s)
    (m : Module) : ValueId → WriteKind → Prop where
  | folded {c : ValueId} (hconstant : store.constant = some c)
      (hnew : store.field ∉ s.session.registry.folded)
      (hfolds : FoldsTo m store.element.value store.type c) : Leaves store m c .folded
  | stored {v : ValueId}
      (hcomputed : store.constant = none ∨ store.field ∈ s.session.registry.folded)
      (hbrought : BroughtTo m store.signed store.element.value store.type v) :
      Leaves store m v .stored

theorem Emit.StaticStore.Leaves.mono {site : Site} {s : EmitState} {store : Emit.StaticStore site s}
    {m m' : Module} {v : ValueId} {kind : WriteKind} (h : store.Leaves m v kind)
    (hevolves : m.Evolves Change.Any m') : store.Leaves m' v kind := by
  cases h with
  | folded hconstant hnew hfolds => exact .folded hconstant hnew (hfolds.mono hevolves)
  | stored hcomputed hbrought => exact .stored hcomputed (hbrought.mono hevolves)

section Stepping

/-- Neither the stack nor a variable leads to the global of the field if it is only ever used
directly. -/
def Guarded (f : FieldId) (direct : Prop) (frame : Frame) (s : EmitState) : Prop :=
  Emit.Sound ⟨fun g => direct ∧ s.session.registry.staticField? f = some g, True⟩ frame s

variable {f : FieldId} {direct : Prop} {frame : Frame} {start : Module} {writes : List Write}
  {s s' : EmitState} {site : Site} {u : Unit}

/-- A global that is made later is not known yet. -/
theorem Guarded.later {asm : Assembly} (h : Guarded f direct frame s)
    (hlater : Session.Later asm s.session s'.session) (hstatics : s'.session.StaticsSound asm)
    (hstack : ∀ e ∈ s'.stack.elements, e ∈ s.stack.elements) : Guarded f direct frame s' := by
  have hle : Counted.count s ≤ Counted.count s' := hlater.module.values_le
  have husable {v : ValueId}
      (hv : Emit.Usable ⟨fun g => direct ∧ s.session.registry.staticField? f = some g, True⟩ s v) :
      Emit.Usable ⟨fun g => direct ∧ s'.session.registry.staticField? f = some g, True⟩ s' v := by
    have hlt := hv.exists_ trivial
    refine ⟨fun _ => Nat.lt_of_lt_of_le hlt hle, fun ⟨hdirect, hg⟩ => ?_⟩
    rcases hlater.fresh hg with hold | hnew
    · exact hv.free ⟨hdirect, hold⟩
    · exact absurd hlt (Nat.not_lt.mpr hnew)
  exact ⟨fun v hv => hstatics.lt hv.2, fun e he => husable (h.stack e (hstack e he)),
    fun v hv => husable (h.places v hv)⟩

/-- What is known about a static field while code is emitted. -/
structure Follows (f : FieldId) (direct : Prop) (frame : Frame) (start : Module)
    (writes : List Write) (s : EmitState) : Prop where
  tracks : Tracks frame.asm f start writes s.session
  guarded : Guarded f direct frame s

/-- What is known after an instruction that writes through an address, if at all. -/
def FollowsThrough (f : FieldId) (direct : Prop) (frame : Frame) (start : Module)
    (writes : List Write) (position : Nat) (s : EmitState) : Prop :=
  ∃ values, (direct → values = []) ∧
    Follows f direct frame start (writes ++ writesThrough position values) s

/-- Straight-line code that is not about static fields. -/
theorem Follows.straight (h : Follows f direct frame start writes s)
    (hlater : Session.Later frame.asm s.session s'.session)
    (hsame : s.session.SameStatics s'.session)
    (hstraight : Emit.Straight
      (Session.On (Module.Spares fun g => direct ∧ s.session.registry.staticField? f = some g))
      ⟨fun g => direct ∧ s.session.registry.staticField? f = some g, True⟩ frame [] s s')
    (position : Nat) : FollowsThrough f direct frame start writes position s' := by
  obtain ⟨hsound, -, hcontinues⟩ := hstraight h.guarded (by simp)
  have hfield : s'.session.registry.staticField? f = s.session.registry.staticField? f :=
    hsame.staticField?
  obtain ⟨values, htracks, hnone⟩ :=
    h.tracks.later hlater hfield (by rw [hsame.folded]) position
  refine ⟨values, fun hdirect => hnone ?_, htracks, ?_⟩
  · have hspares := hcontinues.session
    simp only [hdirect, true_and] at hspares
    exact hspares
  · rw [Guarded, hfield]
    exact hsound

/-- The global of a static field is asked for. -/
theorem Follows.find {f' : FieldId} {g : ValueId} {t : Session}
    (h : Follows f direct frame start writes s)
    (hfind : staticField frame.asm f' s.session = .ok g t) :
    Follows f direct frame start writes { s with session := t } := by
  have hlater : Session.Later frame.asm s.session t :=
    (inferInstance : Keeps _ (staticField frame.asm f')).run hfind
  have htracks := h.tracks.find hfind
  exact ⟨htracks, h.guarded.later hlater htracks.statics fun _ he => he⟩

/-- Straight-line code that gets hold of no address of a static field. -/
theorem Follows.keeps {α : Type} {x : Emit α} {a : α} (h : Follows f direct frame start writes s)
    (hx : ∀ (R : Session → Session → Prop) (w : Emit.Watch) [Emission frame.asm w.spared R],
      Keeps (Emit.Straight R w frame []) x)
    (hrun : x s = .ok a s') (position : Nat) :
    FollowsThrough f direct frame start writes position s' :=
  h.straight ((Emit.on_of_straight (hx (Session.Later frame.asm) .nothing)).run hrun)
    ((Emit.on_of_straight (hx Session.SameStatics .nothing)).run hrun) ((hx _ _).run hrun) position

theorem Follows.loadStatic (h : Follows f direct site.toFrame start writes s)
    (hrun : Emit.loadStatic site s = .ok u s') :
    FollowsThrough f direct site.toFrame start writes site.index s' := by
  simp only [Emit.loadStatic, bind_eq_ok_iff, Emit.liftM_lower, Emit.lower_eq_ok_iff] at hrun
  obtain ⟨f', t, hfield, g, _, ⟨t₁, hfind, rfl⟩, d, t₂, hd, hload⟩ := hrun
  obtain ⟨-, hsame⟩ := Emit.fieldOperand_eq_ok hfield
  subst t
  have hrest : (do Emit.pushLoaded site (← Emit.lower (site.asm.field f')).sig g : Emit Unit)
      { s with session := t₁ } = .ok u s' :=
    bind_eq_ok_iff.mpr ⟨d, t₂, Emit.lower_eq_ok_iff.mpr hd, hload⟩
  exact (h.find hfind).keeps (fun R w _ => inferInstance) hrest site.index

theorem Follows.loadStaticAddress (h : Follows f direct site.toFrame start writes s)
    (hother : direct → site.instr.operand ≠ .field f)
    (hrun : Emit.loadStaticAddress site s = .ok u s') :
    FollowsThrough f direct site.toFrame start writes site.index s' := by
  simp only [Emit.loadStaticAddress, bind_eq_ok_iff, Emit.liftM_lower, Emit.lower_eq_ok_iff] at hrun
  obtain ⟨f', t, hfield, g, _, ⟨t₁, hfind, rfl⟩, d, t₂, hd, hpush⟩ := hrun
  obtain ⟨hoperand, hsame⟩ := Emit.fieldOperand_eq_ok hfield
  subst t
  have hfound := h.find hfind
  have hfree : ¬ (direct ∧ t₁.registry.staticField? f = some g) := by
    rintro ⟨hdirect, hg⟩
    obtain rfl := hfound.tracks.statics.distinct hg (staticField_registered hfind)
    exact hother hdirect hoperand
  have hrest : (do Emit.pushAddress (← Emit.lower (site.asm.field f')).sig g : Emit Unit)
      { s with session := t₁ } = .ok u s' :=
    bind_eq_ok_iff.mpr ⟨d, t₂, Emit.lower_eq_ok_iff.mpr hd, hpush⟩
  have hstraight {R : Session → Session → Prop} {w : Emit.Watch} [Emission site.asm w.spared R]
      (hw : ¬ w.spared g) : Keeps (Emit.Straight R w site.toFrame [])
        (do Emit.pushAddress (← Emit.lower (site.asm.field f')).sig g : Emit Unit) :=
    Keeps.seq inferInstance fun _ => Emit.pushAddress_straight hw
  have hlater : Keeps (EmitState.On (Session.Later site.asm)) _ :=
    Emit.on_of_straight (hstraight (w := .nothing) id)
  have hstatics : Keeps (EmitState.On Session.SameStatics) _ :=
    Emit.on_of_straight (hstraight (w := .nothing) id)
  exact hfound.straight (hlater.run hrest) (hstatics.run hrest)
    ((hstraight hfree).run hrest) site.index

/-- The type of a field is known once its global is. -/
theorem Emit.StaticStore.typed_eq (store : Emit.StaticStore site s)
    (hstatics : store.registered.StaticsSound site.asm) : store.typed = store.registered ∧
      ∃ initial, store.registered.module.global? store.global = some (store.type, initial) := by
  obtain ⟨d, content, initial, hd, htype, hglobal⟩ :=
    hstatics.global? (staticField_registered store.find)
  cases hd.symm.trans store.definition_eq
  have hsame := htype.symm.trans store.irType
  simp only [EStateM.Result.ok.injEq] at hsame
  exact ⟨hsame.2.symm, initial, hsame.1 ▸ hglobal⟩

/-- The code for the constant of a store writes nothing. -/
theorem Emit.StaticStore.quiet (store : Emit.StaticStore site s) :
    store.typed.module.Evolves Change.Quiet store.module := by
  rcases store.initial with ⟨-, -, hconstant⟩ | ⟨-, -, hsame⟩
  · exact (inferInstance : Keeps _ (Emit.constantAs? store.type store.element.value)).run hconstant
  · rw [hsame]
    exact Relation.ReflTransGen.refl

theorem Emit.StaticStore.constantAs?_eq (store : Emit.StaticStore site s) {c : ValueId}
    (hconstant : store.constant = some c) :
    Emit.constantAs? store.type store.element.value store.typed.module =
      .ok (some c) store.module := by
  rcases store.initial with ⟨-, -, hmade⟩ | ⟨-, hnone, -⟩
  · exact hconstant ▸ hmade
  · cases hconstant.symm.trans hnone

theorem Follows.storeOther (h : Follows f direct site.toFrame start writes s)
    (store : Emit.StaticStore site s) (hother : store.field ≠ f)
    (hlater : Session.Later site.asm s.session s'.session)
    (hstack : ∀ e ∈ s'.stack.elements, e ∈ s.stack.elements)
    (hregistry : s'.session.registry.staticFields = store.registered.registry.staticFields)
    (hfolded : f ∈ s'.session.registry.folded ↔ f ∈ store.registered.registry.folded)
    (hstores : ∀ g, store.registered.registry.staticField? f = some g →
      s'.session.module.storesTo g = store.registered.module.storesTo g) :
    Follows f direct site.toFrame start writes s' := by
  have hfield := staticField?_of_find store.find (.inl hother)
  have hfield' : s'.session.registry.staticField? f = s.session.registry.staticField? f := by
    rw [← hfield, Registry.staticField?, Registry.staticField?, hregistry]
  have htracks : Tracks site.asm f start writes s'.session := by
    refine h.tracks.mono hlater hfield' (by rw [hfolded, staticField_folded store.find])
      ⟨hlater.module.values_le, fun g hg _ => ?_⟩
    rw [hstores g (hfield.trans hg), staticField_storesTo store.find]
  exact ⟨htracks, h.guarded.later hlater htracks.statics hstack⟩

theorem Follows.storeStatic (h : Follows f direct site.toFrame start writes s)
    (hrun : Emit.storeStatic site s = .ok u s') :
    ∃ store : Emit.StaticStore site s,
      store.field ≠ f ∧ Follows f direct site.toFrame start writes s' ∨
      store.field = f ∧ ∃ v kind, kind ≠ .through ∧ store.Leaves s'.session.module v kind ∧
        Follows f direct site.toFrame start (writes ++ [⟨site.index, v, kind⟩]) s' := by
  have hlater := Emit.storeStatic_later hrun
  have hstatics := hlater.statics h.tracks.statics
  obtain ⟨store, hways⟩ := Emit.storeStatic_cases hrun
  have hfound := h.tracks.find store.find
  have hfolded := staticField_folded store.find
  have hregistered := staticField_registered store.find
  obtain ⟨htyped, initial, hglobal⟩ := store.typed_eq hfound.statics
  have hquiet := store.quiet
  rw [htyped] at hways hquiet
  have hrest : ∀ e ∈ store.rest.elements, e ∈ s.stack.elements := by
    intro e he
    rw [EvalStack.elements_of_pop? store.pop]
    exact List.mem_append_left _ he
  have hstores {address : ValueId} : store.module.storesTo address =
      store.registered.module.storesTo address :=
    hquiet.storesTo fun _ => Module.storedTo?_of_isQuiet
  refine ⟨store, ?_⟩
  by_cases hfield : store.field = f
  · refine .inr ⟨hfield, ?_⟩
    subst hfield
    rcases hways with ⟨c, m, hconstant, hnew, hset, rfl⟩ | ⟨hcomputed, v, m₁, m₂, hvalue, hput, rfl⟩
    · have hmade := store.constantAs?_eq hconstant
      rw [htyped] at hmade
      obtain ⟨hevolves, htracks⟩ := hfound.fold hregistered hglobal hnew hmade hset hstatics
      exact ⟨c, .folded, by simp,
        .folded hconstant (hfolded ▸ hnew) ((foldsTo_of_constantAs? hmade).1.mono hevolves),
        htracks, h.guarded.later hlater hstatics hrest⟩
    · have hlt : store.element.value.index < store.module.values.size := by
        refine Nat.lt_of_lt_of_le ((h.guarded.stack store.element ?_).exists_ trivial) ?_
        · rw [EvalStack.elements_of_pop? store.pop]
          exact List.mem_append_right _ List.mem_cons_self
        · have hgrows : s.session.module.values.size ≤ store.registered.module.values.size :=
            (inferInstance : Keeps Grows (staticField site.asm store.field)).run store.find
          exact Nat.le_trans hgrows hquiet.values_le
      obtain ⟨signed, _, hask, hcoerce⟩ := bind_eq_ok_iff.mp hvalue
      obtain ⟨hsigned, rfl⟩ := Build.ask_eq_ok_iff.mp hask
      obtain rfl : signed = store.signed := by simp [Emit.StaticStore.signed, hsigned]
      obtain ⟨hevolves, htracks⟩ := hfound.store hregistered hquiet hvalue hput
      exact ⟨v, .stored, by simp,
        .stored (hfolded ▸ hcomputed) ((coerce_broughtTo hcoerce hlt).mono hevolves), htracks,
        h.guarded.later hlater hstatics hrest⟩
  · refine .inl ⟨hfield, ?_⟩
    rcases hways with ⟨c, m, hconstant, hnew, hset, rfl⟩ | ⟨hcomputed, v, m₁, m₂, hvalue, hput, rfl⟩
    · refine h.storeOther store hfield hlater hrest rfl ?_ fun g hg => ?_
      · simp [Ne.symm hfield]
      · rw [← hstores]
        exact Build.setInitializer_storesTo hset
    · refine h.storeOther store hfield hlater hrest rfl Iff.rfl fun g hg => ?_
      have hne : store.global ≠ g := by
        rintro rfl
        exact hfield (hfound.statics.distinct hregistered hg)
      have hconvert : store.module.Evolves Change.Quiet m₁ :=
        (inferInstance : Keeps _ (Emit.valueOf site.asm store.type store.element)).run hvalue
      refine (Build.store_storesTo_of_ne hne hput).trans ?_
      rw [hconvert.storesTo fun _ => Module.storedTo?_of_isQuiet, hstores]

end Stepping

end Lowering

end CilSsa
