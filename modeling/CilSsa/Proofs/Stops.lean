import CilSsa.Proofs.TypeFaults
import CilSsa.Proofs.Failures

/-!
What can stop an action.

An action stops for a fault or for an error, and which of them it can stop for is found from its
parts. A failure may say something about the hierarchy of the types; most fail for other reasons.
An action on the module only meets ids that it was given or has made, so it does not stop at all in
a state whose ids lead somewhere.
-/

namespace CilSsa

open Ssa Metadata Lowering

namespace Ssa.Build

section Idling

variable {α β : Type} {m : Module}

/-- An action that does not stop while no block is being filled, and begins none. -/
class Idles (x : Build α) : Prop where
  run : ∀ {m : Module}, m.position = none → ∃ a m', x m = .ok a m' ∧ m'.position = none

namespace Idles

instance pure (a : α) : Idles (pure a) := ⟨fun {m} hm => ⟨a, m, rfl, hm⟩⟩

instance get : Idles get := ⟨fun {m} hm => ⟨m, m, rfl, hm⟩⟩

instance bind (x : Build α) (f : α → Build β) [hx : Idles x] [hf : ∀ a, Idles (f a)] :
    Idles (x >>= f) where
  run hm := by
    obtain ⟨a, m₁, hfirst, hm₁⟩ := hx.run hm
    obtain ⟨b, m₂, hrest, hm₂⟩ := (hf a).run hm₁
    exact ⟨b, m₂, bind_eq_ok_iff.mpr ⟨a, m₁, hfirst, hrest⟩, hm₂⟩

instance ite (c : Prop) [Decidable c] (x y : Build α) [hx : Idles x] [hy : Idles y] :
    Idles (if c then x else y) :=
  iteInduction (fun _ => hx) fun _ => hy

theorem modify {change : Module → Module} (h : ∀ m, (change m).position = m.position) :
    Idles (modify change : Build PUnit) :=
  ⟨fun {m} hm => ⟨⟨⟩, change m, rfl, (h m).trans hm⟩⟩

theorem runs {x : Build α} [hx : Idles x] (hm : m.position = none) : ∃ a m', x m = .ok a m' := by
  obtain ⟨a, m', hrun, -⟩ := hx.run hm
  exact ⟨a, m', hrun⟩

end Idles

instance (type : IrType) : Idles (intern type) where
  run {m} hm := by
    unfold intern
    split
    · exact ⟨_, m, rfl, hm⟩
    · exact ⟨_, _, rfl, hm⟩

instance (pointee : TypeId) : Idles (pointerType pointee) := inferInstanceAs (Idles (intern _))

instance (type : TypeId) (kind : ValueKind) : Idles (pushValue type kind) :=
  ⟨fun hm => ⟨_, _, rfl, hm⟩⟩

instance (id : ValueId) (kind : ValueKind) : Idles (setKind id kind) := Idles.modify fun _ => rfl

instance (misuse : Misuse) : Idles (record misuse) where
  run {m} hm := by
    have hnone : m.currentFunction = .ok none := by
      rw [Module.currentFunction, hm]
      rfl
    exact ⟨(), { m with misuses := m.misuses.push (none, misuse) },
      bind_eq_ok_iff.mpr ⟨none, m, query_eq_ok_iff.mpr ⟨hnone, rfl⟩, rfl⟩, hm⟩

instance (name : String) (content : TypeId) : Idles (addGlobal name content) := by
  have (global : ValueId) : Idles (modify fun m : Module =>
      { m with globals := m.globals.push global } : Build PUnit) := Idles.modify fun _ => rfl
  unfold addGlobal constNull
  infer_instance

instance (function : FunctionId) (index : Nat) (types : List TypeId) :
    Idles (pushParams function index types) := by
  induction types generalizing index with
  | nil => exact Idles.pure []
  | cons type rest ih =>
      unfold pushParams
      infer_instance

/-- What follows a question with an answer. -/
theorem runs_query {question : Module → Except Fault α} {a : α} {f : α → Build β}
    (h : question m = .ok a) (hf : ∃ b m', f a m = .ok b m') :
    ∃ b m', (query question >>= f) m = .ok b m' := by
  rw [query_bind h]
  exact hf

theorem exists_typeData {id : TypeId} (h : id.index < m.types.size) :
    ∃ type, m.typeData id = .ok type :=
  ⟨_, Arena.entry_eq_ok_iff.mpr (Array.getElem?_eq_getElem h)⟩

theorem exists_value {id : ValueId} (h : id.index < m.values.size) : ∃ v, m.value id = .ok v :=
  ⟨_, Arena.entry_eq_ok_iff.mpr (Array.getElem?_eq_getElem h)⟩

variable (hm : m.position = none)
include hm

theorem setStructBody_runs {id : TypeId} (members : List TypeId) (packed : Bool)
    (hid : id.index < m.types.size) : ∃ u m', setStructBody id members packed m = .ok u m' := by
  obtain ⟨type, htype⟩ := exists_typeData hid
  refine runs_query htype ?_
  have (name : String) : Idles (modify fun m : Module => { m with
      types := m.types.setIfInBounds id.index (.struct name (some members) packed) } :
        Build Unit) :=
    Idles.modify fun _ => rfl
  split <;> exact Idles.runs hm

theorem constStruct_runs {type : TypeId} (items : List ValueId)
    (htype : type.index < m.types.size) :
    ∃ v m', constStruct type items m = .ok v m' := by
  obtain ⟨data, hdata⟩ := exists_typeData htype
  have hbody : ∃ body, m.structBody? type = .ok body := by
    rw [Module.structBody?, hdata]
    cases data with
    | struct name members packed => cases members <;> exact ⟨_, rfl⟩
    | _ => exact ⟨_, rfl⟩
  obtain ⟨body, hbody⟩ := hbody
  refine runs_query hbody ?_
  cases body <;> exact Idles.runs hm

theorem setInitializer_runs {global value : ValueId} (hglobal : global.index < m.values.size)
    (hvalue : value.index < m.values.size) : ∃ u m', setInitializer global value m = .ok u m' := by
  obtain ⟨v, hv⟩ := exists_value hvalue
  obtain ⟨g, hg⟩ := exists_value hglobal
  have htype : m.typeOf value = .ok v.type := by
    rw [Module.typeOf, hv]
    rfl
  have hconstant : m.isConstant value = .ok v.kind.isConstant := by
    rw [Module.isConstant, hv]
    rfl
  refine runs_query htype (runs_query hconstant (runs_query hg ?_))
  cases g.kind <;> exact Idles.runs hm

set_option synthInstance.maxSize 256 in
theorem addFunction_runs {type : TypeId} (name : String) (linkage : Linkage)
    (htype : type.index < m.types.size) : ∃ f m', addFunction name type linkage m = .ok f m' := by
  obtain ⟨data, hdata⟩ := exists_typeData htype
  have hsignature : ∃ signature, m.signature? type = .ok signature := by
    rw [Module.signature?, hdata]
    cases data <;> exact ⟨_, rfl⟩
  obtain ⟨signature, hsignature⟩ := hsignature
  have (params : List ValueId) (value : ValueId) : Idles (modify fun m : Module => { m with
      functions := m.functions.push { name, type, linkage, params, value } } : Build Unit) :=
    Idles.modify fun _ => rfl
  refine runs_query hsignature ?_
  cases signature <;> exact Idles.runs hm

end Idling

end Ssa.Build

namespace Lowering

section Reasons

/-- Whether a failure is about the hierarchy. -/
def LoweringError.isStructural : LoweringError → Bool
  | .cyclicInheritance _ | .methodSlotNotFound .. => true
  | _ => false

/-- A kind of errors that all those are of which are not about the hierarchy. -/
class CoversOthers (F : LoweringError → Prop) : Prop where
  other : ∀ e : LoweringError, e.isStructural = false → F e

def Stop.Among (P : Fault → Prop) (F : LoweringError → Prop) : Stop → Prop
  | .fault f => P f
  | .error e => F e

/-- An action on the registry that fails for other reasons than the hierarchy. -/
abbrev Unstructural {α : Type} (x : Registering α) : Prop :=
  Upholds (fun _ : Registry => True) (fun e _ => e.isStructural = false) x

instance (taken : Bool) (kind : EntryKind) (name : Except Fault String) :
    Unstructural (Registering.claim taken kind name) where
  ok _ _ := trivial
  fails _ h := by
    unfold Registering.claim at h
    split at h
    · split at h <;> cases h
      rfl
    · cases h

instance (change : Registry → Registry) : Unstructural (modify change) where
  ok _ _ := trivial
  fails _ h := nomatch h

end Reasons

variable {P : Fault → Prop} {F : LoweringError → Prop} {I : Session → Prop} {s : Session}
  {α β : Type}

section Actions

/-- Whether what stops an action in a state is a fault of one kind or an error of another. -/
def StopsIn (P : Fault → Prop) (F : LoweringError → Prop) (x : Lower α) (s : Session) : Prop :=
  ∀ stop s', x s = .error stop s' → stop.Among P F

theorem StopsIn.seq {x : Lower α} {f : α → Lower β} (hx : StopsIn P F x s)
    (hf : ∀ a t, x s = .ok a t → StopsIn P F (f a) t) : StopsIn P F (x >>= f) s := by
  intro stop s' h
  rcases bind_eq_error_iff.mp h with hfirst | ⟨a, t, hfirst, hrest⟩
  · exact hx stop s' hfirst
  · exact hf a t hfirst stop s' hrest

/-- A loop with an invariant. -/
theorem StopsIn.foldlM {J : β → Session → Prop} {f : β → α → Lower β} {items : List α} {start : β}
    (hs : J start s)
    (hf : ∀ {b : β} {t : Session}, ∀ a ∈ items, J b t → StopsIn P F (f b a) t)
    (hinv : ∀ {b b' : β} {a : α} {t t' : Session}, J b t → f b a t = .ok b' t' → J b' t') :
    StopsIn P F (items.foldlM f start) s := by
  induction items generalizing start s with
  | nil => exact fun _ _ h => nomatch h
  | cons item rest ih =>
      rw [List.foldlM_cons]
      refine StopsIn.seq (hf item List.mem_cons_self hs) fun b t hrun => ?_
      exact ih (hinv hs hrun) fun a ha => hf a (List.mem_cons_of_mem _ ha)

/-- Whether a property of the first state is one of the second, too. -/
def Session.Sustains (I : Session → Prop) (s s' : Session) : Prop := I s → I s'

instance : IsPreorder Session (Session.Sustains I) where
  refl _ := id
  trans _ _ _ h h' := h' ∘ h

section Sustained

variable {asm : Assembly} {J : Session → Prop}

/-- What is true of all states that a relation leads to from a state of which it is true. -/
theorem completing_of {R : Session → Session → Prop} [hR : Completing asm R]
    (h : ∀ {s s'}, R s s' → I s → I s') : Completing asm (Session.Sustains I) where
  build hx := ⟨fun hrun => h ((hR.build hx).run hrun)⟩
  layout ty := ⟨fun hrun => h ((hR.layout ty).run hrun)⟩
  declareFunction m := ⟨fun hrun => h ((hR.declareFunction m).run hrun)⟩
  staticField f := ⟨fun hrun => h ((hR.staticField f).run hrun)⟩
  slotTableType owner := ⟨fun hrun => h ((hR.slotTableType owner).run hrun)⟩
  constant name type initial := ⟨fun hrun => h ((hR.constant name type initial).run hrun)⟩
  indirectionTable cls tables := ⟨fun hrun => h ((hR.indirectionTable cls tables).run hrun)⟩
  addVTable ty table := ⟨fun hrun => h ((hR.addVTable ty table).run hrun)⟩
  setStructBody id members packed := ⟨fun hrun => h ((hR.setStructBody id members packed).run hrun)⟩

/-- What is sustained on its own is sustained together. -/
theorem completing_and (hI : Completing asm (Session.Sustains I))
    (hJ : Completing asm (Session.Sustains J)) :
    Completing asm (Session.Sustains fun s => I s ∧ J s) :=
  have hboth {α : Type} {x : Lower α} (hx : Keeps (Session.Sustains I) x)
      (hx' : Keeps (Session.Sustains J) x) : Keeps (Session.Sustains fun s => I s ∧ J s) x :=
    ⟨fun hrun hs => ⟨hx.run hrun hs.1, hx'.run hrun hs.2⟩⟩
  { build := fun hx => hboth (hI.build hx) (hJ.build hx)
    layout := fun ty => hboth (hI.layout ty) (hJ.layout ty)
    declareFunction := fun m => hboth (hI.declareFunction m) (hJ.declareFunction m)
    staticField := fun f => hboth (hI.staticField f) (hJ.staticField f)
    slotTableType := fun owner => hboth (hI.slotTableType owner) (hJ.slotTableType owner)
    constant := fun name type initial =>
      hboth (hI.constant name type initial) (hJ.constant name type initial)
    indirectionTable := fun cls tables =>
      hboth (hI.indirectionTable cls tables) (hJ.indirectionTable cls tables)
    addVTable := fun ty table => hboth (hI.addVTable ty table) (hJ.addVTable ty table)
    setStructBody := fun id members packed =>
      hboth (hI.setStructBody id members packed) (hJ.setStructBody id members packed) }

end Sustained

/-- An action that stops for faults of one kind and errors of another only,
where something holds. -/
class Stops (I : Session → Prop) (P : Fault → Prop) (F : LoweringError → Prop) (x : Lower α) :
    Prop where
  stops : ∀ {s}, I s → StopsIn P F x s

theorem StopsIn.of_stops {x : Lower α} (hs : I s) (hx : Stops I P F x) : StopsIn P F x s :=
  hx.stops hs

namespace Stops

section Sequences

instance pure (a : α) : Stops I P F (pure a) := ⟨fun _ _ _ h => nomatch h⟩

/-- What comes after an action may rely on its answer and on the state that it leads to. -/
theorem seqIn {x : Lower α} {f : α → Lower β} (hx : Stops I P F x)
    [hI : Keeps (Session.Sustains I) x]
    (hf : ∀ {s a t}, I s → I t → x s = .ok a t → StopsIn P F (f a) t) : Stops I P F (x >>= f) where
  stops hs := (hx.stops hs).seq fun _ _ h => hf hs (hI.run h hs) h

theorem seq {x : Lower α} {f : α → Lower β} (hx : Stops I P F x) [Keeps (Session.Sustains I) x]
    (hf : ∀ a, Stops I P F (f a)) : Stops I P F (x >>= f) :=
  seqIn hx fun _ ht _ => (hf _).stops ht

instance bind (x : Lower α) (f : α → Lower β) [hx : Stops I P F x] [Keeps (Session.Sustains I) x]
    [hf : ∀ a, Stops I P F (f a)] : Stops I P F (x >>= f) :=
  seq hx hf

/-- What comes after an action in one state. -/
theorem after {x : Lower α} {f : α → Lower β} (hs : I s) (hx : StopsIn P F x s)
    [hI : Keeps (Session.Sustains I) x] (hf : ∀ a, Stops I P F (f a)) : StopsIn P F (x >>= f) s :=
  hx.seq fun _ _ h => (hf _).stops (hI.run h hs)

/-- A value that is returned in the end. -/
theorem returning (g : α → β) {x : Lower α} (hx : Stops I P F x) :
    Stops I P F (x >>= fun a => Pure.pure (g a)) where
  stops hs := (hx.stops hs).seq fun _ _ _ _ _ h => nomatch h

instance map (g : α → β) (x : Lower α) [hx : Stops I P F x] : Stops I P F (g <$> x) :=
  returning g hx

instance get : Stops I P F get := ⟨fun _ _ _ h => nomatch h⟩

instance ite (c : Prop) [Decidable c] (x y : Lower α) [hx : Stops I P F x] [hy : Stops I P F y] :
    Stops I P F (if c then x else y) :=
  iteInduction (fun _ => hx) fun _ => hy

end Sequences

section Loops

theorem composes : Composes fun (α : Type) (x : Lower α) =>
    Stops I P F x ∧ Keeps (Session.Sustains I) x where
  pure a := ⟨pure a, Keeps.pure a⟩
  bind {_ _ _ _} hx hf :=
    have := hx.2
    ⟨seq hx.1 fun a => (hf a).1, Keeps.seq hx.2 fun a => (hf a).2⟩

theorem mapM_of {f : α → Lower β} [∀ a, Keeps (Session.Sustains I) (f a)] {items : List α}
    (hf : ∀ a ∈ items, Stops I P F (f a)) : Stops I P F (items.mapM f) :=
  (composes.mapM fun a ha => ⟨hf a ha, inferInstance⟩).1

instance mapM (f : α → Lower β) [∀ a, Keeps (Session.Sustains I) (f a)]
    [hf : ∀ a, Stops I P F (f a)] (items : List α) : Stops I P F (items.mapM f) :=
  mapM_of fun a _ => hf a

instance forM (f : α → Lower PUnit) [∀ a, Keeps (Session.Sustains I) (f a)]
    [∀ a, Stops I P F (f a)] (items : List α) : Stops I P F (items.forM f) :=
  (composes.forM fun _ _ => ⟨inferInstance, inferInstance⟩).1

end Loops

end Stops

section Anything

def AnyError (_ : LoweringError) : Prop := True

/-- Any state. -/
def Session.Any (_ : Session) : Prop := True

instance : CoversOthers AnyError := ⟨fun _ _ => trivial⟩

instance (x : Lower α) : Keeps (Session.Sustains Session.Any) x := ⟨fun _ _ => trivial⟩

instance : Listing (Session.Sustains Session.Any) := ⟨fun _ => inferInstance⟩

end Anything

end Actions

section Operations

variable {asm : Assembly}

instance (question : Except Fault α) [h : Faults P question] :
    Stops I P F (Lower.ask question) where
  stops _ stop s' hrun := by
    unfold Lower.ask at hrun
    split at hrun
    · cases hrun
    · cases hrun
      exact h.fault rfl

/-- An action on the module stops for faults only. -/
theorem stopsIn_build {x : Build α} (h : Faults P x) : StopsIn P F (Lower.build x) s := by
  intro stop s' hrun
  unfold Lower.build at hrun
  split at hrun
  · cases hrun
  · rename_i fault m hbuild
    cases hrun
    exact h.buildFault hbuild

theorem stopsIn_runs {x : Build α} (h : ∃ a m, x s.module = .ok a m) :
    StopsIn P F (Lower.build x) s := by
  obtain ⟨a, m, hrun⟩ := h
  intro stop s' h
  unfold Lower.build at h
  rw [hrun] at h
  cases h

instance (x : Build α) [h : Faults P x] : Stops I P F (Lower.build x) := ⟨fun _ => stopsIn_build h⟩

instance (x : Build α) [h : Stops I P F (Lower.build x)] : Stops I P F (liftM x : Lower α) := h

instance (x : Registering α) [h : Stops I P F (Lower.register x)] :
    Stops I P F (liftM x : Lower α) := h

instance (x : Except Fault α) [h : Stops I P F (Lower.ask x)] : Stops I P F (liftM x : Lower α) := h

theorem stops_fail {error : LoweringError} (h : F error) :
    Stops I P F (Lower.fail error : Lower α) where
  stops _ stop s' hrun := by
    cases hrun
    exact h

variable [hF : CoversOthers F]

include hF in
/-- Registering may fail for other reasons than the hierarchy. -/
theorem stops_register {x : Registering α} [hfaults : Faults P x] (hx : Unstructural x) :
    Stops I P F (Lower.register x) where
  stops _ stop s' hrun := by
    unfold Lower.register at hrun
    split at hrun
    · cases hrun
    · rename_i stop r hregister
      cases hrun
      cases stop with
      | fault fault => exact hfaults.stop hregister
      | error error => exact hF.other error (hx.fails trivial hregister)

variable [CoversMetadata P]

instance (name : String) (f : FunctionId) :
    Stops I P F (Lower.register (Registering.addFunction name f)) := by
  refine stops_register ?_
  unfold Registering.addFunction
  infer_instance

instance (f : FieldId) (global : ValueId) :
    Stops I P F (Lower.register (Registering.addStaticField asm f global)) := by
  refine stops_register ?_
  unfold Registering.addStaticField
  infer_instance

instance (ty : TypeDefId) (table : VTable) :
    Stops I P F (Lower.register (Registering.addVTable asm ty table)) := by
  refine stops_register ?_
  unfold Registering.addVTable
  infer_instance

instance (ty : TypeDefId) (id : TypeId) :
    Stops I P F (Lower.register (Registering.addType asm ty id)) := by
  refine stops_register ?_
  unfold Registering.addType
  infer_instance

instance (ty : TypeDefId) : Stops I P F (Lower.register (Registering.addInterface asm ty)) := by
  refine stops_register ?_
  unfold Registering.addInterface
  infer_instance

instance (m : MethodId) : Stops I P F (Lower.register (Registering.addCctor m)) := by
  refine stops_register ?_
  unfold Registering.addCctor
  infer_instance

instance (owner : TypeDefId) (id : TypeId) :
    Stops I P F (Lower.register (Registering.addSlotTable asm owner id)) := by
  refine stops_register ?_
  unfold Registering.addSlotTable
  infer_instance

/-- The lack of an entry may be reported. -/
theorem stops_found {ty : TypeDefId} {missing : String → LoweringError}
    {entry : Registry → Option α} (hmissing : ∀ name, (missing name).isStructural = false) :
    Stops I P F (Lower.consult fun r => Registry.found asm ty missing (entry r)) where
  stops {s} _ stop s' hrun := by
    obtain ⟨hfound, -⟩ := consult_eq_error_iff.mp hrun
    cases stop with
    | fault fault =>
        exact (inferInstance : Faults P (Registry.found asm ty missing (entry s.registry))).all
          _ hfound fault rfl
    | error error =>
        obtain ⟨-, name, -, rfl⟩ := found_eq_error hfound
        exact hF.other _ (hmissing name)

instance (ty : TypeDefId) : Stops I P F (Lower.consult fun r => r.type asm ty) :=
  stops_found fun _ => rfl

instance (ty : TypeDefId) : Stops I P F (Lower.consult fun r => r.interfaceIndex asm ty) :=
  stops_found fun _ => rfl

end Operations

section Readiness

/-- States in which no block is being filled, unless it does not matter whether there is one. -/
class Idling (I : Session → Prop) (P : Fault → Prop) : Prop where
  idle : ∀ {s}, I s → CoversIds P ∨ s.module.position = none

/-- An action on the module that has a result where no block is being filled. -/
theorem stopsIn_idle [hI : Idling I P] {x : Build α} (hs : I s) (hids : CoversIds P → Faults P x)
    (hidle : s.module.position = none → ∃ a m, x s.module = .ok a m) :
    StopsIn P F (Lower.build x) s := by
  rcases hI.idle hs with hcovers | hs
  · exact stopsIn_build (hids hcovers)
  · exact stopsIn_runs (hidle hs)

instance [Idling I P] (name : String) (content : TypeId) :
    Stops I P F (Lower.build (Build.addGlobal name content)) :=
  ⟨fun hs => stopsIn_idle hs (fun _ => inferInstance) Build.Idles.runs⟩

/-- Whether no block is being filled and what is registered can be looked up. -/
structure Session.Ready (s : Session) : Prop where
  idle : s.module.position = none
  functions : s.FunctionsSound
  tables : ∀ {owner : TypeDefId} {id : TypeId}, s.registry.slotTable? owner = some id →
    id.index < s.module.types.size

/-- States in which the module need not be asked for ids that it does not have, unless it does not
matter whether it has them. -/
class Sustaining (I : Session → Prop) (P : Fault → Prop) : Prop where
  ready : ∀ {s}, I s → CoversIds P ∨ s.Ready

instance [hI : Sustaining I P] : Idling I P where
  idle hs := (hI.ready hs).imp_right Session.Ready.idle

/-- An action on the module that has a result in a state in which ids lead somewhere. -/
theorem stopsIn_ready [hI : Sustaining I P] {x : Build α} (hs : I s)
    (hids : CoversIds P → Faults P x) (hready : s.Ready → ∃ a m, x s.module = .ok a m) :
    StopsIn P F (Lower.build x) s := by
  rcases hI.ready hs with hcovers | hs
  · exact stopsIn_build (hids hcovers)
  · exact stopsIn_runs (hready hs)

/-- Whether no block is being filled. -/
def Session.Idle (P : Fault → Prop) (s : Session) : Prop := CoversIds P ∨ s.module.position = none

instance : Idling (Session.Idle P) P := ⟨fun hs => hs⟩

instance : Building noAddress (Session.Sustains (Session.Idle P)) where
  build hx := ⟨fun h => by
    obtain ⟨m, hrun, rfl⟩ := Lower.build_eq_ok_iff.mp h
    refine Or.imp_right fun hs => ?_
    exact ((hx.run hrun).position fun c hc b heq => by subst heq; exact hc).trans hs⟩

/-- Whether no block is being filled and the module has a type. -/
def Session.Offers (P : Fault → Prop) (id : TypeId) (s : Session) : Prop :=
  CoversIds P ∨ s.module.position = none ∧ id.index < s.module.types.size

variable {id : TypeId}

theorem offers_of_lt [hI : Idling I P] (hs : I s) (h : id.index < s.module.types.size) :
    s.Offers P id :=
  (hI.idle hs).imp_right fun hidle => ⟨hidle, h⟩

instance : Listing (Session.Sustains (Session.Offers P id)) where
  build hx := ⟨fun h => by
    obtain ⟨m, hrun, rfl⟩ := Lower.build_eq_ok_iff.mp h
    have hevolves := hx.run hrun
    refine Or.imp_right fun hs => ⟨?_, Nat.lt_of_lt_of_le hs.2 hevolves.types_le⟩
    exact (hevolves.position fun c hc b heq => by subst heq; exact hc).trans hs.1⟩

instance (x : Registering α) :
    Keeps (Session.Sustains (Session.Offers P id)) (Lower.register x) where
  run h := by
    obtain ⟨r, -, rfl⟩ := Lower.register_eq_ok_iff.mp h
    exact fun hs => hs

instance (members : List TypeId) (packed : Bool) :
    Stops (Session.Offers P id) P F (Lower.build (Build.setStructBody id members packed)) where
  stops hs := by
    rcases hs with hcovers | ⟨hidle, hid⟩
    · exact stopsIn_build inferInstance
    · exact stopsIn_runs (Build.setStructBody_runs hidle members packed hid)

end Readiness

end Lowering

end CilSsa
