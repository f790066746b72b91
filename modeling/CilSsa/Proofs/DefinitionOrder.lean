import CilSsa.Proofs.Compiling
import CilSsa.Proofs.DefinitionRuns
import CilSsa.Proofs.InterfaceClosures
import CilSsa.Proofs.LayoutQueries

/-!
The order in which types are defined.

Once types are declared, ids lead somewhere and layouts are found as with nothing remembered, so the
definition of all types comes to an end.  Only a slot that is looked for without end prevents that,
and there is one only if the bases of a root come back to it.  Types that wait for each other are
reported, and no others.
-/

namespace CilSsa.Lowering

open Ssa Metadata Assembly

variable {asm : Assembly} {s s' start : Session} {ty : TypeDefId}

section Readiness

/-- Whether the structs of slots are types of the module and layouts are found as with nothing
remembered. -/
structure Session.Orderly (asm : Assembly) (s : Session) : Prop where
  tables : ∀ {owner : TypeDefId} {id : TypeId}, s.registry.slotTable? owner = some id →
    id.index < s.module.types.size
  layouts : s.layouts.Accurate asm []

theorem Session.Orderly.later {P : Change → Prop} {m : Module} (h : s.Orderly asm)
    (hm : s.module.Evolves P m) : Session.Orderly asm { s with module := m } where
  tables hfound := Nat.lt_of_lt_of_le (h.tables hfound) hm.types_le
  layouts := h.layouts

theorem orderly_build {α : Type} {P : Change → Prop} {x : Build α}
    (hx : Keeps (Module.Evolves P) x) :
    Keeps (Session.Sustains (Session.Orderly asm)) (Lower.build x) where
  run h hs := by
    obtain ⟨m, hrun, rfl⟩ := Lower.build_eq_ok_iff.mp h
    exact hs.later (hx.run hrun)

theorem orderly_register {α : Type} {x : Registering α}
    (hx : ∀ {r a r'}, x r = .ok a r' → r'.slotTables = r.slotTables) :
    Keeps (Session.Sustains (Session.Orderly asm)) (Lower.register x) where
  run h hs := by
    obtain ⟨r, hregister, rfl⟩ := Lower.register_eq_ok_iff.mp h
    refine ⟨fun hfound => ?_, hs.layouts⟩
    rw [Registry.slotTable?, hx hregister] at hfound
    exact hs.tables hfound

instance : Listing (Session.Sustains (Session.Orderly asm)) where
  build hx := orderly_build hx

instance : Building noAddress (Session.Sustains (Session.Orderly asm)) where
  build hx := orderly_build hx

instance (id : TypeId) (members : List TypeId) (packed : Bool) :
    Keeps (Session.Sustains (Session.Orderly asm))
      (Lower.build (Build.setStructBody id members packed)) :=
  orderly_build (P := Change.Any) inferInstance

instance (global initial : ValueId) : Keeps (Session.Sustains (Session.Orderly asm))
    (Lower.build (Build.setInitializer global initial)) :=
  orderly_build (P := Change.Any) inferInstance

instance (name : String) (f : FunctionId) : Keeps (Session.Sustains (Session.Orderly asm))
    (Lower.register (Registering.addFunction name f)) :=
  orderly_register fun h => by
    obtain ⟨-, rfl⟩ := Registering.addFunction_eq_ok h
    rfl

instance (f : FieldId) (g : ValueId) : Keeps (Session.Sustains (Session.Orderly asm))
    (Lower.register (Registering.addStaticField asm f g)) :=
  orderly_register fun h => by
    obtain ⟨-, rfl⟩ := Registering.addStaticField_eq_ok h
    rfl

instance (ty : TypeDefId) (table : VTable) : Keeps (Session.Sustains (Session.Orderly asm))
    (Lower.register (Registering.addVTable asm ty table)) :=
  orderly_register fun h => by
    obtain ⟨-, rfl⟩ := Registering.addVTable_eq_ok h
    rfl

/-- A struct of slots is a type of the module from the moment on at which it is registered. -/
theorem orderly_slotTableType {owner : TypeDefId} :
    Keeps (Session.Sustains (Session.Orderly asm)) (slotTableType asm owner) where
  run {s _ _} h hs := by
    rcases slotTableType_cases h with ⟨-, rfl⟩ | ⟨rfl, name, slots, members,
      t, m, hmembers, hset, rfl⟩
    · exact hs
    · have hgrown :
          s.module.Evolves Change.Any (s.module.apply (.addType (.struct name none false))) :=
        Module.Evolves.one trivial trivial
      have ht : t.Orderly asm := by
        refine (inferInstance : Keeps (Session.Sustains (Session.Orderly asm))
          (slots.mapM (slotType asm))).run hmembers ⟨fun hfound => ?_, hs.layouts⟩
        rcases lookup_cons_cases hfound with ⟨-, rfl⟩ | hfound
        · simp [Module.apply]
        · exact (hs.later hgrown).tables hfound
      exact (inferInstance : Keeps (Session.Sustains (Session.Orderly asm))
        (Lower.build (Build.setStructBody _ members false))).run
          (Lower.build_eq_ok_iff.mpr ⟨m, hset, rfl⟩) ht

instance : Completing asm (Session.Sustains (Session.Orderly asm)) where
  layout ty := ⟨fun h hs => by
    obtain ⟨c, hlayout, rfl⟩ := Lower.layout_eq_ok_iff.mp h
    have hanswer := (Layouts.structLayout_answers ty _ hs.layouts).2
    rw [hlayout] at hanswer
    exact ⟨hs.tables, hanswer⟩⟩
  declareFunction m := by
    unfold declareFunction
    refine Keeps.seq inferInstance fun name => Keeps.seq inferInstance fun s => ?_
    split <;> infer_instance
  staticField f := by
    unfold staticField
    refine Keeps.seq inferInstance fun s => ?_
    split <;> infer_instance
  slotTableType _ := orderly_slotTableType
  constant _ _ _ := inferInstance
  indirectionTable := indirectionTable_keeps inferInstance
  addVTable _ _ := inferInstance
  setStructBody _ _ _ := inferInstance

variable (asm) in
/-- A state in which types can be defined: no block is being filled, functions are registered under
their own names, and the rest is in order. -/
def Session.Steady (s : Session) : Prop :=
  (s.module.position = none ∧ s.FunctionsSound) ∧ s.Orderly asm

instance : Completing asm (Session.Sustains (Session.Steady asm)) := by
  have hidle : Completing asm (Session.Sustains fun s => s.module.position = none) :=
    completing_of (R := Session.On Module.Stays) fun hstays hs => Eq.trans hstays hs
  have hfunctions : Completing asm (Session.Sustains Session.FunctionsSound) :=
    completing_of (R := Session.Later asm) fun hlater hs => hlater.functions hs
  exact completing_and (completing_and hidle hfunctions) inferInstance

instance {P : Fault → Prop} : Sustaining (Session.Steady asm) P where
  ready hs := .inr ⟨hs.1.1, hs.1.2, hs.2.tables⟩

theorem steady_of_declareTypes {name : String} {u : Unit}
    (h : declareTypes asm { module := { name } } = .ok u s) : s.Steady asm := by
  have hstays : Session.On Module.Stays { module := { name } } s :=
    (inferInstance : Keeps (Session.On Module.Stays) (declareTypes asm)).run h
  have hstart := declared_of_declareTypes h
  obtain ⟨hfunctions, -, -, htables, -⟩ := hstart.rest
  refine ⟨⟨hstays, fun hfound => ?_⟩, fun hfound => ?_, ?_⟩
  · simp [Registry.function?, hfunctions] at hfound
  · simp [Registry.slotTable?, htables] at hfound
  · rw [hstart.layouts]
    exact .start

end Readiness

section Ends

def NamesInterfaces (asm : Assembly) : Prop :=
  ∀ ty iface, asm.HasInterface ty iface → asm.kindOf iface = .ok .interfaceType

def RootsOnTop (asm : Assembly) : Prop :=
  ∀ root base, isRoot root = true → asm.HasBase root base → isRoot base = true

/-- A method of an interface overrides nothing. -/
theorem acc_of_interface {m : MethodId} {md : MethodDef} (hmd : asm.method m = .ok md)
    (hkind : asm.kindOf md.declaringType = .ok .interfaceType) : Acc asm.Overridden m := by
  refine ⟨m, fun base hbase => ?_⟩
  simp only [Overridden, slotStep, hmd, hkind, bind, Except.bind, if_true] at hbase
  split at hbase <;> cases hbase

variable [hlinked : asm.Linked]

theorem slotsEnd_of_acc (hlisted : MethodsListed asm) (hinterfaces : NamesInterfaces asm)
    (hty : asm.HasType ty) (hbases : Acc (Function.swap asm.HasBase) ty) : SlotsEnd asm ty := by
  intro t ht d hd m hm
  have hmethod :=
    (hlinked.types d (Array.mem_of_getElem? (Arena.entry_eq_ok_iff.mp hd))).methods m hm
  have hmd : asm.method m = .ok asm.methods[m.index] :=
    Arena.entry_eq_ok_iff.mpr (Array.getElem?_eq_getElem hmethod)
  have hdeclares := hlisted t d m _ hd hm hmd
  rcases ht with hup | ⟨ifaces, hifaces, hmem⟩
  · exact acc_overridden hlisted (acc_of_path hbases hup) hmd hdeclares
  · obtain ⟨top, -, hpath⟩ := (mem_allInterfaces_iff hty hifaces).mp hmem
    obtain ⟨last, -, hnamed⟩ := Relation.TransGen.tail'_iff.mp hpath
    exact acc_of_interface hmd (hdeclares ▸ hinterfaces last t hnamed)

/-- A slot is looked for without end only if the bases of a root come back to it. -/
theorem exists_root_circle (hlisted : MethodsListed asm) (hroots : RootsOnTop asm)
    (hinterfaces : NamesInterfaces asm) (hty : asm.HasType ty) (hacc : Acc (Inherits asm) ty)
    (hendless : ¬ SlotsEnd asm ty) :
    ∃ root, isRoot root = true ∧ Relation.TransGen asm.HasBase root root := by
  by_contra hnone
  refine hendless (slotsEnd_of_acc hlisted hinterfaces hty (acc_bases (fun root hroot => ?_) hacc))
  refine acc_base fun t ht hcircle => hnone ⟨t, ?_, hcircle⟩
  clear hcircle
  induction ht with
  | refl => exact hroot
  | tail _ hbase ih => exact hroots _ _ ih hbase

omit hlinked in
/-- A layout needs no more slots than the tables of the type. -/
theorem Unending.not_slotsEnd (h : Unending asm ty) : ¬ SlotsEnd asm ty := by
  obtain ⟨t, -, hpath, -, d, hd, -, m, hm, hendless⟩ := h
  exact fun hends => hendless (hends t (.inl (hpath.lift id fun _ _ h => h.2)) d hd m hm)

end Ends

section Order

/-- A fault about an id, or the search for a slot of a type that can be defined. -/
def Astray (asm : Assembly) (fault : Fault) : Prop :=
  fault.OfMetadata ∨
    fault = .endless ∧ ∃ ty ∈ asm.userTypes, Acc (Inherits asm) ty ∧ ¬ SlotsEnd asm ty

/-- An error that is not about types that wait for each other, unless there are some. -/
def Warranted (asm : Assembly) (e : LoweringError) : Prop :=
  ∀ name, e = .cyclicInheritance name → ∃ ty, Relation.TransGen (Needs asm) ty ty

instance : CoversMetadata (Astray asm) := ⟨fun _ => .inl⟩

instance : CoversOthers (Warranted asm) where
  other e h name heq := by
    subst heq
    cases h

instance : CoversVacancies (Warranted asm) := ⟨fun _ _ _ heq => nomatch heq⟩

variable [hlinked : asm.Linked]

/-- The layout of a type that can be defined is found, unless some slot is not. -/
theorem laidOut_of_acc (hty : ty ∈ asm.userTypes) (hacc : Acc (Inherits asm) ty) :
    LaidOut asm (Session.Steady asm) (Astray asm) (Warranted asm) ty := by
  refine ⟨⟨fun {s} hs stop s' hrun => ?_⟩⟩
  obtain ⟨⟨d, hd⟩, -⟩ := mem_userTypes_iff.mp hty
  obtain ⟨hanswer, -⟩ := Layouts.structLayout_answers ty s.layouts hs.2.layouts
  unfold Lower.layout at hrun
  split at hrun
  · cases hrun
  · rename_i stop' c hlayout
    cases hrun
    rw [hlayout] at hanswer
    rcases layoutAfresh_of_acc hacc (hasType_of_typeDef hd) .start with
      ⟨-, layout, -, hfound⟩ | ⟨hunending, hendless⟩
    · cases hanswer.trans hfound
    · cases hanswer.trans hendless
      exact .inr ⟨rfl, ty, hty, hacc, hunending.not_slotsEnd⟩

variable (asm) in
theorem anticipated : Anticipated asm (Session.Steady asm) (Astray asm) (Warranted asm) where
  tables ty hty hacc := tablesKnown_of_end fun hendless => .inr ⟨rfl, ty, hty, hacc, hendless⟩
  layout _ := laidOut_of_acc
  cycle ty hcircle _ _ _ := ⟨ty, hcircle⟩

end Order

section Theorems

variable [hclosed : asm.Closed] {name : String} {u : Unit}

theorem known_of_declareTypes (h : declareTypes asm { module := { name } } = .ok u s) :
    CilSsa.Known asm s := by
  have hstart : CilSsa.Known asm ({ module := { name } } : Session) :=
    ⟨⟨inferInstance, inferInstance⟩, ⟨inferInstance⟩⟩
  exact ((inferInstance : Safe asm (declareTypes asm)).result hstart h).2

/-- Once types are declared, the definition of all types comes to an end, unless the bases of a root
come back to it and a slot is looked for without end.  It reports types that wait for each other
only where there are some, and where there are it does not succeed.  If it does, every type is
defined once, after its base and the structs that its instance fields name; and the struct of a
class or struct has no members before its type is defined, and the same ones ever after. -/
theorem types_in_order (hlisted : MethodsListed asm) (hroots : RootsOnTop asm)
    (hinterfaces : NamesInterfaces asm) (hplain : EnumsPlain asm)
    (hdeclare : declareTypes asm { module := { name } } = .ok u s) :
    (∀ stop s', compileTypes asm s = .error stop s' →
      (∃ e, stop = .error e ∧ ((∀ ty, ¬ Relation.TransGen (Needs asm) ty ty) →
        ∀ name, e ≠ .cyclicInheritance name)) ∨
      stop = .fault .endless ∧
        (∃ ty ∈ asm.userTypes, Acc (Inherits asm) ty ∧ ¬ SlotsEnd asm ty) ∧
        ∃ root, isRoot root = true ∧ Relation.TransGen asm.HasBase root root) ∧
    (∀ ty, Relation.TransGen (Needs asm) ty ty → ∀ s', compileTypes asm s ≠ .ok () s') ∧
    ∀ s', compileTypes asm s = .ok () s' → ∃ done, DefinitionRun asm ([], s) (done, s') ∧
      done.Nodup ∧ (∀ ty, ty ∈ done ↔ ty ∈ asm.userTypes) ∧
      ∀ before t, DefinitionRun asm ([], s) (before, t) → DefinitionRun asm (before, t) (done, s') →
        ∀ ty ∈ asm.userTypes, ∀ d, asm.typeDef ty = .ok d →
          d.kind = .classType ∨ d.kind = .structType →
          ∃ handle body, s.registry.types.lookup ty = some handle ∧
            s'.module.structBody? handle = .ok (some body) ∧
            t.module.structBody? handle = .ok (if ty ∈ before then some body else none) := by
  have hstart := declared_of_declareTypes hdeclare
  refine ⟨fun stop s' hcompile => ?_, fun ty hcircle s' => compileTypes_of_needs hstart hcircle,
    fun s' hcompile => ?_⟩
  · have hstop := stopsIn_compileTypes (anticipated asm) hstart
      (enumsComplete_of_declareTypes hplain hdeclare) (steady_of_declareTypes hdeclare) _ _ hcompile
    cases stop with
    | error e =>
        refine .inl ⟨e, rfl, fun hnone name heq => ?_⟩
        obtain ⟨ty, hcircle⟩ := hstop name heq
        exact hnone ty hcircle
    | fault fault =>
        have hsafe : fault.isDangling = false :=
          (inferInstance : Safe asm (compileTypes asm)).stop
            (known_of_declareTypes hdeclare) hcompile
        rcases hstop with hdangling | ⟨rfl, ty, hty, hacc, hendless⟩
        · cases hdangling.symm.trans hsafe
        · obtain ⟨⟨d, hd⟩, -⟩ := mem_userTypes_iff.mp hty
          exact .inr ⟨rfl, ⟨ty, hty, hacc, hendless⟩, exists_root_circle hlisted hroots hinterfaces
            (hasType_of_typeDef hd) hacc hendless⟩
  · obtain ⟨done, hrun, hall⟩ := run_of_compileTypes hstart hcompile
    have hend := hrun.definedSoFar hstart
    refine ⟨done, hrun, hend.nodup, fun ty => ⟨hend.user ty, hall ty⟩, ?_⟩
    intro before t hbefore hafter ty hty d hd hkind
    obtain ⟨handle, hhandle⟩ := hstart.known ty hty
    obtain ⟨name, body, packed, hbody⟩ := hend.filled ty (hall ty hty) d hd hkind handle hhandle
    refine ⟨handle, (body, packed), hhandle, Module.structBody?_eq_ok hbody, ?_⟩
    have hbetween := hbefore.definedSoFar hstart
    by_cases hmem : ty ∈ before
    · obtain ⟨name', body', packed', hbody'⟩ := hbetween.filled ty hmem d hd hkind handle hhandle
      cases (hafter.later.module.partsKept hbody' (by simp)).symm.trans hbody
      rw [if_pos hmem]
      exact Module.structBody?_eq_ok hbody'
    · obtain ⟨name', packed', hblank⟩ :=
        hbetween.blank ty hmem (hasStruct_of_kind hd hkind) handle hhandle
      rw [if_neg hmem, Module.structBody?, Module.typeData, Arena.entry_eq_ok_iff.mpr hblank]
      rfl

/-- A class that comes before its base and before the structs that it contains,
one within the other. -/
def caravan : Assembly :=
  let roots := Assembly.ofName "caravan"
  let virtual (ty : TypeDefId) : MethodDef :=
    { name := "Roll", declaringType := ty, returnType := .void, flags := ⟨MethodFlags.virtual⟩ }
  { roots with
    types := roots.types ++ #[
      { TypeDef.ofKind .classType "" "Wagon" with
        base := some ⟨4⟩, interfaces := [⟨7⟩], fields := [⟨0⟩], methods := [⟨0⟩] },
      { TypeDef.ofKind .classType "" "Cart" with base := some ⟨0⟩, methods := [⟨1⟩] },
      { TypeDef.ofKind .structType "" "Crate" with base := some ⟨1⟩, fields := [⟨1⟩] },
      { TypeDef.ofKind .structType "" "Goods" with base := some ⟨1⟩, fields := [⟨2⟩] },
      { TypeDef.ofKind .interfaceType "" "IRoll" with methods := [⟨2⟩] }]
    fields := #[⟨"crate", ⟨3⟩, .named ⟨5⟩, false⟩, ⟨"goods", ⟨5⟩, .named ⟨6⟩, false⟩,
      ⟨"count", ⟨6⟩, .i4, false⟩]
    methods := #[virtual ⟨3⟩, virtual ⟨4⟩, virtual ⟨7⟩] }

instance : caravan.Linked :=
  (validate_eq_ok_iff.mp (by decide +kernel : caravan.validate = .ok ())).toLinked

instance : caravan.Closed := ⟨by decide⟩

theorem caravan_listed : MethodsListed caravan := methodsListed_of_forall (by decide)

theorem caravan_roots : RootsOnTop caravan := by
  rintro root base hroot ⟨d, hd, hbase⟩
  exact forall_typeDef (P := fun ty d => isRoot ty = true → ∀ base ∈ d.base, isRoot base = true)
    (by decide) hd hroot base hbase

theorem caravan_interfaces : NamesInterfaces caravan := by
  rintro ty iface ⟨d, hd, hmem⟩
  exact forall_typeDef (P := fun _ d => ∀ iface ∈ d.interfaces,
    caravan.kindOf iface = .ok .interfaceType) (by decide) hd iface hmem

theorem caravan_enums : EnumsPlain caravan := by
  intro ty inner henum
  obtain ⟨d, hd, hkind⟩ := kindOf_eq_ok_iff.mp henum
  exact absurd hkind (forall_typeDef (P := fun _ d => d.kind ≠ .enumType) (by decide) hd)

def caravanDeclared : Session := stateOf (declareTypes caravan { module := { name := "module" } })

def caravanDefined : Session := stateOf (compileTypes caravan caravanDeclared)

/-- The class has no members before its turn. -/
theorem caravan_in_order :
    caravan.Closed ∧ MethodsListed caravan ∧ RootsOnTop caravan ∧ NamesInterfaces caravan ∧
      EnumsPlain caravan ∧
      declareTypes caravan { module := { name := "module" } } = .ok () caravanDeclared ∧
      ∃ done, DefinitionRun caravan ([], caravanDeclared) (done, caravanDefined) ∧ done.Nodup ∧
        (∀ ty, ty ∈ done ↔ ty ∈ caravan.userTypes) ∧
        ∀ before t, DefinitionRun caravan ([], caravanDeclared) (before, t) →
          DefinitionRun caravan (before, t) (done, caravanDefined) → ⟨3⟩ ∉ before →
          t.module.structBody? ⟨0⟩ = .ok none := by
  have hdeclare : declareTypes caravan { module := { name := "module" } } =
      .ok () caravanDeclared :=
    eq_ok_stateOf (by decide +kernel)
  have hcompile : compileTypes caravan caravanDeclared = .ok () caravanDefined :=
    eq_ok_stateOf (by decide +kernel)
  obtain ⟨-, -, hdone⟩ :=
    types_in_order caravan_listed caravan_roots caravan_interfaces caravan_enums hdeclare
  obtain ⟨done, hrun, hnodup, hall, hbodies⟩ := hdone _ hcompile
  refine ⟨inferInstance, caravan_listed, caravan_roots, caravan_interfaces,
    caravan_enums, hdeclare, done, hrun, hnodup, hall, fun before t hbefore hafter hwaits => ?_⟩
  obtain ⟨handle, body, hhandle, -, hbody⟩ :=
    hbodies before t hbefore hafter ⟨3⟩ (by decide) _ rfl (.inl rfl)
  have hfirst : caravanDeclared.registry.types.lookup ⟨3⟩ = some ⟨0⟩ := by decide +kernel
  obtain rfl := Option.some.inj (hfirst.symm.trans hhandle)
  rwa [if_neg hwaits] at hbody

/-- Two roots that are the base of each other keep a class under one of them from being defined. -/
theorem rings_unfinished :
    rings.Closed ∧ MethodsListed rings ∧ RootsOnTop rings ∧ NamesInterfaces rings ∧
      EnumsPlain rings ∧ ∃ s, declareTypes rings { module := { name := "module" } } = .ok () s ∧
        answerOf (compileTypes rings s) = .error (.fault .endless) := by
  refine ⟨⟨by decide⟩, rings_listed, rings_roots, ?_, ?_, _, eq_ok_stateOf (by decide +kernel),
    by decide +kernel⟩
  · rintro ty iface ⟨d, hd, hmem⟩
    have hall : ∀ d ∈ rings.types, d.interfaces = [] := by decide
    simp [hall d (Array.mem_of_getElem? (Arena.entry_eq_ok_iff.mp hd))] at hmem
  · intro ty inner henum
    obtain ⟨d, hd, hkind⟩ := kindOf_eq_ok_iff.mp henum
    have hall : ∀ d ∈ rings.types, d.kind ≠ .enumType := by decide
    exact absurd hkind (hall d (Array.mem_of_getElem? (Arena.entry_eq_ok_iff.mp hd)))

end Theorems

end CilSsa.Lowering
