import CilSsa.Proofs.Linkage

/-!
What methods leave alone in the registry.

The compilation of methods registers functions, static fields and allocation routines, and folds
static fields.  Whatever else the registry holds is the same before and after, also if a compilation
fails.
-/

namespace CilSsa.Lowering

open CilSsa.Metadata CilSsa.Ssa

/-- A part of the registry that methods have nothing to do with. -/
class Registry.Fixed {β : Type} (view : Registry → β) : Prop where
  functions : ∀ r functions, view { r with functions } = view r
  staticFields : ∀ r staticFields, view { r with staticFields } = view r
  newobjs : ∀ r newobjs, view { r with newobjs } = view r
  folded : ∀ r folded, view { r with folded } = view r

instance : Registry.Fixed Registry.cctors :=
  ⟨fun _ _ => rfl, fun _ _ => rfl, fun _ _ => rfl, fun _ _ => rfl⟩

instance : Registry.Fixed Registry.vtables :=
  ⟨fun _ _ => rfl, fun _ _ => rfl, fun _ _ => rfl, fun _ _ => rfl⟩

/-- What a part of the registry holds. -/
def Session.Shows {β : Type} (view : Registry → β) (known : β) (s : Session) : Prop :=
  view s.registry = known

namespace Session.Shows

variable {asm : Assembly} {settings : Settings} {α β : Type} {view : Registry → β} {known : β}

/-- Other registrations leave the part alone. -/
theorem upholds_register {x : Registering α} (hx : ∀ {r a r'}, x r = .ok a r' → view r' = view r) :
    Upholds (Session.Shows view known) (fun _ _ => True) (Lower.register x) :=
  Session.Ledger.upholds_of_ok fun hs h => by
    obtain ⟨r, hregister, rfl⟩ := Lower.register_eq_ok_iff.mp h
    exact (hx hregister).trans hs

instance (x : Build α) : Upholds (Session.Shows view known) (fun _ _ => True) (Lower.build x) :=
  upholds_build fun hs _ => hs

instance : Upholding Change.Any (Session.Shows view known) (fun _ _ => True) where
  build _ _ _ _ hs _ := hs
  here _ _ := trivial

instance (question : Registry → Except Stop α) :
    Upholds (Session.Shows view known) (fun _ _ => True) (Lower.consult question) :=
  upholds_consult fun _ _ => trivial

instance (x : Layouts α) :
    Upholds (Session.Shows view known) (fun _ _ => True) (Lower.layout x) :=
  Session.Ledger.upholds_of_ok fun hs h => by
    obtain ⟨c, -, rfl⟩ := Lower.layout_eq_ok_iff.mp h
    exact hs

theorem upholds_fail (error : LoweringError) :
    Upholds (Session.Shows view known) (fun _ _ => True) (Lower.fail error : Lower α) :=
  Session.Ledger.upholds_of_ok fun _ h => nomatch h

instance : Naming asm Change.Any (Session.Shows view known) (fun _ _ => True) where
  namedType _ := upholds_namedType fun _ => inferInstance

variable [hview : Registry.Fixed view]

instance (name : String) (f : FunctionId) : Upholds (Session.Shows view known) (fun _ _ => True)
    (Lower.register (Registering.addFunction name f)) :=
  upholds_register fun h => by
    obtain ⟨-, rfl⟩ := Registering.addFunction_eq_ok h
    exact hview.functions _ _

instance : Requesting asm Change.Any (Session.Shows view known) (fun _ _ => True) where
  declareFunction m := upholds_declareFunction m fun _ _ => inferInstance
  staticField f := upholds_staticField f fun g => upholds_register fun h => by
    obtain ⟨-, rfl⟩ := Registering.addStaticField_eq_ok h
    exact hview.staticFields _ _

set_option synthInstance.maxSize 4096 in
instance (ty : TypeDefId) :
    Upholds (Session.Shows view known) (fun _ _ => True) (newobjFunction asm ty) := by
  have hregister (f : FunctionId) : Upholds (Session.Shows view known) (fun _ _ => True)
      (Lower.register (Registering.addNewobj asm ty f)) := upholds_register fun h => by
    obtain ⟨-, rfl⟩ := Registering.claimed_eq_ok (fun r => r.hasNewobj ty) h
    exact hview.newobjs _ _
  have hresume (saved : Option BlockId) (f : FunctionId) :
      Upholds (Session.Shows view known) (fun _ _ => True) (do
        if let some block := saved then Build.positionAtEnd block
        return f : Lower FunctionId) := by
    cases saved <;> infer_instance
  unfold newobjFunction
  infer_instance

instance : Answering asm Change.Any (Session.Shows view known) (fun _ _ => True) where
  foldStatic f := upholds_register fun h => by
    rcases Registering.foldStatic_eq_ok h with ⟨-, -, rfl⟩ | ⟨-, -, rfl⟩
    · rfl
    · exact hview.folded _ _
  setInitializer _ _ := inferInstance
  stop _ := trivial
  layout _ := inferInstance
  newobjFunction _ := inferInstance

instance (d : MethodDef) (name : String) (f : FunctionId) (body : MethodBody) :
    Upholds (Session.Shows view known) (fun _ _ => True) (emitBody asm d name f body) := by
  refine (leads_emitBody_of_entry (Upholds.leads inferInstance) (fun _ => inferInstance)
    fun site hsite _ => ?_).upholds
  subst hsite
  have hbranching : Emit.Branching site.toFrame (fun _ => True)
      (fun _ => Session.Shows view known) (fun _ _ => True) (fun _ _ => True) :=
        branching_of_flowing
  have hall (_ : BlockId) : Answering site.asm Change.Any (Session.Shows view known)
      (fun _ _ => True) := inferInstance
  exact Emit.upholds_instruction_of_answering

instance (f : FunctionId) :
    Upholds (Session.Shows view known) (fun _ _ => True) (Lower.finish settings f) := by
  have hverified (result : Except VerifyError Unit) :
      Upholds (Session.Shows view known) (fun _ _ => True) (match result with
        | .ok () => return ()
        | .error error => Lower.fail (.verification error) : Lower Unit) := by
    cases result with
    | ok => exact Upholds.pure ()
    | error error => exact upholds_fail (.verification error)
  unfold Lower.finish Lower.verify
  infer_instance

instance (m : MethodId) :
    Upholds (Session.Shows view known) (fun _ _ => True) (compileMethod asm settings m) := by
  have hbody (d : MethodDef) (name : String) (body : MethodBody) :
      Upholds (Session.Shows view known) (fun _ _ => True)
        (compileBody asm settings m d name body) := by
    have (error : LoweringError) : Upholds (Session.Shows view known) (fun _ _ => True)
        (Lower.fail error : Lower MethodOutcome) := upholds_fail error
    unfold compileBody
    split <;> infer_instance
  unfold compileMethod
  refine Upholds.seq inferInstance fun d => Upholds.seq inferInstance fun kind =>
    Upholds.seq inferInstance fun name => ?_
  split
  · infer_instance
  · split <;> infer_instance

end Session.Shows

end CilSsa.Lowering
