import CilSsa.Lowering.Program
import CilSsa.Proofs.SafeEmission

/-!
What validation means for a compilation.

All ids that a validated assembly stores are ids of definitions, apart from the declaring types of
fields.  If these exist too, no compilation stops for an id of the metadata.
-/

namespace CilSsa

open Ssa Metadata Lowering

namespace Lowering

variable {asm : Assembly}

section Methods

variable [asm.Closed]

instance (f : FunctionId) (index : Nat) (sigs : List TypeSig) [h : Known asm sigs] :
    Safe asm (argVariables asm f index sigs) := by
  induction sigs generalizing index h with
  | nil => exact Safe.pure []
  | cons sig rest ih =>
      have := h.head
      have := h.tail
      unfold argVariables
      infer_instance

instance (sig : TypeSig) [Known asm sig] : Safe asm (localVariable asm sig) := by
  unfold localVariable
  infer_instance

instance (f : FunctionId) (index refers : Nat) : Safe asm (appendLeader f index refers) := by
  unfold appendLeader
  infer_instance

theorem emission_safe (frame : Frame) (body : MethodBody) [frame.asm.Closed] [Known frame.asm frame]
    [Known frame.asm body] : Safe frame.asm (emission frame body) := by
  unfold emission
  dsimp only
  infer_instance

omit [asm.Closed] in
theorem Emit.run_safe {α : Type} [HoldsIds α] {start : Session → EmitState} {x : Emit α}
    (hx : Safe asm x) (hstart : ∀ session, Known asm session → Known asm (start session)) :
    Safe asm (Emit.run start x) := by
  refine ⟨fun session hsession => ?_⟩
  unfold Emit.run
  cases hrun : x (start session) with
  | ok a s =>
      obtain ⟨ha, hs⟩ := hx.result (hstart session hsession) hrun
      exact ⟨ha, inferInstance⟩
  | error stop s => exact hx.stop (hstart session hsession) hrun

instance (d : MethodDef) (name : String) (f : FunctionId) (body : MethodBody) [Known asm d]
    [Known asm body] : Safe asm (emitBody asm d name f body) := by
  unfold emitBody
  refine Safe.seq inferInstance fun entry _ => Safe.seq inferInstance fun _ _ =>
    Safe.seq inferInstance fun sigs _ => Safe.seq inferInstance fun args _ =>
    Safe.seq inferInstance fun locals _ => Safe.seq inferInstance fun leaders hleaders => ?_
  have hframe : Known asm ({ asm, method := d, name, args, locals } : Frame) :=
    ⟨inferInstance, inferInstance, inferInstance⟩
  exact Emit.run_safe (emission_safe { asm, method := d, name, args, locals } body)
    fun session _ => ⟨inferInstance, ⟨inferInstance⟩, hleaders⟩

variable (settings : Settings)

instance (m : MethodId) (d : MethodDef) (name : String) (body : MethodBody) [Known asm m]
    [Known asm d] [Known asm body] : Safe asm (compileBody asm settings m d name body) := by
  unfold compileBody
  split <;> infer_instance

instance (m : MethodId) [Known asm m] : Safe asm (compileMethod asm settings m) := by
  unfold compileMethod
  refine Safe.seq inferInstance fun d _ => Safe.seq inferInstance fun kind _ =>
    Safe.seq inferInstance fun name _ => ?_
  split
  · infer_instance
  · cases hbody : d.body with
    | none => infer_instance
    | some body =>
        have : Known asm body := Known.of_eq_some hbody
        infer_instance

end Methods

section Programs

variable [asm.Closed] (settings : Settings)

instance (p : Progress) (ty : TypeDefId) [Known asm ty] :
    Safe asm (compileMethodsOf asm settings p ty) := by
  unfold compileMethodsOf
  dsimp only
  infer_instance

set_option synthInstance.maxSize 4096 in
instance (compiled : List MethodId) : Safe asm (emitStaticInit asm settings compiled) := by
  unfold emitStaticInit
  dsimp only
  infer_instance

instance : Safe asm (compileProgram asm settings) := by
  unfold compileProgram
  infer_instance

theorem compile_safe : Safe asm (compile asm settings) := by
  have hstart : Known asm ({ module := { name := settings.moduleName } } : Session) :=
    ⟨⟨inferInstance, inferInstance⟩, ⟨inferInstance⟩⟩
  have hprogram : Safe asm (compileProgram asm settings) := inferInstance
  unfold compile
  cases hrun : compileProgram asm settings { module := { name := settings.moduleName } } with
  | ok report session => exact ⟨inferInstance⟩
  | error stop session => exact ⟨hprogram.stop hstart hrun⟩

end Programs

end Lowering

section Validation

/-- Whether the questions about the hierarchy of an assembly meet no dangling id. -/
structure Metadata.Assembly.HierarchyResolves (asm : Assembly) : Prop where
  ancestors : ∀ ty, asm.HasType ty → Resolves (asm.selfAndAncestors ty >>= BaseChain.toList)
  interfaces : ∀ ty, asm.HasType ty → Resolves (asm.allInterfaces ty)
  methodNamed : ∀ ty name, asm.HasType ty → Resolves (asm.methodNamed ty name)
  fieldNamed : ∀ ty name, asm.HasType ty → Resolves (asm.fieldNamed ty name)
  slotMethod : ∀ m, asm.HasMethod m → Resolves (asm.slotMethod m)
  introducedSlots : ∀ ty, asm.HasType ty → Resolves (asm.introducedSlots ty)
  implementation : ∀ ty slot, asm.HasType ty → asm.HasMethod slot →
    Resolves (asm.implementation ty slot)

variable {asm : Assembly}

/-- A question about known types. -/
theorem resolves_of_hasType {α : Type} [HoldsIds α] {x : TypeDefId → Except Fault α}
    (h : ∀ ty : Item asm TypeDefId, Safe asm (x ty.val)) (ty : TypeDefId) (hty : asm.HasType ty) :
    Resolves (x ty) :=
  (h ⟨ty, ⟨hty⟩⟩).resolves

theorem Metadata.Assembly.Linked.hierarchyResolves [asm.Linked] : asm.HierarchyResolves where
  ancestors := resolves_of_hasType inferInstance
  interfaces := resolves_of_hasType inferInstance
  methodNamed ty name := resolves_of_hasType (x := (asm.methodNamed · name)) inferInstance ty
  fieldNamed ty name := resolves_of_hasType (x := (asm.fieldNamed · name)) inferInstance ty
  introducedSlots := resolves_of_hasType inferInstance
  slotMethod m hm :=
    have : Known asm m := ⟨hm⟩
    Safe.resolves (inferInstance : Safe asm _)
  implementation ty slot hty hslot :=
    have : Known asm slot := ⟨hslot⟩
    resolves_of_hasType (x := (asm.implementation · slot)) inferInstance ty hty

/-- All ids that a validated assembly stores are ids of definitions, with one exception: nobody has
looked at the declaring types of fields.  Questions about the hierarchy do not look at them either,
so they meet no dangling id; a compilation does, and meets none if the declaring types exist. -/
theorem validated_resolves (hvalid : asm.validate = .ok ()) :
    asm.Linked ∧ asm.HierarchyResolves ∧
      (asm.Closed ↔ ∀ d ∈ asm.fields, asm.HasType d.declaringType) ∧
      (asm.Closed → ∀ settings, Resolves (compile asm settings)) := by
  have hlinked : asm.Linked := (Assembly.validate_eq_ok_iff.mp hvalid).toLinked
  refine ⟨hlinked, hlinked.hierarchyResolves, ⟨fun h => h.declaringTypes, fun h => ⟨h⟩⟩, ?_⟩
  intro hclosed settings
  exact (compile_safe settings).resolves

/-- A class with a static field that says it was declared by type `owner`. -/
def stray (owner : TypeDefId) : Assembly :=
  let roots := Assembly.ofName "stray"
  { roots with
    types := roots.types.push
      { TypeDef.ofKind .classType "" "C" with base := some ⟨0⟩, fields := [⟨0⟩] }
    fields := #[{ name := "F", declaringType := owner, sig := .i4, isStatic := true }] }

theorem stray_escapes :
    ((stray ⟨3⟩).validate = .ok () ∧ (stray ⟨3⟩).Closed ∧ Resolves (compile (stray ⟨3⟩) {})) ∧
    (stray ⟨99⟩).validate = .ok () ∧ ¬ (stray ⟨99⟩).Closed ∧
      compile (stray ⟨99⟩) {} = .error (.fault (.outOfRange .typeDef 99)) := by
  have hvalid : (stray ⟨3⟩).validate = .ok () := by decide +kernel
  obtain ⟨-, -, hclosed, hcompile⟩ := validated_resolves hvalid
  have h : (stray ⟨3⟩).Closed := hclosed.mpr (by decide +kernel)
  have hvalid' : (stray ⟨99⟩).validate = .ok () := by decide +kernel
  have hstop : compile (stray ⟨99⟩) {} = .error (.fault (.outOfRange .typeDef 99)) := by
    decide +kernel
  refine ⟨⟨hvalid, h, hcompile h {}⟩, hvalid', fun h => ?_, hstop⟩
  exact absurd ((validated_resolves hvalid').2.2.2 h {} _ hstop) (by decide)

end Validation

end CilSsa
