import CilSsa.Proofs.Outcomes

/-!
Bodies with operations that are refused.

The first operation of a body without an action decides what becomes of the method, and those after
it are not looked at.  So a body with refused operations is refused exactly if one of them comes
before all operations that merely have no lowering yet.
-/

namespace CilSsa.Lowering

open CilSsa.Metadata CilSsa.Ssa

section Operations

variable {instrs : List Instruction} {opcode : Opcode}

theorem hasAction_eq_false_iff :
    hasAction opcode = false ↔ dispatch opcode = .deferred ∨ dispatch opcode = .unsupported := by
  unfold hasAction
  cases dispatch opcode <;> simp

/-- A refused operation comes before all those that have no lowering yet. -/
def RefusedFirst (instrs : List Instruction) : Prop :=
  ∃ before instr after, instrs = before ++ instr :: after ∧ dispatch instr.opcode = .unsupported ∧
    ∀ i ∈ before, dispatch i.opcode ≠ .deferred

/-- The operations up to the first one without an action. -/
structure Unhandled (before : List Instruction) (instr : Instruction) (instrs : List Instruction) :
    Prop where
  split : ∃ after, instrs = before ++ instr :: after
  handled : ∀ i ∈ before, hasAction i.opcode = true
  unhandled : hasAction instr.opcode = false

theorem exists_unhandled (h : ∃ instr ∈ instrs, dispatch instr.opcode = .unsupported) :
    ∃ before instr, Unhandled before instr instrs := by
  obtain ⟨instr, hinstr, hrefused⟩ := h
  have hfound : (instrs.find? fun i => !hasAction i.opcode).isSome := by
    rw [List.find?_isSome]
    exact ⟨instr, hinstr, by simp [hasAction_eq_false_iff.mpr (.inr hrefused)]⟩
  obtain ⟨first, hfirst⟩ := Option.isSome_iff_exists.mp hfound
  obtain ⟨hunhandled, before, after, hsplit, hbefore⟩ := List.find?_eq_some_iff_append.mp hfirst
  exact ⟨before, first, ⟨after, hsplit⟩, by simpa using hbefore, by simpa using hunhandled⟩

namespace Unhandled

variable {before : List Instruction} {instr : Instruction} (h : Unhandled before instr instrs)
include h

/-- Nothing but the first operation without an action counts. -/
theorem bodySupport_eq :
    bodySupport instrs =
      if dispatch instr.opcode = .deferred then .deferred instr.opcode
      else .refused instr.opcode := by
  obtain ⟨⟨after, rfl⟩, hhandled, hunhandled⟩ := h
  induction before with
  | nil =>
      rcases hasAction_eq_false_iff.mp hunhandled with hfirst | hfirst <;>
        simp [bodySupport, hfirst]
  | cons i rest ih =>
      obtain ⟨hi, hrest⟩ := List.forall_mem_cons.mp hhandled
      rw [← ih hrest]
      unfold hasAction at hi
      cases haction : dispatch i.opcode with
      | action _ => simp [bodySupport, haction]
      | deferred => simp [haction] at hi
      | unsupported => simp [haction] at hi

theorem refusedFirst_iff : RefusedFirst instrs ↔ dispatch instr.opcode = .unsupported := by
  obtain ⟨⟨after, rfl⟩, hhandled, hunhandled⟩ := h
  constructor
  · rintro ⟨before', refused, after', hsplit, hrefused, hbefore'⟩
    refine (hasAction_eq_false_iff.mp hunhandled).resolve_left fun hdeferred => ?_
    -- The refused operation is not among the handled ones, so the first unhandled one precedes it.
    rcases List.append_eq_append_iff.mp hsplit with ⟨between, rfl, hrest⟩ | ⟨between, rfl, hrest⟩
    · cases between with
      | nil =>
          obtain ⟨rfl, -⟩ := List.cons_eq_cons.mp hrest
          cases hdeferred.symm.trans hrefused
      | cons i rest =>
          obtain ⟨rfl, -⟩ := List.cons_eq_cons.mp hrest
          exact hbefore' _ (by simp) hdeferred
    · cases between with
      | nil =>
          obtain ⟨rfl, -⟩ := List.cons_eq_cons.mp hrest
          cases hdeferred.symm.trans hrefused
      | cons i rest =>
          obtain ⟨rfl, -⟩ := List.cons_eq_cons.mp hrest
          have := hhandled refused (by simp)
          simp [hasAction, hrefused] at this
  · intro hrefused
    refine ⟨before, instr, after, rfl, hrefused, fun i hi hdeferred => ?_⟩
    have := hhandled i hi
    simp [hasAction, hdeferred] at this

end Unhandled

end Operations

section Functions

variable {asm : Assembly} {σ α : Type}

/-- A failure that is not the refusal of an operation. -/
def NotRefusal (e : LoweringError) (_ : σ) : Prop :=
  ∀ name opcode, e ≠ .unsupportedInstruction name opcode

/-- An action that refuses no operation. -/
abbrev Accepts (x : EStateM Stop σ α) : Prop := Upholds (fun _ : σ => True) NotRefusal x

instance (x : Build α) : Accepts (Lower.build x) := upholds_build fun _ _ => trivial

instance (taken : Bool) (kind : EntryKind) (name : Except Fault String) :
    Accepts (Registering.claim taken kind name) where
  ok _ _ := trivial
  fails _ h := by
    unfold Registering.claim at h
    split at h
    · split at h <;> cases h
      exact fun _ _ h => nomatch h
    · cases h

instance (change : Registry → Registry) : Accepts (modify change : Registering PUnit) where
  ok _ _ := trivial
  fails _ h := nomatch h

instance (x : Registering α) [hx : Accepts x] : Accepts (Lower.register x) where
  ok _ _ := trivial
  fails _ h := by
    unfold Lower.register at h
    split at h
    · cases h
    · rename_i hregister
      cases h
      exact fun name opcode => hx.fails trivial hregister name opcode

instance (ty : TypeDefId) : Accepts (Lower.consult fun r => r.type asm ty) := by
  refine upholds_consult fun _ hmissing => ?_
  obtain ⟨-, name, -, rfl⟩ := found_eq_error hmissing
  exact fun _ _ h => nomatch h

instance (id : TypeDefId) : Accepts (namedType asm id) := by
  unfold namedType
  split
  · infer_instance
  · refine Upholds.seq inferInstance fun handle => Upholds.seq inferInstance fun kind => ?_
    cases kind <;> infer_instance

instance (sig : TypeSig) : Accepts (irType asm sig) := by
  induction sig <;>
  · unfold irType
    infer_instance

instance (d : MethodDef) : Accepts (functionType asm d) := by
  unfold functionType
  infer_instance

instance (name : String) (f : FunctionId) : Accepts (Registering.addFunction name f) := by
  unfold Registering.addFunction
  infer_instance

instance (m : MethodId) : Accepts (declareFunction asm m) := by
  unfold declareFunction
  refine Upholds.seq inferInstance fun name => Upholds.seq inferInstance fun s => ?_
  split <;> infer_instance

end Functions

section Methods

variable {asm : Assembly} {m : MethodId} {d : MethodDef} {owner : TypeDef} {body : MethodBody}

theorem compileMethod_of_body (hd : asm.method m = .ok d)
    (howner : asm.typeDef d.declaringType = .ok owner) (hdefault : ¬ DefaultConstructor asm d)
    (hbody : d.body = some body) (settings : Settings) (s : Session) :
    compileMethod asm settings m s =
      compileBody asm settings m d (owner.fullName ++ "::" ++ d.name) body s := by
  have hkind : asm.kindOf d.declaringType = .ok owner.kind :=
    Assembly.kindOf_eq_ok_iff.mpr ⟨owner, howner, rfl⟩
  have hname : asm.qualifiedName d = .ok (owner.fullName ++ "::" ++ d.name) := by
    rw [Assembly.qualifiedName, Assembly.typeName, howner]
    rfl
  have hskip : ¬ (d.isConstructor && d.params.isEmpty && owner.kind = .structType) = true := by
    simpa [DefaultConstructor, hkind, and_assoc] using hdefault
  have hask {α : Type} {question : Except Fault α} {a : α} (h : question = .ok a) :
      (liftM question : Lower α) s = .ok a s := Lower.ask_eq_ok_iff.mpr ⟨h, rfl⟩
  rw [compileMethod, bind_of_ok (hask hd), bind_of_ok (hask hkind), bind_of_ok (hask hname),
    if_neg hskip, hbody]

/-- A body is not refused if its first operation without an action merely has no lowering yet. -/
theorem accepts_compileBody {opcode : Opcode} (settings : Settings) (name : String)
    (h : bodySupport body.instructions = .deferred opcode) :
    Accepts (compileBody asm settings m d name body) := by
  rw [compileBody, h]
  infer_instance

/-- A method whose body has refused operations is refused exactly if one of them comes before all
operations that merely have no lowering yet.  Only the first operation without an action counts: a
refused one stops the compilation before anything is done, and one without a lowering has the method
skipped, if its function can be declared, whatever comes after it. -/
theorem compileMethod_refuses (hd : asm.method m = .ok d)
    (howner : asm.typeDef d.declaringType = .ok owner) (hdefault : ¬ DefaultConstructor asm d)
    (hbody : d.body = some body)
    (hrefused : ∃ instr ∈ body.instructions, dispatch instr.opcode = .unsupported)
    (settings : Settings) (s : Session) :
    ((∃ name opcode s', compileMethod asm settings m s =
        .error (.error (.unsupportedInstruction name opcode)) s') ↔
      RefusedFirst body.instructions) ∧
    ∃ before instr, Unhandled before instr body.instructions ∧
      (dispatch instr.opcode = .unsupported → compileMethod asm settings m s = .error (.error
        (.unsupportedInstruction (owner.fullName ++ "::" ++ d.name) instr.opcode)) s) ∧
      (dispatch instr.opcode = .deferred → ∀ outcome s',
        compileMethod asm settings m s = .ok outcome s' →
          outcome = .skipped (.notLowered instr.opcode)) := by
  obtain ⟨before, instr, hfirst⟩ := exists_unhandled hrefused
  have hcompile := compileMethod_of_body hd howner hdefault hbody settings s
  have hsupport := hfirst.bodySupport_eq
  rw [hcompile, hfirst.refusedFirst_iff]
  rcases hasAction_eq_false_iff.mp hfirst.unhandled with hdeferred | hrefused
  · rw [if_pos hdeferred] at hsupport
    have hnever : ¬ dispatch instr.opcode = .unsupported := by simp [hdeferred]
    refine ⟨iff_of_false ?_ hnever, before, instr, hfirst, fun h => absurd h hnever, fun _ => ?_⟩
    · rintro ⟨name, opcode, s', hrun⟩
      exact (accepts_compileBody settings _ hsupport).fails trivial hrun name opcode rfl
    · intro outcome s' hrun
      simp only [compileBody, hsupport, bind_eq_ok_iff, pure_eq_ok_iff] at hrun
      obtain ⟨-, -, -, -, -, -, rfl, -⟩ := hrun
      rfl
  · have hnever : ¬ dispatch instr.opcode = .deferred := by simp [hrefused]
    rw [if_neg hnever] at hsupport
    have hrun : compileBody asm settings m d (owner.fullName ++ "::" ++ d.name) body s = .error
        (.error (.unsupportedInstruction (owner.fullName ++ "::" ++ d.name) instr.opcode)) s := by
      rw [compileBody, hsupport]
      rfl
    exact ⟨iff_of_true ⟨_, _, _, hrun⟩ hrefused, before, instr, hfirst, fun _ => hrun,
      fun h => absurd h hnever⟩

/-- A static method with a body. -/
def snare (name : String) (instructions : List Instruction) : MethodDef :=
  ⟨name, ⟨3⟩, [], .void, ⟨MethodFlags.static⟩, .publicAccess, some { instructions }⟩

/-- A breakpoint before a box. -/
def openSnare : MethodDef :=
  snare "Open" [{ opcode := .breakpoint }, { opcode := .ldcI41 },
    { opcode := .box, operand := .type .i4 }, { opcode := .ret }]

/-- The same operations, with the breakpoint after the box. -/
def hiddenSnare : MethodDef :=
  snare "Hidden" [{ opcode := .ldcI41 }, { opcode := .box, operand := .type .i4 },
    { opcode := .breakpoint }, { opcode := .ret }]

/-- A program with these methods. -/
def snares : Assembly :=
  let roots := Assembly.ofName "snares"
  { roots with
    types := roots.types ++ #[
      { TypeDef.ofKind .classType "" "C" with base := some ⟨0⟩, methods := [⟨0⟩, ⟨1⟩] }]
    methods := #[openSnare, hiddenSnare] }

/-- The state before anything is compiled. -/
def Session.fresh : Session := { module := { name := "module" } }

/-- The method that meets the breakpoint first is refused. -/
theorem snares_refused :
    snares.method ⟨0⟩ = .ok openSnare ∧ ¬ DefaultConstructor snares openSnare ∧
      ∃ name opcode s', compileMethod snares {} ⟨0⟩ .fresh =
        .error (.error (.unsupportedInstruction name opcode)) s' := by
  have hdefault : ¬ DefaultConstructor snares openSnare := by decide +kernel
  refine ⟨rfl, hdefault, (compileMethod_refuses rfl rfl hdefault rfl
    ⟨{ opcode := .breakpoint }, by simp, rfl⟩ {} .fresh).1.mpr ?_⟩
  exact ⟨[], _, _, rfl, rfl, by simp⟩

/-- The one that meets it later is skipped, although the same operations are in its body. -/
theorem snares_skipped :
    snares.method ⟨1⟩ = .ok hiddenSnare ∧ ¬ DefaultConstructor snares hiddenSnare ∧
      (∃ body, hiddenSnare.body = some body ∧
        ∃ instr ∈ body.instructions, dispatch instr.opcode = .unsupported) ∧
      ∃ s', compileMethod snares {} ⟨1⟩ .fresh = .ok (.skipped (.notLowered .box)) s' := by
  refine ⟨rfl, by decide +kernel, ⟨_, rfl, { opcode := .breakpoint }, by simp, rfl⟩,
    stateOf (compileMethod snares {} ⟨1⟩ .fresh), ?_⟩
  exact outcome?_eq_some_iff.mp (by decide +kernel)

end Methods

end CilSsa.Lowering
