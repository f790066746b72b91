import CilSsa.Proofs.TypeStops

/-!
Types are defined one after the other.

The definition of all types is a run of single definitions, each of a type that is not defined yet
and whose needs are met.  The struct of a type gets its members in the one step that defines the
type; they are not there before, and they stay as they are.
-/

namespace CilSsa.Lowering

open Ssa Metadata

variable {asm : Assembly} {start s s' : Session} {done done' visiting before after : List TypeDefId}
  {ty : TypeDefId}

section Runs

/-- A type is defined that is not defined yet and whose needs are met. -/
inductive DefinesNext (asm : Assembly) :
    List TypeDefId × Session → List TypeDefId × Session → Prop
  | define {ty : TypeDefId} {done : List TypeDefId} {s s' : Session} :
      ty ∈ asm.userTypes → ty ∉ done → (∀ needed, Needs asm ty needed → needed ∈ done) →
      defineType asm ty s = .ok () s' → DefinesNext asm (done, s) (ty :: done, s')

/-- Types are defined one after the other. -/
abbrev DefinitionRun (asm : Assembly) :
    List TypeDefId × Session → List TypeDefId × Session → Prop :=
  Relation.ReflTransGen (DefinesNext asm)

/-- What a single definition keeps, a run keeps. -/
theorem DefinitionRun.induct {I : List TypeDefId → Session → Prop}
    (h : DefinitionRun asm (done, s) (done', s')) (hinit : I done s)
    (hstep : ∀ {ty : TypeDefId} {done : List TypeDefId} {s s' : Session}, I done s →
      ty ∈ asm.userTypes → ty ∉ done → (∀ needed, Needs asm ty needed → needed ∈ done) →
      defineType asm ty s = .ok () s' → I (ty :: done) s') : I done' s' := by
  have hrun {p q : List TypeDefId × Session} (h : DefinitionRun asm p q) (hp : I p.1 p.2) :
      I q.1 q.2 := by
    induction h with
    | refl => exact hp
    | tail _ hlast ih =>
        cases hlast with
        | define huser hnew hneeds hdefine => exact hstep ih huser hnew hneeds hdefine
  exact hrun h hinit

theorem DefinitionRun.fold {define : List TypeDefId → TypeDefId → Lower (List TypeDefId)}
    {types : List TypeDefId} (hs : Underway asm start before s)
    (hdefine : ∀ {before after : List TypeDefId} {ty : TypeDefId} {s s' : Session},
      Underway asm start before s → define before ty s = .ok after s' →
      DefinitionRun asm (before, s) (after, s') ∧ Underway asm start after s')
    (h : types.foldlM define before s = .ok after s') :
    DefinitionRun asm (before, s) (after, s') := by
  induction types generalizing before s with
  | nil =>
      obtain ⟨rfl, rfl⟩ := pure_eq_ok_iff.mp h
      exact .refl
  | cons ty rest ih =>
      rw [List.foldlM_cons] at h
      obtain ⟨between, t, hfirst, hrest⟩ := bind_eq_ok_iff.mp h
      obtain ⟨hrun, ht⟩ := hdefine hs hfirst
      exact hrun.trans (ih ht hrest)

theorem run_of_defineInOrder (hstart : Declared asm start) {fuel : Nat}
    (hs : Underway asm start before s)
    (h : defineInOrder asm fuel visiting before ty s = .ok after s') :
    DefinitionRun asm (before, s) (after, s') := by
  induction fuel generalizing visiting before after ty s s' with
  | zero => simp [defineInOrder] at h
  | succ fuel ih =>
      rcases defineInOrder_cases h with ⟨-, rfl, rfl⟩ |
        ⟨hroot, hundone, -, d, types, between, t, hd, htypes, hfold, hdefine, rfl⟩
      · exact .refl
      · obtain ⟨hdefines, hall⟩ :=
          Defines.fold hs (fun hs h => defineInOrder_defines hstart hs h) hfold
        have hnew : ty ∉ between := fun hbetween =>
          (hdefines.free ty hbetween).elim hundone fun hfree => hfree List.mem_cons_self
        have hneeds : ∀ needed, Needs asm ty needed → needed ∈ between := by
          rintro needed ⟨-, hroot', hneeded⟩
          rcases hall needed ((mem_dependencies_iff hd htypes).mpr hneeded) with hroot | hmem
          · exact absurd hroot (Bool.eq_false_iff.mp hroot')
          · exact hmem
        have hrun : DefinitionRun asm (before, s) (between, t) := DefinitionRun.fold hs
          (fun hs h => ⟨ih hs h, hs.step (defineInOrder_defines hstart hs h).1⟩) hfold
        exact hrun.tail (.define (mem_userTypes hd hroot) hnew hneeds hdefine)

/-- All types are defined one after the other. -/
theorem run_of_compileTypes {u : Unit} (hstart : Declared asm start)
    (h : compileTypes asm start = .ok u s') :
    ∃ done, DefinitionRun asm ([], start) (done, s') ∧ ∀ ty ∈ asm.userTypes, ty ∈ done := by
  simp only [compileTypes, bind_eq_ok_iff, pure_eq_ok_iff] at h
  obtain ⟨done, _, hfold, -, rfl⟩ := h
  have hs : Underway asm start [] start :=
    ⟨Std.Refl.refl _, by simp, fun ty _ hstruct id hid => hstart.blank hid hstruct⟩
  refine ⟨done, DefinitionRun.fold hs (fun hs h => ⟨run_of_defineInOrder hstart hs h,
    hs.step (defineInOrder_defines hstart hs h).1⟩) hfold, fun ty hty => ?_⟩
  obtain ⟨-, hall⟩ := Defines.fold hs (fun hs h => defineInOrder_defines hstart hs h) hfold
  obtain ⟨-, hroot⟩ := mem_userTypes_iff.mp hty
  exact (hall ty hty).resolve_left (Bool.eq_false_iff.mp hroot)

end Runs

section Progress

/-- Whether the struct of a type has its members. -/
def Filled (asm : Assembly) (start s : Session) (ty : TypeDefId) : Prop :=
  ∀ d, asm.typeDef ty = .ok d → d.kind = .classType ∨ d.kind = .structType →
    ∀ id, start.registry.types.lookup ty = some id → ∃ name body packed,
      s.module.types[id.index]? = some (.struct name (some body) packed)

theorem Filled.mono (h : Filled asm start s ty) (hkept : s.module.PartsKept s'.module) :
    Filled asm start s' ty := by
  intro d hd hkind id hid
  obtain ⟨name, body, packed, htype⟩ := h d hd hkind id hid
  exact ⟨name, body, packed, hkept htype (by simp)⟩

/-- What is known where some types have been defined one after the other. -/
structure DefinedSoFar (asm : Assembly) (start : Session) (done : List TypeDefId) (s : Session) :
    Prop where
  nodup : done.Nodup
  user : ∀ ty ∈ done, ty ∈ asm.userTypes
  /-- What a type needs comes to an end. -/
  ends : ∀ ty ∈ done, Acc (Function.swap (Needs asm)) ty
  later : Session.Later asm start s
  blank : ∀ ty ∉ done, Blank asm start s ty
  filled : ∀ ty ∈ done, Filled asm start s ty

theorem DefinedSoFar.none (hstart : Declared asm start) : DefinedSoFar asm start [] start where
  nodup := List.nodup_nil
  user := by simp
  ends := by simp
  later := Std.Refl.refl _
  blank _ _ hstruct _ hid := hstart.blank hid hstruct
  filled := by simp

theorem DefinedSoFar.step (h : DefinedSoFar asm start done s) (hstart : Declared asm start)
    (huser : ty ∈ asm.userTypes) (hnew : ty ∉ done)
    (hneeds : ∀ needed, Needs asm ty needed → needed ∈ done)
    (hdefine : defineType asm ty s = .ok () s') : DefinedSoFar asm start (ty :: done) s' := by
  have hlater : Session.Later asm s s' :=
    (inferInstance : Keeps (Session.Later asm) (defineType asm ty)).run hdefine
  refine ⟨h.nodup.cons hnew, List.forall_mem_cons.mpr ⟨huser, h.user⟩,
    List.forall_mem_cons.mpr ⟨?_, h.ends⟩, IsTrans.trans _ _ _ h.later hlater, fun ty' hty' => ?_,
    List.forall_mem_cons.mpr ⟨fun d hd hkind id hid => ?_, fun ty' hty' => ?_⟩⟩
  · exact ⟨ty, fun needed hneeded => h.ends needed (hneeds needed hneeded)⟩
  · rw [List.mem_cons, not_or] at hty'
    exact (h.blank ty' hty'.2).of_defineType hstart h.later huser hdefine hty'.1
  · obtain ⟨packed, -, -, hstruct⟩ := defineType_struct hd hkind hdefine
    obtain ⟨run⟩ := nonempty_structRun hstruct
    obtain ⟨-, hroot⟩ := mem_userTypes_iff.mp huser
    obtain rfl := run.handle_eq h.later hid
    obtain ⟨-, -, name, htype⟩ :=
      run.outcome hstart hd hkind hroot h.later (h.blank ty hnew) (Std.Refl.refl s')
    exact ⟨name, _, packed, htype⟩
  · exact (h.filled ty' hty').mono hlater.module.partsKept

theorem DefinitionRun.definedSoFar (h : DefinitionRun asm ([], start) (done, s))
    (hstart : Declared asm start) : DefinedSoFar asm start done s :=
  h.induct (.none hstart) fun h huser hnew hneeds hdefine => h.step hstart huser hnew hneeds hdefine

theorem DefinitionRun.later (h : DefinitionRun asm (done, s) (done', s')) :
    Session.Later asm s s' :=
  h.induct (I := fun _ t => Session.Later asm s t) (Std.Refl.refl s) fun hbefore _ _ _ hdefine =>
    IsTrans.trans _ _ _ hbefore
      ((inferInstance : Keeps (Session.Later asm) (defineType asm _)).run hdefine)

/-- Types that wait for each other are not defined. -/
theorem compileTypes_of_needs {u : Unit} (hstart : Declared asm start)
    (hcircle : Relation.TransGen (Needs asm) ty ty) : compileTypes asm start ≠ .ok u s' := by
  intro hcompile
  obtain ⟨done, hrun, hall⟩ := run_of_compileTypes hstart hcompile
  obtain ⟨needed, ⟨hroot, -, hneeded⟩, -⟩ := Relation.TransGen.head'_iff.mp hcircle
  have hty : ty ∈ asm.userTypes := by
    rcases hneeded with ⟨d, hd, -⟩ | ⟨d, _, _, hd, -⟩ <;> exact mem_userTypes hd hroot
  have hends := (hrun.definedSoFar hstart).ends ty (hall ty hty)
  exact not_acc_of_circle (Relation.transGen_swap.mpr hcircle) hends

end Progress

end CilSsa.Lowering
