import CilSsa.Proofs.Methods
import CilSsa.Proofs.Prologue

/-!
Bodies in a program.

A body that nothing speaks against is emitted when its type is compiled, one instruction after the
other.
-/

namespace CilSsa.Lowering

open CilSsa.Metadata CilSsa.Ssa

variable {asm : Assembly} {settings : Settings} {s s' : Session} {report : Report}

/-- A method with a body that gets a function: a type lists it, all operations of the body have
actions, and it is no constructor that has nothing to do. -/
structure Lowers (asm : Assembly) (m : MethodId) (body : MethodBody) : Prop where
  listed : ∃ ty ∈ asm.userTypes, ∃ d, asm.typeDef ty = .ok d ∧ m ∈ d.methods
  method : ∃ d kind, asm.method m = .ok d ∧ d.body = some body ∧
    asm.kindOf d.declaringType = .ok kind ∧
    (d.isConstructor && d.params.isEmpty && kind = .structType) = false
  support : bodySupport body.instructions = .full

/-- Each instruction is emitted in a state on the way. -/
theorem instruction_of_instructions {frame : Frame} {instrs : List Instruction}
    {instr : Instruction} {index n : Nat} {u : Unit} {s s' : EmitState}
    (h : Emit.instructions frame index instrs s = .ok u s') (hn : instrs[n]? = some instr) :
    ∃ t t', EmitState.On (Session.Later frame.asm) s t ∧
      Emit.instruction (siteAt frame (index + n) instr) t = .ok () t' ∧
      EmitState.On (Session.Later frame.asm) t' s' := by
  induction instrs generalizing index n s with
  | nil => simp at hn
  | cons first rest ih =>
      obtain ⟨s₁, hentered, hfirst⟩ : ∃ s₁, EmitState.On (Session.Later frame.asm) s s₁ ∧
          (do
            Emit.instruction (siteAt frame index first)
            Emit.instructions frame (index + 1) rest : Emit Unit) s₁ = .ok u s' := by
        simp only [Emit.instructions, ↓getBind_eq_ok_iff] at h
        split at h
        · obtain ⟨_, s₁, henter, h⟩ := bind_eq_ok_iff.mp h
          exact ⟨s₁, (Emit.enterBlock_arranging (siteAt frame index first)).run henter, h⟩
        · exact ⟨s, Std.Refl.refl _, h⟩
      obtain ⟨_, s₂, hinstr, hrest⟩ := bind_eq_ok_iff.mp hfirst
      have hfollows : EmitState.On (Session.Later frame.asm) s₂ s' :=
        (inferInstance : Keeps _ (Emit.instructions frame (index + 1) rest)).run hrest
      cases n with
      | zero =>
          obtain rfl : first = instr := by simpa using hn
          exact ⟨s₁, s₂, hentered, hinstr, hfollows⟩
      | succ n =>
          have hstep : EmitState.On (Session.Later frame.asm) s₁ s₂ :=
            (Emit.instruction_later (siteAt frame index first)).run hinstr
          obtain ⟨t, t', hbefore, hrun, hafter⟩ := ih hrest hn
          rw [Nat.add_right_comm] at hrun
          exact ⟨t, t', IsTrans.trans _ _ _ hentered (IsTrans.trans _ _ _ hstep hbefore),
            hrun, hafter⟩

set_option synthInstance.maxSize 256 in
instance (d : MethodDef) (name : String) (f : FunctionId) (body : MethodBody) :
    Keeps (Session.Later asm) (prologue asm d name f body) := by
  unfold prologue
  infer_instance

/-- What is emitted for an instruction of a body, and when: in a state after `before` and so that
`after` comes later. -/
structure EmittedIn (asm : Assembly) (instr : Instruction) (n : Nat) (before after : Session)
    (site : Site) (s s' : EmitState) : Prop where
  asm_eq : site.asm = asm
  index : site.index = n
  instr : site.instr = instr
  before : Session.Later asm before s.session
  run : Emit.instruction site s = .ok () s'
  after : Session.Later asm s'.session after

variable {instr : Instruction} {n : Nat} {body : MethodBody} {d : MethodDef} {m : MethodId}

theorem emittedIn_of_emitBody {name : String} {f : FunctionId} {u : Unit}
    (h : emitBody asm d name f body s = .ok u s') (hn : body.instructions[n]? = some instr) :
    ∃ site t t', EmittedIn asm instr n s s' site t t' := by
  obtain ⟨run⟩ := nonempty_bodyRun h
  have hstart : Session.Later asm s run.start.session := Keeps.run run.prologue
  obtain ⟨_, last, hinstrs, hend⟩ := bind_eq_ok_iff.mp run.emission
  obtain ⟨t, t', hbefore, hrun, hafter⟩ := instruction_of_instructions hinstrs hn
  have hasm := run.asm_eq
  have hlast : EmitState.On (Session.Later asm) last run.final := by
    have hend' : Keeps (EmitState.On (Session.Later asm)) (do
        let current := (← get).current
        if !(← Emit.lower (Build.query (·.isTerminated current))) then Build.unreachable :
        Emit Unit) := inferInstance
    exact hend'.run hend
  rw [hasm] at hbefore hafter
  refine ⟨siteAt run.frame n instr, t, t', hasm, rfl, rfl,
    IsTrans.trans _ _ _ hstart hbefore, ?_, ?_⟩
  · rwa [Nat.zero_add] at hrun
  · rw [run.session]
    exact IsTrans.trans _ _ _ hafter hlast

theorem EmittedIn.mono {before after : Session} {site : Site} {t t' : EmitState}
    (h : EmittedIn asm instr n s s' site t t') (hbefore : Session.Later asm before s)
    (hafter : Session.Later asm s' after) : EmittedIn asm instr n before after site t t' :=
  ⟨h.asm_eq, h.index, h.instr, IsTrans.trans _ _ _ hbefore h.before, h.run,
    IsTrans.trans _ _ _ h.after hafter⟩

theorem Lowers.not_defaultConstructor {d : MethodDef} (h : Lowers asm m body)
    (hd : asm.method m = .ok d) : d.body = some body ∧ ¬ DefaultConstructor asm d := by
  obtain ⟨d', kind, hd', hbody, hkind, hneeded⟩ := h.method
  obtain rfl := Except.ok.inj (hd.symm.trans hd')
  refine ⟨hbody, fun ⟨hctor, hparams, hkind'⟩ => ?_⟩
  obtain rfl := Except.ok.inj (hkind.symm.trans hkind')
  simp [hctor, hparams] at hneeded

theorem compileMethod_of_lowers {outcome : MethodOutcome} (hm : Lowers asm m body)
    (h : compileMethod asm settings m s = .ok outcome s') : ∃ d name f s₁ s₂ s₃,
      declareFunction asm m s = .ok f s₁ ∧
      Lower.build (Build.setLinkage f (linkageOf d)) s₁ = .ok () s₂ ∧
      emitBody asm d name f body s₂ = .ok () s₃ ∧ Lower.finish settings f s₃ = .ok () s' := by
  obtain ⟨d, hd, hrun⟩ := compileMethod_eq_ok h
  obtain ⟨hbody, hneeded⟩ := hm.not_defaultConstructor hd
  cases hrun with
  | skipped hdefault => exact absurd hdefault hneeded
  | bodiless _ hnone _ => cases hbody.symm.trans hnone
  | deferred _ hbody' hsupport =>
      obtain rfl := Option.some.inj (hbody.symm.trans hbody')
      cases hm.support.symm.trans hsupport
  | @lowered body' name f s₁ s₂ s₃ _ _ hbody' _ hdeclare hlink hemit hfinish =>
      obtain rfl := Option.some.inj (hbody.symm.trans hbody')
      exact ⟨d, name, f, s₁, s₂, s₃, hdeclare, hlink, hemit, hfinish⟩

theorem emittedIn_of_compileMethod {outcome : MethodOutcome} (hm : Lowers asm m body)
    (h : compileMethod asm settings m s = .ok outcome s')
    (hn : body.instructions[n]? = some instr) :
    ∃ site t t', EmittedIn asm instr n s s' site t t' := by
  obtain ⟨d, name, f, s₁, s₂, s₃, hdeclare, hlink, hemit, hfinish⟩ := compileMethod_of_lowers hm h
  obtain ⟨site, t, t', hemitted⟩ := emittedIn_of_emitBody hemit hn
  exact ⟨site, t, t', hemitted.mono (IsTrans.trans _ _ _ (Keeps.run hdeclare) (Keeps.run hlink))
    (Keeps.run hfinish)⟩

/-- What comes after the definition of the types leads to a later state. -/
theorem compileProgram_phases (h : compileProgram asm settings s = .ok report s') :
    ∃ declared defined, declareTypes asm s = .ok () declared ∧
      compileTypes asm declared = .ok () defined ∧ Session.Later asm defined s' := by
  obtain ⟨declared, defined, hdeclare, hdefine, hbodies⟩ := compileProgram_eq_ok h
  exact ⟨declared, defined, hdeclare, hdefine, Keeps.run hbodies⟩

theorem emittedIn_of_compileProgram {declared defined : Session} (hm : Lowers asm m body)
    (h : compileProgram asm settings s = .ok report s')
    (hdeclare : declareTypes asm s = .ok () declared)
    (hdefine : compileTypes asm declared = .ok () defined)
    (hn : body.instructions[n]? = some instr) :
    ∃ site t t', EmittedIn asm instr n defined s' site t t' := by
  obtain ⟨ty, hty, d, hd, hlisted⟩ := hm.listed
  obtain ⟨declared', defined', hdeclare', hdefine', hbodies⟩ := compileProgram_eq_ok h
  cases hdeclare.symm.trans hdeclare'
  cases hdefine.symm.trans hdefine'
  obtain ⟨p, s₁, name, htypes, hinit, -⟩ := compileBodies_eq_ok hbodies
  obtain ⟨before, after, t₁, t₂, hto, htype, hfrom⟩ :=
    Keeps.mem_of_foldlM (R := Session.Later asm) (fun _ _ => inferInstance) htypes hty
  obtain ⟨d', hd', hmethods⟩ := compileMethodsOf_eq_ok htype
  obtain rfl := Except.ok.inj (hd.symm.trans hd')
  obtain ⟨before', after', t₃, t₄, hto', hmethod, hfrom'⟩ :=
    Keeps.mem_of_foldlM (R := Session.Later asm) (fun _ _ => inferInstance) hmethods hlisted
  obtain ⟨_, outcome, -, hcompile, -⟩ := compileListed_eq_ok hmethod
  obtain ⟨site, t, t', hemitted⟩ := emittedIn_of_compileMethod hm hcompile hn
  exact ⟨site, t, t', hemitted.mono (IsTrans.trans _ _ _ hto hto')
    (IsTrans.trans _ _ _ hfrom' (IsTrans.trans _ _ _ hfrom (Keeps.run hinit)))⟩

end CilSsa.Lowering
