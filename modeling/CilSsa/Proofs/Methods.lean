import CilSsa.Proofs.Phases
import CilSsa.Proofs.ProgramParts
import CilSsa.Proofs.Statics

/-!
Methods and programs.

Whatever an instruction does, the compilation gets to a later state, and so it does with the body of
a method, with the methods of a type and with all methods of a program.
-/

namespace CilSsa.Lowering

open CilSsa.Metadata CilSsa.Ssa

/-- A relation between states of a compilation as one between states of the emission. -/
def EmitState.On (R : Session → Session → Prop) (s s' : EmitState) : Prop := R s.session s'.session

/-- A relation between states of the emission that follows one between states of a compilation, and
does not depend on the values on the stacks. -/
class EmitState.Follows (R : outParam (Session → Session → Prop))
    (E : EmitState → EmitState → Prop) : Prop extends IsPreorder EmitState E where
  lower : ∀ {α : Type} {x : Lower α}, Keeps R x → Keeps E (Emit.lower x)
  pop : ∀ site, Keeps E (Emit.pop site)
  setIncoming : ∀ position incoming, Keeps E (Emit.setIncoming position incoming)

namespace Emit

variable {asm : Assembly} {site : Site} {R : Session → Session → Prop}
  {E : EmitState → EmitState → Prop} {α : Type}

instance [h : IsPreorder Session R] : EmitState.Follows R (EmitState.On R) where
  refl s := h.refl s.session
  trans s s' s'' := h.trans s.session s'.session s''.session
  lower hx := ⟨fun h => by
    obtain ⟨t, hrun, rfl⟩ := lower_eq_ok_iff.mp h
    exact hx.run hrun⟩
  pop site := ⟨fun {s _ _} h => by
    obtain ⟨rest, -, rfl⟩ := pop_eq_ok_iff.mp h
    exact Std.Refl.refl s.session⟩
  setIncoming position incoming := ⟨fun {s _ _} h => by
    obtain rfl := modify_eq_ok_iff.mp h
    exact Std.Refl.refl s.session⟩

section Steps

variable [hE : EmitState.Follows R E]

instance (x : Lower α) [hx : Keeps R x] : Keeps E (lower x) := hE.lower hx

instance (x : Lower α) [h : Keeps E (lower x)] : Keeps E (liftM x : Emit α) := h

instance (x : Build α) [h : Keeps E (lower (Lower.build x))] : Keeps E (liftM x : Emit α) := h

instance : Keeps E (pop site) := hE.pop site

instance (position : Nat) (incoming : EvalStack) : Keeps E (setIncoming position incoming) :=
  hE.setIncoming position incoming

omit hE in
instance (problem : OperandProblem) : Keeps E (malformed site problem : Emit α) where
  run h := absurd h (by simp)

instance : Keeps E (targetOperand site) := by
  unfold targetOperand
  split <;> infer_instance

omit hE in
/-- Straight-line code that need not watch anything. -/
theorem on_of_straight {frame : Frame} {x : Emit α} (hx : Keeps (Straight R .nothing frame []) x) :
    Keeps (EmitState.On R) x where
  run {s _ _} h := by
    have hsound : Sound .nothing frame s :=
      ⟨fun _ hv => hv.elim, fun _ _ => ⟨False.elim, id⟩, fun _ _ => ⟨False.elim, id⟩⟩
    exact (hx.run h hsound (by simp)).2.2.session

end Steps

section Straight

namespace StaticStore

variable {s s' : EmitState}

theorem looked [IsPreorder Session R] (store : StaticStore site s)
    (hconstant : ∀ type value, Keeps R (Lower.build (constantAs? type value))) :
    R store.typed store.state.session := by
  rcases store.initial with ⟨-, -, hrun⟩ | ⟨-, -, hsame⟩
  · exact (hconstant store.type store.element.value).run
      (Lower.build_eq_ok_iff.mpr ⟨_, hrun, rfl⟩)
  · rw [state, hsame]
    exact Std.Refl.refl store.typed

/-- What leads up to a store to a static field. -/
theorem prepared [IsPreorder Session R] (store : StaticStore site s)
    (hfind : ∀ f, Keeps R (staticField site.asm f))
    (htype : ∀ sig, Keeps R (Lowering.irType site.asm sig))
    (hconstant : ∀ type value, Keeps R (Lower.build (constantAs? type value))) :
    R s.session store.state.session :=
  IsTrans.trans _ _ _ (IsTrans.trans _ _ _ ((hfind store.field).run store.find)
    ((htype store.definition.sig).run store.irType)) (store.looked hconstant)

/-- A constant that becomes the initial value of the field. -/
theorem later_of_fold {c : ValueId} {m : Module} (store : StaticStore site s)
    (hnew : store.field ∉ store.typed.registry.folded)
    (hset : Build.setInitializer store.global c store.module = .ok () m) :
    Session.Later site.asm store.state.session { store.typed with
      module := m
      registry := { store.typed.registry with
        folded := store.field :: store.typed.registry.folded } } := by
  have hregistered : store.typed.registry.staticField? store.field = some store.global := by
    rw [irType_registry store.irType]
    exact staticField_registered store.find
  have hfirst := later_setInitial site.asm
    (s := { store.typed with module := store.module }) hregistered hnew hset
  have hfold : Registering.foldStatic store.field store.typed.registry =
      .ok true { store.typed.registry with
        folded := store.field :: store.typed.registry.folded } := by
    rw [Registering.foldStatic, getBind_eq_ok_iff, if_neg hnew]
    rfl
  have hthen :
      Keeps (Session.Later site.asm) (Lower.register (Registering.foldStatic store.field)) :=
    inferInstance
  exact IsTrans.trans _ _ _ hfirst (hthen.run (Lower.register_eq_ok_iff.mpr ⟨_, hfold, rfl⟩))

theorem later_of_store {v : ValueId} {m₁ m₂ : Module} (store : StaticStore site s)
    (hvalue : valueOf site.asm store.type store.element store.module = .ok v m₁)
    (hput : Build.store store.global v site.instr.isVolatile m₁ = .ok () m₂) :
    Session.Later site.asm store.state.session { store.typed with module := m₂ } := by
  have hvalue' := (inferInstance : Keeps Module.Lasts _).run hvalue
  have hput' := (inferInstance : Keeps Module.Lasts _).run hput
  exact later_of_lasts (s := { store.typed with module := store.module })
    (IsTrans.trans _ _ _ hvalue' hput')

end StaticStore

theorem storeStatic_later {s s' : EmitState} {u : Unit} (h : storeStatic site s = .ok u s') :
    Session.Later site.asm s.session s'.session := by
  obtain ⟨store, hways⟩ := storeStatic_cases h
  have hprepared : Session.Later site.asm s.session store.state.session :=
    store.prepared (fun _ => inferInstance) (fun _ => inferInstance) fun _ _ => inferInstance
  rcases hways with ⟨c, m, -, hnew, hset, rfl⟩ | ⟨-, v, m₁, m₂, hvalue, hput, rfl⟩
  · exact IsTrans.trans _ _ _ hprepared (store.later_of_fold hnew hset)
  · exact IsTrans.trans _ _ _ hprepared (store.later_of_store hvalue hput)

theorem perform_later {action : Action} (hends : endsBlock action = false) :
    Keeps (EmitState.On (Session.Later site.asm)) (perform site action) := by
  cases hstatic : usesStatic action with
  | false => exact on_of_straight (perform_straight hends hstatic)
  | true =>
      cases action with
      | loadStatic => exact on_of_straight (loadStatic_straight fun _ _ => inferInstance)
      | loadStaticAddress =>
          refine on_of_straight ⟨fun h => loadStaticAddress_straight h
            fun {f _ _} _ hfind => ⟨?_, id⟩⟩
          exact (inferInstance : Keeps _ (staticField site.asm f)).run hfind
      | storeStatic => exact ⟨fun h => storeStatic_later h⟩
      | _ => simp [usesStatic] at hstatic

end Straight

section Merges

variable {P : Change → Prop} [Change.Joining P]

instance (source target : BlockId) (slot : Slot) (e : Element) :
    Keeps (Module.Evolves P) (EvalStack.mergeSlot asm source target slot e) := by
  unfold EvalStack.mergeSlot
  split <;> infer_instance

instance (source target : BlockId) (slots : List Slot) (elements : List Element) :
    Keeps (Module.Evolves P) (EvalStack.mergeSlots asm source target slots elements) := by
  induction slots generalizing elements with
  | nil => cases elements <;> exact inferInstanceAs (Keeps _ (pure _))
  | cons slot rest ih =>
      cases elements with
      | nil => exact inferInstanceAs (Keeps _ (pure _))
      | cons e elements =>
          unfold EvalStack.mergeSlots
          infer_instance

instance (stack incoming : EvalStack) (source target : BlockId) (refers : Nat) :
    Keeps (Module.Evolves P) (stack.merge asm incoming source target refers) := by
  unfold EvalStack.merge
  dsimp only
  infer_instance

end Merges

section Branches

variable {spared : ValueId → Prop} [hE : EmitState.Follows R E] [hbuild : Building spared R]
  [hstay : Staying R]

instance (position : Nat) : Keeps E (reconcile site position) := by
  unfold reconcile
  refine Keeps.seq inferInstance fun s => ?_
  split <;> infer_instance

instance (cond : ValueId) (target : Nat) : Keeps E (conditional site cond target) := by
  unfold conditional
  dsimp only
  infer_instance

instance (known : List (Nat × BlockId)) (position : Nat) : Keeps E (edge site known position) := by
  unfold edge
  split <;> infer_instance

instance (known : List (Nat × BlockId)) (case : Nat) (positions : List Nat) :
    Keeps E (switchCases site known case positions) := by
  induction positions generalizing known case with
  | nil =>
      unfold switchCases
      infer_instance
  | cons position rest ih =>
      unfold switchCases
      infer_instance

instance : Keeps E (branch site) := by
  unfold branch
  infer_instance

instance (onZero : Bool) : Keeps E (branchIf site onZero) := by
  unfold branchIf
  infer_instance

instance (relation : Relation) (unsigned : Bool) :
    Keeps E (compareBranch site relation unsigned) := by
  unfold compareBranch
  infer_instance

instance : Keeps E (switch site) := by
  unfold switch
  cases site.instr.operand <;> infer_instance

instance : Keeps E (ret site) := by
  unfold ret
  dsimp only
  infer_instance

include hE hbuild hstay in
/-- The actions that end a block write nothing. -/
theorem perform_arranging {action : Action} (hends : endsBlock action = true) :
    Keeps E (perform site action) := by
  cases action with
  | branch | branchIf | compareBranch | switch | ret =>
      unfold perform
      infer_instance
  | _ => simp [endsBlock] at hends

end Branches

set_option synthInstance.maxSize 256 in
instance enterBlock_arranging {spared : ValueId → Prop} [Building spared R] [Arranging R]
    (site : Site) : Keeps (EmitState.On R) (enterBlock site) := by
  have hmove (block : BlockId) (stack : EvalStack) : Keeps (EmitState.On R)
      (modify fun s => { s with current := block, stack } : Emit PUnit) :=
    ⟨fun {s _ _} h => by
      obtain rfl := modify_eq_ok_iff.mp h
      exact Std.Refl.refl s.session⟩
  have henter : Keeps (EmitState.On R) (do
      match leader? (← get) site.index with
      | none => malformed site (.targetNotInstruction site.index)
      | some l => do
          modify fun s => { s with current := l.block, stack := l.incoming.snapshot }
          Build.positionAtEnd l.block : Emit Unit) := by
    refine Keeps.seq inferInstance fun s => ?_
    split <;> infer_instance
  unfold enterBlock
  dsimp only
  infer_instance

section Bodies

/-- Every action leads to a later state. -/
instance (action : Action) :
    Keeps (EmitState.On (Session.Later site.asm)) (perform site action) := by
  cases hends : endsBlock action with
  | false => exact perform_later hends
  | true => exact perform_arranging hends

instance instruction_later (site : Site) :
    Keeps (EmitState.On (Session.Later site.asm)) (instruction site) := by
  unfold instruction
  split
  · infer_instance
  · exact ⟨fun h => absurd h (by simp)⟩
  · exact ⟨fun h => absurd h (by simp)⟩

instance (frame : Frame) (index : Nat) (instrs : List Instruction) :
    Keeps (EmitState.On (Session.Later frame.asm)) (instructions frame index instrs) := by
  induction instrs generalizing index with
  | nil =>
      unfold instructions
      infer_instance
  | cons instr rest ih =>
      have henter : Keeps (EmitState.On (Session.Later frame.asm))
          (enterBlock { frame with index, instr }) :=
        enterBlock_arranging { frame with index, instr }
      have hinstr : Keeps (EmitState.On (Session.Later frame.asm))
          (instruction { frame with index, instr }) :=
        instruction_later { frame with index, instr }
      unfold instructions
      dsimp only
      infer_instance

end Bodies

end Emit

section Programs

variable {asm : Assembly} {f : FunctionId}

set_option synthInstance.maxSize 256 in
instance emission_later (frame : Frame) (body : MethodBody) :
    Keeps (EmitState.On (Session.Later frame.asm)) (emission frame body) := by
  unfold emission
  dsimp only
  infer_instance

set_option synthInstance.maxSize 256 in
instance (d : MethodDef) (name : String) (body : MethodBody) :
    Keeps (Session.Later asm) (emitBody asm d name f body) := by
  have hrun (args locals : List Variable) (leaders : List Leader) (entry : BlockId) :
      Keeps (Session.Later asm) (Emit.run (fun session => { session, leaders, current := entry })
        (emission { asm, method := d, name, args, locals } body)) := by
    refine ⟨fun {s u s'} h => ?_⟩
    unfold Emit.run at h
    split at h
    · rename_i heq
      cases h
      have hemission : Keeps (EmitState.On (Session.Later asm))
          (emission { asm, method := d, name, args, locals } body) :=
        emission_later { asm, method := d, name, args, locals } body
      exact hemission.run heq
    · cases h
  unfold emitBody
  infer_instance

variable {settings : Settings}

/-- Verification leaves everything as it is, so that only the optimization of a
finished function counts. -/
theorem keeps_finish {R : Session → Session → Prop} [IsPreorder Session R]
    (hoptimize : Keeps R (Lower.build (Build.optimize f settings.optLevel))) :
    Keeps R (Lower.finish settings f) := by
  have hquery : Keeps R (Lower.build (Build.query (·.verify f))) := by
    constructor
    intro s result s' h
    obtain ⟨m, hanswer, rfl⟩ := Lower.build_eq_ok_iff.mp h
    obtain ⟨-, rfl⟩ := Build.query_eq_ok_iff.mp hanswer
    exact Std.Refl.refl s
  unfold Lower.finish Lower.verify
  refine Keeps.seq ?_ fun _ => hoptimize
  split
  · refine Keeps.seq hquery fun result => ?_
    cases result with
    | ok => exact Keeps.pure ()
    | error error => exact Keeps.throw _
  · exact Keeps.pure ()

instance : Keeps (Session.Later asm) (Lower.finish settings f) := keeps_finish inferInstance

instance (m : MethodId) (d : MethodDef) (name : String) (body : MethodBody) :
    Keeps (Session.Later asm) (compileBody asm settings m d name body) := by
  unfold compileBody
  split <;> infer_instance

instance (m : MethodId) : Keeps (Session.Later asm) (compileMethod asm settings m) := by
  unfold compileMethod
  refine Keeps.seq inferInstance fun d => Keeps.seq inferInstance fun kind =>
    Keeps.seq inferInstance fun name => ?_
  split
  · infer_instance
  · split <;> infer_instance

instance (p : Progress) (ty : TypeDefId) :
    Keeps (Session.Later asm) (compileMethodsOf asm settings p ty) := by
  unfold compileMethodsOf
  infer_instance

instance (owner : TypeDef) (p : Progress) (m : MethodId) :
    Keeps (Session.Later asm) (compileListed asm settings owner p m) := by
  unfold compileListed
  infer_instance

set_option synthInstance.maxSize 4096 in
instance (compiled : List MethodId) :
    Keeps (Session.Later asm) (emitStaticInit asm settings compiled) := by
  unfold emitStaticInit
  infer_instance

instance : Keeps (Session.Later asm) (compileBodies asm settings) := by
  unfold compileBodies
  infer_instance

/-- Everything after the declaration of the types leads to a later state. -/
theorem later_of_compileProgram {report : Report} {s s' : Session}
    (h : compileProgram asm settings s = .ok report s') :
    ∃ declared, declareTypes asm s = .ok () declared ∧ Session.Later asm declared s' := by
  obtain ⟨declared, defined, hdeclare, hdefine, hbodies⟩ := compileProgram_eq_ok h
  exact ⟨declared, hdeclare, IsTrans.trans _ _ _ (Keeps.run hdefine) (Keeps.run hbodies)⟩

end Programs

end CilSsa.Lowering
