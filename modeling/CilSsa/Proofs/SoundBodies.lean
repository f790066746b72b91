import CilSsa.Proofs.Prologue
import CilSsa.Proofs.SoundInstructions

/-!
Stacks are sound all through a body.

The emission of a body comes by a state before every instruction, and if the instruction is a
leader, by another one once its block is entered.  The stacks are sound in all of them, as long as
conversions and new objects are those that the outlook has laws for.
-/

namespace CilSsa

open Ssa Metadata Lowering

namespace Lowering

open Build Module

namespace Outlook

section Branches

variable {site : Site} {o : Outlook site.asm}

namespace Brings

theorem conditional {cond : ValueId} {target : Nat} :
    o.Brings (fun _ => True) (Emit.conditional site cond target) := by
  unfold Emit.conditional
  simp only [Emit.liftM_build]
  refine reconcile.seq fun thenBlock _ => ?_
  split
  · exact lowered
  · exact reconcile.seq fun elseBlock _ => lowered

theorem edge {known : List (Nat × BlockId)} {position : Nat} :
    o.Brings (fun _ => True) (Emit.edge site known position) := by
  unfold Emit.edge
  split
  · exact pure trivial
  · exact reconcile.seq fun _ _ => pure trivial

theorem switchCases {known : List (Nat × BlockId)} {case : Nat} {positions : List Nat} :
    o.Brings (fun _ => True) (Emit.switchCases site known case positions) := by
  induction positions generalizing known case with
  | nil => exact pure trivial
  | cons position rest ih =>
      unfold Emit.switchCases
      exact edge.seq fun _ _ => ih.seq fun _ _ => pure trivial

theorem branch : o.Brings (fun _ => True) (Emit.branch site) := by
  unfold Emit.branch
  simp only [Emit.liftM_build]
  exact targetOperand.seq fun _ _ => reconcile.seq fun _ _ => lowered

theorem branchIf {onZero : Bool} : o.Brings (fun _ => True) (Emit.branchIf site onZero) := by
  unfold Emit.branchIf
  simp only [Lower.liftM_build]
  exact targetOperand.seq fun _ _ => pop.seq fun _ _ => lowered.seq fun _ _ => conditional

theorem compareBranch {relation : Relation} {unsigned : Bool} :
    o.Brings (fun _ => True) (Emit.compareBranch site relation unsigned) := by
  unfold Emit.compareBranch
  simp only [Lower.liftM_build]
  exact targetOperand.seq fun _ _ => pop.seq fun _ _ => pop.seq fun _ _ =>
    lowered.seq fun _ _ => conditional

set_option synthInstance.maxSize 256 in
theorem switch : o.Brings (fun _ => True) (Emit.switch site) := by
  unfold Emit.switch
  split
  · simp only [Emit.liftM_build, Lower.liftM_build, Lower.liftM_ask]
    exact pop.seq fun _ _ => lowered.seq fun _ _ => lowered.seq fun _ _ => lowered.seq fun _ _ =>
      switchCases.seq fun _ _ => edge.seq fun _ _ => lowered
  · exact malformed

theorem ret : o.Brings (fun _ => True) (Emit.ret site) := by
  unfold Emit.ret
  simp only [Emit.liftM_build, Emit.liftM_lower, Lower.liftM_build, Lower.liftM_ask]
  split
  · exact lowered
  · exact lowered.seq fun _ _ => pop.seq fun _ _ => lowered.seq fun _ _ =>
      lowered.seq fun _ _ => lowered

end Brings

end Branches

section Steps

variable {site : Site} {o : Outlook site.asm} {s s' : EmitState} {u : Unit}

/-- A conversion of an element that may be converted. -/
theorem Stocked.convert {target : TypeSig} {unsignedSource : Bool} (hs : o.Stocked s)
    (h : Emit.convert site target unsignedSource s = .ok u s')
    (hend : Session.Later site.asm s'.session o.final) (htarget : ∀ id, target ≠ .named id)
    (htop : ∀ e rest, s.stack.pop? = some (e, rest) → o.convertible e) : o.Stocked s' := by
  unfold Emit.convert at h
  obtain ⟨e, t, hpop, hrest⟩ := bind_eq_ok_iff.mp h
  obtain ⟨rest, htaken, -⟩ := Emit.pop_eq_ok_iff.mp hpop
  have hlater : Keeps (EmitState.On (Session.Later site.asm)) (do
      Emit.push (← Emit.lower (Emit.convertElement site.asm target unsignedSource e))) :=
        inferInstance
  obtain ⟨ht, he⟩ := Brings.pop.run hpop (IsTrans.trans _ _ _ (hlater.run hrest) hend) hs
  have hpush : o.Brings (fun _ => True) (do
      Emit.push
        (← Emit.lower (Lower.build (Emit.convertElement site.asm target unsignedSource e)))) :=
    (Brings.makes (o.converted htarget he (htop e rest htaken))).seq fun _ he => Brings.push he
  exact (hpush.run hrest hend ht).1

/-- What the laws for conversions and for new objects depend on. -/
structure Admits (o : Outlook asm) (instr : Instruction) (s : EmitState) : Prop where
  converts : ∀ target unsignedSource, dispatch instr.opcode =
      .action (.convert target unsignedSource) →
    ∀ e rest, s.stack.pop? = some (e, rest) → o.convertible e
  constructs : dispatch instr.opcode = .action .newObject →
    ∀ ctor, instr.operand = .method ctor → o.constructible ctor

/-- Conversions are to numbers. -/
theorem convert_of_dispatch {opcode : Opcode} {target : TypeSig} {unsignedSource : Bool}
    (h : dispatch opcode = .action (.convert target unsignedSource)) (id : TypeDefId) :
    target ≠ .named id := by
  cases opcode <;> cases h <;> simp

theorem Stocked.instruction (hs : o.Stocked s) (hframe : o.Furnished site.toFrame)
    (hadmits : o.Admits site.instr s) (h : Emit.instruction site s = .ok u s')
    (hend : Session.Later site.asm s'.session o.final) : o.Stocked s' := by
  unfold Emit.instruction at h
  cases hdispatch : dispatch site.instr.opcode with
  | deferred | unsupported => simp [hdispatch] at h
  | action action =>
      simp only [hdispatch] at h
      suffices hbrings : (∃ target unsignedSource, action = .convert target unsignedSource) ∨
          o.Brings (fun _ => True) (Emit.perform site action) by
        rcases hbrings with ⟨target, unsignedSource, rfl⟩ | hbrings
        · exact hs.convert h hend (convert_of_dispatch hdispatch)
            (hadmits.converts target unsignedSource hdispatch)
        · exact (hbrings.run h hend hs).1
      cases action with
      | convert target unsignedSource => exact .inl ⟨target, unsignedSource, rfl⟩
      | constant source => exact .inr Brings.loadConstant
      | null => exact .inr Brings.loadNull
      | string => exact .inr Brings.loadString
      | loadVariable kind fixed => exact .inr (Brings.loadVariable hframe)
      | loadVariableAddress kind => exact .inr (Brings.loadVariableAddress hframe)
      | storeVariable kind fixed => exact .inr (Brings.storeVariable hframe)
      | nop => exact .inr (Brings.pure trivial)
      | dup => exact .inr Brings.duplicate
      | pop => exact .inr Brings.discard
      | sizeof => exact .inr Brings.loadSize
      | binary op => exact .inr Brings.binary
      | negate => exact .inr Brings.unary
      | complement => exact .inr Brings.unary
      | compare relation unsigned => exact .inr Brings.compare
      | branch => exact .inr Brings.branch
      | branchIf onZero => exact .inr Brings.branchIf
      | compareBranch relation unsigned => exact .inr Brings.compareBranch
      | switch => exact .inr Brings.switch
      | ret => exact .inr Brings.ret
      | loadIndirect sig => exact .inr Brings.loadIndirect
      | storeIndirect sig => exact .inr Brings.storeIndirect
      | loadObject => exact .inr Brings.loadObject
      | storeObject => exact .inr Brings.storeObject
      | initObject => exact .inr Brings.initObject
      | loadField => exact .inr Brings.loadField
      | loadFieldAddress => exact .inr Brings.loadFieldAddress
      | storeField => exact .inr Brings.storeField
      | loadStatic => exact .inr Brings.loadStatic
      | loadStaticAddress => exact .inr Brings.loadStaticAddress
      | storeStatic => exact .inr Brings.storeStatic
      | call => exact .inr Brings.call
      | callVirtual => exact .inr Brings.callVirtual
      | newObject => exact .inr (Brings.newObject (hadmits.constructs hdispatch))
      | newArray => exact .inr Brings.newArray
      | loadElementAddress => exact .inr Brings.loadElementAddress
      | loadElement source => exact .inr Brings.loadElement
      | storeElement source => exact .inr Brings.storeElement

/-- The block of a leader is entered with the values that arrive there. -/
theorem Stocked.enterBlock (hs : o.Stocked s) (h : Emit.enterBlock site s = .ok u s')
    (hend : Session.Later site.asm s'.session o.final) : o.Stocked s' := by
  have hall : Session.Later site.asm s.session s'.session :=
    (inferInstance : Keeps (EmitState.On (Session.Later site.asm)) (Emit.enterBlock site)).run h
  obtain ⟨s₁, l, hbefore, hleader, rfl⟩ := enterBlock_cases h
  have hmove : Session.Later site.asm s₁.session { s₁.session with
      module := s₁.session.module.apply (.moveTo l.block) } :=
    (inferInstance : Keeps (Session.Later site.asm) (Lower.build (Build.positionAtEnd l.block))).run
      (Lower.build_eq_ok_iff.mpr ⟨_, rfl, rfl⟩)
  have hs₁ : o.Stocked s₁ := by
    rcases hbefore with ⟨-, rfl⟩ | ⟨-, b, s₀, hreconcile, hbr⟩
    · exact hs
    · have hrun : o.Brings (fun _ => True) (do
          let b ← Emit.reconcile site site.index
          Emit.lower (Lower.build (Build.br b))) := Brings.reconcile.seq fun _ _ => Brings.lowered
      exact (hrun.run (bind_eq_ok_iff.mpr ⟨b, s₀, hreconcile, hbr⟩)
        (IsTrans.trans _ _ _ hmove hend) hs).1
  have hl := hs₁.leaders l (List.mem_of_find?_eq_some hleader)
  have hfine : o.Fine { s₁.session with module := s₁.session.module.apply (.moveTo l.block) } :=
    ⟨o.known_later hmove hs₁.fine.known, ⟨l.block, rfl, hl.block⟩, hs₁.fine.code.stores⟩
  refine ⟨hfine, fun e he => ?_, (hs₁.later hmove hfine).leaders⟩
  rw [EvalStack.elements_snapshot] at he
  exact hl.incoming e he

end Steps

section Runs

variable {frame : Frame} {instrs : List Instruction} {start s : EmitState} {k n : Nat}
  {instr : Instruction}

/-- The state in which an instruction is emitted: at a leader its block has been entered. -/
def Meets (frame : Frame) (instrs : List Instruction) (start : EmitState) (k : Nat)
    (instr : Instruction) (s : EmitState) : Prop :=
  instrs[k]? = some instr ∧ ∃ t, Reaches frame instrs start k t ∧
    if (Emit.leader? t k).isSome then Emit.enterBlock (siteAt frame k instr) t = .ok () s else s = t

/-- The states that the emission of a body comes by after `n` instructions. -/
inductive Visits (frame : Frame) (instrs : List Instruction) (start : EmitState) (n : Nat) :
    EmitState → Prop
  | reached {s : EmitState} (h : Reaches frame instrs start n s) : Visits frame instrs start n s
  | entered {instr : Instruction} {s : EmitState} (h : Meets frame instrs start n instr s) :
      Visits frame instrs start n s

variable {o : Outlook frame.asm}

theorem Stocked.entered {t : EmitState} (ht : o.Stocked t)
    (h : if (Emit.leader? t k).isSome then Emit.enterBlock (siteAt frame k instr) t =
      .ok () s else s = t)
    (hend : Session.Later frame.asm s.session o.final) : o.Stocked s := by
  split at h
  · have hblock : Emit.enterBlock (siteAt frame k instr) t = .ok () s := h
    exact ht.enterBlock hblock hend
  · exact h ▸ ht

theorem later_of_entered {t : EmitState}
    (h : if (Emit.leader? t k).isSome then Emit.enterBlock (siteAt frame k instr) t =
      .ok () s else s = t) : Session.Later frame.asm t.session s.session := by
  split at h
  · exact (Emit.enterBlock_arranging (siteAt frame k instr)).run h
  · exact h ▸ Std.Refl.refl _

/-- The stacks are sound whenever an instruction has been emitted. -/
theorem Stocked.reaches (hstart : o.Stocked start) (hframe : o.Furnished frame)
    (hadmits : ∀ k instr t, k < n → Meets frame instrs start k instr t → o.Admits instr t)
    (h : Reaches frame instrs start n s) (hend : Session.Later frame.asm s.session o.final) :
    o.Stocked s := by
  induction n generalizing s with
  | zero =>
      obtain ⟨-, rfl⟩ := pure_eq_ok_iff.mp h
      exact hstart
  | succ n ih =>
      have hbefore {t : EmitState} (ht : Reaches frame instrs start n t)
          (hlater : Session.Later frame.asm t.session o.final) : o.Stocked t :=
        ih (fun k instr t hk => hadmits k instr t (Nat.lt_succ_of_lt hk)) ht hlater
      cases hinstr : instrs[n]? with
      | none =>
          have hle := List.getElem?_eq_none_iff.mp hinstr
          rw [Reaches, List.take_of_length_le (Nat.le_succ_of_le hle)] at h
          exact hbefore (by rwa [Reaches, List.take_of_length_le hle]) hend
      | some instr =>
          obtain ⟨t, ht, hstep⟩ := (reaches_succ hinstr).mp h
          obtain ⟨t₁, hentered, hrun⟩ := instructions_singleton.mp hstep
          have hlater : Session.Later frame.asm t₁.session s.session :=
            (Emit.instruction_later (siteAt frame n instr)).run hrun
          have hend₁ := IsTrans.trans _ _ _ hlater hend
          have hend₀ := IsTrans.trans _ _ _ (later_of_entered hentered) hend₁
          have ht₁ := (hbefore ht hend₀).entered hentered hend₁
          have hinstruction : Emit.instruction (siteAt frame n instr) t₁ = .ok () s := hrun
          exact ht₁.instruction hframe
            (hadmits n instr t₁ (Nat.lt_succ_self n) ⟨hinstr, t, ht, hentered⟩) hinstruction hend

/-- The stacks are sound when a body has been emitted. -/
theorem Stocked.emission {body : MethodBody} {u : Unit} (hstart : o.Stocked start)
    (hframe : o.Furnished frame) (hadmits : ∀ instr t, o.Admits instr t)
    (h : Lowering.emission frame body start = .ok u s)
    (hend : Session.Later frame.asm s.session o.final) : o.Stocked s := by
  obtain ⟨_, t, hinstrs, hrest⟩ := bind_eq_ok_iff.mp h
  have hlater : Keeps (EmitState.On (Session.Later frame.asm)) (do
      let current := (← get).current
      if !(← Emit.lower (Build.query (·.isTerminated current))) then Build.unreachable :
      Emit Unit) := inferInstance
  have hreached : Reaches frame body.instructions start body.instructions.length t := by
    rwa [Reaches, List.take_length]
  have ht := hstart.reaches hframe (fun _ instr t _ _ => hadmits instr t) hreached
    (IsTrans.trans _ _ _ (hlater.run hrest) hend)
  have hbrings : o.Brings (fun _ => True) (do
      let current := (← get).current
      if !(← Emit.lower (Build.query (·.isTerminated current))) then Build.unreachable :
      Emit Unit) := by
    refine Brings.getBind fun s _ => Brings.lowered.seq fun ended _ => ?_
    cases ended
    · exact Brings.lowered
    · exact Brings.pure trivial
  exact (hbrings.run hrest hend ht).1

theorem later_of_visits (h : Visits frame instrs start n s) :
    Session.Later frame.asm start.session s.session := by
  have hreaches {k : Nat} {t : EmitState} (ht : Reaches frame instrs start k t) :
      Session.Later frame.asm start.session t.session :=
    (inferInstance : Keeps (EmitState.On (Session.Later frame.asm))
      (Emit.instructions frame 0 (instrs.take k))).run ht
  cases h with
  | reached h => exact hreaches h
  | entered h =>
      obtain ⟨-, t, ht, hentered⟩ := h
      exact IsTrans.trans _ _ _ (hreaches ht) (later_of_entered hentered)

/-- What the steps of an emission uphold holds in every state that it comes by. -/
theorem upheld_of_visits {P : Change → Prop} {mine : BlockId → Prop} {W : BlockId → Session → Prop}
    {V : BlockId → List Leader → Prop} {F : LoweringError → Session → Prop}
    [hF : ∀ b, Emitted frame.asm P (W b) F] (hB : Emit.Branching frame mine W V F)
    (hinstr : ∀ site : Site, site.toFrame = frame →
      Upholds (EmitState.Upheld W V) (EmitState.Failed F) (Emit.instruction site))
    (hstart : EmitState.Upheld W V start) (h : Visits frame instrs start n s) :
    EmitState.Upheld W V s := by
  have henter (site : Site) (hframe : site.toFrame = frame) :
      Upholds (EmitState.Upheld W V) (EmitState.Failed F) (Emit.enterBlock site) := by
    subst hframe
    infer_instance
  have hreaches {k : Nat} {t : EmitState} (ht : Reaches frame instrs start k t) :
      EmitState.Upheld W V t :=
    (Emit.upholds_instructions fun site hframe _ => hinstr site hframe).ok hstart ht
  cases h with
  | reached h => exact hreaches h
  | @entered instr _ h =>
      obtain ⟨-, t, ht, hentered⟩ := h
      split at hentered
      · exact (henter (siteAt frame n instr) rfl).ok (hreaches ht) hentered
      · exact hentered ▸ hreaches ht

/-- An emission has come by an earlier state before. -/
theorem reaches_earlier (h : Reaches frame instrs start n s) (hle : k ≤ n) :
    ∃ t, Reaches frame instrs start k t ∧ Session.Later frame.asm t.session s.session := by
  obtain ⟨t, ht, index, rest, hrest⟩ := h.earlier hle
  have hkeeps : Keeps (EmitState.On (Session.Later frame.asm))
      (Emit.instructions frame index rest) := inferInstance
  exact ⟨t, ht, hkeeps.run hrest⟩

/-- An instruction is emitted before what comes after it. -/
theorem later_of_meets {t : EmitState} (hmeets : Meets frame instrs start k instr t) (hk : k < n)
    (h : Visits frame instrs start n s) : Session.Later frame.asm t.session s.session := by
  obtain ⟨hinstr, t₀, ht₀, hentered⟩ := hmeets
  have hreaches {s : EmitState} (hs : Reaches frame instrs start n s) :
      Session.Later frame.asm t.session s.session := by
    obtain ⟨s₁, hs₁, hlater⟩ := reaches_earlier hs hk
    obtain ⟨t₁, ht₁, hstep⟩ := (reaches_succ hinstr).mp hs₁
    obtain ⟨t₂, hentered', hrun⟩ := instructions_singleton.mp hstep
    cases ht₀.symm.trans ht₁
    have hsame : t = t₂ := by
      split at hentered
      · rw [if_pos ‹_›] at hentered'
        cases hentered.symm.trans hentered'
        rfl
      · rw [if_neg ‹_›] at hentered'
        exact hentered.trans hentered'.symm
    subst hsame
    exact IsTrans.trans _ _ _ ((Emit.instruction_later (siteAt frame k instr)).run hrun) hlater
  cases h with
  | reached h => exact hreaches h
  | entered h =>
      obtain ⟨-, s₀, hs₀, hentered⟩ := h
      exact IsTrans.trans _ _ _ (hreaches hs₀) (later_of_entered hentered)

/-- The stacks are sound in every state that the emission comes by. -/
theorem Stocked.visits (hstart : o.Stocked start) (hframe : o.Furnished frame)
    (hadmits : ∀ k instr t, k < n → Meets frame instrs start k instr t → o.Admits instr t)
    (h : Visits frame instrs start n s) (hend : Session.Later frame.asm s.session o.final) :
    o.Stocked s := by
  cases h with
  | reached h => exact hstart.reaches hframe hadmits h hend
  | entered h =>
      obtain ⟨-, t, ht, hentered⟩ := h
      have hlater := IsTrans.trans _ _ _ (later_of_entered hentered) hend
      exact (hstart.reaches hframe hadmits ht hlater).entered hentered hend

end Runs

section Prologues

variable {asm : Assembly} {o : Outlook asm} {d : MethodDef} {name : String} {f : FunctionId}
  {body : MethodBody} {s s' : Session} {frame : Frame} {entry : BlockId} {leaders : List Leader}

theorem sigs_of_argVariables {index : Nat} {sigs : List TypeSig} {args : List Variable}
    (h : argVariables asm f index sigs s = .ok args s') : args.map Variable.sig = sigs := by
  induction sigs generalizing index s args with
  | nil =>
      unfold argVariables at h
      obtain ⟨rfl, -⟩ := pure_eq_ok_iff.mp h
      rfl
  | cons sig rest ih =>
      unfold argVariables at h
      simp only [bind_eq_ok_iff, pure_eq_ok_iff] at h
      obtain ⟨type, _, -, pointer, _, -, value, _, -, _, _, -, others, _, hrest, rfl, rfl⟩ := h
      simp [ih hrest]

/-- The arguments have the signatures of the method. -/
theorem argSigs_of_prologue (h : prologue asm d name f body s = .ok (frame, entry, leaders) s') :
    argSigs asm d = .ok (frame.args.map Variable.sig) := by
  simp only [prologue, bind_eq_ok_iff, pure_eq_ok_iff, Prod.mk.injEq] at h
  obtain ⟨_, _, -, _, _, -, sigs, _, hsigs, args, _, hargs, _, _, -, _, _, -, ⟨rfl, -⟩, -⟩ := h
  rw [sigs_of_argVariables hargs]
  exact (Lower.ask_eq_ok_iff.mp hsigs).1

/-- Parameters may be stored to storage of the types of their signatures. -/
def Welcomes (o : Outlook asm) (f : FunctionId) (sigs : List TypeSig) : Prop :=
  ∀ {index : Nat} {sig : TypeSig} {type : TypeId} {pointer value : ValueId} {m : Module},
    sigs[index]? = some sig → m.param f index = .ok value → m.Evolves Change.Any o.final.module →
    irType asm sig o.final = .ok type o.final → o.final.module.PointsTo pointer type →
    o.storable pointer value

/-- Arguments are filled with the parameters. -/
theorem fine_argVariables {all sigs : List TypeSig} {index : Nat} {args : List Variable}
    (hwelcomes : o.Welcomes f all) (hall : all.drop index = sigs) (hs : o.Fine s)
    (h : argVariables asm f index sigs s = .ok args s') (hend : Session.Later asm s' o.final) :
    o.Fine s' ∧ ∀ v ∈ args, o.Houses v := by
  induction sigs generalizing index s args with
  | nil =>
      unfold argVariables at h
      obtain ⟨rfl, rfl⟩ := pure_eq_ok_iff.mp h
      exact ⟨hs, by simp⟩
  | cons sig rest ih =>
      unfold argVariables at h
      simp only [bind_eq_ok_iff, pure_eq_ok_iff, Lower.liftM_build] at h
      obtain ⟨type, s₁, htype, pointer, s₂, halloca, value, s₃, hvalue, _, s₄, hstore, others, _,
        hrest, rfl, rfl⟩ := h
      have hlast : Session.Later asm s₄ o.final := IsTrans.trans _ _ _
        ((inferInstance : Keeps (Session.Later asm) (argVariables asm f (index + 1) rest)).run
          hrest) hend
      have hthird : Session.Later asm s₃ o.final := IsTrans.trans _ _ _ (Keeps.run hstore) hlast
      obtain ⟨m, hquery, rfl⟩ := Lower.build_eq_ok_iff.mp hvalue
      obtain ⟨hparam, hsame⟩ := query_eq_ok_iff.mp hquery
      subst m
      have hfirst : o.Proceeds s s₁ := (inferInstance : Keeps o.Proceeds (irType asm sig)).run htype
      have hsecond : o.Proceeds s₁ s₂ :=
        (inferInstance : Keeps o.Proceeds (Lower.build (Build.alloca type))).run halloca
      have hs₂ := (IsTrans.trans _ _ _ hfirst hsecond).fine hthird hs
      obtain ⟨m₂, hpoints, rfl⟩ := Lower.build_eq_ok_iff.mp halloca
      have htyped := irType_extends htype (IsTrans.trans _ _ _ hsecond.later hthird).toExtends
      have hpoints := (alloca_pointsTo hpoints).mono hthird.module
      have hsig : all[index]? = some sig := by
        have hfirst := congrArg (·[0]?) hall
        simpa [List.getElem?_drop] using hfirst
      obtain ⟨m₃, hstored, rfl⟩ := Lower.build_eq_ok_iff.mp hstore
      have hs₄ := store_fine hs₂ (hwelcomes hsig hparam hthird.module htyped hpoints) hstored
      obtain ⟨hs', hothers⟩ := ih (by rw [← List.drop_drop, hall]; rfl) hs₄ hrest
      exact ⟨hs', List.forall_mem_cons.mpr ⟨⟨hpoints, htyped⟩, hothers⟩⟩

/-- Locals start as zero. -/
theorem fine_localVariable {sig : TypeSig} {v : Variable} (hs : o.Fine s)
    (h : localVariable asm sig s = .ok v s') (hend : Session.Later asm s' o.final) :
    o.Fine s' ∧ o.Houses v := by
  simp only [localVariable, bind_eq_ok_iff, pure_eq_ok_iff, Lower.liftM_build] at h
  obtain ⟨type, s₁, htype, pointer, s₂, halloca, zero, s₃, hzero, _, s₄, hstore, rfl, rfl⟩ := h
  have hthird : Session.Later asm s₃ o.final := IsTrans.trans _ _ _ (Keeps.run hstore) hend
  have hfirst : o.Proceeds s s₁ := (inferInstance : Keeps o.Proceeds (irType asm sig)).run htype
  have hsecond : o.Proceeds s₁ s₂ :=
    (inferInstance : Keeps o.Proceeds (Lower.build (Build.alloca type))).run halloca
  have hconst : o.Proceeds s₂ s₃ :=
    (inferInstance : Keeps o.Proceeds (Lower.build (Build.constNull type))).run hzero
  have hs₃ := (IsTrans.trans _ _ _ (IsTrans.trans _ _ _ hfirst hsecond) hconst).fine hthird hs
  obtain ⟨m₂, hpoints, rfl⟩ := Lower.build_eq_ok_iff.mp halloca
  obtain ⟨m₃, hnull, rfl⟩ := Lower.build_eq_ok_iff.mp hzero
  obtain ⟨m₄, hstored, rfl⟩ := Lower.build_eq_ok_iff.mp hstore
  have hrest := IsTrans.trans _ _ _ hconst.later hthird
  have htyped := irType_extends htype (IsTrans.trans _ _ _ hsecond.later hrest).toExtends
  have hpoints := (alloca_pointsTo hpoints).mono hrest.module
  have hstorable := o.stored (o.aims_of_aimsAt hpoints.aimsAt)
    (.of_typeOf (hthird.module.typeOf (pushValue_typeOf hnull))) hstored hs₃.code.here hend.module
  exact ⟨store_fine hs₃ hstorable hstored, hpoints, htyped⟩

theorem fine_locals {sigs : List TypeSig} {locals : List Variable} (hs : o.Fine s)
    (h : sigs.mapM (localVariable asm) s = .ok locals s') (hend : Session.Later asm s' o.final) :
    o.Fine s' ∧ ∀ v ∈ locals, o.Houses v := by
  induction sigs generalizing s locals with
  | nil =>
      rw [List.mapM_nil] at h
      obtain ⟨rfl, rfl⟩ := pure_eq_ok_iff.mp h
      exact ⟨hs, by simp⟩
  | cons sig rest ih =>
      simp only [List.mapM_cons, bind_eq_ok_iff, pure_eq_ok_iff] at h
      obtain ⟨v, s₁, hfirst, others, _, hrest, rfl, rfl⟩ := h
      have hlast := IsTrans.trans _ _ _ ((inferInstance : Keeps (Session.Later asm)
        (rest.mapM (localVariable asm))).run hrest) hend
      obtain ⟨hs₁, hv⟩ := fine_localVariable hs hfirst hlast
      obtain ⟨hs', hothers⟩ := ih hs₁ hrest
      exact ⟨hs', List.forall_mem_cons.mpr ⟨hv, hothers⟩⟩

/-- A body starts with variables of the types of their signatures and no values on the stacks. -/
theorem stocked_of_prologue
    (h : prologue asm d name o.function body s = .ok (frame, entry, leaders) s')
    (hend : Session.Later asm s' o.final) (hknown : o.known s)
    (hstores : ∀ {v : ValueId} {b : BlockId} {pointer value : ValueId},
      s.module.StoresAt v b pointer value → o.storable pointer value ∨
      ∃ ty g, o.final.registry.newobjs.lookup ty = some g ∧ s.module.Owns g b)
    (hwelcomes : o.Welcomes o.function (frame.args.map Variable.sig)) :
    o.Furnished frame ∧ o.Stocked { session := s', leaders, current := entry } := by
  obtain ⟨-, rfl, sigs, args, locals, s₄, s₅, rfl, hargs, hlocals, -, hleaders⟩ := prologue_cases h
  have hleading : Session.Later asm s₅ s' := Keeps.run hleaders
  have hlocalize : Session.Later asm s₄ s₅ := Keeps.run hlocals
  have hend₅ := IsTrans.trans _ _ _ hleading hend
  have hopened : o.Fine (opened o.function s) := by
    have hlater : Session.Later asm s (opened o.function s) :=
      later_of_lasts (Module.Evolves.lasts (Module.evolves_enter s.module o.function "entry"))
    refine ⟨o.known_later hlater hknown, ⟨_, rfl, ?_⟩, fun hstore => ?_⟩
    · exact ⟨{ name := "entry", function := o.function }, by simp [opened, Module.apply], rfl⟩
    · refine (hstores hstore).imp_right ?_
      rintro ⟨ty, g, hg, hb⟩
      exact ⟨ty, g, hg, hlater.module.owns hb⟩
  rw [sigs_of_argVariables hargs] at hwelcomes
  obtain ⟨hs₄, hargs'⟩ := fine_argVariables hwelcomes List.drop_zero hopened hargs
    (IsTrans.trans _ _ _ hlocalize hend₅)
  obtain ⟨hs₅, hlocals'⟩ := fine_locals hs₄ hlocals hend₅
  obtain ⟨-, -, hspec, hadds⟩ := appendLeaders_spec hleaders
  have hcode : o.Tended s'.module := hs₅.code.evolves hadds
    (fun c hc => by cases c <;> first | rfl | exact hc.elim) fun c hc _ _ _ _ _ heq => by
      subst heq
      exact hc.elim
  refine ⟨fun v hv => (List.mem_append.mp hv).elim (hargs' v) (hlocals' v),
    ⟨o.known_later hleading hs₅.known, hcode⟩, by simp [EvalStack.elements], fun l hl => ⟨?_, ?_⟩⟩
  · exact owns_appendLeaders hleaders l.block (List.mem_map_of_mem hl)
  · simp [(hspec l hl).2.1, EvalStack.elements]

theorem fine_of_emitBody (h : emitBody asm d name o.function body s = .ok () s')
    (hend : Session.Later asm s' o.final) (hknown : o.known s)
    (hstores : ∀ {v : ValueId} {b : BlockId} {pointer value : ValueId},
      s.module.StoresAt v b pointer value → o.storable pointer value ∨
        ∃ ty g, o.final.registry.newobjs.lookup ty = some g ∧ s.module.Owns g b)
    (hwelcomes : ∀ sigs, argSigs asm d = .ok sigs → o.Welcomes o.function sigs)
    (hadmits : ∀ instr t, o.Admits instr t) : o.Fine s' := by
  obtain ⟨run⟩ := nonempty_bodyRun h
  obtain ⟨frame, entry, start, hprologue, rfl, hstack, final, hemission, rfl⟩ := run
  obtain ⟨session, stack, leaders, current⟩ := start
  obtain rfl : stack = {} := hstack
  obtain ⟨-, -, sigs, args, locals, -, -, rfl, -⟩ := prologue_cases hprologue
  have hlater : EmitState.On (Session.Later asm) _ final := (emission_later _ body).run hemission
  obtain ⟨hframe, hstart⟩ := stocked_of_prologue hprologue (IsTrans.trans _ _ _ hlater hend) hknown
    hstores (hwelcomes _ (argSigs_of_prologue hprologue))
  exact (hstart.emission hframe hadmits hemission hend).fine

end Prologues

end Outlook

section Starts

/-- An instruction leaves what is registered with the types of its signatures. -/
theorem Session.Signed.upholds_instruction (site : Site) :
    Upholds (EmitState.Upheld (fun _ => Session.Signed site.asm) fun _ _ => True)
      (EmitState.Failed (Session.Signed.OrFailed site.asm)) (Emit.instruction site) := by
  have hbranching : Emit.Branching site.toFrame (fun _ => True) (fun _ => Session.Signed site.asm)
      (fun _ _ => True) (Session.Signed.OrFailed site.asm) := branching_of_flowing
  exact Emit.upholds_instruction_of_answering

/-- Each step of an emission leaves what is registered with the types of its signatures. -/
theorem Session.Signed.of_visits {frame : Frame} {instrs : List Instruction} {start s : EmitState}
    {n : Nat} (hstart : start.session.Signed frame.asm)
    (h : Outlook.Visits frame instrs start n s) : s.session.Signed frame.asm := by
  have hbranching : Emit.Branching frame (fun _ => True) (fun _ => Session.Signed frame.asm)
      (fun _ _ => True) (Session.Signed.OrFailed frame.asm) := branching_of_flowing
  have hemitted (_ : BlockId) : Emitted frame.asm Change.Any (Session.Signed frame.asm)
      (Session.Signed.OrFailed frame.asm) := inferInstance
  refine (Outlook.upheld_of_visits hbranching (fun site hframe => ?_) ⟨hstart, trivial⟩ h).session
  subst hframe
  exact upholds_instruction site

/-- The start of the emission of a body, from a state in which methods are compiled. -/
structure BodyStart (asm : Assembly) (settings : Settings) where
  before : Session
  reached : Reached asm settings before
  method : MethodId
  d : MethodDef
  method_eq : asm.method method = .ok d
  body : MethodBody
  body_eq : d.body = some body
  function : FunctionId
  declared : Session
  declare : (do
    let f ← declareFunction asm method
    Build.setLinkage f (linkageOf d)
    return f : Lower FunctionId) before = .ok function declared
  name : String
  args : List Variable
  locals : List Variable
  entry : BlockId
  leaders : List Leader
  session : Session
  prologue : Lowering.prologue asm d name function body declared =
    .ok ({ asm, method := d, name, args, locals }, entry, leaders) session

namespace BodyStart

/-- The start of a body right after the types, when no method has been compiled. -/
def first? (asm : Assembly) (settings : Settings) (method : MethodId) (name : String) :
    Option (BodyStart asm settings) :=
  match hdeclare : declareTypes asm { module := { name := settings.moduleName } } with
  | .error _ _ => none
  | .ok () s => match hdefine : compileTypes asm s with
    | .error _ _ => none
    | .ok () before => match hd : asm.method method with
      | .error _ => none
      | .ok d => match hbody : d.body with
        | none => none
        | some body => match hfunction : (do
            let f ← declareFunction asm method
            Build.setLinkage f (linkageOf d)
            return f : Lower FunctionId) before with
          | .error _ _ => none
          | .ok function declared => match hrun :
              Lowering.prologue asm d name function body declared with
            | .error _ _ => none
            | .ok (frame, entry, leaders) session => some {
                before, reached := .types hdeclare hdefine, method, d, method_eq := hd,
                body, body_eq := hbody, function, declared, declare := hfunction, name,
                args := frame.args, locals := frame.locals, entry, leaders, session,
                prologue := by
                  obtain ⟨-, -, -, args, locals, -, -, rfl, -⟩ := prologue_cases hrun
                  exact hrun }

variable {asm : Assembly} {settings : Settings} (b : BodyStart asm settings) {n : Nat}
  {s : EmitState}

def frame : Frame :=
  { asm, method := b.d, name := b.name, args := b.args, locals := b.locals }

def start : EmitState := { session := b.session, leaders := b.leaders, current := b.entry }

/-- The states that the emission comes by after `n` instructions. -/
abbrev Visits (n : Nat) (s : EmitState) : Prop :=
  Outlook.Visits b.frame b.body.instructions b.start n s

/-- The state after `n` instructions, if the emission comes so far. -/
def after (n : Nat) : EmitState :=
  stateOf (Emit.instructions b.frame 0 (b.body.instructions.take n) b.start)

theorem visits_after (h : (outcome? (Emit.instructions b.frame 0 (b.body.instructions.take n)
    b.start)).map Prod.fst = some ()) : b.Visits n (b.after n) :=
  .reached (eq_ok_stateOf h)

set_option synthInstance.maxSize 256 in
/-- What is registered has the types of its signatures all through the emission. -/
theorem signed (h : b.Visits n s) : s.session.Signed asm := by
  have hdeclared : b.declared.Signed asm :=
    (inferInstance : Upholds (Session.Signed asm) (Session.Signed.OrFailed asm) (do
      let f ← declareFunction asm b.method
      Build.setLinkage f (linkageOf b.d)
      return f : Lower FunctionId)).ok (Session.Signed.of_reached b.reached) b.declare
  have hprologue : Upholds (Session.Signed asm) (Session.Signed.OrFailed asm)
      (Lowering.prologue asm b.d b.name b.function b.body) := by
    unfold Lowering.prologue
    infer_instance
  exact .of_visits (hprologue.ok hdeclared b.prologue) h

/-- The stacks are sound in every state that the emission comes by, where all
stores are permitted. -/
theorem stocked (o : Outlook asm) (hfunction : o.function = b.function)
    (hknown : o.known b.declared) (hstorable : ∀ pointer value, o.storable pointer value)
    (hadmits : ∀ k instr t, k < n → Outlook.Meets b.frame b.body.instructions b.start k instr t →
      o.Admits instr t)
    (h : b.Visits n s) (hend : Session.Later asm s.session o.final) : o.Stocked s := by
  have hprologue := b.prologue
  rw [← hfunction] at hprologue
  have hlater : Session.Later asm b.session s.session := Outlook.later_of_visits h
  obtain ⟨hframe, hstart⟩ := Outlook.stocked_of_prologue hprologue (IsTrans.trans _ _ _ hlater hend)
    hknown (fun _ => .inl (hstorable _ _)) fun _ _ _ _ _ => hstorable _ _
  exact hstart.visits hframe hadmits h hend

end BodyStart

end Starts

end Lowering

end CilSsa
