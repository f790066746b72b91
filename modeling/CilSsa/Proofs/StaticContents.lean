import CilSsa.Proofs.StaticWrites
import CilSsa.Proofs.StackMerges

/-!
What a static field holds after straight-line code.

The first constant that a static constructor stores to a field becomes the initial value of the
global, wherever in the code it stands.  So it comes before every other store, and is lost if the
code stores something else to the field before it.  It also is the number that the compiler knows,
and not the one that a conversion to the type of the field would have made of it.
-/

namespace CilSsa.Lowering

open CilSsa.Metadata CilSsa.Ssa

/-- Code that is executed from the first instruction to the last. -/
def StraightLine (instrs : List Instruction) : Prop :=
  (∀ instr ∈ instrs, instr.targets = []) ∧ ∀ instr ∈ instrs.dropLast, instr.opcode.flow = .next

instance (instrs : List Instruction) : Decidable (StraightLine instrs) :=
  inferInstanceAs (Decidable (_ ∧ _))

/-- Whether an instruction stores to a static field. -/
def writesTo (f : FieldId) (instr : Instruction) : Bool :=
  instr.opcode = .stsfld && instr.operand = .field f

/-- The positions before `n` where a static field is stored to. -/
def writePositions (f : FieldId) (instrs : List Instruction) (n : Nat) : List Nat :=
  (List.range n).filter fun i => instrs[i]?.any (writesTo f)

section Instructions

variable {instrs : List Instruction} {instr : Instruction} {f : FieldId} {n : Nat}

theorem writePositions_succ (h : instrs[n]? = some instr) : writePositions f instrs (n + 1) =
    writePositions f instrs n ++ if writesTo f instr then [n] else [] := by
  rw [writePositions, List.range_succ, List.filter_append, writePositions]
  cases hwrites : writesTo f instr <;> simp [h, hwrites]

theorem StraightLine.flow (h : StraightLine instrs) (hinstr : instrs[n]? = some instr)
    (hn : n + 1 < instrs.length) : instr.opcode.flow = .next := by
  refine h.2 instr (List.mem_of_getElem? (i := n) ?_)
  rw [List.getElem?_dropLast, if_pos (by omega), hinstr]

/-- Straight-line code is one block. -/
theorem StraightLine.leader (h : StraightLine instrs) (hn : n ∈ leaders instrs) : n = 0 := by
  have hne : instrs ≠ [] := by
    rintro rfl
    simp [leaders] at hn
  rcases (mem_leaders_iff hne).mp hn with rfl | hn
  · rfl
  · obtain ⟨i, instr, hinstr, hn⟩ := mem_leadersFrom.mp hn
    have htargets := h.1 instr (List.mem_of_getElem? hinstr)
    rw [leadersOf, htargets, List.nil_append] at hn
    split at hn
    · rename_i hends
      simp only [Bool.and_eq_true, decide_eq_true_eq, Nat.zero_add] at hends
      rw [h.flow hinstr hends.2] at hends
      exact absurd hends.1 (by decide)
    · simp at hn

theorem dispatch_eq_storeStatic {opcode : Opcode} :
    dispatch opcode = .action .storeStatic ↔ opcode = .stsfld :=
  ⟨fun h => of_dispatch (P := fun op a => a = .storeStatic → op = .stsfld) h
    (by decide +kernel) rfl, fun h => h ▸ rfl⟩

theorem eq_ldsflda_of_dispatch {opcode : Opcode}
    (h : dispatch opcode = .action .loadStaticAddress) : opcode = .ldsflda :=
  of_dispatch (P := fun op a => a = .loadStaticAddress → op = .ldsflda) h (by decide +kernel) rfl

end Instructions

section Entering

variable {frame : Frame} {f : FieldId} {direct : Prop} {start : Module} {writes : List Write}
  {s s' : EmitState} {site : Site} {u : Unit}

/-- Without values on the stack there is nothing to pass on. -/
theorem merge_empty {asm : Assembly} {incoming : EvalStack} {source target : BlockId} {refers : Nat}
    {m m' : Module} (h : EvalStack.merge asm {} {} source target refers m = .ok incoming m') :
    incoming = {} := by
  unfold EvalStack.merge at h
  split at h
  · exact (pure_eq_ok_iff.mp h).1
  · exact (pure_eq_ok_iff.mp h).1

theorem enterBlock_empty (h : Emit.enterBlock site s = .ok u s') (hstack : s.stack = {})
    (hleaders : ∀ l ∈ s.leaders, l.incoming = {}) : s'.stack.elements = [] := by
  obtain ⟨s₁, l, hfirst, hleader, rfl⟩ := enterBlock_cases h
  have hempty : l.incoming = {} := by
    have hmem : l ∈ s₁.leaders := List.mem_of_find?_eq_some hleader
    rcases hfirst with ⟨-, rfl⟩ | ⟨-, b, s₀, hreconcile, hbr⟩
    · exact hleaders l hmem
    · obtain ⟨l₀, incoming, m, hl₀, -, hmerge, rfl⟩ := reconcile_cases hreconcile
      obtain ⟨t, -, rfl⟩ := Emit.lower_eq_ok_iff.mp hbr
      rw [hstack, hleaders l₀ (List.mem_of_find?_eq_some hl₀)] at hmerge
      obtain ⟨l', hl', rfl⟩ := mem_withIncoming.mp hmem
      split
      · exact merge_empty hmerge
      · exact hleaders l' hl'
  rw [EvalStack.elements_snapshot, hempty]
  rfl

/-- Code that passes control on writes nothing. -/
theorem Tracks.arrange {x : Emit Unit} (h : Tracks frame.asm f start writes s.session)
    (hlater : Session.Later frame.asm s.session s'.session)
    (hx : ∀ (R : Session → Session → Prop) (spared : ValueId → Prop) [Building spared R]
      [Arranging R], Keeps (EmitState.On R) x)
    (hrun : x s = .ok u s') : Tracks frame.asm f start writes s'.session := by
  have hsame : s.session.SameStatics s'.session := (hx Session.SameStatics noAddress).run hrun
  have hspares := (hx (Session.On (Module.Spares fun g =>
    s.session.registry.staticField? f = some g)) _).run hrun
  exact h.mono hlater hsame.staticField? (by rw [hsame.folded]) hspares

theorem Follows.enter (h : Follows f direct site.toFrame start writes s)
    (hrun : Emit.enterBlock site s = .ok u s') (hstack : s.stack = {})
    (hleaders : ∀ l ∈ s.leaders, l.incoming = {}) :
    Follows f direct site.toFrame start writes s' := by
  have hkeeps : Keeps (EmitState.On (Session.Later site.asm)) (Emit.enterBlock site) :=
    inferInstance
  have hlater : Session.Later site.asm s.session s'.session := hkeeps.run hrun
  have htracks : Tracks site.asm f start writes s'.session :=
    Tracks.arrange h.tracks hlater (fun R spared _ _ => inferInstance) hrun
  refine ⟨htracks, h.guarded.later hlater htracks.statics fun e he => ?_⟩
  rw [enterBlock_empty hrun hstack hleaders] at he
  exact absurd he (by simp)

end Entering

section Emitting

variable {f : FieldId} {direct : Prop} {start : Module} {writes : List Write} {s s' : EmitState}
  {site : Site} {u : Unit}

/-- The writes to the field by an instruction: one by a store to the field, and by any other
instruction only through an address. -/
inductive AddedBy (f : FieldId) (direct : Prop) (site : Site) (s s' : EmitState) :
    List Write → Prop where
  | store {store : Emit.StaticStore site s} {v : ValueId} {kind : WriteKind}
      (hwrites : writesTo f site.instr = true) (hfield : store.field = f) (hkind : kind ≠ .through)
      (hleaves : store.Leaves s'.session.module v kind) :
      AddedBy f direct site s s' [⟨site.index, v, kind⟩]
  | other (values : List ValueId) (hwrites : writesTo f site.instr = false)
      (hdirect : direct → values = []) :
      AddedBy f direct site s s' (writesThrough site.index values)

structure Adds (f : FieldId) (direct : Prop) (site : Site) (start : Module) (writes : List Write)
    (s s' : EmitState) (added : List Write) : Prop where
  tracks : Tracks site.asm f start (writes ++ added) s'.session
  guarded : site.instr.opcode.flow = .next → Guarded f direct site.toFrame s'
  added : AddedBy f direct site s s' added

theorem Follows.adds_nil (h : Follows f direct site.toFrame start writes s')
    (hnone : writesTo f site.instr = false) : Adds f direct site start writes s s' [] :=
  ⟨by simpa using h.tracks, fun _ => h.guarded, .other [] hnone fun _ => rfl⟩

theorem FollowsThrough.adds (h : FollowsThrough f direct site.toFrame start writes site.index s')
    (hnone : writesTo f site.instr = false) :
    ∃ added, Adds f direct site start writes s s' added := by
  obtain ⟨values, hdirect, hfollows⟩ := h
  exact ⟨_, hfollows.tracks, fun _ => hfollows.guarded, .other _ hnone hdirect⟩

/-- A store to the field becomes a write; no other instruction does, unless it has its address. -/
theorem Follows.instruction (h : Follows f direct site.toFrame start writes s)
    (hdirect : direct → site.instr.opcode = .ldsflda → site.instr.operand ≠ .field f)
    (hrun : Emit.instruction site s = .ok u s') :
    ∃ added, Adds f direct site start writes s s' added := by
  have hlater : Keeps (EmitState.On (Session.Later site.asm)) (Emit.instruction site) :=
    inferInstance
  have hlater' : Session.Later site.asm s.session s'.session := hlater.run hrun
  unfold Emit.instruction at hrun
  cases hdispatch : dispatch site.instr.opcode with
  | deferred => simp [hdispatch] at hrun
  | unsupported => simp [hdispatch] at hrun
  | action action =>
      simp only [hdispatch] at hrun
      have hother (hne : action ≠ .storeStatic) : writesTo f site.instr = false := by
        refine Bool.eq_false_iff.mpr fun hwrites => hne ?_
        simp only [writesTo, Bool.and_eq_true, decide_eq_true_eq] at hwrites
        have hstore := dispatch_eq_storeStatic.mpr hwrites.1
        rw [hdispatch] at hstore
        exact Dispatch.action.inj hstore
      cases hends : Emit.endsBlock action with
      | true =>
          have hne : action ≠ .storeStatic := by
            rintro rfl
            exact Bool.noConfusion hends
          have htracks : Tracks site.asm f start writes s'.session :=
            Tracks.arrange h.tracks hlater' (fun R spared _ _ => Emit.perform_arranging hends) hrun
          refine ⟨[], by simpa using htracks, fun hnext => ?_,
            .other [] (hother hne) fun _ => rfl⟩
          rw [flow_of_dispatch hdispatch] at hnext
          rw [← endsBlock_flowOf, hnext] at hends
          exact absurd hends (by decide)
      | false =>
          cases hstatic : Emit.usesStatic action with
          | false =>
              have hne : action ≠ .storeStatic := by
                rintro rfl
                exact Bool.noConfusion hstatic
              exact (h.keeps (fun R w _ => Emit.perform_straight hends hstatic)
                hrun site.index).adds
                (hother hne)
          | true =>
              cases action with
              | loadStatic => exact (h.loadStatic hrun).adds (hother (by simp))
              | loadStaticAddress =>
                  have hfield (h : direct) := hdirect h (eq_ldsflda_of_dispatch hdispatch)
                  exact (h.loadStaticAddress hfield hrun).adds (hother (by simp))
              | storeStatic =>
                  have hopcode := dispatch_eq_storeStatic.mp hdispatch
                  obtain ⟨store, ⟨hfield, hthen⟩ | ⟨hfield, v, kind, hkind, hleaves, hthen⟩⟩ :=
                    h.storeStatic hrun
                  · refine ⟨[], hthen.adds_nil ?_⟩
                    simp [writesTo, hopcode, store.operand, hfield]
                  · refine ⟨_, hthen.tracks, fun _ => hthen.guarded, .store ?_ hfield hkind hleaves⟩
                    simp [writesTo, hopcode, store.operand, hfield]
              | _ => exact Bool.noConfusion hstatic

end Emitting

namespace BodyRun

variable {asm : Assembly} {d : MethodDef} {name : String} {fn : FunctionId} {body : MethodBody}
  {s s' : Session} {f : FieldId} {direct : Prop}

structure StoreAt (run : BodyRun asm d name fn body s s') (f : FieldId) (position : Nat)
    (instr : Instruction) (t : EmitState)
    (store : Emit.StaticStore (siteAt run.frame position instr) t) : Prop where
  instr_eq : body.instructions[position]? = some instr
  reached : ∃ t₀, Reaches run.frame body.instructions run.start position t₀ ∧
    if (Emit.leader? t₀ position).isSome then
      Emit.enterBlock (siteAt run.frame position instr) t₀ = .ok () t else t = t₀
  field_eq : store.field = f

/-- What a module has of a store to a static field that a body makes. -/
def Wrote (run : BodyRun asm d name fn body s s') (f : FieldId) (m : Module) (w : Write) : Prop :=
  ∃ instr t store, run.StoreAt f w.position instr t store ∧ store.Leaves m w.value w.kind

/-- The writes to a static field by the instructions before a position, in their order. -/
structure Sequence (run : BodyRun asm d name fn body s s') (f : FieldId) (direct : Prop)
    (m : Module) (n : Nat) (writes : List Write) : Prop where
  positions : (fieldWrites writes).map Write.position = writePositions f body.instructions n
  written : ∀ w ∈ writes, w.kind ≠ .through → run.Wrote f m w
  direct : direct → ∀ w ∈ writes, w.kind ≠ .through

theorem Sequence.mono {run : BodyRun asm d name fn body s s'} {m m' : Module} {n : Nat}
    {writes : List Write} (h : run.Sequence f direct m n writes)
    (hevolves : m.Evolves Change.Any m') :
    run.Sequence f direct m' n writes := by
  refine ⟨h.positions, fun w hw hkind => ?_, h.direct⟩
  obtain ⟨instr, t, store, hat, hleaves⟩ := h.written w hw hkind
  exact ⟨instr, t, store, hat, hleaves.mono hevolves⟩

/-- The writes of the next instruction come behind those before it. -/
theorem Sequence.step {run : BodyRun asm d name fn body s s'} {m : Module} {n : Nat}
    {writes added : List Write} {instr : Instruction} {t t₁ t' : EmitState}
    (h : run.Sequence f direct m n writes) (hinstr : body.instructions[n]? = some instr)
    (hreaches : Reaches run.frame body.instructions run.start n t)
    (henter : if (Emit.leader? t n).isSome then
      Emit.enterBlock (siteAt run.frame n instr) t = .ok () t₁ else t₁ = t)
    (hadded : AddedBy f direct (siteAt run.frame n instr) t₁ t' added)
    (hevolves : m.Evolves Change.Any t'.session.module) :
    run.Sequence f direct t'.session.module (n + 1) (writes ++ added) := by
  have hbefore := h.mono hevolves
  cases hadded with
  | @store store v kind hwrites hfield hkind hleaves =>
      have hwrites' : writesTo f instr = true := hwrites
      refine ⟨?_, fun w hw hw' => ?_, fun hdirect w hw => ?_⟩
      · rw [fieldWrites_append, List.map_append, h.positions, writePositions_succ hinstr,
          if_pos hwrites']
        simp [fieldWrites, hkind, siteAt]
      · rcases List.mem_append.mp hw with hw | hw
        · exact hbefore.written w hw hw'
        · obtain rfl := List.mem_singleton.mp hw
          exact ⟨instr, t₁, store, ⟨hinstr, ⟨t, hreaches, henter⟩, hfield⟩, hleaves⟩
      · rcases List.mem_append.mp hw with hw | hw
        · exact h.direct hdirect w hw
        · obtain rfl := List.mem_singleton.mp hw
          exact hkind
  | other values hwrites hdirect =>
      have hwrites' : writesTo f instr = false := hwrites
      refine ⟨?_, fun w hw hw' => ?_, fun hd w hw => ?_⟩
      · rw [fieldWrites_append, fieldWrites_writesThrough, List.append_nil, h.positions,
          writePositions_succ hinstr, hwrites', if_neg Bool.false_ne_true, List.append_nil]
      · rcases List.mem_append.mp hw with hw | hw
        · exact hbefore.written w hw hw'
        · exact absurd (kind_of_mem_writesThrough hw) hw'
      · rw [hdirect hd] at hw
        exact h.direct hd w (by simpa [writesThrough] using hw)

set_option synthInstance.maxSize 256 in
/-- The prologue stores to no global. -/
theorem follows_start (run : BodyRun asm d name fn body s s') (hstatics : s.StaticsSound asm) :
    Follows f direct run.frame s.module [] run.start := by
  have hprologue {R : Session → Session → Prop} [Building noAddress R] [Arranging R] :
      Keeps R (Lowering.prologue asm d name fn body) := by
    unfold Lowering.prologue
    infer_instance
  have hlater : Session.Later asm s run.start.session := hprologue.run run.prologue
  have hsame : s.SameStatics run.start.session := hprologue.run run.prologue
  have hspares : Session.On (Module.Spares fun g => s.registry.staticField? f = some g) s
      run.start.session := by
    have hkeeps : Keeps (Session.On (Module.Spares fun g => s.registry.staticField? f = some g))
        (Lowering.prologue asm d name fn body) := by
      unfold Lowering.prologue
      infer_instance
    exact hkeeps.run run.prologue
  have hfield : run.start.session.registry.staticField? f = s.registry.staticField? f :=
    hsame.staticField?
  have htracks : Tracks asm f s.module [] s :=
    ⟨Relation.ReflTransGen.refl, hstatics, fun _ => rfl, by simp [stored], by simp⟩
  refine ⟨?_, fun v hv => (hlater.statics hstatics).lt hv.2,
    by simp [run.stack, EvalStack.elements], fun v hv => ?_⟩
  · rw [run.asm_eq]
    exact htracks.mono hlater hfield (by rw [hsame.folded]) hspares
  · obtain ⟨hle, hlt⟩ := new_of_prologue run.prologue hv
    refine ⟨fun _ => hlt, fun hstatic => ?_⟩
    exact absurd (hstatics.lt (hfield ▸ hstatic.2)) (Nat.not_lt.mpr hle)

theorem enters (run : BodyRun asm d name fn body s s') (hstraight : StraightLine body.instructions)
    (htargets : ∀ instr ∈ body.instructions, ∀ target ∈ instr.targets,
      target < body.instructions.length)
    {writes : List Write} {n : Nat} {instr : Instruction} {t t' : EmitState}
    (h : Follows f direct run.frame s.module writes t) (hn : n < body.instructions.length)
    (hreaches : Reaches run.frame body.instructions run.start n t)
    (henter : if (Emit.leader? t n).isSome then
      Emit.enterBlock (siteAt run.frame n instr) t = .ok () t' else t' = t) :
    Follows f direct (siteAt run.frame n instr).toFrame s.module writes t' := by
  obtain ⟨edges, hbefore⟩ := before_of_reaches htargets (Nat.le_of_lt hn) hreaches
  obtain ⟨-, hplaced⟩ := hbefore.passing_placed
  split at henter
  · rename_i hleader
    obtain rfl := hstraight.leader ((isSome_leader?_iff hplaced).mp hleader)
    obtain rfl := reaches_zero.mp hreaches
    have hstart : Follows f direct (siteAt run.frame 0 instr).toFrame s.module writes run.start := h
    refine hstart.enter henter run.stack fun l hl => ?_
    obtain ⟨-, -, _, _, _, _, _, -, -, -, -, hleaders⟩ := prologue_cases run.prologue
    exact ((appendLeaders_spec hleaders).2.2.1 l hl).2.1
  · subst henter
    exact h

/-- The emission of the instructions before a position. -/
theorem tracks (run : BodyRun asm d name fn body s s') (hstraight : StraightLine body.instructions)
    (hdirect : direct → ∀ instr ∈ body.instructions, instr.opcode = .ldsflda →
      instr.operand ≠ .field f)
    (hstatics : s.StaticsSound asm) {n : Nat} {t : EmitState} (hn : n ≤ body.instructions.length)
    (h : Reaches run.frame body.instructions run.start n t) :
    ∃ writes, Tracks run.frame.asm f s.module writes t.session ∧
      (n < body.instructions.length → Guarded f direct run.frame t) ∧
      run.Sequence f direct t.session.module n writes := by
  have htargets : ∀ instr ∈ body.instructions, ∀ target ∈ instr.targets,
      target < body.instructions.length := by
    intro instr hinstr target htarget
    simp [hstraight.1 instr hinstr] at htarget
  induction n generalizing t with
  | zero =>
      obtain rfl := reaches_zero.mp h
      have hstart : Follows f direct run.frame s.module [] run.start := run.follows_start hstatics
      exact ⟨[], hstart.tracks, fun _ => hstart.guarded, rfl, by simp, by simp⟩
  | succ n ih =>
      obtain ⟨instr, hinstr⟩ : ∃ instr, body.instructions[n]? = some instr :=
        ⟨_, List.getElem?_eq_getElem hn⟩
      obtain ⟨t₀, hbefore, hstep⟩ := (reaches_succ hinstr).mp h
      obtain ⟨t₁, henter, hrun⟩ := instructions_singleton.mp hstep
      obtain ⟨writes, htracks, hguarded, hsequence⟩ := ih (Nat.le_of_lt hn) hbefore
      have hfollows : Follows f direct run.frame s.module writes t₀ := ⟨htracks, hguarded hn⟩
      have hentered := run.enters hstraight htargets hfollows hn hbefore henter
      obtain ⟨added, hadds⟩ := hentered.instruction
        (fun h => hdirect h instr (List.mem_of_getElem? hinstr)) hrun
      have hkeeps : Keeps (EmitState.On (Session.Later run.frame.asm))
          (Emit.instructions run.frame n [instr]) := inferInstance
      have hlater : Session.Later run.frame.asm t₀.session t.session := hkeeps.run hstep
      exact ⟨writes ++ added, hadds.tracks, fun hlt => hadds.guarded (hstraight.flow hinstr hlt),
        hsequence.step hinstr hbefore henter hadds.added hlater.module⟩

/-- The whole body. -/
theorem tracks_final (run : BodyRun asm d name fn body s s')
    (hstraight : StraightLine body.instructions)
    (hdirect : direct → ∀ instr ∈ body.instructions, instr.opcode = .ldsflda →
      instr.operand ≠ .field f)
    (hstatics : s.StaticsSound asm) :
    ∃ writes, Tracks run.frame.asm f s.module writes s' ∧
      run.Sequence f direct s'.module body.instructions.length writes := by
  obtain ⟨t, hreaches, hend⟩ := emission_cases run.emission
  obtain ⟨writes, htracks, -, hsequence⟩ :=
    run.tracks hstraight hdirect hstatics (Nat.le_refl _) hreaches
  have hfinal : Tracks run.frame.asm f s.module writes run.final.session ∧
      run.Sequence f direct run.final.session.module body.instructions.length writes := by
    rcases hend with ⟨-, hsame⟩ | ⟨-, hrun⟩
    · rw [hsame]
      exact ⟨htracks, hsequence⟩
    · have hkeeps {R : Session → Session → Prop} [Arranging R] :
          Keeps (EmitState.On R) (Emit.lower (Lower.build Build.unreachable)) := inferInstance
      have hlater : Session.Later run.frame.asm t.session run.final.session := hkeeps.run hrun
      exact ⟨htracks.arrange hlater (fun R _ _ _ => hkeeps) hrun, hsequence.mono hlater.module⟩
  exact ⟨writes, (congrArg (Tracks _ f s.module writes) run.session).mpr hfinal.1,
    (congrArg (fun t : Session => run.Sequence f direct t.module _ writes) run.session).mpr
      hfinal.2⟩

/-- The writes of a body to a static field, and what they leave behind: the initial value of
the global, and the stores at run time.  All of them are stores to the field if the body does
not take its address. -/
structure Stores (run : BodyRun asm d name fn body s s') (f : FieldId) (initial : ValueId)
    (emitted : List ValueId) (writes : List Write) : Prop where
  global : ∃ g content, s'.registry.staticField? f = some g ∧
    s'.module.global? g = some (content, initial) ∧
    s'.module.storesTo g = s.module.storesTo g ++ emitted
  emitted_eq : emitted = stored writes
  sequence : run.Sequence f
    (∀ instr ∈ body.instructions, instr.opcode = .ldsflda → instr.operand ≠ .field f) s'.module
    body.instructions.length writes

end BodyRun

/-- What an address holds after stores to it. -/
def contentAfter (initial : ValueId) (stores : List ValueId) : ValueId :=
  stores.foldl (fun _ value => value) initial

theorem contentAfter_eq (initial : ValueId) (stores : List ValueId) :
    contentAfter initial stores = stores.getLast?.getD initial := by
  rcases List.eq_nil_or_concat stores with rfl | ⟨rest, value, rfl⟩
  · rfl
  · simp [contentAfter]

/-- The stores at run time that come after a write: those behind it, and all others if it became the
initial value. -/
def overwriting (before : List Write) (last : Write) (after : List Write) : List ValueId :=
  stored (if last.kind = .folded then before ++ after else after)

theorem content_eq {initial : ValueId} {before after : List Write} {last : Write}
    (hinitial : last.kind = .folded → initial = last.value) :
    contentAfter initial (stored (before ++ last :: after)) =
      (overwriting before last after).getLast?.getD last.value := by
  have hstored : stored (before ++ last :: after) = stored before ++ stored [last] ++
      stored after := by
    rw [List.append_cons, stored_append, stored_append]
  rw [contentAfter_eq, hstored, overwriting]
  by_cases hfolded : last.kind = .folded
  · rw [if_pos hfolded, hinitial hfolded, stored_append]
    simp [stored, hfolded]
  · have hlast : stored [last] = [last.value] := by simp [stored, hfolded]
    rw [if_neg hfolded, hlast]
    rcases List.eq_nil_or_concat (stored after) with hnone | ⟨rest, value, hsome⟩
    · simp [hnone]
    · rw [hsome, List.concat_eq_append, ← List.append_assoc, List.getLast?_concat,
        List.getLast?_concat]
      rfl

/-- What a store to a static field means to leave there. -/
def Emit.StaticStore.meant {site : Site} {s : EmitState} (store : Emit.StaticStore site s)
    (x : Machine) (m : Module) : Datum :=
  meaningAt x m store.signed store.element.value store.type

theorem exists_last {α : Type} {P : α → Prop} {items : List α} (h : ∃ a ∈ items, P a) :
    ∃ before last after, items = before ++ last :: after ∧ P last ∧ ∀ a ∈ after, ¬ P a := by
  induction items with
  | nil => simp at h
  | cons head rest ih =>
      by_cases hrest : ∃ a ∈ rest, P a
      · obtain ⟨before, last, after, rfl, hlast⟩ := ih hrest
        exact ⟨head :: before, last, after, rfl, hlast⟩
      · obtain ⟨a, hmem, ha⟩ := h
        rcases List.mem_cons.mp hmem with rfl | hmem
        · exact ⟨[], a, rest, rfl, ha, fun b hb hb' => hrest ⟨b, hb, hb'⟩⟩
        · exact absurd ⟨a, hmem, ha⟩ hrest

variable {asm : Assembly} {d : MethodDef} {name : String} {fn : FunctionId} {body : MethodBody}
  {s s' : Session} {f : FieldId}

structure BodyRun.LastStore (run : BodyRun asm d name fn body s s') (f : FieldId)
    (initial : ValueId) (emitted : List ValueId) (before : List Write) (last : Write)
    (after : List Write) {instr : Instruction} {t : EmitState}
    (store : Emit.StaticStore (siteAt run.frame last.position instr) t) : Prop where
  stores : run.Stores f initial emitted (before ++ last :: after)
  behind : ∀ w ∈ after, w.kind = .through
  place : run.StoreAt f last.position instr t store
  leaves : store.Leaves s'.module last.value last.kind

/-- After straight-line code the last store at run time decides what a static field holds.  That is
the value of the last store to the field at the type of the field if this store is one at run time
and nothing is stored through an address behind it.  A constant that became the initial value stays
only where nothing is stored at run time, and then as the number that the compiler has for it, which
is the number that it would be converted to exactly if the two fold alike. -/
theorem holds_last_iff (h : emitBody asm d name fn body s = .ok () s')
    (hstatics : s.StaticsSound asm) (hstraight : StraightLine body.instructions)
    (hwritten : ∃ instr ∈ body.instructions, writesTo f instr = true) :
    ∃ (run : BodyRun asm d name fn body s s') (initial : ValueId) (emitted : List ValueId)
      (before : List Write) (last : Write) (after : List Write) (instr : Instruction)
      (t : EmitState) (store : Emit.StaticStore (siteAt run.frame last.position instr) t),
      run.LastStore f initial emitted before last after store ∧ ∀ x : Machine,
        (x.meaning s'.module (contentAfter initial emitted) = store.meant x s'.module ↔
          match (overwriting before last after).getLast? with
          | some v => x.meaning s'.module v = store.meant x s'.module
          | none => last.kind = .folded →
              x.meaning s'.module last.value = store.meant x s'.module) ∧
        (last.kind = .folded → ∀ {own : TypeId} {kind : ValueKind} {source target : TypeClass},
          s'.module.values[store.element.value.index]? = some ⟨own, kind⟩ →
          s'.module.classify own = .ok source → s'.module.classify store.type = .ok target →
          kind.FitsIn source →
          (x.meaning s'.module last.value = store.meant x s'.module ↔
            FoldsAlike store.signed source target kind)) := by
  obtain ⟨run⟩ := nonempty_bodyRun h
  obtain ⟨writes, htracks, hsequence⟩ := run.tracks_final hstraight id hstatics
  have hsome : ∃ w ∈ writes, w.kind ≠ .through := by
    obtain ⟨instr, hmem, hwrites⟩ := hwritten
    obtain ⟨i, hi, rfl⟩ := List.mem_iff_getElem.mp hmem
    have hposition : i ∈ writePositions f body.instructions body.instructions.length := by
      simp [writePositions, hi, hwrites]
    rw [← hsequence.positions] at hposition
    obtain ⟨w, hw, -⟩ := List.mem_map.mp hposition
    obtain ⟨hw, hkind⟩ := List.mem_filter.mp hw
    exact ⟨w, hw, by simpa using hkind⟩
  obtain ⟨before, last, after, rfl, hlast, hafter⟩ := exists_last hsome
  obtain ⟨instr, t, store, hat, hleaves⟩ := hsequence.written last (by simp) hlast
  obtain ⟨g, hg⟩ : ∃ g, s'.registry.staticField? f = some g :=
    Option.ne_none_iff_exists'.mp fun hnone => by simpa using htracks.unknown hnone
  obtain ⟨_, content, initial, -, -, hglobal⟩ := htracks.statics.global? hg
  have hinitial (hfolded : last.kind = .folded) : initial = last.value := by
    obtain ⟨_, hglobal'⟩ := (htracks.initial last (by simp) hfolded).2 hg
    cases hglobal.symm.trans hglobal'
    rfl
  have hstores : run.Stores f initial (stored (before ++ last :: after))
      (before ++ last :: after) :=
    ⟨⟨g, content, hg, hglobal, htracks.stores hg⟩, rfl, hsequence⟩
  refine ⟨run, initial, _, before, last, after, instr, t, store,
    ⟨hstores, fun w hw => Decidable.not_not.mp (hafter w hw), hat, hleaves⟩,
    fun x => ⟨?_, fun hfolded => ?_⟩⟩
  · rw [content_eq hinitial]
    cases hnext : (overwriting before last after).getLast? with
    | some v => rfl
    | none =>
        rw [Option.getD_none]
        refine ⟨fun hmeaning _ => hmeaning, fun hmeaning => ?_⟩
        generalize hkind : last.kind = kind at hleaves hmeaning
        cases hleaves with
        | folded => exact hmeaning rfl
        | stored _ hbrought => exact hbrought.meaning_eq
  · rw [hfolded] at hleaves
    cases hleaves with
    | folded _ _ hfolds =>
        intro own kind source target hvalue hsource htarget hfits
        exact hfolds.meaning_iff hvalue hsource htarget hfits

/-- A static constructor that stores a sum to a field, and a constant after it. -/
def reset : MethodBody where
  instructions := [
    { opcode := .ldcI41 },
    { opcode := .ldcI42 },
    { opcode := .add },
    { opcode := .stsfld, operand := .field ⟨0⟩ },
    { opcode := .ldcI45 },
    { opcode := .stsfld, operand := .field ⟨0⟩ },
    { opcode := .ret }]

def resetMethod : MethodDef where
  name := ".cctor"
  declaringType := ⟨3⟩
  returnType := .void
  flags := ⟨MethodFlags.static⟩
  body := some reset

/-- The class with the field and the method. -/
def resetAssembly : Assembly :=
  let roots := Assembly.ofName "A"
  { roots with
    types := roots.types.push
      { TypeDef.ofKind .classType "" "C" with base := some ⟨0⟩, fields := [⟨0⟩], methods := [⟨0⟩] }
    fields := #[⟨"F", ⟨3⟩, .i4, true⟩]
    methods := #[resetMethod] }

/-- A session in which the function of the method is declared. -/
def resetSession : Session where
  module := {
    name := "A"
    types := #[.void, .function ⟨0⟩ []]
    functions := #[
      { name := "C::.cctor", type := ⟨1⟩, linkage := .external, params := [], value := ⟨0⟩ }] }

/-- The session with the body. -/
def resetFinal : Session :=
  stateOf (emitBody resetAssembly resetMethod "C::.cctor" ⟨0⟩ reset resetSession)

theorem reset_statics : resetSession.StaticsSound resetAssembly :=
  ⟨fun h => absurd h (by simp [resetSession, Registry.staticField?]),
    fun h => absurd h (by simp [resetSession, Registry.staticField?])⟩

theorem reset_holds :
    emitBody resetAssembly resetMethod "C::.cctor" ⟨0⟩ reset resetSession = .ok () resetFinal ∧
      StraightLine reset.instructions ∧
      ∃ (run : BodyRun resetAssembly resetMethod "C::.cctor" ⟨0⟩ reset resetSession resetFinal)
        (initial : ValueId) (emitted : List ValueId) (before : List Write) (last : Write)
        (after : List Write) (instr : Instruction) (t : EmitState)
        (store : Emit.StaticStore (siteAt run.frame last.position instr) t),
        run.LastStore ⟨0⟩ initial emitted before last after store ∧ ∀ x : Machine,
          (x.meaning resetFinal.module (contentAfter initial emitted) =
              store.meant x resetFinal.module ↔
            match (overwriting before last after).getLast? with
            | some v => x.meaning resetFinal.module v = store.meant x resetFinal.module
            | none => last.kind = .folded →
                x.meaning resetFinal.module last.value = store.meant x resetFinal.module) := by
  have hemit : emitBody resetAssembly resetMethod "C::.cctor" ⟨0⟩ reset resetSession =
      .ok () resetFinal := outcome?_eq_some_iff.mp (by decide +kernel)
  have hstraight : StraightLine reset.instructions := by decide
  have hwritten : ∃ instr ∈ reset.instructions, writesTo ⟨0⟩ instr = true := by decide
  obtain ⟨run, initial, emitted, before, last, after, instr, t, store, hlast, hmeaning⟩ :=
    holds_last_iff hemit reset_statics hstraight hwritten
  exact ⟨hemit, hstraight, run, initial, emitted, before, last, after, instr, t, store, hlast,
    fun x => (hmeaning x).1⟩

/-- The constant, which is stored last, is the initial value; the sum is stored at run time and
stays. -/
theorem reset_keeps_sum :
    resetFinal.registry.staticField? ⟨0⟩ = some ⟨4⟩ ∧
      resetFinal.module.global? ⟨4⟩ = some (⟨2⟩, ⟨7⟩) ∧
      resetFinal.module.storesTo ⟨4⟩ = [⟨2⟩] ∧
      resetFinal.module.values[2]? = some ⟨⟨2⟩, .inst (some ⟨1⟩) (.binary .add ⟨0⟩ ⟨1⟩)⟩ ∧
      contentAfter ⟨7⟩ [⟨2⟩] = ⟨2⟩ ∧
      ∀ x : Machine, x.meaning resetFinal.module ⟨2⟩ = x.result ⟨2⟩ ∧
        x.meaning resetFinal.module ⟨7⟩ = .bits 5#32 := by
  obtain ⟨hfield, hglobal, hstores, hsum, hconstant, hclass⟩ :
      resetFinal.registry.staticField? ⟨0⟩ = some ⟨4⟩ ∧
        resetFinal.module.global? ⟨4⟩ = some (⟨2⟩, ⟨7⟩) ∧
        resetFinal.module.storesTo ⟨4⟩ = [⟨2⟩] ∧
        resetFinal.module.values[2]? = some ⟨⟨2⟩, .inst (some ⟨1⟩) (.binary .add ⟨0⟩ ⟨1⟩)⟩ ∧
        resetFinal.module.values[7]? = some ⟨⟨2⟩, .constInt 5⟩ ∧
        resetFinal.module.classify ⟨2⟩ = .ok (.int 32) := by
    decide +kernel
  refine ⟨hfield, hglobal, hstores, hsum, rfl, fun x => ⟨?_, meaning_number hconstant hclass rfl⟩⟩
  rw [Machine.meaning, hsum]
  simp [hclass, ValueKind.number?]

/-- A static constructor that stores the greatest unsigned integer of 32 bits to a field of 64
bits. -/
def mask : MethodBody where
  instructions := [
    { opcode := .ldcI4M1 },
    { opcode := .convU4 },
    { opcode := .stsfld, operand := .field ⟨0⟩ },
    { opcode := .ret }]

/-- The state that is left by the constructor of a class with a field of 64 bits. -/
def maskFinal : Session :=
  stateOf (emitBody { resetAssembly with fields := #[⟨"F", ⟨3⟩, .u8, true⟩] }
    resetMethod "C::.cctor" ⟨0⟩ mask resetSession)

/-- The initial value has all of its 64 bits set, and nothing is stored at run time. -/
theorem mask_grows :
    maskFinal.registry.staticField? ⟨0⟩ = some ⟨2⟩ ∧
      maskFinal.module.global? ⟨2⟩ = some (⟨3⟩, ⟨3⟩) ∧ maskFinal.module.storesTo ⟨2⟩ = [] ∧
      (∀ x : Machine, x.meaning maskFinal.module ⟨3⟩ = .bits (-1#64)) ∧
      ¬ FoldsAlike false (.int 32) (.int 64) (.constInt (-1)) := by
  obtain ⟨hfield, hglobal, hstores, hconstant, hclass⟩ :
      maskFinal.registry.staticField? ⟨0⟩ = some ⟨2⟩ ∧
        maskFinal.module.global? ⟨2⟩ = some (⟨3⟩, ⟨3⟩) ∧ maskFinal.module.storesTo ⟨2⟩ = [] ∧
        maskFinal.module.values[3]? = some ⟨⟨3⟩, .constInt (-1)⟩ ∧
        maskFinal.module.classify ⟨3⟩ = .ok (.int 64) := by
    decide +kernel
  exact ⟨hfield, hglobal, hstores, fun x => meaning_number hconstant hclass rfl,
    by simp [FoldsAlike]⟩

end CilSsa.Lowering
