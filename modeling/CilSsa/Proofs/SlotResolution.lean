import CilSsa.Proofs.SafeCompilation
import CilSsa.Proofs.TypeStops
import CilSsa.Proofs.VirtualDispatch

/-!
Slots that are looked for without end.

An override shares the slot of the method it overrides, which may override another one.  A walk up
the bases ends where it comes back to a type, but each method on the way starts a walk of its own.
In a circle of bases the overrides of a slot go round in a circle too, and the method that
introduced it is never found.
-/

namespace CilSsa

open Ssa Metadata Lowering

namespace Metadata.Assembly

variable {asm : Assembly} {m base : MethodId}

def Overridden (asm : Assembly) (base m : MethodId) : Prop := asm.slotStep m = .ok (.overrides base)

section Walks

theorem eq_of_slotStep {slot : MethodId} (h : asm.slotStep m = .ok (.settled (some slot))) :
    slot = m := by
  simp only [slotStep, exceptBind_eq_ok_iff] at h
  obtain ⟨d, -, kind, -, h⟩ := h
  split at h
  · split at h <;> cases h
    rfl
  · split at h
    · cases h
    · split at h
      · cases h
        rfl
      · simp only [exceptBind_eq_ok_iff] at h
        obtain ⟨chain, -, found, -, h⟩ := h
        cases found <;> cases h
        rfl

theorem slotStep_of_slotAfter {slot : MethodId} {fuel : Nat}
    (h : asm.slotAfter fuel m = .ok (some slot)) :
    asm.slotStep slot = .ok (.settled (some slot)) := by
  induction fuel generalizing m with
  | zero => cases h
  | succ fuel ih =>
      simp only [slotAfter, exceptBind_eq_ok_iff] at h
      obtain ⟨step, hstep, h⟩ := h
      cases step with
      | overrides base => exact ih h
      | settled found =>
          obtain rfl := Except.ok.inj h
          obtain rfl := eq_of_slotStep hstep
          exact hstep

theorem Overridden.unique {base' : MethodId} (h : asm.Overridden base m)
    (h' : asm.Overridden base' m) : base = base' := by
  cases h.symm.trans h'
  rfl

variable [hlinked : asm.Linked]

theorem Overridden.known (h : asm.Overridden base m) [hm : Known asm m] : Known asm base :=
  (Safe.answer (inferInstance : Safe asm (asm.slotStep m)) h).out

variable (asm m) in
/-- A step succeeds in an assembly in which everything that is referred to exists. -/
theorem exists_slotStep [hm : Known asm m] : ∃ step, asm.slotStep m = .ok step := by
  cases hstep : asm.slotStep m with
  | ok step => exact ⟨step, rfl⟩
  | error fault =>
      have hdangling : fault.OfMetadata :=
        (inferInstance : Faults Fault.OfMetadata (asm.slotStep m)).fault hstep
      have hsafe : fault.isDangling = false :=
        Safe.reason (inferInstance : Safe asm (asm.slotStep m)) hstep
      cases hdangling.symm.trans hsafe

/-- The slot is found before as many methods are passed as there are.  Here `passed` are the methods
that have been passed. -/
theorem exists_slotAfter (h : Acc asm.Overridden m) [hm : Known asm m] {passed : List MethodId}
    {fuel : Nat} (htrail : Trail MethodId.index asm.methods.size fuel passed)
    (hpassed : ∀ m' ∈ passed, Relation.TransGen asm.Overridden m m') :
    ∃ slot, asm.slotAfter fuel m = .ok slot := by
  induction h generalizing hm passed fuel with
  | intro m hbases ih =>
      cases fuel with
      | zero => exact absurd htrail (Trail.not_zero fun _ _ => congrArg MethodId.mk)
      | succ fuel =>
          obtain ⟨step, hstep⟩ := exists_slotStep asm m
          cases step with
          | settled slot => exact ⟨slot, exceptBind_eq_ok_iff.mpr ⟨_, hstep, rfl⟩⟩
          | overrides base =>
              have hbase : asm.Overridden base m := hstep
              have := hbase.known
              have hself : m ∉ passed := fun hmem => not_acc_of_circle (hpassed m hmem) ⟨m, hbases⟩
              have hpassed' : ∀ m' ∈ m :: passed, Relation.TransGen asm.Overridden base m' :=
                List.forall_mem_cons.mpr ⟨.single hbase, fun m' hm' => .head hbase (hpassed m' hm')⟩
              obtain ⟨slot, hslot⟩ := ih base hbase (htrail.next hself hm.out) hpassed'
              exact ⟨slot, exceptBind_eq_ok_iff.mpr ⟨_, hstep, hslot⟩⟩

/-- Without an end no number of steps is enough. -/
theorem slotAfter_endless (h : ¬ Acc asm.Overridden m) [hm : Known asm m] (fuel : Nat) :
    asm.slotAfter fuel m = .error .endless := by
  induction fuel generalizing m hm with
  | zero => rfl
  | succ fuel ih =>
      obtain ⟨step, hstep⟩ := exists_slotStep asm m
      rw [slotAfter, hstep]
      cases step with
      | settled slot =>
          refine absurd ⟨m, fun base hbase => ?_⟩ h
          cases hstep.symm.trans hbase
      | overrides base =>
          have hbase : asm.Overridden base m := hstep
          have := hbase.known
          refine ih fun hacc => h ⟨m, fun base' hbase' => ?_⟩
          exact hbase'.unique hbase ▸ hacc

variable (asm m) in
/-- A slot is found exactly if the overrides come to an end. -/
theorem slotMethod_cases [hm : Known asm m] :
    (Acc asm.Overridden m ∧ ∃ slot, asm.slotMethod m = .ok slot) ∨
      ¬ Acc asm.Overridden m ∧ asm.slotMethod m = .error .endless := by
  by_cases h : Acc asm.Overridden m
  · exact .inl ⟨h, exists_slotAfter h (.start (Nat.lt_succ_self _)) (by simp)⟩
  · exact .inr ⟨h, slotAfter_endless h _⟩

end Walks

section Bases

theorem above_of_ancestors {ty t : TypeDefId} {chain : BaseChain} (h : asm.ancestors ty = .ok chain)
    (ht : t ∈ chain.types) : Relation.TransGen asm.HasBase ty t := by
  simp only [ancestors, exceptBind_eq_ok_iff, exceptPure_eq_ok_iff] at h
  obtain ⟨d, hd, rfl⟩ := h
  cases hbase : d.base with
  | none => simp [hbase, chainFrom] at ht
  | some base =>
      rw [hbase] at ht
      have hup : LeadsUp Fault.OfMetadata asm base
          (asm.chainFrom (asm.types.size + 1) [ty] (some base)) := by
        refine leadsUp_chainFrom _ _ _ fun next hnext => ?_
        obtain rfl := Option.some.inj hnext
        exact .refl
      exact .head' ⟨d, hd, hbase⟩ (hup.types t ht)

theorem Overridden.listed (h : asm.Overridden base m) : ∃ md t d, asm.method m = .ok md ∧
    Relation.TransGen asm.HasBase md.declaringType t ∧ asm.typeDef t = .ok d ∧ base ∈ d.methods ∧
    ∃ bd, asm.method base = .ok bd ∧ bd.sameSignature md = true := by
  simp only [Overridden, slotStep, exceptBind_eq_ok_iff] at h
  obtain ⟨md, hmd, kind, -, h⟩ := h
  split at h
  · cases h
  split at h
  · cases h
  split at h
  · cases h
  simp only [exceptBind_eq_ok_iff, BaseChain.findSome] at h
  obtain ⟨chain, hchain, found, ⟨first, hfirst, hfound⟩, h⟩ := h
  cases first with
  | none =>
      simp only [BaseChain.atEnd] at hfound
      split at hfound
      · cases hfound
      · cases hfound
        cases h
  | some method =>
      cases hfound
      cases h
      obtain ⟨t, ht, hlike⟩ := mem_of_exceptFindSomeM? hfirst
      simp only [virtualLike, exceptBind_eq_ok_iff] at hlike
      obtain ⟨d, hd, hfind⟩ := hlike
      obtain ⟨hmem, hmatches⟩ := mem_of_exceptFindM? hfind
      simp only [exceptBind_eq_ok_iff, exceptPure_eq_ok_iff] at hmatches
      obtain ⟨bd, hbd, hsame⟩ := hmatches
      exact ⟨md, t, d, hmd, above_of_ancestors hchain ht, hd, hmem, bd, hbd,
        (Bool.and_eq_true_iff.mp hsame.symm).2⟩

theorem acc_of_no_method (h : ∀ md, asm.method m ≠ .ok md) : Acc asm.Overridden m := by
  refine ⟨m, fun base hbase => ?_⟩
  obtain ⟨md, _, _, hmd, -⟩ := hbase.listed
  exact absurd hmd (h md)

/-- Where methods are listed by the types that declare them, the overrides of a method come to an
end if the bases of its type do. -/
theorem acc_overridden (hlisted : MethodsListed asm) {ty : TypeDefId}
    (hbases : Acc (Function.swap asm.HasBase) ty) {md : MethodDef} (hmd : asm.method m = .ok md)
    (hdeclares : md.declaringType = ty) : Acc asm.Overridden m := by
  have hup := hbases.transGen
  induction hup generalizing m md with
  | intro ty _ ih =>
      refine ⟨m, fun base hbase => ?_⟩
      obtain ⟨md', t, d, hmd', habove, hd, hmem, -⟩ := hbase.listed
      obtain rfl := Except.ok.inj (hmd.symm.trans hmd')
      cases hbaseDef : asm.method base with
      | error fault => exact acc_of_no_method fun md' hmd' => by cases hbaseDef.symm.trans hmd'
      | ok md' =>
          have habove' := Relation.transGen_swap.mpr (hdeclares ▸ habove)
          exact ih t habove' (hbases.inv_of_transGen habove') hbaseDef
            (hlisted t d base md' hd hmem hbaseDef)

/-- Where bases come to an end and methods are listed by the types that declare them, all slots are
found. -/
theorem wellFounded_overridden (hlisted : MethodsListed asm)
    (hbases : WellFounded (Function.swap asm.HasBase)) : WellFounded asm.Overridden := by
  refine ⟨fun m => ?_⟩
  cases hmd : asm.method m with
  | ok md => exact acc_overridden hlisted (hbases.apply md.declaringType) hmd rfl
  | error fault => exact acc_of_no_method fun md hmd' => by cases hmd.symm.trans hmd'

end Bases

end Metadata.Assembly

open Metadata.Assembly

variable {asm : Assembly} {s s' : Session}

section Calls

/-- Whether some instruction calls a method through its slot. -/
def CallTarget (asm : Assembly) (target : MethodId) : Prop :=
  ∃ instr ∈ allInstructions asm, CallsSlotOf instr target

variable [hlinked : asm.Linked]

theorem known_of_allInstructions {instr : Instruction} (h : instr ∈ allInstructions asm) :
    Known asm instr := by
  simp only [allInstructions, List.mem_flatMap, List.mem_filterMap, Array.mem_toList_iff] at h
  obtain ⟨body, ⟨d, hd, hbody⟩, hinstr⟩ := h
  exact ⟨⟨(hlinked.methods d hd).operands body hbody instr hinstr⟩⟩

omit hlinked in
variable (asm) in
theorem known_of_callsSlotOf {instr : Instruction} {target : MethodId}
    (h : CallsSlotOf instr target) [hinstr : Known asm instr] : Known asm target :=
  (h.2 ▸ hinstr.out : Known asm (Operand.method target)).ofMethod

variable (asm) in
/-- A mark is made if the slot that is called is found, and otherwise there is no end. -/
theorem markCall_cases (instr : Instruction) [Known asm instr] (s : Session) :
    ((∀ target, CallsSlotOf instr target → Acc asm.Overridden target) ∧
        ∃ s', markCall asm instr s = .ok () s') ∨
      (∃ target, CallsSlotOf instr target ∧ ¬ Acc asm.Overridden target) ∧
        ∃ s', markCall asm instr s = .error (.fault .endless) s' := by
  by_cases h : ∀ target, CallsSlotOf instr target → Acc asm.Overridden target
  · refine .inl ⟨h, ?_⟩
    have hslots (target : MethodId) (hcalls : CallsSlotOf instr target) :
        Faults Fault.OfMetadata (asm.slotMethod target) := by
      have := known_of_callsSlotOf asm hcalls
      obtain ⟨-, slot, hslot⟩ | ⟨hendless, -⟩ := slotMethod_cases asm target
      · rw [hslot]
        exact Faults.pure slot
      · exact absurd (h target hcalls) hendless
    cases howner : virtualOwner? asm instr with
    | error fault =>
        have hdangling : fault.OfMetadata := (faults_virtualOwner hslots).fault howner
        have hsafe : fault.isDangling = false :=
          Safe.reason (inferInstance : Safe asm (virtualOwner? asm instr)) howner
        cases hdangling.symm.trans hsafe
    | ok owner =>
        have hask : Lower.ask (virtualOwner? asm instr) s = .ok owner s :=
          Lower.ask_eq_ok_iff.mpr ⟨howner, rfl⟩
        cases owner with
        | none => exact ⟨_, bind_eq_ok_iff.mpr ⟨none, s, hask, rfl⟩⟩
        | some owner => exact ⟨_, bind_eq_ok_iff.mpr ⟨some owner, s, hask, rfl⟩⟩
  · simp only [not_forall] at h
    obtain ⟨target, hcalls, hendless⟩ := h
    have := known_of_callsSlotOf asm hcalls
    obtain ⟨hacc, -⟩ | ⟨-, hslot⟩ := slotMethod_cases asm target
    · exact absurd hacc hendless
    · have howner : virtualOwner? asm instr = .error .endless := by
        simp only [virtualOwner?, hcalls.1, hcalls.2, hslot]
        rfl
      refine .inr ⟨⟨target, hcalls, hendless⟩, s, bind_eq_error_iff.mpr (.inl ?_)⟩
      rw [howner]
      rfl

variable (asm) in
/-- All marks are made if all slots that are called are found, and otherwise there is no end. -/
theorem markVirtualCalls_cases (s : Session) :
    ((∀ target, CallTarget asm target → Acc asm.Overridden target) ∧
        ∃ s', markVirtualCalls asm s = .ok () s') ∨
      (∃ target, CallTarget asm target ∧ ¬ Acc asm.Overridden target) ∧
        ∃ s', markVirtualCalls asm s = .error (.fault .endless) s' := by
  have hrun {instrs : List Instruction} (hknown : ∀ instr ∈ instrs, Known asm instr) (s : Session) :
      ((∀ target, (∃ instr ∈ instrs, CallsSlotOf instr target) → Acc asm.Overridden target) ∧
          ∃ s', instrs.forM (markCall asm) s = .ok () s') ∨
        (∃ target, (∃ instr ∈ instrs, CallsSlotOf instr target) ∧ ¬ Acc asm.Overridden target) ∧
          ∃ s', instrs.forM (markCall asm) s = .error (.fault .endless) s' := by
    induction instrs generalizing s with
    | nil => exact .inl ⟨by simp, s, rfl⟩
    | cons instr rest ih =>
        obtain ⟨hinstr, hrest⟩ := List.forall_mem_cons.mp hknown
        rcases markCall_cases asm instr s with
          ⟨hfirst, t, hmark⟩ | ⟨⟨target, hcalls, hendless⟩, t, hmark⟩
        · rcases ih hrest t with
            ⟨hothers, s', hmarks⟩ | ⟨⟨target, ⟨other, hmem, hcalls⟩, hendless⟩, s', hmarks⟩
          · refine .inl ⟨?_, s', bind_eq_ok_iff.mpr ⟨(), t, hmark, hmarks⟩⟩
            rintro target ⟨other, hmem, hcalls⟩
            rcases List.mem_cons.mp hmem with rfl | hmem
            · exact hfirst target hcalls
            · exact hothers target ⟨other, hmem, hcalls⟩
          · exact .inr ⟨⟨target, ⟨other, List.mem_cons_of_mem _ hmem, hcalls⟩, hendless⟩, s',
              bind_eq_error_iff.mpr (.inr ⟨(), t, hmark, hmarks⟩)⟩
        · exact .inr ⟨⟨target, ⟨instr, List.mem_cons_self, hcalls⟩, hendless⟩, t,
            bind_eq_error_iff.mpr (.inl hmark)⟩
  exact hrun (fun instr => known_of_allInstructions) s

/-- The declaration of the types has no end exactly if it comes to the marks and some slot that is
called is not found. -/
theorem declareTypes_endless_iff :
    (∃ s', declareTypes asm s = .error (.fault .endless) s') ↔
      (∃ t, asm.userTypes.forM (declareType asm) s = .ok ⟨⟩ t) ∧
        ∃ target, CallTarget asm target ∧ ¬ Acc asm.Overridden target := by
  constructor
  · rintro ⟨s', h⟩
    rcases bind_eq_error_iff.mp h with htypes | ⟨u, t, htypes, hmarks⟩
    · exact absurd rfl ((inferInstance : Stops Session.Any Fault.OfId AnyError
        (asm.userTypes.forM (declareType asm))).stops trivial _ _ htypes)
    · refine ⟨⟨t, htypes⟩, ?_⟩
      rcases markVirtualCalls_cases asm t with ⟨-, s₁, hok⟩ | ⟨hendless, -⟩
      · cases hok.symm.trans hmarks
      · exact hendless
  · rintro ⟨⟨t, htypes⟩, target, htarget, hendless⟩
    rcases markVirtualCalls_cases asm t with ⟨hall, -⟩ | ⟨-, s', hmarks⟩
    · exact absurd (hall target htarget) hendless
    · exact ⟨s', bind_eq_error_iff.mpr (.inr ⟨⟨⟩, t, htypes, hmarks⟩)⟩

end Calls

section Cycles

variable {ty : TypeDefId}

/-- Whether the slots of the methods of a type, its bases and its interfaces are found. -/
def SlotsEnd (asm : Assembly) (ty : TypeDefId) : Prop :=
  ∀ t, (Relation.ReflTransGen asm.HasBase ty t ∨
      ∃ ifaces, asm.allInterfaces ty = .ok ifaces ∧ t ∈ ifaces) →
    ∀ d, asm.typeDef t = .ok d → ∀ m ∈ d.methods, Acc asm.Overridden m

theorem slotsKnown_of_end [hlinked : asm.Linked] {P : Fault → Prop}
    (h : ∀ d, asm.typeDef ty = .ok d → ∀ m ∈ d.methods, ¬ Acc asm.Overridden m → P .endless) :
    SlotsKnown P asm ty := by
  refine ⟨fun d hd m hm => ?_⟩
  have hmem := Array.mem_of_getElem? (Arena.entry_eq_ok_iff.mp hd)
  have : Known asm m := ⟨(hlinked.types d hmem).methods m hm⟩
  obtain ⟨-, slot, hslot⟩ | ⟨hendless, hslot⟩ := slotMethod_cases asm m
  · rw [hslot]
    exact Faults.pure slot
  · rw [hslot]
    exact ⟨fun _ heq fault hfault => by
      cases heq
      cases hfault
      exact h d hd m hm hendless⟩

/-- The tables of a type can be made unless some slot is looked for without end. -/
theorem tablesKnown_of_end [asm.Linked] {P : Fault → Prop} (h : ¬ SlotsEnd asm ty → P .endless) :
    TablesKnown P asm ty where
  up t ht := slotsKnown_of_end fun d hd m hm hendless =>
    h fun hends => hendless (hends t (.inl ht) d hd m hm)
  interfaces ifaces hifaces t ht := slotsKnown_of_end fun d hd m hm hendless =>
    h fun hends => hendless (hends t (.inr ⟨ifaces, hifaces, ht⟩) d hd m hm)

/-- Types in a circle of bases are not defined. -/
theorem compileTypes_of_circle {u : Unit} (hstart : Declared asm s)
    (hcircle : Relation.TransGen (Inherits asm) ty ty) : compileTypes asm s ≠ .ok u s' := by
  intro hcompile
  obtain ⟨base, -, hroot, d, hd, -⟩ := Relation.TransGen.tail'_iff.mp hcircle
  exact not_acc_of_circle hcircle
    (definedBy_of_compileTypes hstart hcompile (mem_userTypes hd hroot)).acc_inherits

/-- A program with such types is not compiled.  It ends with an error if the slots are
found that are called and those of all types that can be defined, and if no enum has a
struct for its integer. -/
theorem compile_of_circle [asm.Linked] (hcircle : Relation.TransGen (Inherits asm) ty ty)
    (settings : Settings) : ∃ stop, compile asm settings = .error stop ∧
      ((∀ target, CallTarget asm target → Acc asm.Overridden target) →
        (∀ ty, Assembly.isRoot ty = false → Acc (Inherits asm) ty → SlotsEnd asm ty) →
        EnumsPlain asm → stop ≠ .fault .endless) := by
  unfold compile
  cases hrun : compileProgram asm settings { module := { name := settings.moduleName } } with
  | ok report session =>
      obtain ⟨_, s₁, hdeclare, hrest⟩ := bind_eq_ok_iff.mp hrun
      obtain ⟨_, s₂, htypes, -⟩ := bind_eq_ok_iff.mp hrest
      exact absurd htypes (compileTypes_of_circle (declared_of_declareTypes hdeclare) hcircle)
  | error stop session =>
      refine ⟨stop, rfl, fun hcalls hslots hplain => ?_⟩
      rintro rfl
      rcases bind_eq_error_iff.mp hrun with hdeclare | ⟨_, s₁, hdeclare, hrest⟩
      · obtain ⟨-, target, htarget, hendless⟩ := declareTypes_endless_iff.mp ⟨_, hdeclare⟩
        exact hendless (hcalls target htarget)
      · have hstart := declared_of_declareTypes hdeclare
        rcases bind_eq_error_iff.mp hrest with htypes | ⟨_, s₂, htypes, -⟩
        · have hanticipated : Anticipated asm Session.Any Fault.OfId AnyError :=
            anticipated_faults fun ty hty hacc => tablesKnown_of_end fun hends =>
              absurd (hslots ty (mem_userTypes_iff.mp hty).2 hacc) hends
          exact stopsIn_compileTypes hanticipated hstart
            (enumsComplete_of_declareTypes hplain hdeclare) trivial _ _ htypes rfl
        · exact absurd htypes (compileTypes_of_circle hstart hcircle)

end Cycles

section Validated

/-- In a validated assembly the slot of a method is found if its overrides come to an end; in
a circle the search has no end.  There are no circles where bases come to an end and methods
are listed by the types that declare them.  The declaration of the types comes to an end
unless it comes to the slots that are called, and one of these is not found; and a program
with a circle of bases is refused. -/
theorem slots_of_validated (hvalid : asm.validate = .ok ()) :
    (∀ m, asm.HasMethod m → (Acc asm.Overridden m ∧ ∃ slot, asm.slotMethod m = .ok slot) ∨
      ¬ Acc asm.Overridden m ∧ asm.slotMethod m = .error .endless) ∧
    (MethodsListed asm → WellFounded (Function.swap asm.HasBase) → WellFounded asm.Overridden) ∧
    (∀ s, (∃ s', declareTypes asm s = .error (.fault .endless) s') ↔
      (∃ t, asm.userTypes.forM (declareType asm) s = .ok ⟨⟩ t) ∧
        ∃ target, CallTarget asm target ∧ ¬ Acc asm.Overridden target) ∧
    ∀ ty, Relation.TransGen (Inherits asm) ty ty → ∀ settings, ∃ stop,
      compile asm settings = .error stop ∧
        ((∀ target, CallTarget asm target → Acc asm.Overridden target) →
          (∀ ty, Assembly.isRoot ty = false → Acc (Inherits asm) ty → SlotsEnd asm ty) →
          EnumsPlain asm → stop ≠ .fault .endless) := by
  have hlinked : asm.Linked := (Assembly.validate_eq_ok_iff.mp hvalid).toLinked
  refine ⟨fun m hm => ?_, wellFounded_overridden, fun s => declareTypes_endless_iff,
    fun ty hcircle settings => compile_of_circle hcircle settings⟩
  have : Known asm m := ⟨hm⟩
  exact slotMethod_cases asm m

/-- Two classes that are the base of each other, with a method of the same signature each, and
a body that calls it. -/
def spiral (flags : MethodFlags) : Assembly :=
  let roots := Assembly.ofName "spiral"
  let body (instructions : List Instruction) : Option MethodBody :=
    some { locals := [], instructions }
  { roots with
    types := roots.types ++ #[
      { TypeDef.ofKind .classType "" "A" with base := some ⟨4⟩, methods := [⟨0⟩] },
      { TypeDef.ofKind .classType "" "B" with base := some ⟨3⟩, methods := [⟨1⟩] },
      { TypeDef.ofKind .classType "" "Main" with base := some ⟨0⟩, methods := [⟨2⟩] }]
    methods := #[
      { name := "M", declaringType := ⟨3⟩, returnType := .void, flags,
        body := body [{ opcode := .ret }] },
      { name := "M", declaringType := ⟨4⟩, returnType := .void, flags,
        body := body [{ opcode := .ret }] },
      { name := "Run", declaringType := ⟨5⟩, returnType := .void, flags := ⟨MethodFlags.static⟩
        body := body [{ opcode := .ldnull }, { opcode := .callvirt, operand := .method ⟨0⟩ },
          { opcode := .ret }] }] }

theorem spiral_circle (flags : MethodFlags) :
    Relation.TransGen (Inherits (spiral flags)) ⟨3⟩ ⟨3⟩ :=
  .head (b := ⟨4⟩) ⟨rfl, _, rfl, rfl⟩ (.single ⟨rfl, _, rfl, rfl⟩)

theorem spiral_enumsPlain : EnumsPlain (spiral {}) := by
  intro ty inner henum
  obtain ⟨d, hd, -⟩ := Assembly.kindOf_eq_ok_iff.mp henum
  have hty := (Array.getElem?_eq_some_iff.mp (Arena.entry_eq_ok_iff.mp hd)).1
  obtain ⟨ty⟩ := ty
  change ty < 6 at hty
  interval_cases ty <;> exact absurd henum (by decide)

/-- Methods that are not virtual override nothing. -/
theorem spiral_acc (m : MethodId) : Acc (spiral {}).Overridden m := by
  have hstep : ∀ m < 3, (spiral {}).slotStep ⟨m⟩ = .ok (.settled none) := by decide +kernel
  refine ⟨m, fun base hbase => ?_⟩
  obtain ⟨md, _, _, hmd, -⟩ := hbase.listed
  have hm := (Array.getElem?_eq_some_iff.mp (Arena.entry_eq_ok_iff.mp hmd)).1
  cases (hstep m.index hm).symm.trans hbase

theorem spiral_slots :
    ((spiral ⟨MethodFlags.virtual⟩).validate = .ok () ∧
      (spiral ⟨MethodFlags.virtual⟩).slotMethod ⟨0⟩ = .error .endless ∧
      compile (spiral ⟨MethodFlags.virtual⟩) {} = .error (.fault .endless)) ∧
    (spiral {}).validate = .ok () ∧ (∃ slot, (spiral {}).slotMethod ⟨0⟩ = .ok slot) ∧
      ∃ stop, compile (spiral {}) {} = .error stop ∧ stop ≠ .fault .endless := by
  have hvirtual : (spiral ⟨MethodFlags.virtual⟩).validate = .ok () := by decide +kernel
  have hcircle : Relation.TransGen (spiral ⟨MethodFlags.virtual⟩).Overridden ⟨0⟩ ⟨0⟩ :=
    .head (b := ⟨1⟩) (by unfold Overridden; decide +kernel)
      (.single (by unfold Overridden; decide +kernel))
  obtain ⟨hslots, -, -, -⟩ := slots_of_validated hvirtual
  have hvalid : (spiral {}).validate = .ok () := by decide +kernel
  obtain ⟨hslots', -, -, hcompile⟩ := slots_of_validated hvalid
  obtain ⟨stop, hstop, hend⟩ := hcompile ⟨3⟩ (spiral_circle {}) {}
  refine ⟨⟨hvirtual, ?_, by decide +kernel⟩, hvalid, ?_, stop, hstop,
    hend (fun target _ => spiral_acc target) (fun _ _ _ _ _ _ _ m _ => spiral_acc m)
      spiral_enumsPlain⟩
  · obtain ⟨hacc, -⟩ | ⟨-, hendless⟩ := hslots ⟨0⟩ (Nat.succ_pos 2)
    · exact absurd hacc (not_acc_of_circle hcircle)
    · exact hendless
  · obtain ⟨-, hslot⟩ | ⟨hendless, -⟩ := hslots' ⟨0⟩ (Nat.succ_pos 2)
    · exact hslot
    · exact absurd (spiral_acc ⟨0⟩) hendless

end Validated

end CilSsa
