import CilSsa.Proofs.SoundBodies
import CilSsa.Proofs.Unanswered

/-!
What instructions do to the evaluation stack.

An operation takes a fixed number of elements off the stack and puts a fixed number of others on it;
a call takes the arguments of its method and leaves its result.  What lies below stays as it is.  On
a stack with fewer elements than an operation takes, its emission fails.
-/

namespace CilSsa

open Ssa Metadata Lowering

namespace Lowering

namespace EvalStack

variable {s s' s'' rest : EvalStack} {e : Element} {p p' q q' : Nat}

/-- The top `pops` elements of a stack give way to `pushes` others, and those below stay. -/
def Shifts (pops pushes : Nat) (s s' : EvalStack) : Prop :=
  ∃ below popped pushed : List Slot, s.slots = below ++ popped ∧ popped.length = pops ∧
    s'.slots = below ++ pushed ∧ pushed.length = pushes

namespace Shifts

theorem refl (s : EvalStack) : s.Shifts 0 0 s :=
  ⟨s.slots, [], [], (List.append_nil _).symm, rfl, (List.append_nil _).symm, rfl⟩

theorem push (s : EvalStack) (e : Element) : s.Shifts 0 1 (s.push e) :=
  ⟨s.slots, [], [⟨e, .unvisited⟩], (List.append_nil _).symm, rfl, rfl, rfl⟩

theorem of_pop? (h : s.pop? = some (e, rest)) : s.Shifts 1 0 rest := by
  simp only [pop?, Option.map_eq_some_iff, Prod.mk.injEq] at h
  obtain ⟨top, hlast, -, rfl⟩ := h
  obtain ⟨below, hslots⟩ := List.getLast?_eq_some_iff.mp hlast
  exact ⟨below, [top], [], hslots, rfl, by simp [hslots], rfl⟩

/-- Elements are taken off, and then more of them. -/
theorem after_pops (h : s.Shifts p 0 s') (h' : s'.Shifts p' q s'') : s.Shifts (p' + p) q s'' := by
  obtain ⟨below, popped, pushed, hs, hpopped, hs', hpushed⟩ := h
  obtain ⟨below', popped', pushed', hbelow, hpopped', hs'', hpushed'⟩ := h'
  obtain rfl := List.eq_nil_of_length_eq_zero hpushed
  refine ⟨below', popped' ++ popped, pushed', ?_, ?_, hs'', hpushed'⟩
  · rw [hs, ← List.append_assoc, ← hbelow, hs', List.append_nil]
  · rw [List.length_append, hpopped, hpopped']

/-- Elements are put on, and then more of them. -/
theorem before_pushes (h : s.Shifts p q s') (h' : s'.Shifts 0 q' s'') :
    s.Shifts p (q' + q) s'' := by
  obtain ⟨below, popped, pushed, hs, hpopped, hs', hpushed⟩ := h
  obtain ⟨below', popped', pushed', hbelow, hpopped', hs'', hpushed'⟩ := h'
  obtain rfl := List.eq_nil_of_length_eq_zero hpopped'
  refine ⟨below, popped, pushed ++ pushed', hs, hpopped, ?_, ?_⟩
  · rw [hs'', ← List.append_assoc, ← hs', hbelow, List.append_nil]
  · rw [List.length_append, hpushed, hpushed', Nat.add_comm]

end Shifts

theorem size_of_pop? (h : s.pop? = some (e, rest)) : s.size = rest.size + 1 := by
  simpa [length_elements] using congrArg List.length (elements_of_pop? h)

end EvalStack

section Counts

/-- How the numbers of elements that an operation takes and leaves are found. -/
inductive StackUse where
  | fixed (pops pushes : Nat)
  | call
  | callVirtual
  | construct
  | ret
deriving DecidableEq, Repr

/-- The stack transition that the instruction set gives for an operation, of
those that are lowered. -/
def stackUse? : Opcode → Option StackUse
  | .nop | .br | .brS => some (.fixed 0 0)
  | .ldnull | .ldstr | .ldcI4M1 | .ldcI40 | .ldcI41 | .ldcI42 | .ldcI43 | .ldcI44
  | .ldcI45 | .ldcI46 | .ldcI47 | .ldcI48 | .ldcI4S | .ldcI4 | .ldcI8 | .ldcR4 | .ldcR8
  | .ldarg0 | .ldarg1 | .ldarg2 | .ldarg3 | .ldargS | .ldarg | .ldargaS | .ldarga
  | .ldloc0 | .ldloc1 | .ldloc2 | .ldloc3 | .ldlocS | .ldloc | .ldlocaS | .ldloca
  | .ldsfld | .ldsflda | .sizeof => some (.fixed 0 1)
  | .stargS | .starg | .stloc0 | .stloc1 | .stloc2 | .stloc3 | .stlocS | .stloc | .stsfld | .pop
  | .brtrue | .brtrueS | .brfalse | .brfalseS | .switch | .initobj => some (.fixed 1 0)
  | .neg | .not | .convI1 | .convI2 | .convI4 | .convI8 | .convU1 | .convU2 | .convU4 | .convU8
  | .convI | .convU | .convR4 | .convR8 | .convRUn
  | .convOvfI1 | .convOvfI2 | .convOvfI4 | .convOvfI8 | .convOvfU1 | .convOvfU2 | .convOvfU4
  | .convOvfU8 | .convOvfI | .convOvfU | .convOvfI1Un | .convOvfI2Un | .convOvfI4Un | .convOvfI8Un
  | .convOvfU1Un | .convOvfU2Un | .convOvfU4Un | .convOvfU8Un | .convOvfIUn | .convOvfUUn
  | .ldindI1 | .ldindU1 | .ldindI2 | .ldindU2 | .ldindI4 | .ldindU4 | .ldindI8 | .ldindI | .ldindR4
  | .ldindR8 | .ldindRef | .ldobj | .ldfld | .ldflda | .newarr => some (.fixed 1 1)
  | .dup => some (.fixed 1 2)
  | .beq | .beqS | .bge | .bgeS | .bgt | .bgtS | .ble | .bleS | .blt | .bltS | .bneUn | .bneUnS
  | .bgeUn | .bgeUnS | .bgtUn | .bgtUnS | .bleUn | .bleUnS | .bltUn | .bltUnS
  | .stindI1 | .stindI2 | .stindI4 | .stindI8 | .stindI | .stindR4 | .stindR8 | .stindRef
  | .stobj | .stfld => some (.fixed 2 0)
  | .add | .addOvf | .addOvfUn | .sub | .subOvf | .subOvfUn | .mul | .mulOvf | .mulOvfUn
  | .div | .divUn | .rem | .remUn | .and | .or | .xor | .shl | .shr | .shrUn
  | .ceq | .cgt | .cgtUn | .clt | .cltUn | .ldelema
  | .ldelemI1 | .ldelemU1 | .ldelemI2 | .ldelemU2 | .ldelemI4 | .ldelemU4 | .ldelemI8 | .ldelemI
  | .ldelemR4 | .ldelemR8 | .ldelemRef | .ldelem => some (.fixed 2 1)
  | .stelemI | .stelemI1 | .stelemI2 | .stelemI4 | .stelemI8 | .stelemR4 | .stelemR8 | .stelemRef
  | .stelem => some (.fixed 3 0)
  | .call => some .call
  | .callvirt => some .callVirtual
  | .newobj => some .construct
  | .ret => some .ret
  | _ => none

def resultCount (d : MethodDef) : Nat := if d.returnType = .void then 0 else 1

variable (asm : Assembly) (current : MethodDef)

/-- The numbers of elements that an instruction of a method takes off the stack and puts on it.  A
call takes the arguments of the method it names, or of the slot of that, and a return takes the
result of the method that it is in. -/
def stackCounts? (instr : Instruction) : Option (Nat × Nat) :=
  match stackUse? instr.opcode, instr.operand with
  | some (.fixed pops pushes), _ => some (pops, pushes)
  | some .ret, _ => some (resultCount current, 0)
  | some .call, .method target => do
      let d ← (asm.method target).toOption
      return (d.argCount, resultCount d)
  | some .callVirtual, .method target => do
      let slot ← (asm.slotMethod target).toOption
      let d ← (asm.method (slot.getD target)).toOption
      return (d.argCount, resultCount d)
  | some .construct, .method ctor => do
      let d ← (asm.method ctor).toOption
      return (d.params.length, 1)
  | _, _ => none

variable {asm current} {instr : Instruction} {p q : Nat}

theorem stackCounts?_fixed (h : stackUse? instr.opcode = some (.fixed p q)) :
    stackCounts? asm current instr = some (p, q) := by
  simp [stackCounts?, h]

theorem stackCounts?_ret (h : stackUse? instr.opcode = some .ret) :
    stackCounts? asm current instr = some (resultCount current, 0) := by
  simp [stackCounts?, h]

theorem stackCounts?_call_iff (h : stackUse? instr.opcode = some .call) :
    stackCounts? asm current instr = some (p, q) ↔ ∃ target d, instr.operand = .method target ∧
      asm.method target = .ok d ∧ d.argCount = p ∧ resultCount d = q := by
  rw [stackCounts?, h]
  cases instr.operand with
  | method target => cases hd : asm.method target <;> simp [Except.toOption, hd]
  | _ => simp

theorem stackCounts?_callVirtual_iff (h : stackUse? instr.opcode = some .callVirtual) :
    stackCounts? asm current instr = some (p, q) ↔ ∃ target slot d, instr.operand = .method target ∧
      asm.slotMethod target = .ok slot ∧ asm.method (slot.getD target) = .ok d ∧ d.argCount = p ∧
        resultCount d = q := by
  rw [stackCounts?, h]
  cases instr.operand with
  | method target =>
      cases hslot : asm.slotMethod target with
      | error fault => simp [Except.toOption, hslot]
      | ok slot => cases hd : asm.method (slot.getD target) <;> simp [Except.toOption, hslot, hd]
  | _ => simp

theorem stackCounts?_construct_iff (h : stackUse? instr.opcode = some .construct) :
    stackCounts? asm current instr = some (p, q) ↔ ∃ ctor d, instr.operand = .method ctor ∧
      asm.method ctor = .ok d ∧ d.params.length = p ∧ 1 = q := by
  rw [stackCounts?, h]
  cases instr.operand with
  | method ctor => cases hd : asm.method ctor <;> simp [Except.toOption, hd]
  | _ => simp

end Counts

namespace Emit

section Effects

variable {α β : Type} {site : Site} {p q q' : Nat}

/-- The action takes `pops` elements off the stack and puts `pushes` others on it; with
fewer elements it fails. -/
structure Effect (pops pushes : Nat) (x : Emit α) : Prop where
  shifts : ∀ {s s' : EmitState} {a : α}, x s = .ok a s' → s.stack.Shifts pops pushes s'.stack
  starves : ∀ {s : EmitState}, s.stack.size < pops → ∃ e s', x s = .error (.error e) s'

/-- The action leaves the state alone, and may fail. -/
def Inert (x : Emit α) : Prop :=
  ∀ s, (∃ a, x s = .ok a s) ∨ ∃ e, x s = .error (.error e) s

/-- A sequence fails where its first part does. -/
theorem bind_of_error {x : Emit α} {f : α → Emit β} {s t : EmitState} {e : LoweringError}
    (h : x s = .error (.error e) t) : (x >>= f) s = .error (.error e) t :=
  bind_eq_error_iff.mpr (.inl h)

/-- A question that has an answer leaves the state alone. -/
theorem lower_ask_of_ok {question : Except Fault α} {a : α} (h : question = .ok a) (s : EmitState) :
    lower (Lower.ask question) s = .ok a s :=
  lower_eq_ok_iff.mpr ⟨s.session, Lower.ask_eq_ok_iff.mpr ⟨h, rfl⟩, rfl⟩

namespace Inert

theorem pure (a : α) : Inert (Pure.pure a) := fun _ => .inl ⟨a, rfl⟩

theorem malformed {problem : OperandProblem} : Inert (Emit.malformed site problem : Emit α) :=
  fun _ => .inr ⟨_, rfl⟩

theorem fieldOperand : Inert (Emit.fieldOperand site) := by
  unfold Emit.fieldOperand
  split
  · exact pure _
  · exact malformed

theorem typeOperand : Inert (Emit.typeOperand site) := by
  unfold Emit.typeOperand
  split
  · exact pure _
  · exact malformed

theorem targetOperand : Inert (Emit.targetOperand site) := by
  unfold Emit.targetOperand
  split
  · exact pure _
  · exact malformed

theorem variable_ {kind : VariableKind} {fixed : Option Nat} :
    Inert (Emit.variable_ site kind fixed) := by
  unfold Emit.variable_
  cases kind <;> dsimp only
  all_goals
    split
    · exact pure _
    · exact malformed

end Inert

namespace Effect

/-- No stack has too few elements for an action that takes none. -/
theorem of_shifts {x : Emit α}
    (h : ∀ {s s' : EmitState} {a : α}, x s = .ok a s' → s.stack.Shifts 0 q s'.stack) :
    Effect 0 q x :=
  ⟨h, fun hsize => absurd hsize (Nat.not_lt_zero _)⟩

theorem pure (a : α) : Effect 0 0 (Pure.pure a : Emit α) := by
  refine of_shifts fun {s s' b} h => ?_
  obtain ⟨-, rfl⟩ := pure_eq_ok_iff.mp h
  exact .refl _

/-- A failure is as good as any effect. -/
theorem fail {error : LoweringError} : Effect p q (Emit.fail error : Emit α) where
  shifts h := (fail_eq_ok_iff.mp h).elim
  starves _ := ⟨error, _, rfl⟩

theorem malformed {problem : OperandProblem} : Effect p q (Emit.malformed site problem : Emit α) :=
  fail

theorem lowered {x : Lower α} : Effect 0 0 (lower x) := by
  refine of_shifts fun {s s' a} h => ?_
  obtain ⟨t, -, rfl⟩ := lower_eq_ok_iff.mp h
  exact .refl _

theorem push {e : Element} : Effect 0 1 (Emit.push e) := by
  refine of_shifts fun {s s' u} h => ?_
  obtain rfl := push_eq_ok_iff.mp h
  exact .push _ _

/-- What comes after the first part takes nothing that was there before. -/
theorem seq {x : Emit α} {f : α → Emit β} (hx : Effect p q x) (hf : ∀ a, Effect 0 q' (f a)) :
    Effect p (q' + q) (x >>= f) where
  shifts {s s' b} h := by
    obtain ⟨a, t, ha, hb⟩ := bind_eq_ok_iff.mp h
    exact (hx.shifts ha).before_pushes ((hf a).shifts hb)
  starves h := by
    obtain ⟨e, t, he⟩ := hx.starves h
    exact ⟨e, t, bind_of_error he⟩

/-- One element is taken, and more after it. -/
theorem pop {f : Element → Emit β} (hf : ∀ e, Effect p q (f e)) :
    Effect (p + 1) q (Emit.pop site >>= f) where
  shifts {s s' b} h := by
    obtain ⟨e, t, hpop, hb⟩ := bind_eq_ok_iff.mp h
    obtain ⟨rest, htop, rfl⟩ := pop_eq_ok_iff.mp hpop
    exact (EvalStack.Shifts.of_pop? htop).after_pops ((hf e).shifts hb)
  starves {s} h := by
    cases htop : s.stack.pop? with
    | none =>
        refine ⟨_, s, bind_of_error (e := .stackUnderflow site.name site.index
          site.instr.opcode) ?_⟩
        simp only [Emit.pop]
        rw [bind_of_ok (get_eq_ok_iff.mpr ⟨rfl, rfl⟩), htop]
        rfl
    | some top =>
        obtain ⟨e, rest⟩ := top
        rw [bind_of_ok (pop_eq_ok_iff.mpr ⟨rest, htop, rfl⟩)]
        have hsize := EvalStack.size_of_pop? htop
        exact (hf e).starves (show rest.size < p by omega)

theorem popOnto {count : Nat} {above : List Element} :
    Effect count 0 (Emit.popOnto site count above) := by
  induction count generalizing above with
  | zero => exact pure above
  | succ count ih => exact pop fun _ => ih

theorem popN {count : Nat} : Effect count 0 (Emit.popN site count) := popOnto

end Effect

/-- What only looks, at the operand or at the state, plays no part. -/
theorem Inert.seq {x : Emit α} {f : α → Emit β} (hx : Inert x) (hf : ∀ a, Effect p q (f a)) :
    Effect p q (x >>= f) where
  shifts {s s' b} h := by
    obtain ⟨a, t, ha, hb⟩ := bind_eq_ok_iff.mp h
    rcases hx s with ⟨a', hok⟩ | ⟨e, herror⟩
    · cases hok.symm.trans ha
      exact (hf a).shifts hb
    · cases herror.symm.trans ha
  starves {s} h := by
    rcases hx s with ⟨a, hok⟩ | ⟨e, herror⟩
    · rw [bind_of_ok hok]
      exact (hf a).starves h
    · exact ⟨e, s, bind_of_error herror⟩

theorem Inert.effect {x : Emit α} (hx : Inert x) : Effect 0 0 x := by
  refine Effect.of_shifts fun {s s' a} h => ?_
  rcases hx s with ⟨a', hok⟩ | ⟨e, herror⟩
  · cases hok.symm.trans h
    exact .refl _
  · cases herror.symm.trans h

end Effects

namespace Effect

section Constants

variable {site : Site} {kind : VariableKind} {fixed : Option Nat}

theorem loadConstant {source : ConstantSource} : Effect 0 1 (Emit.loadConstant site source) := by
  unfold Emit.loadConstant
  split
  · simp only [Lower.liftM_build]
    exact lowered.seq fun _ => push
  · exact malformed

theorem loadNull : Effect 0 1 Emit.loadNull := by
  unfold Emit.loadNull
  simp only [Emit.liftM_build]
  exact lowered.seq fun _ => lowered.seq fun _ => push

theorem loadString : Effect 0 1 (Emit.loadString site) := by
  unfold Emit.loadString
  split
  · simp only [Emit.liftM_build]
    exact lowered.seq fun _ => lowered.seq fun _ => push
  · exact malformed

theorem loadSize : Effect 0 1 (Emit.loadSize site) := by
  unfold Emit.loadSize
  simp only [Emit.liftM_lower]
  exact Inert.typeOperand.seq fun _ => lowered.seq fun _ => lowered.seq fun _ =>
    lowered.seq fun _ => push

theorem loadVariable : Effect 0 1 (Emit.loadVariable site kind fixed) := by
  unfold Emit.loadVariable
  simp only [Emit.liftM_build]
  exact Inert.variable_.seq fun _ => lowered.seq fun _ => lowered.seq fun _ => push

theorem loadVariableAddress : Effect 0 1 (Emit.loadVariableAddress site kind) := by
  unfold Emit.loadVariableAddress
  exact Inert.variable_.seq fun _ => lowered.seq fun _ => push

theorem storeVariable : Effect 1 0 (Emit.storeVariable site kind fixed) := by
  unfold Emit.storeVariable
  simp only [Emit.liftM_build]
  exact Inert.variable_.seq fun _ => pop fun _ => lowered.seq fun _ => lowered.seq fun _ => lowered

end Constants

section Operations

variable {site : Site} {relation : Relation} {unsigned : Bool}

theorem duplicate : Effect 1 2 (Emit.duplicate site) := by
  unfold Emit.duplicate
  exact pop fun _ => push.seq fun _ => push

theorem discard : Effect 1 0 (Emit.discard site) := by
  unfold Emit.discard
  exact pop fun _ => pure _

/-- Numbers with a fraction, shifts and integers leave one result each. -/
theorem binary {op : BinaryOp} : Effect 2 1 (Emit.binary site op) := by
  unfold Emit.binary
  refine pop fun rhs => pop fun lhs => ?_
  split
  · cases floatOp? op with
    | some op => exact lowered.seq fun _ => push
    | none => exact malformed
  · split
    · exact lowered.seq fun _ => push
    · exact lowered.seq fun _ => push

theorem unary {op : Element → UnaryOp} : Effect 1 1 (Emit.unary site op) := by
  unfold Emit.unary
  simp only [Emit.liftM_build]
  exact pop fun _ => lowered.seq fun _ => push

theorem compare : Effect 2 1 (Emit.compare site relation unsigned) := by
  unfold Emit.compare
  simp only [Emit.liftM_build]
  exact pop fun _ => pop fun _ => lowered.seq fun _ => lowered.seq fun _ =>
    lowered.seq fun _ => push

theorem convert {target : TypeSig} {unsignedSource : Bool} :
    Effect 1 1 (Emit.convert site target unsignedSource) := by
  unfold Emit.convert
  exact pop fun _ => lowered.seq fun _ => push

end Operations

section Branches

variable {site : Site} {known : List (Nat × BlockId)} {position : Nat}

/-- A stack that is passed on stays. -/
theorem reconcile : Effect 0 0 (Emit.reconcile site position) := by
  refine of_shifts fun {s s' b} h => ?_
  obtain ⟨l, incoming, m, -, -, -, rfl⟩ := reconcile_cases h
  exact .refl _

theorem conditional {cond : ValueId} {target : Nat} :
    Effect 0 0 (Emit.conditional site cond target) := by
  unfold Emit.conditional
  simp only [Emit.liftM_build]
  refine reconcile.seq fun thenBlock => ?_
  split
  · exact lowered
  · exact reconcile.seq fun _ => lowered

theorem edge : Effect 0 0 (Emit.edge site known position) := by
  unfold Emit.edge
  split
  · exact pure _
  · exact reconcile.seq fun _ => pure _

theorem switchCases {case : Nat} {positions : List Nat} :
    Effect 0 0 (Emit.switchCases site known case positions) := by
  induction positions generalizing known case with
  | nil => exact pure _
  | cons position rest ih =>
      unfold Emit.switchCases
      exact edge.seq fun _ => ih.seq fun _ => pure _

theorem branch : Effect 0 0 (Emit.branch site) := by
  unfold Emit.branch
  simp only [Emit.liftM_build]
  exact Inert.targetOperand.seq fun _ => reconcile.seq fun _ => lowered

theorem branchIf {onZero : Bool} : Effect 1 0 (Emit.branchIf site onZero) := by
  unfold Emit.branchIf
  exact Inert.targetOperand.seq fun _ => pop fun _ => lowered.seq fun _ => conditional

theorem compareBranch {relation : Relation} {unsigned : Bool} :
    Effect 2 0 (Emit.compareBranch site relation unsigned) := by
  unfold Emit.compareBranch
  exact Inert.targetOperand.seq fun _ => pop fun _ => pop fun _ => lowered.seq fun _ => conditional

theorem switch : Effect 1 0 (Emit.switch site) := by
  unfold Emit.switch
  split
  · simp only [Emit.liftM_build]
    exact pop fun _ => lowered.seq fun _ => lowered.seq fun _ => lowered.seq fun _ =>
      switchCases.seq fun _ => edge.seq fun _ => lowered
  · exact malformed

end Branches

section Memory

variable {site : Site} {sig : TypeSig} {source : ElementSource}

theorem loadThrough : Effect 1 1 (Emit.loadThrough site sig) := by
  unfold Emit.loadThrough
  simp only [Emit.liftM_build, Emit.liftM_lower]
  exact pop fun _ => lowered.seq fun _ => lowered.seq fun _ => lowered.seq fun _ =>
    lowered.seq fun _ => push

theorem storeThrough {type : TypeId} {value address : Element} :
    Effect 0 0 (Emit.storeThrough site type value address) := by
  unfold Emit.storeThrough
  simp only [Emit.liftM_build]
  exact lowered.seq fun _ => lowered.seq fun _ => lowered

theorem loadIndirect {sig : Option TypeSig} : Effect 1 1 (Emit.loadIndirect site sig) := by
  have hget : Inert (get : Emit EmitState) := fun s => .inl ⟨s, rfl⟩
  exact hget.seq fun _ => loadThrough

theorem storeIndirect {sig : Option TypeSig} : Effect 2 0 (Emit.storeIndirect site sig) := by
  unfold Emit.storeIndirect
  refine pop fun value => pop fun address => ?_
  cases sig with
  | some sig => exact lowered.seq fun _ => storeThrough
  | none => exact (pure _).seq fun _ => storeThrough

theorem loadObject : Effect 1 1 (Emit.loadObject site) := by
  unfold Emit.loadObject
  exact Inert.typeOperand.seq fun _ => loadThrough

theorem storeObject : Effect 2 0 (Emit.storeObject site) := by
  unfold Emit.storeObject
  simp only [Emit.liftM_lower]
  exact Inert.typeOperand.seq fun _ => pop fun _ => pop fun _ => lowered.seq fun _ => storeThrough

theorem initObject : Effect 1 0 (Emit.initObject site) := by
  unfold Emit.initObject
  simp only [Emit.liftM_build, Emit.liftM_lower]
  exact Inert.typeOperand.seq fun _ => pop fun _ => lowered.seq fun _ => lowered.seq fun _ =>
    lowered.seq fun _ => lowered

theorem newArray : Effect 1 1 (Emit.newArray site) := by
  unfold Emit.newArray
  simp only [Emit.liftM_build, Emit.liftM_lower]
  exact Inert.typeOperand.seq fun _ => pop fun _ => lowered.seq fun _ => lowered.seq fun _ =>
    lowered.seq fun _ => lowered.seq fun _ => push

theorem loadElementAddress : Effect 2 1 (Emit.loadElementAddress site) := by
  unfold Emit.loadElementAddress
  simp only [Emit.liftM_lower]
  exact Inert.typeOperand.seq fun _ => pop fun _ => pop fun _ => lowered.seq fun _ =>
    lowered.seq fun _ => lowered.seq fun _ => push

theorem elementSig {array : Element} : Effect 0 0 (Emit.elementSig site source array) := by
  unfold Emit.elementSig
  cases source with
  | fixed sig => exact pure sig
  | token => exact Inert.typeOperand.effect
  | reference => exact pure _

theorem loadElement : Effect 2 1 (Emit.loadElement site source) := by
  unfold Emit.loadElement
  simp only [Emit.liftM_build, Emit.liftM_lower]
  exact pop fun _ => pop fun _ => elementSig.seq fun _ => lowered.seq fun _ => lowered.seq fun _ =>
    lowered.seq fun _ => lowered.seq fun _ => push

theorem storeElement : Effect 3 0 (Emit.storeElement site source) := by
  unfold Emit.storeElement
  simp only [Emit.liftM_build]
  refine pop fun value => pop fun index => pop fun array => ?_
  have hstore (element : TypeId) : Effect 0 0 (do
      let address ← lower (Lower.build (elementAddress site.asm element array index))
      let stored ← lower (Lower.build (valueOf site.asm element value))
      lower (Lower.build (Build.store address stored site.instr.isVolatile)) : Emit Unit) :=
    lowered.seq fun _ => lowered.seq fun _ => lowered
  cases source with
  | reference => exact (pure _).seq hstore
  | fixed sig => exact elementSig.seq fun _ => lowered.seq hstore
  | token => exact elementSig.seq fun _ => lowered.seq hstore

end Memory

section Fields

variable {site : Site} {f : FieldId} {sig : TypeSig} {address : ValueId}

theorem fieldAddress {object : Element} : Effect 0 0 (Emit.fieldAddress site f object) := by
  unfold Emit.fieldAddress
  simp only [Emit.liftM_build]
  exact lowered.seq fun _ => lowered.seq fun _ => lowered.seq fun _ => lowered.seq fun _ =>
    lowered.seq fun _ => lowered.seq fun _ => lowered

theorem pushLoaded : Effect 0 1 (Emit.pushLoaded site sig address) := by
  unfold Emit.pushLoaded
  simp only [Emit.liftM_build, Emit.liftM_lower]
  exact lowered.seq fun _ => lowered.seq fun _ => lowered.seq fun _ => push

theorem pushAddress : Effect 0 1 (Emit.pushAddress sig address) := by
  unfold Emit.pushAddress
  exact lowered.seq fun _ => push

theorem loadField : Effect 1 1 (Emit.loadField site) := by
  unfold Emit.loadField
  exact Inert.fieldOperand.seq fun _ => pop fun _ => fieldAddress.seq fun _ =>
    lowered.seq fun _ => pushLoaded

theorem loadFieldAddress : Effect 1 1 (Emit.loadFieldAddress site) := by
  unfold Emit.loadFieldAddress
  exact Inert.fieldOperand.seq fun _ => pop fun _ => fieldAddress.seq fun _ =>
    lowered.seq fun _ => pushAddress

theorem storeField : Effect 2 0 (Emit.storeField site) := by
  unfold Emit.storeField
  simp only [Emit.liftM_build, Emit.liftM_lower]
  exact Inert.fieldOperand.seq fun _ => pop fun _ => pop fun _ => fieldAddress.seq fun _ =>
    lowered.seq fun _ => lowered.seq fun _ => lowered.seq fun _ => lowered

theorem loadStatic : Effect 0 1 (Emit.loadStatic site) := by
  unfold Emit.loadStatic
  simp only [Emit.liftM_lower]
  exact Inert.fieldOperand.seq fun _ => lowered.seq fun _ => lowered.seq fun _ => pushLoaded

theorem loadStaticAddress : Effect 0 1 (Emit.loadStaticAddress site) := by
  unfold Emit.loadStaticAddress
  simp only [Emit.liftM_lower]
  exact Inert.fieldOperand.seq fun _ => lowered.seq fun _ => lowered.seq fun _ => pushAddress

theorem initialConstant? {type : TypeId} {value : ValueId} :
    Effect 0 0 (Emit.initialConstant? site sig type value) := by
  unfold Emit.initialConstant?
  split
  · refine lowered.seq fun foldable => ?_
    split
    · exact lowered
    · exact pure none
  · exact pure none

/-- The value of a static field is taken off the stack also where it becomes the initial value. -/
theorem storeStatic : Effect 1 0 (Emit.storeStatic site) := by
  unfold Emit.storeStatic
  simp only [Emit.liftM_build, Emit.liftM_lower]
  refine Inert.fieldOperand.seq fun f => pop fun value => lowered.seq fun global =>
    lowered.seq fun d => lowered.seq fun type => initialConstant?.seq fun constant => ?_
  have hstore : Effect 0 0 (do
      let stored ← lower (Lower.build (valueOf site.asm type value))
      lower (Lower.build (Build.store global stored site.instr.isVolatile)) : Emit Unit) :=
    lowered.seq fun _ => lowered
  cases constant with
  | none => exact (pure _).seq fun _ => hstore
  | some constant =>
      refine lowered.seq fun folded => ?_
      cases folded with
      | true => exact lowered
      | false => exact hstore

end Fields

section Objects

variable {site : Site} {p q : Nat}

/-- A question that has an answer plays no part. -/
theorem asked {α β : Type} {question : Except Fault α} {a : α} {f : α → Emit β}
    (h : question = .ok a) (hf : Effect p q (f a)) :
    Effect p q (lower (Lower.ask question) >>= f) := by
  refine ⟨fun {s s' b} hrun => ?_, fun {s} hsize => ?_⟩
  · rw [bind_of_ok (lower_ask_of_ok h s)] at hrun
    exact hf.shifts hrun
  · rw [bind_of_ok (lower_ask_of_ok h s)]
    exact hf.starves hsize

/-- A new object takes the place of the arguments of its constructor. -/
theorem newObject {ctor : MethodId} {d : MethodDef} (hoperand : site.instr.operand = .method ctor)
    (hd : site.asm.method ctor = .ok d) : Effect d.params.length 1 (Emit.newObject site) := by
  unfold Emit.newObject Emit.methodOperand
  simp only [hoperand, pure_bind, Lower.liftM_ask]
  refine asked hd (popN.seq fun args => lowered.seq fun kind => ?_)
  cases kind with
  | classType => exact lowered.seq fun _ => push
  | structType | enumType => exact lowered.seq fun _ => push
  | interfaceType => exact malformed

theorem pushResult {callee : MethodDef} {result : Option ValueId}
    (hresult : callee.returnType ≠ .void → result.isSome = true) :
    Effect 0 (resultCount callee) (Emit.pushResult site callee result) := by
  unfold Emit.pushResult resultCount
  by_cases hvoid : callee.returnType = .void
  · rw [if_pos hvoid]
    cases result with
    | none => exact pure _
    | some value =>
        dsimp only
        rw [if_neg (not_not.mpr hvoid)]
        exact pure _
  · rw [if_neg hvoid]
    obtain ⟨value, rfl⟩ := Option.isSome_iff_exists.mp (hresult hvoid)
    dsimp only
    rw [if_pos hvoid]
    exact lowered.seq fun _ => push

end Objects

end Effect

end Emit

section Calls

variable {asm : Assembly} {sig : TypeSig} {type : TypeId} {s : Session}

/-- Constructors return nothing. -/
def ConstructorsVoid (asm : Assembly) : Prop :=
  ∀ {m : MethodId} {d : MethodDef}, asm.method m = .ok d → d.isConstructor = true →
    d.returnType = .void

def EnumsPrimitive (asm : Assembly) : Prop :=
  ∀ {ty : TypeDefId} {integer : TypeSig}, asm.kindOf ty = .ok .enumType →
    enumUnderlying asm ty = .ok integer → integer.isPrimitive = true

theorem void_of_irType (henums : EnumsPrimitive asm) (hs : s.HandlesSound asm)
    (h : irType asm sig s = .ok type s) (hvoid : s.module.classify type = .ok .void) :
    sig = .void := by
  rcases irType_classes h with ⟨-, cls, hcls, hsig⟩ | ⟨id, rfl, -, hkind, hlookup, -⟩
  · obtain rfl := Except.ok.inj (hcls.symm.trans hvoid)
    rcases hsig with hsig | ⟨-, hpointer⟩
    · cases sig <;> simp [TypeSig.class?] at hsig ⊢
    · cases hpointer
  · rcases hkind with hstruct | henum
    · cases (hs.struct hlookup hstruct).symm.trans hvoid
    · obtain ⟨integer, hunderlying, hclass⟩ := hs.enum hlookup henum
      have hprimitive := henums henum hunderlying
      obtain ⟨cls, hcls, hne⟩ : ∃ cls, integer.class? = some cls ∧ cls ≠ .void := by
        cases integer <;> simp [TypeSig.class?, TypeSig.isPrimitive] at hprimitive ⊢
      exact absurd (Except.ok.inj ((hclass cls hcls).symm.trans hvoid)) hne

/-- A call has a value if its method has a result. -/
theorem isSome_of_result {value : Option ValueId} (henums : EnumsPrimitive asm)
    (hs : s.HandlesSound asm) (htype : irType asm sig s = .ok type s)
    (hvalue : ∃ cls, s.module.classify type = .ok cls ∧ (cls = .void ∧ value = none ∨
      cls ≠ .void ∧ ∃ v, value = some v ∧ s.module.typeOf v = .ok type))
    (hsig : sig ≠ .void) : value.isSome = true := by
  obtain ⟨cls, hcls, ⟨rfl, -⟩ | ⟨-, v, rfl, -⟩⟩ := hvalue
  · exact absurd (void_of_irType henums hs htype hcls) hsig
  · rfl

end Calls

namespace Emit

section Calls

variable {site : Site} {s s' : EmitState} {u : Unit} {target slot : MethodId} {d : MethodDef}

/-- A call of a method takes its arguments and leaves its result.  Constructors of the roots, which
are not called at all, have none. -/
theorem callDirect_shifts (hnames : NamesDistinct site.asm) (hctors : ConstructorsVoid site.asm)
    (henums : EnumsPrimitive site.asm) (hs' : s'.session.Signed site.asm)
    (h : callDirect site target s = .ok u s') : ∃ d, site.asm.method target = .ok d ∧
      s.stack.Shifts d.argCount (resultCount d) s'.stack := by
  unfold callDirect at h
  simp only [liftM_build, liftM_lower, Lower.liftM_ask] at h
  obtain ⟨callee, s₁, hask, h⟩ := bind_eq_ok_iff.mp h
  obtain ⟨hcallee, hsame⟩ := lower_ask_eq_ok hask
  subst s₁
  obtain ⟨args, s₂, hargs, h⟩ := bind_eq_ok_iff.mp h
  suffices hrest : s₂.stack.Shifts 0 (resultCount callee) s'.stack from
    ⟨callee, hcallee, (Effect.popN.shifts hargs).before_pushes hrest⟩
  split at h
  · rename_i hroot
    obtain ⟨-, rfl⟩ := pure_eq_ok_iff.mp h
    rw [resultCount, if_pos (hctors hcallee (Bool.and_eq_true_iff.mp hroot).1)]
    exact .refl _
  · simp only [bind_eq_ok_iff, lower_eq_ok_iff] at h
    obtain ⟨f, _, ⟨t₁, hdeclare, rfl⟩, values, _, ⟨t₂, hvalues, rfl⟩,
      result, _, ⟨t₃, hcall, rfl⟩, hpush⟩ := h
    have hlast : Session.Later site.asm t₃ s'.session :=
      (inferInstance : Keeps (EmitState.On (Session.Later site.asm))
        (pushResult site callee result)).run hpush
    have hlater : Session.Later site.asm t₁ s'.session :=
      IsTrans.trans _ _ _ (Keeps.run hvalues) (IsTrans.trans _ _ _ (Keeps.run hcall) hlast)
    obtain ⟨name, hname, hf⟩ := declareFunction_registered hdeclare
    obtain ⟨-, d, hd, _, _, _, _, hhead, hfunction, htype⟩ :=
      hs'.functions hnames ⟨name, hname, hlater.registry.functions hf⟩
    obtain rfl := Except.ok.inj (hcallee.symm.trans hd)
    obtain ⟨m, hbuilt, rfl⟩ := Lower.build_eq_ok_iff.mp hcall
    have hvalue := Build.call_result hbuilt hlast.module hhead hfunction
    have hpushed :=
      (Effect.pushResult (isSome_of_result henums hs'.handles htype hvalue)).shifts hpush
    exact hpushed

theorem callThrough_shifts {callee : MethodDef} {place : TypeId × Nat} {tables : ValueId}
    {args : List Element} (henums : EnumsPrimitive site.asm) (hs' : s'.session.Signed site.asm)
    (h : (do
      let type ← lower (functionType site.asm callee)
      let pointer ← lower (Lower.build (Build.pointerType type))
      let entry ← lower (Lower.build (Build.structGep place.1 tables place.2))
      let function ← lower (Lower.build (Build.load pointer entry))
      let values ← lower (coerceArgs site.asm callee args)
      let result ← lower (Lower.build (Build.callIndirect type function values))
      pushResult site callee result : Emit Unit) s = .ok u s') :
    s.stack.Shifts 0 (resultCount callee) s'.stack := by
  simp only [bind_eq_ok_iff, lower_eq_ok_iff] at h
  obtain ⟨type, _, ⟨t₁, htyped, rfl⟩, pointer, _, ⟨t₂, hpointer, rfl⟩, entry, _, ⟨t₃, hentry, rfl⟩,
    function, _, ⟨t₄, hload, rfl⟩, values, _, ⟨t₅, hvalues, rfl⟩, result,
    _, ⟨t₆, hcall, rfl⟩, hpush⟩ := h
  have hlast : Session.Later site.asm t₆ s'.session :=
    (inferInstance : Keeps (EmitState.On (Session.Later site.asm))
      (pushResult site callee result)).run hpush
  have hloaded : Session.Later site.asm t₄ s'.session :=
    IsTrans.trans _ _ _ (Keeps.run hvalues) (IsTrans.trans _ _ _ (Keeps.run hcall) hlast)
  have hlater : Session.Later site.asm t₁ s'.session :=
    IsTrans.trans _ _ _ (Keeps.run hpointer)
      (IsTrans.trans _ _ _ (Keeps.run hentry) (IsTrans.trans _ _ _ (Keeps.run hload) hloaded))
  obtain ⟨returned, sigs, types, -, hfunction, hreturned, -⟩ := functionType_params htyped
  obtain ⟨m, hbuilt, rfl⟩ := Lower.build_eq_ok_iff.mp hcall
  have htype := irType_extends hreturned hlater.toExtends
  have hvalue := Build.callIndirect_result hbuilt hlast.module
    (hlater.module.partsKept hfunction (by simp))
  have hpushed :=
    (Effect.pushResult (isSome_of_result henums hs'.handles htype hvalue)).shifts hpush
  exact hpushed

/-- A call through a slot takes the arguments of the slot's method and leaves the result of that. -/
theorem callSlot_shifts (henums : EnumsPrimitive site.asm) (hs' : s'.session.Signed site.asm)
    (h : callSlot site slot s = .ok u s') : ∃ d, site.asm.method slot = .ok d ∧
      s.stack.Shifts d.argCount (resultCount d) s'.stack := by
  unfold callSlot at h
  simp only [liftM_build, liftM_lower, Lower.liftM_ask] at h
  obtain ⟨callee, s₁, hask, h⟩ := bind_eq_ok_iff.mp h
  obtain ⟨hcallee, hsame⟩ := lower_ask_eq_ok hask
  subst s₁
  obtain ⟨args, s₂, hargs, h⟩ := bind_eq_ok_iff.mp h
  suffices hrest : s₂.stack.Shifts 0 (resultCount callee) s'.stack from
    ⟨callee, hcallee, (Effect.popN.shifts hargs).before_pushes hrest⟩
  cases args with
  | nil => exact (malformed_eq_ok_iff.mp h).elim
  | cons object rest =>
      obtain ⟨place, _, hplace, h⟩ := bind_eq_ok_iff.mp h
      obtain ⟨t₁, -, rfl⟩ := lower_eq_ok_iff.mp hplace
      obtain ⟨kind, _, hkind, h⟩ := bind_eq_ok_iff.mp h
      obtain ⟨t₂, -, rfl⟩ := lower_eq_ok_iff.mp hkind
      split at h <;>
      · obtain ⟨tables, _, htables, h⟩ := bind_eq_ok_iff.mp h
        obtain ⟨t₃, -, rfl⟩ := lower_eq_ok_iff.mp htables
        have hcalled := callThrough_shifts henums hs' h
        exact hcalled

theorem callDirect_starves (hd : site.asm.method target = .ok d)
    (hsize : s.stack.size < d.argCount) :
    ∃ e s', callDirect site target s = .error (.error e) s' := by
  unfold callDirect
  simp only [Lower.liftM_ask]
  rw [bind_of_ok (lower_ask_of_ok hd s)]
  obtain ⟨e, t, he⟩ := Effect.popN.starves hsize
  exact ⟨e, t, bind_of_error he⟩

theorem callSlot_starves (hd : site.asm.method slot = .ok d) (hsize : s.stack.size < d.argCount) :
    ∃ e s', callSlot site slot s = .error (.error e) s' := by
  unfold callSlot
  simp only [Lower.liftM_ask]
  rw [bind_of_ok (lower_ask_of_ok hd s)]
  obtain ⟨e, t, he⟩ := Effect.popN.starves hsize
  exact ⟨e, t, bind_of_error he⟩

end Calls

section Returns

variable {site : Site} {s s' : EmitState} {u : Unit}

/-- A result is returned at the type of the method. -/
theorem Effect.returned {type : TypeId} : Effect 1 0 (do
    let e ← Emit.pop site
    let signed ← lower (Lower.ask (isSigned site.asm e.sig))
    let value ← lower (Lower.build (coerce e.value type signed))
    lower (Lower.build (Build.ret (some value))) : Emit Unit) :=
  pop fun _ => lowered.seq fun _ => lowered.seq fun _ => lowered

theorem ret_shifts (h : ret site s = .ok u s') :
    s.stack.Shifts (resultCount site.method) 0 s'.stack := by
  unfold ret at h
  simp only [liftM_build, liftM_lower, Lower.liftM_build, Lower.liftM_ask] at h
  unfold resultCount
  by_cases hvoid : site.method.returnType = .void
  · rw [if_pos hvoid] at h ⊢
    exact Effect.lowered.shifts h
  · rw [if_neg hvoid] at h ⊢
    obtain ⟨type, t, htype, h⟩ := bind_eq_ok_iff.mp h
    obtain ⟨t₁, -, rfl⟩ := lower_eq_ok_iff.mp htype
    have hreturned := Effect.returned.shifts h
    exact hreturned

theorem ret_starves {type : TypeId}
    (htype : irType site.asm site.method.returnType s.session = .ok type s.session)
    (hsize : s.stack.size < resultCount site.method) :
    ∃ e s', ret site s = .error (.error e) s' := by
  unfold resultCount at hsize
  split at hsize
  · exact absurd hsize (Nat.not_lt_zero _)
  · rename_i hvoid
    unfold ret
    simp only [liftM_build, liftM_lower, Lower.liftM_build, Lower.liftM_ask]
    rw [if_neg hvoid, bind_of_ok (lower_eq_ok_iff.mpr ⟨s.session, htype, rfl⟩)]
    exact Effect.returned.starves hsize

end Returns

end Emit

section Instructions

/-- How the numbers of elements that an action takes and leaves are found. -/
def Action.use : Action → StackUse
  | .nop | .branch => .fixed 0 0
  | .constant _ | .null | .string | .loadVariable .. | .loadVariableAddress _
  | .sizeof | .loadStatic | .loadStaticAddress => .fixed 0 1
  | .storeVariable .. | .storeStatic | .pop | .branchIf _ | .switch | .initObject => .fixed 1 0
  | .negate | .complement | .convert .. | .loadIndirect _ | .loadObject | .loadField
  | .loadFieldAddress | .newArray => .fixed 1 1
  | .dup => .fixed 1 2
  | .compareBranch .. | .storeIndirect _ | .storeObject | .storeField => .fixed 2 0
  | .binary _ | .compare .. | .loadElementAddress | .loadElement _ => .fixed 2 1
  | .storeElement _ => .fixed 3 0
  | .call => .call
  | .callVirtual => .callVirtual
  | .newObject => .construct
  | .ret => .ret

/-- Operations with one action have one stack transition. -/
theorem stackUse?_of_dispatch {opcode : Opcode} {action : Action}
    (h : dispatch opcode = .action action) :
    stackUse? opcode = some action.use :=
  of_dispatch (P := fun op a => stackUse? op = some a.use) h (by decide +kernel)

open Emit in
/-- The actions whose numbers are fixed keep to them. -/
theorem effect_of_use {site : Site} {action : Action} {p q : Nat} (h : action.use = .fixed p q) :
    Effect p q (perform site action) := by
  suffices hall : match action.use with
      | .fixed p q => Effect p q (perform site action)
      | _ => True by
    rwa [h] at hall
  cases action with
  | constant source => exact Effect.loadConstant
  | null => exact Effect.loadNull
  | string => exact Effect.loadString
  | loadVariable kind fixed => exact Effect.loadVariable
  | loadVariableAddress kind => exact Effect.loadVariableAddress
  | storeVariable kind fixed => exact Effect.storeVariable
  | nop => exact Effect.pure _
  | dup => exact Effect.duplicate
  | pop => exact Effect.discard
  | sizeof => exact Effect.loadSize
  | binary op => exact Effect.binary
  | negate => exact Effect.unary
  | complement => exact Effect.unary
  | compare relation unsigned => exact Effect.compare
  | branch => exact Effect.branch
  | branchIf onZero => exact Effect.branchIf
  | compareBranch relation unsigned => exact Effect.compareBranch
  | switch => exact Effect.switch
  | convert target unsignedSource => exact Effect.convert
  | loadIndirect sig => exact Effect.loadIndirect
  | storeIndirect sig => exact Effect.storeIndirect
  | loadObject => exact Effect.loadObject
  | storeObject => exact Effect.storeObject
  | initObject => exact Effect.initObject
  | loadField => exact Effect.loadField
  | loadFieldAddress => exact Effect.loadFieldAddress
  | storeField => exact Effect.storeField
  | loadStatic => exact Effect.loadStatic
  | loadStaticAddress => exact Effect.loadStaticAddress
  | storeStatic => exact Effect.storeStatic
  | newArray => exact Effect.newArray
  | loadElementAddress => exact Effect.loadElementAddress
  | loadElement source => exact Effect.loadElement
  | storeElement source => exact Effect.storeElement
  | call | callVirtual | newObject | ret => trivial

section Runs

open Emit

variable {site : Site} {action : Action} {s s' : EmitState} {u : Unit} {p q : Nat}

/-- An instruction takes and leaves what the instruction set says. -/
theorem instruction_shifts (hnames : NamesDistinct site.asm) (hctors : ConstructorsVoid site.asm)
    (henums : EnumsPrimitive site.asm) (haction : dispatch site.instr.opcode = .action action)
    (hs : s.session.Signed site.asm) (h : instruction site s = .ok u s') :
    ∃ p q, stackCounts? site.asm site.method site.instr = some (p, q) ∧
      s.stack.Shifts p q s'.stack := by
  have huse := stackUse?_of_dispatch haction
  have hs' := ((Session.Signed.upholds_instruction site).ok ⟨hs, trivial⟩ h).session
  have hrun : perform site action s = .ok u s' := by simpa only [instruction, haction] using h
  cases action with
  | call =>
      obtain ⟨target, s₁, htarget, hcall⟩ := bind_eq_ok_iff.mp hrun
      obtain ⟨hoperand, hsame⟩ := methodOperand_eq_ok htarget
      subst s₁
      obtain ⟨d, hd, hshifts⟩ := callDirect_shifts hnames hctors henums hs' hcall
      exact ⟨_, _, (stackCounts?_call_iff huse).mpr ⟨target, d, hoperand, hd, rfl, rfl⟩, hshifts⟩
  | callVirtual =>
      obtain ⟨target, s₁, htarget, hslot⟩ := bind_eq_ok_iff.mp hrun
      obtain ⟨hoperand, hsame⟩ := methodOperand_eq_ok htarget
      subst s₁
      obtain ⟨slot, s₁, hask, hcall⟩ := bind_eq_ok_iff.mp hslot
      obtain ⟨hslot, hsame⟩ := lower_ask_eq_ok hask
      subst s₁
      obtain ⟨d, hd, hshifts⟩ : ∃ d, site.asm.method (slot.getD target) = .ok d ∧
          s.stack.Shifts d.argCount (resultCount d) s'.stack := by
        cases slot with
        | some slot => exact callSlot_shifts henums hs' hcall
        | none => exact callDirect_shifts hnames hctors henums hs' hcall
      exact ⟨_, _, (stackCounts?_callVirtual_iff huse).mpr ⟨target, slot,
        d, hoperand, hslot, hd, rfl, rfl⟩, hshifts⟩
  | newObject =>
      obtain ⟨ctor, s₁, hctor, hnew⟩ := bind_eq_ok_iff.mp hrun
      obtain ⟨hoperand, -⟩ := methodOperand_eq_ok hctor
      obtain ⟨d, s₂, hask, -⟩ := bind_eq_ok_iff.mp hnew
      obtain ⟨hd, -⟩ := lower_ask_eq_ok hask
      exact ⟨_, _, (stackCounts?_construct_iff huse).mpr ⟨ctor, d, hoperand, hd, rfl, rfl⟩,
        (Effect.newObject hoperand hd).shifts hrun⟩
  | ret => exact ⟨_, _, stackCounts?_ret huse, ret_shifts hrun⟩
  | _ => exact ⟨_, _, stackCounts?_fixed huse, (effect_of_use rfl).shifts hrun⟩

/-- With fewer elements than it takes, an instruction fails.  A return asks for the type of its
result before, which is there. -/
theorem instruction_starves {type : TypeId}
    (htype : irType site.asm site.method.returnType s.session = .ok type s.session)
    (haction : dispatch site.instr.opcode = .action action)
    (hcounts : stackCounts? site.asm site.method site.instr = some (p, q))
    (hsize : s.stack.size < p) :
    ∃ e s', instruction site s = .error (.error e) s' := by
  have huse := stackUse?_of_dispatch haction
  suffices hrun : ∃ e s', perform site action s = .error (.error e) s' by
    simpa only [instruction, haction] using hrun
  cases action with
  | call =>
      obtain ⟨target, d, hoperand, hd, rfl, -⟩ := (stackCounts?_call_iff huse).mp hcounts
      simp only [perform, call, methodOperand, hoperand, pure_bind]
      exact callDirect_starves hd hsize
  | callVirtual =>
      obtain ⟨target, slot, d, hoperand, hslot, hd, rfl, -⟩ :=
        (stackCounts?_callVirtual_iff huse).mp hcounts
      simp only [perform, callVirtual, methodOperand, hoperand, pure_bind, Lower.liftM_ask]
      rw [bind_of_ok (lower_ask_of_ok hslot s)]
      cases slot with
      | some slot => exact callSlot_starves hd hsize
      | none => exact callDirect_starves hd hsize
  | newObject =>
      obtain ⟨ctor, d, hoperand, hd, rfl, -⟩ := (stackCounts?_construct_iff huse).mp hcounts
      exact (Effect.newObject hoperand hd).starves hsize
  | ret =>
      obtain ⟨rfl, -⟩ := Prod.mk.inj (Option.some.inj ((stackCounts?_ret huse).symm.trans hcounts))
      exact ret_starves htype hsize
  | _ =>
      obtain ⟨rfl, -⟩ :=
        Prod.mk.inj (Option.some.inj ((stackCounts?_fixed huse).symm.trans hcounts))
      exact (effect_of_use rfl).starves hsize

end Runs

end Instructions

section Bodies

variable {asm : Assembly} {settings : Settings} {n : Nat} {s : EmitState}

namespace BodyStart

/-- The function of the method stays registered all through the emission. -/
theorem functionOf (b : BodyStart asm settings) (h : b.Visits n s) :
    s.session.FunctionOf asm b.method b.function := by
  obtain ⟨f, s₁, hdeclare, hrest⟩ := bind_eq_ok_iff.mp b.declare
  obtain ⟨_, s₂, hlink, hreturn⟩ := bind_eq_ok_iff.mp hrest
  obtain ⟨hf, hsame⟩ := pure_eq_ok_iff.mp hreturn
  subst s₂
  have hlinked : Session.Later asm s₁ b.declared := Keeps.run hlink
  have hstarted : Session.Later asm b.declared b.session := Keeps.run b.prologue
  have hvisited : Session.Later asm b.session s.session := Outlook.later_of_visits h
  rw [hf]
  exact Session.FunctionOf.later (IsTrans.trans _ _ _ hlinked
    (IsTrans.trans _ _ _ hstarted hvisited))
    (declareFunction_registered hdeclare)

/-- The type of its result is there already. -/
theorem exists_returnType (b : BodyStart asm settings) (hnames : NamesDistinct asm)
    (h : b.Visits n s) :
    ∃ type, irType asm b.d.returnType s.session = .ok type s.session := by
  obtain ⟨-, d, hd, _, _, type, _, -, -, htype⟩ := (b.signed h).functions hnames (b.functionOf h)
  obtain rfl := Except.ok.inj (b.method_eq.symm.trans hd)
  exact ⟨type, htype⟩

/-- Whatever is on the stack while a body is emitted, an instruction that is emitted takes as many
elements off it, and puts as many on it, as the instruction set says, and leaves those below alone;
with fewer elements than it takes it fails.  No two methods have one name here, constructors return
nothing, and the integers of enums are primitive. -/
theorem stack_effect (b : BodyStart asm settings) (hnames : NamesDistinct asm)
    (hctors : ConstructorsVoid asm) (henums : EnumsPrimitive asm) (h : b.Visits n s)
    {instr : Instruction} {action : Action} (haction : dispatch instr.opcode = .action action)
    (index : Nat) (stack : EvalStack) :
    (∀ s', Emit.instruction (siteAt b.frame index instr) { s with stack } = .ok () s' →
      ∃ p q, stackCounts? asm b.d instr = some (p, q) ∧ stack.Shifts p q s'.stack) ∧
    ∀ p q, stackCounts? asm b.d instr = some (p, q) → stack.size < p →
      ∃ e s', Emit.instruction (siteAt b.frame index instr) { s with stack } =
        .error (.error e) s' := by
  have hsigned := b.signed h
  refine ⟨fun s' hrun => ?_, fun p q hcounts hsize => ?_⟩
  · exact instruction_shifts hnames hctors henums haction hsigned hrun
  · obtain ⟨type, htype⟩ := b.exists_returnType hnames h
    exact instruction_starves htype haction hcounts hsize

end BodyStart

/-- A program of a class with a constructor and of an enum. -/
def adder : Assembly :=
  { Assembly.ofName "adder" with
    types := #[
      TypeDef.ofKind .classType "System" "Object",
      TypeDef.ofKind .classType "System" "ValueType",
      { TypeDef.ofKind .classType "System" "Enum" with base := some Assembly.valueType },
      { TypeDef.ofKind .classType "" "C" with
        base := some Assembly.objectType, methods := [⟨0⟩, ⟨1⟩, ⟨2⟩] },
      { TypeDef.ofKind .enumType "" "E" with base := some Assembly.enumType, fields := [⟨0⟩] }]
    fields := #[⟨"value__", ⟨4⟩, .u1, false⟩]
    methods := #[
      { name := "Add", declaringType := ⟨3⟩, params := [⟨"a", .i4⟩, ⟨"b", .i4⟩], returnType := .i4,
        flags := ⟨MethodFlags.static⟩,
        body := some { instructions :=
          [{ opcode := .ldarg0 }, { opcode := .ldarg1 }, { opcode := .add },
            { opcode := .ret }] } },
      { name := "Main", declaringType := ⟨3⟩, returnType := .void, flags := ⟨MethodFlags.static⟩,
        body := some { instructions := [
          { opcode := .ldcI41 }, { opcode := .ldcI42 }, { opcode := .ldcI43 },
          { opcode := .call, operand := .method ⟨0⟩ }, { opcode := .pop }, { opcode := .pop },
          { opcode := .ret }] } },
      { name := ".ctor", declaringType := ⟨3⟩, returnType := .void,
        body := some { instructions := [{ opcode := .ret }] } }] }

/-- The start of the emission of the method that calls the other. -/
def adderStart : BodyStart adder {} :=
  (BodyStart.first? adder {} ⟨1⟩ "C::Main").get (by decide +kernel)

theorem adder_constructors : ConstructorsVoid adder := by
  rintro ⟨index⟩ d hd hctor
  have hlt : index < 3 := (Array.getElem?_eq_some_iff.mp (Arena.entry_eq_ok_iff.mp hd)).1
  have hall : ∀ i < 3, ∀ d ∈ (adder.method ⟨i⟩).toOption, d.isConstructor = true →
      d.returnType = .void := by
    decide +kernel
  exact hall index hlt d (by rw [hd]; rfl) hctor

theorem adder_enums : EnumsPrimitive adder := by
  rintro ⟨index⟩ integer hkind hinteger
  have hall : ∀ i < 5, ∀ integer ∈ (enumUnderlying adder ⟨i⟩).toOption,
      adder.kindOf ⟨i⟩ = .ok .enumType → integer.isPrimitive = true := by decide +kernel
  obtain ⟨d, hd, -⟩ := Assembly.kindOf_eq_ok_iff.mp hkind
  have hlt : index < 5 := (Array.getElem?_eq_some_iff.mp (Arena.entry_eq_ok_iff.mp hd)).1
  exact hall index hlt integer (by rw [hinteger]; rfl) hkind

/-- The call in its place. -/
def adderSite : Site := siteAt adderStart.frame 3 { opcode := .call, operand := .method ⟨0⟩ }

/-- The call takes the upper two of three elements and leaves one; on an empty stack it fails. -/
theorem adderSite_shifts : (adderStart.after 3).stack.size = 3 ∧
    stackCounts? adder adderStart.d adderSite.instr = some (2, 1) ∧
    (∃ s', Emit.instruction adderSite (adderStart.after 3) = .ok () s' ∧
      (adderStart.after 3).stack.Shifts 2 1 s'.stack) ∧
    ∃ e s', Emit.instruction adderSite { adderStart.after 3 with stack := {} } =
      .error (.error e) s' := by
  have hcounts : stackCounts? adder adderStart.d adderSite.instr = some (2, 1) := by decide +kernel
  have hvisits : adderStart.Visits 3 (adderStart.after 3) :=
    adderStart.visits_after (by decide +kernel)
  have haction : dispatch adderSite.instr.opcode = .action .call := rfl
  have heffect := adderStart.stack_effect (namesDistinct_of_nodup (by decide +kernel))
    adder_constructors
    adder_enums hvisits haction 3
  have hrun : Emit.instruction adderSite (adderStart.after 3) =
      .ok () (stateOf (Emit.instruction adderSite (adderStart.after 3))) :=
    eq_ok_stateOf (by decide +kernel)
  refine ⟨by decide +kernel, hcounts, ⟨_, hrun, ?_⟩, (heffect {}).2 2 1 hcounts (by decide)⟩
  obtain ⟨p, q, hsame, hshifts⟩ := (heffect (adderStart.after 3).stack).1 _ hrun
  cases hsame.symm.trans hcounts
  exact hshifts

end Bodies

end Lowering

end CilSsa
