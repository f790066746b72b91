import CilSsa.Proofs.Outlooks

/-!
Stacks of sound values.

What is asked of the elements of stacks is an outlook: it comes with a law for each way in which
elements are made, and so all elements are sound.  An element is judged by the state that the
compilation comes to, so what an action brings is known only if it leads there; the values that it
was given were sound before.
-/

namespace CilSsa

open Ssa Metadata Lowering

/-- Changes that stay in their block and store this value at this address only. -/
def Ssa.Change.Puts (pointer value : ValueId) (c : Change) : Prop :=
  c.isStaying = true ∧ ∀ block type pointer' value' isVolatile,
    c = .addInst block type (.store pointer' value' isVolatile) → pointer' = pointer ∧
    value' = value

instance (pointer value : ValueId) : Change.Staying (Change.Puts pointer value) where
  permits c hquiet hstays := by
    refine ⟨hstays, fun block type pointer' value' isVolatile heq => ?_⟩
    subst heq
    cases hquiet

theorem Ssa.Build.store_puts {m m' : Module} {pointer value : ValueId} {isVolatile : Bool}
    {u : Unit} (h : Build.store pointer value isVolatile m = .ok u m') :
    m.Evolves (Change.Puts pointer value) m' := by
  obtain ⟨hlt, type, v, m₁, hfirst, hpush⟩ := Build.store_cases (P := Change.Puts pointer value) h
  refine hfirst.trans (Build.pushInst_evolves hpush rfl (fun block => ⟨rfl, ?_⟩) fun p hp => ?_)
  · rintro _ _ _ _ _ heq
    cases heq
    exact ⟨rfl, rfl⟩
  · cases hp
    exact Nat.lt_of_lt_of_le hlt (Module.Evolves.values_le hfirst)

theorem Ssa.Build.phi_typeOf {m m' : Module} {b : BlockId} {type : TypeId} {v : ValueId}
    (h : Build.phi b type m = .ok v m') : m'.typeOf v = .ok type := by
  obtain ⟨rfl, rfl, -⟩ := Build.phi_eq_ok h
  exact Module.typeOf_eq_ok_iff.mpr
    ⟨.inst (some b) (.phi []), by simp [Module.apply, Module.pushValue]⟩

namespace Ssa.Module

variable {m : Module} {pointer : ValueId} {type own : TypeId} {sig : TypeSig}

def AimsAt (m : Module) (pointer : ValueId) (type : TypeId) : Prop :=
  ∃ own, m.Suits pointer own ∧ m.types[own.index]? = some (.pointer type)

theorem PointsTo.aimsAt (h : m.PointsTo pointer type) : m.AimsAt pointer type := by
  obtain ⟨own, hown, htype⟩ := h
  exact ⟨own, .of_typeOf hown, htype⟩

/-- The type is one that values on the stack may have, and if the signature is that of a number with
a fraction, it is the one of the signature. -/
structure Apt (m : Module) (sig : TypeSig) (type : TypeId) : Prop where
  proper : m.Proper type
  wide : ∀ bits, m.classify type = .ok (.int bits) → 32 ≤ bits
  single : sig = .r4 → m.classify type = .ok (.float 32)
  double : sig = .r8 → m.classify type = .ok (.float 64)

/-- Pointers, under any signature that is not of a number with a fraction. -/
theorem Apt.of_pointer (h : m.classify type = .ok .pointer) (hsig : sig.isFloat = false) :
    m.Apt sig type where
  proper := ⟨_, h, fun bits heq => nomatch heq⟩
  wide bits hclass := by
    cases h.symm.trans hclass
  single heq := by
    subst heq
    cases hsig
  double heq := by
    subst heq
    cases hsig

theorem PointsTo.classOf (h : m.PointsTo pointer type) : m.classOf pointer = .ok .pointer := by
  obtain ⟨own, hown, htype⟩ := h
  exact classOf_eq_ok_iff.mpr ⟨own, hown, classify_eq_ok_iff.mpr ⟨_, htype, rfl⟩⟩

end Ssa.Module

namespace Lowering

section Outlooks

variable {asm : Assembly}

/-- The element that the builder answers with is sound. -/
def Judgement.Makes (o : Judgement asm) (x : Build Element) : Prop :=
  ∀ ⦃m : Module⦄ ⦃e : Element⦄ ⦃m' : Module⦄, x m = .ok e m' → m.Here o.function →
    m'.Evolves Change.Any o.final.module → o.sound e

/-- A judgement under which all elements are sound, by the ways in which they are made, and all
stores are permitted. -/
structure Outlook (asm : Assembly) extends Judgement asm where
  signed : final.Signed asm
  /-- Values that have what their signatures say. -/
  fits : TypeSig → ValueId → Prop
  /-- Addresses of storage of a type. -/
  aims : ValueId → TypeId → Prop
  typed : ∀ {e : Element}, final.module.typeOf e.value = .ok e.type →
    final.module.Apt e.sig e.type → sound e
  replaced : ∀ {e : Element} {v : ValueId}, sound e → final.module.typeOf v = .ok e.type →
    sound { e with value := v }
  fits_of_hasSig : ∀ {sig : TypeSig} {v : ValueId}, final.HasSig asm sig v → fits sig v
  fits_of_call : ∀ {target : MethodId} {d : MethodDef} {f : FunctionId} {args : List ValueId}
    {v : ValueId} {m m' : Module}, asm.method target = .ok d → final.FunctionOf asm target f →
    Build.call f args m = .ok (some v) m' → m'.Evolves Change.Any final.module → fits d.returnType v
  loaded : ∀ {sig : TypeSig} {v : ValueId}, fits sig v → toJudgement.Makes (toStack asm v sig)
  float : ∀ {op : BinaryOp} {lhs rhs : Element},
    toJudgement.Makes (Emit.floatBinary asm op lhs rhs)
  shift : ∀ {op : BinaryOp} {lhs rhs : Element}, sound lhs →
    toJudgement.Makes (Emit.shift op lhs rhs)
  integer : ∀ {op : BinaryOp} {lhs rhs : Element}, lhs.sig.isFloat = false →
      rhs.sig.isFloat = false →
    sound lhs → sound rhs → toJudgement.Makes (Emit.intBinary asm op lhs rhs)
  unary : ∀ {op : UnaryOp} {e : Element} {v : ValueId} {m m' : Module}, sound e →
    Build.unary op e.value m = .ok v m' → m'.Evolves Change.Any final.module →
    sound { e with value := v }
  converted : ∀ {target : TypeSig} {unsignedSource : Bool} {e : Element},
      (∀ id, target ≠ .named id) →
    sound e → convertible e → toJudgement.Makes (Emit.convertElement asm target unsignedSource e)
  constructed : ∀ {ctor : MethodId} {d : MethodDef} {v : ValueId} {type : TypeId},
    asm.method ctor = .ok d → constructible ctor →
    irType asm (.named d.declaringType) final = .ok type final →
    final.module.typeOf v = .ok type → sound ⟨v, .named d.declaringType, type⟩
  aims_of_aimsAt : ∀ {pointer : ValueId} {type : TypeId}, final.module.AimsAt pointer type →
    aims pointer type
  aims_of_member : ∀ {s : Session} {c : LayoutCache} {f : FieldId} {d : FieldDef} {index : Nat}
    {struct type : TypeId} {base address : ValueId} {m m' : Module}, known s →
    asm.field f = .ok d → Layouts.fieldIndex asm f s.layouts = .ok index c →
    final.registry.types.lookup d.declaringType = some struct →
    Build.structGep struct base index m = .ok address m' → m.Here function →
    m'.Evolves Change.Any final.module → irType asm d.sig final = .ok type final → aims address type
  stored : ∀ {pointer value : ValueId} {type : TypeId} {isVolatile : Bool} {u : Unit}
    {m m' : Module}, aims pointer type → final.module.Suits value type →
    Build.store pointer value isVolatile m = .ok u m' → m.Here function →
    m'.Evolves Change.Any final.module → storable pointer value
  spilled : ∀ {pointer : ValueId} {e : Element}, sound e → final.module.PointsTo pointer e.type →
    storable pointer e.value

end Outlooks

section Merges

open Build Module

variable {asm : Assembly} {m m' M : Module} {source target : BlockId} {slot slot' : Slot}
  {slots slots' : List Slot} {e : Element} {elements : List Element}
  {stack stack' incoming : EvalStack} {refers : Nat} {K : Element → Prop}

/-- What is true of an element is true of any value of its type. -/
def Indifferent (M : Module) (K : Element → Prop) : Prop :=
  ∀ {e : Element} {v : ValueId}, K e → M.typeOf v = .ok e.type → K { e with value := v }

/-- A slot keeps its type, and a phi has that type. -/
theorem mergeSlot_sound (hK : Indifferent M K)
    (h : EvalStack.mergeSlot asm source target slot e m = .ok slot' m')
    (hend : m'.Evolves Change.Any M) (hslot : K slot.element) (he : K e) : K slot'.element := by
  obtain ⟨held, state⟩ := slot
  cases state with
  | unvisited =>
    obtain ⟨rfl, -⟩ := pure_eq_ok_iff.mp h
    exact he
  | deferred first =>
    simp only [EvalStack.mergeSlot] at h
    obtain ⟨phi, m₁, hphi, h⟩ := bind_eq_ok_iff.mp h
    have hrest : Keeps (Evolves Change.Any) (do
        Build.addIncoming phi held.value first
        let signed ← Build.ask (isSigned asm e.sig)
        let value ← coerce e.value held.type signed
        Build.addIncoming phi value source
        return ⟨{ held with value := phi }, .phi⟩ : Build Slot) := inferInstance
    have hlast := (hrest.run h).trans hend
    simp only [bind_eq_ok_iff, pure_eq_ok_iff] at h
    obtain ⟨_, _, -, _, _, -, _, _, -, _, _, -, rfl, -⟩ := h
    exact hK hslot (Evolves.typeOf hlast (Build.phi_typeOf hphi))
  | phi =>
    simp only [EvalStack.mergeSlot, bind_eq_ok_iff, pure_eq_ok_iff] at h
    obtain ⟨_, _, -, _, _, -, _, _, -, rfl, -⟩ := h
    exact hslot

theorem mergeSlots_sound (hK : Indifferent M K)
    (h : EvalStack.mergeSlots asm source target slots elements m = .ok slots' m')
    (hend : m'.Evolves Change.Any M) (hslots : ∀ slot ∈ slots, K slot.element)
    (helements : ∀ e ∈ elements, K e) : ∀ slot ∈ slots', K slot.element := by
  induction elements generalizing slots slots' m with
  | nil =>
      unfold EvalStack.mergeSlots at h
      obtain ⟨rfl, -⟩ := pure_eq_ok_iff.mp h
      exact hslots
  | cons e rest ih =>
      obtain ⟨he, hrest⟩ := List.forall_mem_cons.mp helements
      cases slots with
      | nil =>
          unfold EvalStack.mergeSlots at h
          obtain ⟨rfl, -⟩ := pure_eq_ok_iff.mp h
          simpa using helements
      | cons slot slots =>
          obtain ⟨hslot, hslots⟩ := List.forall_mem_cons.mp hslots
          simp only [EvalStack.mergeSlots, bind_eq_ok_iff, pure_eq_ok_iff] at h
          obtain ⟨merged, m₁, hmerge, others, m₂, hothers, rfl, rfl⟩ := h
          have hlater := (inferInstance : Keeps (Evolves Change.Any)
            (EvalStack.mergeSlots asm source target slots rest)).run hothers
          exact List.forall_mem_cons.mpr ⟨mergeSlot_sound hK hmerge (hlater.trans hend) hslot he,
            ih hothers hslots hrest⟩

/-- The values that arrive at a block are sound. -/
theorem merge_sound (hK : Indifferent M K)
    (h : stack.merge asm incoming source target refers m = .ok stack' m')
    (hend : m'.Evolves Change.Any M) (hstack : ∀ e ∈ stack.elements, K e)
    (hincoming : ∀ e ∈ incoming.elements, K e) : ∀ e ∈ stack'.elements, K e := by
  have hslots : ∀ slot ∈ stack.slots, K slot.element := fun slot hslot =>
    hstack _ (List.mem_map_of_mem hslot)
  unfold EvalStack.merge at h
  split at h
  · obtain ⟨rfl, -⟩ := pure_eq_ok_iff.mp h
    intro e he
    obtain ⟨slot, hslot, rfl⟩ := List.mem_map.mp he
    rcases List.mem_append.mp hslot with hslot | hslot
    · exact hslots slot hslot
    · obtain ⟨e, hmem, rfl⟩ := List.mem_map.mp hslot
      exact hincoming e hmem
  · simp only [bind_eq_ok_iff, pure_eq_ok_iff] at h
    obtain ⟨merged, m₁, hmerge, rfl, rfl⟩ := h
    have hmerged := mergeSlots_sound hK hmerge hend hslots fun e he =>
      hincoming e (List.mem_of_mem_drop he)
    intro e he
    obtain ⟨slot, hslot, rfl⟩ := List.mem_map.mp he
    rcases List.mem_append.mp hslot with hbottom | hmem
    · obtain ⟨e, htake, rfl⟩ := List.mem_map.mp hbottom
      exact hincoming e (List.mem_of_mem_take htake)
    · exact hmerged slot hmem

end Merges

namespace Outlook

variable {asm : Assembly} {o : Outlook asm} {s s' : EmitState} {α β : Type}

/-- A store that is permitted. -/
theorem store_fine {session : Session} {pointer value : ValueId} {isVolatile : Bool} {u : Unit}
    {m : Module} (hs : o.Fine session) (hstorable : o.storable pointer value)
    (h : Build.store pointer value isVolatile session.module = .ok u m) :
    o.Fine { session with module := m } where
  known := o.known_later ((inferInstance : Keeps (Session.Later asm)
    (Lower.build (Build.store pointer value isVolatile))).run
      (Lower.build_eq_ok_iff.mpr ⟨m, h, rfl⟩))
    hs.known
  code := by
    refine hs.code.evolves (Build.store_puts h) (fun _ hc => hc.1) fun c hc _ _ _ _ _ heq => ?_
    obtain ⟨rfl, rfl⟩ := hc.2 _ _ _ _ _ heq
    exact hstorable

/-- A block of the function, with a stack of sound values. -/
structure Awaits (o : Outlook asm) (m : Module) (l : Leader) : Prop where
  block : m.Owns o.function l.block
  incoming : ∀ e ∈ l.incoming.elements, o.sound e

/-- The state of an emission all of whose values are sound. -/
structure Stocked (o : Outlook asm) (s : EmitState) : Prop where
  fine : o.Fine s.session
  stack : ∀ e ∈ s.stack.elements, o.sound e
  leaders : ∀ l ∈ s.leaders, o.Awaits s.session.module l

/-- The variable is storage of the type of its signature. -/
structure Houses (o : Outlook asm) (v : Variable) : Prop where
  pointer : o.final.module.PointsTo v.pointer v.type
  type : irType asm v.sig o.final = .ok v.type o.final

/-- All variables are storage. -/
def Furnished (o : Outlook asm) (frame : Frame) : Prop :=
  ∀ v ∈ frame.args ++ frame.locals, o.Houses v

/-- An action after which all values are sound and the answer is as it should be, if it leads to the
end. -/
structure Brings (o : Outlook asm) (Q : α → Prop) (x : Emit α) : Prop where
  run : ∀ {s : EmitState} {a : α} {s' : EmitState}, x s = .ok a s' →
    Session.Later asm s'.session o.final → o.Stocked s → o.Stocked s' ∧ Q a

theorem Stocked.later {session : Session} (hs : o.Stocked s)
    (h : Session.Later asm s.session session) (hfine : o.Fine session) :
    o.Stocked { s with session } where
  fine := hfine
  stack := hs.stack
  leaders l hl := ⟨h.module.owns (hs.leaders l hl).block, (hs.leaders l hl).incoming⟩

namespace Brings

variable {Q : α → Prop} {R : β → Prop} {x : Emit α} {f : α → Emit β}

theorem pure {a : α} (ha : Q a) : o.Brings Q (Pure.pure a : Emit α) where
  run h _ hs := by
    obtain ⟨rfl, rfl⟩ := pure_eq_ok_iff.mp h
    exact ⟨hs, ha⟩

/-- What is known of the end is known of the state in between, since the rest leads there. -/
theorem after (hx : o.Brings Q x) (hlater : ∀ a, Keeps (EmitState.On (Session.Later asm)) (f a))
    (hf : ∀ a, Q a → o.Brings R (f a)) : o.Brings R (x >>= f) where
  run h hend hs := by
    obtain ⟨a, t, hfirst, hrest⟩ := bind_eq_ok_iff.mp h
    have hthen : Session.Later asm t.session _ := (hlater a).run hrest
    obtain ⟨ht, ha⟩ := hx.run hfirst (IsTrans.trans _ _ _ hthen hend) hs
    exact (hf a ha).run hrest hend ht

theorem seq [hlater : ∀ a, Keeps (EmitState.On (Session.Later asm)) (f a)] (hx : o.Brings Q x)
    (hf : ∀ a, Q a → o.Brings R (f a)) : o.Brings R (x >>= f) :=
  hx.after hlater hf

/-- What comes after a question about the state may rely on its values. -/
theorem getBind {f : EmitState → Emit α} (hf : ∀ s, o.Stocked s → o.Brings Q (f s)) :
    o.Brings Q (get >>= f) where
  run h hend hs := (hf _ hs).run (getBind_eq_ok_iff.mp h) hend hs

theorem malformed {site : Site} {problem : OperandProblem} :
    o.Brings Q (Emit.malformed site problem : Emit α) where
  run h := absurd h (by simp)

section Lower

variable {y : Lower α}

/-- An action of the compilation, which may answer for what it does. -/
theorem lower [hy : Keeps o.Proceeds y]
    (hQ : ∀ {s a s'}, y s = .ok a s' → Session.Later asm s' o.final → o.Fine s → Q a) :
    o.Brings Q (Emit.lower y) where
  run h hend hs := by
    obtain ⟨t, hrun, rfl⟩ := Emit.lower_eq_ok_iff.mp h
    have hproceeds : o.Proceeds _ t := hy.run hrun
    exact ⟨hs.later hproceeds.later (hproceeds.fine hend hs.fine), hQ hrun hend hs.fine⟩

theorem lowered [Keeps o.Proceeds y] : o.Brings (fun _ => True) (Emit.lower y) :=
  lower fun _ _ _ => trivial

/-- Code that the builder adds. -/
theorem build {y : Build α} [hy : Keeps o.Proceeds (Lower.build y)]
    (hQ : ∀ {m a m'}, y m = .ok a m' → m'.Evolves Change.Any o.final.module →
      m.Here o.function → Q a) : o.Brings Q (Emit.lower (Lower.build y)) :=
  lower fun h hend hs => by
    obtain ⟨m, hbuild, rfl⟩ := Lower.build_eq_ok_iff.mp h
    exact hQ hbuild hend.module hs.code.here

theorem makes {y : Build Element} [Keeps o.Proceeds (Lower.build y)] (h : o.Makes y) :
    o.Brings o.sound (Emit.lower (Lower.build y)) :=
  build fun hrun hend hhere => h hrun hhere hend

/-- A store that is permitted once it is there. -/
theorem put {pointer value : ValueId} {isVolatile : Bool}
    (hstorable : ∀ {m m' : Module}, Build.store pointer value isVolatile m = .ok () m' →
      m.Here o.function → m'.Evolves Change.Any o.final.module → o.storable pointer value) :
    o.Brings (fun _ => True) (Emit.lower (Lower.build (Build.store pointer value isVolatile))) where
  run h hend hs := by
    obtain ⟨t, hrun, rfl⟩ := Emit.lower_eq_ok_iff.mp h
    have hlater : Session.Later asm _ t :=
      (inferInstance : Keeps _ (Lower.build (Build.store pointer value isVolatile))).run hrun
    obtain ⟨m, hbuild, rfl⟩ := Lower.build_eq_ok_iff.mp hrun
    have hpermitted := hstorable hbuild hs.fine.code.here hend.module
    exact ⟨hs.later hlater (store_fine hs.fine hpermitted hbuild), trivial⟩

theorem store {pointer value : ValueId} {type : TypeId} {isVolatile : Bool}
    (hpointer : o.aims pointer type) (hvalue : o.final.module.Suits value type) :
    o.Brings (fun _ => True) (Emit.lower (Lower.build (Build.store pointer value isVolatile))) :=
  put fun h hhere hend => o.stored hpointer hvalue h hhere hend

/-- The answer to a question. -/
theorem ask {question : Except Fault α} :
    o.Brings (fun a => question = .ok a) (Emit.lower (Lower.ask question)) :=
  lower fun h _ _ => (Lower.ask_eq_ok_iff.mp h).1

/-- The type of a signature is the same in the end. -/
theorem irType {sig : TypeSig} :
    o.Brings (fun type => Lowering.irType asm sig o.final = .ok type o.final)
      (Emit.lower (Lowering.irType asm sig)) :=
  lower fun h hend _ => irType_extends h hend.toExtends

end Lower

end Brings

section Steps

open Emit

variable {site : Site}

/-- What is done to the stack alone leads to a later state. -/
instance (e : Element) : Keeps (EmitState.On (Session.Later asm)) (push e) where
  run h := by
    obtain rfl := push_eq_ok_iff.mp h
    exact Std.Refl.refl (r := Session.Later asm) _

instance (count : Nat) (above : List Element) :
    Keeps (EmitState.On (Session.Later asm)) (popOnto site count above) := by
  induction count generalizing above with
  | zero =>
      unfold popOnto
      infer_instance
  | succ count ih =>
      unfold popOnto
      infer_instance

instance (count : Nat) : Keeps (EmitState.On (Session.Later asm)) (popN site count) := by
  unfold popN
  infer_instance

instance : Keeps (EmitState.On (Session.Later asm)) (typeOperand site) := by
  unfold typeOperand
  split <;> infer_instance

instance (source : ElementSource) (array : Element) :
    Keeps (EmitState.On (Session.Later asm)) (elementSig site source array) := by
  unfold elementSig
  split <;> infer_instance

namespace Brings

theorem push {e : Element} (he : o.sound e) : o.Brings (fun _ => True) (Emit.push e) where
  run h _ hs := by
    obtain rfl := push_eq_ok_iff.mp h
    refine ⟨⟨hs.fine, fun e' he' => ?_, hs.leaders⟩, trivial⟩
    rw [EvalStack.elements_push, List.mem_append, List.mem_singleton] at he'
    rcases he' with he' | rfl
    · exact hs.stack e' he'
    · exact he

theorem pop : o.Brings o.sound (Emit.pop site) where
  run h _ hs := by
    obtain ⟨rest, hpop, rfl⟩ := pop_eq_ok_iff.mp h
    have helements := EvalStack.elements_of_pop? hpop
    refine ⟨⟨hs.fine, fun e he => hs.stack e ?_, hs.leaders⟩, hs.stack _ ?_⟩ <;>
    · rw [helements]
      simp [*]

theorem popOnto {count : Nat} {above : List Element} (habove : ∀ e ∈ above, o.sound e) :
    o.Brings (fun elements => ∀ e ∈ elements, o.sound e)
      (Emit.popOnto site count above) := by
  induction count generalizing above with
  | zero => exact pure habove
  | succ count ih => exact pop.seq fun e he => ih (List.forall_mem_cons.mpr ⟨he, habove⟩)

theorem popN {count : Nat} :
    o.Brings (fun elements => ∀ e ∈ elements, o.sound e) (Emit.popN site count) :=
  popOnto (by simp)

theorem fieldOperand : o.Brings (fun _ => True) (Emit.fieldOperand site) := by
  unfold Emit.fieldOperand
  split
  · exact pure trivial
  · exact malformed

theorem methodOperand : o.Brings (fun _ => True) (Emit.methodOperand site) := by
  unfold Emit.methodOperand
  split
  · exact pure trivial
  · exact malformed

theorem typeOperand : o.Brings (fun _ => True) (Emit.typeOperand site) := by
  unfold Emit.typeOperand
  split
  · exact pure trivial
  · exact malformed

theorem targetOperand : o.Brings (fun _ => True) (Emit.targetOperand site) := by
  unfold Emit.targetOperand
  split
  · exact pure trivial
  · exact malformed

/-- A variable of the body. -/
theorem variable_ {kind : VariableKind} {fixed : Option Nat} (hframe : o.Furnished site.toFrame) :
    o.Brings o.Houses (Emit.variable_ site kind fixed) := by
  unfold Emit.variable_
  dsimp only
  split
  · rename_i v hv
    obtain ⟨position, -, hv⟩ := Option.bind_eq_some_iff.mp hv
    have hmem := List.mem_of_getElem? hv
    refine pure (hframe v (List.mem_append.mpr ?_))
    cases kind
    · exact .inl hmem
    · exact .inr hmem
  · exact malformed

/-- The values on the stack arrive at a block. -/
theorem reconcile {o : Outlook site.asm} {position : Nat} :
    o.Brings (fun _ => True) (Emit.reconcile site position) where
  run {s b s'} h hend hs := by
    obtain ⟨l, incoming, m, hleader, -, hmerge, rfl⟩ := reconcile_cases h
    have hl := hs.leaders l (List.mem_of_find?_eq_some hleader)
    have hmerged : Keeps o.Proceeds (Lower.build
      (l.incoming.merge site.asm s.stack s.current l.block l.refers)) := inferInstance
    have hproceeds := hmerged.run (Lower.build_eq_ok_iff.mpr ⟨m, hmerge, rfl⟩)
    have hstocked := hs.later hproceeds.later (hproceeds.fine hend hs.fine)
    refine ⟨⟨hstocked.fine, hs.stack, fun l' hl' => ?_⟩, trivial⟩
    obtain ⟨l₀, hl₀, rfl⟩ := mem_withIncoming.mp hl'
    split
    · exact ⟨(hstocked.leaders l₀ hl₀).block,
        merge_sound o.replaced hmerge hend.module hl.incoming hs.stack⟩
    · exact hstocked.leaders l₀ hl₀

end Brings

end Steps

end Outlook

end Lowering

end CilSsa
