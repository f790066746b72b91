import CilSsa.Lowering.Method
import CilSsa.Proofs.SafeLowering

/-!
Bodies are emitted without meeting a dangling id.

The evaluation stacks, the variables and the operands of a body hold ids from the assembly only, and
so do the stacks that blocks pass on to each other.
-/

namespace CilSsa

open Ssa Metadata Lowering

namespace Lowering

section Operations

/-- The signature of the elements if the operation says it. -/
def ElementSource.sigs : ElementSource → List TypeSig
  | .fixed sig => [sig]
  | _ => []

/-- The signatures that an action names itself. -/
def Action.sigs : Action → List TypeSig
  | .convert target _ => [target]
  | .loadIndirect sig | .storeIndirect sig => sig.toList
  | .loadElement source | .storeElement source => source.sigs
  | _ => []

/-- No operation names a type of the assembly without an operand. -/
theorem mentions_of_dispatch {op : Opcode} {action : Action} {sig : TypeSig}
    (h : dispatch op = .action action) (hsig : sig ∈ action.sigs) : sig.mentions = [] := by
  have hall : action.sigs.all fun sig => sig.mentions.isEmpty := by
    exact of_dispatch (P := fun _ a => a.sigs.all fun sig => sig.mentions.isEmpty) h
      (by decide +kernel)
  exact List.isEmpty_iff.mp (List.all_eq_true.mp hall sig hsig)

end Operations

variable {asm : Assembly}

section Stacks

instance : HoldsIds Element := ⟨fun asm e => Known asm e.sig⟩

instance : HoldsIds Slot := ⟨fun asm slot => Known asm slot.element⟩

instance : HoldsIds EvalStack := ⟨fun asm s => Known asm s.slots⟩

instance (e : Element) [h : Known asm e] : Known asm e.sig := h.out

instance (value : ValueId) (sig : TypeSig) (type : TypeId) [h : Known asm sig] :
    Known asm (⟨value, sig, type⟩ : Element) :=
  ⟨h⟩

instance (slot : Slot) [h : Known asm slot] : Known asm slot.element := h.out

instance (e : Element) (state : SlotState) [h : Known asm e] : Known asm (⟨e, state⟩ : Slot) := ⟨h⟩

instance (s : EvalStack) [h : Known asm s] : Known asm s.slots := h.out

instance (slots : List Slot) [h : Known asm slots] : Known asm (⟨slots⟩ : EvalStack) := ⟨h⟩

namespace EvalStack

instance (s : EvalStack) [h : Known asm s] : Known asm s.elements :=
  h.out.each fun _ _ => inferInstance

theorem known_slots {elements : List Element} (h : Known asm elements) (state : SlotState) :
    Known asm (elements.map (⟨·, state⟩ : Element → Slot)) :=
  h.each fun _ _ => inferInstance

instance (elements : List Element) [h : Known asm elements] : Known asm (ofElements elements) :=
  ⟨known_slots h .unvisited⟩

instance (s : EvalStack) (e : Element) [Known asm s] [Known asm e] : Known asm (s.push e) := by
  unfold push
  infer_instance

instance (s : EvalStack) [Known asm s] : Known asm s.snapshot := by
  unfold snapshot
  infer_instance

instance (s : EvalStack) [h : Known asm s] : Known asm s.pop? := by
  have hlast : Known asm s.slots.getLast? := inferInstance
  exact hlast.map fun _ _ => inferInstance

instance (s : EvalStack) [h : Known asm s] : Known asm s.peek? := by
  have hlast : Known asm s.slots.getLast? := inferInstance
  exact hlast.map fun _ _ => inferInstance

end EvalStack

end Stacks

section Conversions

instance (value : ValueId) (target : TypeId) (signed : Bool) :
    Safe asm (coerce value target signed) :=
  coerce_of (fun hf => Safe.seq inferInstance fun a _ => hf a)
    (fun _ _ hf => Safe.seq inferInstance fun a _ => hf a) (fun _ => inferInstance) inferInstance

instance (value : ValueId) (signed : Bool) : Safe asm (toNativeInt value signed) := by
  unfold toNativeInt
  infer_instance

variable [asm.Closed]

instance (e : Element) [Known asm e] : Safe asm (nativeElement asm e) := by
  unfold nativeElement
  infer_instance

instance (lhs rhs : Element) [Known asm lhs] [Known asm rhs] :
    Safe asm (alignPointers asm lhs rhs) := by
  unfold alignPointers
  dsimp only
  infer_instance

instance (lhs rhs : Element) [Known asm lhs] [Known asm rhs] :
    Safe asm (alignWidths asm lhs rhs) := by
  unfold alignWidths
  refine Safe.seq inferInstance fun lhsBits _ => Safe.seq inferInstance fun rhsBits _ => ?_
  split <;> infer_instance

instance (value : ValueId) (sig : TypeSig) [Known asm sig] : Safe asm (toStack asm value sig) := by
  unfold toStack
  refine Safe.seq inferInstance fun onStack _ => Safe.seq inferInstance fun type _ =>
    Safe.seq inferInstance fun cls _ => ?_
  split <;> infer_instance

namespace EvalStack

instance (source target : BlockId) (slot : Slot) (e : Element) [Known asm slot] [Known asm e] :
    Safe asm (mergeSlot asm source target slot e) := by
  unfold mergeSlot
  dsimp only
  split <;> infer_instance

instance (source target : BlockId) (slots : List Slot) (elements : List Element)
    [h : Known asm slots] [helements : Known asm elements] :
    Safe asm (mergeSlots asm source target slots elements) := by
  induction elements generalizing slots h helements with
  | nil =>
      unfold mergeSlots
      infer_instance
  | cons e rest ih =>
      have := helements.head
      have := helements.tail
      cases slots with
      | nil =>
          have := known_slots helements (.deferred source)
          unfold mergeSlots
          infer_instance
      | cons slot slots =>
          have := h.head
          have := h.tail
          unfold mergeSlots
          infer_instance

instance (s incoming : EvalStack) (source target : BlockId) (refers : Nat) [Known asm s]
    [Known asm incoming] : Safe asm (merge asm s incoming source target refers) := by
  have hbottom : Known asm (incoming.elements.take (s.surplus incoming)) := inferInstance
  have := known_slots hbottom (.deferred source)
  unfold merge
  dsimp only
  infer_instance

end EvalStack

end Conversions

namespace Emit

section Values

instance (type : TypeId) (e : Element) : Safe asm (pointerTo type e) := by
  unfold pointerTo
  infer_instance

instance (value : Int) : Safe asm (constInt32 value) := by
  unfold constInt32
  infer_instance

instance (op : BinaryOp) (lhs rhs : Element) [Known asm lhs] : Safe asm (shift op lhs rhs) := by
  unfold shift
  infer_instance

instance (e : Element) (onZero : Bool) : Safe asm (testZero e onZero) := by
  unfold testZero
  infer_instance

instance (value : ValueId) (target : TypeSig) (signed : Bool) [Known asm target] :
    Safe asm (convertToFloat value target signed) := by
  unfold convertToFloat
  infer_instance

instance (object : Element) : Safe asm (objectAddress object) := by
  unfold objectAddress
  infer_instance

instance (type : TypeId) (value : ValueId) : Safe asm (constantAs? type value) := by
  unfold constantAs?
  refine Safe.seq inferInstance fun target _ => Safe.seq inferInstance fun number _ => ?_
  split
  · infer_instance
  · refine Safe.seq inferInstance fun number _ => ?_
    split <;> infer_instance

instance (address : Option Element) [h : Known asm address] : Known asm (pointedSig address) := by
  unfold pointedSig
  cases address with
  | none => exact inferInstanceAs (Known asm TypeSig.object)
  | some e =>
      have hsig : Known asm e.sig := h.ofSome.out
      rw [Option.bind_some]
      cases helement : e.sig.element? with
      | none => exact inferInstanceAs (Known asm TypeSig.object)
      | some inner => exact Known.element helement

variable [asm.Closed]

instance (type : TypeId) (e : Element) [Known asm e] : Safe asm (valueOf asm type e) := by
  unfold valueOf
  infer_instance

instance (op : BinaryOp) (lhs rhs : Element) [Known asm lhs] [Known asm rhs] :
    Safe asm (floatBinary asm op lhs rhs) := by
  have : Known asm (floatResult lhs.sig rhs.sig).1 := by
    unfold floatResult
    split
    · exact inferInstanceAs (Known asm TypeSig.r8)
    · exact inferInstanceAs (Known asm TypeSig.r4)
  unfold floatBinary
  infer_instance

instance (op : BinaryOp) (lhs rhs : Element) [Known asm lhs] [Known asm rhs] :
    Safe asm (intBinary asm op lhs rhs) := by
  unfold intBinary
  refine Safe.seq inferInstance fun (l, r, lhsPointer, rhsPointer) hpair => ?_
  have : Known asm l := hpair.out.1
  have : Known asm r := hpair.out.2.out.1
  dsimp only
  split
  · infer_instance
  · refine Safe.seq inferInstance fun (l, r) hwide => ?_
    have : Known asm l := hwide.out.1
    infer_instance

instance (relation : Relation) (unsigned : Bool) (lhs rhs : Element) [Known asm lhs]
    [Known asm rhs] : Safe asm (compareFloats asm relation unsigned lhs rhs) := by
  unfold compareFloats
  dsimp only
  infer_instance

instance (relation : Relation) (unsigned : Bool) (lhs rhs : Element) [Known asm lhs]
    [Known asm rhs] : Safe asm (compareValues asm relation unsigned lhs rhs) := by
  unfold compareValues
  split
  · infer_instance
  · refine Safe.seq inferInstance fun lhsClass _ => Safe.seq inferInstance fun rhsClass _ => ?_
    dsimp only
    split
    · infer_instance
    · refine Safe.seq inferInstance fun (l, r, lhsPointer, rhsPointer) hpair => ?_
      have : Known asm l := hpair.out.1
      have : Known asm r := hpair.out.2.out.1
      infer_instance

instance (value : ValueId) (target : TypeSig) (signed : Bool) [Known asm target] :
    Safe asm (convertToInt asm value target signed) := by
  unfold convertToInt
  dsimp only
  infer_instance

set_option synthInstance.maxSize 256 in
instance (target : TypeSig) (unsignedSource : Bool) (e : Element) [Known asm target]
    [Known asm e] : Safe asm (convertElement asm target unsignedSource e) := by
  unfold convertElement
  dsimp only
  infer_instance

instance (e : Element) [Known asm e] : Safe asm (nativeValue asm e) := by
  unfold nativeValue
  infer_instance

instance (type : TypeId) (array index : Element) [Known asm index] :
    Safe asm (elementAddress asm type array index) := by
  unfold elementAddress
  infer_instance

end Values

section Calls

variable [asm.Closed]

instance (callee : MethodDef) (args : List Element) [Known asm callee] [hargs : Known asm args] :
    Safe asm (coerceArgs asm callee args) := by
  unfold coerceArgs
  refine Safe.seq inferInstance fun sigs _ => ?_
  refine Safe.mapM_known inferInstance fun (sig, arg) h => ?_
  have := h.out.1
  have := h.out.2
  infer_instance

instance (owner : TypeDefId) (slot : MethodId) [Known asm owner] :
    Safe asm (slotPlace asm owner slot) := by
  unfold slotPlace
  refine Safe.seq inferInstance fun vtable _ => ?_
  split <;> infer_instance

instance (object : Element) (owner : TypeDefId) (table : TypeId) [Known asm owner] :
    Safe asm (loadClassTable asm object owner table) := by
  unfold loadClassTable
  infer_instance

set_option synthInstance.maxSize 1024 in
instance (object : Element) (iface : TypeDefId) (table : TypeId) [Known asm iface] :
    Safe asm (loadInterfaceTable asm object iface table) := by
  unfold loadInterfaceTable
  infer_instance

instance (ctor : MethodId) (object : ValueId) (args : List Element) [Known asm ctor]
    [Known asm args] : Safe asm (construct asm ctor object args) := by
  unfold construct
  dsimp only
  infer_instance

instance (ctor : MethodId) (ty : TypeDefId) (args : List Element) [Known asm ctor] [Known asm ty]
    [Known asm args] : Safe asm (newReference asm ctor ty args) := by
  unfold newReference
  refine Safe.seq inferInstance fun f _ => Safe.seq inferInstance fun object _ => ?_
  split <;> infer_instance

instance (ctor : MethodId) (ty : TypeDefId) (args : List Element) [Known asm ctor] [Known asm ty]
    [Known asm args] : Safe asm (newValue asm ctor ty args) := by
  unfold newValue
  infer_instance

end Calls

end Emit

section States

instance : HoldsIds Variable := ⟨fun asm v => Known asm v.sig⟩

instance : HoldsIds ElementSource := ⟨fun asm source => Known asm source.sigs⟩

instance : HoldsIds Leader := ⟨fun asm l => Known asm l.incoming⟩

instance : HoldsIds EmitState :=
  ⟨fun asm s => Known asm s.session ∧ Known asm s.stack ∧ Known asm s.leaders⟩

instance (v : Variable) [h : Known asm v] : Known asm v.sig := h.out

instance (pointer : ValueId) (sig : TypeSig) (type : TypeId) [h : Known asm sig] :
    Known asm (⟨pointer, sig, type⟩ : Variable) :=
  ⟨h⟩

instance (l : Leader) [h : Known asm l] : Known asm l.incoming := h.out

instance (index : Nat) (block : BlockId) (refers : Nat) (incoming : EvalStack)
    [h : Known asm incoming] : Known asm (⟨index, block, refers, incoming⟩ : Leader) :=
  ⟨h⟩

instance (s : EmitState) [h : Known asm s] : Known asm s.session := h.out.1

instance (s : EmitState) [h : Known asm s] : Known asm s.stack := h.out.2.1

instance (s : EmitState) [h : Known asm s] : Known asm s.leaders := h.out.2.2

instance (session : Session) (stack : EvalStack) (leaders : List Leader) (current : BlockId)
    [hsession : Known asm session] [hstack : Known asm stack] [hleaders : Known asm leaders] :
    Known asm (⟨session, stack, leaders, current⟩ : EmitState) :=
  ⟨hsession, hstack, hleaders⟩

instance : HoldsIds Frame :=
  ⟨fun asm frame => Known asm frame.method ∧ Known asm frame.args ∧ Known asm frame.locals⟩

instance : HoldsIds Site := ⟨fun asm site => Known asm site.toFrame ∧ Known asm site.instr⟩

instance (site : Site) [h : Known asm site] : Known asm site.method := h.out.1.out.1

instance (site : Site) [h : Known asm site] : Known asm site.args := h.out.1.out.2.1

instance (site : Site) [h : Known asm site] : Known asm site.locals := h.out.1.out.2.2

instance (site : Site) [h : Known asm site] : Known asm site.instr := h.out.2

end States

namespace Emit

section Steps

variable {α : Type} [HoldsIds α]

instance (x : Lower α) [h : Safe asm x] : Safe asm (lower x) := by
  refine ⟨fun s hs => ?_⟩
  unfold lower
  cases hrun : x s.session with
  | ok a session =>
      obtain ⟨ha, hsession⟩ := h.result inferInstance hrun
      exact ⟨ha, inferInstance⟩
  | error stop session => exact h.stop inferInstance hrun

instance (x : Lower α) [h : Safe asm (lower x)] : Safe asm (liftM x : Emit α) := h

instance (x : Build α) [h : Safe asm (lower (Lower.build x))] : Safe asm (liftM x : Emit α) := h

instance (error : LoweringError) : Safe asm (fail error : Emit α) := by
  unfold fail
  infer_instance

variable (site : Site)

instance (problem : OperandProblem) : Safe asm (malformed site problem : Emit α) := by
  unfold malformed
  infer_instance

instance (e : Element) [Known asm e] : Safe asm (push e) := by
  unfold push
  infer_instance

instance : Safe asm (pop site) := by
  unfold pop
  refine Safe.seq inferInstance fun s hs => ?_
  cases hpop : s.stack.pop? with
  | none => infer_instance
  | some popped =>
      obtain ⟨e, stack⟩ := popped
      have hpopped : Known asm (e, stack) := Known.of_eq_some hpop
      have := hpopped.out.1
      have := hpopped.out.2
      infer_instance

instance (count : Nat) (above : List Element) [h : Known asm above] :
    Safe asm (popOnto site count above) := by
  induction count generalizing above h with
  | zero => exact Safe.pure above
  | succ count ih => exact Safe.seq inferInstance fun e _ => ih (e :: above)

instance (count : Nat) : Safe asm (popN site count) := by
  unfold popN
  infer_instance

instance : Safe asm (targetOperand site) := by
  unfold targetOperand
  split <;> infer_instance

instance (position : Nat) (incoming : EvalStack) [Known asm incoming] :
    Safe asm (setIncoming position incoming) := by
  have hleaders (s : Item asm EmitState) : Known asm (s.val.leaders.map fun l =>
      if l.index = position then { l with incoming } else l) :=
    (inferInstance : Known asm s.val.leaders).each fun _ _ => inferInstance
  unfold setIncoming
  infer_instance

instance (s : EmitState) (position : Nat) [h : Known asm s] : Known asm (leader? s position) :=
  ⟨fun _ hl => h.out.2.2.out _ (List.mem_of_find?_eq_some hl)⟩

end Steps

section Sites

variable (site : Site) [Known site.asm site]

instance : Safe site.asm (fieldOperand site) := by
  unfold fieldOperand
  have hoperand : Known site.asm site.instr.operand := inferInstance
  cases h : site.instr.operand with
  | field f =>
      have := (h ▸ hoperand : Known site.asm (Operand.field f)).ofField
      infer_instance
  | _ => infer_instance

instance : Safe site.asm (methodOperand site) := by
  unfold methodOperand
  have hoperand : Known site.asm site.instr.operand := inferInstance
  cases h : site.instr.operand with
  | method m =>
      have := (h ▸ hoperand : Known site.asm (Operand.method m)).ofMethod
      infer_instance
  | _ => infer_instance

instance : Safe site.asm (typeOperand site) := by
  unfold typeOperand
  have hoperand : Known site.asm site.instr.operand := inferInstance
  cases h : site.instr.operand with
  | type sig =>
      have := (h ▸ hoperand : Known site.asm (Operand.type sig)).ofType
      infer_instance
  | _ => infer_instance

variable [site.asm.Closed]

instance (position : Nat) : Safe site.asm (reconcile site position) := by
  unfold reconcile
  refine Safe.seq inferInstance fun s hs => ?_
  cases hleader : leader? s position with
  | none => infer_instance
  | some l =>
      have : Known site.asm l := Known.of_eq_some hleader
      infer_instance

instance enterBlock_safe : Safe site.asm (enterBlock site) := by
  have henter (s : EmitState) (hs : Known site.asm s) : Safe site.asm (
      match leader? s site.index with
      | none => malformed site (.targetNotInstruction site.index)
      | some l => do
          modify fun s => { s with current := l.block, stack := l.incoming.snapshot }
          Build.positionAtEnd l.block : Emit Unit) := by
    cases hleader : leader? s site.index with
    | none => infer_instance
    | some l =>
        have : Known site.asm l := Known.of_eq_some hleader
        infer_instance
  unfold enterBlock
  dsimp only
  refine Safe.seq inferInstance fun s _ => Safe.seq inferInstance fun terminated _ => ?_
  split
  · exact Safe.seq inferInstance fun block _ => Safe.seq inferInstance fun _ _ =>
      Safe.seq inferInstance henter
  · exact Safe.seq inferInstance henter

section Operators

instance (op : BinaryOp) : Safe site.asm (binary site op) := by
  unfold binary
  refine Safe.seq inferInstance fun rhs _ => Safe.seq inferInstance fun lhs _ => ?_
  split
  · split <;> infer_instance
  · infer_instance

instance (op : Element → UnaryOp) : Safe site.asm (unary site op) := by
  unfold unary
  infer_instance

instance : Safe site.asm (negate site) := inferInstanceAs (Safe site.asm (unary site _))

instance : Safe site.asm (complement site) := inferInstanceAs (Safe site.asm (unary site _))

instance : Safe site.asm (duplicate site) := by
  unfold duplicate
  infer_instance

instance : Safe site.asm (discard site) := by
  unfold discard
  infer_instance

instance (relation : Relation) (unsigned : Bool) :
    Safe site.asm (compare site relation unsigned) := by
  unfold compare
  infer_instance

instance (target : TypeSig) (unsignedSource : Bool) [Known site.asm target] :
    Safe site.asm (convert site target unsignedSource) := by
  unfold convert
  infer_instance

end Operators

section Variables

instance (kind : VariableKind) (fixed : Option Nat) :
    Safe site.asm (variable_ site kind fixed) := by
  have hslots {slots : List Variable} (hslots : Known site.asm slots) {position : Option Nat}
      {v : Variable} (hv : position.bind (slots[·]?) = some v) : Known site.asm v := by
    obtain ⟨index, -, hindex⟩ := Option.bind_eq_some_iff.mp hv
    exact hslots.out v (List.mem_of_getElem? hindex)
  cases kind <;>
  · unfold variable_
    dsimp only
    split
    · rename_i hv
      have := hslots inferInstance hv
      infer_instance
    · infer_instance

instance (kind : VariableKind) (fixed : Option Nat) :
    Safe site.asm (loadVariable site kind fixed) := by
  unfold loadVariable
  infer_instance

instance (kind : VariableKind) : Safe site.asm (loadVariableAddress site kind) := by
  unfold loadVariableAddress
  infer_instance

instance (kind : VariableKind) (fixed : Option Nat) :
    Safe site.asm (storeVariable site kind fixed) := by
  unfold storeVariable
  infer_instance

end Variables

section Constants

theorem constantElement?_safe {source : ConstantSource} {operand : Operand} {action : Build Element}
    (h : constantElement? source operand = some action) : Safe asm action := by
  unfold constantElement? at h
  split at h <;> cases h <;> infer_instance

instance (source : ConstantSource) : Safe site.asm (loadConstant site source) := by
  unfold loadConstant
  split
  · rename_i action haction
    have : Safe site.asm action := constantElement?_safe haction
    infer_instance
  · infer_instance

instance : Safe site.asm loadNull := by
  unfold loadNull
  infer_instance

instance : Safe site.asm (loadString site) := by
  unfold loadString
  split <;> infer_instance

instance : Safe site.asm (loadSize site) := by
  unfold loadSize
  infer_instance

end Constants

section Memory

instance (sig : TypeSig) [Known site.asm sig] : Safe site.asm (loadThrough site sig) := by
  unfold loadThrough
  infer_instance

instance (type : TypeId) (value address : Element) [Known site.asm value] :
    Safe site.asm (storeThrough site type value address) := by
  unfold storeThrough
  infer_instance

instance (sig : Option TypeSig) [h : Known site.asm sig] :
    Safe site.asm (loadIndirect site sig) := by
  have hsig (s : Item site.asm EmitState) :
      Known site.asm (sig.getD (pointedSig s.val.stack.peek?)) := by
    cases sig with
    | none => exact inferInstanceAs (Known site.asm (pointedSig s.val.stack.peek?))
    | some sig => exact h.ofSome
  unfold loadIndirect
  dsimp only
  infer_instance

instance (sig : Option TypeSig) [h : Known site.asm sig] :
    Safe site.asm (storeIndirect site sig) := by
  unfold storeIndirect
  cases sig with
  | none => infer_instance
  | some sig =>
      have := h.ofSome
      infer_instance

instance : Safe site.asm (loadObject site) := by
  unfold loadObject
  infer_instance

instance : Safe site.asm (storeObject site) := by
  unfold storeObject
  infer_instance

instance : Safe site.asm (initObject site) := by
  unfold initObject
  infer_instance

end Memory

section Fields

set_option synthInstance.maxSize 256 in
instance (f : FieldId) (object : Element) [Known site.asm f] :
    Safe site.asm (fieldAddress site f object) := by
  unfold fieldAddress
  infer_instance

instance (sig : TypeSig) (address : ValueId) [Known site.asm sig] :
    Safe site.asm (pushLoaded site sig address) := by
  unfold pushLoaded
  infer_instance

instance (sig : TypeSig) (address : ValueId) [Known site.asm sig] :
    Safe site.asm (pushAddress sig address) := by
  unfold pushAddress
  infer_instance

instance : Safe site.asm (loadField site) := by
  unfold loadField
  infer_instance

instance : Safe site.asm (loadFieldAddress site) := by
  unfold loadFieldAddress
  infer_instance

set_option synthInstance.maxSize 512 in
instance : Safe site.asm (storeField site) := by
  unfold storeField
  infer_instance

instance : Safe site.asm (loadStatic site) := by
  unfold loadStatic
  infer_instance

instance : Safe site.asm (loadStaticAddress site) := by
  unfold loadStaticAddress
  infer_instance

instance (sig : TypeSig) (type : TypeId) (value : ValueId) [Known site.asm sig] :
    Safe site.asm (initialConstant? site sig type value) := by
  unfold initialConstant?
  infer_instance

instance : Safe site.asm (storeStatic site) := by
  unfold storeStatic
  dsimp only
  refine Safe.seq inferInstance fun f _ => Safe.seq inferInstance fun value _ =>
    Safe.seq inferInstance fun global _ => Safe.seq inferInstance fun d _ =>
    Safe.seq inferInstance fun type _ => Safe.seq inferInstance fun constant _ => ?_
  cases constant with
  | none => infer_instance
  | some constant =>
      refine Safe.seq inferInstance fun folded _ => ?_
      cases folded <;> infer_instance

end Fields

section Calls

instance (callee : MethodDef) (result : Option ValueId) [Known site.asm callee] :
    Safe site.asm (pushResult site callee result) := by
  unfold pushResult
  split <;> infer_instance

instance (target : MethodId) [Known site.asm target] : Safe site.asm (callDirect site target) := by
  unfold callDirect
  infer_instance

instance : Safe site.asm (call site) := by
  unfold call
  infer_instance

set_option synthInstance.maxSize 1024 in
instance (slot : MethodId) [Known site.asm slot] : Safe site.asm (callSlot site slot) := by
  unfold callSlot
  dsimp only
  refine Safe.seq inferInstance fun callee _ => Safe.seq inferInstance fun args hargs => ?_
  cases args with
  | nil => infer_instance
  | cons object rest => infer_instance

instance : Safe site.asm (callVirtual site) := by
  unfold callVirtual
  refine Safe.seq inferInstance fun target _ => Safe.seq inferInstance fun slot hslot => ?_
  cases slot with
  | none => infer_instance
  | some slot =>
      have := hslot.ofSome
      infer_instance

instance : Safe site.asm (newObject site) := by
  unfold newObject
  dsimp only
  refine Safe.seq inferInstance fun ctor _ => Safe.seq inferInstance fun d _ =>
    Safe.seq inferInstance fun args _ => Safe.seq inferInstance fun kind _ => ?_
  cases kind <;> infer_instance

end Calls

section Arrays

instance (source : ElementSource) (array : Element) [h : Known site.asm source]
    [Known site.asm array] : Safe site.asm (elementSig site source array) := by
  cases source with
  | fixed sig =>
      have : Known site.asm sig := h.out.head
      unfold elementSig
      infer_instance
  | _ =>
      unfold elementSig
      infer_instance

set_option synthInstance.maxSize 256 in
instance : Safe site.asm (newArray site) := by
  unfold newArray
  infer_instance

instance : Safe site.asm (loadElementAddress site) := by
  unfold loadElementAddress
  infer_instance

instance (source : ElementSource) [Known site.asm source] :
    Safe site.asm (loadElement site source) := by
  unfold loadElement
  infer_instance

set_option synthInstance.maxSize 256 in
instance (source : ElementSource) [Known site.asm source] :
    Safe site.asm (storeElement site source) := by
  unfold storeElement
  cases source <;> infer_instance

end Arrays

section Branches

instance (cond : ValueId) (target : Nat) : Safe site.asm (conditional site cond target) := by
  unfold conditional
  dsimp only
  infer_instance

instance : Safe site.asm (branch site) := by
  unfold branch
  infer_instance

instance (onZero : Bool) : Safe site.asm (branchIf site onZero) := by
  unfold branchIf
  infer_instance

instance (relation : Relation) (unsigned : Bool) :
    Safe site.asm (compareBranch site relation unsigned) := by
  unfold compareBranch
  infer_instance

instance (known : List (Nat × BlockId)) (position : Nat) :
    Safe site.asm (edge site known position) := by
  unfold edge
  split <;> infer_instance

instance (known : List (Nat × BlockId)) (case : Nat) (positions : List Nat) :
    Safe site.asm (switchCases site known case positions) := by
  induction positions generalizing known case with
  | nil => exact Safe.pure (known, [])
  | cons position rest ih =>
      exact Safe.seq inferInstance fun _ _ => Safe.seq (ih _ _) fun _ _ => inferInstance

instance : Safe site.asm (switch site) := by
  unfold switch
  split
  · refine Safe.seq inferInstance fun selector _ => Safe.seq inferInstance fun type _ =>
      Safe.seq inferInstance fun signed _ => Safe.seq inferInstance fun value _ =>
      Safe.seq inferInstance fun (known, cases) _ => ?_
    exact Safe.seq inferInstance fun (_, default) _ => inferInstance
  · infer_instance

instance : Safe site.asm (ret site) := by
  unfold ret
  dsimp only
  infer_instance

end Branches

theorem perform_safe {action : Action} (h : ∀ sig ∈ action.sigs, Known site.asm sig) :
    Safe site.asm (perform site action) := by
  cases action with
  | convert target unsignedSource =>
      have := h target List.mem_cons_self
      unfold perform
      infer_instance
  | loadIndirect sig | storeIndirect sig =>
      have : Known site.asm sig := ⟨fun inner hinner => h inner (Option.mem_toList.mpr hinner)⟩
      unfold perform
      infer_instance
  | loadElement source | storeElement source =>
      have : Known site.asm source := ⟨⟨h⟩⟩
      unfold perform
      infer_instance
  | _ =>
      unfold perform
      infer_instance

instance instruction_safe : Safe site.asm (instruction site) := by
  unfold instruction
  split
  · rename_i action haction
    exact perform_safe site fun sig hsig => Known.sig (mentions_of_dispatch haction hsig)
  · infer_instance
  · infer_instance

end Sites

instance (frame : Frame) (index : Nat) (instrs : List Instruction) [frame.asm.Closed]
    [hframe : Known frame.asm frame] [h : Known frame.asm instrs] :
    Safe frame.asm (instructions frame index instrs) := by
  induction instrs generalizing index h with
  | nil => exact Safe.pure ()
  | cons instr rest ih =>
      have := h.tail
      have hsite : Known frame.asm ({ frame with index, instr } : Site) := ⟨hframe, h.head⟩
      have hinstr : Safe frame.asm (instruction { frame with index, instr }) :=
        instruction_safe { frame with index, instr }
      have henter : Safe frame.asm (enterBlock { frame with index, instr }) :=
        enterBlock_safe { frame with index, instr }
      unfold instructions
      dsimp only
      infer_instance

end Emit

end Lowering

end CilSsa
