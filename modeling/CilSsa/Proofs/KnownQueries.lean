import CilSsa.Lowering.Method
import CilSsa.Proofs.KnownIds

/-!
Questions about an assembly in which everything that is referred to exists.

The definition of a known id exists and holds known ids, so walks along bases and interfaces, the
resolution of slots and the names of the module meet no dangling id.
-/

namespace CilSsa

open Ssa Metadata Lowering

section Definitions

instance : HoldsIds TypeDefId := ⟨fun asm id => asm.HasType id⟩

instance : HoldsIds FieldId := ⟨fun asm id => asm.HasField id⟩

instance : HoldsIds MethodId := ⟨fun asm id => asm.HasMethod id⟩

instance : HoldsIds TypeSig := ⟨fun asm sig => asm.HasSig sig⟩

instance : HoldsIds Operand := ⟨fun asm operand => asm.HasOperand operand⟩

instance : HoldsIds Instruction := ⟨fun asm instr => Known asm instr.operand⟩

instance : HoldsIds Param := ⟨fun asm p => Known asm p.sig⟩

instance : HoldsIds MethodBody :=
  ⟨fun asm body => Known asm body.locals ∧ Known asm body.instructions⟩

instance : HoldsIds TypeDef := ⟨fun asm d => asm.ClosedType d⟩

/-- That the declaring types of fields exist is known of closed assemblies only. -/
instance : HoldsIds FieldDef :=
  ⟨fun asm d => asm.HasSig d.sig ∧ (asm.Closed → asm.HasType d.declaringType)⟩

instance : HoldsIds MethodDef := ⟨fun asm d => asm.ClosedMethod d⟩

variable {asm : Assembly}

instance (d : TypeDef) [h : Known asm d] : Known asm d.base :=
  ⟨fun base hbase => ⟨h.out.base base hbase⟩⟩

instance (d : TypeDef) [h : Known asm d] : Known asm d.interfaces :=
  ⟨fun iface hiface => ⟨h.out.interfaces iface hiface⟩⟩

instance (d : TypeDef) [h : Known asm d] : Known asm d.fields := ⟨fun f hf => ⟨h.out.fields f hf⟩⟩

instance (d : TypeDef) [h : Known asm d] : Known asm d.methods := ⟨fun m hm => ⟨h.out.methods m hm⟩⟩

instance (d : FieldDef) [h : Known asm d] : Known asm d.sig := ⟨h.out.1⟩

instance [hclosed : asm.Closed] (d : FieldDef) [h : Known asm d] : Known asm d.declaringType :=
  ⟨h.out.2 hclosed⟩

instance (d : MethodDef) [h : Known asm d] : Known asm d.declaringType := ⟨h.out.declaringType⟩

instance (d : MethodDef) [h : Known asm d] : Known asm d.returnType := ⟨h.out.returnType⟩

instance (p : Param) [h : Known asm p] : Known asm p.sig := h.out

instance (d : MethodDef) [h : Known asm d] : Known asm d.params :=
  ⟨fun p hp => ⟨⟨h.out.params p hp⟩⟩⟩

instance (d : MethodDef) [h : Known asm d] : Known asm d.body :=
  ⟨fun body hbody => ⟨⟨fun sig hsig => ⟨h.out.locals body hbody sig hsig⟩⟩,
    ⟨fun instr hinstr => ⟨⟨h.out.operands body hbody instr hinstr⟩⟩⟩⟩⟩

instance (body : MethodBody) [h : Known asm body] : Known asm body.locals := h.out.1

instance (body : MethodBody) [h : Known asm body] : Known asm body.instructions := h.out.2

instance (instr : Instruction) [h : Known asm instr] : Known asm instr.operand := h.out

theorem Known.ofField {f : FieldId} (h : Known asm (Operand.field f)) : Known asm f := ⟨h.out⟩

theorem Known.ofMethod {m : MethodId} (h : Known asm (Operand.method m)) : Known asm m := ⟨h.out⟩

theorem Known.ofType {sig : TypeSig} (h : Known asm (Operand.type sig)) : Known asm sig := ⟨h.out⟩

end Definitions

section Signatures

variable {asm : Assembly}

/-- A signature without names of types. -/
theorem Known.sig {sig : TypeSig} (h : sig.mentions = []) : Known asm sig :=
  ⟨fun _ hid => absurd (h ▸ hid) List.not_mem_nil⟩

instance : Known asm TypeSig.i4 := Known.sig rfl

instance : Known asm TypeSig.i8 := Known.sig rfl

instance : Known asm TypeSig.r4 := Known.sig rfl

instance : Known asm TypeSig.r8 := Known.sig rfl

instance : Known asm TypeSig.intPtr := Known.sig rfl

instance : Known asm TypeSig.string := Known.sig rfl

instance : Known asm TypeSig.object := Known.sig rfl

instance (id : TypeDefId) [h : Known asm id] : Known asm (TypeSig.named id) :=
  ⟨fun _ hmem => List.mem_singleton.mp hmem ▸ h.out⟩

theorem Known.ofNamed {id : TypeDefId} (h : Known asm (TypeSig.named id)) : Known asm id :=
  ⟨h.out id List.mem_cons_self⟩

theorem Known.element {sig inner : TypeSig} [h : Known asm sig]
    (hinner : sig.element? = some inner) : Known asm inner := by
  cases sig with
  | pointer element | byRef element | array element => exact ⟨Option.some.inj hinner ▸ h.out⟩
  | _ => exact nomatch hinner

instance (sig : TypeSig) [h : Known asm sig] : Known asm (TypeSig.byRef sig) := ⟨h.out⟩

instance (sig : TypeSig) [h : Known asm sig] : Known asm (TypeSig.array sig) := ⟨h.out⟩

end Signatures

section Access

variable {asm : Assembly}

theorem Arena.entry_safe {α : Type} [HoldsIds α] {arena : Arena} {entries : Array α} {index : Nat}
    (hlt : index < entries.size) (hentries : ∀ a ∈ entries, Known asm a) :
    Safe asm (arena.entry entries index) := by
  have hentry : arena.entry entries index = .ok entries[index] :=
    Arena.entry_eq_ok_iff.mpr (Array.getElem?_eq_getElem hlt)
  rw [hentry]
  exact ⟨hentries _ (Array.getElem_mem hlt)⟩

variable [hlinked : asm.Linked]

instance (id : TypeDefId) [h : Known asm id] : Safe asm (asm.typeDef id) :=
  Arena.entry_safe h.out fun d hd => ⟨hlinked.types d hd⟩

instance (id : FieldId) [h : Known asm id] : Safe asm (asm.field id) :=
  Arena.entry_safe h.out fun d hd =>
    ⟨hlinked.fields d hd, fun hclosed => hclosed.declaringTypes d hd⟩

instance (id : MethodId) [h : Known asm id] : Safe asm (asm.method id) :=
  Arena.entry_safe h.out fun d hd => ⟨hlinked.methods d hd⟩

instance (ty : TypeDefId) (name : String) [Known asm ty] : Safe asm (asm.methodNamed ty name) := by
  unfold Assembly.methodNamed
  infer_instance

instance (ty : TypeDefId) (name : String) [Known asm ty] : Safe asm (asm.fieldNamed ty name) := by
  unfold Assembly.fieldNamed
  infer_instance

instance (id : TypeDefId) [Known asm id] : Safe asm (asm.typeName id) := by
  unfold Assembly.typeName
  infer_instance

instance (id : TypeDefId) [Known asm id] : Safe asm (asm.kindOf id) := by
  unfold Assembly.kindOf
  infer_instance

instance (d : MethodDef) [Known asm d] : Safe asm (asm.qualifiedName d) := by
  unfold Assembly.qualifiedName
  infer_instance

instance (sig : TypeSig) [h : Known asm sig] : Safe asm (asm.sigName sig) := by
  induction sig generalizing h with
  | named id =>
      have := h.ofNamed
      unfold Assembly.sigName
      infer_instance
  | pointer inner ih | byRef inner ih | array inner ih =>
      have := @ih ⟨h.out⟩
      unfold Assembly.sigName
      infer_instance
  | _ =>
      unfold Assembly.sigName
      infer_instance

end Access

section Hierarchy

instance : HoldsIds BaseChain :=
  ⟨fun asm chain => Known asm chain.types ∧
    ∀ fault, chain.broken = some fault → fault.isDangling = false⟩

variable {asm : Assembly}

instance (chain : BaseChain) (ty : TypeDefId) [h : Known asm chain] [hty : Known asm ty] :
    Known asm (chain.below ty) :=
  ⟨⟨List.forall_mem_cons.mpr ⟨hty, h.out.1.out⟩⟩, h.out.2⟩

instance {α : Type} [HoldsIds α] (chain : BaseChain) (value : α) [h : Known asm chain]
    [hvalue : Known asm value] : Safe asm (chain.atEnd value) := by
  unfold BaseChain.atEnd
  cases hbroken : chain.broken with
  | some fault => exact ⟨h.out.2 fault hbroken⟩
  | none => exact ⟨hvalue⟩

instance (chain : BaseChain) [h : Known asm chain] : Safe asm chain.toList := by
  have := h.out.1
  unfold BaseChain.toList
  infer_instance

instance {α : Type} [HoldsIds α] (chain : BaseChain) [h : Known asm chain]
    (answer : TypeDefId → Except Fault (Option α))
    [∀ ty : Item asm TypeDefId, Safe asm (answer ty.val)] : Safe asm (chain.findSome answer) := by
  have := h.out.1
  unfold BaseChain.findSome
  refine Safe.seq inferInstance fun found hfound => ?_
  cases found <;> infer_instance

variable [asm.Linked]

instance (fuel : Nat) (seen : List TypeDefId) (next : Option TypeDefId) [h : Known asm next] :
    Known asm (asm.chainFrom fuel seen next) := by
  have hend : Known asm (⟨[], none⟩ : BaseChain) := ⟨inferInstance, fun _ h => nomatch h⟩
  induction fuel generalizing h seen next with
  | zero => exact hend
  | succ fuel ih =>
      cases next with
      | none => exact hend
      | some ty =>
          have := h.ofSome
          have hsafe : Safe asm (asm.typeDef ty) := inferInstance
          unfold Assembly.chainFrom
          split
          · exact hend
          · split
            · rename_i fault hfault
              exact ⟨inferInstance, fun _ heq => Option.some.inj heq ▸ hsafe.reason hfault⟩
            · rename_i d hd
              have := hsafe.answer hd
              have := ih (ty :: seen) d.base
              infer_instance

instance (ty : TypeDefId) [Known asm ty] : Safe asm (asm.ancestors ty) := by
  unfold Assembly.ancestors
  infer_instance

instance (ty : TypeDefId) [Known asm ty] : Safe asm (asm.selfAndAncestors ty) := by
  unfold Assembly.selfAndAncestors
  infer_instance

instance (fuel : Nat) (found pending : List TypeDefId) [hfound : Known asm found]
    [hpending : Known asm pending] : Safe asm (asm.closeInterfaces fuel found pending) := by
  induction fuel generalizing hfound hpending found pending with
  | zero => exact ⟨hfound⟩
  | succ fuel ih =>
      cases pending with
      | nil => exact ⟨hfound⟩
      | cons ty pending =>
          have := hpending.head
          have := hpending.tail
          unfold Assembly.closeInterfaces
          split
          · infer_instance
          · exact Safe.seq inferInstance fun d hd => ih (found ++ [ty]) (d.interfaces ++ pending)

instance (found types : List TypeDefId) [hfound : Known asm found] [htypes : Known asm types] :
    Safe asm (asm.interfacesOf found types) := by
  induction types generalizing hfound htypes found with
  | nil => exact ⟨hfound⟩
  | cons ty rest ih =>
      have := htypes.head
      have := htypes.tail
      exact Safe.seq inferInstance fun d hd => Safe.seq inferInstance fun found hfound => ih found

instance (ty : TypeDefId) [Known asm ty] : Safe asm (asm.allInterfaces ty) := by
  unfold Assembly.allInterfaces
  infer_instance

end Hierarchy

section Slots

instance : HoldsIds SlotStep := ⟨fun asm step => match step with
  | .settled slot => Known asm slot
  | .overrides base => Known asm base⟩

variable {asm : Assembly}

instance (slot : Option MethodId) [h : Known asm slot] : Known asm (SlotStep.settled slot) := ⟨h⟩

instance (base : MethodId) [h : Known asm base] : Known asm (SlotStep.overrides base) := ⟨h⟩

variable [asm.Linked]

instance (d : MethodDef) (ty : TypeDefId) [Known asm ty] : Safe asm (asm.virtualLike d ty) := by
  unfold Assembly.virtualLike
  infer_instance

instance (m : MethodId) [Known asm m] : Safe asm (asm.slotStep m) := by
  unfold Assembly.slotStep
  refine Safe.seq inferInstance fun d hd => Safe.seq inferInstance fun owner _ => ?_
  split
  · infer_instance
  · split
    · infer_instance
    · split
      · infer_instance
      · refine Safe.seq inferInstance fun chain _ => Safe.seq inferInstance fun base hbase => ?_
        cases base with
        | some base =>
            have := hbase.ofSome
            infer_instance
        | none => infer_instance

instance (fuel : Nat) (m : MethodId) [h : Known asm m] : Safe asm (asm.slotAfter fuel m) := by
  induction fuel generalizing h m with
  | zero => exact ⟨rfl⟩
  | succ fuel ih =>
      refine Safe.seq inferInstance fun step hstep => ?_
      cases step with
      | settled slot => exact ⟨hstep.out⟩
      | overrides base => exact @ih base hstep.out

instance (m : MethodId) [Known asm m] : Safe asm (asm.slotMethod m) := by
  unfold Assembly.slotMethod
  infer_instance

instance (m : MethodId) [Known asm m] : Safe asm (asm.introducesSlot m) := by
  unfold Assembly.introducesSlot
  infer_instance

instance (ty : TypeDefId) [Known asm ty] : Safe asm (asm.introducedSlots ty) := by
  unfold Assembly.introducedSlots
  infer_instance

instance (slot : MethodId) (slotDef : MethodDef) (interfaceSlot : Bool) (m : MethodId)
    [Known asm m] : Safe asm (asm.fills slot slotDef interfaceSlot m) := by
  unfold Assembly.fills
  infer_instance

instance (ty : TypeDefId) (slot : MethodId) [Known asm ty] [Known asm slot] :
    Safe asm (asm.implementation ty slot) := by
  unfold Assembly.implementation
  dsimp only
  infer_instance

end Slots

namespace Lowering

variable {asm : Assembly}

instance [asm.Linked] (instr : Instruction) [h : Known asm instr] :
    Safe asm (virtualOwner? asm instr) := by
  unfold virtualOwner?
  split
  · rename_i target _ hoperand
    have : Known asm target := (hoperand ▸ h.out : Known asm (Operand.method target)).ofMethod
    refine Safe.seq inferInstance fun slot hslot => ?_
    cases slot with
    | none => infer_instance
    | some slot =>
        have := hslot.ofSome
        dsimp only
        infer_instance
  · infer_instance

variable [asm.Closed]

section Names

instance (ty : TypeDefId) [Known asm ty] : Safe asm (Names.type asm ty) := by
  unfold Names.type
  infer_instance

instance (sig : TypeSig) [Known asm sig] : Safe asm (Names.sig asm sig) := by
  unfold Names.sig
  infer_instance

instance (m : MethodId) [Known asm m] : Safe asm (Names.method asm m) := by
  unfold Names.method
  infer_instance

instance (f : FieldId) [Known asm f] : Safe asm (Names.staticField asm f) := by
  unfold Names.staticField
  infer_instance

instance (ty : TypeDefId) [Known asm ty] : Safe asm (Names.newobj asm ty) := by
  unfold Names.newobj
  infer_instance

instance (owner : TypeDefId) [Known asm owner] : Safe asm (Names.vtableType asm owner) := by
  unfold Names.vtableType
  infer_instance

instance (cls owner : TypeDefId) [Known asm cls] [Known asm owner] :
    Safe asm (Names.vtableInstance asm cls owner) := by
  unfold Names.vtableInstance
  infer_instance

instance (cls iface : TypeDefId) [Known asm cls] [Known asm iface] :
    Safe asm (Names.interfaceTable asm cls iface) := by
  unfold Names.interfaceTable
  infer_instance

instance (cls : TypeDefId) [Known asm cls] : Safe asm (Names.indirectionTable asm cls) := by
  unfold Names.indirectionTable
  infer_instance

end Names

section Signatures

instance (ty : TypeDefId) [Known asm ty] : Safe asm (thisSig asm ty) := by
  unfold thisSig
  refine Safe.seq inferInstance fun kind _ => ?_
  cases kind <;> infer_instance

instance (params : List Param) [h : Known asm params] : Known asm (params.map Param.sig) :=
  h.each fun _ _ => inferInstance

instance (d : MethodDef) [Known asm d] : Safe asm (argSigs asm d) := by
  unfold argSigs
  dsimp only
  infer_instance

instance (ty : TypeDefId) [Known asm ty] : Safe asm (enumUnderlying asm ty) := by
  unfold enumUnderlying
  refine Safe.seq inferInstance fun d hd => Safe.seq inferInstance fun stored hstored => ?_
  cases stored with
  | some sig => exact ⟨hstored.ofSome⟩
  | none => exact ⟨inferInstanceAs (Known asm TypeSig.i4)⟩

instance (sig : TypeSig) [h : Known asm sig] : Safe asm (underlying asm sig) := by
  unfold underlying
  split
  · have := h.ofNamed
    infer_instance
  · infer_instance

instance (sig : TypeSig) [Known asm sig] : Safe asm (stackSig asm sig) := by
  unfold stackSig
  refine Safe.seq inferInstance fun sig hsig => ?_
  split <;> infer_instance

instance (sig : TypeSig) [Known asm sig] : Safe asm (isSigned asm sig) := by
  unfold isSigned
  infer_instance

end Signatures

section Types

instance (d : TypeDef) [Known asm d] : Safe asm (dependencies asm d) := by
  unfold dependencies
  refine Safe.seq (Safe.filterMapM_known inferInstance fun f hf => ?_) fun embedded hembedded => ?_
  · refine Safe.seq inferInstance fun field hfield => ?_
    split
    · rename_i inner hsig
      have hknown : Known asm field.sig := inferInstance
      rw [hsig] at hknown
      have := hknown.ofNamed
      infer_instance
    · infer_instance
  · infer_instance

instance (cls : TypeDefId) [Known asm cls] : Safe asm (slotOwners asm cls) := by
  unfold slotOwners
  infer_instance

instance (sig : TypeSig) [Known asm sig] : Safe asm (Emit.foldable asm sig) := by
  unfold Emit.foldable
  infer_instance

end Types

end Lowering

end CilSsa
