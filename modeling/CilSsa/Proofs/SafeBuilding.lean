import CilSsa.Lowering.Session
import CilSsa.Proofs.KnownIds

/-!
Modules hold no ids of the metadata.

Whatever a question about a module or an action of the builder stops for, it is an id of the module
itself.
-/

namespace CilSsa.Ssa

open Metadata

variable {asm : Assembly}

namespace Module

variable (m : Module)

section Access

theorem entry_safe {α : Type} [HoldsIds α] (hknown : ∀ a : α, Known asm a) {arena : Arena}
    (harena : ∀ index, (Fault.outOfRange arena index).isDangling = false) (entries : Array α)
    (index : Nat) : Safe asm (arena.entry entries index) := by
  unfold Arena.entry
  split
  · exact ⟨hknown _⟩
  · exact ⟨harena index⟩

instance (id : TypeId) : Safe asm (m.typeData id) := entry_safe inferInstance (fun _ => rfl) _ _

instance (id : ValueId) : Safe asm (m.value id) := entry_safe inferInstance (fun _ => rfl) _ _

instance (id : BlockId) : Safe asm (m.block id) := entry_safe inferInstance (fun _ => rfl) _ _

instance (id : FunctionId) : Safe asm (m.function id) := entry_safe inferInstance (fun _ => rfl) _ _

end Access

section Questions

instance (id : ValueId) : Safe asm (m.typeOf id) := by
  unfold typeOf
  infer_instance

instance (id : TypeId) : Safe asm (m.classify id) := by
  unfold classify
  infer_instance

instance (id : ValueId) : Safe asm (m.classOf id) := by
  unfold classOf
  infer_instance

instance (id : TypeId) : Safe asm (m.pointee? id) := by
  refine Safe.seq inferInstance fun type _ => ?_
  split <;> infer_instance

instance (id : TypeId) : Safe asm (m.signature? id) := by
  refine Safe.seq inferInstance fun type _ => ?_
  split <;> infer_instance

instance (id : TypeId) : Safe asm (m.structBody? id) := by
  refine Safe.seq inferInstance fun type _ => ?_
  split <;> infer_instance

instance (id : ValueId) : Safe asm (m.inst? id) := by
  unfold inst?
  infer_instance

instance (id : ValueId) : Safe asm (m.incoming? id) := by
  refine Safe.seq inferInstance fun inst _ => ?_
  split <;> infer_instance

instance (id : ValueId) : Safe asm (m.constInt? id) := by
  refine Safe.seq inferInstance fun value _ => ?_
  split <;> infer_instance

instance (id : ValueId) : Safe asm (m.constFloat? id) := by
  refine Safe.seq inferInstance fun value _ => ?_
  split <;> infer_instance

instance (id : ValueId) : Safe asm (m.isConstant id) := by
  unfold isConstant
  infer_instance

instance (id : BlockId) : Safe asm (m.isTerminated id) := by
  unfold isTerminated
  infer_instance

instance (id : FunctionId) (index : Nat) : Safe asm (m.param id index) :=
  Safe.seq inferInstance fun _ _ => entry_safe inferInstance (fun _ => rfl) _ _

instance : Safe asm m.currentFunction := by
  unfold currentFunction
  split <;> infer_instance

end Questions

section Sizes

instance (fuel : Nat) (id : TypeId) : Safe asm (m.extentWith fuel id) := by
  induction fuel generalizing id with
  | zero => exact ⟨rfl⟩
  | succ fuel ih =>
      refine Safe.seq inferInstance fun type _ => ?_
      split <;> infer_instance

instance (id : TypeId) : Safe asm (m.sizeOf id) := by
  unfold sizeOf extentOf
  infer_instance

end Sizes

section Defects

instance (blocks : List BlockId) (target : BlockId) : Safe asm (m.predecessors blocks target) := by
  unfold predecessors
  infer_instance

instance (owned : List BlockId) (b : BlockId) : Safe asm (m.terminatorDefect? owned b) := by
  refine Safe.seq inferInstance fun block _ => ?_
  split <;> infer_instance

instance (block : String) (preds : List BlockId) (incoming : List (ValueId × BlockId)) :
    Safe asm (m.incomingDefect? block preds incoming) := by
  induction incoming with
  | nil => exact Safe.pure none
  | cons entry rest ih =>
      unfold incomingDefect?
      infer_instance

instance (block : String) (preds : List BlockId) (inHead : Bool) (insts : List ValueId) :
    Safe asm (m.phiDefect? block preds inHead insts) := by
  induction insts generalizing inHead with
  | nil => exact Safe.pure none
  | cons v rest ih =>
      refine Safe.seq inferInstance fun incoming _ => ?_
      split
      · infer_instance
      · split
        · infer_instance
        · refine Safe.seq inferInstance fun defect _ => ?_
          split <;> infer_instance

instance (owned : List BlockId) (b : BlockId) : Safe asm (m.blockPhiDefect? owned b) := by
  unfold blockPhiDefect?
  infer_instance

instance (id : FunctionId) : Safe asm (m.defect? id) := by
  refine Safe.seq inferInstance fun f _ => ?_
  split
  · infer_instance
  · refine Safe.seq inferInstance fun defect _ => ?_
    split <;> infer_instance

instance (id : FunctionId) : Safe asm (m.verify id) := by
  refine Safe.seq inferInstance fun defect _ => ?_
  split <;> infer_instance

end Defects

section DeadBlocks

instance (fuel : Nat) (seen pending : List BlockId) : Safe asm (m.reachFrom fuel seen pending) := by
  induction fuel generalizing seen pending with
  | zero => exact Safe.pure seen
  | succ fuel ih =>
      cases pending with
      | nil => exact Safe.pure seen
      | cons b pending =>
          unfold reachFrom
          infer_instance

instance (id : FunctionId) : Safe asm (m.removeUnreachable id) := by
  refine Safe.seq inferInstance fun f _ => ?_
  split
  · infer_instance
  · unfold reachable
    infer_instance

end DeadBlocks

end Module

namespace Build

section States

variable {α : Type} [HoldsIds α]

instance (question : Module → Except Fault α) [h : ∀ m, Safe asm (question m)] :
    Safe asm (query question) := by
  refine ⟨fun m hm => ?_⟩
  unfold query
  split <;> rename_i hrun <;> split at hrun <;> cases hrun
  · rename_i ha
    exact ⟨(h m).answer ha, hm⟩
  · rename_i hfault
    exact (h m).reason hfault

instance (question : Except Fault α) [h : Safe asm question] : Safe asm (ask question) := by
  unfold ask
  infer_instance

end States

section Types

instance (type : IrType) : Safe asm (intern type) := by
  refine Safe.ofResult fun m _ => ?_
  unfold intern
  split <;> exact ⟨_, _, rfl, inferInstance, inferInstance⟩

instance : Safe asm voidType := inferInstanceAs (Safe asm (intern _))

instance (bits : Nat) : Safe asm (intType bits) := inferInstanceAs (Safe asm (intern _))

instance (bits : Nat) : Safe asm (floatType bits) := inferInstanceAs (Safe asm (intern _))

instance (pointee : TypeId) : Safe asm (pointerType pointee) :=
  inferInstanceAs (Safe asm (intern _))

instance (element : TypeId) (length : Nat) : Safe asm (arrayType element length) :=
  inferInstanceAs (Safe asm (intern _))

instance (result : TypeId) (params : List TypeId) : Safe asm (functionType result params) :=
  inferInstanceAs (Safe asm (intern _))

instance : Safe asm genericPointer := by
  unfold genericPointer
  infer_instance

instance (name : String) : Safe asm (namedStruct name) :=
  Safe.ofResult fun _ _ => ⟨_, _, rfl, inferInstance, inferInstance⟩

end Types

section Changes

instance (misuse : Misuse) : Safe asm (record misuse) := by
  unfold record
  infer_instance

instance (type : TypeId) (kind : ValueKind) : Safe asm (pushValue type kind) :=
  Safe.ofResult fun _ _ => ⟨_, _, rfl, inferInstance, inferInstance⟩

instance (id : BlockId) (change : Block → Block) : Safe asm (modifyBlock id change) := by
  unfold modifyBlock
  infer_instance

instance (id : FunctionId) (change : Function → Function) :
    Safe asm (modifyFunction id change) := by
  unfold modifyFunction
  infer_instance

instance (id : ValueId) (kind : ValueKind) : Safe asm (setKind id kind) := by
  unfold setKind
  infer_instance

instance (id : TypeId) (members : List TypeId) (packed : Bool) :
    Safe asm (setStructBody id members packed) := by
  refine Safe.seq inferInstance fun type _ => ?_
  split <;> infer_instance

end Changes

section Constants

instance (type : TypeId) (value : Int) : Safe asm (constInt type value) :=
  inferInstanceAs (Safe asm (pushValue _ _))

instance (bits : Nat) (value : Int) : Safe asm (constIntOf bits value) := by
  unfold constIntOf
  infer_instance

instance (type : TypeId) (value : Numeric.Binary64) : Safe asm (constFloat type value) :=
  inferInstanceAs (Safe asm (pushValue _ _))

instance (type : TypeId) : Safe asm (constNull type) := inferInstanceAs (Safe asm (pushValue _ _))

instance (type : TypeId) (items : List ValueId) : Safe asm (constStruct type items) := by
  refine Safe.seq inferInstance fun body _ => ?_
  split <;> infer_instance

instance (element : TypeId) (items : List ValueId) : Safe asm (constArray element items) := by
  unfold constArray
  infer_instance

instance (text : String) : Safe asm (constString text) := by
  unfold constString
  dsimp only
  infer_instance

instance (name : String) (content : TypeId) : Safe asm (addGlobal name content) := by
  unfold addGlobal
  dsimp only
  infer_instance

instance (global value : ValueId) : Safe asm (setInitializer global value) := by
  refine Safe.seq inferInstance fun type _ => Safe.seq inferInstance fun isConstant _ =>
    Safe.seq inferInstance fun target _ => ?_
  split <;> infer_instance

end Constants

section Functions

instance (function : FunctionId) (index : Nat) (types : List TypeId) :
    Safe asm (pushParams function index types) := by
  induction types generalizing index with
  | nil => exact Safe.pure []
  | cons type rest ih =>
      unfold pushParams
      infer_instance

set_option synthInstance.maxSize 512 in
instance (name : String) (type : TypeId) (linkage : Linkage) :
    Safe asm (addFunction name type linkage) := by
  unfold addFunction
  dsimp only
  refine Safe.seq inferInstance fun m _ => Safe.seq inferInstance fun signature _ => ?_
  split <;> infer_instance

instance (id : FunctionId) (linkage : Linkage) : Safe asm (setLinkage id linkage) := by
  unfold setLinkage
  infer_instance

instance (id : FunctionId) : Safe asm (functionValue id) := by
  unfold functionValue
  infer_instance

instance (function : FunctionId) (name : String) : Safe asm (appendBlock function name) := by
  unfold appendBlock
  dsimp only
  infer_instance

instance (id : BlockId) : Safe asm (positionAtEnd id) := by
  unfold positionAtEnd
  infer_instance

instance (id : FunctionId) (level : OptLevel) : Safe asm (optimize id level) := by
  unfold optimize
  infer_instance

end Functions

section Instructions

instance (type : TypeId) (inst : Inst) : Safe asm (pushInst type inst) := by
  refine Safe.seq inferInstance fun m _ => ?_
  split <;> infer_instance

instance (terminator : Terminator) : Safe asm (terminate terminator) := by
  refine Safe.seq inferInstance fun m _ => ?_
  split <;> infer_instance

instance (op : BinaryOp) (lhs rhs : ValueId) : Safe asm (binary op lhs rhs) := by
  unfold binary
  infer_instance

instance (op : UnaryOp) (operand : ValueId) : Safe asm (unary op operand) := by
  unfold unary
  infer_instance

instance (pred : IntPredicate) (lhs rhs : ValueId) : Safe asm (icmp pred lhs rhs) := by
  unfold icmp
  infer_instance

instance (pred : FloatPredicate) (lhs rhs : ValueId) : Safe asm (fcmp pred lhs rhs) := by
  unfold fcmp
  infer_instance

instance (op : CastOp) (value : ValueId) (target : TypeId) : Safe asm (cast op value target) := by
  unfold cast
  infer_instance

instance (value : ValueId) (target : TypeId) (signed : Bool) :
    Safe asm (intCast value target signed) :=
  intCast_of (fun hf => Safe.seq inferInstance fun a _ => hf a)
    (fun _ _ hf => Safe.seq inferInstance fun a _ => hf a) (fun _ => inferInstance) inferInstance

instance (type : TypeId) : Safe asm (alloca type) := by
  unfold alloca
  infer_instance

instance (type : TypeId) (pointer : ValueId) : Safe asm (load type pointer) := by
  unfold load
  infer_instance

instance (pointer value : ValueId) (isVolatile : Bool) :
    Safe asm (store pointer value isVolatile) := by
  unfold store
  infer_instance

instance (type : TypeId) (index : Nat) (m : Module) : Safe asm (member? type index m) := by
  refine Safe.seq inferInstance fun body _ => ?_
  split <;> infer_instance

instance (type : TypeId) (pointer : ValueId) (index : Nat) :
    Safe asm (structGep type pointer index) := by
  refine Safe.seq inferInstance fun member _ => ?_
  split <;> infer_instance

instance (element : TypeId) (pointer index : ValueId) : Safe asm (gep element pointer index) := by
  unfold gep
  infer_instance

instance (type : TypeId) (count : Option ValueId) : Safe asm (heapAlloc type count) := by
  unfold heapAlloc
  infer_instance

instance (b : BlockId) (type : TypeId) : Safe asm (phi b type) := by
  unfold phi
  dsimp only
  infer_instance

instance (phi value : ValueId) (source : BlockId) : Safe asm (addIncoming phi value source) := by
  refine Safe.seq inferInstance fun type _ => Safe.seq inferInstance fun other _ => ?_
  dsimp only
  split
  · refine Safe.seq inferInstance fun _ _ => Safe.seq inferInstance fun value _ => ?_
    split <;> infer_instance
  · refine Safe.seq inferInstance fun value _ => ?_
    split <;> infer_instance

instance (index : Nat) (args : List ValueId) (params : List TypeId) :
    Safe asm (checkArgs index args params) := by
  induction args generalizing index params with
  | nil => exact Safe.pure ()
  | cons arg args ih =>
      cases params with
      | nil => exact Safe.pure ()
      | cons param params =>
          unfold checkArgs
          infer_instance

instance (type : TypeId) (callee : Callee) (args : List ValueId) :
    Safe asm (buildCall type callee args) := by
  refine Safe.seq inferInstance fun signature _ => ?_
  split <;> infer_instance

instance (function : FunctionId) (args : List ValueId) : Safe asm (call function args) := by
  unfold call
  dsimp only
  infer_instance

instance (type : TypeId) (callee : ValueId) (args : List ValueId) :
    Safe asm (callIndirect type callee args) := by
  unfold callIndirect
  infer_instance

instance (target : BlockId) : Safe asm (br target) := inferInstanceAs (Safe asm (terminate _))

instance (cond : ValueId) (thenBlock elseBlock : BlockId) :
    Safe asm (condBr cond thenBlock elseBlock) := by
  unfold condBr
  infer_instance

instance (value : ValueId) (default : BlockId) (cases : List (Int × BlockId)) :
    Safe asm (switch value default cases) :=
  inferInstanceAs (Safe asm (terminate _))

instance (function : FunctionId) (value : Option ValueId) (m : Module) :
    Safe asm (returnFits function value m) := by
  refine Safe.seq inferInstance fun f _ => Safe.seq inferInstance fun signature _ => ?_
  cases value with
  | some value =>
      refine Safe.seq inferInstance fun type _ => ?_
      split <;> infer_instance
  | none =>
      dsimp only
      split <;> infer_instance

instance (value : Option ValueId) : Safe asm (ret value) := by
  refine Safe.seq inferInstance fun function _ => ?_
  split <;> infer_instance

instance : Safe asm unreachable := inferInstanceAs (Safe asm (terminate _))

end Instructions

end Build

end CilSsa.Ssa
