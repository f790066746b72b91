import CilSsa.Proofs.Failures
import CilSsa.Proofs.GrowingBodies

/-!
Bodies whose emission may fail.

What holds while a body is emitted is of two kinds: something about the compilation, for the current
block, and something about the blocks of the body.  Straight-line code concerns the first only.  The
branches concern the second, and they fail before they have changed anything.
-/

namespace CilSsa

open Ssa Metadata Lowering

/-- Permission for everything that the body of a function is made of. -/
class Ssa.Change.Flowing (P : Change → Prop) : Prop extends Change.Coding P, Change.Joining P where
  terminate : ∀ b t, P (.terminate b t)
  moveTo : ∀ b, P (.moveTo b)

instance {P : Change → Prop} [hP : Change.Free P] : Change.Flowing P where
  addType _ _ := hP.permits _ rfl
  addArray _ _ := hP.permits _ rfl
  addValue _ := hP.permits _ rfl
  record _ := hP.permits _ rfl
  listGlobal _ := hP.permits _ rfl
  countString := hP.permits _ rfl
  addInst _ _ _ _ := hP.permits _ rfl
  addStore _ _ _ _ _ := hP.permits _ rfl
  addPhi _ _ := hP.permits _ rfl
  addEntry _ _ _ := hP.permits _ rfl
  terminate _ _ := hP.permits _ rfl
  moveTo _ := hP.permits _ rfl

instance {P : Change → Prop} [hP : Change.Flowing P] (b : BlockId) :
    Keeps (Module.Evolves P) (Build.positionAtEnd b) where
  run h := by
    obtain rfl := Build.positionAtEnd_eq_ok h
    exact Module.Evolves.one (c := .moveTo b) (hP.moveTo b) trivial

namespace Lowering

/-- What holds while a body is emitted: `W` of the compilation, for the current block, and `V` of
that block and the leaders. -/
structure EmitState.Upheld (W : BlockId → Session → Prop) (V : BlockId → List Leader → Prop)
    (s : EmitState) : Prop where
  session : W s.current s.session
  blocks : V s.current s.leaders

/-- What is provided for a failure of the compilation, for one of the emission. -/
def EmitState.Failed (F : LoweringError → Session → Prop) (e : LoweringError) (s : EmitState) :
    Prop :=
  F e s.session

/-- An invariant of a compilation that holds while code is emitted. -/
class Emitted (asm : Assembly) (P : outParam (Change → Prop)) (I : Session → Prop)
    (F : LoweringError → Session → Prop) : Prop extends Requesting asm P I F where
  foldStatic : ∀ f, Upholds I F (Lower.register (Registering.foldStatic f))
  setInitializer : ∀ global value, Upholds I F (Lower.build (Build.setInitializer global value))

/-- An invariant of a compilation that holds while code is emitted, whatever is looked up.  Any
failure is provided for. -/
class Answering (asm : Assembly) (P : outParam (Change → Prop)) (I : Session → Prop)
    (F : LoweringError → Session → Prop) : Prop extends Emitted asm P I F where
  stop : ∀ {s e}, I s → F e s
  layout : ∀ {α : Type} (x : Layouts α), Upholds I F (Lower.layout x)
  newobjFunction : ∀ ty, Upholds I F (newobjFunction asm ty)

section Lookups

variable {asm : Assembly} {P : Change → Prop} {I : Session → Prop}
  {F : LoweringError → Session → Prop} {α : Type} [hI : Answering asm P I F]

include hI in
theorem Answering.consult (question : Registry → Except Stop α) :
    Upholds I F (Lower.consult question) :=
  upholds_consult fun hs _ => hI.stop hs

include hI in
theorem Answering.fail (error : LoweringError) : Upholds I F (Lower.fail error : Lower α) where
  ok _ h := nomatch h
  fails hs h := by
    cases h
    exact hI.stop hs

variable [hP : Change.Coding P]

instance (owner : TypeDefId) (slot : MethodId) : Upholds I F (Emit.slotPlace asm owner slot) := by
  have := hI.consult (α := VTable)
  have := hI.fail (α := TypeId × Nat)
  unfold Emit.slotPlace
  refine Upholds.seq inferInstance fun vtable => ?_
  split <;> infer_instance

instance (object : Element) (owner : TypeDefId) (table : TypeId) :
    Upholds I F (Emit.loadClassTable asm object owner table) := by
  have := hI.consult (α := TypeId)
  have := hI.layout (α := Nat)
  unfold Emit.loadClassTable
  infer_instance

set_option synthInstance.maxSize 4096 in
instance (object : Element) (iface : TypeDefId) (table : TypeId) :
    Upholds I F (Emit.loadInterfaceTable asm object iface table) := by
  have := hI.consult (α := Nat)
  unfold Emit.loadInterfaceTable
  infer_instance

instance (ctor : MethodId) (ty : TypeDefId) (args : List Element) :
    Upholds I F (Emit.newReference asm ctor ty args) := by
  have := hI.newobjFunction
  have := hI.fail (α := Element)
  unfold Emit.newReference
  refine Upholds.seq inferInstance fun g => Upholds.seq inferInstance fun object => ?_
  split <;> infer_instance

end Lookups

namespace Emit

variable {site : Site} {W : BlockId → Session → Prop} {V : BlockId → List Leader → Prop}
  {F : LoweringError → Session → Prop} {P : Change → Prop} {α β : Type}

section Steps

instance (x : Lower α) [hx : ∀ b, Upholds (W b) F x] :
    Upholds (EmitState.Upheld W V) (EmitState.Failed F) (lower x) where
  ok {s a s'} hs h := by
    obtain ⟨t, hrun, rfl⟩ := lower_eq_ok_iff.mp h
    exact ⟨(hx s.current).ok hs.session hrun, hs.blocks⟩
  fails {s e s'} hs h := by
    unfold lower at h
    split at h
    · cases h
    · rename_i hrun
      cases h
      exact (hx s.current).fails hs.session hrun

instance (x : Lower α) [h : Upholds (EmitState.Upheld W V) (EmitState.Failed F) (lower x)] :
    Upholds (EmitState.Upheld W V) (EmitState.Failed F) (liftM x : Emit α) :=
  h

instance (x : Build α)
    [h : Upholds (EmitState.Upheld W V) (EmitState.Failed F) (lower (Lower.build x))] :
    Upholds (EmitState.Upheld W V) (EmitState.Failed F) (liftM x : Emit α) :=
  h

/-- Actions on the module do not fail. -/
theorem lower_build_ne_error {x : Build α} {s s' : EmitState} {e : LoweringError} :
    lower (Lower.build x) s ≠ .error (.error e) s' := by
  intro h
  unfold lower at h
  split at h
  · cases h
  · rename_i hrun
    cases h
    exact build_ne_error hrun

instance (e : Element) : Upholds (EmitState.Upheld W V) (EmitState.Failed F) (push e) where
  ok {s _ s'} hs h := by
    obtain rfl := push_eq_ok_iff.mp h
    exact ⟨hs.session, hs.blocks⟩
  fails _ h := nomatch h

variable [hF : ∀ b, Upholding P (W b) F]

include hF

/-- A failure of the emission for another reason than the lack of an entry. -/
theorem upholds_fail {error : LoweringError} (h : error.isLookup = false) :
    Upholds (EmitState.Upheld W V) (EmitState.Failed F) (fail error : Emit α) where
  ok _ hrun := nomatch hrun
  fails {s _ _} hs hrun := by
    cases hrun
    exact (hF s.current).here hs.session h

instance (problem : OperandProblem) :
    Upholds (EmitState.Upheld W V) (EmitState.Failed F) (malformed site problem : Emit α) :=
  upholds_fail rfl

instance : Upholds (EmitState.Upheld W V) (EmitState.Failed F) (pop site) where
  ok {s e s'} hs h := by
    obtain ⟨rest, -, rfl⟩ := pop_eq_ok_iff.mp h
    exact ⟨hs.session, hs.blocks⟩
  fails {s e s'} hs h := by
    unfold pop at h
    rcases bind_eq_error_iff.mp h with hget | ⟨t, _, hget, hmatch⟩
    · cases hget
    · cases hget
      cases htop : s.stack.pop? with
      | some top =>
          simp only [htop] at hmatch
          cases hmatch
      | none =>
          simp only [htop] at hmatch
          cases hmatch
          exact (hF s.current).here hs.session rfl

instance (count : Nat) (above : List Element) :
    Upholds (EmitState.Upheld W V) (EmitState.Failed F) (popOnto site count above) := by
  induction count generalizing above with
  | zero =>
      unfold popOnto
      infer_instance
  | succ count ih =>
      unfold popOnto
      infer_instance

instance (count : Nat) :
    Upholds (EmitState.Upheld W V) (EmitState.Failed F) (popN site count) := by
  unfold popN
  infer_instance

instance : Upholds (EmitState.Upheld W V) (EmitState.Failed F) (fieldOperand site) := by
  unfold fieldOperand
  split <;> infer_instance

instance : Upholds (EmitState.Upheld W V) (EmitState.Failed F) (methodOperand site) := by
  unfold methodOperand
  split <;> infer_instance

instance : Upholds (EmitState.Upheld W V) (EmitState.Failed F) (typeOperand site) := by
  unfold typeOperand
  split <;> infer_instance

instance : Upholds (EmitState.Upheld W V) (EmitState.Failed F) (targetOperand site) := by
  unfold targetOperand
  split <;> infer_instance

instance (kind : VariableKind) (fixed : Option Nat) :
    Upholds (EmitState.Upheld W V) (EmitState.Failed F) (variable_ site kind fixed) := by
  unfold variable_
  dsimp only
  split <;> infer_instance

instance (source : ElementSource) (array : Element) :
    Upholds (EmitState.Upheld W V) (EmitState.Failed F) (elementSig site source array) := by
  unfold elementSig
  split <;> infer_instance

end Steps

instance [hF : ∀ b, Upholding P (W b) F] [Change.Coding P] :
    Upholds (EmitState.Upheld W V) (EmitState.Failed F) loadNull := by
  unfold loadNull
  infer_instance

instance [hF : ∀ b, Upholding P (W b) F] [Change.Coding P] (sig : TypeSig) (address : ValueId) :
    Upholds (EmitState.Upheld W V) (EmitState.Failed F) (pushAddress sig address) := by
  unfold pushAddress
  infer_instance

instance {P : Change → Prop} [Change.Coding P] (object : Element) :
    Keeps (Module.Evolves P) (objectAddress object) := by
  unfold objectAddress
  infer_instance

section Straight

variable [hF : ∀ b, Emitted site.asm P (W b) F] [hP : Change.Coding P]

instance (source : ConstantSource) :
    Upholds (EmitState.Upheld W V) (EmitState.Failed F) (loadConstant site source) := by
  unfold loadConstant constantElement?
  split
  · rename_i heq
    split at heq <;> cases heq <;> infer_instance
  · infer_instance

instance : Upholds (EmitState.Upheld W V) (EmitState.Failed F) (loadString site) := by
  unfold loadString
  split <;> infer_instance

instance : Upholds (EmitState.Upheld W V) (EmitState.Failed F) (loadSize site) := by
  unfold loadSize
  infer_instance

instance (kind : VariableKind) (fixed : Option Nat) :
    Upholds (EmitState.Upheld W V) (EmitState.Failed F) (loadVariable site kind fixed) := by
  unfold loadVariable
  infer_instance

instance (kind : VariableKind) :
    Upholds (EmitState.Upheld W V) (EmitState.Failed F) (loadVariableAddress site kind) := by
  unfold loadVariableAddress
  infer_instance

instance (kind : VariableKind) (fixed : Option Nat) :
    Upholds (EmitState.Upheld W V) (EmitState.Failed F) (storeVariable site kind fixed) := by
  unfold storeVariable
  infer_instance

instance : Upholds (EmitState.Upheld W V) (EmitState.Failed F) (duplicate site) := by
  unfold duplicate
  infer_instance

instance : Upholds (EmitState.Upheld W V) (EmitState.Failed F) (discard site) := by
  unfold discard
  infer_instance

instance (op : BinaryOp) :
    Upholds (EmitState.Upheld W V) (EmitState.Failed F) (binary site op) := by
  have (op? : Option BinaryOp) (lhs rhs : Element) :
      Upholds (EmitState.Upheld W V) (EmitState.Failed F) (match op? with
        | some op => do push (← lower (floatBinary site.asm op lhs rhs))
        | none => malformed site .bitwiseOnFloats) := by
    cases op? <;> infer_instance
  unfold binary
  infer_instance

instance (op : Element → UnaryOp) :
    Upholds (EmitState.Upheld W V) (EmitState.Failed F) (unary site op) := by
  unfold unary
  infer_instance

set_option synthInstance.maxSize 256 in
instance (relation : Relation) (unsigned : Bool) :
    Upholds (EmitState.Upheld W V) (EmitState.Failed F) (compare site relation unsigned) := by
  unfold compare
  infer_instance

instance (target : TypeSig) (unsignedSource : Bool) :
    Upholds (EmitState.Upheld W V) (EmitState.Failed F) (convert site target unsignedSource) := by
  unfold convert
  infer_instance

set_option synthInstance.maxSize 256 in
instance (sig : TypeSig) :
    Upholds (EmitState.Upheld W V) (EmitState.Failed F) (loadThrough site sig) := by
  unfold loadThrough
  infer_instance

instance (type : TypeId) (value address : Element) :
    Upholds (EmitState.Upheld W V) (EmitState.Failed F) (storeThrough site type value address) := by
  unfold storeThrough
  infer_instance

instance (sig : Option TypeSig) :
    Upholds (EmitState.Upheld W V) (EmitState.Failed F) (loadIndirect site sig) := by
  unfold loadIndirect
  infer_instance

instance (sig : Option TypeSig) :
    Upholds (EmitState.Upheld W V) (EmitState.Failed F) (storeIndirect site sig) := by
  unfold storeIndirect
  cases sig <;> infer_instance

instance : Upholds (EmitState.Upheld W V) (EmitState.Failed F) (loadObject site) := by
  unfold loadObject
  infer_instance

instance : Upholds (EmitState.Upheld W V) (EmitState.Failed F) (storeObject site) := by
  unfold storeObject
  infer_instance

set_option synthInstance.maxSize 512 in
instance : Upholds (EmitState.Upheld W V) (EmitState.Failed F) (initObject site) := by
  unfold initObject
  infer_instance

set_option synthInstance.maxSize 256 in
instance : Upholds (EmitState.Upheld W V) (EmitState.Failed F) (newArray site) := by
  unfold newArray
  infer_instance

instance : Upholds (EmitState.Upheld W V) (EmitState.Failed F) (loadElementAddress site) := by
  unfold loadElementAddress
  infer_instance

set_option synthInstance.maxSize 256 in
instance (source : ElementSource) :
    Upholds (EmitState.Upheld W V) (EmitState.Failed F) (loadElement site source) := by
  unfold loadElement
  infer_instance

set_option synthInstance.maxSize 512 in
instance (source : ElementSource) :
    Upholds (EmitState.Upheld W V) (EmitState.Failed F) (storeElement site source) := by
  unfold storeElement
  cases source <;> infer_instance

instance (callee : MethodDef) (result : Option ValueId) :
    Upholds (EmitState.Upheld W V) (EmitState.Failed F) (pushResult site callee result) := by
  unfold pushResult
  cases result <;> infer_instance

instance (target : MethodId) :
    Upholds (EmitState.Upheld W V) (EmitState.Failed F) (callDirect site target) := by
  unfold callDirect
  infer_instance

instance : Upholds (EmitState.Upheld W V) (EmitState.Failed F) (call site) := by
  unfold call
  infer_instance

instance (sig : TypeSig) (address : ValueId) :
    Upholds (EmitState.Upheld W V) (EmitState.Failed F) (pushLoaded site sig address) := by
  unfold pushLoaded
  infer_instance

instance : Upholds (EmitState.Upheld W V) (EmitState.Failed F) (loadStatic site) := by
  unfold loadStatic
  infer_instance

instance : Upholds (EmitState.Upheld W V) (EmitState.Failed F) (loadStaticAddress site) := by
  unfold loadStaticAddress
  infer_instance

instance (sig : TypeSig) (type : TypeId) (value : ValueId) :
    Upholds (EmitState.Upheld W V) (EmitState.Failed F) (initialConstant? site sig type value) := by
  unfold initialConstant?
  infer_instance

instance : Upholds (EmitState.Upheld W V) (EmitState.Failed F) (storeStatic site) := by
  have := fun b => (hF b).foldStatic
  have := fun b => (hF b).setInitializer
  unfold storeStatic
  dsimp only
  refine Upholds.seq inferInstance fun f => Upholds.seq inferInstance fun value =>
    Upholds.seq inferInstance fun global => Upholds.seq inferInstance fun d =>
    Upholds.seq inferInstance fun type => Upholds.seq inferInstance fun constant => ?_
  cases constant with
  | none => infer_instance
  | some constant =>
      refine Upholds.seq inferInstance fun folded => ?_
      cases folded <;> infer_instance

section Fields

omit hP in
include hF in
/-- The field of an instruction. -/
theorem upholds_field {g : FieldId → Emit α} (hg : ∀ f, site.instr.operand = .field f →
    Upholds (EmitState.Upheld W V) (EmitState.Failed F) (g f)) :
    Upholds (EmitState.Upheld W V) (EmitState.Failed F) (fieldOperand site >>= g) :=
  Upholds.seqOf inferInstance fun _ h => hg _ (fieldOperand_eq_ok h).1

include hF

section Addresses

variable (hfield : ∀ f object, site.instr.operand = .field f →
  Upholds (EmitState.Upheld W V) (EmitState.Failed F) (fieldAddress site f object))

include hfield

theorem upholds_loadField :
    Upholds (EmitState.Upheld W V) (EmitState.Failed F) (loadField site) := by
  unfold loadField
  refine upholds_field fun f hf => ?_
  have := fun object => hfield f object hf
  infer_instance

theorem upholds_loadFieldAddress :
    Upholds (EmitState.Upheld W V) (EmitState.Failed F) (loadFieldAddress site) := by
  unfold loadFieldAddress
  refine upholds_field fun f hf => ?_
  have := fun object => hfield f object hf
  infer_instance

set_option synthInstance.maxSize 512 in
theorem upholds_storeField :
    Upholds (EmitState.Upheld W V) (EmitState.Failed F) (storeField site) := by
  unfold storeField
  refine upholds_field fun f hf => ?_
  have := fun object => hfield f object hf
  infer_instance

end Addresses

/-- An action that does not end its block, given those that look up what has been made of a type. -/
theorem upholds_perform {action : Action}
    (hfield : action ∈ [Action.loadField, .loadFieldAddress, .storeField] →
      ∀ f object, site.instr.operand = .field f →
        Upholds (EmitState.Upheld W V) (EmitState.Failed F) (fieldAddress site f object))
    (hvirtual : action = .callVirtual →
      Upholds (EmitState.Upheld W V) (EmitState.Failed F) (callVirtual site))
    (hnew : action = .newObject →
      Upholds (EmitState.Upheld W V) (EmitState.Failed F) (newObject site))
    (hends : endsBlock action = false) :
    Upholds (EmitState.Upheld W V) (EmitState.Failed F) (perform site action) := by
  cases action with
  | branch | branchIf | compareBranch | switch | ret => simp [endsBlock] at hends
  | loadField => exact upholds_loadField (hfield (by simp))
  | loadFieldAddress => exact upholds_loadFieldAddress (hfield (by simp))
  | storeField => exact upholds_storeField (hfield (by simp))
  | callVirtual => exact hvirtual rfl
  | newObject => exact hnew rfl
  | negate =>
      unfold perform negate
      infer_instance
  | complement =>
      unfold perform complement
      infer_instance
  | _ =>
      unfold perform
      infer_instance

end Fields

end Straight

/-- The blocks of a body, those that are `mine`: the stack is passed on to them, blocks end with
branches to them, and the emission goes on in them. -/
class Branching (frame : Frame) (mine : outParam (BlockId → Prop)) (W : BlockId → Session → Prop)
    (V : BlockId → List Leader → Prop) (F : LoweringError → Session → Prop) : Prop where
  merge : ∀ {s : EmitState} {l : Leader} {position : Nat} {incoming : EvalStack} {m : Module},
    EmitState.Upheld W V s → l ∈ s.leaders →
      l.incoming.merge frame.asm s.stack s.current l.block l.refers s.session.module =
        .ok incoming m →
      mine l.block ∧ EmitState.Upheld W V { s with
        session := { s.session with module := m }
        leaders := withIncoming position incoming s.leaders }
  ends : ∀ {t : Terminator} {x : Build Unit}, Keeps (Module.Evolves (Change.EndsBy t)) x →
    (∀ c ∈ t.successors, mine c) →
      Upholds (EmitState.Upheld W V) (EmitState.Failed F) (lower (Lower.build x))
  enter : ∀ {s : EmitState} {l : Leader}, EmitState.Upheld W V s → l ∈ s.leaders →
    EmitState.Upheld W V { s with
      current := l.block
      stack := l.incoming.snapshot
      session := { s.session with module := s.session.module.apply (.moveTo l.block) } }

namespace Branching

variable {frame : Frame} {mine : BlockId → Prop}

theorem br (hB : Branching frame mine W V F) {target : BlockId} (htarget : mine target) :
    Upholds (EmitState.Upheld W V) (EmitState.Failed F)
      (lower (Lower.build (Build.br target))) :=
  hB.ends (t := .br target) inferInstance (by simpa [Terminator.successors] using htarget)

theorem condBr (hB : Branching frame mine W V F) {cond : ValueId} {thenBlock elseBlock : BlockId}
    (hthen : mine thenBlock) (helse : mine elseBlock) :
    Upholds (EmitState.Upheld W V) (EmitState.Failed F)
      (lower (Lower.build (Build.condBr cond thenBlock elseBlock))) :=
  hB.ends (t := .condBr cond thenBlock elseBlock) inferInstance
    (by simpa [Terminator.successors] using ⟨hthen, helse⟩)

theorem switch (hB : Branching frame mine W V F) {value : ValueId} {default : BlockId}
    {cases : List (Int × BlockId)} (hdefault : mine default) (hcases : ∀ x ∈ cases, mine x.2) :
    Upholds (EmitState.Upheld W V) (EmitState.Failed F)
      (lower (Lower.build (Build.switch value default cases))) :=
  hB.ends (t := .switch value default cases) inferInstance
    (by simpa [Terminator.successors] using ⟨hdefault, fun c _ hc => hcases _ hc⟩)

theorem ret (hB : Branching frame mine W V F) (value : Option ValueId) :
    Upholds (EmitState.Upheld W V) (EmitState.Failed F)
      (lower (Lower.build (Build.ret value))) :=
  hB.ends (t := .ret value) inferInstance (by simp [Terminator.successors])

theorem unreachable (hB : Branching frame mine W V F) :
    Upholds (EmitState.Upheld W V) (EmitState.Failed F) (lower (Lower.build Build.unreachable)) :=
  hB.ends (t := .unreachable) inferInstance (by simp [Terminator.successors])

end Branching

section Branches

variable {mine : BlockId → Prop} [hB : Branching site.toFrame mine W V F]
  [hF : ∀ b, Emitted site.asm P (W b) F] [hP : Change.Coding P]

omit hP in
include hF in
/-- The stack is passed on to a block of the body. -/
theorem upholds_reconcile {position : Nat} {g : BlockId → Emit α}
    (hg : ∀ target, mine target → Upholds (EmitState.Upheld W V) (EmitState.Failed F) (g target)) :
    Upholds (EmitState.Upheld W V) (EmitState.Failed F) (reconcile site position >>= g) := by
  have hpass {s b s'} (hs : EmitState.Upheld W V s) (h : reconcile site position s = .ok b s') :
      mine b ∧ EmitState.Upheld W V s' := by
    obtain ⟨l, incoming, m, hl, rfl, hmerge, rfl⟩ := reconcile_cases h
    exact hB.merge hs (mem_of_leader? hl).1 hmerge
  refine Upholds.seqOf ⟨fun hs h => (hpass hs h).2, fun {s e s'} hs h => ?_⟩
    fun hs h => hg _ (hpass hs h).1
  rcases bind_eq_error_iff.mp h with hget | ⟨_, _, hget, hmatch⟩
  · cases hget
  · cases hget
    cases hl : leader? s position with
    | none =>
        simp only [hl] at hmatch
        cases hmatch
        exact (hF s.current).here hs.session rfl
    | some l =>
        simp only [hl] at hmatch
        rcases bind_eq_error_iff.mp hmatch with hmerge | ⟨_, _, -, hrest⟩
        · exact (lower_build_ne_error hmerge).elim
        · rcases bind_eq_error_iff.mp hrest with hset | ⟨_, _, -, hpure⟩
          · cases hset
          · cases hpure

instance (cond : ValueId) (target : Nat) :
    Upholds (EmitState.Upheld W V) (EmitState.Failed F) (conditional site cond target) := by
  unfold conditional
  refine upholds_reconcile fun thenBlock hthen => ?_
  split
  · exact hB.br hthen
  · exact upholds_reconcile fun elseBlock helse => hB.condBr hthen helse

instance : Upholds (EmitState.Upheld W V) (EmitState.Failed F) (branch site) := by
  unfold branch
  exact Upholds.seq inferInstance fun target => upholds_reconcile fun block hblock =>
    hB.br hblock

instance (onZero : Bool) :
    Upholds (EmitState.Upheld W V) (EmitState.Failed F) (branchIf site onZero) := by
  unfold branchIf
  infer_instance

instance (relation : Relation) (unsigned : Bool) :
    Upholds (EmitState.Upheld W V) (EmitState.Failed F)
      (compareBranch site relation unsigned) := by
  unfold compareBranch
  infer_instance

omit hP in
include hF in
/-- An edge of a jump table leads to a block of the body. -/
theorem upholds_edge {known : List (Nat × BlockId)} {position : Nat}
    {g : List (Nat × BlockId) × BlockId → Emit α} (hknown : ∀ x ∈ known, mine x.2)
    (hg : ∀ known' target, (∀ x ∈ known', mine x.2) → mine target →
      Upholds (EmitState.Upheld W V) (EmitState.Failed F) (g (known', target))) :
    Upholds (EmitState.Upheld W V) (EmitState.Failed F) (edge site known position >>= g) := by
  unfold edge
  cases hlookup : known.lookup position with
  | some block =>
      obtain ⟨before, after, rfl, -⟩ := List.lookup_eq_some_iff.mp hlookup
      simp only [pure_bind]
      exact hg _ _ hknown (hknown (position, block) (by simp))
  | none =>
      simp only [bind_assoc, pure_bind]
      refine upholds_reconcile fun block hblock => hg _ _ ?_ hblock
      exact List.forall_mem_append.mpr ⟨hknown, by simpa using hblock⟩

omit hP in
include hF in
theorem upholds_switchCases {known : List (Nat × BlockId)} {case : Nat} {positions : List Nat}
    {g : List (Nat × BlockId) × List (Int × BlockId) → Emit α} (hknown : ∀ x ∈ known, mine x.2)
    (hg : ∀ known' cases, (∀ x ∈ known', mine x.2) → (∀ x ∈ cases, mine x.2) →
      Upholds (EmitState.Upheld W V) (EmitState.Failed F) (g (known', cases))) :
    Upholds (EmitState.Upheld W V) (EmitState.Failed F)
      (switchCases site known case positions >>= g) := by
  induction positions generalizing known case g with
  | nil =>
      simp only [switchCases, pure_bind]
      exact hg _ _ hknown (by simp)
  | cons position rest ih =>
      simp only [switchCases, bind_assoc, pure_bind]
      refine upholds_edge hknown fun known₁ target hknown₁ htarget => ?_
      refine ih hknown₁ fun known₂ cases hknown₂ hcases => hg _ _ hknown₂ ?_
      exact List.forall_mem_cons.mpr ⟨htarget, hcases⟩

instance : Upholds (EmitState.Upheld W V) (EmitState.Failed F) (switch site) := by
  unfold switch
  split
  · refine Upholds.seq inferInstance fun selector => Upholds.seq inferInstance fun type =>
      Upholds.seq inferInstance fun signed => Upholds.seq inferInstance fun value => ?_
    refine upholds_switchCases (by simp) fun known cases hknown hcases => ?_
    exact upholds_edge hknown fun _ default _ hdefault =>
      hB.switch hdefault hcases
  · infer_instance

instance : Upholds (EmitState.Upheld W V) (EmitState.Failed F) (ret site) := by
  have := hB.ret
  unfold ret
  dsimp only
  infer_instance

instance : Upholds (EmitState.Upheld W V) (EmitState.Failed F) (enterBlock site) := by
  have hmove : Upholds (EmitState.Upheld W V) (EmitState.Failed F) (do
      match leader? (← get) site.index with
      | none => malformed site (.targetNotInstruction site.index)
      | some l => do
          modify fun s => { s with current := l.block, stack := l.incoming.snapshot }
          Build.positionAtEnd l.block : Emit Unit) := by
    refine ⟨fun {s u s'} hs h => ?_, fun {s e s'} hs h => ?_⟩
    · rw [getBind_eq_ok_iff] at h
      cases hl : leader? s site.index with
      | none => simp [hl] at h
      | some l =>
          simp only [hl, bind_eq_ok_iff, modify_eq_ok_iff, liftM_build, lower_eq_ok_iff,
            Lower.build_eq_ok_iff] at h
          obtain ⟨_, _, rfl, _, ⟨m, hposition, rfl⟩, rfl⟩ := h
          obtain rfl := Build.positionAtEnd_eq_ok hposition
          have henter := hB.enter hs (mem_of_leader? hl).1
          exact henter
    · rcases bind_eq_error_iff.mp h with hget | ⟨_, _, hget, hmatch⟩
      · cases hget
      · cases hget
        cases hl : leader? s site.index with
        | none =>
            simp only [hl] at hmatch
            cases hmatch
            exact (hF s.current).here hs.session rfl
        | some l =>
            simp only [hl] at hmatch
            rcases bind_eq_error_iff.mp hmatch with hmodify | ⟨_, _, -, hposition⟩
            · cases hmodify
            · exact (lower_build_ne_error hposition).elim
  unfold enterBlock
  refine Upholds.seq inferInstance fun s => Upholds.seq inferInstance fun ended => ?_
  split
  · exact upholds_reconcile fun block hblock =>
      Upholds.seq (hB.br hblock) fun _ => hmove
  · exact hmove

include hB hF in
/-- Every instruction that is lowered, given the actions that look up what has been made of a
type. -/
theorem upholds_instruction
    (hstraight : ∀ action, dispatch site.instr.opcode = .action action → endsBlock action = false →
      Upholds (EmitState.Upheld W V) (EmitState.Failed F) (perform site action)) :
    Upholds (EmitState.Upheld W V) (EmitState.Failed F) (instruction site) := by
  unfold instruction
  split
  · rename_i action haction
    cases hends : endsBlock action with
    | false => exact hstraight action haction hends
    | true =>
        cases action with
        | branch | branchIf | compareBranch | switch | ret =>
            unfold perform
            infer_instance
        | _ => simp [endsBlock] at hends
  · exact upholds_fail rfl
  · exact upholds_fail rfl

end Branches

set_option synthInstance.maxSize 4096 in
/-- Every instruction, whatever is looked up. -/
theorem upholds_instruction_of_answering {mine : BlockId → Prop}
    [hB : Branching site.toFrame mine W V F] [hF : ∀ b, Answering site.asm P (W b) F]
    [hP : Change.Coding P] :
    Upholds (EmitState.Upheld W V) (EmitState.Failed F) (instruction site) := by
  have hemitted (b : BlockId) : Emitted site.asm P (W b) F := (hF b).toEmitted
  refine upholds_instruction fun action _ hends => ?_
  refine upholds_perform (fun _ f object _ => ?_) (fun _ => ?_) (fun _ => ?_) hends
  · have (b : BlockId) := (hF b).consult (α := TypeId)
    have (b : BlockId) := (hF b).layout (α := Nat)
    unfold fieldAddress
    infer_instance
  · have (slot : MethodId) :
        Upholds (EmitState.Upheld W V) (EmitState.Failed F) (callSlot site slot) := by
      unfold callSlot
      dsimp only
      refine Upholds.seq inferInstance fun callee => Upholds.seq inferInstance fun args => ?_
      split <;> infer_instance
    unfold callVirtual
    refine Upholds.seq inferInstance fun target => Upholds.seq inferInstance fun slot => ?_
    cases slot <;> infer_instance
  · unfold newObject
    refine Upholds.seq inferInstance fun ctor => Upholds.seq inferInstance fun d =>
      Upholds.seq inferInstance fun args => Upholds.seq inferInstance fun kind => ?_
    cases kind <;> infer_instance

section Bodies

variable {frame : Frame} {mine : BlockId → Prop} [hB : Branching frame mine W V F]
  [hF : ∀ b, Emitted frame.asm P (W b) F]

include hB hF in
/-- The instructions of a body, given each of them. -/
theorem upholds_instructions {index : Nat} {instrs : List Instruction}
    (hinstrs : ∀ (site : Site), site.toFrame = frame → site.instr ∈ instrs →
      Upholds (EmitState.Upheld W V) (EmitState.Failed F) (instruction site)) :
    Upholds (EmitState.Upheld W V) (EmitState.Failed F) (instructions frame index instrs) := by
  induction instrs generalizing index with
  | nil =>
      unfold instructions
      infer_instance
  | cons instr rest ih =>
      have hfirst := hinstrs { frame with index, instr } rfl List.mem_cons_self
      have hrest (n : Nat) : Upholds (EmitState.Upheld W V) (EmitState.Failed F)
          (instructions frame n rest) :=
        ih fun site hframe hmem => hinstrs site hframe (List.mem_cons_of_mem _ hmem)
      have henter : Upholds (EmitState.Upheld W V) (EmitState.Failed F)
          (enterBlock { frame with index, instr }) := inferInstance
      unfold instructions
      dsimp only
      infer_instance

include hB hF in
theorem upholds_emission {body : MethodBody}
    (hinstrs : ∀ (site : Site), site.toFrame = frame → site.instr ∈ body.instructions →
      Upholds (EmitState.Upheld W V) (EmitState.Failed F) (instruction site)) :
    Upholds (EmitState.Upheld W V) (EmitState.Failed F) (emission frame body) := by
  have hunreachable := hB.unreachable
  have hbody : Upholds (EmitState.Upheld W V) (EmitState.Failed F)
      (instructions frame 0 body.instructions) :=
    upholds_instructions hinstrs
  unfold emission
  infer_instance

end Bodies

section Runs

variable {start : Session → EmitState} {x : Emit α} {s s' : Session}

theorem run_eq_ok_iff {a : α} :
    Emit.run start x s = .ok a s' ↔ ∃ t, x (start s) = .ok a t ∧ s' = t.session := by
  unfold Emit.run
  cases x (start s) <;> simp [eq_comm]

theorem run_eq_error_iff {stop : Stop} :
    Emit.run start x s = .error stop s' ↔ ∃ t, x (start s) = .error stop t ∧ s' = t.session := by
  unfold Emit.run
  cases x (start s) <;> simp [eq_comm]

end Runs

end Emit

/-- A body is emitted from where its prologue leads to. -/
theorem emitBody_eq {asm : Assembly} {d : MethodDef} {name : String} {f : FunctionId}
    {body : MethodBody} : emitBody asm d name f body = (do
      let (frame, entry, leaders) ← prologue asm d name f body
      Emit.run (fun session => { session, leaders, current := entry }) (emission frame body)) := by
  simp only [emitBody, prologue, bind_assoc, pure_bind]

section Everywhere

variable {P : Change → Prop} {I : Session → Prop} {F : LoweringError → Session → Prop}
  {asm : Assembly} {frame : Frame} {α : Type}

/-- What holds in every block is passed on to any other. -/
theorem branching_of_flowing [hI : Upholding P I F] [hP : Change.Flowing P] :
    Emit.Branching frame (fun _ => True) (fun _ => I) (fun _ _ => True) F where
  merge {s l position incoming m} hs _ hrun := by
    have hmerge : Keeps (Module.Evolves P)
        (l.incoming.merge frame.asm s.stack s.current l.block l.refers) := inferInstance
    exact ⟨trivial, hI.build hmerge hs.session hrun, trivial⟩
  ends {t x} hx _ := by
    have hends : Keeps (Module.Evolves P) x := ⟨fun h => (hx.run h).mono fun c hc => by
      cases c with
      | terminate => exact hP.terminate _ _
      | record => exact hP.record _
      | _ => exact hc.elim⟩
    infer_instance
  enter {s l} hs _ := by
    have hmove : Keeps (Module.Evolves P) (Build.positionAtEnd l.block) := inferInstance
    exact ⟨hI.build hmove hs.session rfl, trivial⟩

/-- An emission does to the session what its steps do. -/
theorem upholds_run {start : Session → EmitState} {x : Emit α} (hstart : ∀ s, (start s).session = s)
    (hx : Upholds (EmitState.Upheld (fun _ => I) fun _ _ => True) (EmitState.Failed F) x) :
    Upholds I F (Emit.run start x) where
  ok {s a s'} hs h := by
    obtain ⟨t, hrun, rfl⟩ := Emit.run_eq_ok_iff.mp h
    exact (hx.ok ⟨(hstart s).symm ▸ hs, trivial⟩ hrun).session
  fails {s e s'} hs h := by
    obtain ⟨t, hrun, rfl⟩ := Emit.run_eq_error_iff.mp h
    exact hx.fails ⟨(hstart s).symm ▸ hs, trivial⟩ hrun

/-- A body is emitted into its function, given its instructions.  Something may begin to hold with
the first block. -/
theorem leads_emitBody_of_entry [hI : Emitted asm P I F] [hP : Change.Flowing P]
    {before : Session → Prop} {d : MethodDef} {name : String} {f : FunctionId} {body : MethodBody}
    (hentry : Leads before (fun _ => I) F (Lower.build (Build.appendBlock f "entry")))
    (happend : ∀ name, Upholds I F (Lower.build (Build.appendBlock f name)))
    (hinstrs : ∀ site : Site, site.asm = asm → site.instr ∈ body.instructions →
      Upholds (EmitState.Upheld (fun _ => I) fun _ _ => True) (EmitState.Failed F)
        (Emit.instruction site)) : Leads before (fun _ => I) F (emitBody asm d name f body) := by
  have hleader (index refers : Nat) : Upholds I F (Lower.build (appendLeader f index refers)) := by
    have := happend (blockName index)
    simp only [appendLeader, Lower.build_bind]
    infer_instance
  have hrun (args locals : List Variable) (leaders : List Leader) (entry : BlockId) :
      Upholds I F (Emit.run (fun session => { session, leaders, current := entry })
        (emission { asm, method := d, name, args, locals } body)) := by
    have hbranching : Emit.Branching { asm, method := d, name, args, locals } (fun _ => True)
        (fun _ => I) (fun _ _ => True) F := branching_of_flowing
    have hemitted (_ : BlockId) : Emitted asm P I F := hI
    refine upholds_run (fun _ => rfl) (Emit.upholds_emission fun site hframe hmem => ?_)
    exact hinstrs site (by rw [hframe]) hmem
  unfold emitBody
  refine hentry.seq fun entry => Upholds.leads ?_
  infer_instance

end Everywhere

end Lowering

end CilSsa
