import CilSsa.Proofs.ClosedBuilding

/-!
Requests keep modules closed.

Types, constants, globals and code are added with what is given and what has been found, so the
actions of the builder keep modules closed one by one.  A function is added after the values that
are about it, and is there when it is done.  So whatever is asked for, a module stays closed, as
long as requests are made with handles of what it has.
-/

namespace CilSsa.Ssa

open HoldsHandles (handles)

namespace Build

open Ssa.Module

variable {given : List Handle}

section Types

instance : Closes given voidType := intern_closes fun _ h => nomatch h

instance (bits : Nat) : Closes given (intType bits) := intern_closes fun _ h => nomatch h

instance (bits : Nat) : Closes given (floatType bits) := intern_closes fun _ h => nomatch h

theorem pointerType_closes {pointee : TypeId} (h : .type pointee ∈ given) :
    Closes given (pointerType pointee) :=
  intern_closes (by simpa [IrType.handles, IrType.parts, IrType.members] using h)

theorem arrayType_closes {element : TypeId} (length : Nat) (h : .type element ∈ given) :
    Closes given (arrayType element length) :=
  intern_closes (by simpa [IrType.handles, IrType.parts, IrType.members] using h)

instance (result : TypeId) (params : List TypeId) :
    Closes (.type result :: params.map .type) (functionType result params) :=
  intern_closes (by simp [IrType.handles, IrType.parts, IrType.members])

instance : Closes given genericPointer := by
  unfold genericPointer
  exact Closes.seq inferInstance fun byte => pointerType_closes (by simp)

instance (struct : TypeId) (members : List TypeId) (packed : Bool) :
    Closes (.type struct :: members.map .type) (setStructBody struct members packed) := by
  unfold setStructBody
  refine Closes.seq inferInstance fun type => ?_
  split
  · rename_i name before
    exact setType_closes (by simp +contextual [IrType.handles, IrType.parts, IrType.members]) rfl
  · infer_instance
  · infer_instance

end Types

section Constants

theorem constInt_closes {type : TypeId} (value : Int) (h : .type type ∈ given) :
    Closes given (constInt type value) :=
  pushValue_closes h fun _ h => nomatch h

instance (bits : Nat) (value : Int) : Closes given (constIntOf bits value) := by
  unfold constIntOf
  exact Closes.seq inferInstance fun type => constInt_closes value (by simp)

theorem constFloat_closes {type : TypeId} (value : Numeric.Binary64) (h : .type type ∈ given) :
    Closes given (constFloat type value) :=
  pushValue_closes h fun _ h => nomatch h

theorem constNull_closes {type : TypeId} (h : .type type ∈ given) : Closes given (constNull type) :=
  pushValue_closes h fun _ h => nomatch h

theorem pushAggregate_closes {type : TypeId} {items : List ValueId} (htype : .type type ∈ given)
    (hitems : ∀ item ∈ items, .value item ∈ given) :
    Closes given (pushValue type (.constAggregate items)) :=
  pushValue_closes htype (by simpa [ValueKind.handles] using hitems)

instance (type : TypeId) (items : List ValueId) :
    Closes (.type type :: items.map .value) (constStruct type items) := by
  unfold constStruct
  refine Closes.seq inferInstance fun body => ?_
  have hpush : Closes (handles body ++ Handle.type type :: items.map Handle.value)
      (pushValue type (.constAggregate items)) :=
    pushAggregate_closes (by simp) (by simp +contextual)
  split <;> infer_instance

instance (element : TypeId) (items : List ValueId) :
    Closes (.type element :: items.map .value) (constArray element items) := by
  unfold constArray
  refine Closes.seq (arrayType_closes _ (by simp)) fun type => ?_
  exact pushAggregate_closes (by simp) (by simp)

instance (text : String) : Closes given (constString text) := by
  unfold constString
  refine Closes.seq inferInstance fun byte => ?_
  refine Closes.seq (arrayType_closes _ (by simp)) fun content => ?_
  refine Closes.seq (pushValue_closes (by simp) fun _ h => nomatch h) fun bytes => ?_
  refine Closes.seq inferInstance fun m => Closes.seq inferInstance fun _ => ?_
  refine Closes.seq (pointerType_closes (by simp)) fun pointer => ?_
  refine Closes.seq (pushValue_closes (by simp) (by simp [ValueKind.handles])) fun global => ?_
  exact Closes.seq (listGlobal_closes (by simp)) fun _ => Closes.pure_of (by simp)

instance (name : String) (content : TypeId) : Closes [.type content] (addGlobal name content) := by
  unfold addGlobal
  refine Closes.seq (constNull_closes (by simp)) fun zero => ?_
  refine Closes.seq (pointerType_closes (by simp)) fun pointer => ?_
  refine Closes.seq inferInstance fun m => ?_
  refine Closes.seq (pushValue_closes (by simp) (by simp [ValueKind.handles])) fun global => ?_
  refine Closes.seq (listGlobal_closes (by simp)) fun _ => ?_
  split
  · exact Closes.seq inferInstance fun _ => Closes.pure_of (by simp)
  · exact Closes.pure_of (by simp)

instance (global value : ValueId) :
    Closes [.value global, .value value] (setInitializer global value) := by
  unfold setInitializer
  refine Closes.seq inferInstance fun type => Closes.seq inferInstance fun isConstant => ?_
  refine Closes.seq inferInstance fun found => ?_
  split
  · rename_i name content initial hkind
    have hset : Closes (handles found ++ (handles isConstant ++ (handles type ++
        [Handle.value global, Handle.value value])))
          (setKind global (.global name content value)) :=
      setKind_closes (by simp [ValueKind.handles, Value.handles, hkind]) rfl
    infer_instance
  · infer_instance

end Constants

section Functions

variable {m m' : Module}

instance (f : FunctionId) (linkage : Linkage) : Closes given (setLinkage f linkage) := by
  unfold setLinkage
  refine Closes.seq inferInstance fun _ => modify_closes fun {m} hclosed _ => ?_
  have hgrows : m.Grows { m with
      functions := m.functions.modify f.index fun f => { f with linkage } } := by
    apply grows_of_le <;> simp
  obtain ⟨htypes, hvalues, hblocks, hfunctions, hglobals⟩ := hclosed.grows hgrows
  exact ⟨⟨htypes, hvalues, hblocks, hfunctions.modify fun _ _ h => h, hglobals⟩, hgrows⟩

instance (f : FunctionId) : Closes given (functionValue f) := by
  unfold functionValue
  exact Closes.seq inferInstance fun function => Closes.pure_of (by simp [Function.handles])

instance (f : FunctionId) (name : String) : Closes [.function f] (appendBlock f name) where
  run {m id m'} hrun hclosed hgiven := by
    obtain ⟨rfl, rfl, -⟩ := appendBlock_eq_ok hrun
    have hgrows : m.Grows (m.apply (.addBlock f name)) := by
      apply grows_of_le <;> simp [Module.apply]
    have hid : (m.apply (.addBlock f name)).Has (.block ⟨m.blocks.size⟩) := by
      simp [Has, Module.apply]
    obtain ⟨htypes, hvalues, hblocks, hfunctions, hglobals⟩ := hclosed.grows hgrows
    refine ⟨⟨htypes, hvalues, hblocks.push ?_, hfunctions.modify ?_, hglobals⟩, hgrows, ?_⟩
    · simpa [Block.handles, HasAll] using hgrows _ (hgiven _ List.mem_cons_self)
    · intro function _ hfunction handle hmem
      have hmem' : handle ∈ function.handles ∨ handle = .block ⟨m.blocks.size⟩ := by
        simpa [Function.handles, or_assoc] using hmem
      rcases hmem' with hold | rfl
      · exact hfunction handle hold
      · exact hid
    · simpa [HasAll] using hid

theorem pushParams_grows {f : FunctionId} {index : Nat} {types : List TypeId}
    {params : List ValueId} (hrun : pushParams f index types m = .ok params m') :
    m.values.size ≤ m'.values.size ∧ ∀ param ∈ params, m'.Has (.value param) := by
  induction types generalizing index params m with
  | nil =>
      obtain ⟨rfl, rfl⟩ := pure_eq_ok_iff.mp hrun
      exact ⟨Nat.le_refl _, fun _ h => nomatch h⟩
  | cons type rest ih =>
      simp only [pushParams, bind_eq_ok_iff, pure_eq_ok_iff] at hrun
      obtain ⟨id, m₁, hpush, others, m₂, hrest, rfl, rfl⟩ := hrun
      cases hpush
      obtain ⟨hle, hothers⟩ := ih hrest
      have hlt : m.values.size < m'.values.size := by
        simpa [Nat.add_one_le_iff] using hle
      exact ⟨Nat.le_of_lt hlt, List.forall_mem_cons.mpr ⟨hlt, hothers⟩⟩

/-- What holds of values and of parameters holds of the values with the parameters. -/
theorem pushParams_throughout {P : Nat → Value → Prop} {f : FunctionId} {index : Nat}
    {types : List TypeId} {params : List ValueId}
    (hrun : pushParams f index types m = .ok params m')
    (hparam : ∀ i, ∀ type ∈ types, ∀ position, P i ⟨type, .param f position⟩)
    (hvalues : Throughout m.values P) : Throughout m'.values P := by
  induction types generalizing index params m with
  | nil =>
      obtain ⟨rfl, rfl⟩ := pure_eq_ok_iff.mp hrun
      exact hvalues
  | cons type rest ih =>
      simp only [pushParams, bind_eq_ok_iff, pure_eq_ok_iff] at hrun
      obtain ⟨id, m₁, hpush, others, m₂, hrest, rfl, rfl⟩ := hrun
      cases hpush
      exact ih hrest (fun i t ht => hparam i t (List.mem_cons_of_mem _ ht))
        (hvalues.push (hparam _ type List.mem_cons_self index))

/-- A function is added together with the values that are about it. -/
theorem found_closed {m₁ m₂ : Module} {name : String} {type pointer : TypeId} {linkage : Linkage}
    {types : List TypeId} {value : ValueId} {params : List ValueId} (hclosed : m.Closed)
    (hgiven : m.HasAll (.type type :: .type pointer :: types.map .type))
    (hvalue : pushValue pointer (.function ⟨m.functions.size⟩) m = .ok value m₁)
    (hparams : pushParams ⟨m.functions.size⟩ 0 types m₁ = .ok params m₂)
    (hlast : m' = m₂.apply (.addFunction { name, type, linkage, params, value })) :
    m'.Closed ∧ m.Grows m' ∧ m'.HasAll [.function ⟨m.functions.size⟩] := by
  cases hvalue
  obtain ⟨hle, hknown⟩ := pushParams_grows hparams
  have hthroughout {P : Nat → Value → Prop} := pushParams_throughout (P := P) hparams
  obtain ⟨values, rfl⟩ := pushParams_same hparams
  have hlt : m.values.size < m'.values.size := by
    simpa [hlast, Module.apply, Nat.add_one_le_iff] using hle
  have hgrows : m.Grows m' := by
    refine grows_of_le ?_ (Nat.le_of_lt hlt) ?_ ?_ <;> simp [hlast, Module.apply]
  have hf : m'.Has (.function ⟨m.functions.size⟩) := by simp [hlast, Module.apply, Has]
  have hnamed : m'.HasAll (.type type :: .type pointer :: types.map .type) := hgiven.grows hgrows
  simp only [HasAll, List.forall_mem_cons, List.forall_mem_map] at hnamed
  obtain ⟨htype, hpointer, hparamTypes⟩ := hnamed
  obtain ⟨htypes, hvalues, hblocks, hfunctions, hglobals⟩ := hclosed.grows hgrows
  have hvalue : m'.ValueAt m.values.size ⟨pointer, .function ⟨m.functions.size⟩⟩ :=
    ⟨by simp [HasAll, Value.handles, ValueKind.handles, hpointer, hf], fun _ h => nomatch h⟩
  have hparam (i : Nat) (t : TypeId) (ht : t ∈ types) (position : Nat) :
      m'.ValueAt i ⟨t, .param ⟨m.functions.size⟩ position⟩ :=
    ⟨by simp [HasAll, Value.handles, ValueKind.handles, hparamTypes t ht, hf], fun _ h => nomatch h⟩
  have hvalues' : Throughout values m'.ValueAt := hthroughout hparam (hvalues.push hvalue)
  have hparams' : ∀ param ∈ params, m'.Has (.value param) := by
    simpa [hlast, Module.apply, Has] using hknown
  have hfunction : m'.HasAll
      { name, type, linkage, params, value := ⟨m.values.size⟩ : Function }.handles := by
    simpa [HasAll, Function.handles, or_imp, forall_and] using ⟨htype, hlt, hparams'⟩
  subst hlast
  exact ⟨⟨htypes, hvalues', hblocks, hfunctions.push hfunction, hglobals⟩, hgrows,
    by simpa [HasAll] using hf⟩

instance (name : String) (type : TypeId) : Closes [.type type] (paramTypes name type) where
  run {m types m'} hrun hclosed hgiven := by
    rcases paramTypes_eq_ok hrun with ⟨rfl, result, hsignature⟩ | ⟨-, rfl, hrecord⟩
    · refine ⟨hclosed, Std.Refl.refl _, fun handle hmem =>
        hclosed.signature hsignature handle (List.mem_cons_of_mem _ ?_)⟩
      simpa using hmem
    · have hrecorded : Closes [.type type] (record (.functionOfNonFunctionType name)) :=
        inferInstance
      obtain ⟨hclosed', hgrows, -⟩ := hrecorded.run hrecord hclosed hgiven
      exact ⟨hclosed', hgrows, List.forall_mem_nil _⟩

/-- A function is added once the types of its parameters are known. -/
theorem appendFunction_closed {name : String} {type : TypeId} {linkage : Linkage}
    {types : List TypeId} {f id : FunctionId} (hclosed : m.Closed)
    (hgiven : m.HasAll (.type type :: types.map .type)) (hid : id = ⟨m.functions.size⟩)
    (hrun : appendFunction id name type linkage types m = .ok f m') :
    m'.Closed ∧ m.Grows m' ∧ m'.HasAll [.function f] := by
  obtain ⟨rfl, pointer, m₁, value, m₂, params, m₃, hpointer, hvalue, hparams, hlast⟩ :=
    appendFunction_eq_ok hrun
  obtain ⟨hclosed₁, hgrows₁, hpointer'⟩ :=
    (pointerType_closes List.mem_cons_self).run hpointer hclosed hgiven
  obtain rfl : f = ⟨m₁.functions.size⟩ := by
    obtain ⟨_, rfl⟩ := intern_same hpointer
    exact hid
  have hgiven₁ : m₁.HasAll (.type type :: .type pointer :: types.map .type) := by
    simp only [HasAll, List.forall_mem_cons] at hgiven ⊢
    exact ⟨hgrows₁ _ hgiven.1, hpointer' _ List.mem_cons_self, HasAll.grows hgiven.2 hgrows₁⟩
  obtain ⟨hclosed₄, hgrows₄, hf⟩ := found_closed hclosed₁ hgiven₁ hvalue hparams
    (Eq.refl (m₃.apply (.addFunction { name, type, linkage, params, value })))
  rcases hlast with rfl | hrecord
  · exact ⟨hclosed₄, IsTrans.trans _ _ _ hgrows₁ hgrows₄, hf⟩
  · have hrecorded : Closes [] (record (.functionTwice name)) := inferInstance
    obtain ⟨hclosed', hgrows', -⟩ := hrecorded.run hrecord hclosed₄ (List.forall_mem_nil _)
    exact ⟨hclosed', IsTrans.trans _ _ _ hgrows₁ (IsTrans.trans _ _ _ hgrows₄ hgrows'),
      HasAll.grows hf hgrows'⟩

instance (name : String) (type : TypeId) (linkage : Linkage) :
    Closes [.type type] (addFunction name type linkage) where
  run {m f m'} hrun hclosed hgiven := by
    obtain ⟨types, m₁, htypes, hrun⟩ := addFunction_eq_ok hrun
    have hasked : Closes [.type type] (paramTypes name type) := inferInstance
    obtain ⟨hclosed₁, hgrows₁, hknown⟩ := hasked.run htypes hclosed hgiven
    rw [HoldsHandles.handles_types] at hknown
    have hgiven₁ : m₁.HasAll (.type type :: types.map .type) :=
      List.forall_mem_cons.mpr ⟨hgrows₁ _ (hgiven _ List.mem_cons_self), hknown⟩
    obtain ⟨hclosed', hgrows', hf⟩ :=
      appendFunction_closed hclosed₁ hgiven₁ (by rw [paramTypes_functions htypes]) hrun
    exact ⟨hclosed', IsTrans.trans _ _ _ hgrows₁ hgrows', hf⟩

end Functions

section Instructions

theorem query_block_closes {α : Type} [HoldsHandles α] {b : BlockId} {f : Block → Build α}
    (hf : ∀ block, Closes (.block b :: block.handles ++ given) (f block)) :
    Closes given (query (·.block b) >>= f) where
  run {m a m'} hrun hclosed hgiven := by
    simp only [bind_eq_ok_iff, query_eq_ok_iff] at hrun
    obtain ⟨block, m₁, ⟨hblock, rfl⟩, hrun⟩ := hrun
    have hblock' := Arena.entry_eq_ok_iff.mp hblock
    refine (hf block).run hrun hclosed ?_
    simp only [HasAll, List.cons_append, List.forall_mem_cons, List.forall_mem_append]
    exact ⟨(Array.getElem?_eq_some_iff.mp hblock').1, hclosed.blocks _ _ hblock', hgiven⟩

theorem pushInst_closes {type : TypeId} {inst : Inst} (htype : .type type ∈ given)
    (hinst : ∀ handle ∈ inst.handles, handle ∈ given) : Closes given (pushInst type inst) := by
  unfold pushInst
  refine Closes.seq inferInstance fun m => ?_
  split
  · refine Closes.seq inferInstance fun _ => pushValue_closes ?_ ?_
    · simp [htype]
    · simpa [ValueKind.handles] using hinst
  · rename_i b _
    refine query_block_closes fun block => ?_
    have hrest : Closes (.block b :: block.handles ++ (handles m ++ given)) (do
        let id ← pushValue type (.inst (some b) inst)
        modifyBlock b fun block => { block with insts := block.insts ++ [id] }
        return id) := by
      refine Closes.seq (pushValue_closes (by simp [htype]) ?_) fun id => ?_
      · simp +contextual [ValueKind.handles, hinst]
      · refine Closes.seq (modifyInsts_closes (· ++ [id]) fun insts v hv => ?_) fun _ =>
          Closes.pure_of (by simp)
        have hv' : v ∈ insts ∨ v = id := by simpa using hv
        exact hv'.imp_right fun h => by simp [h]
    infer_instance

theorem terminate_closes {terminator : Terminator}
    (h : ∀ handle ∈ terminator.handles, handle ∈ given) : Closes given (terminate terminator) := by
  unfold terminate
  refine Closes.seq inferInstance fun m => ?_
  split
  · infer_instance
  · refine Closes.seq inferInstance fun block => ?_
    have hend (b : BlockId) : Closes (handles block ++ (handles m ++ given))
        (modifyBlock b fun block => { block with terminator := some terminator }) := by
      refine modifyBlock_closes fun block' handle hmem => ?_
      simp only [Block.handles, List.mem_append, Option.toList_some,
        List.flatMap_singleton] at hmem ⊢
      exact hmem.imp .inl fun hnew => .inr (.inr (h handle hnew))
    infer_instance

instance (op : BinaryOp) (lhs rhs : ValueId) :
    Closes [.value lhs, .value rhs] (binary op lhs rhs) := by
  unfold binary
  refine Closes.seq inferInstance fun type => ?_
  have hpush : Closes (handles type ++ [Handle.value lhs, Handle.value rhs])
      (pushInst type (.binary op lhs rhs)) := pushInst_closes (by simp) (by simp [Inst.handles])
  infer_instance

instance (op : UnaryOp) (operand : ValueId) : Closes [.value operand] (unary op operand) := by
  unfold unary
  refine Closes.seq inferInstance fun type => ?_
  have hpush : Closes (handles type ++ [Handle.value operand])
      (pushInst type (.unary op operand)) := pushInst_closes (by simp) (by simp [Inst.handles])
  infer_instance

theorem compare_closes {inst : Inst} (hinst : ∀ handle ∈ inst.handles, handle ∈ given) :
    Closes given (do pushInst (← intType 1) inst) :=
  Closes.seq inferInstance fun _ => pushInst_closes (by simp) (by simp +contextual [hinst])

instance (pred : IntPredicate) (lhs rhs : ValueId) :
    Closes [.value lhs, .value rhs] (icmp pred lhs rhs) := by
  have hpush : Closes [.value lhs, .value rhs] (do pushInst (← intType 1) (.icmp pred lhs rhs)) :=
    compare_closes (by simp [Inst.handles])
  unfold icmp
  infer_instance

instance (pred : FloatPredicate) (lhs rhs : ValueId) :
    Closes [.value lhs, .value rhs] (fcmp pred lhs rhs) := by
  have hpush : Closes [.value lhs, .value rhs] (do pushInst (← intType 1) (.fcmp pred lhs rhs)) :=
    compare_closes (by simp [Inst.handles])
  unfold fcmp
  infer_instance

theorem cast_closes (op : CastOp) {value : ValueId} {target : TypeId}
    (hvalue : .value value ∈ given) (htarget : .type target ∈ given) :
    Closes given (cast op value target) := by
  have hpush : Closes given (pushInst target (.cast op value)) :=
    pushInst_closes htarget (by simp [Inst.handles, hvalue])
  unfold cast
  infer_instance

instance (value : ValueId) (target : TypeId) (signed : Bool) :
    Closes [.value value, .type target] (intCast value target signed) := by
  have hcast (op : CastOp) : Closes [.value value, .type target] (cast op value target) :=
    cast_closes op (by simp) (by simp)
  have hsame : Closes [.value value, .type target] (pure value : Build ValueId) :=
    Closes.pure_of (by simp)
  exact intCast_of (Closes.andThen inferInstance) (fun _ => Closes.andThen inferInstance) hcast
    hsame

instance (type : TypeId) : Closes [.type type] (alloca type) := by
  unfold alloca
  refine Closes.seq (pointerType_closes (by simp)) fun pointer => ?_
  exact pushInst_closes (by simp) (by simp [Inst.handles])

instance (type : TypeId) (pointer : ValueId) :
    Closes [.type type, .value pointer] (load type pointer) := by
  have hpush : Closes [.type type, .value pointer] (pushInst type (.load pointer)) :=
    pushInst_closes (by simp) (by simp [Inst.handles])
  unfold load
  infer_instance

instance (pointer value : ValueId) (isVolatile : Bool) :
    Closes [.value pointer, .value value] (store pointer value isVolatile) := by
  have hpush : Closes [.value pointer, .value value] (do
      let _ ← pushInst (← voidType) (.store pointer value isVolatile) : Build Unit) := by
    refine Closes.seq inferInstance fun type => Closes.seq (pushInst_closes ?_ ?_) fun _ => ?_
    · simp
    · simp [Inst.handles]
    · exact Closes.pure
  unfold store
  infer_instance

instance (type : TypeId) (pointer : ValueId) (index : Nat) :
    Closes [.type type, .value pointer] (structGep type pointer index) := by
  unfold structGep
  refine Closes.seq inferInstance fun found => ?_
  have hpush (member : TypeId) : Closes (.type member :: [.type type, .value pointer]) (do
      pushInst (← pointerType member) (.structGep type pointer index)) := by
    refine Closes.seq (pointerType_closes (by simp)) fun address => ?_
    exact pushInst_closes (by simp) (by simp [Inst.handles])
  split
  · rename_i member
    exact (hpush member).mono (by simp)
  · refine Closes.seq inferInstance fun _ => Closes.seq inferInstance fun member => ?_
    exact (hpush member).mono (by simp)

instance (element : TypeId) (pointer index : ValueId) :
    Closes [.type element, .value pointer, .value index] (gep element pointer index) := by
  have hpush : Closes [.type element, .value pointer, .value index] (do
      pushInst (← pointerType element) (.gep element pointer index)) := by
    refine Closes.seq (pointerType_closes (by simp)) fun address => ?_
    exact pushInst_closes (by simp) (by simp [Inst.handles])
  unfold gep
  infer_instance

instance (type : TypeId) (count : Option ValueId) :
    Closes (.type type :: count.toList.map .value) (heapAlloc type count) := by
  unfold heapAlloc
  refine Closes.seq (pointerType_closes (by simp)) fun address => ?_
  exact pushInst_closes (by simp) (by simp +contextual [Inst.handles])

instance (b : BlockId) (type : TypeId) : Closes [.block b, .type type] (phi b type) := by
  unfold phi
  refine Closes.seq (pushValue_closes (by simp) (by simp [ValueKind.handles, Inst.handles]))
    fun id => Closes.seq inferInstance fun block => Closes.seq inferInstance fun m => ?_
  refine Closes.seq (modifyInsts_closes (fun _ => block.insts.takeWhile (isPhi m) ++
    id :: block.insts.dropWhile (isPhi m)) fun _ v hv => ?_) fun _ => Closes.pure_of (by simp)
  have hv' : v ∈ block.insts ∨ v = id := by
    rw [List.mem_append, List.mem_cons] at hv
    rcases hv with h | h | h
    · exact .inl (List.takeWhile_subset _ h)
    · exact .inr h
    · exact .inl (List.dropWhile_subset _ h)
  refine .inr ?_
  rcases hv' with h | rfl <;> simp [Block.handles, *]

instance (phi value : ValueId) (source : BlockId) :
    Closes [.value phi, .value value, .block source] (addIncoming phi value source) := by
  unfold addIncoming
  have hadd : Closes [.value phi, .value value, .block source] (do
      match (← query (·.value phi)).kind with
      | .inst block (.phi incoming) =>
          setKind phi (.inst block (.phi (incoming ++ [(value, source)])))
      | _ => record .incomingOfNonPhi) := by
    refine Closes.seq inferInstance fun found => ?_
    split
    · rename_i block incoming hkind
      refine setKind_closes (fun handle hmem => ?_) rfl
      have hmem' :
          handle ∈ found.kind.handles ∨ handle = .value value ∨ handle = .block source := by
        simpa [hkind, ValueKind.handles, Inst.handles, or_assoc] using hmem
      rcases hmem' with h | h | h <;> simp [Value.handles, h]
    · infer_instance
  infer_instance

instance checkArgs_closes (index : Nat) (args : List ValueId) (params : List TypeId) :
    Closes given (checkArgs index args params) := by
  induction args generalizing index params with
  | nil => exact Closes.pure
  | cons arg args ih =>
      cases params with
      | nil => exact Closes.pure
      | cons param params =>
          have := ih (index + 1) params
          unfold checkArgs
          infer_instance

theorem buildCall_closes {type : TypeId} {callee : Callee} {args : List ValueId}
    (hcallee : ∀ handle ∈ callee.handles, handle ∈ given)
    (hargs : ∀ arg ∈ args, .value arg ∈ given) :
    Closes given (buildCall type callee args) := by
  unfold buildCall
  refine Closes.seq inferInstance fun signature => ?_
  have hpush {given' : List Handle} {result : TypeId} (hresult : .type result ∈ given')
      (hgiven : ∀ handle ∈ given, handle ∈ given') :
      Closes given' (pushInst result (.call callee args)) := by
    refine pushInst_closes hresult fun handle hmem => hgiven handle ?_
    simp only [Inst.handles, List.mem_append, List.mem_map] at hmem
    rcases hmem with h | ⟨arg, harg, rfl⟩
    · exact hcallee handle h
    · exact hargs arg harg
  split
  · refine Closes.seq inferInstance fun _ => Closes.seq inferInstance fun type => ?_
    refine Closes.seq (hpush (by simp) (by simp +contextual)) fun _ => Closes.pure_of (by simp)
  · rename_i result params
    have hrest : Closes (handles (some (result, params)) ++ given) (do
        let value ← pushInst result (.call callee args)
        return if (← query (·.classify result)) = .void then none else some value) := by
      refine Closes.seq (hpush (by simp) (by simp +contextual)) fun value => ?_
      refine Closes.seq inferInstance fun kind => ?_
      split <;> exact Closes.pure_of (by simp)
    infer_instance

instance (function : FunctionId) (args : List ValueId) :
    Closes (.function function :: args.map .value) (call function args) := by
  have hcall (type : TypeId) : Closes (.function function :: args.map .value)
      (buildCall type (.direct function) args) :=
    buildCall_closes (by simp [Callee.handles]) (by simp)
  unfold call
  infer_instance

instance (type : TypeId) (callee : ValueId) (args : List ValueId) :
    Closes (.type type :: .value callee :: args.map .value) (callIndirect type callee args) := by
  have hcall : Closes (.type type :: .value callee :: args.map .value)
      (buildCall type (.indirect type callee) args) :=
    buildCall_closes (by simp [Callee.handles]) (by simp +contextual)
  unfold callIndirect
  infer_instance

instance (target : BlockId) : Closes [.block target] (br target) :=
  terminate_closes fun _ h => h

instance (cond : ValueId) (thenBlock elseBlock : BlockId) :
    Closes [.value cond, .block thenBlock, .block elseBlock] (condBr cond thenBlock elseBlock) := by
  have hend : Closes [.value cond, .block thenBlock, .block elseBlock]
      (terminate (.condBr cond thenBlock elseBlock)) := terminate_closes fun _ h => h
  unfold condBr
  infer_instance

instance (value : ValueId) (default : BlockId) (cases : List (Int × BlockId)) :
    Closes (.value value :: .block default :: cases.map fun (_, target) => .block target)
      (switch value default cases) :=
  terminate_closes fun _ h => h

instance (value : Option ValueId) : Closes (value.toList.map .value) (ret value) := by
  have hend : Closes (value.toList.map .value) (terminate (.ret value)) :=
    terminate_closes fun _ h => h
  unfold ret
  refine Closes.andThen inferInstance fun function => ?_
  split <;> infer_instance

instance : Closes given unreachable := terminate_closes fun _ h => nomatch h

end Instructions

section Optimization

variable {m : Module}

/-- A phi that has lost entries names nothing new. -/
theorem valueAt_pruneIncoming {whole : Module} {index : Nat} {value : Value} (kept : List BlockId)
    (h : whole.ValueAt index value) : whole.ValueAt index (pruneIncoming kept value) := by
  obtain ⟨hknown, holder⟩ := h
  unfold pruneIncoming
  split
  · rename_i block incoming hkind
    refine ⟨fun handle hmem => hknown handle ?_, fun _ h => absurd h List.not_mem_nil⟩
    simp only [Value.handles, hkind, ValueKind.handles, Inst.handles, List.mem_cons,
      List.mem_append, List.mem_flatMap] at hmem ⊢
    refine hmem.imp_right (Or.imp_right ?_)
    rintro ⟨entry, hentry, hnamed⟩
    exact ⟨entry, List.mem_of_mem_filter hentry, hnamed⟩
  · exact ⟨hknown, holder⟩

theorem keepBlocks_closed (f : FunctionId) (kept : List BlockId) (hclosed : m.Closed) :
    (m.keepBlocks f kept).Closed ∧ m.Grows (m.keepBlocks f kept) := by
  have hgrows : m.Grows (m.keepBlocks f kept) := by
    apply grows_of_le <;> simp [keepBlocks, prunedValues]
  obtain ⟨htypes, hvalues, hblocks, hfunctions, hglobals⟩ := hclosed.grows hgrows
  refine ⟨⟨htypes, hvalues.mapIdx fun i value hvalue => ?_, hblocks,
    hfunctions.modify fun function _ hfunction handle hmem => ?_, hglobals⟩, hgrows⟩
  · split
    · exact valueAt_pruneIncoming kept hvalue
    · exact hvalue
  · refine hfunction handle ?_
    simp only [Function.handles, List.mem_append, List.mem_map] at hmem ⊢
    refine hmem.imp_right ?_
    rintro ⟨b, hb, rfl⟩
    exact ⟨b, List.mem_of_mem_filter hb, rfl⟩

instance (f : FunctionId) (level : OptLevel) : Closes given (optimize f level) where
  run hrun hclosed _ := by
    rcases optimize_cases hrun with rfl | ⟨kept, rfl⟩
    · exact ⟨hclosed, Std.Refl.refl _, by simp [HasAll]⟩
    · obtain ⟨hclosed', hgrows⟩ := keepBlocks_closed f kept hclosed
      exact ⟨hclosed', hgrows, by simp [HasAll]⟩

end Optimization

end Build

namespace Command

/-- The handles that a request is made with. -/
def handles : Command → List Handle
  | voidType | intType _ | floatType _ | genericPointer | namedStruct _ | constIntOf .. => []
  | constString _ | unreachable => []
  | pointerType type | arrayType type _ | constInt type _ | constFloat type _ | constNull type
  | addGlobal _ type | addFunction _ type _ | alloca type => [.type type]
  | functionType result params => .type result :: params.map .type
  | setStructBody struct members _ => .type struct :: members.map .type
  | constStruct type items | constArray type items => .type type :: items.map .value
  | setInitializer global value => [.value global, .value value]
  | setLinkage function _ | functionValue function | param function _ | appendBlock function _
  | optimize function _ => [.function function]
  | positionAtEnd block | br block => [.block block]
  | binary _ lhs rhs | icmp _ lhs rhs | fcmp _ lhs rhs => [.value lhs, .value rhs]
  | unary _ operand => [.value operand]
  | cast _ value target | intCast value target _ => [.value value, .type target]
  | load type pointer | structGep type pointer _ => [.type type, .value pointer]
  | store pointer value _ => [.value pointer, .value value]
  | gep element pointer index => [.type element, .value pointer, .value index]
  | heapAlloc type count => .type type :: count.toList.map .value
  | phi block type => [.block block, .type type]
  | addIncoming node value source => [.value node, .value value, .block source]
  | call function args => .function function :: args.map .value
  | callIndirect type callee args => .type type :: .value callee :: args.map .value
  | condBr cond thenBlock elseBlock => [.value cond, .block thenBlock, .block elseBlock]
  | switch value default cases =>
      .value value :: .block default :: cases.map fun (_, target) => .block target
  | ret value => value.toList.map .value

open Build

variable {given : List Handle}

instance (action : Build TypeId) [h : Closes given action] : Closes given (aType action) :=
  h.seq fun _ => Closes.pure_of (by simp)

instance (action : Build ValueId) [h : Closes given action] : Closes given (aValue action) :=
  h.seq fun _ => Closes.pure_of (by simp)

instance (action : Build Unit) [h : Closes given action] : Closes given (nothing action) :=
  h.seq fun _ => Closes.pure_of (by simp)

theorem result_closes {action : Build (Option ValueId)} (h : Closes given action) :
    Closes given (do return (← action).map Handle.value) :=
  h.seq fun result => Closes.pure_of (by cases result <;> simp)

/-- A request that is made with handles of a closed module keeps it closed, and what it makes is
there. -/
theorem run_closes (c : Command) : Closes c.handles c.run := by
  have htype (type : TypeId) : Handle.type type ∈ [Handle.type type] := List.mem_cons_self
  have hpointer (type : TypeId) := pointerType_closes (htype type)
  have harray (type : TypeId) (length : Nat) := arrayType_closes length (htype type)
  have hint (type : TypeId) (value : Int) := constInt_closes value (htype type)
  have hfloat (type : TypeId) (value : Numeric.Binary64) := constFloat_closes value (htype type)
  have hnull (type : TypeId) := constNull_closes (htype type)
  have hcast (op : CastOp) (value : ValueId) (target : TypeId) :
      Closes [.value value, .type target] (Build.cast op value target) :=
    cast_closes op (by simp) (by simp)
  cases c with
  | addFunction | appendBlock =>
      simp only [handles, run]
      exact Closes.seq inferInstance fun _ => Closes.pure_of (by simp)
  | call | callIndirect =>
      simp only [handles, run]
      exact result_closes inferInstance
  | _ =>
      simp only [handles, run]
      infer_instance

section Histories

variable {name : String} {commands : List Command} {m m' : Module}

/-- Whether requests are made with handles of things that are there by then. -/
def InRange : List Command → Module → Prop
  | [], _ => True
  | c :: rest, m =>
      m.HasAll c.handles ∧
        match c.run m with
        | .ok _ m' => InRange rest m'
        | .error .. => True

instance decidableInRange : (commands : List Command) → (m : Module) →
    Decidable (InRange commands m)
  | [], _ => inferInstanceAs (Decidable True)
  | c :: rest, m =>
      have : Decidable (match c.run m with
          | .ok _ m' => InRange rest m'
          | .error .. => True) :=
        match c.run m with
        | .ok _ m' => decidableInRange rest m'
        | .error .. => inferInstanceAs (Decidable True)
      inferInstanceAs (Decidable (_ ∧ _))

/-- Requests that are made with handles of things that are there keep a module closed. -/
theorem closed_runAll (hrange : InRange commands m) (hclosed : m.Closed)
    (h : runAll commands m = .ok () m') : m'.Closed := by
  induction commands generalizing m with
  | nil =>
      obtain ⟨-, rfl⟩ := pure_eq_ok_iff.mp h
      exact hclosed
  | cons c rest ih =>
      obtain ⟨_, m₁, hfirst, hrest⟩ := bind_eq_ok_iff.mp h
      obtain ⟨made, _, hrun, hpure⟩ := bind_eq_ok_iff.mp hfirst
      obtain ⟨-, rfl⟩ := pure_eq_ok_iff.mp hpure
      obtain ⟨hgiven, hrange'⟩ := hrange
      rw [hrun] at hrange'
      exact ih hrange' ((run_closes c).run hrun hclosed hgiven).1 hrest

theorem closed_of_inRange (hrange : InRange commands { name })
    (h : runAll commands { name } = .ok () m) : m.Closed :=
  closed_runAll hrange (Module.closed_new name) h

end Histories

end Command

end CilSsa.Ssa
