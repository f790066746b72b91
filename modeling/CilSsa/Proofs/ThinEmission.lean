import CilSsa.Proofs.Thinning

/-!
The emission of a body does not see which blocks of a module are kept, as long as its own are.
-/

namespace CilSsa.Lowering

open CilSsa.Metadata CilSsa.Ssa Build

variable {keep : BlockId → Bool} {α β : Type}

section Coercion

instance (value : ValueId) (target : TypeId) (signed : Bool) :
    Overlooks keep (coerce value target signed) :=
  coerce_of (Commutes.seq inferInstance) (fun _ => Commutes.seq inferInstance) (fun _ =>
    inferInstance)
    inferInstance

instance (value : ValueId) (signed : Bool) : Overlooks keep (toNativeInt value signed) := by
  unfold toNativeInt
  infer_instance

variable {asm : Assembly}

instance (e : Element) : Overlooks keep (nativeElement asm e) := by
  unfold nativeElement
  infer_instance

instance (lhs rhs : Element) : Overlooks keep (alignPointers asm lhs rhs) := by
  unfold alignPointers
  dsimp only
  infer_instance

instance (lhs rhs : Element) : Overlooks keep (alignWidths asm lhs rhs) := by
  unfold alignWidths
  refine Commutes.seq inferInstance fun lhsBits => Commutes.seq inferInstance fun rhsBits => ?_
  split <;> infer_instance

instance (value : ValueId) (sig : TypeSig) : Overlooks keep (toStack asm value sig) := by
  unfold toStack
  refine Commutes.seq inferInstance fun onStack => Commutes.seq inferInstance fun type =>
    Commutes.seq inferInstance fun cls => ?_
  split <;> infer_instance

end Coercion

namespace Emit

variable {asm : Assembly}

instance (type : TypeId) (e : Element) : Overlooks keep (pointerTo type e) := by
  unfold pointerTo
  infer_instance

instance (type : TypeId) (e : Element) : Overlooks keep (valueOf asm type e) := by
  unfold valueOf
  infer_instance

instance (value : Int) : Overlooks keep (constInt32 value) := by
  unfold constInt32
  infer_instance

instance (op : BinaryOp) (lhs rhs : Element) : Overlooks keep (floatBinary asm op lhs rhs) := by
  unfold floatBinary
  infer_instance

instance (op : BinaryOp) (lhs rhs : Element) : Overlooks keep (shift op lhs rhs) := by
  unfold shift
  infer_instance

instance (op : BinaryOp) (lhs rhs : Element) : Overlooks keep (intBinary asm op lhs rhs) := by
  unfold intBinary
  dsimp only
  infer_instance

instance (relation : Relation) (unsigned : Bool) (lhs rhs : Element) :
    Overlooks keep (compareFloats asm relation unsigned lhs rhs) := by
  unfold compareFloats
  dsimp only
  infer_instance

instance (relation : Relation) (unsigned : Bool) (lhs rhs : Element) :
    Overlooks keep (compareValues asm relation unsigned lhs rhs) := by
  unfold compareValues
  dsimp only
  infer_instance

instance (e : Element) (onZero : Bool) : Overlooks keep (testZero e onZero) := by
  unfold testZero
  infer_instance

instance (value : ValueId) (target : TypeSig) (signed : Bool) :
    Overlooks keep (convertToFloat value target signed) := by
  unfold convertToFloat
  infer_instance

instance (value : ValueId) (target : TypeSig) (signed : Bool) :
    Overlooks keep (convertToInt asm value target signed) := by
  unfold convertToInt
  dsimp only
  infer_instance

instance (target : TypeSig) (unsignedSource : Bool) (e : Element) :
    Overlooks keep (convertElement asm target unsignedSource e) := by
  unfold convertElement
  dsimp only
  infer_instance

instance (e : Element) : Overlooks keep (nativeValue asm e) := by
  unfold nativeValue
  infer_instance

instance (type : TypeId) (array index : Element) :
    Overlooks keep (elementAddress asm type array index) := by
  unfold elementAddress
  infer_instance

instance (type : TypeId) (value : ValueId) : Overlooks keep (constantAs? type value) := by
  unfold constantAs?
  refine Commutes.seq inferInstance fun target => Commutes.seq inferInstance fun number => ?_
  split
  · infer_instance
  · refine Commutes.seq inferInstance fun number => ?_
    split <;> infer_instance

instance (object : Element) : Overlooks keep (objectAddress object) := by
  unfold objectAddress
  infer_instance

end Emit

section Merging

open EvalStack

variable {asm : Assembly} {source target : BlockId}

/-- The blocks whose values slots still hold without a phi satisfy a condition. -/
def Deferred (p : BlockId → Prop) (slots : List Slot) : Prop :=
  ∀ slot ∈ slots, ∀ source, slot.state = .deferred source → p source

theorem deferred_cons {p : BlockId → Prop} {slot : Slot} {slots : List Slot} :
    Deferred p (slot :: slots) ↔
      (∀ source, slot.state = .deferred source → p source) ∧ Deferred p slots :=
  List.forall_mem_cons

theorem deferred_append {p : BlockId → Prop} {slots slots' : List Slot} :
    Deferred p (slots ++ slots') ↔ Deferred p slots ∧ Deferred p slots' :=
  List.forall_mem_append

theorem deferred_map {p : BlockId → Prop} (h : p source) (elements : List Element) :
    Deferred p (elements.map (⟨·, .deferred source⟩)) := by
  intro slot hslot source' hstate
  obtain ⟨e, -, rfl⟩ := List.mem_map.mp hslot
  obtain rfl := SlotState.deferred.inj hstate
  exact h

theorem deferred_ofElements (p : BlockId → Prop) (elements : List Element) :
    Deferred p (ofElements elements).slots := by
  intro slot hslot source' hstate
  obtain ⟨e, -, rfl⟩ := List.mem_map.mp hslot
  cases hstate

/-- A merge defers nothing but what its source brings. -/
theorem mergeSlot_deferred_to {slot slot' : Slot} {e : Element} {p : BlockId → Prop} {m m' : Module}
    (h : mergeSlot asm source target slot e m = .ok slot' m') (hsource : p source)
    (hslot : ∀ source, slot.state = .deferred source → p source) :
    ∀ source, slot'.state = .deferred source → p source := by
  intro source' hstate
  obtain ⟨held, state⟩ := slot
  cases state with
  | unvisited =>
      obtain ⟨rfl, -⟩ := pure_eq_ok_iff.mp h
      exact SlotState.deferred.inj hstate ▸ hsource
  | deferred first =>
      simp only [mergeSlot, bind_eq_ok_iff, pure_eq_ok_iff] at h
      obtain ⟨_, _, -, _, _, -, _, _, -, _, _, -, _, _, -, rfl, -⟩ := h
      cases hstate
  | phi =>
      simp only [mergeSlot, bind_eq_ok_iff, pure_eq_ok_iff] at h
      obtain ⟨_, _, -, _, _, -, _, _, -, rfl, -⟩ := h
      exact hslot source' hstate

theorem mergeSlots_deferred {slots slots' : List Slot} {elements : List Element}
    {p : BlockId → Prop} {m m' : Module} (hsource : p source) (hslots : Deferred p slots)
    (h : mergeSlots asm source target slots elements m = .ok slots' m') : Deferred p slots' := by
  induction slots generalizing elements slots' m m' with
  | nil =>
      cases elements <;> obtain ⟨rfl, -⟩ := pure_eq_ok_iff.mp h
      · exact hslots
      · exact deferred_map hsource _
  | cons slot slots ih =>
      obtain ⟨hslot, hslots'⟩ := deferred_cons.mp hslots
      cases elements with
      | nil =>
          obtain ⟨rfl, -⟩ := pure_eq_ok_iff.mp h
          exact hslots
      | cons e rest =>
          simp only [mergeSlots, bind_eq_ok_iff, pure_eq_ok_iff] at h
          obtain ⟨merged, t, hfirst, others, t', hrest, rfl, -⟩ := h
          exact deferred_cons.mpr
            ⟨mergeSlot_deferred_to hfirst hsource hslot, ih hslots' hrest⟩

theorem merge_deferred {s incoming s' : EvalStack} {refers : Nat} {p : BlockId → Prop}
    {m m' : Module} (hsource : p source) (hs : Deferred p s.slots)
    (h : s.merge asm incoming source target refers m = .ok s' m') : Deferred p s'.slots := by
  unfold merge at h
  split at h
  · obtain ⟨rfl, -⟩ := pure_eq_ok_iff.mp h
    exact deferred_append.mpr ⟨hs, deferred_ofElements p _⟩
  · simp only [bind_eq_ok_iff, pure_eq_ok_iff] at h
    obtain ⟨merged, t, hmerged, rfl, -⟩ := h
    exact deferred_append.mpr ⟨deferred_map hsource _, mergeSlots_deferred hsource hs hmerged⟩

theorem mergeSlot_overlooks {slot : Slot} {e : Element} (hsource : keep source = true)
    (hslot : ∀ source, slot.state = .deferred source → keep source = true) :
    Overlooks keep (mergeSlot asm source target slot e) := by
  have hadd (phi value : ValueId) : Overlooks keep (Build.addIncoming phi value source) :=
    addIncoming_overlooks hsource
  unfold mergeSlot
  split
  · infer_instance
  · rename_i first hfirst
    have hadd' (phi value : ValueId) : Overlooks keep (Build.addIncoming phi value first) :=
      addIncoming_overlooks (hslot first hfirst)
    infer_instance
  · infer_instance

theorem mergeSlots_overlooks {slots : List Slot} (elements : List Element)
    (hsource : keep source = true) (hslots : Deferred (keep · = true) slots) :
    Overlooks keep (mergeSlots asm source target slots elements) := by
  induction slots generalizing elements with
  | nil =>
      cases elements <;>
      · unfold mergeSlots
        infer_instance
  | cons slot slots ih =>
      obtain ⟨hslot, hslots'⟩ := deferred_cons.mp hslots
      cases elements with
      | nil =>
          unfold mergeSlots
          infer_instance
      | cons e rest =>
          unfold mergeSlots
          exact Commutes.seq (mergeSlot_overlooks hsource hslot) fun merged =>
            Commutes.seq (ih rest hslots') fun others => inferInstance

/-- A merge does not see which blocks are kept if its source is, and so are those that have brought
what is merged. -/
theorem merge_overlooks {s incoming : EvalStack} {refers : Nat} (hsource : keep source = true)
    (hs : Deferred (keep · = true) s.slots) :
    Overlooks keep (s.merge asm incoming source target refers) := by
  unfold merge
  split
  · infer_instance
  · exact Commutes.seq (mergeSlots_overlooks _ hsource hs) fun merged => inferInstance

end Merging

section Sessions

/-- The state with fewer blocks in its functions. -/
def Session.thin (keep : BlockId → Bool) (s : Session) : Session :=
  { s with module := s.module.thin keep }

/-- All blocks to come are kept. -/
def Session.Keeping (keep : BlockId → Bool) (s : Session) : Prop := s.module.Keeping keep

/-- An action of the compilation that does not see which blocks are kept. -/
abbrev Lower.Overlooks (keep : BlockId → Bool) (x : Lower α) : Prop :=
  Commutes (Session.thin keep) (Session.Keeping keep) x

instance (x : Build α) [hx : Overlooks keep x] : Lower.Overlooks keep (Lower.build x) where
  run {s} hs := by
    unfold Lower.build
    change (match x (s.module.thin keep) with
      | .ok a module => _
      | .error fault module => _) = _
    rw [hx.run hs]
    cases x s.module <;> rfl
  stays hs h := by
    obtain ⟨m, hrun, rfl⟩ := Lower.build_eq_ok_iff.mp h
    exact hx.stays hs hrun

instance (x : Registering α) : Lower.Overlooks keep (Lower.register x) where
  run {s} _ := by
    unfold Lower.register
    change (match x s.registry with
      | .ok a registry => _
      | .error stop registry => _) = _
    cases x s.registry <;> rfl
  stays hs h := by
    obtain ⟨_, -, rfl⟩ := Lower.register_eq_ok_iff.mp h
    exact hs

instance (x : Layouts α) : Lower.Overlooks keep (Lower.layout x) where
  run {s} _ := by
    unfold Lower.layout
    change (match x s.layouts with
      | .ok a layouts => _
      | .error stop layouts => _) = _
    cases x s.layouts <;> rfl
  stays hs h := by
    obtain ⟨_, -, rfl⟩ := Lower.layout_eq_ok_iff.mp h
    exact hs

instance (question : Except Fault α) : Lower.Overlooks keep (Lower.ask question) where
  run _ := by
    unfold Lower.ask
    cases question <;> rfl
  stays hs h := by
    obtain ⟨-, rfl⟩ := Lower.ask_eq_ok_iff.mp h
    exact hs

instance (question : Registry → Except Stop α) : Lower.Overlooks keep (Lower.consult question) where
  run {s} _ := by
    unfold Lower.consult
    change (match question s.registry with
      | .ok a => _
      | .error stop => _) = _
    cases question s.registry <;> rfl
  stays hs h := by
    obtain ⟨-, rfl⟩ := Lower.consult_eq_ok_iff.mp h
    exact hs

instance (error : LoweringError) : Lower.Overlooks keep (Lower.fail error : Lower α) :=
  Commutes.throw _

instance (x : Build α) [h : Lower.Overlooks keep (Lower.build x)] :
    Lower.Overlooks keep (liftM x : Lower α) := h

instance (x : Registering α) [h : Lower.Overlooks keep (Lower.register x)] :
    Lower.Overlooks keep (liftM x : Lower α) := h

instance (x : Layouts α) [h : Lower.Overlooks keep (Lower.layout x)] :
    Lower.Overlooks keep (liftM x : Lower α) := h

instance (x : Except Fault α) [h : Lower.Overlooks keep (Lower.ask x)] :
    Lower.Overlooks keep (liftM x : Lower α) := h

variable {asm : Assembly}

instance (id : TypeDefId) : Lower.Overlooks keep (namedType asm id) := by
  unfold namedType
  split
  · infer_instance
  · refine Commutes.seq inferInstance fun handle => Commutes.seq inferInstance fun kind => ?_
    cases kind <;> infer_instance

instance (sig : TypeSig) : Lower.Overlooks keep (irType asm sig) := by
  induction sig <;>
  · unfold irType
    infer_instance

instance (d : MethodDef) : Lower.Overlooks keep (functionType asm d) := by
  unfold functionType
  infer_instance

instance (m : MethodId) : Lower.Overlooks keep (declareFunction asm m) := by
  unfold declareFunction
  refine Commutes.seq inferInstance fun name => Commutes.getBind (fun _ => rfl) fun s => ?_
  split <;> infer_instance

instance (f : FieldId) : Lower.Overlooks keep (staticField asm f) := by
  unfold staticField
  refine Commutes.getBind (fun _ => rfl) fun s => ?_
  split <;> infer_instance

instance (struct : TypeId) (object : ValueId) (stores : List (Nat × ValueId)) :
    Overlooks keep (storeTables struct object stores) := by
  unfold storeTables
  infer_instance

instance (ty : TypeDefId) : Lower.Overlooks keep (newobjFunction asm ty) := by
  unfold newobjFunction
  refine Commutes.getBind (fun _ => rfl) fun s => ?_
  split
  · infer_instance
  · refine Commutes.seq inferInstance fun struct => Commutes.seq inferInstance fun object =>
      Commutes.seq inferInstance fun type => Commutes.seq inferInstance fun name =>
      Commutes.seq inferInstance fun f => Commutes.seq inferInstance fun _ =>
      Commutes.getBind (fun _ => rfl) fun s => Commutes.seq inferInstance fun entry =>
      Commutes.seq inferInstance fun _ => Commutes.seq inferInstance fun object =>
      Commutes.getBind (fun _ => rfl) fun s' => ?_
    dsimp only
    cases s.module.position <;> infer_instance

instance (f : FunctionId) (index : Nat) (sigs : List TypeSig) :
    Lower.Overlooks keep (argVariables asm f index sigs) := by
  induction sigs generalizing index with
  | nil =>
      unfold argVariables
      infer_instance
  | cons sig rest ih =>
      unfold argVariables
      infer_instance

instance (sig : TypeSig) : Lower.Overlooks keep (localVariable asm sig) := by
  unfold localVariable
  infer_instance

instance (f : FunctionId) (index refers : Nat) : Overlooks keep (appendLeader f index refers) := by
  unfold appendLeader
  infer_instance

end Sessions

namespace Emit

section Calls

variable {asm : Assembly}

instance (callee : MethodDef) (args : List Element) :
    Lower.Overlooks keep (coerceArgs asm callee args) := by
  unfold coerceArgs
  infer_instance

instance (owner : TypeDefId) (slot : MethodId) :
    Lower.Overlooks keep (slotPlace asm owner slot) := by
  unfold slotPlace
  refine Commutes.seq inferInstance fun vtable => ?_
  split <;> infer_instance

instance (object : Element) (owner : TypeDefId) (table : TypeId) :
    Lower.Overlooks keep (loadClassTable asm object owner table) := by
  unfold loadClassTable
  infer_instance

set_option synthInstance.maxSize 512 in
instance (object : Element) (iface : TypeDefId) (table : TypeId) :
    Lower.Overlooks keep (loadInterfaceTable asm object iface table) := by
  unfold loadInterfaceTable
  infer_instance

instance (ctor : MethodId) (object : ValueId) (args : List Element) :
    Lower.Overlooks keep (construct asm ctor object args) := by
  unfold construct
  dsimp only
  infer_instance

instance (ctor : MethodId) (ty : TypeDefId) (args : List Element) :
    Lower.Overlooks keep (newReference asm ctor ty args) := by
  unfold newReference
  refine Commutes.seq inferInstance fun f => Commutes.seq inferInstance fun object => ?_
  split <;> infer_instance

instance (ctor : MethodId) (ty : TypeDefId) (args : List Element) :
    Lower.Overlooks keep (newValue asm ctor ty args) := by
  unfold newValue
  dsimp only
  infer_instance

end Calls

section States

/-- The blocks that an emission works in satisfy a condition: the current one, those of the leaders,
and those whose values leaders still hold. -/
structure Within (p : BlockId → Prop) (s : EmitState) : Prop where
  current : p s.current
  leaders : ∀ l ∈ s.leaders, p l.block ∧ Deferred p l.incoming.slots

/-- The state with fewer blocks in the functions of its module. -/
def thin (keep : BlockId → Bool) (s : EmitState) : EmitState :=
  { s with session := s.session.thin keep }

/-- All blocks to come are kept, and those that the emission works in. -/
def Keeping (keep : BlockId → Bool) (s : EmitState) : Prop :=
  s.session.Keeping keep ∧ Within (keep · = true) s

/-- An action of the emission that does not see which blocks are kept. -/
abbrev Overlooks (keep : BlockId → Bool) (x : Emit α) : Prop :=
  Commutes (Emit.thin keep) (Emit.Keeping keep) x

theorem mem_of_leader? {s : EmitState} {position : Nat} {l : Leader}
    (h : leader? s position = some l) : l ∈ s.leaders ∧ l.index = position := by
  refine ⟨List.mem_of_find?_eq_some h, ?_⟩
  simpa using List.find?_some h

theorem Within.setIncoming {p : BlockId → Prop} {s s' : EmitState} {position : Nat}
    {incoming : EvalStack} {u : Unit} (hs : Within p s) (hincoming : Deferred p incoming.slots)
    (h : setIncoming position incoming s = .ok u s') : Within p s' := by
  obtain rfl := modify_eq_ok_iff.mp h
  refine ⟨hs.current, fun l hl => ?_⟩
  obtain ⟨l', hl', rfl⟩ := List.mem_map.mp hl
  split
  · exact ⟨(hs.leaders l' hl').1, hincoming⟩
  · exact hs.leaders l' hl'

instance (x : Lower α) [hx : Lower.Overlooks keep x] : Overlooks keep (lower x) where
  run {s} hs := by
    unfold lower
    change (match x (s.session.thin keep) with
      | .ok a session => _
      | .error stop session => _) = _
    rw [hx.run hs.1]
    cases x s.session <;> rfl
  stays hs h := by
    obtain ⟨t, hrun, rfl⟩ := lower_eq_ok_iff.mp h
    exact ⟨hx.stays hs.1 hrun, hs.2.current, hs.2.leaders⟩

instance (x : Lower α) [h : Overlooks keep (lower x)] : Overlooks keep (liftM x : Emit α) := h

instance (x : Build α) [h : Overlooks keep (lower (Lower.build x))] :
    Overlooks keep (liftM x : Emit α) := h

instance (error : LoweringError) : Overlooks keep (fail error : Emit α) := Commutes.throw _

instance (site : Site) (problem : OperandProblem) :
    Overlooks keep (malformed site problem : Emit α) :=
  Commutes.throw _

instance (e : Element) : Overlooks keep (push e) :=
  Commutes.modify (fun _ _ => rfl) fun _ hs => ⟨hs.1, hs.2.current, hs.2.leaders⟩

instance (site : Site) : Overlooks keep (pop site) := by
  have hstack (stack : EvalStack) : Overlooks keep (modify fun s =>
      { s with stack } : Emit PUnit) :=
    Commutes.modify (fun _ _ => rfl) fun _ hs => ⟨hs.1, hs.2.current, hs.2.leaders⟩
  unfold pop
  refine Commutes.getBind (fun _ => rfl) fun s => ?_
  split <;> infer_instance

instance (site : Site) (count : Nat) (above : List Element) :
    Overlooks keep (popOnto site count above) := by
  induction count generalizing above with
  | zero =>
      unfold popOnto
      infer_instance
  | succ count ih =>
      unfold popOnto
      infer_instance

instance (site : Site) (count : Nat) : Overlooks keep (popN site count) := by
  unfold popN
  infer_instance

instance (site : Site) : Overlooks keep (fieldOperand site) := by
  unfold fieldOperand
  split <;> infer_instance

instance (site : Site) : Overlooks keep (methodOperand site) := by
  unfold methodOperand
  split <;> infer_instance

instance (site : Site) : Overlooks keep (typeOperand site) := by
  unfold typeOperand
  split <;> infer_instance

instance (site : Site) : Overlooks keep (targetOperand site) := by
  unfold targetOperand
  split <;> infer_instance

instance (site : Site) (kind : VariableKind) (fixed : Option Nat) :
    Overlooks keep (variable_ site kind fixed) := by
  unfold variable_
  dsimp only
  split <;> infer_instance

instance (site : Site) (source : ElementSource) (array : Element) :
    Overlooks keep (elementSig site source array) := by
  unfold elementSig
  split <;> infer_instance

end States

section Edges

variable {site : Site}

/-- What passes the stack on works in the same blocks. -/
theorem within_reconcile {p : BlockId → Prop} {s s' : EmitState} {position : Nat} {b : BlockId}
    (hs : Within p s) (h : reconcile site position s = .ok b s') : Within p s' ∧ p b := by
  unfold reconcile at h
  rw [getBind_eq_ok_iff] at h
  cases hl : leader? s position with
  | none => simp [hl] at h
  | some l =>
      obtain ⟨hblock, hincoming⟩ := hs.leaders l (mem_of_leader? hl).1
      simp only [hl, bind_eq_ok_iff, Lower.liftM_build, lower_eq_ok_iff,
        Lower.build_eq_ok_iff, pure_eq_ok_iff] at h
      obtain ⟨incoming, _, ⟨_, ⟨m, hmerge, rfl⟩, rfl⟩, _, _, hset, rfl, rfl⟩ := h
      refine ⟨Within.setIncoming ?_ (merge_deferred hs.current hincoming hmerge) hset, hblock⟩
      exact ⟨hs.current, hs.leaders⟩

instance (position : Nat) : Overlooks keep (reconcile site position) := by
  unfold reconcile
  refine Commutes.getBindOf (fun _ => rfl) fun s hs => ?_
  cases hl : leader? s position with
  | none => infer_instance
  | some l =>
      obtain ⟨-, hincoming⟩ := hs.2.leaders l (mem_of_leader? hl).1
      have hmerge : Build.Overlooks keep
          (l.incoming.merge site.asm s.stack s.current l.block l.refers) :=
        merge_overlooks hs.2.current hincoming
      refine Commutes.seqOf (P := fun incoming => Deferred (keep · = true) incoming.slots)
        inferInstance (fun _ hrun => ?_) fun incoming hset => ?_
      · simp only [lower_eq_ok_iff, Lower.liftM_build, Lower.build_eq_ok_iff] at hrun
        obtain ⟨_, ⟨m, hrun, -⟩, -⟩ := hrun
        exact merge_deferred hs.2.current hincoming hrun
      · have hstays : Overlooks keep (setIncoming position incoming) :=
          Commutes.modify (fun _ _ => rfl) fun t ht => ⟨ht.1, ht.2.setIncoming hset rfl⟩
        infer_instance

theorem moveToLeader_overlooks {l : Leader} (h : keep l.block = true) : Overlooks keep (do
    modify fun s => { s with current := l.block, stack := l.incoming.snapshot }
    Build.positionAtEnd l.block : Emit Unit) :=
  Commutes.seq (Commutes.modify (fun _ _ => rfl) fun _ hs => ⟨hs.1, h, hs.2.leaders⟩) fun _ =>
    inferInstance

instance : Overlooks keep (enterBlock site) := by
  unfold enterBlock
  have hmove : Overlooks keep (do
      match leader? (← get) site.index with
      | none => malformed site (.targetNotInstruction site.index)
      | some l => do
          modify fun s => { s with current := l.block, stack := l.incoming.snapshot }
          Build.positionAtEnd l.block : Emit Unit) := by
    refine Commutes.getBindOf (fun _ => rfl) fun s hs => ?_
    cases hl : leader? s site.index with
    | none => infer_instance
    | some l => exact moveToLeader_overlooks (hs.2.leaders l (mem_of_leader? hl).1).1
  exact Commutes.getBind (fun _ => rfl) fun s => inferInstance

instance (cond : ValueId) (target : Nat) : Overlooks keep (conditional site cond target) := by
  unfold conditional
  dsimp only
  infer_instance

instance : Overlooks keep (branch site) := by
  unfold branch
  infer_instance

instance (onZero : Bool) : Overlooks keep (branchIf site onZero) := by
  unfold branchIf
  infer_instance

instance (relation : Relation) (unsigned : Bool) :
    Overlooks keep (compareBranch site relation unsigned) := by
  unfold compareBranch
  infer_instance

instance (known : List (Nat × BlockId)) (position : Nat) :
    Overlooks keep (edge site known position) := by
  unfold edge
  split <;> infer_instance

instance (known : List (Nat × BlockId)) (case : Nat) (positions : List Nat) :
    Overlooks keep (switchCases site known case positions) := by
  induction positions generalizing known case with
  | nil =>
      unfold switchCases
      infer_instance
  | cons position rest ih =>
      unfold switchCases
      infer_instance

instance : Overlooks keep (switch site) := by
  unfold switch
  split <;> infer_instance

instance : Overlooks keep (ret site) := by
  unfold ret
  dsimp only
  infer_instance

end Edges

section Instructions

variable {site : Site}

instance : Overlooks keep (loadNull) := by
  unfold loadNull
  infer_instance

instance (source : ConstantSource) : Overlooks keep (loadConstant site source) := by
  unfold loadConstant constantElement?
  split
  · rename_i heq
    split at heq <;> cases heq <;> infer_instance
  · infer_instance

instance : Overlooks keep (loadString site) := by
  unfold loadString
  split <;> infer_instance

instance : Overlooks keep (loadSize site) := by
  unfold loadSize
  infer_instance

instance (kind : VariableKind) (fixed : Option Nat) :
    Overlooks keep (loadVariable site kind fixed) := by
  unfold loadVariable
  infer_instance

instance (kind : VariableKind) : Overlooks keep (loadVariableAddress site kind) := by
  unfold loadVariableAddress
  infer_instance

instance (kind : VariableKind) (fixed : Option Nat) :
    Overlooks keep (storeVariable site kind fixed) := by
  unfold storeVariable
  infer_instance

instance : Overlooks keep (duplicate site) := by
  unfold duplicate
  infer_instance

instance : Overlooks keep (discard site) := by
  unfold discard
  infer_instance

instance (op : BinaryOp) : Overlooks keep (binary site op) := by
  unfold binary
  refine Commutes.seq inferInstance fun rhs => Commutes.seq inferInstance fun lhs => ?_
  split
  · split <;> infer_instance
  · infer_instance

instance (op : Element → UnaryOp) : Overlooks keep (unary site op) := by
  unfold unary
  infer_instance

instance : Overlooks keep (negate site) := by
  unfold negate
  infer_instance

instance : Overlooks keep (complement site) := by
  unfold complement
  infer_instance

instance (relation : Relation) (unsigned : Bool) :
    Overlooks keep (compare site relation unsigned) := by
  unfold compare
  infer_instance

instance (target : TypeSig) (unsignedSource : Bool) :
    Overlooks keep (convert site target unsignedSource) := by
  unfold convert
  infer_instance

instance (sig : TypeSig) : Overlooks keep (loadThrough site sig) := by
  unfold loadThrough
  infer_instance

instance (sig : Option TypeSig) : Overlooks keep (loadIndirect site sig) := by
  unfold loadIndirect
  exact Commutes.getBind (fun _ => rfl) fun s => inferInstance

instance : Overlooks keep (loadObject site) := by
  unfold loadObject
  infer_instance

instance (type : TypeId) (value address : Element) :
    Overlooks keep (storeThrough site type value address) := by
  unfold storeThrough
  infer_instance

instance (sig : Option TypeSig) : Overlooks keep (storeIndirect site sig) := by
  unfold storeIndirect
  cases sig <;> infer_instance

instance : Overlooks keep (storeObject site) := by
  unfold storeObject
  infer_instance

instance : Overlooks keep (initObject site) := by
  unfold initObject
  infer_instance

instance (f : FieldId) (object : Element) : Overlooks keep (fieldAddress site f object) := by
  unfold fieldAddress
  infer_instance

instance (sig : TypeSig) (address : ValueId) : Overlooks keep (pushLoaded site sig address) := by
  unfold pushLoaded
  infer_instance

instance (sig : TypeSig) (address : ValueId) : Overlooks keep (pushAddress sig address) := by
  unfold pushAddress
  infer_instance

instance : Overlooks keep (loadField site) := by
  unfold loadField
  infer_instance

instance : Overlooks keep (loadFieldAddress site) := by
  unfold loadFieldAddress
  infer_instance

set_option synthInstance.maxSize 256 in
instance : Overlooks keep (storeField site) := by
  unfold storeField
  infer_instance

instance : Overlooks keep (loadStatic site) := by
  unfold loadStatic
  infer_instance

instance : Overlooks keep (loadStaticAddress site) := by
  unfold loadStaticAddress
  infer_instance

instance (sig : TypeSig) (type : TypeId) (value : ValueId) :
    Overlooks keep (initialConstant? site sig type value) := by
  unfold initialConstant?
  infer_instance

instance : Overlooks keep (storeStatic site) := by
  unfold storeStatic
  dsimp only
  refine Commutes.seq inferInstance fun f => Commutes.seq inferInstance fun value =>
    Commutes.seq inferInstance fun global => Commutes.seq inferInstance fun d =>
    Commutes.seq inferInstance fun type => Commutes.seq inferInstance fun constant => ?_
  cases constant with
  | none => infer_instance
  | some constant =>
      refine Commutes.seq inferInstance fun folded => ?_
      cases folded <;> infer_instance

instance : Overlooks keep (newArray site) := by
  unfold newArray
  infer_instance

instance : Overlooks keep (loadElementAddress site) := by
  unfold loadElementAddress
  infer_instance

instance (source : ElementSource) : Overlooks keep (loadElement site source) := by
  unfold loadElement
  infer_instance

instance (source : ElementSource) : Overlooks keep (storeElement site source) := by
  unfold storeElement
  cases source <;> infer_instance

instance (callee : MethodDef) (result : Option ValueId) :
    Overlooks keep (pushResult site callee result) := by
  unfold pushResult
  split <;> infer_instance

instance (target : MethodId) : Overlooks keep (callDirect site target) := by
  unfold callDirect
  infer_instance

instance : Overlooks keep (call site) := by
  unfold call
  infer_instance

set_option synthInstance.maxSize 512 in
instance (slot : MethodId) : Overlooks keep (callSlot site slot) := by
  unfold callSlot
  dsimp only
  refine Commutes.seq inferInstance fun callee => Commutes.seq inferInstance fun args => ?_
  split
  · infer_instance
  · infer_instance

instance : Overlooks keep (callVirtual site) := by
  unfold callVirtual
  refine Commutes.seq inferInstance fun target => Commutes.seq inferInstance fun slot => ?_
  split <;> infer_instance

instance : Overlooks keep (newObject site) := by
  unfold newObject
  refine Commutes.seq inferInstance fun ctor => Commutes.seq inferInstance fun d =>
    Commutes.seq inferInstance fun args => Commutes.seq inferInstance fun kind => ?_
  cases kind <;> infer_instance

instance (action : Action) : Overlooks keep (perform site action) := by
  cases action <;>
  · unfold perform
    infer_instance

instance : Overlooks keep (instruction site) := by
  unfold instruction
  split <;> infer_instance

instance (frame : Frame) (index : Nat) (instrs : List Instruction) :
    Overlooks keep (instructions frame index instrs) := by
  induction instrs generalizing index with
  | nil =>
      unfold instructions
      infer_instance
  | cons instr rest ih =>
      unfold instructions
      exact Commutes.getBind (fun _ => rfl) fun s => inferInstance

end Instructions

end Emit

section Bodies

variable {asm : Assembly}

instance (frame : Frame) (body : MethodBody) : Emit.Overlooks keep (emission frame body) := by
  unfold emission
  exact Commutes.seq inferInstance fun _ => Commutes.getBind (fun _ => rfl) fun s => inferInstance

theorem run_overlooks {start : Session → EmitState} {x : Emit α} (hx : Emit.Overlooks keep x)
    (hsame : ∀ s, start (s.thin keep) = Emit.thin keep (start s))
    (hstart : ∀ s, s.Keeping keep → Emit.Keeping keep (start s)) :
    Lower.Overlooks keep (Emit.run start x) where
  run {s} hs := by
    unfold Emit.run
    rw [hsame, hx.run (hstart s hs)]
    cases x (start s) <;> rfl
  stays {s _ _} hs h := by
    unfold Emit.run at h
    cases hrun : x (start s) with
    | error stop t => simp [hrun] at h
    | ok a t =>
        simp only [hrun, EStateM.Result.ok.injEq] at h
        obtain ⟨rfl, rfl⟩ := h
        exact (hx.stays (hstart s hs) hrun).1

/-- A new block is kept. -/
theorem keep_of_appendBlock {f : FunctionId} {name : String} {s s' : Session} {b : BlockId}
    (hs : s.Keeping keep) (h : Lower.build (Build.appendBlock f name) s = .ok b s') :
    keep b = true := by
  obtain ⟨m, hrun, -⟩ := Lower.build_eq_ok_iff.mp h
  obtain ⟨rfl, -, -⟩ := Build.appendBlock_eq_ok hrun
  exact hs _ (Nat.le_refl _)

/-- The emission of a body does not see which of the blocks before it are kept. -/
instance (d : MethodDef) (name : String) (f : FunctionId) (body : MethodBody) :
    Lower.Overlooks keep (emitBody asm d name f body) := by
  unfold emitBody
  refine Commutes.seqOf (P := fun entry => keep entry = true) inferInstance keep_of_appendBlock
    fun entry hentry => Commutes.seq inferInstance fun _ => Commutes.seq inferInstance fun sigs =>
    Commutes.seq inferInstance fun args => Commutes.seq inferInstance fun locals => ?_
  refine Commutes.seqOf (P := fun leaders => ∀ l ∈ leaders,
      keep l.block = true ∧ Deferred (keep · = true) l.incoming.slots) inferInstance
    (fun hs h => Commutes.forall_of_mapM (g := Session.thin keep) (fun _ => inferInstance)
      (fun ht hrun => ?_) hs h)
    fun leaders hleaders => ?_
  · obtain ⟨_, hrun, -⟩ := Lower.build_eq_ok_iff.mp hrun
    simp only [appendLeader, bind_eq_ok_iff, pure_eq_ok_iff] at hrun
    obtain ⟨b, m, hblock, rfl, -⟩ := hrun
    exact ⟨keep_of_appendBlock ht (Lower.build_eq_ok_iff.mpr ⟨m, hblock, rfl⟩), by simp [Deferred]⟩
  · exact run_overlooks inferInstance (fun _ => rfl) fun s hs => ⟨hs, hentry, hleaders⟩

end Bodies

end CilSsa.Lowering
