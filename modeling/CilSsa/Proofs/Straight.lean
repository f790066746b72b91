import CilSsa.Proofs.Freshness

/-!
Straight-line code.

Some addresses may be spared from stores.  As long as none of them is on the evaluation stack and
none is that of a variable, no instruction gets hold of one, apart from those that name a static
field: what an instruction pushes or stores to is new, or comes from the stack or a variable.
-/

namespace CilSsa.Lowering.Emit

open CilSsa.Metadata CilSsa.Ssa

/-- The emission goes on in its block: leaders and block are the same, and the states of the
compilation are related. -/
structure Continues (R : Session → Session → Prop) (s s' : EmitState) : Prop where
  leaders : s'.leaders = s.leaders
  current : s'.current = s.current
  session : R s.session s'.session

instance {R : Session → Session → Prop} [IsPreorder Session R] :
    IsPreorder EmitState (Continues R) where
  refl _ := ⟨rfl, rfl, Std.Refl.refl _⟩
  trans _ _ _ h h' :=
    ⟨h'.leaders.trans h.leaders, h'.current.trans h.current,
      IsTrans.trans _ _ _ h.session h'.session⟩

/-- What is kept an eye on while straight-line code is emitted. -/
structure Watch where
  /-- Addresses that nothing is stored to. -/
  spared : ValueId → Prop
  /-- Whether values on the stack and variables are known to exist. -/
  live : Prop

/-- Watches whether values exist. -/
abbrev Watch.existence : Watch := ⟨noAddress, True⟩

abbrev Watch.nothing : Watch := ⟨noAddress, False⟩

/-- A value that exists and is not spared. -/
structure Usable (w : Watch) (s : EmitState) (v : ValueId) : Prop where
  exists_ : w.live → v.index < Counted.count s
  free : ¬ w.spared v

/-- Spared addresses exist, and neither the stack nor a variable leads to one. -/
structure Sound (w : Watch) (frame : Frame) (s : EmitState) : Prop where
  bound : ∀ v, w.spared v → v.index < Counted.count s
  stack : ∀ e ∈ s.stack.elements, Usable w s e.value
  places : ∀ v ∈ frame.args ++ frame.locals, Usable w s v.pointer

section Soundness

variable {w : Watch} {frame : Frame} {s s' : EmitState} {v : ValueId}

theorem Usable.mono (h : Usable w s v) (hgrows : Grows s s') : Usable w s' v :=
  ⟨fun hlive => Nat.lt_of_lt_of_le (h.exists_ hlive) hgrows, h.free⟩

theorem Sound.usable_of_new (hs : Sound w frame s) (hnew : New s s' v) :
    Usable w s' v := by
  refine ⟨fun _ => hnew.2, fun hspared => ?_⟩
  have hlt := hs.bound v hspared
  have hle := hnew.1
  omega

/-- Soundness needs only be checked for what is new on the stack. -/
theorem Sound.of_stack (hs : Sound w frame s) (hgrows : Grows s s')
    (hstack : ∀ e ∈ s'.stack.elements, e ∈ s.stack.elements ∨ Usable w s' e.value) :
    Sound w frame s' where
  bound v hv := Nat.lt_of_lt_of_le (hs.bound v hv) hgrows
  stack e he := by
    rcases hstack e he with hold | hnew
    · exact (hs.stack e hold).mono hgrows
    · exact hnew
  places v hv := (hs.places v hv).mono hgrows

end Soundness

/-- A straight-line step: with usable values given, it leads from a sound state to a sound one, and
the emission goes on in its block. -/
def Straight (R : Session → Session → Prop) (w : Watch) (frame : Frame)
    (given : List ValueId) (s s' : EmitState) : Prop :=
  Sound w frame s → (∀ v ∈ given, Usable w s v) →
    Sound w frame s' ∧ Grows s s' ∧ Continues R s s'

variable {R : Session → Session → Prop} {w : Watch} {frame : Frame}
  {given : List ValueId} {α β : Type}

instance [IsPreorder Session R] : IsPreorder EmitState (Straight R w frame given) where
  refl s hs _ := ⟨hs, Nat.le_refl _, Std.Refl.refl _⟩
  trans s s' s'' h h' hs hgiven := by
    obtain ⟨hs', hgrows, hcontinues⟩ := h hs hgiven
    obtain ⟨hs'', hgrows', hcontinues'⟩ := h' hs' fun v hv => (hgiven v hv).mono hgrows
    exact ⟨hs'', Nat.le_trans hgrows hgrows', IsTrans.trans _ _ _ hcontinues hcontinues'⟩

/-- Membership that instance search finds. -/
class Among (v : ValueId) (given : List ValueId) : Prop where
  mem : v ∈ given

instance {v : ValueId} : Among v (v :: given) := ⟨List.mem_cons_self⟩

instance {v w : ValueId} [h : Among v given] : Among v (w :: given) :=
  ⟨List.mem_cons_of_mem w h.mem⟩

/-- An action whose result can be used if the given values can. -/
class Gives (w : Watch) (frame : Frame) (given : List ValueId) (val : α → ValueId)
    (x : Emit α) : Prop where
  run : ∀ {s : EmitState} {a : α} {s' : EmitState}, x s = .ok a s' → Sound w frame s →
    (∀ v ∈ given, Usable w s v) → Usable w s' (val a)

instance {val : α → ValueId} (x : Emit α) [hx : Fresh val x] :
    Gives w frame given val x where
  run h hs _ := hs.usable_of_new (hx.run h)

theorem Gives.of_through {val : α → ValueId} {v : ValueId} {x : Emit α} (hx : Through v val x)
    (hv : v ∈ given) : Gives w frame given val x where
  run h hs hgiven := by
    obtain ⟨hgrows, hval | hnew⟩ := hx.run h
    · exact hval ▸ (hgiven v hv).mono hgrows
    · exact hs.usable_of_new hnew

instance (asm : Assembly) (value : ValueId) (sig : TypeSig) [hv : Among value given] :
    Gives w frame given Element.value (lower (Lower.build (toStack asm value sig))) :=
  Gives.of_through (v := value) inferInstance hv.mem

instance (value : ValueId) (target : TypeId) (signed : Bool) [hv : Among value given] :
    Gives w frame given id (lower (Lower.build (Build.intCast value target signed))) :=
  Gives.of_through (v := value) inferInstance hv.mem

instance (type : TypeId) (e : Element) [hv : Among e.value given] :
    Gives w frame given id (lower (Lower.build (pointerTo type e))) :=
  Gives.of_through (v := e.value) inferInstance hv.mem

instance (asm : Assembly) (target : TypeSig) (unsignedSource : Bool) (e : Element)
    [hv : Among e.value given] :
    Gives w frame given Element.value
      (lower (Lower.build (convertElement asm target unsignedSource e))) :=
  Gives.of_through (v := e.value) inferInstance hv.mem

instance {val : α → ValueId} (x : Build α)
    [h : Gives w frame given val (lower (Lower.build x))] :
    Gives w frame given val (liftM x : Emit α) :=
  h

instance {val : α → ValueId} (x : Build α)
    [h : Gives w frame given val (lower (Lower.build x))] :
    Gives w frame given val (lower (liftM x) : Emit α) :=
  h

section Steps

theorem Straight.then [IsPreorder Session R] {val : α → ValueId} {x : Emit α} {f : α → Emit β}
    (hx : Keeps (Straight R w frame given) x) (hgives : Gives w frame given val x)
    (hf : ∀ a, Keeps (Straight R w frame (val a :: given)) (f a)) :
    Keeps (Straight R w frame given) (x >>= f) where
  run h hs hgiven := by
    obtain ⟨a, t, hfirst, hthen⟩ := bind_eq_ok_iff.mp h
    obtain ⟨ht, hgrows, hcontinues⟩ := hx.run hfirst hs hgiven
    have husable := hgives.run hfirst hs hgiven
    obtain ⟨hs', hgrows', hcontinues'⟩ := (hf a).run hthen ht (by
      intro v hv
      rcases List.mem_cons.mp hv with rfl | hv
      · exact husable
      · exact (hgiven v hv).mono hgrows)
    exact ⟨hs', Nat.le_trans hgrows hgrows', IsTrans.trans _ _ _ hcontinues hcontinues'⟩

instance [IsPreorder Session R] (x : Emit ValueId) (f : ValueId → Emit β)
    [hx : Keeps (Straight R w frame given) x] [hgives : Gives w frame given id x]
    [hf : ∀ v, Keeps (Straight R w frame (v :: given)) (f v)] :
    Keeps (Straight R w frame given) (x >>= f) :=
  Straight.then hx hgives hf

instance [IsPreorder Session R] (x : Emit Element) (f : Element → Emit β)
    [hx : Keeps (Straight R w frame given) x]
    [hgives : Gives w frame given Element.value x]
    [hf : ∀ e : Element, Keeps (Straight R w frame (e.value :: given)) (f e)] :
    Keeps (Straight R w frame given) (x >>= f) :=
  Straight.then hx hgives hf

instance (x : Lower α) [hx : Keeps R x] [hgrows : Keeps Grows x] :
    Keeps (Straight R w frame given) (lower x) where
  run h hs _ := by
    obtain ⟨t, hrun, rfl⟩ := lower_eq_ok_iff.mp h
    have hle := hgrows.run hrun
    exact ⟨hs.of_stack hle fun e he => .inl he, hle, rfl, rfl, hx.run hrun⟩

instance (x : Lower α) [h : Keeps (Straight R w frame given) (lower x)] :
    Keeps (Straight R w frame given) (liftM x : Emit α) :=
  h

instance (x : Build α) [h : Keeps (Straight R w frame given) (lower (Lower.build x))] :
    Keeps (Straight R w frame given) (liftM x : Emit α) :=
  h

instance (x : Build α) [h : Keeps (Straight R w frame given) (lower (Lower.build x))] :
    Keeps (Straight R w frame given) (lower (liftM x)) :=
  h

instance (site : Site) (problem : OperandProblem) :
    Keeps (Straight R w frame given) (malformed site problem : Emit α) where
  run h := absurd h (by simp)

variable [IsPreorder Session R]

instance (e : Element) [he : Among e.value given] :
    Keeps (Straight R w frame given) (push e) where
  run {s _ _} h hs hgiven := by
    obtain rfl := push_eq_ok_iff.mp h
    have hle : Grows s { s with stack := s.stack.push e } := Nat.le_refl _
    refine ⟨hs.of_stack hle fun e' he' => ?_, hle, rfl, rfl, Std.Refl.refl _⟩
    simp only [EvalStack.elements_push, List.mem_append, List.mem_singleton] at he'
    rcases he' with hold | rfl
    · exact .inl hold
    · exact .inr ((hgiven _ he.mem).mono hle)

instance (site : Site) : Keeps (Straight R w frame given) (pop site) where
  run {s e _} h hs _ := by
    obtain ⟨rest, hpop, rfl⟩ := pop_eq_ok_iff.mp h
    have hle : Grows s { s with stack := rest } := Nat.le_refl _
    refine ⟨hs.of_stack hle fun e' he' => .inl ?_, hle, rfl, rfl, Std.Refl.refl _⟩
    rw [EvalStack.elements_of_pop? hpop]
    exact List.mem_append_left _ he'

instance (site : Site) : Gives w frame given Element.value (pop site) where
  run {s e _} h hs _ := by
    obtain ⟨rest, hpop, rfl⟩ := pop_eq_ok_iff.mp h
    have he : e ∈ s.stack.elements := by
      rw [EvalStack.elements_of_pop? hpop]
      exact List.mem_append_right _ List.mem_cons_self
    exact (hs.stack e he).mono (Nat.le_refl _)

instance (site : Site) (count : Nat) (above : List Element) :
    Keeps (Straight R w frame given) (popOnto site count above) := by
  induction count generalizing above with
  | zero =>
      unfold popOnto
      infer_instance
  | succ count ih =>
      unfold popOnto
      infer_instance

instance (site : Site) (count : Nat) :
    Keeps (Straight R w frame given) (popN site count) := by
  unfold popN
  infer_instance

instance (site : Site) : Keeps (Straight R w frame given) (fieldOperand site) := by
  unfold fieldOperand
  split <;> infer_instance

instance (site : Site) : Keeps (Straight R w frame given) (methodOperand site) := by
  unfold methodOperand
  split <;> infer_instance

instance (site : Site) : Keeps (Straight R w frame given) (typeOperand site) := by
  unfold typeOperand
  split <;> infer_instance

instance (site : Site) (kind : VariableKind) (fixed : Option Nat) :
    Keeps (Straight R w frame given) (variable_ site kind fixed) := by
  unfold variable_
  dsimp only
  split <;> infer_instance

/-- A variable that an instruction uses is one of the frame. -/
theorem mem_of_variable {site : Site} {kind : VariableKind} {fixed : Option Nat}
    {s s' : EmitState} {v : Variable} (h : variable_ site kind fixed s = .ok v s') :
    v ∈ site.args ++ site.locals ∧ s' = s := by
  unfold variable_ at h
  cases kind with
  | argument =>
      dsimp only at h
      cases hfound : (variablePosition? .argument fixed site.instr.operand).bind
        (site.args[·]?) with
      | none => simp [hfound] at h
      | some found =>
          simp only [hfound, pure_eq_ok_iff] at h
          obtain ⟨rfl, rfl⟩ := h
          obtain ⟨position, -, hget⟩ := Option.bind_eq_some_iff.mp hfound
          exact ⟨List.mem_append_left _ (List.mem_of_getElem? hget), rfl⟩
  | «local» =>
      dsimp only at h
      cases hfound : (variablePosition? .local fixed site.instr.operand).bind (site.locals[·]?) with
      | none => simp [hfound] at h
      | some found =>
          simp only [hfound, pure_eq_ok_iff] at h
          obtain ⟨rfl, rfl⟩ := h
          obtain ⟨position, -, hget⟩ := Option.bind_eq_some_iff.mp hfound
          exact ⟨List.mem_append_right _ (List.mem_of_getElem? hget), rfl⟩

instance (site : Site) (kind : VariableKind) (fixed : Option Nat) :
    Gives w site.toFrame given Variable.pointer (variable_ site kind fixed) where
  run h hs _ := by
    obtain ⟨hmem, rfl⟩ := mem_of_variable h
    exact hs.places _ hmem

instance (site : Site) (kind : VariableKind) (fixed : Option Nat) (f : Variable → Emit β)
    [hf : ∀ v : Variable, Keeps (Straight R w site.toFrame (v.pointer :: given)) (f v)] :
    Keeps (Straight R w site.toFrame given) (variable_ site kind fixed >>= f) := by
  have hgives : Gives w site.toFrame given Variable.pointer (variable_ site kind fixed) :=
    inferInstance
  exact Straight.then inferInstance hgives hf

instance (site : Site) (source : ElementSource) (array : Element) :
    Keeps (Straight R w frame given) (elementSig site source array) := by
  unfold elementSig
  split <;> infer_instance

end Steps

instance [Building w.spared R] : Keeps (Straight R w frame given) loadNull := by
  unfold loadNull
  infer_instance

section Loads

variable {site : Site} [hR : Emission site.asm w.spared R]

instance (source : ConstantSource) :
    Keeps (Straight R w site.toFrame given) (loadConstant site source) := by
  unfold loadConstant constantElement?
  split
  · rename_i heq
    split at heq <;> cases heq <;> infer_instance
  · infer_instance

instance : Keeps (Straight R w site.toFrame given) (loadString site) := by
  unfold loadString
  split <;> infer_instance

set_option synthInstance.maxSize 256 in
instance : Keeps (Straight R w site.toFrame given) (loadSize site) := by
  unfold loadSize
  infer_instance

instance (kind : VariableKind) (fixed : Option Nat) :
    Keeps (Straight R w site.toFrame given) (loadVariable site kind fixed) := by
  unfold loadVariable
  infer_instance

instance (kind : VariableKind) :
    Keeps (Straight R w site.toFrame given) (loadVariableAddress site kind) := by
  unfold loadVariableAddress
  infer_instance

instance : Keeps (Straight R w site.toFrame given) (duplicate site) := by
  unfold duplicate
  infer_instance

instance : Keeps (Straight R w site.toFrame given) (discard site) := by
  unfold discard
  infer_instance

instance (op : BinaryOp) : Keeps (Straight R w site.toFrame given) (binary site op) := by
  unfold binary
  refine Keeps.seq inferInstance fun rhs => Keeps.seq inferInstance fun lhs => ?_
  split
  · split <;> infer_instance
  · infer_instance

instance (op : Element → UnaryOp) :
    Keeps (Straight R w site.toFrame given) (unary site op) := by
  unfold unary
  infer_instance

instance : Keeps (Straight R w site.toFrame given) (negate site) := by
  unfold negate
  infer_instance

instance : Keeps (Straight R w site.toFrame given) (complement site) := by
  unfold complement
  infer_instance

instance (relation : Relation) (unsigned : Bool) :
    Keeps (Straight R w site.toFrame given) (compare site relation unsigned) := by
  unfold compare
  infer_instance

instance (target : TypeSig) (unsignedSource : Bool) :
    Keeps (Straight R w site.toFrame given) (convert site target unsignedSource) := by
  unfold convert
  infer_instance

set_option synthInstance.maxSize 256 in
instance (sig : TypeSig) : Keeps (Straight R w site.toFrame given) (loadThrough site sig) := by
  unfold loadThrough
  infer_instance

instance (sig : Option TypeSig) :
    Keeps (Straight R w site.toFrame given) (loadIndirect site sig) := by
  unfold loadIndirect
  dsimp only
  infer_instance

instance : Keeps (Straight R w site.toFrame given) (loadObject site) := by
  unfold loadObject
  infer_instance

instance (sig : TypeSig) (address : ValueId) :
    Keeps (Straight R w site.toFrame given) (pushLoaded site sig address) := by
  unfold pushLoaded
  infer_instance

theorem fieldOperand_eq_ok {s s' : EmitState} {f : FieldId} (h : fieldOperand site s = .ok f s') :
    site.instr.operand = .field f ∧ s' = s := by
  unfold fieldOperand at h
  cases hoperand : site.instr.operand with
  | field id =>
      simp only [hoperand] at h
      obtain ⟨rfl, rfl⟩ := pure_eq_ok_iff.mp h
      exact ⟨rfl, rfl⟩
  | _ => simp [hoperand] at h

/-- A load from a static field, if asking for its global is harmless. -/
theorem loadStatic_straight
    (hf : ∀ f, site.instr.operand = .field f → Keeps R (staticField site.asm f)) :
    Keeps (Straight R w site.toFrame given) (loadStatic site) where
  run {s u s'} h := by
    obtain ⟨f, t, hfield, hrun⟩ := bind_eq_ok_iff.mp h
    obtain ⟨hoperand, rfl⟩ := fieldOperand_eq_ok hfield
    have hglobal : Keeps R (staticField site.asm f) := hf f hoperand
    have hload : Keeps (Straight R w site.toFrame given) (do
        let global ← lower (staticField site.asm f)
        pushLoaded site (← lower (site.asm.field f)).sig global : Emit Unit) := by
      infer_instance
    exact hload.run hrun

theorem pushAddress_straight [IsPreorder Session R] {sig : TypeSig} {address : ValueId}
    (hfree : ¬ w.spared address) :
    Keeps (Straight R w frame given) (pushAddress sig address) where
  run {s u s'} h hs _ := by
    simp only [pushAddress, bind_eq_ok_iff, lower_eq_ok_iff, Lower.liftM_build,
      Lower.build_eq_ok_iff, Build.query_eq_ok_iff] at h
    obtain ⟨type, _, ⟨_, ⟨_, ⟨htype, rfl⟩, rfl⟩, rfl⟩, hpush⟩ := h
    have hexists : address.index < Counted.count s := by
      simp only [Module.typeOf, Module.value, exceptBind_eq_ok_iff, Arena.entry_eq_ok_iff] at htype
      obtain ⟨v, hv, -⟩ := htype
      exact (Array.getElem?_eq_some_iff.mp hv).1
    have hstep : Keeps (Straight R w frame [address]) (push ⟨address, .byRef sig, type⟩) :=
      inferInstance
    refine hstep.run hpush hs fun v hv => ?_
    obtain rfl := List.mem_singleton.mp hv
    exact ⟨fun _ => hexists, hfree⟩

/-- The address of a static field may be pushed if asking for its global is harmless and the global
is not spared. -/
theorem loadStaticAddress_straight {s s' : EmitState} {u : Unit}
    (h : loadStaticAddress site s = .ok u s')
    (hf : ∀ {f : FieldId} {g : ValueId} {t : Session}, site.instr.operand = .field f →
      staticField site.asm f s.session = .ok g t → R s.session t ∧ ¬ w.spared g) :
    Straight R w site.toFrame given s s' := by
  intro hs hgiven
  simp only [loadStaticAddress, bind_eq_ok_iff, liftM_lower, lower_eq_ok_iff] at h
  obtain ⟨f, t, hfield, g, _, ⟨t₁, hfind, rfl⟩, d, t₂, hd, hpush⟩ := h
  obtain ⟨hoperand, hsame⟩ := fieldOperand_eq_ok hfield
  subst t
  obtain ⟨hR, hfree⟩ := hf hoperand hfind
  have hgrows : Grows s { s with session := t₁ } :=
    (inferInstance : Keeps Grows (staticField site.asm f)).run hfind
  have hfound : Sound w site.toFrame { s with session := t₁ } :=
    hs.of_stack hgrows fun e he => .inl he
  have hfirst : Continues R s { s with session := t₁ } := ⟨rfl, rfl, hR⟩
  have hrest : Keeps (Straight R w site.toFrame given) (do
      pushAddress (← lower (site.asm.field f)).sig g : Emit Unit) :=
    Keeps.seq inferInstance fun d => pushAddress_straight hfree
  have hrun := hrest.run (bind_eq_ok_iff.mpr ⟨d, t₂, lower_eq_ok_iff.mpr hd, hpush⟩)
  obtain ⟨hs', hgrows', hcontinues⟩ := hrun hfound fun v hv => (hgiven v hv).mono hgrows
  exact ⟨hs', Nat.le_trans hgrows hgrows', IsTrans.trans _ _ _ hfirst hcontinues⟩

set_option synthInstance.maxSize 512 in
instance : Keeps (Straight R w site.toFrame given) (newArray site) := by
  unfold newArray
  infer_instance

set_option synthInstance.maxSize 256 in
instance : Keeps (Straight R w site.toFrame given) (loadElementAddress site) := by
  unfold loadElementAddress
  infer_instance

set_option synthInstance.maxSize 256 in
instance (source : ElementSource) :
    Keeps (Straight R w site.toFrame given) (loadElement site source) := by
  unfold loadElement
  infer_instance

end Loads

section Calls

variable {site : Site} [hR : Emission site.asm w.spared R]

instance (callee : MethodDef) (value : ValueId) [Among value given] :
    Keeps (Straight R w site.toFrame given) (pushResult site callee (some value)) := by
  unfold pushResult
  infer_instance

instance (callee : MethodDef) :
    Keeps (Straight R w site.toFrame given) (pushResult site callee none) := by
  unfold pushResult
  infer_instance

instance (callee : MethodDef) (x : Emit (Option ValueId))
    [hx : Keeps (Straight R w site.toFrame given) x] [hnew : Returns x] :
    Keeps (Straight R w site.toFrame given)
      (x >>= fun result => pushResult site callee result) where
  run h hs hgiven := by
    obtain ⟨result, t, hcall, hpush⟩ := bind_eq_ok_iff.mp h
    obtain ⟨ht, hgrows, hcontinues⟩ := hx.run hcall hs hgiven
    cases result with
    | none =>
        have hnone : Keeps (Straight R w site.toFrame given) (pushResult site callee none) :=
          inferInstance
        obtain ⟨hs', hgrows', hcontinues'⟩ :=
          hnone.run hpush ht fun v hv => (hgiven v hv).mono hgrows
        exact ⟨hs', Nat.le_trans hgrows hgrows', IsTrans.trans _ _ _ hcontinues hcontinues'⟩
    | some value =>
        have hsome : Keeps (Straight R w site.toFrame [value])
            (pushResult site callee (some value)) := inferInstance
        obtain ⟨hs', hgrows', hcontinues'⟩ := hsome.run hpush ht (by
          intro v hv
          obtain rfl := List.mem_singleton.mp hv
          exact hs.usable_of_new (hnew.run hcall))
        exact ⟨hs', Nat.le_trans hgrows hgrows', IsTrans.trans _ _ _ hcontinues hcontinues'⟩

set_option synthInstance.maxSize 256 in
instance (target : MethodId) :
    Keeps (Straight R w site.toFrame given) (callDirect site target) := by
  unfold callDirect
  infer_instance

instance : Keeps (Straight R w site.toFrame given) (call site) := by
  unfold call
  infer_instance

set_option synthInstance.maxSize 4096 in
instance (slot : MethodId) :
    Keeps (Straight R w site.toFrame given) (callSlot site slot) := by
  unfold callSlot
  dsimp only
  refine Keeps.seq inferInstance fun callee => Keeps.seq inferInstance fun args => ?_
  split
  · infer_instance
  · infer_instance

instance : Keeps (Straight R w site.toFrame given) (callVirtual site) := by
  unfold callVirtual
  refine Keeps.seq inferInstance fun target => Keeps.seq inferInstance fun slot => ?_
  split <;> infer_instance

end Calls

section Stores

instance [hR : Building w.spared R] (pointer value : ValueId) (isVolatile : Bool)
    [hp : Among pointer given] :
    Keeps (Straight R w frame given)
      (lower (Lower.build (Build.store pointer value isVolatile))) where
  run h hs hgiven := by
    have hfree : ¬ w.spared pointer := (hgiven pointer hp.mem).free
    have hstore : Keeps (Module.Evolves (Change.Plain w.spared))
        (Build.store pointer value isVolatile) := by
      refine Build.store_keeps fun block type => ?_
      rintro _ _ _ heq
      cases heq
      exact hfree
    have hstraight : Keeps (Straight R w frame given)
        (lower (Lower.build (Build.store pointer value isVolatile))) := inferInstance
    exact hstraight.run h hs hgiven

variable {site : Site} [hR : Emission site.asm w.spared R]

instance (kind : VariableKind) (fixed : Option Nat) :
    Keeps (Straight R w site.toFrame given) (storeVariable site kind fixed) := by
  unfold storeVariable
  infer_instance

instance (type : TypeId) (value address : Element) [Among address.value given] :
    Keeps (Straight R w site.toFrame given) (storeThrough site type value address) := by
  unfold storeThrough
  infer_instance

instance (sig : Option TypeSig) :
    Keeps (Straight R w site.toFrame given) (storeIndirect site sig) := by
  unfold storeIndirect
  cases sig <;> infer_instance

instance : Keeps (Straight R w site.toFrame given) (storeObject site) := by
  unfold storeObject
  infer_instance

set_option synthInstance.maxSize 512 in
instance : Keeps (Straight R w site.toFrame given) (initObject site) := by
  unfold initObject
  infer_instance

instance (object : Element) :
    Keeps (Straight R w site.toFrame given) (lower (Lower.build (objectAddress object))) := by
  unfold objectAddress
  simp only [Lower.build_bind, lower_bind]
  refine Keeps.seq inferInstance fun cls => ?_
  split
  · infer_instance
  · simp only [Lower.build_bind, lower_bind]
    infer_instance

set_option synthInstance.maxSize 512 in
instance (f : FieldId) (object : Element) :
    Keeps (Straight R w site.toFrame given) (fieldAddress site f object) := by
  unfold fieldAddress
  infer_instance

instance : Keeps (Straight R w site.toFrame given) (loadField site) := by
  unfold loadField
  infer_instance

set_option synthInstance.maxSize 256 in
instance : Keeps (Straight R w site.toFrame given) (loadFieldAddress site) := by
  unfold loadFieldAddress pushAddress
  infer_instance

set_option synthInstance.maxSize 256 in
instance : Keeps (Straight R w site.toFrame given) (storeField site) := by
  unfold storeField
  infer_instance

set_option synthInstance.maxSize 256 in
instance (source : ElementSource) :
    Keeps (Straight R w site.toFrame given) (storeElement site source) := by
  unfold storeElement
  cases source <;> infer_instance

set_option synthInstance.maxSize 512 in
instance (ctor : MethodId) (ty : TypeDefId) (args : List Element) :
    Keeps (Straight R w site.toFrame given) (lower (newValue site.asm ctor ty args)) := by
  unfold newValue
  dsimp only
  cases args.isEmpty <;>
  · simp only [lower_bind, Bool.not_true, Bool.not_false, Bool.false_eq_true, if_true, if_false]
    infer_instance

instance : Keeps (Straight R w site.toFrame given) (newObject site) := by
  unfold newObject
  refine Keeps.seq inferInstance fun ctor => Keeps.seq inferInstance fun d =>
    Keeps.seq inferInstance fun args => Keeps.seq inferInstance fun kind => ?_
  cases kind <;> infer_instance

end Stores

section Actions

def endsBlock : Action → Bool
  | .branch | .branchIf _ | .compareBranch .. | .switch | .ret => true
  | _ => false

/-- Whether an action is about a static field. -/
def usesStatic : Action → Bool
  | .loadStatic | .loadStaticAddress | .storeStatic => true
  | _ => false

variable {site : Site} [hR : Emission site.asm w.spared R]

/-- Most actions neither end the block nor get hold of a spared address. -/
theorem perform_straight {action : Action} (hends : endsBlock action = false)
    (hstatic : usesStatic action = false) :
    Keeps (Straight R w site.toFrame given) (perform site action) := by
  cases action with
  | branch | branchIf | compareBranch | switch | ret => simp [endsBlock] at hends
  | loadStatic | loadStaticAddress | storeStatic => simp [usesStatic] at hstatic
  | _ =>
      unfold perform
      infer_instance

end Actions

end CilSsa.Lowering.Emit
