import CilSsa.Proofs.Results

/-!
Instructions keep stacks sound.

What an instruction pushes is made in one of the ways that an outlook has a law for: it has its own
type, it was loaded from storage of a type, or it was computed from what was on the stack.  What it
stores was brought to the type that the address points to.
-/

namespace CilSsa

open Ssa Metadata Lowering

namespace Lowering

open Build Module

section Elements

open Emit

variable {asm : Assembly} {m m' M : Module} {e : Element} {v : ValueId} {type : TypeId}

theorem constInt32_typed {n : Int} (h : constInt32 n m = .ok e m')
    (hend : m'.Evolves Change.Any M) :
    M.typeOf e.value = .ok e.type ∧ M.Apt e.sig e.type := by
  simp only [constInt32, bind_eq_ok_iff, pure_eq_ok_iff] at h
  obtain ⟨type, m₁, htype, value, m₂, hconst, rfl, rfl⟩ := h
  have hlast := (inferInstance : Keeps (Evolves Change.Any) (Build.constInt type n)).run hconst
  exact ⟨hend.typeOf (pushValue_typeOf hconst), intType_apt htype (hlast.trans hend)
    (by decide) rfl⟩

theorem constantElement?_typed {source : ConstantSource} {operand : Operand}
    {action : Build Element} (hconstant : constantElement? source operand = some action)
    (h : action m = .ok e m') (hend : m'.Evolves Change.Any M) :
    M.typeOf e.value = .ok e.type ∧ M.Apt e.sig e.type := by
  unfold constantElement? at hconstant
  split at hconstant <;> cases hconstant
  case h_1 | h_2 => exact constInt32_typed h hend
  all_goals
    simp only [bind_eq_ok_iff, pure_eq_ok_iff] at h
    obtain ⟨type, m₁, htype, value, m₂, hconst, rfl, rfl⟩ := h
    refine ⟨hend.typeOf (pushValue_typeOf hconst), ?_⟩
  · have hlast := (inferInstance : Keeps (Evolves Change.Any) (Build.constInt type _)).run hconst
    exact intType_apt htype (hlast.trans hend) (by decide) rfl
  · have hlast := (inferInstance : Keeps (Evolves Change.Any) (Build.constFloat type _)).run hconst
    exact floatType_apt htype (hlast.trans hend) (.inl ⟨rfl, rfl⟩)
  · have hlast := (inferInstance : Keeps (Evolves Change.Any) (Build.constFloat type _)).run hconst
    exact floatType_apt htype (hlast.trans hend) (.inr ⟨rfl, rfl⟩)

/-- The value of an element is brought to a type. -/
theorem valueOf_suits (h : valueOf asm type e m = .ok v m') (hend : m'.Evolves Change.Any M) :
    M.Suits v type := by
  simp only [valueOf, bind_eq_ok_iff, Build.ask, query_eq_ok_iff] at h
  obtain ⟨signed, _, ⟨-, rfl⟩, hcoerce⟩ := h
  exact coerce_suits hcoerce hend

theorem pointerTo_aimsAt (h : pointerTo type e m = .ok v m') (hend : m'.Evolves Change.Any M) :
    M.AimsAt v type := by
  simp only [pointerTo, bind_eq_ok_iff] at h
  obtain ⟨pointer, m, hpointer, hcoerce⟩ := h
  have hkeeps : Keeps (Evolves Change.Any) (coerce e.value pointer false) := inferInstance
  exact ⟨pointer, coerce_suits hcoerce hend, pointerType_type hpointer
    ((hkeeps.run hcoerce).trans hend)⟩

end Elements

namespace Outlook.Brings

variable {site : Site} {o : Outlook site.asm}

section Parts

theorem typeOf {value : ValueId} :
    o.Brings (fun type => o.final.module.typeOf value = .ok type)
      (Emit.lower (Lower.build (Build.query (·.typeOf value)))) :=
  build fun h hend _ => by
    obtain ⟨htype, rfl⟩ := query_eq_ok_iff.mp h
    exact hend.typeOf htype

theorem constNull {type : TypeId} :
    o.Brings (fun v => o.final.module.typeOf v = .ok type)
      (Emit.lower (Lower.build (Build.constNull type))) :=
  build fun h hend _ => hend.typeOf (pushValue_typeOf h)

theorem load {sig : TypeSig} {type : TypeId} {pointer : ValueId}
    (htype : Lowering.irType site.asm sig o.final = .ok type o.final) :
    o.Brings (o.fits sig) (Emit.lower (Lower.build (Build.load type pointer))) :=
  build fun h hend _ => o.fits_of_hasSig ⟨type, htype, hend.typeOf (load_typeOf h)⟩

theorem toStack {value : ValueId} {sig : TypeSig} (hfits : o.fits sig value) :
    o.Brings o.sound (Emit.lower (Lower.build (Lowering.toStack site.asm value sig))) :=
  makes (o.loaded hfits)

theorem valueOf {type : TypeId} {e : Element} :
    o.Brings (fun v => o.final.module.Suits v type)
      (Emit.lower (Lower.build (Emit.valueOf site.asm type e))) :=
  build fun h hend _ => valueOf_suits h hend

theorem pointerTo {type : TypeId} {e : Element} :
    o.Brings (o.aims · type) (Emit.lower (Lower.build (Emit.pointerTo type e))) :=
  build fun h hend _ => o.aims_of_aimsAt (pointerTo_aimsAt h hend)

/-- A value goes on the stack with its own type. -/
theorem pushTyped {e : Element} (htype : o.final.module.typeOf e.value = .ok e.type)
    (hapt : o.final.module.Apt e.sig e.type) : o.Brings (fun _ => True) (Emit.push e) :=
  push (o.typed htype hapt)

/-- An address goes on the stack with its own type. -/
theorem pushAddressed {e : Element} (hclass : o.final.module.classOf e.value = .ok .pointer)
    (hsig : e.sig.isFloat = false) (htype : o.final.module.typeOf e.value = .ok e.type) :
    o.Brings (fun _ => True) (Emit.push e) := by
  obtain ⟨own, hown, hpointer⟩ := classOf_eq_ok_iff.mp hclass
  obtain rfl := Except.ok.inj (hown.symm.trans htype)
  exact pushTyped htype (.of_pointer hpointer hsig)

end Parts

section Constants

theorem loadConstant {source : ConstantSource} :
    o.Brings (fun _ => True) (Emit.loadConstant site source) := by
  unfold Emit.loadConstant
  split
  · rename_i action haction
    have hkeeps : Keeps o.Proceeds (Lower.build action) := by
      unfold Emit.constantElement? at haction
      split at haction <;> cases haction <;> infer_instance
    simp only [Lower.liftM_build]
    refine (makes fun _ _ _ h _ hend => ?_).seq fun e he => push he
    obtain ⟨htype, hapt⟩ := constantElement?_typed haction h hend
    exact o.typed htype hapt
  · exact malformed

theorem loadNull : o.Brings (fun _ => True) Emit.loadNull := by
  unfold Emit.loadNull
  simp only [Emit.liftM_build]
  have hgeneric : o.Brings (o.final.module.classify · = .ok .pointer)
      (Emit.lower (Lower.build Build.genericPointer)) :=
    build fun h hend _ => genericPointer_classify h hend
  exact hgeneric.seq fun _ hclass => constNull.seq fun _ hnull =>
    pushTyped hnull (.of_pointer hclass rfl)

theorem loadString : o.Brings (fun _ => True) (Emit.loadString site) := by
  unfold Emit.loadString
  split
  · rename_i text _
    simp only [Emit.liftM_build, Lower.liftM_build]
    have hstring : o.Brings (o.final.module.classOf · = .ok .pointer)
        (Emit.lower (Lower.build (Build.constString text))) :=
      build fun h hend _ => constString_classOf h hend
    exact hstring.seq fun _ hclass => typeOf.seq fun _ htype => pushAddressed hclass rfl htype
  · exact malformed

theorem loadSize : o.Brings (fun _ => True) (Emit.loadSize site) := by
  unfold Emit.loadSize
  simp only [Emit.liftM_lower, Lower.liftM_build]
  refine typeOperand.seq fun sig _ => lowered.seq fun type _ => lowered.seq fun size _ => ?_
  refine (makes fun _ _ _ h _ hend => ?_).seq fun e he => push he
  obtain ⟨htype, hapt⟩ := constInt32_typed h hend
  exact o.typed htype hapt

end Constants

section Variables

variable {kind : VariableKind} {fixed : Option Nat}

theorem loadVariable (hframe : o.Furnished site.toFrame) :
    o.Brings (fun _ => True) (Emit.loadVariable site kind fixed) := by
  unfold Emit.loadVariable
  simp only [Emit.liftM_build, Lower.liftM_build]
  exact (variable_ hframe).seq fun _ hv => (load hv.type).seq fun _ hfits =>
    (toStack hfits).seq fun _ he => push he

theorem loadVariableAddress (hframe : o.Furnished site.toFrame) :
    o.Brings (fun _ => True) (Emit.loadVariableAddress site kind) := by
  unfold Emit.loadVariableAddress
  simp only [Lower.liftM_build]
  exact (variable_ hframe).seq fun v hv => typeOf.seq fun type htype =>
    pushAddressed hv.pointer.classOf rfl htype

theorem storeVariable (hframe : o.Furnished site.toFrame) :
    o.Brings (fun _ => True) (Emit.storeVariable site kind fixed) := by
  unfold Emit.storeVariable
  simp only [Emit.liftM_build, Lower.liftM_build, Lower.liftM_ask]
  refine (variable_ hframe).seq fun v hv => pop.seq fun e _ => ask.seq fun signed _ => ?_
  have hcoerce : o.Brings (o.final.module.Suits · v.type)
      (Emit.lower (Lower.build (coerce e.value v.type signed))) :=
    build fun h hend _ => coerce_suits h hend
  exact hcoerce.seq fun value hvalue => store (o.aims_of_aimsAt hv.pointer.aimsAt) hvalue

end Variables

section Stack

theorem duplicate : o.Brings (fun _ => True) (Emit.duplicate site) :=
  pop.seq fun _ he => (push he).seq fun _ _ => push he

theorem discard : o.Brings (fun _ => True) (Emit.discard site) :=
  pop.seq fun _ _ => pure trivial

end Stack

section Arithmetic

theorem binary {op : BinaryOp} : o.Brings (fun _ => True) (Emit.binary site op) := by
  unfold Emit.binary
  refine pop.after (fun rhs => ?_) fun rhs hrhs => pop.after (fun lhs => ?_) fun lhs hlhs => ?_
  · refine Keeps.seq inferInstance fun lhs => ?_
    cases Emit.floatOp? op <;> infer_instance
  · cases Emit.floatOp? op <;> infer_instance
  simp only [Lower.liftM_build]
  split
  · split
    · exact (makes o.float).seq fun e he => push he
    · exact malformed
  · rename_i hnumbers
    simp only [Bool.or_eq_true, not_or, Bool.not_eq_true] at hnumbers
    split
    · exact (makes (o.shift hlhs)).seq fun e he => push he
    · exact (makes (o.integer hnumbers.1 hnumbers.2 hlhs hrhs)).seq fun e he => push he

theorem unary {op : Element → UnaryOp} : o.Brings (fun _ => True) (Emit.unary site op) := by
  unfold Emit.unary
  simp only [Emit.liftM_build]
  refine pop.seq fun e he => ?_
  have hresult : o.Brings (fun v => o.sound { e with value := v })
      (Emit.lower (Lower.build (Build.unary (op e) e.value))) :=
    build fun h hend _ => o.unary he h hend
  exact hresult.seq fun v hv => push hv

set_option synthInstance.maxSize 256 in
/-- The result of a comparison is a bit before it is widened. -/
theorem compare {relation : Relation} {unsigned : Bool} :
    o.Brings (fun _ => True) (Emit.compare site relation unsigned) := by
  unfold Emit.compare
  simp only [Emit.liftM_build, Lower.liftM_build]
  refine pop.seq fun rhs _ => pop.seq fun lhs _ => ?_
  have hcompare : o.Brings (o.final.module.classOf · = .ok (.int 1))
      (Emit.lower (Lower.build (Emit.compareValues site.asm relation unsigned lhs rhs))) :=
    build fun h hend _ => Emit.compareValues_classOf h hend
  have hint : o.Brings (fun type => o.final.module.classify type = .ok (.int 32) ∧
      o.final.module.Apt .i4 type) (Emit.lower (Lower.build (Build.intType 32))) :=
    build fun h hend _ => ⟨intType_classify h hend, intType_apt h hend (by decide) rfl⟩
  refine hcompare.seq fun flag hflag => hint.seq fun type htype => ?_
  have hcast : o.Brings (o.final.module.typeOf · = .ok type)
      (Emit.lower (Lower.build (Build.intCast flag type false))) :=
    build fun h hend _ => intCast_typeOf h hend hflag htype.1 (by decide)
  exact hcast.seq fun value hvalue => pushTyped hvalue htype.2

end Arithmetic

section Memory

variable {sig : TypeSig} {type : TypeId} {value address : Element}

set_option synthInstance.maxSize 256 in
theorem loadThrough : o.Brings (fun _ => True) (Emit.loadThrough site sig) := by
  unfold Emit.loadThrough
  simp only [Emit.liftM_build, Emit.liftM_lower, Lower.liftM_build]
  exact pop.seq fun _ _ => irType.seq fun _ htype => lowered.seq fun _ _ =>
    (load htype).seq fun _ hfits => (toStack hfits).seq fun _ he => push he

theorem storeThrough : o.Brings (fun _ => True) (Emit.storeThrough site type value address) := by
  unfold Emit.storeThrough
  simp only [Emit.liftM_build, Lower.liftM_build]
  exact valueOf.seq fun _ hvalue => pointerTo.seq fun _ hpointer => store hpointer hvalue

instance :
    Keeps (EmitState.On (Session.Later site.asm)) (Emit.storeThrough site type value address) := by
  unfold Emit.storeThrough
  infer_instance

set_option synthInstance.maxSize 256 in
instance : Keeps (EmitState.On (Session.Later site.asm)) (Emit.loadThrough site sig) := by
  unfold Emit.loadThrough
  infer_instance

theorem loadIndirect {sig : Option TypeSig} :
    o.Brings (fun _ => True) (Emit.loadIndirect site sig) :=
  getBind fun _ _ => loadThrough

theorem storeIndirect {sig : Option TypeSig} :
    o.Brings (fun _ => True) (Emit.storeIndirect site sig) := by
  unfold Emit.storeIndirect
  cases sig with
  | none => exact pop.seq fun _ _ => pop.seq fun _ _ => storeThrough
  | some sig =>
      exact pop.seq fun _ _ => pop.seq fun _ _ => lowered.seq fun _ _ => storeThrough

theorem loadObject : o.Brings (fun _ => True) (Emit.loadObject site) :=
  typeOperand.seq fun _ _ => loadThrough

theorem storeObject : o.Brings (fun _ => True) (Emit.storeObject site) := by
  unfold Emit.storeObject
  simp only [Emit.liftM_lower]
  exact typeOperand.seq fun _ _ => pop.seq fun _ _ => pop.seq fun _ _ => lowered.seq fun _ _ =>
    storeThrough

set_option synthInstance.maxSize 512 in
theorem initObject : o.Brings (fun _ => True) (Emit.initObject site) := by
  unfold Emit.initObject
  simp only [Emit.liftM_build, Emit.liftM_lower, Lower.liftM_build]
  exact typeOperand.seq fun _ _ => pop.seq fun _ _ => lowered.seq fun _ _ =>
    pointerTo.seq fun _ hpointer => constNull.seq fun _ hzero => store hpointer (.of_typeOf hzero)

end Memory

section Fields

variable {sig : TypeSig} {f : FieldId} {object : Element}

/-- A spilled object has storage of its type. -/
theorem objectAddress (hobject : o.sound object) :
    o.Brings (fun _ => True) (Emit.lower (Lower.build (Emit.objectAddress object))) := by
  unfold Emit.objectAddress
  simp only [Lower.build_bind, Emit.lower_bind]
  refine lowered.seq fun cls _ => ?_
  split
  · exact lowered
  · simp only [Lower.build_bind, Emit.lower_bind]
    have halloca : o.Brings (o.final.module.PointsTo · object.type)
        (Emit.lower (Lower.build (Build.alloca object.type))) :=
      build fun h hend _ => (alloca_pointsTo h).mono hend
    exact halloca.seq fun spill hspill =>
      (put fun _ _ _ => o.spilled hobject hspill).seq fun _ _ => lowered

set_option synthInstance.maxSize 512 in
theorem fieldAddress (hobject : o.sound object) :
    o.Brings (fun address => o.final.module.classOf address = .ok .pointer ∧
      ∀ d type, site.asm.field f = .ok d →
      Lowering.irType site.asm d.sig o.final = .ok type o.final →
        o.aims address type) (Emit.fieldAddress site f object) := by
  unfold Emit.fieldAddress
  simp only [Emit.liftM_build, Lower.liftM_build, Lower.liftM_ask, Lower.liftM_layout]
  refine ask.seq fun d hd => ?_
  have hhandle : o.Brings (o.final.registry.types.lookup d.declaringType = some ·)
      (Emit.lower (Lower.consult (·.type site.asm d.declaringType))) :=
    lower fun h hend _ => by
      obtain ⟨hfound, rfl⟩ := Lower.consult_eq_ok_iff.mp h
      exact hend.registry.types (Registry.found_eq_ok_iff.mp hfound)
  have hindexed : o.Brings (fun index => ∃ s c, o.known s ∧
      Layouts.fieldIndex site.asm f s.layouts = .ok index c)
      (Emit.lower (Lower.layout (Layouts.fieldIndex site.asm f))) :=
    lower fun {s index s'} h _ hs => by
      obtain ⟨c, hlayout, -⟩ := Lower.layout_eq_ok_iff.mp h
      exact ⟨s, c, hs.known, hlayout⟩
  refine hhandle.seq fun struct hstruct => hindexed.seq fun index hindex =>
    (objectAddress hobject).seq fun base _ => lowered.seq fun pointer _ =>
      lowered.seq fun base _ => ?_
  refine build fun h hend hhere => ⟨structGep_classOf h hend, fun d' type hd' htype => ?_⟩
  obtain rfl := Except.ok.inj (hd.symm.trans hd')
  obtain ⟨s, c, hknown, hlayout⟩ := hindex
  exact o.aims_of_member hknown hd hlayout hstruct h hhere hend htype

theorem pushLoaded {address : ValueId} :
    o.Brings (fun _ => True) (Emit.pushLoaded site sig address) := by
  unfold Emit.pushLoaded
  simp only [Emit.liftM_build, Emit.liftM_lower, Lower.liftM_build]
  exact irType.seq fun _ htype => (load htype).seq fun _ hfits =>
    (toStack hfits).seq fun _ he => push he

theorem pushAddress {address : ValueId} (hclass : o.final.module.classOf address = .ok .pointer) :
    o.Brings (fun _ => True) (Emit.pushAddress sig address) := by
  unfold Emit.pushAddress
  simp only [Lower.liftM_build]
  exact typeOf.seq fun _ htype => pushAddressed hclass rfl htype

set_option synthInstance.maxSize 512 in
instance : Keeps (EmitState.On (Session.Later site.asm)) (Emit.fieldAddress site f object) := by
  unfold Emit.fieldAddress
  infer_instance

instance (address : ValueId) :
    Keeps (EmitState.On (Session.Later site.asm)) (Emit.pushLoaded site sig address) := by
  unfold Emit.pushLoaded
  infer_instance

instance (address : ValueId) :
    Keeps (EmitState.On (Session.Later site.asm)) (Emit.pushAddress sig address) := by
  unfold Emit.pushAddress
  infer_instance

theorem loadField : o.Brings (fun _ => True) (Emit.loadField site) := by
  unfold Emit.loadField
  simp only [Lower.liftM_ask]
  exact fieldOperand.seq fun _ _ => pop.seq fun _ hobject => (fieldAddress hobject).seq fun _ _ =>
    lowered.seq fun _ _ => pushLoaded

theorem loadFieldAddress : o.Brings (fun _ => True) (Emit.loadFieldAddress site) := by
  unfold Emit.loadFieldAddress
  simp only [Lower.liftM_ask]
  exact fieldOperand.seq fun _ _ => pop.seq fun _ hobject => (fieldAddress hobject).seq
    fun _ haddress => lowered.seq fun _ _ => pushAddress haddress.1

set_option synthInstance.maxSize 1024 in
theorem storeField : o.Brings (fun _ => True) (Emit.storeField site) := by
  unfold Emit.storeField
  simp only [Emit.liftM_build, Emit.liftM_lower, Lower.liftM_build, Lower.liftM_ask]
  exact fieldOperand.seq fun f _ => pop.seq fun value _ => pop.seq fun object hobject =>
    (fieldAddress hobject).seq fun address haddress => ask.seq fun d hd =>
      irType.seq fun type htype =>
    valueOf.seq fun stored hstored => store (haddress.2 d type hd htype) hstored

/-- The global of a static field is storage of its type. -/
theorem staticField :
    o.Brings (fun g => ∃ d, site.asm.field f = .ok d ∧ o.final.PointsTo site.asm d.sig g)
    (Emit.lower (Lowering.staticField site.asm f)) :=
  lower fun h hend _ =>
    o.signed.statics (hend.registry.staticFields (staticField_registered h))

theorem loadStatic : o.Brings (fun _ => True) (Emit.loadStatic site) := by
  unfold Emit.loadStatic
  simp only [Emit.liftM_lower, Lower.liftM_ask]
  exact fieldOperand.seq fun _ _ => lowered.seq fun _ _ => lowered.seq fun _ _ => pushLoaded

theorem loadStaticAddress : o.Brings (fun _ => True) (Emit.loadStaticAddress site) := by
  unfold Emit.loadStaticAddress
  simp only [Emit.liftM_lower, Lower.liftM_ask]
  refine fieldOperand.seq fun f _ => staticField.seq fun g hg => lowered.seq fun d _ => ?_
  obtain ⟨d', -, type, -, hpoints⟩ := hg
  exact pushAddress hpoints.classOf

/-- What is stored to a static field was brought to its type, or is its initial value. -/
theorem storeStatic : o.Brings (fun _ => True) (Emit.storeStatic site) where
  run {s u s'} h hend hs := by
    obtain ⟨store, hways⟩ := Emit.storeStatic_cases h
    have hprepared : o.Proceeds s.session store.state.session :=
      store.prepared (fun _ => inferInstance) (fun _ => inferInstance) fun _ _ => inferInstance
    have hrest : ∀ e ∈ store.rest.elements, o.sound e := fun e he =>
      hs.stack e (EvalStack.elements_of_pop? store.pop ▸ List.mem_append_left _ he)
    have hstocked {session : Session} (hafter : Session.Later site.asm store.state.session session)
        (hfine : o.Fine session) : o.Stocked { store.state with session } := by
      have hlater := hs.later (IsTrans.trans _ _ _ hprepared.later hafter) hfine
      exact ⟨hfine, hrest, hlater.leaders⟩
    rcases hways with ⟨c, m, -, hnew, hset, rfl⟩ | ⟨-, v, m₁, m₂, hvalue, hput, rfl⟩
    · have hafter := store.later_of_fold hnew hset
      have hstate := hprepared.fine (IsTrans.trans _ _ _ hafter hend) hs.fine
      have hadds : store.module.Evolves (fun c => c.isStaying = true ∧
          ∀ block type inst, c ≠ .addInst block type inst) m := by
        rcases Build.setInitializer_cases hset with ⟨misuse, rfl, hfits⟩ | ⟨rfl, hfits⟩
        · exact Evolves.one ⟨rfl, fun _ _ _ h => nomatch h⟩ hfits
        · exact Evolves.one ⟨rfl, fun _ _ _ h => nomatch h⟩ hfits
      have hcode := hstate.code.evolves hadds (fun _ hc => hc.1) fun c hc _ _ _ _ _ heq =>
        absurd heq (hc.2 _ _ _)
      exact ⟨hstocked hafter ⟨o.known_later hafter hstate.known, hcode⟩, trivial⟩
    · have hafter := store.later_of_store hvalue hput
      have hstate := hprepared.fine (IsTrans.trans _ _ _ hafter hend) hs.fine
      have hput' : Session.Later site.asm { store.typed with module := m₁ }
          { store.typed with module := m₂ } :=
        (inferInstance :
          Keeps _ (Lower.build (Build.store store.global v site.instr.isVolatile))).run
          (Lower.build_eq_ok_iff.mpr ⟨m₂, hput, rfl⟩)
      have hvalued : o.Proceeds store.state.session { store.typed with module := m₁ } :=
        (inferInstance : Keeps o.Proceeds
          (Lower.build (Emit.valueOf site.asm store.type store.element))).run
            (Lower.build_eq_ok_iff.mpr ⟨m₁, hvalue, rfl⟩)
      have hrest' := IsTrans.trans _ _ _ hput' hend
      have hfine := hvalued.fine hrest' hstate
      have htype := irType_extends store.irType (IsTrans.trans _ _ _
        (store.looked (R := Session.Later site.asm) fun _ _ => inferInstance)
          (IsTrans.trans _ _ _ hafter hend)).toExtends
      have hmade : o.final.registry.staticField? store.field = some store.global :=
        hend.registry.staticFields (irType_registry store.irType ▸
          staticField_registered store.find)
      obtain ⟨d, hd, type, htype', hpoints⟩ := o.signed.statics hmade
      obtain rfl := Except.ok.inj (store.definition_eq.symm.trans hd)
      rw [htype] at htype'
      cases htype'
      have hstorable := o.stored (o.aims_of_aimsAt hpoints.aimsAt)
        (valueOf_suits hvalue hrest'.module) hput hfine.code.here hend.module
      have hdone := store_fine hfine hstorable hput
      exact ⟨hstocked hafter hdone, trivial⟩

end Fields

section Calls

variable {target ctor : MethodId} {callee : MethodDef} {args : List Element} {ty : TypeDefId}

instance (result : Option ValueId) :
    Keeps (EmitState.On (Session.Later site.asm)) (Emit.pushResult site callee result) := by
  unfold Emit.pushResult
  split <;> infer_instance

set_option synthInstance.maxSize 256 in
instance : Keeps (EmitState.On (Session.Later site.asm)) (Emit.callDirect site target) := by
  unfold Emit.callDirect
  infer_instance

set_option synthInstance.maxSize 4096 in
instance : Keeps (EmitState.On (Session.Later site.asm)) (Emit.callSlot site target) := by
  unfold Emit.callSlot
  dsimp only
  refine Keeps.seq inferInstance fun callee => Keeps.seq inferInstance fun args => ?_
  cases args <;> infer_instance

theorem declareFunction : o.Brings (o.final.FunctionOf site.asm target)
    (Emit.lower (Lowering.declareFunction site.asm target)) :=
  lower fun h hend _ => by
    obtain ⟨name, hname, hf⟩ := declareFunction_registered h
    exact ⟨name, hname, hend.registry.functions hf⟩

theorem pushResult {result : Option ValueId}
    (hresult : ∀ value, result = some value → o.fits callee.returnType value) :
    o.Brings (fun _ => True) (Emit.pushResult site callee result) := by
  unfold Emit.pushResult
  split
  · simp only [Lower.liftM_build]
    split
    · exact (toStack (hresult _ rfl)).seq fun _ he => push he
    · exact pure trivial
  · exact pure trivial

/-- The value of a call is that of the method, if the function is. -/
theorem callDirect : o.Brings (fun _ => True) (Emit.callDirect site target) := by
  unfold Emit.callDirect
  simp only [Emit.liftM_build, Emit.liftM_lower, Lower.liftM_ask]
  refine ask.seq fun callee hcallee => popN.seq fun args _ => ?_
  split
  · exact pure trivial
  · refine declareFunction.seq fun f hf => lowered.seq fun values _ => ?_
    have hcall : o.Brings (fun result => ∀ value, result = some value →
        o.fits callee.returnType value)
        (Emit.lower (Lower.build (Build.call f values))) :=
      build fun h hend _ value heq => o.fits_of_call hcallee hf (heq ▸ h) hend
    exact hcall.seq fun result hresult => pushResult hresult

theorem call : o.Brings (fun _ => True) (Emit.call site) :=
  methodOperand.seq fun _ _ => callDirect

set_option synthInstance.maxSize 4096 in
/-- The value of a call through a slot has the type of the result, which the call is made at. -/
theorem callSlot : o.Brings (fun _ => True) (Emit.callSlot site target) := by
  unfold Emit.callSlot
  simp only [Emit.liftM_build, Emit.liftM_lower, Lower.liftM_ask]
  refine ask.after (fun callee => ?_) fun callee hcallee =>
    popN.after (fun args => by cases args <;> infer_instance) fun args _ => ?_
  · refine Keeps.seq inferInstance fun args => ?_
    cases args <;> infer_instance
  cases args with
  | nil => exact malformed
  | cons object rest =>
      refine lowered.seq fun place _ => lowered.seq fun kind _ => ?_
      have hrest (tables : ValueId) : o.Brings (fun _ => True) (do
          let type ← Emit.lower (functionType site.asm callee)
          let pointer ← Emit.lower (Lower.build (Build.pointerType type))
          let place ← Emit.lower (Lower.build (Build.structGep place.1 tables place.2))
          let function ← Emit.lower (Lower.build (Build.load pointer place))
          let values ← Emit.lower (Emit.coerceArgs site.asm callee (object :: rest))
          let result ← Emit.lower (Lower.build (Build.callIndirect type function values))
          Emit.pushResult site callee result : Emit Unit) := by
        have hfunction : o.Brings (fun type => ∃ result params,
            o.final.module.types[type.index]? = some (.function result params) ∧
              Lowering.irType site.asm callee.returnType o.final = .ok result o.final)
            (Emit.lower (functionType site.asm callee)) :=
          lower fun h hend _ => by
            obtain ⟨result, sigs, types, -, htype, hresult, -⟩ := functionType_params h
            exact ⟨result, types, hend.module.partsKept htype (by simp),
              irType_extends hresult hend.toExtends⟩
        refine hfunction.seq fun type htype => lowered.seq fun pointer _ =>
          lowered.seq fun place _ => lowered.seq fun function _ => lowered.seq fun values _ => ?_
        have hcall : o.Brings (fun result => ∀ value, result = some value →
            o.fits callee.returnType value)
            (Emit.lower (Lower.build (Build.callIndirect type function values))) := by
          refine build fun h hend _ value heq => ?_
          obtain ⟨result, params, htype, hresult⟩ := htype
          obtain ⟨cls, -, ⟨-, hnone⟩ | ⟨-, v, hsome, hv⟩⟩ := Build.callIndirect_result h hend htype
          · cases heq.symm.trans hnone
          · obtain rfl := Option.some.inj (heq.symm.trans hsome)
            exact o.fits_of_hasSig ⟨result, hresult, hv⟩
        exact hcall.seq fun result hresult => pushResult hresult
      split
      · exact lowered.seq fun tables _ => hrest tables
      · exact lowered.seq fun tables _ => hrest tables

theorem later_of_slot (site : Site) (target : MethodId) (slot : Option MethodId) :
    Keeps (EmitState.On (Session.Later site.asm)) (match slot with
      | some slot => Emit.callSlot site slot
      | none => Emit.callDirect site target) := by
  cases slot <;> infer_instance

theorem callVirtual : o.Brings (fun _ => True) (Emit.callVirtual site) := by
  unfold Emit.callVirtual
  simp only [Lower.liftM_ask]
  have hlater := later_of_slot site
  refine methodOperand.seq fun target _ => ask.seq fun slot _ => ?_
  cases slot with
  | some slot => exact callSlot
  | none => exact callDirect

end Calls

section Objects

variable {ctor : MethodId} {args : List Element} {ty : TypeDefId}

/-- A routine returns a pointer to the new object. -/
theorem newReference : o.Brings o.sound (Emit.lower (Emit.newReference site.asm ctor ty args)) := by
  have hroutine : o.Brings (fun f => o.final.registry.newobjs.lookup ty = some f)
      (Emit.lower (newobjFunction site.asm ty)) :=
    lower fun h hend _ => hend.registry.newobjs (newobj_of_newobjFunction h)
  unfold Emit.newReference
  simp only [Emit.lower_bind, Lower.liftM_build, Lower.liftM_ask]
  refine hroutine.after (fun f => ?_) fun f hf => ?_
  · refine Keeps.seq inferInstance fun result => ?_
    cases result <;> infer_instance
  have hcall : o.Brings (fun result => ∀ object, result = some object →
      o.final.module.classOf object = .ok .pointer)
        (Emit.lower (Lower.build (Build.call f []))) := by
    refine build fun h hend _ object heq => ?_
    obtain ⟨⟨name, type, result, params, pointee, hhead, htype, hresult⟩, -⟩ := o.signed.routines hf
    obtain ⟨cls, -, ⟨-, hnone⟩ | ⟨-, v, hsome, hv⟩⟩ := Build.call_result h hend hhead htype
    · cases heq.symm.trans hnone
    · obtain rfl := Option.some.inj (heq.symm.trans hsome)
      exact classOf_eq_ok_iff.mpr ⟨result, hv, classify_eq_ok_iff.mpr ⟨_, hresult, rfl⟩⟩
  refine hcall.after (fun result => by cases result <;> infer_instance) fun result hresult => ?_
  cases result with
  | none =>
      simp only [Emit.lower_bind]
      exact lowered.seq fun _ _ => lower fun h _ _ => absurd h (by simp)
  | some object =>
      simp only [Emit.lower_bind]
      refine lowered.seq fun _ _ => typeOf.seq fun type htype => lower fun h _ _ => ?_
      obtain ⟨rfl, -⟩ := pure_eq_ok_iff.mp h
      obtain ⟨own, hown, hpointer⟩ := classOf_eq_ok_iff.mp (hresult object rfl)
      obtain rfl := Except.ok.inj (hown.symm.trans htype)
      exact o.typed htype (.of_pointer hpointer rfl)

set_option synthInstance.maxSize 256 in
instance : Keeps (Session.Later site.asm) (Emit.newValue site.asm ctor ty args) := by
  unfold Emit.newValue
  infer_instance

set_option synthInstance.maxSize 256 in
/-- A value is loaded from storage of its own, which starts as zero. -/
theorem newValue {d : MethodDef} (hd : site.asm.method ctor = .ok d)
    (hctor : o.constructible ctor) :
    o.Brings o.sound (Emit.lower (Emit.newValue site.asm ctor d.declaringType args)) := by
  unfold Emit.newValue
  simp only [Emit.lower_bind, Lower.liftM_build]
  refine irType.seq fun type htype => ?_
  have halloca : o.Brings (o.final.module.PointsTo · type)
      (Emit.lower (Lower.build (Build.alloca type))) :=
    build fun h hend _ => (alloca_pointsTo h).mono hend
  refine halloca.seq fun temporary htemporary => constNull.seq fun zero hzero =>
    (store (o.aims_of_aimsAt htemporary.aimsAt) (.of_typeOf hzero)).seq fun _ _ => ?_
  have hload : o.Brings o.sound (Emit.lower (do
      return ⟨← Build.load type temporary, .named d.declaringType, type⟩ : Lower Element)) := by
    simp only [Emit.lower_bind, Lower.liftM_build]
    have hvalue : o.Brings (o.final.module.typeOf · = .ok type)
        (Emit.lower (Lower.build (Build.load type temporary))) :=
      build fun h hend _ => hend.typeOf (load_typeOf h)
    refine hvalue.seq fun value hvalue => lower fun h _ _ => ?_
    obtain ⟨rfl, -⟩ := pure_eq_ok_iff.mp h
    exact o.constructed hd hctor htype hvalue
  split
  · simp only [Emit.lower_bind] at hload ⊢
    exact lowered.seq fun _ _ => hload
  · simp only [Emit.lower_bind] at hload ⊢
    exact hload

theorem newObject (hctor : ∀ ctor, site.instr.operand = .method ctor → o.constructible ctor) :
    o.Brings (fun _ => True) (Emit.newObject site) := by
  have hoperand : o.Brings (fun ctor => site.instr.operand = .method ctor)
      (Emit.methodOperand site) := by
    unfold Emit.methodOperand
    split
    · rename_i heq
      exact pure heq
    · exact malformed
  unfold Emit.newObject
  simp only [Lower.liftM_ask]
  refine hoperand.after (fun ctor => ?_) fun ctor hoperand => ask.after (fun d => ?_) fun d hd =>
    popN.after (fun args => ?_) fun args _ => ask.after (fun kind => ?_) fun kind _ => ?_
  · refine Keeps.seq inferInstance fun d => Keeps.seq inferInstance fun args =>
      Keeps.seq inferInstance fun kind => ?_
    cases kind <;> infer_instance
  · refine Keeps.seq inferInstance fun args => Keeps.seq inferInstance fun kind => ?_
    cases kind <;> infer_instance
  · refine Keeps.seq inferInstance fun kind => ?_
    cases kind <;> infer_instance
  · cases kind <;> infer_instance
  cases kind with
  | classType => exact newReference.seq fun _ he => push he
  | structType | enumType => exact (newValue hd (hctor ctor hoperand)).seq fun _ he => push he
  | interfaceType => exact malformed

end Objects

section Arrays

variable {source : ElementSource} {array index : Element}

theorem elementSig : o.Brings (fun _ => True) (Emit.elementSig site source array) := by
  unfold Emit.elementSig
  cases source with
  | fixed sig => exact pure trivial
  | token => exact typeOperand
  | reference => exact pure trivial

set_option synthInstance.maxSize 256 in
theorem newArray : o.Brings (fun _ => True) (Emit.newArray site) := by
  unfold Emit.newArray
  simp only [Emit.liftM_build, Emit.liftM_lower, Lower.liftM_build]
  refine typeOperand.seq fun sig _ => pop.seq fun count _ => lowered.seq fun element _ =>
    lowered.seq fun count _ => ?_
  have halloc : o.Brings (o.final.module.classOf · = .ok .pointer)
      (Emit.lower (Lower.build (Build.heapAlloc element (some count)))) :=
    build fun h hend _ => heapAlloc_classOf h hend
  exact halloc.seq fun array hclass => typeOf.seq fun type htype => pushAddressed hclass rfl htype

theorem elementAddress {type : TypeId} :
    o.Brings (fun address => o.final.module.classOf address = .ok .pointer ∧ o.aims address type)
      (Emit.lower (Lower.build (Emit.elementAddress site.asm type array index))) := by
  unfold Emit.elementAddress
  simp only [Lower.build_bind, Emit.lower_bind]
  refine lowered.seq fun base _ => lowered.seq fun index _ => build fun h hend _ => ?_
  exact ⟨(gep_pointsTo h hend).classOf, o.aims_of_aimsAt (gep_pointsTo h hend).aimsAt⟩

theorem loadElementAddress : o.Brings (fun _ => True) (Emit.loadElementAddress site) := by
  unfold Emit.loadElementAddress
  simp only [Emit.liftM_lower, Lower.liftM_build]
  exact typeOperand.seq fun sig _ => pop.seq fun index _ => pop.seq fun array _ =>
    lowered.seq fun element _ =>
    elementAddress.seq fun address haddress => typeOf.seq fun type htype =>
    pushAddressed haddress.1 rfl htype

set_option synthInstance.maxSize 256 in
theorem loadElement : o.Brings (fun _ => True) (Emit.loadElement site source) := by
  unfold Emit.loadElement
  simp only [Emit.liftM_build, Emit.liftM_lower, Lower.liftM_build]
  exact pop.seq fun index _ => pop.seq fun array _ => elementSig.seq fun sig _ =>
    irType.seq fun element htype =>
    lowered.seq fun address _ => (load htype).seq fun value hfits =>
      (toStack hfits).seq fun _ he => push he

set_option synthInstance.maxSize 512 in
theorem storeElement : o.Brings (fun _ => True) (Emit.storeElement site source) := by
  unfold Emit.storeElement
  simp only [Emit.liftM_build, Lower.liftM_build]
  have hrest (array index value : Element) (element : TypeId) : o.Brings (fun _ => True) (do
      let address ← Emit.lower (Lower.build (Emit.elementAddress site.asm element array index))
      let stored ← Emit.lower (Lower.build (Emit.valueOf site.asm element value))
      Emit.lower (Lower.build (Build.store address stored site.instr.isVolatile)) : Emit Unit) :=
    elementAddress.seq fun address haddress => valueOf.seq fun stored hstored =>
      store haddress.2 hstored
  cases source with
  | reference =>
      exact pop.seq fun value _ => pop.seq fun index _ => pop.seq fun array _ =>
        hrest array index value _
  | fixed _ | token =>
      exact pop.seq fun value _ => pop.seq fun index _ => pop.seq fun array _ =>
        elementSig.seq fun sig _ => lowered.seq fun element _ => hrest array index value element

end Arrays

end Outlook.Brings

end Lowering

end CilSsa
