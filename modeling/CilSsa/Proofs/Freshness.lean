import CilSsa.Proofs.Emission

/-!
Where values come from.  Most actions that return a value have just made it; conversions return
the value they were given or one they have just made.
-/

namespace CilSsa

open Ssa Metadata Lowering

/-- A state with a number of values. -/
class Counted (σ : Type) where
  count : σ → Nat

instance : Counted Module := ⟨fun m => m.values.size⟩

instance : Counted Session := ⟨fun s => s.module.values.size⟩

instance : Counted EmitState := ⟨fun s => s.session.module.values.size⟩

/-- No value goes away. -/
def Grows {σ : Type} [Counted σ] (s s' : σ) : Prop := Counted.count s ≤ Counted.count s'

instance {σ : Type} [Counted σ] : IsPreorder σ Grows where
  refl _ := Nat.le_refl _
  trans _ _ _ := Nat.le_trans

/-- A value that is in the second state and not in the first. -/
def New {σ : Type} [Counted σ] (s s' : σ) (v : ValueId) : Prop :=
  Counted.count s ≤ v.index ∧ v.index < Counted.count s'

/-- An action whose result is new. -/
class Fresh {ε σ α : Type} [Counted σ] (val : α → ValueId) (x : EStateM ε σ α) : Prop where
  run : ∀ {s : σ} {a : α} {s' : σ}, x s = .ok a s' → New s s' (val a)

/-- An action whose result is new or the given value. -/
class Through {ε σ α : Type} [Counted σ] (v : ValueId) (val : α → ValueId)
    (x : EStateM ε σ α) : Prop where
  run : ∀ {s : σ} {a : α} {s' : σ}, x s = .ok a s' → Grows s s' ∧ (val a = v ∨ New s s' (val a))

/-- An action whose result, if there is one, is new. -/
class Returns {ε σ : Type} [Counted σ] (x : EStateM ε σ (Option ValueId)) : Prop where
  run : ∀ {s s' : σ} {v : ValueId}, x s = .ok (some v) s' → New s s' v

section Sequences

variable {ε σ α β : Type} [Counted σ] {v : ValueId} {val : α → ValueId}

theorem Fresh.seq {x : EStateM ε σ β} {f : β → EStateM ε σ α} (hx : Keeps Grows x)
    (hf : ∀ b, Fresh val (f b)) : Fresh val (x >>= f) where
  run h := by
    obtain ⟨b, t, hfirst, hthen⟩ := bind_eq_ok_iff.mp h
    obtain ⟨hle, hlt⟩ := (hf b).run hthen
    exact ⟨Nat.le_trans (hx.run hfirst) hle, hlt⟩

instance Fresh.bind (x : EStateM ε σ β) (f : β → EStateM ε σ α) [hx : Keeps Grows x]
    [hf : ∀ b, Fresh val (f b)] : Fresh val (x >>= f) :=
  Fresh.seq hx hf

instance Fresh.then (x : EStateM ε σ ValueId) (f : ValueId → EStateM ε σ α)
    [hx : Fresh id x] [hf : ∀ w, Through w val (f w)] : Fresh val (x >>= f) where
  run h := by
    obtain ⟨w, t, hfirst, hthen⟩ := bind_eq_ok_iff.mp h
    obtain ⟨hle, hlt⟩ := hx.run hfirst
    obtain ⟨hgrows, hval | hnew⟩ := (hf w).run hthen
    · exact ⟨hval ▸ hle, hval ▸ Nat.lt_of_lt_of_le hlt hgrows⟩
    · exact ⟨Nat.le_trans (Nat.le_trans hle (Nat.le_of_lt hlt)) hnew.1, hnew.2⟩

instance Fresh.ite (c : Prop) [Decidable c] (x y : EStateM ε σ α) [hx : Fresh val x]
    [hy : Fresh val y] : Fresh val (if c then x else y) :=
  iteInduction (fun _ => hx) fun _ => hy

instance Through.fresh (x : EStateM ε σ α) [hx : Fresh val x] [hgrows : Keeps Grows x] :
    Through v val x where
  run h := ⟨hgrows.run h, .inr (hx.run h)⟩

instance Through.value : Through v id (pure v : EStateM ε σ ValueId) where
  run {s _ _} h := by
    obtain ⟨rfl, rfl⟩ := pure_eq_ok_iff.mp h
    exact ⟨Nat.le_refl _, .inl rfl⟩

instance Through.element (sig : TypeSig) (type : TypeId) :
    Through v Element.value (pure ⟨v, sig, type⟩ : EStateM ε σ Element) where
  run {s _ _} h := by
    obtain ⟨rfl, rfl⟩ := pure_eq_ok_iff.mp h
    exact ⟨Nat.le_refl _, .inl rfl⟩

theorem Through.seq {x : EStateM ε σ β} {f : β → EStateM ε σ α} (hx : Keeps Grows x)
    (hf : ∀ b, Through v val (f b)) : Through v val (x >>= f) where
  run h := by
    obtain ⟨b, t, hfirst, hthen⟩ := bind_eq_ok_iff.mp h
    have hgrows := hx.run hfirst
    obtain ⟨hgrows', hval | hnew⟩ := (hf b).run hthen
    · exact ⟨Nat.le_trans hgrows hgrows', .inl hval⟩
    · exact ⟨Nat.le_trans hgrows hgrows', .inr ⟨Nat.le_trans hgrows hnew.1, hnew.2⟩⟩

instance Through.bind (x : EStateM ε σ β) (f : β → EStateM ε σ α) [hx : Keeps Grows x]
    [hf : ∀ b, Through v val (f b)] : Through v val (x >>= f) :=
  Through.seq hx hf

instance Through.then (x : EStateM ε σ ValueId) (f : ValueId → EStateM ε σ α)
    [hx : Through v id x] [hf : ∀ w, Through w val (f w)] : Through v val (x >>= f) where
  run h := by
    obtain ⟨w, t, hfirst, hthen⟩ := bind_eq_ok_iff.mp h
    obtain ⟨hgrows, hw⟩ := hx.run hfirst
    obtain ⟨hgrows', hval | hnew⟩ := (hf w).run hthen
    · refine ⟨Nat.le_trans hgrows hgrows', ?_⟩
      rcases hw with hw | hw
      · exact .inl (hval.trans hw)
      · exact .inr ⟨hval ▸ hw.1, hval ▸ Nat.lt_of_lt_of_le hw.2 hgrows'⟩
    · exact ⟨Nat.le_trans hgrows hgrows', .inr ⟨Nat.le_trans hgrows hnew.1, hnew.2⟩⟩

instance Through.ite (c : Prop) [Decidable c] (x y : EStateM ε σ α) [hx : Through v val x]
    [hy : Through v val y] : Through v val (if c then x else y) :=
  iteInduction (fun _ => hx) fun _ => hy

end Sequences

section Lifts

variable {α : Type} {v : ValueId} {val : α → ValueId}

instance (x : Build α) [hx : Keeps (Module.Evolves Change.Any) x] : Keeps Grows x where
  run h := (hx.run h).values_le

instance (x : Build α) [hx : Keeps Grows x] : Keeps Grows (Lower.build x) where
  run h := by
    obtain ⟨m, hrun, rfl⟩ := Lower.build_eq_ok_iff.mp h
    exact hx.run hrun

instance (x : Lower α) [hx : Keeps Session.Evolves x] : Keeps Grows x where
  run h := (hx.run h).values_le

instance (x : Lower α) [hx : Keeps Grows x] : Keeps Grows (Emit.lower x) where
  run h := by
    obtain ⟨s, hrun, rfl⟩ := Emit.lower_eq_ok_iff.mp h
    exact hx.run hrun

instance (x : Build α) [h : Keeps Grows (Emit.lower (Lower.build x))] :
    Keeps Grows (liftM x : Emit α) :=
  h

instance (x : Build α) [hx : Fresh val x] : Fresh val (Lower.build x) where
  run h := by
    obtain ⟨m, hrun, rfl⟩ := Lower.build_eq_ok_iff.mp h
    exact hx.run hrun

instance (x : Lower α) [hx : Fresh val x] : Fresh val (Emit.lower x) where
  run h := by
    obtain ⟨s, hrun, rfl⟩ := Emit.lower_eq_ok_iff.mp h
    exact hx.run hrun

instance (x : Build α) [h : Fresh val (Lower.build x)] : Fresh val (liftM x : Lower α) := h

instance (x : Build α) [h : Fresh val (Emit.lower (Lower.build x))] :
    Fresh val (liftM x : Emit α) :=
  h

instance (x : Build α) [hx : Through v val x] : Through v val (Lower.build x) where
  run h := by
    obtain ⟨m, hrun, rfl⟩ := Lower.build_eq_ok_iff.mp h
    exact hx.run hrun

instance (x : Lower α) [hx : Through v val x] : Through v val (Emit.lower x) where
  run h := by
    obtain ⟨s, hrun, rfl⟩ := Emit.lower_eq_ok_iff.mp h
    exact hx.run hrun

instance (x : Build α) [h : Through v val (Lower.build x)] : Through v val (liftM x : Lower α) := h

instance (x : Build (Option ValueId)) [hx : Returns x] : Returns (Lower.build x) where
  run h := by
    obtain ⟨m, hrun, rfl⟩ := Lower.build_eq_ok_iff.mp h
    exact hx.run hrun

instance (x : Lower (Option ValueId)) [hx : Returns x] : Returns (Emit.lower x) where
  run h := by
    obtain ⟨s, hrun, rfl⟩ := Emit.lower_eq_ok_iff.mp h
    exact hx.run hrun

instance (x : Build (Option ValueId)) [h : Returns (Emit.lower (Lower.build x))] :
    Returns (liftM x : Emit (Option ValueId)) :=
  h

end Lifts

namespace Ssa.Build

instance (type : TypeId) (kind : ValueKind) : Fresh id (pushValue type kind) where
  run h := by
    cases h
    exact ⟨Nat.le_refl _, by simp [Counted.count]⟩

instance (type : TypeId) (inst : Inst) : Fresh id (pushInst type inst) where
  run {m _ _} h := by
    obtain ⟨m₁, hfirst, rfl, rfl, -⟩ := pushInst_cases h
    have hsize : m₁.values.size = m.values.size := by
      rcases hfirst with rfl | ⟨misuse, rfl, -⟩ <;> rfl
    constructor
    · exact Nat.le_of_eq hsize.symm
    · cases m.position <;> simp [Counted.count, Module.apply, Module.pushValue]

instance (type : TypeId) (value : Int) : Fresh id (constInt type value) := by
  unfold constInt
  infer_instance

instance (type : TypeId) (value : Numeric.Binary64) : Fresh id (constFloat type value) := by
  unfold constFloat
  infer_instance

instance (type : TypeId) : Fresh id (constNull type) := by
  unfold constNull
  infer_instance

instance (text : String) : Fresh id (constString text) := by
  have := listGlobal_keeps (P := Change.Any)
  have := countString_keeps (P := Change.Any)
  have := pushBytes_keeps (P := Change.Any)
  unfold constString
  dsimp only
  infer_instance

set_option synthInstance.maxSize 256 in
instance (name : String) (content : TypeId) : Fresh id (addGlobal name content) := by
  have := listGlobal_keeps (P := Change.Any)
  unfold addGlobal
  dsimp only
  infer_instance

instance (op : BinaryOp) (lhs rhs : ValueId) : Fresh id (binary op lhs rhs) := by
  unfold binary
  infer_instance

instance (op : UnaryOp) (operand : ValueId) : Fresh id (unary op operand) := by
  unfold unary
  infer_instance

instance (pred : IntPredicate) (lhs rhs : ValueId) : Fresh id (icmp pred lhs rhs) := by
  unfold icmp
  infer_instance

set_option synthInstance.maxSize 256 in
instance (pred : FloatPredicate) (lhs rhs : ValueId) : Fresh id (fcmp pred lhs rhs) := by
  unfold fcmp
  dsimp only
  infer_instance

instance (op : CastOp) (value : ValueId) (target : TypeId) : Fresh id (cast op value target) := by
  unfold cast
  infer_instance

instance (type : TypeId) : Fresh id (alloca type) := by
  unfold alloca
  infer_instance

instance (type : TypeId) (pointer : ValueId) : Fresh id (load type pointer) := by
  unfold load
  infer_instance

instance (type : TypeId) (pointer : ValueId) (index : Nat) :
    Fresh id (structGep type pointer index) := by
  unfold structGep
  refine Fresh.seq inferInstance fun member => ?_
  cases member <;> infer_instance

instance (element : TypeId) (pointer index : ValueId) : Fresh id (gep element pointer index) := by
  unfold gep
  infer_instance

instance (type : TypeId) (count : Option ValueId) : Fresh id (heapAlloc type count) := by
  unfold heapAlloc
  infer_instance

instance (value : ValueId) (target : TypeId) (signed : Bool) :
    Through value id (intCast value target signed) :=
  intCast_of (Through.seq inferInstance) (fun _ => Through.seq inferInstance) (fun _ =>
    inferInstance)
    inferInstance

theorem Returns.seq {ε σ β : Type} [Counted σ] {x : EStateM ε σ β}
    {f : β → EStateM ε σ (Option ValueId)} (hx : Keeps Grows x) (hf : ∀ b, Returns (f b)) :
    Returns (x >>= f) where
  run h := by
    obtain ⟨b, t, hfirst, hthen⟩ := bind_eq_ok_iff.mp h
    obtain ⟨hle, hlt⟩ := (hf b).run hthen
    exact ⟨Nat.le_trans (hx.run hfirst) hle, hlt⟩

instance Returns.ite {ε σ : Type} [Counted σ] (c : Prop) [Decidable c]
    (x y : EStateM ε σ (Option ValueId)) [hx : Returns x] [hy : Returns y] :
    Returns (if c then x else y) := by
  split
  · exact hx
  · exact hy

instance Returns.bind {ε σ β : Type} [Counted σ] (x : EStateM ε σ β)
    (f : β → EStateM ε σ (Option ValueId)) [hx : Keeps Grows x] [hf : ∀ b, Returns (f b)] :
    Returns (x >>= f) :=
  Returns.seq hx hf

/-- The result of a call is the instruction that calls. -/
theorem returns_result (result : TypeId) (inst : Inst) :
    Returns (do
      let value ← pushInst result inst
      return if (← query (·.classify result)) = .void then none else some value) where
  run h := by
    simp only [bind_eq_ok_iff, query_eq_ok_iff, pure_eq_ok_iff] at h
    obtain ⟨value, _, hpush, cls, _, ⟨-, rfl⟩, hvalue, rfl⟩ := h
    split at hvalue
    · simp at hvalue
    · obtain rfl := Option.some.inj hvalue
      exact (inferInstance : Fresh id (pushInst result inst)).run hpush

instance (type : TypeId) (callee : Callee) (args : List ValueId) :
    Returns (buildCall type callee args) := by
  have := returns_result
  unfold buildCall
  refine Returns.seq inferInstance fun signature => ?_
  split
  · refine ⟨fun h => ?_⟩
    simp at h
  · dsimp only
    infer_instance

instance (function : FunctionId) (args : List ValueId) : Returns (call function args) := by
  unfold call
  infer_instance

instance (type : TypeId) (callee : ValueId) (args : List ValueId) :
    Returns (callIndirect type callee args) := by
  unfold callIndirect
  infer_instance

end Ssa.Build

namespace Lowering

variable {asm : Assembly}

instance (value : ValueId) (target : TypeId) (signed : Bool) :
    Through value id (coerce value target signed) :=
  coerce_of (Through.seq inferInstance) (fun _ => Through.seq inferInstance) (fun _ =>
    inferInstance)
    inferInstance

instance (value : ValueId) (sig : TypeSig) :
    Through value Element.value (toStack asm value sig) := by
  unfold toStack
  refine Through.seq inferInstance fun onStack => Through.seq inferInstance fun type =>
    Through.seq inferInstance fun cls => ?_
  split <;> infer_instance

namespace Emit

instance (type : TypeId) (e : Element) : Through e.value id (pointerTo type e) := by
  unfold pointerTo
  infer_instance

instance (value : Int) : Fresh Element.value (constInt32 value) := by
  unfold constInt32
  infer_instance

instance (op : BinaryOp) (lhs rhs : Element) :
    Fresh Element.value (floatBinary asm op lhs rhs) := by
  unfold floatBinary
  infer_instance

instance (op : BinaryOp) (lhs rhs : Element) : Fresh Element.value (shift op lhs rhs) := by
  unfold shift
  infer_instance

instance (op : BinaryOp) (lhs rhs : Element) : Fresh Element.value (intBinary asm op lhs rhs) := by
  unfold intBinary
  dsimp only
  infer_instance

instance (relation : Relation) (unsigned : Bool) (lhs rhs : Element) :
    Fresh id (compareFloats asm relation unsigned lhs rhs) := by
  unfold compareFloats
  dsimp only
  infer_instance

instance (relation : Relation) (unsigned : Bool) (lhs rhs : Element) :
    Fresh id (compareValues asm relation unsigned lhs rhs) := by
  unfold compareValues
  dsimp only
  infer_instance

instance (value : ValueId) (target : TypeSig) (signed : Bool) :
    Through value Element.value (convertToFloat value target signed) := by
  unfold convertToFloat
  infer_instance

instance (value : ValueId) (target : TypeSig) (signed : Bool) :
    Through value Element.value (convertToInt asm value target signed) := by
  unfold convertToInt
  dsimp only
  infer_instance

set_option synthInstance.maxSize 256 in
instance (target : TypeSig) (unsignedSource : Bool) (e : Element) :
    Through e.value Element.value (convertElement asm target unsignedSource e) := by
  unfold convertElement
  dsimp only
  infer_instance

instance (type : TypeId) (array index : Element) :
    Fresh id (elementAddress asm type array index) := by
  unfold elementAddress
  infer_instance

instance (object : Element) : Keeps (Module.Evolves Change.Any) (objectAddress object) := by
  unfold objectAddress
  infer_instance

set_option synthInstance.maxSize 256 in
instance (site : Site) (f : FieldId) (object : Element) :
    Fresh id (fieldAddress site f object) := by
  unfold fieldAddress
  infer_instance

set_option synthInstance.maxSize 256 in
instance (ctor : MethodId) (ty : TypeDefId) (args : List Element) :
    Fresh Element.value (newValue asm ctor ty args) := by
  unfold newValue
  dsimp only
  infer_instance

instance (ctor : MethodId) (ty : TypeDefId) (args : List Element) :
    Fresh Element.value (newReference asm ctor ty args) := by
  unfold newReference
  refine Fresh.seq inferInstance fun f => ⟨fun h => ?_⟩
  obtain ⟨result, t, hcall, h⟩ := bind_eq_ok_iff.mp h
  cases result with
  | none => simp at h
  | some object =>
      obtain ⟨hle, hlt⟩ := (inferInstance : Returns (Lower.build (Build.call f []))).run hcall
      have hthrough : Through object Element.value (do
          construct asm ctor object args
          let type ← Lower.build (Build.query (·.typeOf object))
          return ⟨object, .named ty, type⟩ : Lower Element) := inferInstance
      obtain ⟨hgrows, hval | hnew⟩ := hthrough.run h
      · exact ⟨hval ▸ hle, hval ▸ Nat.lt_of_lt_of_le hlt hgrows⟩
      · exact ⟨Nat.le_trans (Nat.le_trans hle (Nat.le_of_lt hlt)) hnew.1, hnew.2⟩

end Emit

end Lowering

end CilSsa
