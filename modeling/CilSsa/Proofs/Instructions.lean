import CilSsa.Proofs.Builder

/-!
Single instructions, as the builder adds them.

Before an instruction is added types may be made and misuse may be recorded, but no code changes.
So an action that adds an instruction adds exactly this one, at the end of the current block.
-/

namespace CilSsa.Ssa

namespace Module

/-- Whether a value is the result of an instruction. -/
def Performs (m : Module) (v : ValueId) (inst : Inst) : Prop :=
  ∃ type block, m.values[v.index]? = some ⟨type, .inst block inst⟩

theorem Performs.lt {m : Module} {v : ValueId} {inst : Inst} (h : m.Performs v inst) :
    v.index < m.values.size := by
  obtain ⟨type, block, hv⟩ := h
  exact (Array.getElem?_eq_some_iff.mp hv).1

/-- The module after a step that does not concern code. -/
structure SameCode (m m' : Module) : Prop where
  values_le : m.values.size ≤ m'.values.size
  blocks : m'.blocks = m.blocks
  position : m'.position = m.position
  functions : m'.functions = m.functions

instance : IsPreorder Module SameCode where
  refl _ := ⟨Nat.le_refl _, rfl, rfl, rfl⟩
  trans _ _ _ h h' := ⟨Nat.le_trans h.values_le h'.values_le, h'.blocks.trans h.blocks,
    h'.position.trans h.position, h'.functions.trans h.functions⟩

/-- The module with one more instruction at the end of a block. -/
structure Appends (b : BlockId) (v : ValueId) (m m' : Module) : Prop where
  blocks : m'.blocks = m.blocks.modify b.index (Block.append v)
  position : m'.position = m.position
  functions : m'.functions = m.functions

end Module

namespace Build

variable {α : Type} {m m' : Module} {v : ValueId}

instance (ask : Module → Except Fault α) : Keeps Module.SameCode (query ask) where
  run h := by
    obtain ⟨-, rfl⟩ := query_eq_ok_iff.mp h
    exact Std.Refl.refl _

instance (misuse : Misuse) : Keeps Module.SameCode (record misuse) where
  run h := by
    obtain ⟨function, -, rfl⟩ := record_eq_ok_iff.mp h
    exact ⟨Nat.le_refl _, rfl, rfl, rfl⟩

theorem intern_sameCode (type : IrType) : Keeps Module.SameCode (intern type) where
  run h := by
    obtain ⟨types, rfl⟩ := intern_same h
    exact ⟨Nat.le_refl _, rfl, rfl, rfl⟩

instance : Keeps Module.SameCode voidType := intern_sameCode _

instance (bits : Nat) : Keeps Module.SameCode (intType bits) := intern_sameCode _

instance (pointee : TypeId) : Keeps Module.SameCode (pointerType pointee) := intern_sameCode _

/-- An instruction is added, after steps that do not concern code. -/
def Emitted (inst : Inst) (v : ValueId) (m m' : Module) : Prop :=
  ∃ type m₁, m.SameCode m₁ ∧ pushInst type inst m₁ = .ok v m'

theorem Emitted.after {inst : Inst} {m₁ : Module} (h : Emitted inst v m₁ m')
    (hsame : m.SameCode m₁) : Emitted inst v m m' := by
  obtain ⟨type, m₂, hsame', hpush⟩ := h
  exact ⟨type, m₂, IsTrans.trans _ _ _ hsame hsame', hpush⟩

/-- An action that adds an instruction, and returns its value. -/
class Emits (inst : outParam Inst) (x : Build ValueId) : Prop where
  run : ∀ {m v m'}, x m = .ok v m' → Emitted inst v m m'

instance (type : TypeId) (inst : Inst) : Emits inst (pushInst type inst) where
  run h := ⟨type, _, Std.Refl.refl _, h⟩

theorem Emits.after {inst : Inst} {x : Build α} {f : α → Build ValueId}
    (hx : Keeps Module.SameCode x) (hf : ∀ a, Emits inst (f a)) : Emits inst (x >>= f) where
  run h := by
    obtain ⟨a, m₁, hfirst, hthen⟩ := bind_eq_ok_iff.mp h
    exact ((hf a).run hthen).after (hx.run hfirst)

instance (inst : Inst) (x : Build α) (f : α → Build ValueId) [hx : Keeps Module.SameCode x]
    [hf : ∀ a, Emits inst (f a)] : Emits inst (x >>= f) :=
  Emits.after hx hf

instance (inst : Inst) (c : Prop) [Decidable c] (x y : Build ValueId) [hx : Emits inst x]
    [hy : Emits inst y] : Emits inst (if c then x else y) := by
  split
  · exact hx
  · exact hy

instance (op : CastOp) (value : ValueId) (target : TypeId) :
    Emits (.cast op value) (cast op value target) := by
  unfold cast
  infer_instance

instance (type : TypeId) (pointer : ValueId) : Emits (.load pointer) (load type pointer) := by
  unfold load
  infer_instance

instance (type : TypeId) (pointer : ValueId) (index : Nat) :
    Emits (.structGep type pointer index) (structGep type pointer index) := by
  unfold structGep
  refine Emits.after inferInstance fun member => ?_
  cases member <;> infer_instance

instance (element : TypeId) (pointer index : ValueId) :
    Emits (.gep element pointer index) (gep element pointer index) := by
  unfold gep
  infer_instance

instance (type : TypeId) (count : Option ValueId) :
    Emits (.heapAlloc type count) (heapAlloc type count) := by
  unfold heapAlloc
  infer_instance

/-- A store has no value that could be used, but is an instruction like the others. -/
theorem store_emitted {pointer value : ValueId} {isVolatile : Bool} {u : Unit}
    (h : store pointer value isVolatile m = .ok u m') :
    ∃ v, Emitted (.store pointer value isVolatile) v m m' := by
  have hlast {m₁ : Module} (h : (do
      let _ ← pushInst (← voidType) (.store pointer value isVolatile) : Build Unit) m₁ = .ok u m') :
      ∃ v, Emitted (.store pointer value isVolatile) v m₁ m' := by
    simp only [bind_eq_ok_iff, pure_eq_ok_iff] at h
    obtain ⟨type, m₂, htype, v, _, hpush, -, rfl⟩ := h
    exact ⟨v, type, m₂, Keeps.run htype, hpush⟩
  simp only [store, bind_eq_ok_iff, query_eq_ok_iff] at h
  obtain ⟨cls, _, ⟨-, rfl⟩, h⟩ := h
  split at h
  · obtain ⟨_, m₁, hrecord, h⟩ := bind_eq_ok_iff.mp h
    obtain ⟨v, hv⟩ := hlast h
    exact ⟨v, hv.after (Keeps.run hrecord)⟩
  · exact hlast h

instance (index : Nat) (args : List ValueId) (params : List TypeId) :
    Keeps Module.SameCode (checkArgs index args params) :=
  Keeps.composes.checkArgs (fun _ => inferInstance) (fun _ => inferInstance) index args params

theorem buildCall_emitted {type : TypeId} {callee : Callee} {args : List ValueId}
    {result : Option ValueId} (h : buildCall type callee args m = .ok result m') :
    ∃ v, Emitted (.call callee args) v m m' := by
  have hlast {m₁ : Module} {type : TypeId} {f : ValueId → Build (Option ValueId)}
      (hf : ∀ {v m₂ m₃ result}, f v m₂ = .ok result m₃ → m₃ = m₂) (hsame : m.SameCode m₁)
      (h : (pushInst type (.call callee args) >>= f) m₁ = .ok result m') :
      ∃ v, Emitted (.call callee args) v m m' := by
    obtain ⟨v, m₂, hpush, h⟩ := bind_eq_ok_iff.mp h
    obtain rfl := hf h
    exact ⟨v, type, m₁, hsame, hpush⟩
  simp only [buildCall, bind_eq_ok_iff, query_eq_ok_iff] at h
  obtain ⟨signature, _, ⟨-, rfl⟩, h⟩ := h
  cases signature with
  | none =>
      obtain ⟨_, m₁, hrecord, h⟩ := bind_eq_ok_iff.mp h
      obtain ⟨type, m₂, htype, h⟩ := bind_eq_ok_iff.mp h
      exact hlast (fun h => (pure_eq_ok_iff.mp h).2)
        (IsTrans.trans _ _ _ (Keeps.run hrecord) (Keeps.run htype)) h
  | some signature =>
      have hanswer {v : ValueId} {m₂ m₃ : Module} {result : Option ValueId} (h : (do
          return if (← query (·.classify signature.1)) = .void then none else some v :
          Build (Option ValueId)) m₂ = .ok result m₃) : m₃ = m₂ := by
        simp only [bind_eq_ok_iff, query_eq_ok_iff, pure_eq_ok_iff] at h
        obtain ⟨_, _, ⟨-, rfl⟩, -, rfl⟩ := h
        rfl
      dsimp only at h
      split at h
      · obtain ⟨_, m₁, hrecord, h⟩ := bind_eq_ok_iff.mp h
        exact hlast hanswer (Keeps.run hrecord) h
      · obtain ⟨_, m₁, hcheck, h⟩ := bind_eq_ok_iff.mp h
        exact hlast hanswer (Keeps.run hcheck) h

variable {inst : Inst}

theorem pushInst_performs {type : TypeId} (h : pushInst type inst m = .ok v m') :
    m'.Performs v inst := by
  obtain ⟨m₁, -, rfl, rfl, -⟩ := pushInst_cases h
  cases hposition : m.position with
  | none => exact ⟨type, none, by simp [Module.apply, Module.pushValue]⟩
  | some b => exact ⟨type, some b, by simp [Module.apply, Module.pushValue]⟩

theorem Emitted.performs (h : Emitted inst v m m') : m'.Performs v inst := by
  obtain ⟨type, m₁, -, hpush⟩ := h
  exact pushInst_performs hpush

/-- The value of an instruction is new. -/
theorem Emitted.values_le (h : Emitted inst v m m') : m.values.size ≤ v.index := by
  obtain ⟨type, m₁, hsame, hpush⟩ := h
  obtain ⟨m₂, hfirst, rfl, -⟩ := pushInst_cases hpush
  rcases hfirst with rfl | ⟨misuse, rfl, -⟩ <;> exact hsame.values_le

/-- The new instruction is the last one of the current block. -/
theorem Emitted.appends {b : BlockId} (h : Emitted inst v m m') (hposition : m.position = some b) :
    m.Appends b v m' := by
  obtain ⟨type, m₁, hsame, hpush⟩ := h
  obtain ⟨m₂, hfirst, rfl, rfl, -⟩ := pushInst_cases hpush
  rw [hsame.position, hposition]
  rcases hfirst with rfl | ⟨misuse, rfl, -⟩
  · exact ⟨by rw [← hsame.blocks]; rfl, hsame.position, hsame.functions⟩
  · exact ⟨by rw [← hsame.blocks]; rfl, hsame.position, hsame.functions⟩

end Build

end CilSsa.Ssa
