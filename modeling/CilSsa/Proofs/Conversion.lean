import CilSsa.Proofs.InBlock

/-!
The conversion that brings a value to a type, as a fact about the module: the value itself, or one
instruction in the block that was being built.
-/

namespace CilSsa

open Ssa Metadata Lowering

namespace Lowering

/-- The instruction that converts values of one class to another, if one is needed and there is
one. -/
def conversion? (signed : Bool) : TypeClass → TypeClass → Option CastOp
  | .int a, .int b =>
      if a > b then some .trunc
      else if a < b then some (if signed && a > 1 then .sext else .zext)
      else none
  | source, target => coercion? signed source target

def Coerced (m : Module) (b : BlockId) (value : ValueId) (type : TypeId) (signed : Bool)
    (result : ValueId) : Prop :=
  ∃ own, m.typeOf value = .ok own ∧
    (own = type ∧ result = value ∨
      own ≠ type ∧ ∃ source target, m.classify own = .ok source ∧ m.classify type = .ok target ∧
        match conversion? signed source target with
        | none => result = value
        | some op =>
            m.values[result.index]? = some ⟨type, .inst (some b) (.cast op value)⟩ ∧
              ∃ block, m.blocks[b.index]? = some block ∧ result ∈ block.insts)

theorem Coerced.mono {m m' : Module} {b : BlockId} {value result : ValueId} {type : TypeId}
    {signed : Bool} (h : Coerced m b value type signed result)
    (hevolves : m.Evolves Change.Any m') : Coerced m' b value type signed result := by
  obtain ⟨own, hown, hresult⟩ := h
  refine ⟨own, hevolves.typeOf hown, ?_⟩
  rcases hresult with hsame | ⟨hne, source, target, hsource, htarget, hresult⟩
  · exact .inl hsame
  · refine .inr ⟨hne, source, target, hevolves.classify hsource, hevolves.classify htarget, ?_⟩
    cases hconversion : conversion? signed source target with
    | none => simpa only [hconversion] using hresult
    | some op =>
        simp only [hconversion] at hresult ⊢
        obtain ⟨hvalue, block, hblock, hmem⟩ := hresult
        obtain ⟨block', hblock', hgrows⟩ := hevolves.grows hblock
        exact ⟨hevolves.cast hvalue, block', hblock', hgrows.kept _ hmem⟩

end Lowering

namespace Ssa.Build

variable {m m' : Module} {v : ValueId}

/-- An instruction that was added is there, in the block that was being built. -/
theorem pushInst_spec {type : TypeId} {inst : Inst} {b : BlockId} {block : Block}
    (h : pushInst type inst m = .ok v m') (hposition : m.position = some b)
    (hblock : m.blocks[b.index]? = some block) :
    m'.values[v.index]? = some ⟨type, .inst (some b) inst⟩ ∧
      ∃ block', m'.blocks[b.index]? = some block' ∧ v ∈ block'.insts := by
  obtain ⟨m₁, hfirst, rfl, rfl, -⟩ := pushInst_cases h
  have hblock₁ : m₁.blocks[b.index]? = some block := by
    rcases hfirst with rfl | ⟨misuse, rfl, -⟩ <;> exact hblock
  constructor
  · simp [hposition, Module.apply, Module.pushValue]
  · exact ⟨block.append ⟨m₁.values.size⟩,
      by simp [hposition, Module.apply, Array.getElem?_modify, hblock₁], by simp [Block.append]⟩

theorem cast_spec {op : CastOp} {value : ValueId} {target : TypeId} {b : BlockId} {block : Block}
    (h : cast op value target m = .ok v m') (hposition : m.position = some b)
    (hblock : m.blocks[b.index]? = some block) :
    m'.values[v.index]? = some ⟨target, .inst (some b) (.cast op value)⟩ ∧
      ∃ block', m'.blocks[b.index]? = some block' ∧ v ∈ block'.insts := by
  obtain ⟨m₁, rfl | ⟨misuse, hrecord⟩, hpush⟩ := cast_eq_ok h
  · exact pushInst_spec hpush hposition hblock
  · obtain ⟨function, -, rfl⟩ := record_eq_ok_iff.mp hrecord
    exact pushInst_spec hpush hposition hblock

end Ssa.Build

namespace Lowering

variable {m m' : Module} {value v : ValueId} {type own : TypeId} {signed : Bool} {b : BlockId}
  {block : Block}

theorem coerce_same (signed : Bool) (hown : m.typeOf value = .ok type) :
    coerce value type signed m = .ok value m := by
  rw [coerce, Build.query_bind hown, if_pos rfl]
  rfl

/-- Any other value is converted by one instruction, if there is one for the classes. -/
theorem coerce_eq {source target : TypeClass} (hown : m.typeOf value = .ok own) (hne : own ≠ type)
    (hsource : m.classify own = .ok source) (htarget : m.classify type = .ok target) :
    coerce value type signed m = match conversion? signed source target with
      | some op => Build.cast op value type m
      | none => .ok value m := by
  rw [coerce, Build.query_bind hown, if_neg hne, Build.query_bind hsource, Build.query_bind htarget]
  by_cases hints : (source.isInt && target.isInt) = true
  · obtain ⟨a, b, rfl, rfl⟩ : ∃ a b, source = .int a ∧ target = .int b := by
      cases source <;> cases target <;> simp [TypeClass.isInt] at hints
      exact ⟨_, _, rfl, rfl⟩
    rw [if_pos hints, Build.intCast, Build.query_bind hown, if_neg hne, Build.query_bind hsource,
      Build.query_bind htarget]
    simp only [conversion?]
    split
    · rfl
    · split <;> rfl
  · have hop : conversion? signed source target = coercion? signed source target := by
      cases source <;> cases target <;> first | rfl | exact absurd rfl hints
    rw [if_neg hints, hop]
    cases coercion? signed source target <;> rfl

/-- The ways of a value that is brought to a type. -/
theorem coerce_eq_ok (h : coerce value type signed m = .ok v m') :
    ∃ own, m.typeOf value = .ok own ∧ (own = type ∧ v = value ∧ m' = m ∨
      own ≠ type ∧ ∃ source target, m.classify own = .ok source ∧ m.classify type = .ok target ∧
        ((∃ op, conversion? signed source target = some op ∧
          Build.cast op value type m = .ok v m') ∨
          conversion? signed source target = none ∧ v = value ∧ m' = m)) := by
  have hrun := h
  simp only [coerce, bind_eq_ok_iff, Build.query_eq_ok_iff] at h
  obtain ⟨own, _, ⟨hown, rfl⟩, h⟩ := h
  refine ⟨own, hown, ?_⟩
  by_cases hsame : own = type
  · rw [if_pos hsame] at h
    exact .inl ⟨hsame, pure_eq_ok_iff.mp h⟩
  · rw [if_neg hsame] at h
    simp only [bind_eq_ok_iff, Build.query_eq_ok_iff] at h
    obtain ⟨source, _, ⟨hsource, rfl⟩, target, _, ⟨htarget, rfl⟩, -⟩ := h
    refine .inr ⟨hsame, source, target, hsource, htarget, ?_⟩
    rw [coerce_eq hown hsame hsource htarget] at hrun
    cases hop : conversion? signed source target with
    | some op => exact .inl ⟨op, rfl, by simpa only [hop] using hrun⟩
    | none =>
        simp only [hop, EStateM.Result.ok.injEq] at hrun
        exact .inr ⟨rfl, hrun.1.symm, hrun.2.symm⟩

/-- The result of a conversion instruction is the value at the type. -/
theorem coerced_of_cast {source target : TypeClass} {op : CastOp}
    (h : Build.cast op value type m = .ok v m') (hown : m.typeOf value = .ok own)
    (hne : own ≠ type) (hsource : m.classify own = .ok source)
    (htarget : m.classify type = .ok target) (hop : conversion? signed source target = some op)
    (hposition : m.position = some b) (hblock : m.blocks[b.index]? = some block) :
    Coerced m' b value type signed v := by
  have hevolves : m.Evolves Change.Any m' :=
    (inferInstance : Keeps (Module.Evolves Change.Any) (Build.cast op value type)).run h
  refine ⟨own, hevolves.typeOf hown, .inr ⟨hne, source, target, hevolves.classify hsource,
    hevolves.classify htarget, ?_⟩⟩
  simp only [hop]
  exact Build.cast_spec h hposition hblock

/-- A value that no instruction converts is the value at the type. -/
theorem coerced_of_none {source target : TypeClass} (hown : m.typeOf value = .ok own)
    (hne : own ≠ type) (hsource : m.classify own = .ok source)
    (htarget : m.classify type = .ok target) (hop : conversion? signed source target = none) :
    Coerced m b value type signed value := by
  refine ⟨own, hown, .inr ⟨hne, source, target, hsource, htarget, ?_⟩⟩
  simp only [hop]

theorem coerce_spec (h : coerce value type signed m = .ok v m') (hposition : m.position = some b)
    (hblock : m.blocks[b.index]? = some block) : Coerced m' b value type signed v := by
  obtain ⟨own, hown, ⟨hsame, rfl, rfl⟩ | ⟨hne, source, target, hsource, htarget, hways⟩⟩ :=
    coerce_eq_ok h
  · exact ⟨own, hown, .inl ⟨hsame, rfl⟩⟩
  · rcases hways with ⟨op, hop, hcast⟩ | ⟨hop, rfl, rfl⟩
    · exact coerced_of_cast hcast hown hne hsource htarget hop hposition hblock
    · exact coerced_of_none hown hne hsource htarget hop

end Lowering

end CilSsa
