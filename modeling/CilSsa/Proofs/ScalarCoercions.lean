import CilSsa.Proofs.Joins

/-!
Coercions of integers, floating-point numbers and pointers.

A pair of classes has a conversion that fits, unless both are one and the same type of
numbers: as every type is there once, types of numbers with one width are equal.  So a
coercion makes a value of the type that is asked for, with one instruction or none, and
nothing is wrong with that instruction.
-/

namespace CilSsa

open Ssa Metadata Lowering

namespace Lowering

variable {m : Module} {value : ValueId} {own type : TypeId} {source target : TypeClass}

/-- There is no conversion between classes that do not blend. -/
theorem conversion?_eq_none (signed : Bool) (h : source.blends target = false) :
    conversion? signed source target = none := by
  cases source <;> cases target <;> first | rfl | cases h

/-- A value that cannot be converted stays as it is. -/
theorem coerce_apart (signed : Bool) (hown : m.typeOf value = .ok own)
    (hsource : m.classify own = .ok source) (htarget : m.classify type = .ok target)
    (happart : source.blends target = false) : coerce value type signed m = .ok value m := by
  by_cases hsame : own = type
  · exact coerce_same signed (hsame ▸ hown)
  · rw [coerce_eq hown hsame hsource htarget, conversion?_eq_none signed happart]

theorem typeOf_addInst {b : BlockId} {inst : Inst} :
    (m.apply (.addInst (some b) type inst)).typeOf ⟨m.values.size⟩ = .ok type :=
  Module.typeOf_eq_ok_iff.mpr ⟨.inst (some b) inst, by simp [Module.apply, Module.pushValue]⟩

/-- In an open block a value of a scalar is brought to the type of another one by at most one
instruction, which is no misuse; integers and pointers blend, and integers and floating-point
numbers. Any other value, and one that has the type, stays as it is. -/
theorem coerce_scalar (hm : m.Reached) (hown : m.typeOf value = .ok own) (signed : Bool) :
    (own = type → coerce value type signed m = .ok value m) ∧
    ∀ source target, m.classify own = .ok source → m.classify type = .ok target →
      (source.blends target = false → coerce value type signed m = .ok value m) ∧
      (source.blends target = true → ∀ b, m.position = some b → m.OpenAt b →
        ∃ result m', coerce value type signed m = .ok result m' ∧ m'.typeOf result = .ok type ∧
          m'.misuses = m.misuses ∧ (result = value ∧ m' = m ∨
            ∃ op, result = ⟨m.values.size⟩ ∧
              m' = m.apply (.addInst (some b) type (.cast op value)))) := by
  refine ⟨fun hsame => coerce_same signed (hsame ▸ hown), fun source target hsource htarget => ?_⟩
  refine ⟨coerce_apart signed hown hsource htarget, fun hblends b hposition hopen => ?_⟩
  have hpair : m.Blends own type := .inr ⟨source, target, hsource, htarget, hblends⟩
  rcases coerce_blends signed hown hpair hm.interned hposition hopen with ⟨rfl, hrun⟩ | ⟨op, hrun⟩
  · exact ⟨value, m, hrun, hown, rfl, .inl ⟨rfl, rfl⟩⟩
  · exact ⟨_, _, hrun, typeOf_addInst, rfl, .inr ⟨op, rfl, rfl⟩⟩

section Example

/-- An integer, in a function whose only block is open. -/
def openingRequests : List Command :=
  [.voidType, .functionType ⟨0⟩ [], .addFunction "opening" ⟨1⟩ .internal, .appendBlock ⟨0⟩ "entry",
    .positionAtEnd ⟨0⟩, .intType 32, .floatType 64, .constInt ⟨3⟩ 7]

def opening : Module := stateOf (Command.runAll openingRequests { name := "opening" })

theorem opening_coerces : opening.Reached ∧ opening.typeOf ⟨1⟩ = .ok ⟨3⟩ ∧
    opening.position = some ⟨0⟩ ∧ opening.OpenAt ⟨0⟩ ∧
    coerce ⟨1⟩ ⟨3⟩ true opening = .ok ⟨1⟩ opening ∧
    ∃ result m', coerce ⟨1⟩ ⟨4⟩ true opening = .ok result m' ∧ m'.typeOf result = .ok ⟨4⟩ ∧
      m'.misuses = #[] := by
  have hreached : opening.Reached := ⟨"opening", openingRequests, eq_ok_stateOf (by decide +kernel)⟩
  have hown : opening.typeOf ⟨1⟩ = .ok ⟨3⟩ := by decide +kernel
  have hposition : opening.position = some ⟨0⟩ := by decide +kernel
  have hopen : opening.OpenAt ⟨0⟩ :=
    ⟨{ name := "entry", function := ⟨0⟩ }, by decide +kernel, rfl⟩
  have hsource : opening.classify ⟨3⟩ = .ok (.int 32) := by decide +kernel
  have htarget : opening.classify ⟨4⟩ = .ok (.float 64) := by decide +kernel
  have hclean : opening.misuses = #[] := by decide +kernel
  obtain ⟨-, hpairs⟩ := @coerce_scalar opening ⟨1⟩ ⟨3⟩ ⟨4⟩ hreached hown true
  obtain ⟨result, m', hrun, htyped, hmisuses, -⟩ :=
    (hpairs (.int 32) (.float 64) hsource htarget).2 rfl ⟨0⟩ hposition hopen
  exact ⟨hreached, hown, hposition, hopen, (coerce_scalar hreached hown true).1 rfl,
    result, m', hrun, htyped, hmisuses.trans hclean⟩

end Example

end Lowering

end CilSsa
