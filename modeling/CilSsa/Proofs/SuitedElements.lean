import CilSsa.Proofs.ElementTypes

/-!
Elements of the evaluation stack whose values suit their types.

The builder makes an element of a value and the type that it was brought to.  An operation on
integers may be given values of different types by mistake, but then it records misuse.
-/

namespace CilSsa

open Ssa Metadata Lowering

def Ssa.Module.Fitted (m : Module) (e : Element) : Prop := m.Suits e.value e.type

namespace Lowering

open Build Module

variable {asm : Assembly} {m m' M : Module} {f : FunctionId} {e lhs rhs l r : Element} {v : ValueId}

/-- What is loaded is widened to what it is on the stack. -/
theorem toStack_fitted {sig : TypeSig} (h : toStack asm v sig m = .ok e m')
    (hend : m'.Evolves Change.Any M) : M.Fitted e := by
  simp only [toStack, bind_eq_ok_iff, Build.ask, query_eq_ok_iff] at h
  obtain ⟨onStack, _, ⟨-, rfl⟩, type, _, ⟨htype, rfl⟩, cls, _, ⟨hcls, rfl⟩, h⟩ := h
  split at h
  · rename_i bits
    split at h
    · simp only [bind_eq_ok_iff, query_eq_ok_iff, pure_eq_ok_iff] at h
      obtain ⟨wide, m₁, hwide, signed, _, ⟨-, rfl⟩, value, m₂, hcast, rfl, rfl⟩ := h
      have hcasted :=
        ((inferInstance : Keeps (Evolves Change.Any) (intCast v wide signed)).run hcast).trans hend
      have hall :=
        ((inferInstance : Keeps (Evolves Change.Any) (intType 32)).run hwide).trans hcasted
      exact intCast_suits hcast hend (.of_typeOf (Evolves.typeOf hall htype))
        (Evolves.classify hall hcls) (intType_classify hwide hcasted)
    · obtain ⟨rfl, rfl⟩ := pure_eq_ok_iff.mp h
      exact .of_typeOf (hend.typeOf htype)
  · obtain ⟨rfl, rfl⟩ := pure_eq_ok_iff.mp h
    exact .of_typeOf (hend.typeOf htype)

theorem nativeElement_fitted (h : nativeElement asm lhs m = .ok e m')
    (hend : m'.Evolves Change.Any M) : M.Fitted e := by
  obtain ⟨-, signed, m₁, hcoerce, -⟩ := nativeElement_cases h hend
  exact coerce_suits hcoerce hend

/-- The result of an operation takes the place of its first operand. -/
theorem binary_suits {op : BinaryOp} {left right : ValueId} {type : TypeId}
    (h : Build.binary op left right m = .ok v m') (hend : m'.Evolves Change.Any M)
    (hleft : M.Suits left type) : M.Suits v type := by
  have hall := ((inferInstance : Keeps (Evolves Change.Any)
    (Build.binary op left right)).run h).trans hend
  obtain ⟨own, hown, hv⟩ := binary_typeOf h
  obtain ⟨own', hown', hsuits⟩ := hleft
  obtain rfl := Except.ok.inj ((Evolves.typeOf hall hown).symm.trans hown')
  exact ⟨own, hend.typeOf hv, hsuits⟩

namespace Emit

theorem floatBinary_fitted {op : BinaryOp} (h : floatBinary asm op lhs rhs m = .ok e m')
    (hend : m'.Evolves Change.Any M) : M.Fitted e := by
  simp only [floatBinary, bind_eq_ok_iff, Build.ask, query_eq_ok_iff, pure_eq_ok_iff] at h
  obtain ⟨type, m₁, -, lhsSigned, _, ⟨-, rfl⟩, left, m₂, hleft, rhsSigned, _, ⟨-, rfl⟩, right, m₃,
    hright, value, m₄, hbinary, rfl, rfl⟩ := h
  have hsecond := (inferInstance : Keeps (Evolves Change.Any)
    (coerce rhs.value type rhsSigned)).run hright
  have hthird :=
    (inferInstance : Keeps (Evolves Change.Any) (Build.binary op left right)).run hbinary
  exact binary_suits hbinary hend (coerce_suits hleft (hsecond.trans (hthird.trans hend)))

theorem shift_fitted {op : BinaryOp} (h : shift op lhs rhs m = .ok e m')
    (hend : m'.Evolves Change.Any M) (hlhs : M.Fitted lhs) : M.Fitted e := by
  simp only [shift, bind_eq_ok_iff, pure_eq_ok_iff] at h
  obtain ⟨distance, m₁, -, value, m₂, hbinary, rfl, rfl⟩ := h
  exact binary_suits hbinary hend hlhs

/-- An operation on integers and pointers.  Integers that are not brought to
one width are misuse. -/
theorem intBinary_fitted {op : BinaryOp} (h : intBinary asm op lhs rhs m = .ok e m')
    (hhere : m.Here f) (hend : m'.Evolves Change.Any M) (hclean : M.Blameless f)
    (hlhs : M.Fitted lhs) (hrhs : M.Fitted rhs) : M.Fitted e := by
  simp only [intBinary, bind_eq_ok_iff] at h
  obtain ⟨⟨l, r, left, right⟩, m₁, halign, h⟩ := h
  split at h
  · rename_i hpointers
    simp only [bind_eq_ok_iff] at h
    obtain ⟨value, m₂, hbinary, h⟩ := h
    split at h
    · obtain ⟨rfl, rfl⟩ := pure_eq_ok_iff.mp h
      have hlast := (inferInstance : Keeps (Evolves Change.Any)
        (Build.binary op l.value r.value)).run hbinary
      rcases alignPointers_cases halign with ⟨-, -, hnone, -⟩ | ⟨-, m₀, hl, hr⟩
      · exact absurd hpointers (by simp [hnone])
      · have hr' := (inferInstance : Keeps (Evolves Change.Any) (nativeElement asm rhs)).run hr
        exact binary_suits hbinary hend (nativeElement_fitted hl (hr'.trans (hlast.trans hend)))
    · simp only [bind_eq_ok_iff, pure_eq_ok_iff] at h
      obtain ⟨pointer, m₃, hcast, rfl, rfl⟩ := h
      exact .of_typeOf (hend.typeOf (cast_typeOf hcast))
  · rename_i hnumbers
    simp only [bind_eq_ok_iff, pure_eq_ok_iff] at h
    obtain ⟨⟨l', r'⟩, m₂, hwidths, value, m₃, hbinary, rfl, rfl⟩ := h
    have hthird := (inferInstance : Keeps (Evolves Change.Any)
      (Build.binary op l'.value r'.value)).run hbinary
    rcases alignPointers_cases halign with ⟨rfl, rfl, -, rfl⟩ | ⟨hsome, -⟩
    · refine binary_suits hbinary hend ?_
      rcases alignWidths_cases hwidths with rfl | ⟨rfl, -, htype⟩
      · exact hlhs
      · have hresting :=
          (inferInstance : Keeps (Evolves Change.Resting) (alignWidths asm l r')).run hwidths
        have hhere' := hhere.evolves hresting fun _ hc => hc.2
        obtain ⟨own, hown, hown'⟩ := binary_operands hbinary hhere' hend hclean
        obtain ⟨own', hsame, hsuits⟩ := hrhs
        have hall := hthird.trans hend
        obtain rfl := Except.ok.inj ((Evolves.typeOf hall hown').symm.trans hsame)
        exact ⟨own, Evolves.typeOf hall hown, htype ▸ hsuits⟩
    · exact absurd hsome hnumbers

theorem convertToFloat_fitted {target : TypeSig} {signed : Bool}
    (h : convertToFloat v target signed m = .ok e m') (hend : m'.Evolves Change.Any M) :
    M.Fitted e := by
  simp only [convertToFloat, bind_eq_ok_iff, pure_eq_ok_iff] at h
  obtain ⟨type, m₁, -, value, m₂, hcoerce, rfl, rfl⟩ := h
  exact coerce_suits hcoerce hend

/-- A narrow result is widened from the type that the value was brought to. -/
theorem convertToInt_fitted {target : TypeSig} {signed : Bool}
    (h : convertToInt asm v target signed m = .ok e m') (hend : m'.Evolves Change.Any M) :
    M.Fitted e := by
  simp only [convertToInt, bind_eq_ok_iff] at h
  obtain ⟨type, m₁, htype, value, m₂, hcoerce, h⟩ := h
  split at h
  · simp only [bind_eq_ok_iff, Build.ask, query_eq_ok_iff, pure_eq_ok_iff] at h
    obtain ⟨wide, m₃, hwide, widened, m₄, hcast, sig, _, ⟨-, rfl⟩, rfl, rfl⟩ := h
    have hfirst := (inferInstance : Keeps (Evolves Change.Any) (coerce v type signed)).run hcoerce
    have hsecond := (inferInstance : Keeps (Evolves Change.Any) (intType 32)).run hwide
    have hthird := (inferInstance : Keeps (Evolves Change.Any)
      (Build.intCast value wide (!target.isUnsigned))).run hcast
    have hwidened := hthird.trans hend
    have hcoerced := hsecond.trans hwidened
    exact intCast_suits hcast hend (coerce_suits hcoerce hcoerced)
      (intType_classify htype (hfirst.trans hcoerced)) (intType_classify hwide hwidened)
  · simp only [bind_eq_ok_iff, Build.ask, query_eq_ok_iff, pure_eq_ok_iff] at h
    obtain ⟨sig, _, ⟨-, rfl⟩, rfl, rfl⟩ := h
    exact coerce_suits hcoerce hend

theorem convertElement_fitted {target : TypeSig} {unsignedSource : Bool}
    (h : convertElement asm target unsignedSource lhs m = .ok e m')
    (hend : m'.Evolves Change.Any M) : M.Fitted e := by
  obtain ⟨value, signed, t, -, ⟨-, h⟩ | ⟨-, h⟩⟩ := convertElement_cases h
  · exact convertToFloat_fitted h hend
  · exact convertToInt_fitted h hend

end Emit

end Lowering

end CilSsa
