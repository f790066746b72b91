import CilSsa.Proofs.ElementTypes
import CilSsa.Proofs.SoundBodies

/-!
Elements of the stack tell the types of their values.

The type of an element is set by hand wherever one is made, and so is its signature.  They are right
in a function that has recorded no misuse: a value that could not be brought to the type it is given
would have been misused in the operation.  Only a conversion gives a value that is neither a number
nor a pointer a type that it does not have.
-/

namespace CilSsa

open Ssa Metadata Lowering

namespace Ssa.Module

/-- The element tells the type of its value, and if its signature is that of a number with a
fraction, the type is the one of the signature. -/
structure Truthful (m : Module) (e : Element) : Prop where
  typed : m.typeOf e.value = .ok e.type
  single : e.sig = .r4 → m.classify e.type = .ok (.float 32)
  double : e.sig = .r8 → m.classify e.type = .ok (.float 64)

/-- The value is a number or a pointer. -/
def IsScalar (m : Module) (value : ValueId) : Prop :=
  ∃ cls, m.classOf value = .ok cls ∧ (cls.isInt || cls.isFloat || cls.isPointer) = true

end Ssa.Module

section Misuse

namespace Ssa.Build

open Ssa.Module

variable {m m' M : Module} {f : FunctionId} {v lhs rhs : ValueId}

/-- The operands of an operation are numbers of its kind. -/
theorem binary_classOf {op : BinaryOp} (h : binary op lhs rhs m = .ok v m') (hhere : m.Here f)
    (hend : m'.Evolves Change.Any M) (hclean : M.Blameless f) :
    ∃ cls, m.classOf lhs = .ok cls ∧ (cls.isInt || cls.isFloat) = true ∧
      op.isFloat = cls.isFloat := by
  simp only [binary, bind_eq_ok_iff, query_eq_ok_iff] at h
  obtain ⟨own, t, ⟨hown, ht⟩, cls, t', ⟨hcls, ht'⟩, other, t'', ⟨-, ht''⟩, h⟩ := h
  subst t'' t' t
  have hnone {misuse : Misuse} {m₁ : Module} (hrecord : record misuse m = .ok () m₁)
      (hpush : pushInst own (.binary op lhs rhs) m₁ = .ok v m')
      (hname : ∀ name, misuse ≠ .functionTwice name) : False := by
    have hkeeps : Keeps (Module.Evolves Change.Any) (pushInst own (.binary op lhs rhs)) :=
      compute_keeps rfl rfl
    exact not_record hrecord hhere ((hkeeps.run hpush).trans hend) hclean hname
  split at h
  · obtain ⟨_, m₁, hrecord, hpush⟩ := bind_eq_ok_iff.mp h
    exact (hnone hrecord hpush (by simp)).elim
  · split at h
    · obtain ⟨_, m₁, hrecord, hpush⟩ := bind_eq_ok_iff.mp h
      exact (hnone hrecord hpush (by simp)).elim
    · rename_i hfits
      refine ⟨cls, classOf_eq_ok_iff.mpr ⟨own, hown, hcls⟩, ?_⟩
      simp only [ne_eq, Bool.or_eq_true, decide_eq_true_eq, not_or, Bool.not_eq_true',
        Bool.not_eq_false, Decidable.not_not] at hfits
      exact ⟨Bool.or_eq_true_iff.mpr hfits.2, hfits.1⟩

end Ssa.Build

end Misuse

namespace Lowering

open Build Module

section Conversions

variable {m m' M : Module} {v value : ValueId} {type own : TypeId} {bits : Nat} {signed : Bool}
  {cls : TypeClass}

/-- A number that is brought to a floating-point type has it. -/
theorem typeOf_of_suits_float (h : M.Suits v type) (htype : M.classify type = .ok (.float bits))
    (hvalue : M.classOf v = .ok cls) (hcls : (cls.isInt || cls.isFloat) = true) :
    M.typeOf v = .ok type := by
  obtain ⟨own, hown, rfl | ⟨source, target, hsource, htarget, hnone⟩⟩ := h
  · exact hown
  · obtain ⟨own', hown', hclass⟩ := classOf_eq_ok_iff.mp hvalue
    obtain rfl := Except.ok.inj (hown.symm.trans hown')
    obtain rfl := Except.ok.inj (hsource.symm.trans hclass)
    obtain rfl := Except.ok.inj (htarget.symm.trans htype)
    have hnone := hnone true
    cases source <;> simp [TypeClass.isInt, TypeClass.isFloat] at hcls
    · simp [conversion?, coercion?] at hnone
    · simp [conversion?, coercion?] at hnone

/-- A number or pointer that is brought to an integer type has it. -/
theorem typeOf_of_suits_int (h : M.Suits v type) (hproper : M.Proper type)
    (htype : M.classify type = .ok (.int bits)) (hown : M.typeOf v = .ok own)
    (hproper' : M.Proper own) (hvalue : M.IsScalar v) : M.typeOf v = .ok type := by
  obtain ⟨own', hown', rfl | ⟨source, target, hsource, htarget, hnone⟩⟩ := h
  · exact hown'
  · obtain rfl := Except.ok.inj (hown.symm.trans hown')
    obtain ⟨cls, hvalue, hcls⟩ := hvalue
    obtain ⟨own', hown', hclass⟩ := classOf_eq_ok_iff.mp hvalue
    obtain rfl := Except.ok.inj (hown.symm.trans hown')
    obtain rfl := Except.ok.inj (hsource.symm.trans hclass)
    obtain rfl := Except.ok.inj (htarget.symm.trans htype)
    cases source with
    | int bits' =>
        obtain rfl := conversion?_int_eq_none_iff.mp (hnone true)
        exact hproper.unique hproper' htype hsource ▸ hown
    | float _ | pointer => simpa [conversion?, coercion?] using hnone true
    | _ => simp [TypeClass.isInt, TypeClass.isFloat, TypeClass.isPointer] at hcls

theorem coerce_typeOf (h : coerce value type signed m = .ok v m') (hend : m'.Evolves Change.Any M) :
    M.typeOf v = .ok type ∨ v = value := by
  obtain ⟨own, -, ⟨-, hsame, -⟩ | ⟨-, source, target, -, -, hways⟩⟩ := coerce_eq_ok h
  · exact .inr hsame
  · rcases hways with ⟨op, -, hcast⟩ | ⟨-, hsame, -⟩
    · exact .inl (hend.typeOf (cast_typeOf hcast))
    · exact .inr hsame

/-- A number becomes one with a fraction. -/
theorem coerce_float (h : coerce value type signed m = .ok v m') (hend : m'.Evolves Change.Any M)
    (htype : M.classify type = .ok (.float bits)) (hvalue : M.classOf value = .ok cls)
    (hcls : (cls.isInt || cls.isFloat) = true) : M.typeOf v = .ok type := by
  rcases coerce_typeOf h hend with htyped | rfl
  · exact htyped
  · exact typeOf_of_suits_float (coerce_suits h hend) htype hvalue hcls

/-- A number or pointer of a proper type becomes an integer. -/
theorem coerce_int (h : coerce value type signed m = .ok v m') (hend : m'.Evolves Change.Any M)
    (hproper : M.Proper type) (htype : M.classify type = .ok (.int bits))
    (hown : M.typeOf value = .ok own) (hproper' : M.Proper own) (hvalue : M.IsScalar value) :
    M.typeOf v = .ok type := by
  rcases coerce_typeOf h hend with htyped | rfl
  · exact htyped
  · exact typeOf_of_suits_int (coerce_suits h hend) hproper htype hown hproper' hvalue

end Conversions

section Computations

variable {asm : Assembly} {m m' M : Module} {f : FunctionId} {e lhs rhs l r : Element} {v : ValueId}

/-- The element has its type, which is one that values on the stack may have. -/
structure Told (M : Module) (e : Element) : Prop extends M.Truthful e where
  proper : M.Proper e.type

theorem Told.of_apt (htyped : M.typeOf e.value = .ok e.type) (hapt : M.Apt e.sig e.type) :
    Told M e :=
  ⟨⟨htyped, hapt.single, hapt.double⟩, hapt.proper⟩

/-- What is known of an element is known of any other with its signature and type. -/
theorem Told.of_same (he : Told M e) {e' : Element} (htyped : M.typeOf e'.value = .ok e'.type)
    (hsig : e'.sig = e.sig) (htype : e'.type = e.type) : Told M e' where
  typed := htyped
  single h := htype ▸ he.single (hsig ▸ h)
  double h := htype ▸ he.double (hsig ▸ h)
  proper := htype ▸ he.proper

theorem Told.classOf {cls : TypeClass} (he : Told M e) (h : M.classOf e.value = .ok cls) :
    M.classify e.type = .ok cls := by
  obtain ⟨own, hown, hcls⟩ := classOf_eq_ok_iff.mp h
  rwa [Except.ok.inj (he.typed.symm.trans hown)]

namespace Emit

theorem floatBinary_told {op : BinaryOp} (h : floatBinary asm op lhs rhs m = .ok e m')
    (hhere : m.Here f) (hend : m'.Evolves Change.Any M) (hclean : M.Blameless f) : Told M e := by
  refine .of_apt ?_ (floatBinary_apt h hend)
  simp only [floatBinary, bind_eq_ok_iff, Build.ask, query_eq_ok_iff, pure_eq_ok_iff] at h
  obtain ⟨type, m₁, htype, lhsSigned, t, ⟨-, ht⟩, left, m₂, hleft, rhsSigned,
    t', ⟨-, ht'⟩, right, m₃, hright, value, m₄, hbinary, rfl, rfl⟩ := h
  subst t' t
  have hfirst := (inferInstance : Keeps (Evolves Change.Resting) (floatType _)).run htype
  have hsecond := (inferInstance : Keeps (Evolves Change.Resting)
    (coerce lhs.value type lhsSigned)).run hleft
  have hthird := (inferInstance : Keeps (Evolves Change.Resting)
    (coerce rhs.value type rhsSigned)).run hright
  have hhere' := hhere.evolves (hfirst.trans (hsecond.trans hthird)) fun _ hc => hc.2
  have hlast : m₃.Evolves Change.Any M := ((inferInstance : Keeps (Evolves Change.Any)
    (Build.binary op left right)).run hbinary).trans hend
  have hcoerced : m₂.Evolves Change.Any M := (hthird.mono fun _ _ => trivial).trans hlast
  have hall : m₁.Evolves Change.Any M := (hsecond.mono fun _ _ => trivial).trans hcoerced
  obtain ⟨cls, hcls, hnumber, -⟩ := binary_classOf hbinary hhere' hend hclean
  have htype := hall.classify (intern_proper htype).1
  have hleft := typeOf_of_suits_float (coerce_suits hleft hcoerced) htype
    (hlast.classOf hcls) hnumber
  obtain ⟨own, hown, hv⟩ := binary_typeOf hbinary
  obtain rfl := Except.ok.inj ((hlast.typeOf hown).symm.trans hleft)
  exact hend.typeOf hv

theorem shift_told {op : BinaryOp} (h : shift op lhs rhs m = .ok e m')
    (hend : m'.Evolves Change.Any M) (hlhs : Told M lhs) : Told M e := by
  obtain ⟨hsig, htype⟩ := shift_same h
  refine hlhs.of_same ?_ hsig htype
  simp only [shift, bind_eq_ok_iff, pure_eq_ok_iff] at h
  obtain ⟨distance, m₁, -, value, m₂, hbinary, rfl, rfl⟩ := h
  have hall : m₁.Evolves Change.Any M := ((inferInstance : Keeps (Evolves Change.Any)
    (Build.binary op lhs.value distance)).run hbinary).trans hend
  obtain ⟨own, hown, hv⟩ := binary_typeOf hbinary
  obtain rfl := Except.ok.inj ((hall.typeOf hown).symm.trans hlhs.typed)
  exact hend.typeOf hv

/-- A pointer as a native integer has the type of native integers, if it is an operand. -/
theorem nativeElement_typeOf {op : BinaryOp} {right : ValueId}
    (h : nativeElement asm lhs m = .ok l m') (hend : m'.Evolves Change.Any M) (hlhs : Told M lhs)
    {t t' : Module} (hbinary : Build.binary op l.value right t = .ok v t') (hhere : t.Here f)
    (hlater : t'.Evolves Change.Any M) (hclean : M.Blameless f) :
    M.typeOf l.value = .ok l.type ∧ M.Proper l.type := by
  obtain ⟨-, signed, m₁, hcoerce, hclass, hproper⟩ := nativeElement_cases h hend
  refine ⟨?_, hproper⟩
  rcases coerce_typeOf hcoerce hend with htyped | hsame
  · exact htyped
  · have hthen : t.Evolves Change.Any M := ((inferInstance : Keeps (Evolves Change.Any)
      (Build.binary op l.value right)).run hbinary).trans hlater
    obtain ⟨cls, hcls, hnumber, hop⟩ := binary_classOf hbinary hhere hlater hclean
    have hscalar : M.IsScalar lhs.value :=
      ⟨cls, hsame ▸ hthen.classOf hcls, Bool.or_eq_true_iff.mpr (.inl hnumber)⟩
    exact coerce_int hcoerce hend hproper hclass hlhs.typed hlhs.proper hscalar

/-- An operation on integers and pointers, whose operands have one type in the end. -/
theorem intBinary_told {op : BinaryOp} (h : intBinary asm op lhs rhs m = .ok e m')
    (hhere : m.Here f) (hend : m'.Evolves Change.Any M) (hclean : M.Blameless f) (hlhs : Told M lhs)
    (hrhs : Told M rhs) :
    Told M e := by
  simp only [intBinary, bind_eq_ok_iff] at h
  obtain ⟨⟨l, r, left, right⟩, m₁, halign, h⟩ := h
  have hfirst :=
    (inferInstance : Keeps (Evolves Change.Resting) (alignPointers asm lhs rhs)).run halign
  have hhere₁ := hhere.evolves hfirst fun _ hc => hc.2
  split at h
  · simp only [bind_eq_ok_iff] at h
    obtain ⟨value, m₂, hbinary, h⟩ := h
    have hlast := (inferInstance : Keeps (Evolves Change.Any)
      (Build.binary op l.value r.value)).run hbinary
    split at h
    · rename_i hdistance
      obtain ⟨rfl, rfl⟩ := pure_eq_ok_iff.mp h
      have hthen : m₁.Evolves Change.Any M := hlast.trans hend
      simp only [Bool.and_eq_true, decide_eq_true_eq] at hdistance
      rcases alignPointers_cases halign with ⟨-, -, hnone, -⟩ | ⟨-, m₀, hl, hr⟩
      · simp [hdistance] at hnone
      have hr' := (inferInstance : Keeps (Evolves Change.Any) (nativeElement asm rhs)).run hr
      obtain ⟨htyped, hproper⟩ :=
        nativeElement_typeOf hl (hr'.trans hthen) hlhs hbinary hhere₁ hend hclean
      obtain ⟨own, hown, hv⟩ := binary_typeOf hbinary
      obtain rfl := Except.ok.inj ((hthen.typeOf hown).symm.trans htyped)
      exact ⟨⟨hend.typeOf hv, nofun, nofun⟩, hproper⟩
    · simp only [bind_eq_ok_iff, pure_eq_ok_iff] at h
      obtain ⟨pointer, m₃, hcast, rfl, rfl⟩ := h
      cases left
      · exact hrhs.of_same (hend.typeOf (cast_typeOf hcast)) rfl rfl
      · exact hlhs.of_same (hend.typeOf (cast_typeOf hcast)) rfl rfl
  · rename_i hnumbers
    simp only [bind_eq_ok_iff, pure_eq_ok_iff] at h
    obtain ⟨⟨l', r'⟩, m₂, hwidths, value, m₃, hbinary, rfl, rfl⟩ := h
    have hsecond :=
      (inferInstance : Keeps (Evolves Change.Resting) (alignWidths asm l r)).run hwidths
    have hhere₂ := hhere₁.evolves hsecond fun _ hc => hc.2
    have hthen : m₂.Evolves Change.Any M := ((inferInstance : Keeps (Evolves Change.Any)
      (Build.binary op l'.value r'.value)).run hbinary).trans hend
    rcases alignPointers_cases halign with ⟨rfl, rfl, -, -⟩ | ⟨hsome, -⟩
    · rcases alignWidths_cases hwidths with rfl | ⟨rfl, hsig, htype⟩
      · obtain ⟨own, hown, hv⟩ := binary_typeOf hbinary
        obtain rfl := Except.ok.inj ((hthen.typeOf hown).symm.trans hlhs.typed)
        exact hlhs.of_same (hend.typeOf hv) rfl rfl
      · obtain ⟨own, hown, hown'⟩ := binary_operands hbinary hhere₂ hend hclean
        obtain ⟨own', hsame, hv⟩ := binary_typeOf hbinary
        obtain rfl := Except.ok.inj (hown.symm.trans hsame)
        obtain rfl := Except.ok.inj ((hthen.typeOf hown').symm.trans hrhs.typed)
        exact hrhs.of_same (htype ▸ hend.typeOf hv) hsig htype
    · exact absurd hsome hnumbers

/-- A number becomes one with a fraction, of the type that the element has. -/
theorem convertToFloat_typeOf {value : ValueId} {target : TypeSig} {signed : Bool} {cls : TypeClass}
    (h : convertToFloat value target signed m = .ok e m') (hend : m'.Evolves Change.Any M)
    (hvalue : M.classOf value = .ok cls) (hnumber : (cls.isInt || cls.isFloat) = true) :
    M.typeOf e.value = .ok e.type := by
  simp only [convertToFloat, bind_eq_ok_iff, pure_eq_ok_iff] at h
  obtain ⟨type, m₁, htype, v, m₂, hcoerce, rfl, rfl⟩ := h
  have hcoerced : m₁.Evolves Change.Any M := ((inferInstance : Keeps (Evolves Change.Any)
    (coerce value type signed)).run hcoerce).trans hend
  exact coerce_float hcoerce hend (hcoerced.classify (intern_proper htype).1) hvalue hnumber

/-- A number becomes an integer, of the type that the element has. -/
theorem convertToInt_typeOf {value : ValueId} {target : TypeSig} {signed : Bool} {own : TypeId}
    (h : convertToInt asm value target signed m = .ok e m') (hend : m'.Evolves Change.Any M)
    (hown : M.typeOf value = .ok own) (hproper : M.Proper own) (hscalar : M.IsScalar value) :
    M.typeOf e.value = .ok e.type := by
  simp only [convertToInt, bind_eq_ok_iff] at h
  obtain ⟨type, m₁, htype, v, m₂, hcoerce, h⟩ := h
  have hfirst : m₁.Evolves Change.Any m₂ :=
    (inferInstance : Keeps (Evolves Change.Any) (coerce value type signed)).run hcoerce
  obtain ⟨hint, hproper'⟩ := intern_proper htype
  have hcoerced (hthen : m₂.Evolves Change.Any M) :
      M.classify type = .ok (.int (targetBits target)) ∧ M.typeOf v = .ok type := by
    have hall : m₁.Evolves Change.Any M := hfirst.trans hthen
    have hclass := hall.classify hint
    exact ⟨hclass, coerce_int hcoerce hthen (hproper'.evolves hall) hclass hown hproper hscalar⟩
  split at h
  · rename_i hbits
    simp only [bind_eq_ok_iff, Build.ask, query_eq_ok_iff, pure_eq_ok_iff] at h
    obtain ⟨wide, m₃, hwide, widened, m₄, hcast, sig, _, ⟨-, rfl⟩, rfl, rfl⟩ := h
    have hthird : m₃.Evolves Change.Any M := ((inferInstance : Keeps (Evolves Change.Any)
      (Build.intCast v wide (!target.isUnsigned))).run hcast).trans hend
    have hthen : m₂.Evolves Change.Any M :=
      ((inferInstance : Keeps (Evolves Change.Any) (intType 32)).run hwide).trans hthird
    obtain ⟨hclass, htyped⟩ := hcoerced hthen
    exact intCast_typeOf hcast hend (classOf_eq_ok_iff.mpr ⟨type, htyped, hclass⟩)
      (hthird.classify (intern_proper hwide).1) (Nat.ne_of_lt hbits)
  · simp only [bind_eq_ok_iff, Build.ask, query_eq_ok_iff, pure_eq_ok_iff] at h
    obtain ⟨sig, _, ⟨-, rfl⟩, rfl, rfl⟩ := h
    exact (hcoerced hend).2

/-- A conversion of a number or pointer. -/
theorem convertElement_told {target : TypeSig} {unsignedSource : Bool}
    (htarget : ∀ id, target ≠ .named id)
    (h : convertElement asm target unsignedSource lhs m = .ok e m') (hend : m'.Evolves Change.Any M)
    (hlhs : Told M lhs) (hscalar : M.IsScalar lhs.value) : Told M e := by
  refine .of_apt ?_ (convertElement_apt htarget h hend)
  obtain ⟨value, signed, t, hvalue, hways⟩ := convertElement_cases h
  have hlast : t.Evolves Change.Any M := by
    rcases hways with ⟨-, h⟩ | ⟨-, h⟩
    · exact ((inferInstance : Keeps (Evolves Change.Any) (convertToFloat value target signed)).run
        h).trans
        hend
    · exact ((inferInstance : Keeps (Evolves Change.Any)
        (convertToInt asm value target signed)).run h).trans hend
  obtain ⟨own, cls, hown, hproper, hclass, hnumber⟩ : ∃ own cls, M.typeOf value = .ok own ∧
      M.Proper own ∧ M.classify own = .ok cls ∧ (cls.isInt || cls.isFloat) = true := by
    rcases hvalue with ⟨cls, hcls, hpointer, rfl, rfl⟩ | ⟨native, m₁, hnative, hcast⟩
    · obtain ⟨cls', hcls', hscalar⟩ := hscalar
      have hclass := hlast.classify hcls
      obtain rfl := Except.ok.inj (hclass.symm.trans (hlhs.classOf hcls'))
      exact ⟨lhs.type, cls, hlhs.typed, hlhs.proper, hclass, by simpa [hpointer] using hscalar⟩
    · have hcasted : m₁.Evolves Change.Any M := ((inferInstance : Keeps (Evolves Change.Any)
        (Build.cast .ptrtoint lhs.value native)).run hcast).trans hlast
      obtain ⟨hclass, hproper⟩ := intern_proper hnative
      exact ⟨native, _, hlast.typeOf (cast_typeOf hcast), hproper.evolves hcasted,
        hcasted.classify hclass, rfl⟩
  have hvalue : M.classOf value = .ok cls := classOf_eq_ok_iff.mpr ⟨own, hown, hclass⟩
  rcases hways with ⟨-, h⟩ | ⟨-, h⟩
  · exact convertToFloat_typeOf h hend hvalue hnumber
  · exact convertToInt_typeOf h hend hown hproper
      ⟨cls, hvalue, Bool.or_eq_true_iff.mpr (.inl hnumber)⟩

end Emit

end Computations

section Signatures

variable {asm : Assembly} {s s' : Session} {sig sig' : TypeSig} {type : TypeId} {cls : TypeClass}

/-- No root of the hierarchy is an enum of a number with a fraction. -/
def RootsPlain (asm : Assembly) : Prop :=
  ∀ id, Assembly.isRoot id = true → ∀ sig, stackSig asm (.named id) = .ok sig → sig.isFloat = false

/-- The signature on the stack is that of a number with a fraction if the one in storage
is, or that of the enum. -/
theorem underlying_of_stackSig (h : stackSig asm sig = .ok sig') (hfloat : sig'.isFloat = true) :
    underlying asm sig = .ok sig' := by
  simp only [stackSig, exceptBind_eq_ok_iff] at h
  obtain ⟨stored, hstored, h⟩ := h
  split at h
  all_goals
    obtain rfl := exceptPure_eq_ok_iff.mp h
    first | exact hstored | cases hfloat

/-- The type of a signature is the one of the number that is on the stack. -/
theorem irType_of_stackSig (hs : s.HandlesSound asm) (hroots : RootsPlain asm)
    (h : stackSig asm sig = .ok sig') (hfloat : sig'.isFloat = true)
    (hclass : sig'.class? = some cls) (htype : irType asm sig s = .ok type s') :
    s'.module.classify type = .ok cls := by
  have hstored := underlying_of_stackSig h hfloat
  cases sig with
  | named id =>
      simp only [underlying, exceptBind_eq_ok_iff] at hstored
      obtain ⟨kind, hkind, hstored⟩ := hstored
      split at hstored
      · rename_i henum
        subst henum
        have hroot : Assembly.isRoot id = false := by
          by_contra hroot
          exact Bool.noConfusion (hfloat.symm.trans (hroots id (Bool.not_eq_false _ ▸ hroot) _ h))
        simp only [irType, namedType, hroot, Bool.false_eq_true, if_false, bind_eq_ok_iff,
          Lower.consult_eq_ok_iff, Lower.liftM_ask, Lower.ask_eq_ok_iff] at htype
        obtain ⟨found, _, ⟨hfound, rfl⟩, kind, _, ⟨hkind', rfl⟩, htype⟩ := htype
        cases hkind.symm.trans hkind'
        obtain ⟨rfl, rfl⟩ := pure_eq_ok_iff.mp htype
        obtain ⟨integer, hinteger, hhandle⟩ := hs.enum (Registry.found_eq_ok_iff.mp hfound) hkind
        obtain rfl := Except.ok.inj (hinteger.symm.trans hstored)
        exact hhandle cls hclass
      · obtain rfl := exceptPure_eq_ok_iff.mp hstored
        cases hfloat
  | _ =>
      obtain rfl := exceptPure_eq_ok_iff.mp hstored
      exact irType_class htype hclass

end Signatures

section Outlooks

variable {asm : Assembly} {final : Session} {function : FunctionId}

/-- What is loaded has the type that its signature says. -/
theorem toStack_told (signed : final.Signed asm) (hroots : RootsPlain asm) {m m' : Module}
    {sig : TypeSig} {v : ValueId} {e : Element} (hv : final.HasSig asm sig v)
    (h : toStack asm v sig m = .ok e m') (hend : m'.Evolves Change.Any final.module) :
    Told final.module e := by
  obtain ⟨type, htype, hv⟩ := hv
  obtain ⟨hsig, hways⟩ := toStack_cases h hend
  have hfloat {cls : TypeClass} (hfloat : e.sig.isFloat = true) (hclass : e.sig.class? = some cls) :
      final.module.classify type = .ok cls :=
    irType_of_stackSig signed.handles hroots hsig hfloat hclass htype
  rcases hways with ⟨⟨bits, -, hclass⟩, htyped, -, hproper⟩ | ⟨hvalue, htyped, -⟩
  · have hnone (hfloat' : e.sig.isFloat = true) : False := by
      obtain ⟨own, hown, hclass⟩ := classOf_eq_ok_iff.mp hclass
      obtain rfl := Except.ok.inj (hown.symm.trans hv)
      cases hsig' : e.sig <;> rw [hsig'] at hfloat' <;> cases hfloat'
      all_goals
        cases (hfloat (by rw [hsig']; rfl) (by rw [hsig']; rfl)).symm.trans hclass
    exact ⟨⟨htyped, fun heq => (hnone (heq ▸ rfl)).elim, fun heq => (hnone (heq ▸ rfl)).elim⟩,
      hproper⟩
  · obtain rfl := Except.ok.inj (hv.symm.trans htyped)
    exact ⟨⟨hvalue ▸ hv, fun heq => hfloat (heq ▸ rfl) (heq ▸ rfl),
      fun heq => hfloat (heq ▸ rfl) (heq ▸ rfl)⟩, signed.handles.irType_proper htype⟩

/-- Elements tell the types of their values: the ways in which they are made. -/
def truthfulOutlook (final : Session) (signed : final.Signed asm) (function : FunctionId)
    (hnames : NamesDistinct asm) (hroots : RootsPlain asm)
    (hclean : final.module.Blameless function) :
    Outlook asm where
  final
  function
  signed
  sound := Told final.module
  convertible e := final.module.IsScalar e.value
  constructible _ := True
  storable _ _ := True
  known _ := True
  known_later _ _ := trivial
  fits := final.HasSig asm
  aims _ _ := True
  typed htyped hapt := .of_apt htyped hapt
  replaced he htyped := he.of_same htyped rfl rfl
  fits_of_hasSig h := h
  fits_of_call hd hf h hend := by
    obtain ⟨-, d, hd', name, type, result, types, hhead, htype, hresult⟩ :=
      signed.functions hnames hf
    obtain rfl := Except.ok.inj (hd.symm.trans hd')
    obtain ⟨cls, -, ⟨-, hnone⟩ | ⟨-, v, hsome, hv⟩⟩ := Build.call_result h hend hhead htype
    · cases hnone
    · cases hsome
      exact ⟨result, hresult, hv⟩
  loaded hv := fun m e m' h _ hend => toStack_told signed hroots hv h hend
  float := fun h hhere hend => Emit.floatBinary_told h hhere hend hclean
  shift hlhs := fun m e m' h _ hend => Emit.shift_told h hend hlhs
  integer _ _ hlhs hrhs := fun m e m' h hhere hend =>
    Emit.intBinary_told h hhere hend hclean hlhs hrhs
  unary he h hend := by
    obtain ⟨own, hown, hv⟩ := unary_typeOf h
    have hall : Evolves Change.Any _ final.module :=
      ((inferInstance : Keeps (Evolves Change.Any) (Build.unary _ _)).run h).trans hend
    obtain rfl := Except.ok.inj ((hall.typeOf hown).symm.trans he.typed)
    exact he.of_same (hend.typeOf hv) rfl rfl
  converted htarget he hscalar := fun m e m' h _ hend =>
    Emit.convertElement_told htarget h hend he hscalar
  constructed _ _ htype hv :=
    ⟨⟨hv, nofun, nofun⟩, signed.handles.irType_proper htype⟩
  aims_of_aimsAt _ := trivial
  aims_of_member _ _ _ _ _ _ _ _ := trivial
  stored _ _ _ _ _ := trivial
  spilled _ _ := trivial

end Outlooks

section Bodies

variable {asm : Assembly} {settings : Settings} {n : Nat} {s : EmitState}

/-- As long as the function of a body has recorded no misuse, and only numbers and pointers have
been converted, each element on the stack, or on one that arrives at a block, tells the type of its
value, and what its signature says of numbers with a fraction is so.  No two methods have one name
here, and no root of the hierarchy is an enum of such a number. -/
theorem BodyStart.truthful_stacks (b : BodyStart asm settings) (hnames : NamesDistinct asm)
    (hroots : RootsPlain asm) (h : b.Visits n s) (hclean : s.session.module.Blameless b.function)
    (hconverts : ∀ k < n, ∀ instr t, Outlook.Meets b.frame b.body.instructions b.start k instr t →
      ∀ target unsignedSource, dispatch instr.opcode = .action (.convert target unsignedSource) →
        ∀ e rest, t.stack.pop? = some (e, rest) → t.session.module.IsScalar e.value) :
    (∀ e ∈ s.stack.elements, s.session.module.Truthful e) ∧
      ∀ l ∈ s.leaders, ∀ e ∈ l.incoming.elements, s.session.module.Truthful e := by
  have hadmits (k : Nat) (instr : Instruction) (t : EmitState) (hk : k < n)
      (hmeets : Outlook.Meets b.frame b.body.instructions b.start k instr t) :
      (truthfulOutlook s.session (b.signed h) b.function hnames hroots hclean).Admits instr t := by
    refine ⟨fun target unsignedSource hdispatch e rest hpop => ?_, fun _ _ _ => trivial⟩
    obtain ⟨cls, hcls, hscalar⟩ :=
      hconverts k hk instr t hmeets target unsignedSource hdispatch e rest hpop
    have hlater : Session.Later asm t.session s.session := Outlook.later_of_meets hmeets hk h
    exact ⟨cls, hlater.module.classOf hcls, hscalar⟩
  obtain ⟨-, hstack, hleaders⟩ := b.stocked
    (truthfulOutlook s.session (b.signed h) b.function hnames hroots hclean) rfl trivial
    (fun _ _ => trivial) hadmits h (Std.Refl.refl _)
  exact ⟨fun e he => (hstack e he).toTruthful, fun l hl e he =>
    ((hleaders l hl).incoming e he).toTruthful⟩

end Bodies

section Rootage

/-- A body that compares a local with itself. -/
def rootageBody : MethodBody where
  locals := [.named Assembly.enumType]
  instructions := [
    { opcode := .ldloc0 },
    { opcode := .ldloc0 },
    { opcode := .ceq },
    { opcode := .convR4 },
    { opcode := .ret }]

/-- The local is a value of the root of enums, which has an integer of its own if it is one. -/
def rootage (kind : TypeKind) : Assembly :=
  { Assembly.ofName "rootage" with
    types := #[
      TypeDef.ofKind .classType "System" "Object",
      TypeDef.ofKind .classType "System" "ValueType",
      { TypeDef.ofKind kind "System" "Enum" with base := some Assembly.valueType, fields := [⟨0⟩] },
      { TypeDef.ofKind .classType "" "C" with base := some Assembly.objectType, methods := [⟨0⟩] }]
    fields := #[⟨"value__", Assembly.enumType, .r4, false⟩]
    methods := #[
      { name := "Same", declaringType := ⟨3⟩, returnType := .r4, flags := ⟨MethodFlags.static⟩,
        body := some rootageBody }] }

def plainStart : BodyStart (rootage .classType) {} :=
  (BodyStart.first? (rootage .classType) {} ⟨0⟩ "C::Same").get (by decide +kernel)

def rootedStart : BodyStart (rootage .enumType) {} :=
  (BodyStart.first? (rootage .enumType) {} ⟨0⟩ "C::Same").get (by decide +kernel)

theorem rootage_plain : RootsPlain (rootage .classType) := by
  rintro ⟨index⟩ hroot sig hsig
  have hall : ∀ i < 3, ∀ sig ∈ (stackSig (rootage .classType) (.named ⟨i⟩)).toOption,
      sig.isFloat = false := by decide +kernel
  exact hall index (of_decide_eq_true hroot) sig (by rw [hsig]; rfl)

/-- The bit of the comparison is converted. -/
theorem plainStart_converts {k : Nat} {instr : Instruction} {t : EmitState} (hk : k < 4)
    (hmeets : Outlook.Meets plainStart.frame plainStart.body.instructions
      plainStart.start k instr t)
    {target : TypeSig} {unsignedSource : Bool}
    (hdispatch : dispatch instr.opcode = .action (.convert target unsignedSource)) :
    t = plainStart.after 3 := by
  have hbody : plainStart.body = rootageBody := by decide +kernel
  obtain ⟨hinstr, t₀, ht₀, hentered⟩ := hmeets
  rw [hbody] at hinstr
  obtain rfl : k = 3 := by
    match k, hk with
    | 0, _ | 1, _ | 2, _ =>
        cases hinstr
        cases hdispatch
    | 3, _ => rfl
  have hreached : Reaches plainStart.frame plainStart.body.instructions plainStart.start 3
      (plainStart.after 3) := eq_ok_stateOf (by decide +kernel)
  cases hreached.symm.trans ht₀
  rwa [if_neg (by decide +kernel)] at hentered

/-- What is pushed by a conversion is a number with a fraction. -/
theorem rootage_converts :
    (plainStart.after 4).stack.elements.map Element.sig = [.r4] ∧
      ∀ e ∈ (plainStart.after 4).stack.elements,
        (plainStart.after 4).session.module.Truthful e := by
  have hnone : (plainStart.after 4).session.module.misuses = #[] := by decide +kernel
  refine ⟨by decide +kernel,
    (plainStart.truthful_stacks (namesDistinct_of_nodup (by decide +kernel)) rootage_plain
      (plainStart.visits_after (by decide +kernel)) (fun misuse hmem => ?_)
      fun k hk instr t hmeets target unsignedSource hdispatch e rest hpop => ?_).1⟩
  · simp [hnone] at hmem
  · obtain rfl := plainStart_converts hk hmeets hdispatch
    have hclass : ∀ popped ∈ (plainStart.after 3).stack.pop?,
        (plainStart.after 3).session.module.classOf popped.1.value = .ok (.int 32) := by
      decide +kernel
    exact ⟨.int 32, hclass _ hpop, rfl⟩

/-- Where the root is an enum of a number with a fraction, a pointer is
pushed with its signature. -/
theorem rootage_misleads :
    (rootage .enumType).validate = .ok () ∧ rootedStart.Visits 1 (rootedStart.after 1) ∧
      (rootedStart.after 1).session.module.misuses = #[] ∧
      ∃ e ∈ (rootedStart.after 1).stack.elements, e.sig = .r4 ∧
        (rootedStart.after 1).session.module.classify e.type = .ok .pointer :=
  ⟨by decide +kernel, rootedStart.visits_after (by decide +kernel),
    by decide +kernel, by decide +kernel⟩

end Rootage

end Lowering

end CilSsa
