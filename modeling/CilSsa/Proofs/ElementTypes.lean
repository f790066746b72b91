import CilSsa.Proofs.Results

/-!
The types of computed elements.

A small integer is widened when it is loaded and when it is converted to, and the result of an
operation has the type of one of its operands or a type for its signature.
-/

namespace CilSsa

open Ssa Metadata Lowering

namespace Lowering

open Build Module

variable {asm : Assembly} {m m' M : Module} {e lhs rhs l r : Element} {v : ValueId} {sig : TypeSig}

/-- What is loaded keeps its type, or is widened to 32 bits. -/
theorem toStack_cases (h : toStack asm v sig m = .ok e m') (hend : m'.Evolves Change.Any M) :
    stackSig asm sig = .ok e.sig ∧
      ((∃ bits, bits < 32 ∧ M.classOf v = .ok (.int bits)) ∧ M.typeOf e.value = .ok e.type ∧
          M.classify e.type = .ok (.int 32) ∧ M.Proper e.type ∨
        e.value = v ∧ M.typeOf v = .ok e.type ∧
          ∀ bits, M.classify e.type = .ok (.int bits) → 32 ≤ bits) := by
  simp only [toStack, bind_eq_ok_iff, Build.ask, query_eq_ok_iff] at h
  obtain ⟨onStack, t, ⟨honStack, hsame⟩, type, t', ⟨htype, hsame'⟩, cls, t'', ⟨hcls, hsame''⟩, h⟩ :=
    h
  subst t'' t' t
  have hkept (hpure : (pure ⟨v, onStack, type⟩ : Build Element) m = .ok e m')
      (hwide : ∀ bits, cls = .int bits → 32 ≤ bits) :
      stackSig asm sig = .ok e.sig ∧ e.value = v ∧ M.typeOf v = .ok e.type ∧
        ∀ bits, M.classify e.type = .ok (.int bits) → 32 ≤ bits := by
    obtain ⟨rfl, rfl⟩ := pure_eq_ok_iff.mp hpure
    refine ⟨honStack, rfl, hend.typeOf htype, fun bits hclass => hwide bits ?_⟩
    exact Except.ok.inj ((hend.classify hcls).symm.trans hclass)
  cases cls with
  | int bits =>
      dsimp only at h
      split at h
      · rename_i hbits
        simp only [bind_eq_ok_iff, query_eq_ok_iff, pure_eq_ok_iff] at h
        obtain ⟨wide, m₁, hwide, signed, _, ⟨-, rfl⟩, value, m₂, hcast, rfl, rfl⟩ := h
        have hcasted :=
          ((inferInstance : Keeps (Evolves Change.Any) (intCast v wide signed)).run
            hcast).trans hend
        have hall :=
          ((inferInstance : Keeps (Evolves Change.Any) (intType 32)).run hwide).trans hcasted
        have hclass := intType_classify hwide hcasted
        have hvalue : M.classOf v = .ok (.int bits) :=
          classOf_eq_ok_iff.mpr ⟨type, Evolves.typeOf hall htype, Evolves.classify hall hcls⟩
        exact ⟨honStack, .inl ⟨⟨bits, hbits, hvalue⟩,
          intCast_typeOf hcast hend hvalue hclass (by omega), hclass,
          (intern_proper hwide).2.evolves hcasted⟩⟩
      · rename_i hbits
        obtain ⟨hsig, hrest⟩ := hkept h fun bits' heq => by
          cases heq
          omega
        exact ⟨hsig, .inr hrest⟩
  | _ =>
      obtain ⟨hsig, hrest⟩ := hkept h fun bits heq => by cases heq
      exact ⟨hsig, .inr hrest⟩

/-- A type that was asked for is the answer ever after. -/
theorem intType_unique {bits : Nat} {type type' : TypeId} {m₁ m₂ m₃ : Module}
    (h : intType bits m = .ok type m₁) (hlater : m₁.Evolves Change.Any m₂)
    (h' : intType bits m₂ = .ok type' m₃) : type' = type := by
  have hsettled : Lower.build (intType bits) { module := m₂ } = .ok type { module := m₂ } :=
    (inferInstance : Settles Session.Extends (Lower.build (intType bits))).run
      (s := { module := m }) (Lower.build_eq_ok_iff.mpr ⟨m₁, h, rfl⟩) ⟨hlater, Std.Refl.refl _⟩
  obtain ⟨_, hagain, -⟩ := Lower.build_eq_ok_iff.mp hsettled
  rw [h'] at hagain
  cases hagain
  rfl

theorem nativeElement_cases (h : nativeElement asm lhs m = .ok e m')
    (hend : m'.Evolves Change.Any M) :
    e.sig = .intPtr ∧ ∃ signed m₁, coerce lhs.value e.type signed m₁ = .ok e.value m' ∧
      M.classify e.type = .ok (.int nativeBits) ∧ M.Proper e.type := by
  simp only [nativeElement, toNativeInt, bind_eq_ok_iff, Build.ask, query_eq_ok_iff,
    pure_eq_ok_iff] at h
  obtain ⟨native, m₁, hnative, signed, t, ⟨-, ht⟩, value, _, ⟨again, m₂, hagain, hcoerce⟩,
    rfl, rfl⟩ := h
  subst t
  obtain rfl := intType_unique hnative (Std.Refl.refl _) hagain
  have hsecond := (inferInstance : Keeps (Evolves Change.Any) (intType nativeBits)).run hagain
  have hlast :=
    (inferInstance : Keeps (Evolves Change.Any) (coerce lhs.value again signed)).run hcoerce
  obtain ⟨hclass, hproper⟩ := intern_proper hnative
  have hall : m₁.Evolves Change.Any M := hsecond.trans (hlast.trans hend)
  exact ⟨rfl, signed, m₂, hcoerce, hall.classify hclass, hproper.evolves hall⟩

theorem nativeElement_apt (h : nativeElement asm lhs m = .ok e m')
    (hend : m'.Evolves Change.Any M) :
    e.sig = .intPtr ∧ M.Apt .intPtr e.type := by
  obtain ⟨hsig, -, -, -, hclass, hproper⟩ := nativeElement_cases h hend
  refine ⟨hsig, hproper, fun bits hbits => ?_, nofun, nofun⟩
  cases hclass.symm.trans hbits
  decide

namespace Emit

/-- The result of an operation on numbers with fractions has a type for its signature. -/
theorem floatBinary_apt {op : BinaryOp} (h : floatBinary asm op lhs rhs m = .ok e m')
    (hend : m'.Evolves Change.Any M) : M.Apt e.sig e.type := by
  have hbits : (floatResult lhs.sig rhs.sig).1 = .r4 ∧ (floatResult lhs.sig rhs.sig).2 = 32 ∨
      (floatResult lhs.sig rhs.sig).1 = .r8 ∧ (floatResult lhs.sig rhs.sig).2 = 64 := by
    unfold floatResult
    split
    · exact .inr ⟨rfl, rfl⟩
    · exact .inl ⟨rfl, rfl⟩
  obtain ⟨type, m₁, htype, h⟩ := bind_eq_ok_iff.mp h
  have hrest : Keeps (Evolves Change.Any) (do
      let lhsSigned ← Build.ask (isSigned asm lhs.sig)
      let l ← coerce lhs.value type lhsSigned
      let rhsSigned ← Build.ask (isSigned asm rhs.sig)
      let r ← coerce rhs.value type rhsSigned
      return ⟨← Build.binary op l r, (floatResult lhs.sig rhs.sig).1, type⟩ : Build Element) :=
        inferInstance
  have hlast := (hrest.run h).trans hend
  simp only [bind_eq_ok_iff, pure_eq_ok_iff] at h
  obtain ⟨_, _, -, _, _, -, _, _, -, _, _, -, _, _, -, rfl, -⟩ := h
  exact floatType_apt htype hlast hbits

theorem shift_same {op : BinaryOp} (h : shift op lhs rhs m = .ok e m') :
    e.sig = lhs.sig ∧ e.type = lhs.type := by
  simp only [shift, bind_eq_ok_iff, pure_eq_ok_iff] at h
  obtain ⟨distance, _, -, value, _, -, rfl, -⟩ := h
  exact ⟨rfl, rfl⟩

end Emit

/-- If one operand is a pointer, both become native integers, and otherwise
they stay as they are. -/
theorem alignPointers_cases {left right : Bool}
    (h : alignPointers asm lhs rhs m = .ok (l, r, left, right) m') :
    l = lhs ∧ r = rhs ∧ (left || right) = false ∧ m' = m ∨
      (left || right) = true ∧ ∃ m₁, nativeElement asm lhs m = .ok l m₁ ∧
        nativeElement asm rhs m₁ = .ok r m' := by
  simp only [alignPointers, bind_eq_ok_iff, query_eq_ok_iff] at h
  obtain ⟨leftClass, t, ⟨-, hsame⟩, rightClass, t', ⟨-, hsame'⟩, h⟩ := h
  subst t' t
  split at h
  · rename_i hpointer
    simp only [bind_eq_ok_iff, pure_eq_ok_iff, Prod.mk.injEq] at h
    obtain ⟨lhs', m₁, hlhs, rhs', m₂, hrhs, ⟨rfl, rfl, rfl, rfl⟩, rfl⟩ := h
    exact .inr ⟨hpointer, m₁, hlhs, hrhs⟩
  · simp only [pure_eq_ok_iff, Prod.mk.injEq] at h
    obtain ⟨⟨rfl, rfl, rfl, rfl⟩, rfl⟩ := h
    exact .inl ⟨rfl, rfl, rfl, rfl⟩

/-- The operand that is not widened decides about the type and the signature. -/
theorem alignWidths_cases (h : alignWidths asm lhs rhs m = .ok (l, r) m') :
    l = lhs ∨ r = rhs ∧ l.sig = rhs.sig ∧ l.type = rhs.type := by
  simp only [alignWidths, bind_eq_ok_iff] at h
  obtain ⟨leftClass, _, -, rightClass, _, -, h⟩ := h
  cases hleft : leftClass.bits? with
  | none =>
      simp only [hleft, pure_eq_ok_iff, Prod.mk.injEq] at h
      exact .inl h.1.1
  | some leftBits =>
      cases hright : rightClass.bits? with
      | none =>
          simp only [hleft, hright, pure_eq_ok_iff, Prod.mk.injEq] at h
          exact .inl h.1.1
      | some rightBits =>
          simp only [hleft, hright] at h
          split at h
          · simp only [bind_eq_ok_iff, pure_eq_ok_iff, Prod.mk.injEq] at h
            obtain ⟨signed, _, -, value, _, -, ⟨rfl, -⟩, -⟩ := h
            exact .inl rfl
          · split at h
            · simp only [bind_eq_ok_iff, pure_eq_ok_iff, Prod.mk.injEq] at h
              obtain ⟨signed, _, -, value, _, -, ⟨rfl, rfl⟩, -⟩ := h
              exact .inr ⟨rfl, rfl, rfl⟩
            · simp only [pure_eq_ok_iff, Prod.mk.injEq] at h
              exact .inl h.1.1

/-- The type is that of one of the operands, along with the signature. -/
theorem alignWidths_same (h : alignWidths asm lhs rhs m = .ok (l, r) m') :
    (l.sig = lhs.sig ∧ l.type = lhs.type) ∨ (l.sig = rhs.sig ∧ l.type = rhs.type) := by
  rcases alignWidths_cases h with rfl | ⟨-, hsame⟩
  · exact .inl ⟨rfl, rfl⟩
  · exact .inr hsame

namespace Emit

/-- The result of an operation on integers and pointers is a native integer, or has the type
of one of the operands. -/
theorem intBinary_cases {op : BinaryOp} (h : intBinary asm op lhs rhs m = .ok e m')
    (hend : m'.Evolves Change.Any M) : M.Apt e.sig e.type ∨
      (e.sig = lhs.sig ∧ e.type = lhs.type) ∨ (e.sig = rhs.sig ∧ e.type = rhs.type) := by
  simp only [intBinary, bind_eq_ok_iff] at h
  obtain ⟨⟨l, r, left, right⟩, m₁, halign, h⟩ := h
  split at h
  · simp only [bind_eq_ok_iff] at h
    obtain ⟨value, m₂, hbinary, h⟩ := h
    split at h
    · rename_i hdistance
      obtain ⟨rfl, rfl⟩ := pure_eq_ok_iff.mp h
      have hlast := (inferInstance : Keeps (Evolves Change.Any)
        (Build.binary op l.value r.value)).run hbinary
      rcases alignPointers_cases halign with ⟨-, -, hnone, -⟩ | ⟨-, m₀, hl, hr⟩
      · simp_all
      · have hr' := (inferInstance : Keeps (Evolves Change.Any) (nativeElement asm rhs)).run hr
        exact .inl (nativeElement_apt hl (hr'.trans (hlast.trans hend))).2
    · simp only [bind_eq_ok_iff, pure_eq_ok_iff] at h
      obtain ⟨pointer, m₃, hcast, rfl, rfl⟩ := h
      cases left
      · exact .inr (.inr ⟨rfl, rfl⟩)
      · exact .inr (.inl ⟨rfl, rfl⟩)
  · simp only [bind_eq_ok_iff, pure_eq_ok_iff] at h
    obtain ⟨⟨l', r'⟩, m₂, hwidths, value, m₃, hbinary, rfl, rfl⟩ := h
    have hsecond := (inferInstance : Keeps (Evolves Change.Any) (alignWidths asm l r)).run hwidths
    have hthird := (inferInstance : Keeps (Evolves Change.Any)
      (Build.binary op l'.value r'.value)).run hbinary
    rcases alignPointers_cases halign with ⟨rfl, rfl, -, -⟩ | ⟨-, m₀, hl, hr⟩
    · have hsame := alignWidths_same hwidths
      exact .inr hsame
    · have hwidened := hsecond.trans (hthird.trans hend)
      have hr' := (inferInstance : Keeps (Evolves Change.Any) (nativeElement asm rhs)).run hr
      have hleft := nativeElement_apt hl (hr'.trans hwidened)
      have hright := nativeElement_apt hr hwidened
      obtain ⟨hsig, htype⟩ | ⟨hsig, htype⟩ := alignWidths_same hwidths
      · exact .inl (hsig ▸ htype ▸ hleft.1 ▸ hleft.2)
      · exact .inl (hsig ▸ htype ▸ hright.1 ▸ hright.2)

theorem convertElement_cases {target : TypeSig} {unsignedSource : Bool}
    (h : convertElement asm target unsignedSource lhs m = .ok e m') :
    ∃ value signed t,
      ((∃ cls, m.classify lhs.type = .ok cls ∧ cls.isPointer = false ∧ value = lhs.value ∧ t = m) ∨
        ∃ native m₁, intType nativeBits m = .ok native m₁ ∧
          Build.cast .ptrtoint lhs.value native m₁ = .ok value t) ∧
      (target.isFloat = true ∧ convertToFloat value target signed t = .ok e m' ∨
        target.isFloat = false ∧ convertToInt asm value target signed t = .ok e m') := by
  have hlast {value : ValueId} {signed signed' : Bool} {t : Module}
    (h : (if target.isFloat = true then
        convertToFloat value target signed
      else convertToInt asm value target signed') t = .ok e m') :
      ∃ signed, target.isFloat = true ∧ convertToFloat value target signed t = .ok e m' ∨
        target.isFloat = false ∧ convertToInt asm value target signed t = .ok e m' := by
    split at h
    · rename_i hfloat
      exact ⟨_, .inl ⟨hfloat, h⟩⟩
    · rename_i hnot
      exact ⟨_, .inr ⟨Bool.eq_false_iff.mpr hnot, h⟩⟩
  have hrest {signed signed' : Bool} {t : Module} (ht : t = m) (hrun : (do
        if (← query (·.classify lhs.type)).isPointer then do
          let value ← Build.cast .ptrtoint lhs.value (← intType nativeBits)
          if target.isFloat then convertToFloat value target signed
          else convertToInt asm value target signed'
        else do
          let value ← pure lhs.value
          if target.isFloat then convertToFloat value target signed
          else convertToInt asm value target signed' : Build Element) t = .ok e m') :
      ∃ value t,
        ((∃ cls, m.classify lhs.type = .ok cls ∧ cls.isPointer = false ∧
          value = lhs.value ∧ t = m) ∨ ∃ native m₁, intType nativeBits m = .ok native m₁ ∧
            Build.cast .ptrtoint lhs.value native m₁ = .ok value t) ∧
        ∃ signed, target.isFloat = true ∧ convertToFloat value target signed t = .ok e m' ∨
          target.isFloat = false ∧ convertToInt asm value target signed t = .ok e m' := by
    subst ht
    obtain ⟨cls, t', hquery, hrun⟩ := bind_eq_ok_iff.mp hrun
    obtain ⟨hcls, hsame⟩ := query_eq_ok_iff.mp hquery
    subst t'
    split at hrun
    · obtain ⟨native, m₁, hnative, hrun⟩ := bind_eq_ok_iff.mp hrun
      obtain ⟨value, m₂, hcast, hrun⟩ := bind_eq_ok_iff.mp hrun
      exact ⟨value, m₂, .inr ⟨native, m₁, hnative, hcast⟩, hlast hrun⟩
    · rename_i hnot
      exact ⟨lhs.value, t, .inl ⟨cls, hcls, Bool.eq_false_iff.mpr hnot, rfl, rfl⟩, hlast hrun⟩
  unfold convertElement at h
  split at h
  · obtain ⟨value, t, hvalue, signed, hways⟩ := hrest rfl h
    exact ⟨value, signed, t, hvalue, hways⟩
  · obtain ⟨sourceSigned, t', hquery, h⟩ := bind_eq_ok_iff.mp h
    obtain ⟨-, hsame⟩ := query_eq_ok_iff.mp hquery
    obtain ⟨value, t, hvalue, signed, hways⟩ := hrest hsame h
    exact ⟨value, signed, t, hvalue, hways⟩

/-- The signature of a number on the stack is that of a fraction if the one in storage is. -/
theorem isFloat_of_stackSig {sig' : TypeSig} (hsig : ∀ id, sig ≠ .named id)
    (h : stackSig asm sig = .ok sig') : sig'.isFloat = sig.isFloat := by
  cases sig with
  | named id => exact absurd rfl (hsig id)
  | _ =>
      cases h
      rfl

/-- The result of a conversion to a number has a type for its signature. -/
theorem convertElement_apt {target : TypeSig} {unsignedSource : Bool}
    (htarget : ∀ id, target ≠ .named id)
    (h : convertElement asm target unsignedSource lhs m = .ok e m')
    (hend : m'.Evolves Change.Any M) :
    M.Apt e.sig e.type := by
  obtain ⟨value, signed, t, -, ⟨hfloat, h⟩ | ⟨hfloat, h⟩⟩ := convertElement_cases h
  · simp only [convertToFloat, bind_eq_ok_iff, pure_eq_ok_iff] at h
    obtain ⟨type, m₁, htype, value', m₂, hcoerce, rfl, rfl⟩ := h
    have hlast :=
      (inferInstance : Keeps (Evolves Change.Any) (coerce value type signed)).run hcoerce
    refine floatType_apt htype (hlast.trans hend) ?_
    cases target <;> simp [TypeSig.isFloat] at hfloat
    · exact .inl ⟨rfl, rfl⟩
    · exact .inr ⟨rfl, rfl⟩
  · have hsig {sig' : TypeSig} (hstack : stackSig asm target = .ok sig') : sig'.isFloat = false :=
      (isFloat_of_stackSig htarget hstack).trans hfloat
    simp only [convertToInt, bind_eq_ok_iff] at h
    obtain ⟨type, m₁, htype, value', m₂, hcoerce, h⟩ := h
    have hfirst :=
      (inferInstance : Keeps (Evolves Change.Any) (coerce value type signed)).run hcoerce
    split at h
    · simp only [bind_eq_ok_iff, Build.ask, query_eq_ok_iff, pure_eq_ok_iff] at h
      obtain ⟨wide, m₃, hwide, widened, m₄, hcast, sig', _, ⟨hstack, rfl⟩, rfl, rfl⟩ := h
      have hlast := (inferInstance : Keeps (Evolves Change.Any)
        (Build.intCast value' wide (!target.isUnsigned))).run hcast
      exact intType_apt hwide (hlast.trans hend) (by decide) (hsig hstack)
    · rename_i hbits
      simp only [bind_eq_ok_iff, Build.ask, query_eq_ok_iff, pure_eq_ok_iff] at h
      obtain ⟨sig', _, ⟨hstack, rfl⟩, rfl, rfl⟩ := h
      exact intType_apt htype (hfirst.trans hend) (Nat.le_of_not_lt hbits) (hsig hstack)

end Emit

end Lowering

end CilSsa
