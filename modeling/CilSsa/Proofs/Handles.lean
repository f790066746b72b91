import CilSsa.Proofs.CompleteTypes
import CilSsa.Proofs.Fitting

/-!
The classes of types.

The type of a signature that names no type has a class that the signature tells.  For one that names
a struct or an enum it is the class of the handle, which the declaration of the type has settled: a
struct for a struct, and for an enum what its integer is.
-/

namespace CilSsa

open Ssa Metadata Lowering

namespace Ssa.Module

variable {P : Change → Prop} {m m' : Module} {type : TypeId}

/-- The type has a class, and if it is an integer, it is what integers of its
width are answered with. -/
def Proper (m : Module) (type : TypeId) : Prop :=
  ∃ cls, m.classify type = .ok cls ∧
    ∀ bits, cls = .int bits → m.types.idxOf? (.int bits) = some type.index

theorem Proper.evolves (h : m.Proper type) (hevolves : m.Evolves P m') : m'.Proper type := by
  obtain ⟨cls, hcls, hint⟩ := h
  exact ⟨cls, hevolves.classify hcls, fun bits heq => hevolves.idxOf? rfl (hint bits heq)⟩

/-- Integer types of one width are one type. -/
theorem Proper.unique {type' : TypeId} {bits : Nat} (h : m.Proper type) (h' : m.Proper type')
    (hclass : m.classify type = .ok (.int bits)) (hclass' : m.classify type' = .ok (.int bits)) :
    type = type' := by
  obtain ⟨cls, hcls, hint⟩ := h
  obtain ⟨cls', hcls', hint'⟩ := h'
  have hindex := hint bits (Except.ok.inj (hcls.symm.trans hclass))
  have hindex' := hint' bits (Except.ok.inj (hcls'.symm.trans hclass'))
  cases type
  cases type'
  exact congrArg TypeId.mk (Option.some.inj (hindex.symm.trans hindex'))

end Ssa.Module

namespace Ssa.Build

variable {m m' : Module} {id : TypeId}

/-- A type that is determined by its parts is what it is answered with from then on. -/
theorem intern_first {type : IrType} (h : intern type m = .ok id m') :
    m'.types.idxOf? type = some id.index := by
  rcases intern_cases h with ⟨hfound, rfl⟩ | ⟨hnone, rfl, rfl⟩
  · exact hfound
  · refine Module.idxOf?_eq_some_iff.mpr ⟨by simp [Module.apply], fun j hj => ?_⟩
    rw [Module.apply, Array.getElem?_push, if_neg (Nat.ne_of_lt hj)]
    intro hfound
    obtain ⟨hlt, heq⟩ := Array.getElem?_eq_some_iff.mp hfound
    exact Array.idxOf?_eq_none_iff.mp hnone (heq ▸ Array.getElem_mem hlt)

theorem intern_proper {type : IrType} (h : intern type m = .ok id m') :
    m'.classify id = .ok type.classify ∧ m'.Proper id := by
  have hclass : m'.classify id = .ok type.classify :=
    Module.classify_eq_ok_iff.mpr ⟨type, intern_type h, rfl⟩
  refine ⟨hclass, _, hclass, fun bits heq => ?_⟩
  obtain rfl : type = .int bits := by
    cases type <;> simp_all [IrType.classify]
  exact intern_first h

end Ssa.Build

namespace Metadata.TypeSig

def class? : TypeSig → Option TypeClass
  | .void => some .void
  | .boolean | .i1 | .u1 => some (.int 8)
  | .char | .i2 | .u2 => some (.int 16)
  | .i4 | .u4 => some (.int 32)
  | .i8 | .u8 | .intPtr | .uintPtr => some (.int 64)
  | .r4 => some (.float 32)
  | .r8 => some (.float 64)
  | .string | .object | .pointer _ | .byRef _ | .array _ => some .pointer
  | .named _ => none

end Metadata.TypeSig

namespace Lowering

/-- A signature whose values are integers of less than 32 bits in storage: a small
integer, or an enum of one. -/
inductive NarrowSig (asm : Assembly) : TypeSig → Prop
  | small {sig : TypeSig} (h : sig ∈ [.boolean, .char, .i1, .u1, .i2, .u2]) : NarrowSig asm sig
  | enum {id : TypeDefId} {integer : TypeSig} (hroot : Assembly.isRoot id = false)
      (hkind : asm.kindOf id = .ok .enumType) (hunderlying : enumUnderlying asm id = .ok integer)
      (hinteger : NarrowSig asm integer) : NarrowSig asm (.named id)

variable {asm : Assembly} {s s' : Session} {sig : TypeSig} {type handle : TypeId} {ty : TypeDefId}
  {cls : TypeClass}

/-- The handles of types, as the declaration of types has made them. -/
structure Session.HandlesSound (asm : Assembly) (s : Session) : Prop where
  proper : ∀ {ty : TypeDefId} {handle : TypeId}, s.registry.types.lookup ty = some handle →
    s.module.Proper handle
  struct : ∀ {ty : TypeDefId} {handle : TypeId}, s.registry.types.lookup ty = some handle →
    asm.kindOf ty = .ok .structType → s.module.classify handle = .ok .struct
  enum : ∀ {ty : TypeDefId} {handle : TypeId}, s.registry.types.lookup ty = some handle →
    asm.kindOf ty = .ok .enumType → ∃ integer, enumUnderlying asm ty = .ok integer ∧
      ∀ cls, integer.class? = some cls → s.module.classify handle = .ok cls
  narrow : ∀ {ty : TypeDefId} {handle : TypeId} {bits : Nat},
    s.registry.types.lookup ty = some handle → Assembly.isRoot ty = false →
    asm.kindOf ty = .ok .enumType → s.module.classify handle = .ok (.int bits) → bits < 32 →
    NarrowSig asm (.named ty)

/-- The ways to the type of a signature: it is determined by the signature alone, it is a pointer,
or it is the handle of a struct or enum. -/
theorem irType_classes (h : irType asm sig s = .ok type s') :
    (s'.module.Proper type ∧ ∃ cls, s'.module.classify type = .ok cls ∧
      (sig.class? = some cls ∨ sig.class? = none ∧ cls = .pointer)) ∨
    ∃ id, sig = .named id ∧ Assembly.isRoot id = false ∧
      (asm.kindOf id = .ok .structType ∨ asm.kindOf id = .ok .enumType) ∧
      s.registry.types.lookup id = some type ∧ s' = s := by
  have hinterned {shape : IrType} {t t' : Session} (hclass : sig.class? = some shape.classify ∨
      sig.class? = none ∧ shape.classify = .pointer)
      (h : Lower.build (Build.intern shape) t = .ok type t') :
      t'.module.Proper type ∧ ∃ cls, t'.module.classify type = .ok cls ∧
        (sig.class? = some cls ∨ sig.class? = none ∧ cls = .pointer) := by
    obtain ⟨m, hintern, rfl⟩ := Lower.build_eq_ok_iff.mp h
    obtain ⟨hcls, hproper⟩ := Build.intern_proper hintern
    exact ⟨hproper, _, hcls, hclass⟩
  have hgeneric {t t' : Session} (hclass : sig.class? = some .pointer ∨ sig.class? = none)
      (h : Lower.build Build.genericPointer t = .ok type t') :
      t'.module.Proper type ∧ ∃ cls, t'.module.classify type = .ok cls ∧
        (sig.class? = some cls ∨ sig.class? = none ∧ cls = .pointer) := by
    obtain ⟨m, hbuild, rfl⟩ := Lower.build_eq_ok_iff.mp h
    obtain ⟨byte, m₁, -, hintern⟩ := bind_eq_ok_iff.mp hbuild
    obtain ⟨hcls, hproper⟩ := Build.intern_proper hintern
    exact ⟨hproper, _, hcls, hclass.imp_right fun hnone => ⟨hnone, rfl⟩⟩
  cases sig with
  | named id =>
      simp only [irType, namedType] at h
      split at h
      · exact .inl (hgeneric (.inr rfl) h)
      · rename_i hroot
        simp only [bind_eq_ok_iff, Lower.consult_eq_ok_iff, Lower.liftM_ask,
          Lower.ask_eq_ok_iff] at h
        obtain ⟨found, t, ⟨hfound, hsame⟩, kind, t', ⟨hkind, hsame'⟩, h⟩ := h
        subst t t'
        cases kind with
        | classType => exact .inl (hinterned (.inr ⟨rfl, rfl⟩) h)
        | interfaceType => exact .inl (hgeneric (.inr rfl) h)
        | structType =>
            obtain ⟨rfl, rfl⟩ := pure_eq_ok_iff.mp h
            exact .inr ⟨id, rfl, by simpa using hroot, .inl hkind,
              Registry.found_eq_ok_iff.mp hfound, rfl⟩
        | enumType =>
            obtain ⟨rfl, rfl⟩ := pure_eq_ok_iff.mp h
            exact .inr ⟨id, rfl, by simpa using hroot, .inr hkind,
              Registry.found_eq_ok_iff.mp hfound, rfl⟩
  | string | object => exact .inl (hgeneric (.inl rfl) h)
  | pointer inner | byRef inner | array inner =>
      simp only [irType] at h
      split at h <;>
      · obtain ⟨pointee, s₁, -, h⟩ := bind_eq_ok_iff.mp h
        exact .inl (hinterned (.inl rfl) h)
  | _ => exact .inl (hinterned (.inl rfl) h)

/-- A signature that tells the class of its type tells it right. -/
theorem irType_class (h : irType asm sig s = .ok type s') (hclass : sig.class? = some cls) :
    s'.module.classify type = .ok cls := by
  rcases irType_classes h with ⟨-, cls', hcls', hsame | ⟨hnone, -⟩⟩ | ⟨id, rfl, -⟩
  · rwa [Option.some.inj (hclass.symm.trans hsame)]
  · cases hclass.symm.trans hnone
  · cases hclass

namespace Session.HandlesSound

theorem mono (h : s.HandlesSound asm) (hmodule : s.module.Evolves Change.Any s'.module)
    (htypes : s'.registry.types = s.registry.types) : s'.HandlesSound asm where
  proper hlookup := (h.proper (htypes ▸ hlookup)).evolves hmodule
  struct hlookup hkind := hmodule.classify (h.struct (htypes ▸ hlookup) hkind)
  enum hlookup hkind := by
    obtain ⟨integer, hunderlying, hclass⟩ := h.enum (htypes ▸ hlookup) hkind
    exact ⟨integer, hunderlying, fun cls hcls => hmodule.classify (hclass cls hcls)⟩
  narrow hlookup hroot hkind hclass hbits := by
    rw [htypes] at hlookup
    obtain ⟨cls, hcls, -⟩ := h.proper hlookup
    obtain rfl := Except.ok.inj ((hmodule.classify hcls).symm.trans hclass)
    exact h.narrow hlookup hroot hkind hcls hbits

theorem irType_proper (hs : s.HandlesSound asm) (h : irType asm sig s = .ok type s') :
    s'.module.Proper type := by
  rcases irType_classes h with ⟨hproper, -⟩ | ⟨id, -, -, -, hlookup, rfl⟩
  · exact hproper
  · exact hs.proper hlookup

/-- Small integers in storage come from small signatures. -/
theorem narrow_of_irType (hs : s.HandlesSound asm) {bits : Nat} (h : irType asm sig s = .ok type s')
    (hclass : s'.module.classify type = .ok (.int bits)) (hbits : bits < 32) :
    NarrowSig asm sig := by
  rcases irType_classes h with ⟨-, cls, hcls, hsig⟩ | ⟨id, rfl, hroot, hkind, hlookup, rfl⟩
  · obtain rfl := Except.ok.inj (hcls.symm.trans hclass)
    rcases hsig with hsig | ⟨-, hpointer⟩
    · refine .small ?_
      cases sig <;> simp [TypeSig.class?] at hsig ⊢ <;> omega
    · cases hpointer
  · rcases hkind with hstruct | henum
    · cases (hs.struct hlookup hstruct).symm.trans hclass
    · exact hs.narrow hlookup hroot henum hclass hbits

/-- The declaration of a type gives it a sound handle. -/
theorem step {u : Unit} (hs : s.HandlesSound asm) (h : declareType asm ty s = .ok u s') :
    s'.HandlesSound asm := by
  obtain ⟨d, handle, s₁, hd, hhandle, hnew, hafter⟩ := declareType_cases h
  obtain ⟨-, hstruct, honly⟩ := declareHandle_cases hd hhandle
  have hkindOf : asm.kindOf ty = .ok d.kind := Assembly.kindOf_eq_ok_iff.mpr ⟨d, hd, rfl⟩
  have hmodule : s'.module = s₁.module := by rw [hafter]
  have htypes : s'.registry.types = (ty, handle) :: s₁.registry.types := by rw [hafter]
  have hevolves : s.module.Evolves Change.Any s₁.module := by
    have hkeeps : Keeps Session.Evolves (declareHandle asm ty d) := by
      unfold declareHandle
      cases d.kind <;> infer_instance
    exact hkeeps.run hhandle
  have hs₁ : s₁.HandlesSound asm := hs.mono hevolves (by rw [honly])
  have hstructs (hkind : d.kind ≠ .enumType) : s₁.module.classify handle = .ok .struct := by
    have hown : hasStruct asm ty = true := by
      unfold hasStruct
      rw [hkindOf]
      cases hother : d.kind with
      | enumType => exact absurd hother hkind
      | classType | structType | interfaceType => rfl
    obtain ⟨-, name, htype⟩ := hstruct hown
    exact Module.classify_eq_ok_iff.mpr ⟨_, htype, rfl⟩
  have henums (hkind : d.kind = .enumType) : ∃ integer, enumUnderlying asm ty = .ok integer ∧
      irType asm integer s = .ok handle s₁ := declareHandle_enum hkind hhandle
  have hcases {ty' : TypeDefId} {handle' : TypeId}
      (hlookup : s'.registry.types.lookup ty' = some handle') :
      (ty' = ty ∧ handle' = handle) ∨ s₁.registry.types.lookup ty' = some handle' :=
    lookup_cons_cases (htypes ▸ hlookup)
  refine ⟨fun {ty' handle'} hlookup => ?_, fun {ty' handle'} hlookup hkind => ?_,
    fun {ty' handle'} hlookup hkind =>
    ?_, fun {ty' handle' bits} hlookup hroot hkind hclass hbits => ?_⟩
  all_goals rcases hcases hlookup with ⟨rfl, rfl⟩ | hold
  all_goals rw [hmodule] at *
  · by_cases hkind : d.kind = .enumType
    · obtain ⟨integer, -, htype⟩ := henums hkind
      exact hs.irType_proper htype
    · exact ⟨_, hstructs hkind, fun bits heq => by cases heq⟩
  · exact hs₁.proper hold
  · obtain hkind := Except.ok.inj (hkindOf.symm.trans hkind)
    exact hstructs (by simp [hkind])
  · exact hs₁.struct hold hkind
  · obtain ⟨integer, hinteger, htype⟩ := henums (Except.ok.inj (hkindOf.symm.trans hkind))
    exact ⟨integer, hinteger, fun cls hcls => irType_class htype hcls⟩
  · exact hs₁.enum hold hkind
  · obtain ⟨integer, hinteger, htype⟩ := henums (Except.ok.inj (hkindOf.symm.trans hkind))
    exact .enum hroot hkind hinteger (hs.narrow_of_irType htype hclass hbits)
  · exact hs₁.narrow hold hroot hkind hclass hbits

theorem of_declareTypes {m : Module} {u : Unit} (h : declareTypes asm { module := m } = .ok u s) :
    s.HandlesSound asm := by
  obtain ⟨s₁, hs₁, honly, -⟩ := declareTypes_induction (I := Session.HandlesSound asm)
    ⟨fun h => by simp at h, fun h => by simp at h, fun h => by simp at h, fun h => by simp at h⟩
    (fun hs h => hs.step h) h
  refine hs₁.mono ?_ (by rw [honly])
  rw [honly]
  exact Std.Refl.refl _

end Session.HandlesSound

end Lowering

end CilSsa
