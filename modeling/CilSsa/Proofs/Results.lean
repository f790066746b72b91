import CilSsa.Proofs.SoundStacks

/-!
The types of results.

Addresses are pointers, constants have their own types, and a call has a value if its result is not
void, which has the type of the result.
-/

namespace CilSsa

open Ssa Metadata Lowering

namespace Ssa.Build

open Ssa.Module

variable {m m' M : Module} {v value : ValueId} {type : TypeId} {bits : Nat} {sig : TypeSig}

section Types

theorem intType_apt (h : intType bits m = .ok type m') (hend : m'.Evolves Change.Any M)
    (hbits : 32 ≤ bits) (hsig : sig.isFloat = false) : M.Apt sig type := by
  obtain ⟨hclass, hproper⟩ := intern_proper h
  refine ⟨hproper.evolves hend, fun bits' hclass' => ?_, fun heq => ?_, fun heq => ?_⟩
  · cases (hend.classify hclass).symm.trans hclass'
    exact hbits
  all_goals
    subst heq
    cases hsig

theorem floatType_apt (h : floatType bits m = .ok type m') (hend : m'.Evolves Change.Any M)
    (hsig : sig = .r4 ∧ bits = 32 ∨ sig = .r8 ∧ bits = 64) : M.Apt sig type := by
  obtain ⟨hclass, hproper⟩ := intern_proper h
  have hclass := hend.classify hclass
  refine ⟨hproper.evolves hend, fun bits' hclass' => ?_, fun heq => ?_, fun heq => ?_⟩
  · cases hclass.symm.trans hclass'
  all_goals
    subst heq
    rcases hsig with ⟨heq, rfl⟩ | ⟨heq, rfl⟩
    all_goals cases heq
    exact hclass

theorem genericPointer_classify (h : genericPointer m = .ok type m')
    (hend : m'.Evolves Change.Any M) :
    M.classify type = .ok .pointer := by
  obtain ⟨byte, m₁, -, hpointer⟩ := bind_eq_ok_iff.mp h
  exact classify_eq_ok_iff.mpr ⟨_, pointerType_type hpointer hend, rfl⟩

/-- An integer is cast to another width. -/
theorem intCast_typeOf {signed : Bool} {bits' : Nat} (h : intCast value type signed m = .ok v m')
    (hend : m'.Evolves Change.Any M) (hvalue : M.classOf value = .ok (.int bits))
    (htype : M.classify type = .ok (.int bits')) (hne : bits ≠ bits') : M.typeOf v = .ok type := by
  rcases intCast_cases h with htyped | ⟨rfl, rfl, own, source, target, hown,
    hsource, htarget, hsame⟩
  · exact hend.typeOf htyped
  · obtain ⟨own', hown', hclass⟩ := classOf_eq_ok_iff.mp hvalue
    obtain rfl := Except.ok.inj ((hend.typeOf hown).symm.trans hown')
    obtain rfl := Except.ok.inj ((hend.classify hsource).symm.trans hclass)
    obtain rfl := Except.ok.inj ((hend.classify htarget).symm.trans htype)
    exact absurd (TypeClass.int.inj (hsame rfl)) hne

end Types

section Addresses

/-- An instruction whose value is an address. -/
theorem address_pointsTo {inst : Inst} (hphi : inst.isPhi = false)
    (hstore : inst.destination? = none)
    (h : (do pushInst (← pointerType type) inst : Build ValueId) m = .ok v m')
    (hend : m'.Evolves Change.Any M) : M.PointsTo v type := by
  obtain ⟨pointer, m₁, hpointer, hpush⟩ := bind_eq_ok_iff.mp h
  have hkeeps : Keeps (Module.Evolves Change.Any) (pushInst pointer inst) :=
    compute_keeps hphi hstore
  exact ⟨pointer, hend.typeOf (pushInst_typeOf hpush),
    pointerType_type hpointer ((hkeeps.run hpush).trans hend)⟩

theorem structGep_classOf {index : Nat} (h : structGep type value index m = .ok v m')
    (hend : m'.Evolves Change.Any M) : M.classOf v = .ok .pointer := by
  simp only [structGep, bind_eq_ok_iff (x := query _)] at h
  obtain ⟨found, m₁, -, h⟩ := h
  cases found with
  | some member =>
      obtain ⟨_, m₂, -, h⟩ := bind_eq_ok_iff.mp h
      exact (address_pointsTo rfl rfl h hend).classOf
  | none =>
      simp only [bind_eq_ok_iff (x := record _), bind_eq_ok_iff (x := intType _)] at h
      obtain ⟨_, m₂, -, byte, m₃, -, h⟩ := h
      exact (address_pointsTo rfl rfl h hend).classOf

theorem gep_pointsTo {index : ValueId} (h : gep type value index m = .ok v m')
    (hend : m'.Evolves Change.Any M) : M.PointsTo v type := by
  simp only [gep, bind_eq_ok_iff (x := query _)] at h
  obtain ⟨cls, m₁, -, h⟩ := h
  split at h
  · obtain ⟨_, m₂, -, h⟩ := bind_eq_ok_iff.mp h
    exact address_pointsTo rfl rfl h hend
  · exact address_pointsTo rfl rfl h hend

theorem heapAlloc_classOf {count : Option ValueId} (h : heapAlloc type count m = .ok v m')
    (hend : m'.Evolves Change.Any M) : M.classOf v = .ok .pointer :=
  (address_pointsTo rfl rfl h hend).classOf

theorem constString_classOf {text : String} (h : constString text m = .ok v m')
    (hend : m'.Evolves Change.Any M) : M.classOf v = .ok .pointer := by
  simp only [constString, bind_eq_ok_iff, get_eq_ok_iff, modify_eq_ok_iff, pure_eq_ok_iff] at h
  obtain ⟨byte, m₁, -, content, m₂, -, bytes, m₃, -, _, _, ⟨rfl, rfl⟩,
    _, _, rfl, pointer, m₄, hpointer, global, m₅, hpush, _, _, rfl, rfl, rfl⟩ := h
  have htype := intern_type hpointer
  have hvalue := pushValue_typeOf hpush
  cases hpush
  exact classOf_eq_ok_iff.mpr ⟨pointer, hend.typeOf hvalue,
    hend.classify (classify_eq_ok_iff.mpr ⟨_, htype, rfl⟩)⟩

end Addresses

section Calls

theorem buildCall_cases {callee : Callee} {args : List ValueId} {value : Option ValueId}
    (h : buildCall type callee args m = .ok value m') :
    (∃ data, m.types[type.index]? = some data ∧ (∀ result params, data ≠ .function result params) ∧
      value = none) ∨
    ∃ result params cls, m.types[type.index]? = some (.function result params) ∧
      m'.classify result = .ok cls ∧
      (cls = .void ∧ value = none ∨ cls ≠ .void ∧ ∃ v, value = some v ∧
        m'.typeOf v = .ok result) := by
  simp only [buildCall, bind_eq_ok_iff (x := query _), query_eq_ok_iff] at h
  obtain ⟨signature, t, ⟨hsignature, hsame⟩, h⟩ := h
  subst t
  simp only [Module.signature?, typeData, exceptBind_eq_ok_iff, Arena.entry_eq_ok_iff] at hsignature
  obtain ⟨data, hdata, hsignature⟩ := hsignature
  cases signature with
  | none =>
      simp only [bind_eq_ok_iff, pure_eq_ok_iff] at h
      obtain ⟨_, _, -, _, _, -, _, _, -, rfl, -⟩ := h
      refine .inl ⟨data, hdata, fun result params hfunction => ?_, rfl⟩
      subst hfunction
      cases hsignature
  | some signature =>
      obtain ⟨result, params⟩ := signature
      obtain rfl : data = .function result params := by
        cases data <;> cases hsignature
        rfl
      have hlast {m₁ : Module} (h : (do
          let value ← pushInst result (.call callee args)
          return if (← query (·.classify result)) = .void then none else some value :
          Build (Option ValueId)) m₁ = .ok value m') :
          ∃ cls, m'.classify result = .ok cls ∧ (cls = .void ∧ value = none ∨
            cls ≠ .void ∧ ∃ v, value = some v ∧ m'.typeOf v = .ok result) := by
        simp only [bind_eq_ok_iff, query_eq_ok_iff, pure_eq_ok_iff] at h
        obtain ⟨v, m₂, hpush, cls, _, ⟨hcls, rfl⟩, rfl, rfl⟩ := h
        refine ⟨cls, hcls, ?_⟩
        by_cases hvoid : cls = .void
        · exact .inl ⟨hvoid, if_pos hvoid⟩
        · exact .inr ⟨hvoid, v, if_neg hvoid, pushInst_typeOf hpush⟩
      dsimp only at h
      obtain ⟨cls, hcls⟩ : ∃ cls, _ := by
        split at h <;>
        · obtain ⟨_, m₁, -, h⟩ := bind_eq_ok_iff.mp h
          exact hlast h
      exact .inr ⟨result, params, cls, hdata, hcls⟩

theorem call_cases {f : FunctionId} {args : List ValueId} {value : Option ValueId}
    (h : call f args m = .ok value m') : ∃ name type,
      m.functions[f.index]?.map Function.head = some (name, type) ∧
        buildCall type (.direct f) args m = .ok value m' := by
  simp only [call, bind_eq_ok_iff, query_eq_ok_iff, Module.function, Arena.entry_eq_ok_iff] at h
  obtain ⟨function, t, ⟨hfunction, hsame⟩, h⟩ := h
  subst t
  exact ⟨function.name, function.type, by rw [hfunction]; rfl, h⟩

theorem callIndirect_cases {callee : ValueId} {args : List ValueId} {value : Option ValueId}
    (h : callIndirect type callee args m = .ok value m') :
    ∃ m₁, buildCall type (.indirect type callee) args m₁ = .ok value m' := by
  simp only [callIndirect, bind_eq_ok_iff (x := query _), query_eq_ok_iff] at h
  obtain ⟨own, t, ⟨-, hsame⟩, pointee, t', ⟨-, hsame'⟩, h⟩ := h
  subst t' t
  split at h
  · obtain ⟨_, m₁, -, h⟩ := bind_eq_ok_iff.mp h
    exact ⟨m₁, h⟩
  · exact ⟨m, h⟩

theorem buildCall_result {callee : Callee} {args : List ValueId} {value : Option ValueId}
    {result : TypeId} {params : List TypeId} (h : buildCall type callee args m = .ok value m')
    (hend : m'.Evolves Change.Any M)
    (htype : M.types[type.index]? = some (.function result params)) :
    ∃ cls, M.classify result = .ok cls ∧
      (cls = .void ∧ value = none ∨ cls ≠ .void ∧ ∃ v, value = some v ∧
        M.typeOf v = .ok result) := by
  have hall :=
    ((inferInstance : Keeps (Evolves Change.Any) (buildCall type callee args)).run h).trans hend
  rcases buildCall_cases h with ⟨data, hdata, hnone, -⟩ | ⟨result', params',
    cls, hdata, hcls, hvalue⟩
  all_goals
    obtain ⟨data', hdata', hrefines⟩ := Evolves.type hall hdata
    obtain rfl := Option.some.inj (htype.symm.trans hdata')
    rcases hrefines with heq | ⟨_, _, _, _, -, heq⟩
  · exact absurd heq.symm (hnone _ _)
  · cases heq
  · cases heq
    refine ⟨cls, hend.classify hcls, hvalue.imp_right fun ⟨hnot, v, heq, hv⟩ => ?_⟩
    exact ⟨hnot, v, heq, hend.typeOf hv⟩
  · cases heq

theorem call_result {f : FunctionId} {args : List ValueId} {value : Option ValueId} {name : String}
    {result : TypeId} {params : List TypeId} (h : call f args m = .ok value m')
    (hend : m'.Evolves Change.Any M)
    (hhead : M.functions[f.index]?.map Function.head = some (name, type))
    (htype : M.types[type.index]? = some (.function result params)) :
    ∃ cls, M.classify result = .ok cls ∧
      (cls = .void ∧ value = none ∨ cls ≠ .void ∧ ∃ v, value = some v ∧
        M.typeOf v = .ok result) := by
  obtain ⟨name', type', hhead', hcall⟩ := call_cases h
  have hall := ((inferInstance : Keeps (Evolves Change.Any) (call f args)).run h).trans hend
  cases (Evolves.functionHead hall hhead').symm.trans hhead
  exact buildCall_result hcall hend htype

theorem callIndirect_result {callee : ValueId} {args : List ValueId} {value : Option ValueId}
    {result : TypeId} {params : List TypeId} (h : callIndirect type callee args m = .ok value m')
    (hend : m'.Evolves Change.Any M)
    (htype : M.types[type.index]? = some (.function result params)) :
    ∃ cls, M.classify result = .ok cls ∧
      (cls = .void ∧ value = none ∨ cls ≠ .void ∧ ∃ v, value = some v ∧
        M.typeOf v = .ok result) := by
  obtain ⟨m₁, hcall⟩ := callIndirect_cases h
  exact buildCall_result hcall hend htype

end Calls

end Ssa.Build

open Build Module in
/-- A comparison of any operands is a single bit. -/
theorem Lowering.Emit.compareValues_classOf {asm : Assembly} {m m' M : Module} {lhs rhs : Element}
    {v : ValueId} {relation : Relation} {unsigned : Bool}
    (h : compareValues asm relation unsigned lhs rhs m = .ok v m')
    (hend : m'.Evolves Change.Any M) : M.classOf v = .ok (.int 1) := by
  simp only [compareValues] at h
  split at h
  · simp only [compareFloats, bind_eq_ok_iff] at h
    obtain ⟨type, m₁, -, lhsSigned, m₂, -, left, m₃, -, rhsSigned, m₄, -, right, m₅, -, h⟩ := h
    exact fcmp_classOf h hend
  · simp only [bind_eq_ok_iff] at h
    obtain ⟨leftClass, m₁, -, rightClass, m₂, -, h⟩ := h
    split at h
    · split at h <;>
      · obtain ⟨right, m₃, -, h⟩ := bind_eq_ok_iff.mp h
        exact icmp_classOf h hend
    · simp only [bind_eq_ok_iff] at h
      obtain ⟨⟨l, r, left, right⟩, m₃, -, ⟨l', r'⟩, m₄, -, h⟩ := h
      exact icmp_classOf h hend

end CilSsa
