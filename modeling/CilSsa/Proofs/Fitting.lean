import CilSsa.Proofs.CompleteTypes
import CilSsa.Proofs.Conversion
import CilSsa.Proofs.Misuses

/-!
Values that fit where they are stored.

A value is brought to a type by a conversion, if there is one for the two classes.  What is
said here about a value is said about the module in the end, since neither its type nor the
class of a type ever changes.
-/

namespace CilSsa

open Ssa Metadata Lowering

namespace Ssa.Module

variable {m m' : Module} {P : Change → Prop} {value pointer : ValueId} {type own : TypeId}

theorem typeOf_eq_ok_iff : m.typeOf value = .ok type ↔
    ∃ kind, m.values[value.index]? = some ⟨type, kind⟩ := by
  simp only [typeOf, Module.value, exceptBind_eq_ok_iff, Arena.entry_eq_ok_iff,
    exceptPure_eq_ok_iff]
  constructor
  · rintro ⟨⟨own, kind⟩, hvalue, rfl⟩
    exact ⟨kind, hvalue⟩
  · rintro ⟨kind, hvalue⟩
    exact ⟨_, hvalue, rfl⟩

theorem classify_eq_ok_iff {cls : TypeClass} : m.classify type = .ok cls ↔
    ∃ data, m.types[type.index]? = some data ∧ data.classify = cls := by
  simp only [classify, typeData, exceptBind_eq_ok_iff, Arena.entry_eq_ok_iff, exceptPure_eq_ok_iff]
  simp only [eq_comm]

theorem classOf_eq_ok_iff {cls : TypeClass} : m.classOf value = .ok cls ↔
    ∃ own, m.typeOf value = .ok own ∧ m.classify own = .ok cls := by
  simp only [classOf, exceptBind_eq_ok_iff]

theorem Evolves.classOf {cls : TypeClass} (h : m.Evolves P m')
    (hclass : m.classOf value = .ok cls) :
    m'.classOf value = .ok cls := by
  obtain ⟨own, hown, hcls⟩ := classOf_eq_ok_iff.mp hclass
  exact classOf_eq_ok_iff.mpr ⟨own, h.typeOf hown, h.classify hcls⟩

/-- Values of the one type are left alone when they should be brought to the other. -/
def Unconverted (m : Module) (own type : TypeId) : Prop :=
  ∃ source target, m.classify own = .ok source ∧ m.classify type = .ok target ∧
    ∀ signed, conversion? signed source target = none

def Suits (m : Module) (value : ValueId) (type : TypeId) : Prop :=
  ∃ own, m.typeOf value = .ok own ∧ (own = type ∨ m.Unconverted own type)

def PointsTo (m : Module) (pointer : ValueId) (type : TypeId) : Prop :=
  ∃ own, m.typeOf pointer = .ok own ∧ m.types[own.index]? = some (.pointer type)

theorem Suits.of_typeOf (h : m.typeOf value = .ok type) : m.Suits value type := ⟨type, h, .inl rfl⟩

end Ssa.Module

namespace Lowering

theorem conversion?_int_eq_none_iff {signed : Bool} {bits bits' : Nat} :
    conversion? signed (.int bits) (.int bits') = none ↔ bits = bits' := by
  simp only [conversion?]
  split
  · simp
    omega
  · split <;> simp <;> omega

theorem conversion?_signed {signed signed' : Bool} {source target : TypeClass}
    (h : conversion? signed source target = none) : conversion? signed' source target = none := by
  cases source <;> cases target
  case int.int => exact conversion?_int_eq_none_iff.mpr (conversion?_int_eq_none_iff.mp h)
  all_goals first | rfl | simp [conversion?, coercion?] at h

/-- What is not converted to integers of one width is not converted to those of any other,
unless it is an integer. -/
theorem conversion?_int {signed : Bool} {source : TypeClass} {bits bits' : Nat}
    (h : conversion? signed source (.int bits) = none) (hint : source.isInt = false) :
    conversion? signed source (.int bits') = none := by
  cases source <;> simp_all [conversion?, coercion?, TypeClass.isInt]

end Lowering

namespace Ssa.Build

open Ssa.Module

variable {m m' M : Module} {v value : ValueId} {type : TypeId}

/-- An instruction has the type that it was added with. -/
theorem pushInst_typeOf {inst : Inst} (h : pushInst type inst m = .ok v m') :
    m'.typeOf v = .ok type := by
  obtain ⟨m₁, -, rfl, rfl, -⟩ := pushInst_cases h
  refine typeOf_eq_ok_iff.mpr ⟨.inst m.position inst, ?_⟩
  cases m.position <;> simp [Module.apply, Module.pushValue]

theorem pushValue_typeOf {kind : ValueKind} (h : pushValue type kind m = .ok v m') :
    m'.typeOf v = .ok type := by
  cases h
  exact typeOf_eq_ok_iff.mpr ⟨kind, by simp⟩

theorem cast_typeOf {op : CastOp} (h : cast op value type m = .ok v m') :
    m'.typeOf v = .ok type := by
  obtain ⟨m₁, -, hpush⟩ := cast_eq_ok h
  exact pushInst_typeOf hpush

theorem load_typeOf {pointer : ValueId} (h : load type pointer m = .ok v m') :
    m'.typeOf v = .ok type := by
  simp only [load, bind_eq_ok_iff, query_eq_ok_iff] at h
  obtain ⟨cls, _, ⟨-, rfl⟩, h⟩ := h
  split at h
  · obtain ⟨_, m₁, -, hpush⟩ := bind_eq_ok_iff.mp h
    exact pushInst_typeOf hpush
  · exact pushInst_typeOf h

theorem unary_typeOf {op : UnaryOp} (h : unary op value m = .ok v m') :
    ∃ own, m.typeOf value = .ok own ∧ m'.typeOf v = .ok own := by
  simp only [unary, bind_eq_ok_iff, query_eq_ok_iff] at h
  obtain ⟨own, _, ⟨hown, rfl⟩, cls, _, ⟨-, rfl⟩, h⟩ := h
  split at h
  · obtain ⟨_, m₁, -, hpush⟩ := bind_eq_ok_iff.mp h
    exact ⟨own, hown, pushInst_typeOf hpush⟩
  · exact ⟨own, hown, pushInst_typeOf h⟩

/-- Storage is pointed to as what it holds. -/
theorem alloca_pointsTo (h : alloca type m = .ok v m') : m'.PointsTo v type := by
  obtain ⟨pointer, m₁, htype, hpush⟩ := bind_eq_ok_iff.mp h
  have hkeeps : Keeps (Module.Evolves Change.Any) (pushInst pointer (.alloca type)) :=
    compute_keeps rfl rfl
  exact ⟨pointer, pushInst_typeOf hpush, (hkeeps.run hpush).partsKept (intern_type htype) (by simp)⟩

/-- The ways of an integer cast: to a value of the type, or to nothing, where there is no cast or
the width is the same. -/
theorem intCast_cases {signed : Bool} (h : intCast value type signed m = .ok v m') :
    m'.typeOf v = .ok type ∨ v = value ∧ m' = m ∧ ∃ own source target, m.typeOf value = .ok own ∧
      m.classify own = .ok source ∧ m.classify type = .ok target ∧
      ((source.isInt && target.isInt) = true → source = target) := by
  simp only [intCast, bind_eq_ok_iff, query_eq_ok_iff] at h
  obtain ⟨own, _, ⟨hown, rfl⟩, h⟩ := h
  split at h
  · rename_i hsame
    obtain ⟨rfl, rfl⟩ := pure_eq_ok_iff.mp h
    exact .inl (hsame ▸ hown)
  · simp only [bind_eq_ok_iff, query_eq_ok_iff] at h
    obtain ⟨source, _, ⟨hsource, rfl⟩, target, _, ⟨htarget, rfl⟩, h⟩ := h
    split at h
    · rename_i a b
      split at h
      · exact .inl (cast_typeOf h)
      · rename_i hle
        split at h
        · exact .inl (cast_typeOf h)
        · rename_i hge
          obtain ⟨rfl, rfl⟩ := pure_eq_ok_iff.mp h
          have hsame : a = b := by omega
          exact .inr ⟨rfl, rfl, own, _, _, hown, hsource, htarget, fun _ => by rw [hsame]⟩
    · rename_i hnot
      obtain ⟨rfl, rfl⟩ := pure_eq_ok_iff.mp h
      refine .inr ⟨rfl, rfl, own, source, target, hown, hsource, htarget, fun hints => ?_⟩
      cases source with
      | int a => cases target with
        | int b => exact (hnot a b rfl rfl).elim
        | _ => cases hints
      | _ => cases hints

end Ssa.Build

namespace Lowering

open Build Module

variable {m m' M : Module} {v value : ValueId} {type : TypeId} {signed : Bool}

/-- A value is brought to a type as far as there is a conversion. -/
theorem coerce_suits (h : coerce value type signed m = .ok v m') (hend : m'.Evolves Change.Any M) :
    M.Suits v type := by
  obtain ⟨own, hown, ⟨rfl, rfl, rfl⟩ | ⟨-, source, target, hsource, htarget, hways⟩⟩ :=
    coerce_eq_ok h
  · exact .of_typeOf (hend.typeOf hown)
  · rcases hways with ⟨op, -, hcast⟩ | ⟨hnone, rfl, rfl⟩
    · exact .of_typeOf (hend.typeOf (cast_typeOf hcast))
    · exact ⟨own, hend.typeOf hown, .inr ⟨source, target, hend.classify hsource,
        hend.classify htarget, fun _ => conversion?_signed hnone⟩⟩

theorem intCast_suits {from_ : TypeId} {bits bits' : Nat}
    (h : intCast value type signed m = .ok v m') (hend : m'.Evolves Change.Any M)
    (hvalue : M.Suits value from_) (hfrom : M.classify from_ = .ok (.int bits))
    (htype : M.classify type = .ok (.int bits')) : M.Suits v type := by
  rcases intCast_cases h with hsame | ⟨rfl, rfl, own, source, target, hown, hsource, htarget, hsame⟩
  · exact .of_typeOf (hend.typeOf hsame)
  · obtain rfl := Except.ok.inj ((hend.classify htarget).symm.trans htype)
    refine ⟨own, hend.typeOf hown, .inr ⟨source, .int bits', hend.classify hsource, htype,
      fun signed => ?_⟩⟩
    by_cases hint : source.isInt = true
    · obtain rfl := hsame (by rw [hint]; rfl)
      exact conversion?_int_eq_none_iff.mpr rfl
    · obtain ⟨own', hown', hvalue⟩ := hvalue
      obtain rfl := Except.ok.inj ((hend.typeOf hown).symm.trans hown')
      rcases hvalue with rfl | ⟨source', target', hsource', htarget', hnone⟩
      · obtain rfl := Except.ok.inj ((hend.classify hsource).symm.trans hfrom)
        exact absurd rfl hint
      · obtain rfl := Except.ok.inj ((hend.classify hsource).symm.trans hsource')
        obtain rfl := Except.ok.inj (hfrom.symm.trans htarget')
        exact conversion?_int (hnone signed) (Bool.eq_false_iff.mpr hint)

end Lowering

section Misuse

namespace Ssa

variable {m m' M : Module} {f : FunctionId} {v value pointer lhs rhs : ValueId} {type : TypeId}

/-- Code is added to a block of the function. -/
def Module.Here (f : FunctionId) (m : Module) : Prop := ∃ b, m.position = some b ∧ m.Owns f b

/-- The function does not answer for any misuse, apart from the use of its name. -/
def Module.Blameless (m : Module) (f : FunctionId) : Prop :=
  ∀ misuse, (some f, misuse) ∈ m.misuses → ∃ name, misuse = .functionTwice name

theorem Module.Here.evolves {P : Change → Prop} (hhere : m.Here f) (h : m.Evolves P m')
    (hP : ∀ c, P c → c.isStaying = true) : m'.Here f := by
  obtain ⟨b, hposition, hb⟩ := hhere
  refine ⟨b, (h.position fun c hc b heq => ?_).trans hposition, h.owns hb⟩
  exact Bool.noConfusion (heq ▸ hP c hc)

namespace Build

open Ssa.Module

theorem not_record {misuse : Misuse} {u : Unit} (h : record misuse m = .ok u m') (hhere : m.Here f)
    (hend : m'.Evolves Change.Any M) (hclean : M.Blameless f)
    (hname : ∀ name, misuse ≠ .functionTwice name) : False := by
  obtain ⟨b, hposition, hb⟩ := hhere
  obtain ⟨function, hfunction, rfl⟩ := record_eq_ok_iff.mp h
  obtain rfl := Except.ok.inj ((currentFunction_of_owns hposition hb).symm.trans hfunction)
  obtain ⟨name, rfl⟩ := hclean misuse (hend.mem_misuses (Array.mem_push.mpr (.inr rfl)))
  exact hname name rfl

theorem intType_classify {bits : Nat} (h : intType bits m = .ok type m')
    (hend : m'.Evolves Change.Any M) : M.classify type = .ok (.int bits) :=
  hend.classify (classify_eq_ok_iff.mpr ⟨_, intern_type h, rfl⟩)

theorem pointerType_type {pointee : TypeId} (h : pointerType pointee m = .ok type m')
    (hend : m'.Evolves Change.Any M) : M.types[type.index]? = some (.pointer pointee) :=
  hend.partsKept (intern_type h) (by simp)

/-- An operation has the type of its first operand. -/
theorem binary_typeOf {op : BinaryOp} (h : binary op lhs rhs m = .ok v m') :
    ∃ own, m.typeOf lhs = .ok own ∧ m'.typeOf v = .ok own := by
  simp only [binary, bind_eq_ok_iff, query_eq_ok_iff] at h
  obtain ⟨own, _, ⟨hown, rfl⟩, cls, _, ⟨-, rfl⟩, other, _, ⟨-, rfl⟩, h⟩ := h
  refine ⟨own, hown, ?_⟩
  split at h
  · obtain ⟨_, m₁, -, hpush⟩ := bind_eq_ok_iff.mp h
    exact pushInst_typeOf hpush
  · split at h
    · obtain ⟨_, m₁, -, hpush⟩ := bind_eq_ok_iff.mp h
      exact pushInst_typeOf hpush
    · exact pushInst_typeOf h

theorem binary_operands {op : BinaryOp} (h : binary op lhs rhs m = .ok v m') (hhere : m.Here f)
    (hend : m'.Evolves Change.Any M) (hclean : M.Blameless f) :
    ∃ own, m.typeOf lhs = .ok own ∧ m.typeOf rhs = .ok own := by
  simp only [binary, bind_eq_ok_iff, query_eq_ok_iff] at h
  obtain ⟨own, _, ⟨hown, rfl⟩, cls, _, ⟨-, rfl⟩, other, _, ⟨hother, rfl⟩, h⟩ := h
  split at h
  · obtain ⟨_, m₁, hrecord, hpush⟩ := bind_eq_ok_iff.mp h
    have hkeeps : Keeps (Module.Evolves Change.Any) (pushInst own (.binary op lhs rhs)) :=
      compute_keeps rfl rfl
    exact (not_record hrecord hhere ((hkeeps.run hpush).trans hend) hclean (by simp)).elim
  · rename_i hsame
    exact ⟨own, hown, by rw [hother, of_not_not hsame]⟩

/-- The address of a member that there is. -/
theorem structGep_pointsTo {index : Nat} (h : structGep type pointer index m = .ok v m')
    (hhere : m.Here f) (hend : m'.Evolves Change.Any M) (hclean : M.Blameless f) :
    ∃ name body packed member, M.types[type.index]? = some (.struct name (some body) packed) ∧
      body[index]? = some member ∧ M.PointsTo v member := by
  have hpush_keeps (result : TypeId) :
      Keeps (Module.Evolves Change.Any) (pushInst result (.structGep type pointer index)) :=
    compute_keeps rfl rfl
  simp only [structGep, bind_eq_ok_iff, query_eq_ok_iff] at h
  obtain ⟨found, _, ⟨hfound, rfl⟩, h⟩ := h
  cases found with
  | some member =>
      simp only [bind_eq_ok_iff, pure_eq_ok_iff] at h
      obtain ⟨given, _, ⟨rfl, rfl⟩, result, m₁, hresult, hpush⟩ := h
      have hfirst :=
        (inferInstance : Keeps (Module.Evolves Change.Any) (pointerType given)).run hresult
      have hlast := ((hpush_keeps result).run hpush).trans hend
      simp only [member?, structBody?, typeData, exceptBind_eq_ok_iff,
        Arena.entry_eq_ok_iff] at hfound
      obtain ⟨body?, ⟨data, hdata, hbody⟩, hfound⟩ := hfound
      split at hbody
      · rename_i name body packed
        obtain rfl := exceptPure_eq_ok_iff.mp hbody
        exact ⟨name, body, packed, given, Evolves.partsKept (hfirst.trans hlast) hdata (by simp),
          (exceptPure_eq_ok_iff.mp hfound).symm, result, hend.typeOf (pushInst_typeOf hpush),
          pointerType_type hresult hlast⟩
      · obtain rfl := exceptPure_eq_ok_iff.mp hbody
        exact absurd (exceptPure_eq_ok_iff.mp hfound).symm (by simp)
  | none =>
      obtain ⟨_, m₁, hrecord, hrest⟩ := bind_eq_ok_iff.mp h
      have hkeeps : Keeps (Module.Evolves Change.Any) (do
          let member ← intType 8
          pushInst (← pointerType member) (.structGep type pointer index)) := inferInstance
      exact (not_record hrecord hhere ((hkeeps.run hrest).trans hend) hclean (by simp)).elim

theorem store_classOf {isVolatile : Bool} {u : Unit}
    (h : store pointer value isVolatile m = .ok u m') (hhere : m.Here f)
    (hend : m'.Evolves Change.Any M) (hclean : M.Blameless f) :
    M.classOf pointer = .ok .pointer := by
  obtain ⟨hlt, -⟩ := store_cases (P := Change.Any) h
  have hall := ((inferInstance : Keeps (Module.Evolves Change.Any)
    (store pointer value isVolatile)).run h).trans hend
  simp only [store, bind_eq_ok_iff, query_eq_ok_iff] at h
  obtain ⟨cls, _, ⟨hcls, rfl⟩, h⟩ := h
  cases hpointer : cls.isPointer with
  | true =>
      obtain rfl : cls = .pointer := by
        cases cls with
        | pointer => rfl
        | _ => cases hpointer
      exact Evolves.classOf hall hcls
  | false =>
      simp only [hpointer, Bool.not_false, if_true, bind_eq_ok_iff, pure_eq_ok_iff] at h
      obtain ⟨_, m₁, hrecord, void, m₂, hvoid, v, m₃, hpush, -, rfl⟩ := h
      have hvoided := (inferInstance : Keeps (Module.Evolves Change.Any) voidType).run hvoid
      have hrecorded := (inferInstance :
        Keeps (Module.Evolves Change.Any) (record .storeToNonPointer)).run hrecord
      have hlt₂ : pointer.index < m₂.values.size :=
        Nat.lt_of_lt_of_le hlt (Evolves.values_le (hrecorded.trans hvoided))
      have hpushed : m₂.Evolves Change.Any m' := pushInst_evolves hpush rfl (fun _ => trivial)
        fun p hp => Option.some.inj hp ▸ hlt₂
      exact (not_record hrecord hhere ((hvoided.trans hpushed).trans hend) hclean (by simp)).elim

/-- An instruction whose value is a single bit. -/
theorem bit_classOf {inst : Inst} (hphi : inst.isPhi = false) (hstore : inst.destination? = none)
    (h : (do pushInst (← intType 1) inst : Build ValueId) m = .ok v m')
    (hend : m'.Evolves Change.Any M) : M.classOf v = .ok (.int 1) := by
  obtain ⟨type, m₁, htype, hpush⟩ := bind_eq_ok_iff.mp h
  have hkeeps : Keeps (Module.Evolves Change.Any) (pushInst type inst) := compute_keeps hphi hstore
  exact classOf_eq_ok_iff.mpr ⟨type, hend.typeOf (pushInst_typeOf hpush),
    intType_classify htype ((hkeeps.run hpush).trans hend)⟩

theorem icmp_classOf {pred : IntPredicate} (h : icmp pred lhs rhs m = .ok v m')
    (hend : m'.Evolves Change.Any M) : M.classOf v = .ok (.int 1) := by
  simp only [icmp, bind_eq_ok_iff (x := query _), query_eq_ok_iff] at h
  obtain ⟨type, _, ⟨-, rfl⟩, cls, _, ⟨-, rfl⟩, other, _, ⟨-, rfl⟩, h⟩ := h
  split at h
  · obtain ⟨_, m₁, -, h⟩ := bind_eq_ok_iff.mp h
    exact bit_classOf rfl rfl h hend
  · exact bit_classOf rfl rfl h hend

theorem fcmp_classOf {pred : FloatPredicate} (h : fcmp pred lhs rhs m = .ok v m')
    (hend : m'.Evolves Change.Any M) : M.classOf v = .ok (.int 1) := by
  simp only [fcmp, bind_eq_ok_iff (x := query _), query_eq_ok_iff] at h
  obtain ⟨type, _, ⟨-, rfl⟩, other, _, ⟨-, rfl⟩, h⟩ := h
  split at h
  · obtain ⟨_, m₁, -, h⟩ := bind_eq_ok_iff.mp h
    exact bit_classOf rfl rfl h hend
  · simp only [bind_eq_ok_iff (x := query _), query_eq_ok_iff] at h
    obtain ⟨cls, _, ⟨-, rfl⟩, h⟩ := h
    split at h
    · obtain ⟨_, m₁, -, h⟩ := bind_eq_ok_iff.mp h
      exact bit_classOf rfl rfl h hend
    · exact bit_classOf rfl rfl h hend

end Build

end Ssa

end Misuse

end CilSsa
