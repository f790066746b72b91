import CilSsa.Proofs.Fitting
import CilSsa.Proofs.Rounding

/-!
What the values of a module come to when its code runs.

Numbers come to what they are at their type, and conversions of numbers to what the machine makes of
them.  Nothing is assumed about all other values, so whatever is said here holds of every run.
-/

namespace CilSsa

open Ssa Metadata Lowering Numeric

namespace Numeric

namespace Binary64

/-- A number as a format with so many bits keeps it. -/
def keptIn (bits : Nat) (x : Binary64) : Binary64 := if bits = 32 then x.toSingle else x

/-- The number nearest to an integer in the format with so many bits. -/
def nearest (bits : Nat) (n : Int) : Binary64 :=
  (if bits = 32 then BinaryFormat.single else .double).round (decide (n < 0)) n.natAbs 1

def isNegative : Binary64 → Bool
  | .nan => false
  | .infinite negative => negative
  | .finite negative _ _ => negative

theorem isNegative_canonical (negative : Bool) (mantissa : Nat) (exponent : Int) :
    (canonical negative mantissa exponent).isNegative = negative := by
  unfold canonical
  split <;> rfl

theorem isNegative_round (f : BinaryFormat) (negative : Bool) (num den : Nat) :
    (f.round negative num den).isNegative = negative := by
  simp only [BinaryFormat.round]
  split_ifs <;> first | rfl | exact isNegative_canonical ..

theorem isNegative_nearest (bits : Nat) (n : Int) : (nearest bits n).isNegative = decide (n < 0) :=
  isNegative_round ..

theorem isNegative_keptIn (bits : Nat) (x : Binary64) :
    (x.keptIn bits).isNegative = x.isNegative := by
  unfold keptIn
  split
  · cases x with
    | finite negative mantissa exponent =>
        rw [toSingle]
        split <;> exact isNegative_round ..
    | _ => rfl
  · rfl

theorem isNegative_ofInt (n : Int) : (ofInt n).isNegative = decide (n < 0) := isNegative_round ..

theorem keptIn_keptIn (bits : Nat) (x : Binary64) :
    (x.keptIn bits).keptIn bits = x.keptIn bits := by
  unfold keptIn
  split
  · exact toSingle_toSingle x
  · rfl

end Binary64

end Numeric

namespace Ssa

/-- What a value comes to: the bits of an integer, a floating-point number, or something else. -/
inductive Datum where
  | bits {width : Nat} (n : BitVec width)
  | float (x : Binary64)
  | other (code : Nat)

/-- A run of code: what each value comes to that is no number, and what conversions come to that are
not between numbers. -/
structure Machine where
  result : ValueId → Datum
  convert : CastOp → TypeClass → Datum → Datum

/-- What a conversion comes to. -/
def Machine.cast (x : Machine) : CastOp → TypeClass → Datum → Datum
  | .trunc, .int width, .bits n => .bits (n.setWidth width)
  | .zext, .int width, .bits n => .bits (n.setWidth width)
  | .sext, .int width, .bits n => .bits (n.signExtend width)
  | .sitofp, .float width, .bits n => .float (.nearest width n.toInt)
  | .uitofp, .float width, .bits n => .float (.nearest width n.toNat)
  | .fpext, .float width, .float y => .float (y.keptIn width)
  | .fptrunc, .float width, .float y => .float (y.keptIn width)
  | op, target, datum => x.convert op target datum

def ValueKind.isNumber : ValueKind → Bool
  | .constInt _ | .constFloat _ => true
  | _ => false

def ValueKind.number? : TypeClass → ValueKind → Option Datum
  | .int width, .constInt n => some (.bits (BitVec.ofInt width n))
  | .float width, .constFloat y => some (.float (y.keptIn width))
  | _, _ => none

/-- Whether a number is one of a class, and an integer is in its range as one with a sign. -/
def ValueKind.FitsIn : TypeClass → ValueKind → Prop
  | .int width, .constInt n => (BitVec.ofInt width n).toInt = n
  | .float _, .constFloat _ => True
  | _, kind => kind.isNumber = false

/-- What a value comes to. -/
def Machine.meaning (x : Machine) (m : Module) (v : ValueId) : Datum :=
  match m.values[v.index]? with
  | some ⟨type, .inst _ (.cast op source)⟩ =>
      match m.classify type with
      | .ok target => if source.index < v.index then x.cast op target (x.meaning m source) else
          x.result v
      | .error _ => x.result v
  | some ⟨type, kind⟩ =>
      match m.classify type with
      | .ok cls => (kind.number? cls).getD (x.result v)
      | .error _ => x.result v
  | none => x.result v
termination_by v.index

section Meanings

variable {x : Machine} {m : Module} {v source : ValueId} {type : TypeId} {kind : ValueKind}
  {cls : TypeClass} {datum : Datum}

theorem meaning_number (hv : m.values[v.index]? = some ⟨type, kind⟩)
    (hcls : m.classify type = .ok cls) (hnumber : kind.number? cls = some datum) :
    x.meaning m v = datum := by
  rw [Machine.meaning, hv]
  cases kind with
  | inst => simp [ValueKind.number?] at hnumber
  | _ => simp [hcls, hnumber]

theorem meaning_cast {op : CastOp} {block : Option BlockId}
    (hv : m.values[v.index]? = some ⟨type, .inst block (.cast op source)⟩)
    (hcls : m.classify type = .ok cls) (hlt : source.index < v.index) :
    x.meaning m v = x.cast op cls (x.meaning m source) := by
  rw [Machine.meaning, hv]
  simp [hcls, hlt]

/-- Numbers stay as they are. -/
theorem Module.Evolves.number {P : Change → Prop} {m' : Module} (h : m.Evolves P m')
    (hv : m.values[v.index]? = some ⟨type, kind⟩) (hkind : kind.isNumber = true) :
    m'.values[v.index]? = some ⟨type, kind⟩ := by
  obtain ⟨⟨type', kind'⟩, hv', htype, hlike⟩ := h.like hv
  obtain rfl : type' = type := htype
  cases hlike with
  | same => exact hv'
  | phi => cases hkind
  | global => cases hkind

end Meanings

end Ssa

namespace Lowering

variable {x : Machine} {m m' : Module} {signed : Bool} {value v c : ValueId} {type own : TypeId}
  {source target : TypeClass}

section Conversions

/-- What a value comes to that is brought to a type when the code runs. -/
def meaningAt (x : Machine) (m : Module) (signed : Bool) (value : ValueId) (type : TypeId) :
    Datum :=
  match m.typeOf value with
  | .ok own =>
      if own = type then x.meaning m value
      else
        match m.classify own, m.classify type with
        | .ok source, .ok target =>
            match conversion? signed source target with
            | some op => x.cast op target (x.meaning m value)
            | none => x.meaning m value
        | _, _ => x.meaning m value
  | .error _ => x.meaning m value

theorem meaningAt_same (hown : m.typeOf value = .ok type) :
    meaningAt x m signed value type = x.meaning m value := by
  simp [meaningAt, hown]

theorem meaningAt_eq (hown : m.typeOf value = .ok own) (hne : own ≠ type)
    (hsource : m.classify own = .ok source) (htarget : m.classify type = .ok target) :
    meaningAt x m signed value type = match conversion? signed source target with
      | some op => x.cast op target (x.meaning m value)
      | none => x.meaning m value := by
  simp [meaningAt, hown, hne, hsource, htarget]

/-- The value that stands for another at a type: the other one, or an
instruction that converts it. -/
inductive BroughtTo (m : Module) (signed : Bool) (value : ValueId) (type : TypeId) :
    ValueId → Prop where
  | same (hown : m.typeOf value = .ok type) : BroughtTo m signed value type value
  | kept {own : TypeId} {source target : TypeClass} (hown : m.typeOf value = .ok own)
      (hne : own ≠ type) (hsource : m.classify own = .ok source)
      (htarget : m.classify type = .ok target) (hop : conversion? signed source target = none) :
      BroughtTo m signed value type value
  | converted {own : TypeId} {source target : TypeClass} {op : CastOp} {v : ValueId}
      {block : Option BlockId} (hown : m.typeOf value = .ok own) (hne : own ≠ type)
      (hsource : m.classify own = .ok source) (htarget : m.classify type = .ok target)
      (hop : conversion? signed source target = some op)
      (hv : m.values[v.index]? = some ⟨type, .inst block (.cast op value)⟩)
      (hlt : value.index < v.index) : BroughtTo m signed value type v

theorem BroughtTo.mono (h : BroughtTo m signed value type v) (hevolves : m.Evolves Change.Any m') :
    BroughtTo m' signed value type v := by
  cases h with
  | same hown => exact .same (hevolves.typeOf hown)
  | kept hown hne hsource htarget hop =>
      exact .kept (hevolves.typeOf hown) hne (hevolves.classify hsource)
        (hevolves.classify htarget) hop
  | converted hown hne hsource htarget hop hv hlt =>
      exact .converted (hevolves.typeOf hown) hne (hevolves.classify hsource)
        (hevolves.classify htarget) hop (hevolves.cast hv) hlt

theorem BroughtTo.meaning_eq (h : BroughtTo m signed value type v) :
    x.meaning m v = meaningAt x m signed value type := by
  cases h with
  | same hown => rw [meaningAt_same hown]
  | kept hown hne hsource htarget hop => rw [meaningAt_eq hown hne hsource htarget, hop]
  | converted hown hne hsource htarget hop hv hlt =>
      rw [meaningAt_eq hown hne hsource htarget, hop, meaning_cast hv htarget hlt]

/-- A cast is an instruction behind its operand. -/
theorem cast_inst {op : CastOp} (h : Build.cast op value type m = .ok v m')
    (hlt : value.index < m.values.size) : value.index < v.index ∧
      ∃ block, m'.values[v.index]? = some ⟨type, .inst block (.cast op value)⟩ := by
  obtain ⟨m₀, hfirst, hpush⟩ := Build.cast_eq_ok h
  have hsize : m₀.values.size = m.values.size := by
    rcases hfirst with rfl | ⟨misuse, hrecord⟩
    · rfl
    · obtain ⟨function, -, rfl⟩ := Build.record_eq_ok_iff.mp hrecord
      rfl
  obtain ⟨m₁, hsecond, rfl, rfl, -⟩ := Build.pushInst_cases hpush
  have hsize' : m₁.values.size = m₀.values.size := by
    rcases hsecond with rfl | ⟨misuse, rfl, -⟩ <;> rfl
  refine ⟨by simpa [hsize', hsize] using hlt, m₀.position, ?_⟩
  cases m₀.position <;> simp [Module.apply, Module.pushValue]

theorem coerce_broughtTo (h : coerce value type signed m = .ok v m')
    (hlt : value.index < m.values.size) : BroughtTo m' signed value type v := by
  have hevolves : m.Evolves Change.Any m' :=
    (inferInstance : Keeps _ (coerce value type signed)).run h
  obtain ⟨own, hown, ⟨rfl, rfl, -⟩ | ⟨hne, source, target, hsource, htarget, hways⟩⟩ :=
    coerce_eq_ok h
  · exact .same (hevolves.typeOf hown)
  · have hown' := hevolves.typeOf hown
    have hsource' := hevolves.classify hsource
    have htarget' := hevolves.classify htarget
    rcases hways with ⟨op, hop, hcast⟩ | ⟨hop, rfl, -⟩
    · obtain ⟨hbehind, block, hv⟩ := cast_inst hcast hlt
      exact .converted hown' hne hsource' htarget' hop hv hbehind
    · exact .kept hown' hne hsource' htarget' hop

end Conversions

section Constants

/-- The constant of a type that stands for another constant: a number of the type, or the constant
itself. -/
inductive FoldsTo (m : Module) (value : ValueId) (type : TypeId) : ValueId → Prop where
  | int {own : TypeId} {n : Int} {width : Nat} {c : ValueId}
      (hvalue : m.values[value.index]? = some ⟨own, .constInt n⟩)
      (hclass : m.classify type = .ok (.int width))
      (hc : m.values[c.index]? = some ⟨type, .constInt n⟩) : FoldsTo m value type c
  | ofInt {own : TypeId} {n : Int} {width : Nat} {c : ValueId}
      (hvalue : m.values[value.index]? = some ⟨own, .constInt n⟩)
      (hclass : m.classify type = .ok (.float width))
      (hc : m.values[c.index]? = some ⟨type, .constFloat (.ofInt n)⟩) : FoldsTo m value type c
  | float {own : TypeId} {y : Binary64} {width : Nat} {c : ValueId}
      (hvalue : m.values[value.index]? = some ⟨own, .constFloat y⟩)
      (hclass : m.classify type = .ok (.float width))
      (hc : m.values[c.index]? = some ⟨type, .constFloat y⟩) : FoldsTo m value type c
  | same (hown : m.typeOf value = .ok type) : FoldsTo m value type value

theorem FoldsTo.mono {P : Change → Prop} (h : FoldsTo m value type c) (hevolves : m.Evolves P m') :
    FoldsTo m' value type c := by
  cases h with
  | int hvalue hclass hc =>
      exact .int (hevolves.number hvalue rfl) (hevolves.classify hclass)
        (hevolves.number hc rfl)
  | ofInt hvalue hclass hc =>
      exact .ofInt (hevolves.number hvalue rfl) (hevolves.classify hclass)
        (hevolves.number hc rfl)
  | float hvalue hclass hc =>
      exact .float (hevolves.number hvalue rfl) (hevolves.classify hclass)
        (hevolves.number hc rfl)
  | same hown => exact .same (hevolves.typeOf hown)

theorem constInt?_eq_some {n : Int} (h : m.constInt? v = .ok (some n)) :
    ∃ own, m.values[v.index]? = some ⟨own, .constInt n⟩ := by
  simp only [Module.constInt?, Module.value, exceptBind_eq_ok_iff, Arena.entry_eq_ok_iff] at h
  obtain ⟨⟨own, kind⟩, hv, h⟩ := h
  cases kind with
  | constInt =>
      obtain rfl := Option.some.inj (Except.ok.inj h)
      exact ⟨own, hv⟩
  | _ => cases h

theorem constFloat?_eq_some {y : Binary64} (h : m.constFloat? v = .ok (some y)) :
    ∃ own, m.values[v.index]? = some ⟨own, .constFloat y⟩ := by
  simp only [Module.constFloat?, Module.value, exceptBind_eq_ok_iff, Arena.entry_eq_ok_iff] at h
  obtain ⟨⟨own, kind⟩, hv, h⟩ := h
  cases kind with
  | constFloat =>
      obtain rfl := Option.some.inj (Except.ok.inj h)
      exact ⟨own, hv⟩
  | _ => cases h

/-- A constant that is made. -/
theorem pushed_constant {kind : ValueKind}
    (h : (some <$> Build.pushValue type kind : Build (Option ValueId)) m = .ok (some c) m') :
    m'.values[c.index]? = some ⟨type, kind⟩ := by
  obtain ⟨c', hpush, heq⟩ := map_eq_ok_iff.mp h
  obtain rfl := Option.some.inj heq
  cases hpush
  simp

/-- The constant for a store is one of the type, and stands for the value that is stored. -/
theorem foldsTo_of_constantAs? (h : Emit.constantAs? type value m = .ok (some c) m') :
    FoldsTo m' value type c ∧
      ∃ kind, m'.values[c.index]? = some ⟨type, kind⟩ ∧ kind.isConstant = true := by
  have hevolves : m.Evolves Change.Quiet m' :=
    (inferInstance : Keeps _ (Emit.constantAs? type value)).run h
  simp only [Emit.constantAs?, bind_eq_ok_iff, Build.query_eq_ok_iff] at h
  obtain ⟨target, _, ⟨htarget, rfl⟩, number, _, ⟨hint, rfl⟩, h⟩ := h
  have hclass := hevolves.classify htarget
  cases number with
  | some n =>
      obtain ⟨own, hvalue⟩ := constInt?_eq_some hint
      have hvalue' := hevolves.number hvalue rfl
      cases target with
      | int width =>
          have hc : m'.values[c.index]? = some ⟨type, .constInt n⟩ := pushed_constant h
          exact ⟨.int hvalue' hclass hc, _, hc, rfl⟩
      | float width =>
          have hc : m'.values[c.index]? = some ⟨type, .constFloat (.ofInt n)⟩ := pushed_constant h
          exact ⟨.ofInt hvalue' hclass hc, _, hc, rfl⟩
      | _ => cases (pure_eq_ok_iff.mp h).1
  | none =>
      simp only [bind_eq_ok_iff, Build.query_eq_ok_iff] at h
      obtain ⟨float, _, ⟨hfloat, rfl⟩, h⟩ := h
      cases float with
      | some y =>
          obtain ⟨own, hvalue⟩ := constFloat?_eq_some hfloat
          have hvalue' := hevolves.number hvalue rfl
          cases target with
          | float width =>
              have hc : m'.values[c.index]? = some ⟨type, .constFloat y⟩ := pushed_constant h
              exact ⟨.float hvalue' hclass hc, _, hc, rfl⟩
          | _ => cases (pure_eq_ok_iff.mp h).1
      | none =>
          simp only [bind_eq_ok_iff, Build.query_eq_ok_iff] at h
          obtain ⟨constant, _, ⟨hconstant, rfl⟩, own, _, ⟨hown, rfl⟩, h⟩ := h
          split at h
          · rename_i hfits
            obtain ⟨rfl, rfl⟩ : constant = true ∧ own = type := by simpa using hfits
            obtain ⟨heq, rfl⟩ := pure_eq_ok_iff.mp h
            obtain rfl := Option.some.inj heq
            obtain ⟨kind, hvalue⟩ := Module.typeOf_eq_ok_iff.mp hown
            refine ⟨.same hown, kind, hvalue, ?_⟩
            simp only [Module.isConstant, Module.value,
              Arena.entry_eq_ok_iff.mpr hvalue] at hconstant
            exact Except.ok.inj hconstant
          · cases (pure_eq_ok_iff.mp h).1

/-- Whether a constant is the same number at another type as what it is converted to. -/
def FoldsAlike (signed : Bool) : TypeClass → TypeClass → ValueKind → Prop
  | .int width, .int width', .constInt n => width' ≤ width ∨ (signed = true ∧ 1 < width) ∨ 0 ≤ n
  | .int _, .float width, .constInt n =>
      (signed = true ∨ 0 ≤ n) ∧ (Binary64.ofInt n).keptIn width = .nearest width n
  | .float width, .float width', .constFloat y => (y.keptIn width).keptIn width' = y.keptIn width'
  | _, _, _ => True

section Integers

variable {width width' : Nat} {n : Int}

theorem signExtend_ofInt (hfits : (BitVec.ofInt width n).toInt = n) :
    (BitVec.ofInt width n).signExtend width' = BitVec.ofInt width' n := by
  rw [BitVec.signExtend, hfits]

theorem setWidth_ofInt (hfits : (BitVec.ofInt width n).toInt = n) (hle : width' ≤ width) :
    (BitVec.ofInt width n).setWidth width' = BitVec.ofInt width' n := by
  rw [← BitVec.signExtend_eq_setWidth_of_le _ hle, signExtend_ofInt hfits]

theorem toNat_ofInt_iff (hfits : (BitVec.ofInt width n).toInt = n) :
    ((BitVec.ofInt width n).toNat : Int) = n ↔ 0 ≤ n := by
  rw [BitVec.toInt_eq_toNat_cond] at hfits
  split at hfits <;> omega

/-- An integer keeps its value when zeros fill it up, unless it is negative. -/
theorem setWidth_ofInt_iff (hfits : (BitVec.ofInt width n).toInt = n) (hlt : width < width') :
    (BitVec.ofInt width n).setWidth width' = BitVec.ofInt width' n ↔ 0 ≤ n := by
  have hpow : 2 * 2 ^ width ≤ 2 ^ width' := by
    rw [← Nat.pow_succ']
    exact Nat.pow_le_pow_right (by decide) hlt
  have hbound := (BitVec.ofInt width n).isLt
  have hsmall : ((BitVec.ofInt width n).toNat : Int).bmod (2 ^ width') =
      (BitVec.ofInt width n).toNat := Int.bmod_eq_of_le (by omega) (by omega)
  have hwide : (BitVec.ofInt width' n).toInt = n := by
    rw [← @signExtend_ofInt width width' n hfits, BitVec.toInt_signExtend_of_le hlt.le, hfits]
  rw [← BitVec.toInt_inj, BitVec.toInt_setWidth, hsmall, hwide, toNat_ofInt_iff hfits]

end Integers

section Alike

variable {kind : ValueKind}

theorem FoldsAlike.refl {cls : TypeClass} (hfits : kind.FitsIn cls) :
    FoldsAlike signed cls cls kind := by
  cases cls <;> cases kind
  case int.constInt => exact .inl (Nat.le_refl _)
  case float.constFloat => exact Binary64.keptIn_keptIn ..
  all_goals trivial

theorem resized_iff {width width' : Nat} {n : Int} (hfits : (BitVec.ofInt width n).toInt = n) :
    Datum.bits (BitVec.ofInt width' n) =
        (match conversion? signed (.int width) (.int width') with
        | some op => x.cast op (.int width') (.bits (BitVec.ofInt width n))
        | none => .bits (BitVec.ofInt width n)) ↔
      FoldsAlike signed (.int width) (.int width') (.constInt n) := by
  rcases Nat.lt_trichotomy width width' with hlt | rfl | hlt
  · have hop : conversion? signed (.int width) (.int width') =
        some (if signed && width > 1 then .sext else .zext) := by
      simp [conversion?, hlt, Nat.lt_asymm hlt]
    rw [hop]
    by_cases hsigned : signed = true ∧ 1 < width
    · simp [hsigned, Machine.cast, FoldsAlike, signExtend_ofInt hfits]
    · have hzext : (signed && decide (width > 1)) = false := by simpa using hsigned
      simp only [hzext, Bool.false_eq_true, if_false, Machine.cast, FoldsAlike, hsigned,
        Nat.not_le.mpr hlt, false_or, Datum.bits.injEq, heq_eq_eq, true_and]
      rw [eq_comm, setWidth_ofInt_iff hfits hlt]
  · simp [conversion?, FoldsAlike]
  · simp [conversion?, hlt, Machine.cast, FoldsAlike, hlt.le, setWidth_ofInt hfits hlt.le]

theorem rounded_iff {width width' : Nat} {n : Int} (hfits : (BitVec.ofInt width n).toInt = n) :
    Datum.float ((Binary64.ofInt n).keptIn width') =
        (match conversion? signed (.int width) (.float width') with
        | some op => x.cast op (.float width') (.bits (BitVec.ofInt width n))
        | none => .bits (BitVec.ofInt width n)) ↔
      FoldsAlike signed (.int width) (.float width') (.constInt n) := by
  cases signed with
  | true => simp [conversion?, coercion?, Machine.cast, FoldsAlike, hfits]
  | false =>
      simp only [conversion?, coercion?, Machine.cast, FoldsAlike, Datum.float.injEq,
        Bool.false_eq_true, if_false, false_or]
      by_cases hn : 0 ≤ n
      · rw [(toNat_ofInt_iff hfits).mpr hn]
        simp [hn]
      · refine iff_of_false (fun heq => ?_) (fun h => hn h.1)
        have hsigns := congrArg Binary64.isNegative heq
        rw [Binary64.isNegative_keptIn, Binary64.isNegative_nearest] at hsigns
        rw [Binary64.isNegative_ofInt] at hsigns
        simp at hsigns
        omega

/-- A constant comes to what a value comes to at its type exactly where they are the same number. -/
theorem FoldsTo.meaning_iff (h : FoldsTo m value type c)
    (hvalue : m.values[value.index]? = some ⟨own, kind⟩) (hsource : m.classify own = .ok source)
    (htarget : m.classify type = .ok target) (hfits : kind.FitsIn source) :
    x.meaning m c = meaningAt x m signed value type ↔ FoldsAlike signed source target kind := by
  have hown : m.typeOf value = .ok own := Module.typeOf_eq_ok_iff.mpr ⟨kind, hvalue⟩
  have hsame : own = type → FoldsAlike signed source target kind := by
    rintro rfl
    obtain rfl := Except.ok.inj (hsource.symm.trans htarget)
    exact .refl hfits
  cases h with
  | same hown' =>
      obtain rfl := Except.ok.inj (hown.symm.trans hown')
      exact iff_of_true (meaningAt_same hown).symm (hsame rfl)
  | int hvalue' hclass hc =>
      cases hvalue.symm.trans hvalue'
      cases htarget.symm.trans hclass
      cases source with
      | int width =>
          rw [meaning_number hc hclass rfl]
          by_cases heq : own = type
          · subst heq
            cases hsource.symm.trans htarget
            exact iff_of_true (by rw [meaningAt_same hown, meaning_number hvalue hsource rfl])
              (hsame rfl)
          · rw [meaningAt_eq hown heq hsource htarget, meaning_number hvalue hsource rfl]
            exact resized_iff hfits
      | _ => cases hfits
  | ofInt hvalue' hclass hc =>
      cases hvalue.symm.trans hvalue'
      cases htarget.symm.trans hclass
      cases source with
      | int width =>
          have hne : own ≠ type := by
            rintro rfl
            cases hsource.symm.trans htarget
          rw [meaning_number hc hclass rfl, meaningAt_eq hown hne hsource htarget,
            meaning_number hvalue hsource rfl]
          exact rounded_iff hfits
      | _ => cases hfits
  | float hvalue' hclass hc =>
      cases hvalue.symm.trans hvalue'
      cases htarget.symm.trans hclass
      cases source with
      | float width =>
          rw [meaning_number hc hclass rfl]
          by_cases heq : own = type
          · subst heq
            cases hsource.symm.trans htarget
            exact iff_of_true (by rw [meaningAt_same hown, meaning_number hvalue hsource rfl])
              (hsame rfl)
          · rw [meaningAt_eq hown heq hsource htarget, meaning_number hvalue hsource rfl]
            simp only [conversion?, coercion?]
            split <;> simp [Machine.cast, FoldsAlike, eq_comm]
      | _ => cases hfits

end Alike

end Constants

end Lowering

end CilSsa
