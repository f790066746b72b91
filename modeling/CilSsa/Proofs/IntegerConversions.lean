import CilSsa.Proofs.Compiling
import CilSsa.Proofs.OpenBlocks

/-!
Conversions of integers.

`conv` to an integer type leaves the value that the instruction set asks for wherever it cuts a
value down, or widens the small result to 32 bits.  Where it widens 32 bits to 64, the sign comes
from the signature of the operand instead of the opcode.
-/

namespace CilSsa

open Ssa Metadata Lowering

section Words

abbrev Word := Σ width, BitVec width

/-- The bits at another width: cut, or filled up with the sign or with zeros. -/
def extend {width : Nat} (signed : Bool) (bits : Nat) (x : BitVec width) : BitVec bits :=
  if signed then x.signExtend bits else x.setWidth bits

/-- The result of a cast to integers of a width. -/
def Ssa.CastOp.resize? : CastOp → Nat → Word → Option Word
  | .trunc, bits, ⟨width, x⟩ => if bits < width then some ⟨bits, x.setWidth bits⟩ else none
  | .zext, bits, ⟨width, x⟩ => if width < bits then some ⟨bits, x.setWidth bits⟩ else none
  | .sext, bits, ⟨width, x⟩ => if width < bits then some ⟨bits, x.signExtend bits⟩ else none
  | _, _, _ => none

/-- The result of casts, one after another. -/
def runCasts (casts : List (CastOp × Nat)) (x : Word) : Option Word :=
  casts.foldlM (fun x cast => cast.1.resize? cast.2 x) x

theorem runCasts_append (before after : List (CastOp × Nat)) (x : Word) :
    runCasts (before ++ after) x = (runCasts before x).bind (runCasts after) :=
  List.foldlM_append

/-- Between equal widths nothing is cut or filled up. -/
theorem extend_self {width : Nat} (signed : Bool) (x : BitVec width) :
    extend signed width x = x := by
  cases signed <;> simp [extend]

/-- Where bits are cut off the sign does not matter. -/
theorem extend_of_le {width bits : Nat} (h : bits ≤ width) (signed : Bool) (x : BitVec width) :
    extend signed bits x = x.setWidth bits := by
  cases signed with
  | false => rfl
  | true => exact BitVec.signExtend_eq_setWidth_of_le x h

/-- The first bit of what is filled up is the sign. -/
theorem msb_extend {width bits : Nat} (h : width < bits) (signed : Bool) (x : BitVec width) :
    (extend signed bits x).msb = (signed && x.msb) := by
  cases signed with
  | false => simp [extend, BitVec.msb_setWidth, BitVec.getLsbD_of_ge x (bits - 1) (by omega)]
  | true =>
      have hpos : 0 < bits := by omega
      simp [extend, BitVec.msb_signExtend, Nat.not_le.mpr h, hpos]

/-- The casts that bring integers of one width to another. -/
def resizing (signed : Bool) (source target : Nat) : List (CastOp × Nat) :=
  ((conversion? signed (.int source) (.int target)).map (·, target)).toList

theorem resizing_self (signed : Bool) (width : Nat) : resizing signed width width = [] := by
  simp [resizing, conversion?]

theorem resizing_of_lt {source target : Nat} (h : source < target) (signed : Bool) :
    resizing signed source target = [(if signed && source > 1 then .sext else .zext, target)] := by
  simp [resizing, conversion?, h, Nat.le_of_lt h]

theorem resizing_of_gt {source target : Nat} (h : source > target) (signed : Bool) :
    resizing signed source target = [(.trunc, target)] := by
  simp [resizing, conversion?, h]

/-- The casts fill up by the sign they are made for. -/
theorem runCasts_resizing {source : Nat} (hsource : 1 < source) (signed : Bool) (target : Nat)
    (x : BitVec source) :
    runCasts (resizing signed source target) ⟨source, x⟩ =
      some ⟨target, extend signed target x⟩ := by
  rcases Nat.lt_trichotomy source target with hlt | rfl | hgt
  · rw [resizing_of_lt hlt]
    cases signed <;> simp [runCasts, CastOp.resize?, extend, hlt, hsource]
  · rw [resizing_self, extend_self]
    rfl
  · rw [resizing_of_gt hgt, extend_of_le (Nat.le_of_lt hgt)]
    simp [runCasts, CastOp.resize?, hgt]

/-- What a conversion to an integer of the given width and sign makes of an integer: its
low bits, or all of them filled up by the sign of the target.  Results of less than 32 bits
are filled up in turn. -/
def converted (bits : Nat) (signed : Bool) {width : Nat} (x : BitVec width) : Word :=
  if bits < 32 then ⟨32, extend signed 32 (x.setWidth bits)⟩
  else if bits ≤ width then ⟨bits, x.setWidth bits⟩
  else ⟨bits, extend signed bits x⟩

/-- Conversions that do not widen disregard the sign, unless the result is small. -/
theorem converted_of_large {bits width : Nat} (h : ¬ bits < 32) (signed : Bool) (x : BitVec width) :
    converted bits signed x = ⟨bits, extend signed bits x⟩ := by
  by_cases hle : bits ≤ width
  · simp [converted, h, hle, extend_of_le]
  · simp [converted, h, hle]

end Words

namespace Ssa.Module

variable {m m' m'' : Module} {first first' : Nat} {place : Option BlockId} {u v w : ValueId}
  {casts casts' : List (CastOp × Nat)}

/-- `w` is made of `v` by casts of integers at the place, none of which is older than `first`. -/
inductive CastChain (m : Module) (first : Nat) (place : Option BlockId) (v : ValueId) :
    List (CastOp × Nat) → ValueId → Prop
  | nil : CastChain m first place v [] v
  | snoc {casts : List (CastOp × Nat)} {u w : ValueId} {type : TypeId} {op : CastOp} {bits : Nat}
      (before : CastChain m first place v casts u) (new : first ≤ w.index)
      (value : m.values[w.index]? = some ⟨type, .inst place (.cast op u)⟩)
      (width : m.classify type = .ok (.int bits)) :
      CastChain m first place v (casts ++ [(op, bits)]) w

theorem CastChain.lasts (h : m.CastChain first place v casts w) (hlasts : m.Lasts m') :
    m'.CastChain first place v casts w := by
  induction h with
  | nil => exact .nil
  | snoc _ new value width ih =>
      have hvalue := hlasts.values value (by simp [Value.inst?, Inst.isPhi])
      exact .snoc ih new hvalue (hlasts.evolves.classify width)

theorem CastChain.append (h : m.CastChain first place v casts u)
    (h' : m.CastChain first' place u casts' w) (hle : first ≤ first') :
    m.CastChain first place v (casts ++ casts') w := by
  induction h' with
  | nil => simpa using h
  | snoc _ new value width ih =>
      rw [← List.append_assoc]
      exact .snoc ih (Nat.le_trans hle new) value width

/-- Code is added that makes an integer of a width out of a value, and changes nothing else. -/
structure Resizes (m m' : Module) (v : ValueId) (casts : List (CastOp × Nat)) (w : ValueId)
    (bits : Nat) : Prop where
  evolves : m.Evolves (Change.Plain noAddress) m'
  lasts : m.Lasts m'
  chain : m'.CastChain m.values.size m.position v casts w
  width : m'.classOf w = .ok (.int bits)

theorem Located.resizes {bits : Nat} (hm : m.Located) (h : m.Resizes m' v casts w bits) :
    m'.Located :=
  hm.stays h.evolves (h.evolves.stays fun _ => isStaying_of_plain)

theorem Resizes.trans {bits bits' : Nat} (h : m.Resizes m' v casts u bits)
    (h' : m'.Resizes m'' u casts' w bits') : m.Resizes m'' v (casts ++ casts') w bits' where
  evolves := IsTrans.trans _ _ _ h.evolves h'.evolves
  lasts := IsTrans.trans _ _ _ h.lasts h'.lasts
  chain := by
    have hposition : m'.position = m.position := h.evolves.stays fun _ => isStaying_of_plain
    have hchain' := h'.chain
    rw [hposition] at hchain'
    exact (h.chain.lasts h'.lasts).append hchain' h.evolves.values_le
  width := h'.width

/-- A value that has the width already. -/
theorem Resizes.refl {bits : Nat} (hwidth : m.classOf v = .ok (.int bits)) :
    m.Resizes m v [] v bits where
  evolves := .refl
  lasts := Std.Refl.refl m
  chain := .nil
  width := hwidth

section Steps

open Build

/-- An instruction is added wherever code is added, also if it is out of place there. -/
theorem Located.pushInst (h : m.Located) (type : TypeId) (inst : Inst) :
    ∃ m', pushInst type inst m = .ok ⟨m.values.size⟩ m' ∧
      m'.values[m.values.size]? = some ⟨type, .inst m.position inst⟩ := by
  rw [Build.pushInst, bind_of_ok (get_eq_ok_iff.mpr ⟨rfl, rfl⟩)]
  cases hposition : m.position with
  | none =>
      obtain ⟨function, hrecord⟩ := h.record (.instOutsideBlock inst)
      dsimp only
      rw [bind_of_ok hrecord]
      refine ⟨_, rfl, ?_⟩
      simp [apply]
  | some b =>
      obtain ⟨block, hblock⟩ := h b hposition
      have hfound : m.block b = .ok block := Arena.entry_eq_ok_iff.mpr hblock
      dsimp only
      rw [bind_of_ok (query_of_ok hfound)]
      by_cases hended : block.terminator.isSome = true
      · obtain ⟨function, hrecord⟩ := h.record (.instAfterTerminator inst block.name)
        rw [if_pos hended, bind_of_ok hrecord]
        refine ⟨_, rfl, ?_⟩
        simp [apply]
      · rw [if_neg hended]
        refine ⟨_, rfl, ?_⟩
        simp

variable {type : TypeId} {source bits : Nat}

/-- The type of integers of a width is found or made, and values are what they were. -/
theorem exists_intType (hvalue : m.classOf v = .ok (.int source)) (bits : Nat) :
    ∃ type m', intType bits m = .ok type m' ∧ m'.classify type = .ok (.int bits) ∧
      m.Resizes m' v [] v source := by
  obtain ⟨type, m', hrun⟩ := exists_intern (.int bits) m
  have hevolves : m.Evolves (Change.Plain noAddress) m' :=
    (inferInstance : Keeps (Module.Evolves (Change.Plain noAddress)) (intType bits)).run hrun
  have hlasts : m.Lasts m' := (inferInstance : Keeps Module.Lasts (intType bits)).run hrun
  exact ⟨type, m', hrun, intType_classify hrun .refl, hevolves, hlasts, .nil,
    hevolves.classOf hvalue⟩

/-- A cast to integers is one more link, also if it does not fit. -/
theorem Located.cast (h : m.Located) {cls : TypeClass} (op : CastOp)
    (hvalue : m.classOf v = .ok cls) (htype : m.classify type = .ok (.int bits)) :
    ∃ w m', Build.cast op v type m = .ok w m' ∧ m.Resizes m' v [(op, bits)] w bits := by
  have hrun : ∃ m', Build.cast op v type m = .ok ⟨m.values.size⟩ m' ∧
      m'.values[m.values.size]? = some ⟨type, .inst m.position (.cast op v)⟩ := by
    rw [Build.cast, bind_of_ok (query_of_ok hvalue), bind_of_ok (query_of_ok htype)]
    cases hfits : castFits op cls (.int bits) with
    | true => exact h.pushInst type (.cast op v)
    | false =>
        obtain ⟨function, hrecord⟩ := h.record (.castClasses op cls (.int bits))
        have hlocated : (m.apply (.record (function, .castClasses op cls (.int bits)))).Located := h
        simp only [Bool.not_false, if_true, bind_of_ok hrecord]
        exact hlocated.pushInst type (.cast op v)
  obtain ⟨m', hcast, hw⟩ := hrun
  have hevolves : m.Evolves (Change.Plain noAddress) m' :=
    (inferInstance : Keeps (Module.Evolves (Change.Plain noAddress))
      (Build.cast op v type)).run hcast
  have hwidth : m'.classify type = .ok (.int bits) := hevolves.classify htype
  refine ⟨_, m', hcast, hevolves, Keeps.run hcast, ?_, ?_⟩
  · exact .snoc .nil (Nat.le_refl _) hw hwidth
  · exact classOf_eq_ok_iff.mpr ⟨type, typeOf_eq_ok hw, hwidth⟩

/-- An integer at another width. -/
theorem Located.intCast (h : m.Located) (signed : Bool) (hvalue : m.classOf v = .ok (.int source))
    (htype : m.classify type = .ok (.int bits)) :
    ∃ w m', Build.intCast v type signed m = .ok w m' ∧
      m.Resizes m' v (resizing signed source bits) w bits := by
  obtain ⟨own, hown, hclass⟩ := classOf_eq_ok_iff.mp hvalue
  rw [Build.intCast, bind_of_ok (query_of_ok hown)]
  by_cases hsame : own = type
  · subst hsame
    obtain rfl : source = bits := by simpa [hclass] using htype
    rw [if_pos rfl, resizing_self]
    exact ⟨v, m, rfl, .refl hvalue⟩
  · rw [if_neg hsame, bind_of_ok (query_of_ok hclass), bind_of_ok (query_of_ok htype)]
    rcases Nat.lt_trichotomy source bits with hlt | rfl | hgt
    · rw [resizing_of_lt hlt]
      simp only [hlt, Nat.not_lt_of_gt hlt, gt_iff_lt, if_true, if_false]
      exact h.cast _ hvalue htype
    · rw [resizing_self]
      simp only [Nat.lt_irrefl, gt_iff_lt, if_false]
      exact ⟨v, m, rfl, .refl hvalue⟩
    · rw [resizing_of_gt hgt]
      simp only [hgt, if_true]
      exact h.cast _ hvalue htype

end Steps

end Ssa.Module

namespace Lowering

open Build Module

variable {asm : Assembly} {m : Module} {v : ValueId} {type : TypeId} {source bits : Nat}
  {signed widens tag : Bool}

/-- Between integers a value is brought to a type by resizing it. -/
theorem coerce_resizes (h : m.Located) (signed : Bool) (hvalue : m.classOf v = .ok (.int source))
    (htype : m.classify type = .ok (.int bits)) :
    ∃ w m', coerce v type signed m = .ok w m' ∧
      m.Resizes m' v (resizing signed source bits) w bits := by
  obtain ⟨own, hown, hclass⟩ := classOf_eq_ok_iff.mp hvalue
  have hcast := h.intCast signed hvalue htype
  rw [coerce, bind_of_ok (query_of_ok hown)]
  by_cases hsame : own = type
  · rw [intCast, bind_of_ok (query_of_ok hown)] at hcast
    simpa only [if_pos hsame] using hcast
  · rw [if_neg hsame, bind_of_ok (query_of_ok hclass), bind_of_ok (query_of_ok htype)]
    exact hcast

/-- The casts of a conversion that widens to the width of the target by one sign, and a
small result by the other. -/
def convertCasts (widens signed : Bool) (source bits : Nat) : List (CastOp × Nat) :=
  resizing widens source bits ++ if bits < 32 then resizing signed bits 32 else []

/-- The casts compute the result of the conversion, except that its sign is the
one they widen by. -/
theorem runCasts_convertCasts (hsource : 32 ≤ source) (hbits : 1 < bits) (x : BitVec source) :
    runCasts (convertCasts widens signed source bits) ⟨source, x⟩ =
      some (converted bits (if source < bits then widens else signed) x) := by
  have hfirst := runCasts_resizing (Nat.lt_of_lt_of_le (by decide) hsource) widens bits x
  rw [convertCasts, runCasts_append, hfirst, Option.bind_some]
  by_cases hsmall : bits < 32
  · have hle : bits ≤ source := by omega
    rw [if_pos hsmall, runCasts_resizing hbits, if_neg (Nat.not_lt.mpr hle),
      converted, if_pos hsmall, extend_of_le hle]
  · rw [if_neg hsmall, converted_of_large hsmall]
    by_cases hlt : source < bits
    · rw [if_pos hlt]
      rfl
    · have hle : bits ≤ source := Nat.not_lt.mp hlt
      rw [if_neg hlt, extend_of_le hle, extend_of_le hle]
      rfl

/-- The casts are right exactly if they do not widen, or widen by the sign of the target. -/
theorem runCasts_convertCasts_iff (hsource : source = 32 ∨ source = 64) (hsmall : 1 < bits)
    (hlarge : bits ≤ 64) :
    (∀ x : BitVec source, runCasts (convertCasts widens signed source bits) ⟨source, x⟩ =
      some (converted bits signed x)) ↔ (source < bits → widens = signed) := by
  have hruns (x : BitVec source) : runCasts (convertCasts widens signed source bits) ⟨source, x⟩ =
      some (converted bits (if source < bits then widens else signed) x) :=
    runCasts_convertCasts (by omega) hsmall x
  by_cases hlt : source < bits
  · constructor
    · intro h _
      have hnarrow : ¬ bits < 32 := by omega
      have hsame :=
        Option.some.inj ((hruns (BitVec.allOnes source)).symm.trans (h (BitVec.allOnes source)))
      rw [if_pos hlt, converted_of_large hnarrow, converted_of_large hnarrow] at hsame
      have hmsb := congrArg BitVec.msb (eq_of_heq (Sigma.mk.inj hsame).2)
      rwa [msb_extend hlt, msb_extend hlt, BitVec.msb_allOnes (by omega), Bool.and_true,
        Bool.and_true] at hmsb
    · intro h x
      rw [hruns x, if_pos hlt, h hlt]
  · constructor
    · intro _ hlt'
      exact absurd hlt' hlt
    · intro _ x
      rw [hruns x, if_neg hlt]

/-- A conversion to an integer type emits its casts. -/
theorem convertToInt_resizes (h : m.Located) {target sig : TypeSig}
    (hsig : stackSig asm target = .ok sig) (hvalue : m.classOf v = .ok (.int source))
    (widens : Bool) :
    ∃ e m', Emit.convertToInt asm v target widens m = .ok e m' ∧
      m.Resizes m' v (convertCasts widens (!target.isUnsigned) source
        (Emit.targetBits target)) e.value
        (max (Emit.targetBits target) 32) ∧
      m'.classify e.type = .ok (.int (max (Emit.targetBits target) 32)) := by
  obtain ⟨type, m₁, htype, hclass, hfirst⟩ := exists_intType hvalue (Emit.targetBits target)
  obtain ⟨w, m₂, hcoerce, hsecond⟩ := coerce_resizes (h.resizes hfirst) widens hfirst.width hclass
  have hboth := hfirst.trans hsecond
  rw [Emit.convertToInt, bind_of_ok htype, bind_of_ok hcoerce]
  by_cases hsmall : Emit.targetBits target < 32
  · obtain ⟨wide, m₃, hwide, hclass', hthird⟩ := exists_intType hsecond.width 32
    obtain ⟨w', m₄, hcast, hfourth⟩ := ((h.resizes hboth).resizes hthird).intCast
      (!target.isUnsigned) hthird.width hclass'
    rw [if_pos hsmall, bind_of_ok hwide, bind_of_ok hcast, bind_of_ok (ask_of_ok hsig)]
    have hmax : max (Emit.targetBits target) 32 = 32 := Nat.max_eq_right (Nat.le_of_lt hsmall)
    rw [hmax]
    refine ⟨_, m₄, rfl, ?_, hfourth.evolves.classify hclass'⟩
    simpa [convertCasts, hsmall] using hboth.trans (hthird.trans hfourth)
  · rw [if_neg hsmall, bind_of_ok (ask_of_ok hsig)]
    have hmax : max (Emit.targetBits target) 32 = Emit.targetBits target :=
      Nat.max_eq_left (Nat.not_lt.mp hsmall)
    rw [hmax]
    refine ⟨_, m₂, rfl, ?_, hsecond.evolves.classify hclass⟩
    simpa [convertCasts, hsmall] using hboth

/-- The sign by which an integer with a signature is widened: that of the signature, unless this is
the signature of a fraction. -/
def widensBy (sig : TypeSig) (tag signed : Bool) : Bool := if sig.isFloat then signed else tag

/-- An integer is converted by its casts.  If it is widened, then by the sign
of its own signature. -/
theorem convertElement_resizes (h : m.Located) {target sig : TypeSig} {e : Element}
    (hsig : stackSig asm target = .ok sig) (hfloat : target.isFloat = false)
    (hvalue : m.classOf e.value = .ok (.int source)) (htype : m.classify e.type = .ok (.int source))
    (htag : isSigned asm e.sig = .ok tag) :
    ∃ e' m', Emit.convertElement asm target false e m = .ok e' m' ∧
      m.Resizes m' e.value (convertCasts (widensBy e.sig tag (!target.isUnsigned))
        (!target.isUnsigned) source (Emit.targetBits target)) e'.value
          (max (Emit.targetBits target) 32) ∧
      m'.classify e'.type = .ok (.int (max (Emit.targetBits target) 32)) := by
  have hconvert := convertToInt_resizes h hsig hvalue (widensBy e.sig tag (!target.isUnsigned))
  simp only [Emit.convertElement, Bool.false_eq_true, if_false]
  rw [bind_of_ok (ask_of_ok htag), bind_of_ok (query_of_ok htype)]
  simpa [TypeClass.isPointer, hfloat, widensBy] using hconvert

/-- The width and the sign of the target of an unchecked conversion to an integer. -/
def integerTarget? : Opcode → Option (Nat × Bool)
  | .convI1 => some (8, true)
  | .convU1 => some (8, false)
  | .convI2 => some (16, true)
  | .convU2 => some (16, false)
  | .convI4 => some (32, true)
  | .convU4 => some (32, false)
  | .convI8 => some (64, true)
  | .convU8 => some (64, false)
  | .convI => some (nativeBits, true)
  | .convU => some (nativeBits, false)
  | _ => none

/-- The conversions to integers are carried out as such. -/
theorem dispatch_of_integerTarget? (asm : Assembly) {opcode : Opcode}
    (h : integerTarget? opcode = some (bits, signed)) :
    ∃ target, dispatch opcode = .action (.convert target false) ∧ Emit.targetBits target = bits ∧
      (!target.isUnsigned) = signed ∧ target.isFloat = false ∧
      ∃ sig, stackSig asm target = .ok sig := by
  unfold integerTarget? at h
  split at h <;> cases h <;> exact ⟨_, rfl, rfl, rfl, rfl, _, rfl⟩

/-- No target is a single bit, or wider than 64 of them. -/
theorem width_of_integerTarget? {opcode : Opcode}
    (h : integerTarget? opcode = some (bits, signed)) :
    1 < bits ∧ bits ≤ 64 := by
  unfold integerTarget? at h
  split at h <;> cases h <;> decide

/-- Unchecked conversions to integer types take an integer of 32 or 64 bits off the stack and put
the result of a chain of new casts there.  The result is what the instruction set asks for, the low
bits of the source, filled up by the sign of the target if the target is small, unless 32 bits are
widened to 64: these are filled up by the sign of the operand's signature, whatever the sign of the
target is.  So the chain is right for all operands exactly if it does not widen or the two signs
agree.  All states that the emission of a body comes by are located. -/
theorem integer_conversions {site : Site} {s : EmitState} {e : Element} {rest : EvalStack}
    (htarget : integerTarget? site.instr.opcode = some (bits, signed))
    (hlocated : s.session.module.Located) (hpop : s.stack.pop? = some (e, rest))
    (hvalue : s.session.module.classOf e.value = .ok (.int source))
    (htype : s.session.module.classify e.type = .ok (.int source))
    (hsource : source = 32 ∨ source = 64) (htag : isSigned site.asm e.sig = .ok tag) :
    ∃ s' e' casts, Emit.instruction site s = .ok () s' ∧ s'.stack = rest.push e' ∧
      s'.session.module.CastChain s.session.module.values.size s.session.module.position
        e.value casts
        e'.value ∧
      s'.session.module.classOf e'.value = .ok (.int (max bits 32)) ∧
      s'.session.module.classify e'.type = .ok (.int (max bits 32)) ∧
      (∀ x : BitVec source, runCasts casts ⟨source, x⟩ =
        some (converted bits (if source < bits then widensBy e.sig tag signed else signed) x)) ∧
      ((∀ x : BitVec source, runCasts casts ⟨source, x⟩ = some (converted bits signed x)) ↔
        (source < bits → widensBy e.sig tag signed = signed)) := by
  obtain ⟨target, hdispatch, rfl, rfl, hfloat, sig, hsig⟩ :=
    dispatch_of_integerTarget? site.asm htarget
  obtain ⟨e', m', hrun, hresizes, hclass⟩ :=
    convertElement_resizes hlocated hsig hfloat hvalue htype htag
  have hlower : Emit.lower (Lower.build (Emit.convertElement site.asm target false e))
      { s with stack := rest } =
        .ok e' { s with stack := rest, session := { s.session with module := m' } } := by
    simp [hrun]
  have hinstruction : Emit.instruction site s =
      .ok () { s with stack := rest.push e', session := { s.session with module := m' } } := by
    have hpopped : Emit.pop site s = .ok e { s with stack := rest } :=
      Emit.pop_eq_ok_iff.mpr ⟨rest, hpop, rfl⟩
    rw [Emit.instruction, hdispatch]
    change Emit.convert site target false s = _
    rw [Emit.convert, bind_of_ok hpopped]
    exact bind_eq_ok_iff.mpr ⟨e', _, hlower, rfl⟩
  obtain ⟨hsmall, hlarge⟩ := width_of_integerTarget? htarget
  exact ⟨_, e', _, hinstruction, rfl, hresizes.chain, hresizes.width, hclass,
    runCasts_convertCasts (show 32 ≤ source by omega) hsmall,
    runCasts_convertCasts_iff hsource hsmall hlarge⟩

section Widening

/-- A class with a method that widens a signed parameter to an unsigned result. -/
def widening : Assembly :=
  let roots := Assembly.ofName "widening"
  { roots with
    types := roots.types ++ #[
      { TypeDef.ofKind .classType "" "C" with base := some Assembly.objectType, methods := [⟨0⟩] }]
    methods := #[
      { name := "Widen", declaringType := ⟨3⟩, params := [⟨"x", .i4⟩], returnType := .u8,
        flags := ⟨MethodFlags.static⟩,
        body := some { instructions := [
          { opcode := .ldarg0 },
          { opcode := .convU8 },
          { opcode := .ret }] } }] }

/-- The start of the emission of the method. -/
def wideningStart : BodyStart widening {} :=
  (BodyStart.first? widening {} ⟨0⟩ "C::Widen").get (by decide +kernel)

/-- The conversion in its place. -/
def wideningSite : Site := siteAt wideningStart.frame 1 { opcode := .convU8 }

/-- The parameter that was loaded, which is all that is on the stack. -/
def wideningElement : Element := ⟨⟨4⟩, .i4, ⟨4⟩⟩

/-- The parameter is widened by its own sign. -/
theorem widening_by_operand :
    widening.validate = .ok () ∧ wideningStart.Visits 1 (wideningStart.after 1) ∧
    (wideningStart.after 1).stack.pop? = some (wideningElement, {}) ∧
    ∃ (s' : EmitState) (e' : Element) (casts : List (CastOp × Nat)),
      Emit.instruction wideningSite (wideningStart.after 1) = .ok () s' ∧
      s'.session.module.CastChain 5 (some ⟨1⟩) wideningElement.value casts e'.value ∧
      (∀ x : BitVec 32, runCasts casts ⟨32, x⟩ = some (converted 64 true x)) ∧
      ¬ ∀ x : BitVec 32, runCasts casts ⟨32, x⟩ = some (converted 64 false x) := by
  have hvisits : wideningStart.Visits 1 (wideningStart.after 1) :=
    wideningStart.visits_after (by decide +kernel)
  have hpop : (wideningStart.after 1).stack.pop? = some (wideningElement, {}) := by decide +kernel
  have htarget : integerTarget? wideningSite.instr.opcode = some (64, false) := rfl
  obtain ⟨s', e', casts, hrun, -, hchain, -, -, hcasts, hright⟩ :=
    integer_conversions htarget (wideningStart.located hvisits) hpop (by decide +kernel)
      (by decide +kernel) (.inl rfl) rfl
  have hsize : (wideningStart.after 1).session.module.values.size = 5 := by decide +kernel
  have hposition : (wideningStart.after 1).session.module.position = some ⟨1⟩ := by decide +kernel
  rw [hsize, hposition] at hchain
  refine ⟨by decide +kernel, hvisits, hpop, s', e', casts, hrun, hchain, hcasts, fun hall => ?_⟩
  exact Bool.noConfusion (hright.mp hall (by decide))

/-- The state when the program is compiled. -/
def wideningCompiled : Session :=
  stateOf (compileProgram widening {} { module := { name := "module" } })

/-- The compiled method takes the sign of its parameter for that of the result. -/
theorem widening_keeps_sign :
    compileProgram widening {} { module := { name := "module" } } =
      .ok { compiled := ["C::Widen"], staticInit := "module_static_init" } wideningCompiled ∧
    integerTarget? .convU8 = some (64, false) ∧
    wideningCompiled.module.Performs ⟨4⟩ (.load ⟨2⟩) ∧
    wideningCompiled.module.CastChain 5 (some ⟨1⟩) ⟨4⟩ [(.sext, 64)] ⟨5⟩ ∧
    runCasts [(.sext, 64)] ⟨32, BitVec.allOnes 32⟩ ≠
      some (converted 64 false (BitVec.allOnes 32)) := by
  have hcompiled : compileProgram widening {} { module := { name := "module" } } =
      .ok { compiled := ["C::Widen"], staticInit := "module_static_init" } wideningCompiled :=
    eq_ok_stateOf (by decide +kernel)
  have hload : wideningCompiled.module.Performs ⟨4⟩ (.load ⟨2⟩) :=
    ⟨⟨4⟩, some ⟨1⟩, by decide +kernel⟩
  have hcast : wideningCompiled.module.values[5]? =
      some ⟨⟨3⟩, .inst (some ⟨1⟩) (.cast .sext ⟨4⟩)⟩ := by decide +kernel
  have hwidth : wideningCompiled.module.classify ⟨3⟩ = .ok (.int 64) := by decide +kernel
  exact ⟨hcompiled, rfl, hload, .snoc .nil (by decide) hcast hwidth, by decide⟩

end Widening

end Lowering

end CilSsa
