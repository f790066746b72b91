import Mathlib.Algebra.Group.Nat.Defs
import CilSsa.Metadata.Validation
import CilSsa.Proofs.Success

/-!
What validation promises.

An assembly that is accepted has its roots, and all ids that it stores lead into their arenas, apart
from the declaring types of fields, which nobody looks at.  A branch that is accepted has an operand
that refers to something, and targets whose low bits are positions of the body.
-/

namespace CilSsa

section Checks

variable {ε α : Type}

/-- One check after another passes if both do. -/
theorem exceptThen_eq_ok_iff {first : Except ε Unit} {rest : Except ε α} {a : α} :
    (first >>= fun _ => rest) = .ok a ↔ first = .ok () ∧ rest = .ok a := by
  cases first <;> simp [bind, Except.bind]

/-- A loop over checks passes if each check does. -/
theorem exceptForM_eq_ok_iff {check : α → Except ε Unit} {items : List α} :
    items.forM check = .ok () ↔ ∀ a ∈ items, check a = .ok () := by
  induction items with
  | nil => exact ⟨fun _ _ h => absurd h List.not_mem_nil, fun _ => rfl⟩
  | cons first rest ih =>
      change (check first >>= fun _ => rest.forM check) = .ok () ↔ _
      rw [exceptThen_eq_ok_iff, List.forall_mem_cons, ih]

end Checks

namespace Metadata

/-- Whether an operand names a definition or a position of the body. -/
def Operand.isReference : Operand → Bool
  | .field _ | .method _ | .type _ | .target _ | .switch _ => true
  | _ => false

/-- Whether an operand refers to something, but not in the way a branch of this flow needs. -/
def Operand.misleads : Flow → Operand → Bool
  | .branch, .switch _ | .condBranch, .switch _ | .switch, .target _ => true
  | flow, .field _ | flow, .method _ | flow, .type _ => flow.needsTarget
  | _, _ => false

/-- What validation asks of an instruction in a body with `length` instructions, besides its ids. -/
structure Instruction.Accepted (length : Nat) (instr : Instruction) : Prop where
  operand : instr.opcode.flow.needsTarget = true → instr.operand.isReference = true
  targets : ∀ t ∈ instr.targets, t % 2 ^ targetBits < length

/-- Whether a branch says where to in an operand of its kind, and stays in a body with `length`
instructions. -/
structure Instruction.BranchesWithin (length : Nat) (instr : Instruction) : Prop where
  target : instr.opcode.flow = .branch ∨ instr.opcode.flow = .condBranch →
    ∃ t, instr.operand = .target t
  table : instr.opcode.flow = .switch → ∃ ts, instr.operand = .switch ts
  inside : ∀ t ∈ instr.targets, t < length

namespace Assembly

section Closed

variable (asm : Assembly)

def HasType (id : TypeDefId) : Prop := id.index < asm.types.size

instance (id : TypeDefId) : Decidable (asm.HasType id) := Nat.decLt _ _

def HasField (id : FieldId) : Prop := id.index < asm.fields.size

def HasMethod (id : MethodId) : Prop := id.index < asm.methods.size

/-- Whether every type that a signature mentions exists. -/
def HasSig (sig : TypeSig) : Prop := ∀ id ∈ sig.mentions, asm.HasType id

/-- Whether the definition that an operand names exists. -/
def HasOperand : Operand → Prop
  | .field f => asm.HasField f
  | .method m => asm.HasMethod m
  | .type sig => asm.HasSig sig
  | _ => True

/-- Whether everything that a type refers to exists. -/
structure ClosedType (d : TypeDef) : Prop where
  base : ∀ base, d.base = some base → asm.HasType base
  interfaces : ∀ iface ∈ d.interfaces, asm.HasType iface
  fields : ∀ f ∈ d.fields, asm.HasField f
  methods : ∀ m ∈ d.methods, asm.HasMethod m

/-- Whether everything that a method refers to exists. -/
structure ClosedMethod (d : MethodDef) : Prop where
  declaringType : asm.HasType d.declaringType
  returnType : asm.HasSig d.returnType
  params : ∀ p ∈ d.params, asm.HasSig p.sig
  locals : ∀ body, d.body = some body → ∀ sig ∈ body.locals, asm.HasSig sig
  operands : ∀ body, d.body = some body → ∀ instr ∈ body.instructions, asm.HasOperand instr.operand

/-- Whether everything that the types, the methods and the signatures of fields refer to exists. -/
class Linked : Prop where
  types : ∀ d ∈ asm.types, asm.ClosedType d
  fields : ∀ d ∈ asm.fields, asm.HasSig d.sig
  methods : ∀ d ∈ asm.methods, asm.ClosedMethod d

/-- Whether everything that an assembly refers to exists. -/
class Closed : Prop extends asm.Linked where
  declaringTypes : ∀ d ∈ asm.fields, asm.HasType d.declaringType

end Closed

variable {asm : Assembly}

section Checks

variable {context : String}

theorem checkRef_eq_ok_iff {kind : RefKind} {id size : Nat} :
    checkRef kind id size context = .ok () ↔ id < size := by
  unfold checkRef
  split <;> simp_all

theorem checkType_eq_ok_iff {id : TypeDefId} :
    asm.checkType context id = .ok () ↔ asm.HasType id :=
  checkRef_eq_ok_iff

theorem checkSig_eq_ok_iff {sig : TypeSig} :
    asm.checkSig context sig = .ok () ↔ asm.HasSig sig := by
  induction sig with
  | named id => simp [checkSig, HasSig, TypeSig.mentions, checkType_eq_ok_iff]
  | pointer _ ih | byRef _ ih | array _ ih => exact ih
  | _ => simp [checkSig, HasSig, TypeSig.mentions]

theorem checkRoot_eq_ok_iff {root : TypeDefId × String} :
    asm.checkRoot root = .ok () ↔
      ∃ d, asm.types[root.1.index]? = some d ∧ d.fullName = root.2 := by
  unfold checkRoot
  cases asm.types[root.1.index]? with
  | none => simp
  | some d => by_cases hname : d.fullName = root.2 <;> simp [hname]

theorem checkTypeDef_eq_ok_iff {d : TypeDef} :
    asm.checkTypeDef d = .ok () ↔ asm.ClosedType d := by
  have hlists : (do
      d.interfaces.forM (asm.checkType d.fullName)
      d.fields.forM fun f => checkRef .field f.index asm.fields.size d.fullName
      d.methods.forM fun m => checkRef .method m.index asm.methods.size d.fullName) = .ok () ↔
      (∀ iface ∈ d.interfaces, asm.HasType iface) ∧ (∀ f ∈ d.fields, asm.HasField f) ∧
        ∀ m ∈ d.methods, asm.HasMethod m := by
    simp only [exceptThen_eq_ok_iff, exceptForM_eq_ok_iff, checkType_eq_ok_iff,
      checkRef_eq_ok_iff, HasField, HasMethod]
  rw [checkTypeDef]
  cases hbase : d.base with
  | none =>
      dsimp only
      rw [hlists]
      exact ⟨fun ⟨h, h', h''⟩ => ⟨by simp [hbase], h, h', h''⟩,
        fun h => ⟨h.interfaces, h.fields, h.methods⟩⟩
  | some base =>
      dsimp only
      simp only [exceptThen_eq_ok_iff, checkType_eq_ok_iff] at hlists ⊢
      rw [hlists]
      exact ⟨fun ⟨h, h', h'', h'''⟩ => ⟨by simpa [hbase] using h, h', h'', h'''⟩,
        fun h => ⟨h.base base hbase, h.interfaces, h.fields, h.methods⟩⟩

theorem checkOperand_eq_ok_iff {length index : Nat} {instr : Instruction} :
    asm.checkOperand context length index instr = .ok () ↔
      asm.HasOperand instr.operand ∧ instr.Accepted length := by
  have hplain (hreference : instr.operand.isReference = true) (htargets : instr.targets = []) :
      instr.Accepted length :=
    ⟨fun _ => hreference, by simp [htargets]⟩
  have hother (hno : instr.operand.isReference = false) (htargets : instr.targets = []) :
      instr.Accepted length ↔ instr.opcode.flow.needsTarget = false := by
    constructor
    · intro h
      refine Bool.eq_false_iff.mpr fun hneeds => ?_
      exact absurd (h.operand hneeds) (by simp [hno])
    · intro h
      exact ⟨by simp [h], by simp [htargets]⟩
  unfold checkOperand
  cases hoperand : instr.operand with
  | field f =>
      have := hplain (by simp [hoperand, Operand.isReference])
        (by simp [Instruction.targets, hoperand])
      simp [this, HasOperand, checkRef_eq_ok_iff, HasField]
  | method m =>
      have := hplain (by simp [hoperand, Operand.isReference])
        (by simp [Instruction.targets, hoperand])
      simp [this, HasOperand, checkRef_eq_ok_iff, HasMethod]
  | type sig =>
      have := hplain (by simp [hoperand, Operand.isReference])
        (by simp [Instruction.targets, hoperand])
      simp [this, HasOperand, checkSig_eq_ok_iff]
  | target _ | switch _ =>
      simp only [exceptForM_eq_ok_iff, checkTarget, checkRef_eq_ok_iff, HasOperand, true_and]
      exact ⟨fun h => ⟨by simp [hoperand, Operand.isReference], h⟩, fun h => h.targets⟩
  | _ =>
      rw [hother (by simp [hoperand, Operand.isReference])
        (by simp [Instruction.targets, hoperand])]
      cases instr.opcode.flow.needsTarget <;> simp [HasOperand]

theorem checkOperands_eq_ok_iff {length index : Nat} {instrs : List Instruction} :
    asm.checkOperands context length index instrs = .ok () ↔
      ∀ instr ∈ instrs, asm.HasOperand instr.operand ∧ instr.Accepted length := by
  induction instrs generalizing index with
  | nil => simp [checkOperands]
  | cons instr rest ih =>
      rw [checkOperands, exceptThen_eq_ok_iff, List.forall_mem_cons, checkOperand_eq_ok_iff, ih]

theorem checkMethodDef_eq_ok_iff {d : MethodDef} :
    asm.checkMethodDef d = .ok () ↔ asm.ClosedMethod d ∧
      ∀ body, d.body = some body → ∀ instr ∈ body.instructions,
        instr.Accepted body.instructions.length := by
  simp only [checkMethodDef, exceptThen_eq_ok_iff, checkType_eq_ok_iff,
    checkSig_eq_ok_iff, exceptForM_eq_ok_iff]
  cases hbody : d.body with
  | none =>
      constructor
      · rintro ⟨htype, hresult, hparams, -⟩
        exact ⟨⟨htype, hresult, hparams, by simp [hbody], by simp [hbody]⟩, by simp⟩
      · rintro ⟨h, -⟩
        exact ⟨h.declaringType, h.returnType, h.params, rfl⟩
  | some body =>
      simp only [exceptThen_eq_ok_iff, exceptForM_eq_ok_iff, checkSig_eq_ok_iff,
        checkOperands_eq_ok_iff]
      constructor
      · rintro ⟨htype, hresult, hparams, hlocals, hinstrs⟩
        refine ⟨⟨htype, hresult, hparams, ?_, ?_⟩, ?_⟩
        · rintro _ hsame
          obtain rfl := Option.some.inj (hbody.symm.trans hsame)
          exact hlocals
        · rintro _ hsame instr hinstr
          obtain rfl := Option.some.inj (hbody.symm.trans hsame)
          exact (hinstrs instr hinstr).1
        · rintro _ hsame instr hinstr
          obtain rfl := Option.some.inj hsame
          exact (hinstrs instr hinstr).2
      · rintro ⟨h, haccepted⟩
        exact ⟨h.declaringType, h.returnType, h.params, h.locals body hbody,
          fun instr hinstr => ⟨h.operands body hbody instr hinstr, haccepted body rfl instr hinstr⟩⟩

end Checks

/-- What validation accepts. -/
structure Validated (asm : Assembly) : Prop extends asm.Linked where
  roots : ∀ root ∈ roots, ∃ d, asm.types[root.1.index]? = some d ∧ d.fullName = root.2
  branches : ∀ d ∈ asm.methods, ∀ body, d.body = some body → ∀ instr ∈ body.instructions,
    instr.Accepted body.instructions.length

theorem validate_eq_ok_iff : asm.validate = .ok () ↔ asm.Validated := by
  simp only [validate, exceptThen_eq_ok_iff, exceptForM_eq_ok_iff,
    checkRoot_eq_ok_iff, checkTypeDef_eq_ok_iff, checkSig_eq_ok_iff, checkMethodDef_eq_ok_iff,
    Array.mem_toList_iff]
  constructor
  · rintro ⟨hroots, htypes, hfields, hmethods⟩
    exact ⟨⟨htypes, hfields, fun d hd => (hmethods d hd).1⟩, hroots, fun d hd => (hmethods d hd).2⟩
  · rintro ⟨⟨htypes, hfields, hmethods⟩, hroots, hbranches⟩
    exact ⟨hroots, htypes, hfields, fun d hd => ⟨hmethods d hd, hbranches d hd⟩⟩

end Assembly

section Branches

variable {length : Nat} {instr : Instruction}

/-- A target that is a position in its low bits is one if the body or the low bits reach it. -/
theorem Instruction.Accepted.inside_iff (h : instr.Accepted length) :
    (∀ t ∈ instr.targets, t < length) ↔ ∀ t ∈ instr.targets, t < max length (2 ^ targetBits) := by
  refine forall₂_congr fun t ht => ⟨fun hlt => Nat.lt_of_lt_of_le hlt (Nat.le_max_left _ _), ?_⟩
  intro hlt
  rcases Nat.lt_or_ge t length with hinside | hbeyond
  · exact hinside
  · have hsmall : t < 2 ^ targetBits := by omega
    have hlow := h.targets t ht
    rwa [Nat.mod_eq_of_lt hsmall] at hlow

theorem Instruction.Accepted.branchesWithin_iff (h : instr.Accepted length) :
    instr.BranchesWithin length ↔ instr.operand.misleads instr.opcode.flow = false ∧
      ∀ t ∈ instr.targets, t < max length (2 ^ targetBits) := by
  rw [← h.inside_iff]
  have hoperand := h.operand
  constructor
  · intro hwithin
    refine ⟨?_, hwithin.inside⟩
    cases hflow : instr.opcode.flow with
    | branch =>
        obtain ⟨t, ht⟩ := hwithin.target (.inl hflow)
        rw [ht]
        rfl
    | condBranch =>
        obtain ⟨t, ht⟩ := hwithin.target (.inr hflow)
        rw [ht]
        rfl
    | switch =>
        obtain ⟨ts, hts⟩ := hwithin.table hflow
        rw [hts]
        rfl
    | _ => cases instr.operand <;> rfl
  · rintro ⟨hfits, hinside⟩
    refine ⟨fun hflow => ?_, fun hflow => ?_, hinside⟩
    · rcases hflow with hflow | hflow <;> rw [hflow] at hfits hoperand <;>
        cases hcase : instr.operand <;>
        simp_all [Operand.misleads, Operand.isReference, Flow.needsTarget]
    · rw [hflow] at hfits hoperand
      cases hcase : instr.operand <;>
        simp_all [Operand.misleads, Operand.isReference, Flow.needsTarget]

/-- A branch that validation accepts has an operand that refers to something, and targets whose low
bits are positions of the body.  It is well formed if and only if the operand is of the kind that
its flow needs, and no target lies beyond both the body and the low bits. -/
theorem validated_branches {asm : Assembly} (hvalid : asm.validate = .ok ()) {d : MethodDef}
    (hd : d ∈ asm.methods) {body : MethodBody} (hbody : d.body = some body)
    (hinstr : instr ∈ body.instructions) :
    (instr.opcode.flow.needsTarget = true → instr.operand.isReference = true) ∧
      (∀ t ∈ instr.targets, t % 2 ^ targetBits < body.instructions.length) ∧
      (instr.BranchesWithin body.instructions.length ↔
        instr.operand.misleads instr.opcode.flow = false ∧
          ∀ t ∈ instr.targets, t < max body.instructions.length (2 ^ targetBits)) := by
  have haccepted : instr.Accepted body.instructions.length :=
    (Assembly.validate_eq_ok_iff.mp hvalid).branches d hd body hbody instr hinstr
  exact ⟨haccepted.operand, haccepted.targets, haccepted.branchesWithin_iff⟩

/-- A body with a branch beyond the low bits of positions, and one whose operand is a type. -/
def detourBody : MethodBody where
  instructions := [
    { opcode := .br, operand := .target (2 ^ targetBits) },
    { opcode := .brtrue, operand := .type .i4 },
    { opcode := .ret }]

def detour : Assembly :=
  let roots := Assembly.ofName "detour"
  { roots with
    types := roots.types.push
      { TypeDef.ofKind .classType "" "C" with base := some ⟨0⟩, methods := [⟨0⟩] }
    methods := #[{
      name := "M", declaringType := ⟨3⟩, returnType := .void
      flags := ⟨MethodFlags.static⟩, body := some detourBody }] }

theorem detour_leaves_body : detour.validate = .ok () ∧
    ∃ d ∈ detour.methods, d.body = some detourBody ∧
      ∃ long ∈ detourBody.instructions, long.operand = .target (2 ^ targetBits) ∧
        ¬ long.BranchesWithin detourBody.instructions.length ∧
      ∃ blind ∈ detourBody.instructions, blind.opcode.flow = .condBranch ∧
        blind.operand = .type .i4 ∧ ¬ blind.BranchesWithin detourBody.instructions.length := by
  have hvalid : detour.validate = .ok () := by decide +kernel
  have hd : detour.methods[0] ∈ detour.methods := Array.getElem_mem _
  have hlong : detourBody.instructions[0] ∈ detourBody.instructions := List.getElem_mem _
  have hblind : detourBody.instructions[1] ∈ detourBody.instructions := List.getElem_mem _
  refine ⟨hvalid, _, hd, rfl, _, hlong, rfl, fun hwithin => ?_, _, hblind,
    rfl, rfl, fun hwithin => ?_⟩
  · obtain ⟨-, hinside⟩ := (validated_branches hvalid hd rfl hlong).2.2.mp hwithin
    exact absurd (hinside (2 ^ targetBits) (by decide)) (by decide)
  · obtain ⟨hfits, -⟩ := (validated_branches hvalid hd rfl hblind).2.2.mp hwithin
    exact absurd hfits (by decide)

end Branches

end Metadata

end CilSsa
