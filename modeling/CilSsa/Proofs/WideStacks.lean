import CilSsa.Proofs.ElementTypes
import CilSsa.Proofs.SoundBodies

/-!
Integers on the stack have 32 bits or more.

What is loaded, converted or called for is widened before it is pushed, and computations keep to the
types of their operands.  A new value of an enum alone is pushed as it was loaded: if the integer of
the enum is a small one, it stays small on the stack.
-/

namespace CilSsa

open Ssa Metadata Lowering

/-- The type is no integer of less than 32 bits. -/
def Ssa.Module.Wide (m : Module) (type : TypeId) : Prop :=
  ∀ bits, m.classify type = .ok (.int bits) → 32 ≤ bits

namespace Lowering

section Outlooks

variable {asm : Assembly} {final : Session}

/-- The constructor is not one of an enum of a small integer. -/
def WidelyConstructed (asm : Assembly) (ctor : MethodId) : Prop :=
  ∀ d, asm.method ctor = .ok d → ¬ NarrowSig asm (.named d.declaringType)

theorem wide_of_same {M : Module} {type type' : TypeId} (h : type = type') (hwide : M.Wide type') :
    M.Wide type :=
  h ▸ hwide

/-- The type of a new value is wide if its signature is. -/
theorem wide_of_irType (hfinal : final.Signed asm) {sig : TypeSig} {type : TypeId}
    (h : irType asm sig final = .ok type final) (hsig : ¬ NarrowSig asm sig) :
    final.module.Wide type := by
  intro bits hclass
  by_contra hbits
  exact hsig (hfinal.handles.narrow_of_irType h hclass (Nat.lt_of_not_le hbits))

/-- All integers are wide: the ways in which elements are made. -/
def wideOutlook (final : Session) (signed : final.Signed asm) (function : FunctionId) :
    Outlook asm where
  final
  function
  signed
  sound e := final.module.Wide e.type
  convertible _ := True
  constructible := WidelyConstructed asm
  storable _ _ := True
  known _ := True
  known_later _ _ := trivial
  fits _ _ := True
  aims _ _ := True
  typed _ h := h.wide
  replaced h _ := h
  fits_of_hasSig _ := trivial
  fits_of_call _ _ _ _ := trivial
  loaded _ := fun m e m' h _ hend => by
    obtain ⟨-, ⟨-, -, hclass, -⟩ | ⟨-, -, hwide⟩⟩ := toStack_cases h hend
    · intro bits hbits
      cases hclass.symm.trans hbits
      exact Nat.le_refl 32
    · exact hwide
  float := fun h _ hend => (Emit.floatBinary_apt h hend).wide
  shift hlhs := fun m e m' h _ _ => wide_of_same (Emit.shift_same h).2 hlhs
  integer _ _ hlhs hrhs := fun m e m' h _ hend => by
    rcases Emit.intBinary_cases h hend with hnative | ⟨-, htype⟩ | ⟨-, htype⟩
    · exact hnative.wide
    · exact wide_of_same htype hlhs
    · exact wide_of_same htype hrhs
  unary he _ _ := he
  converted htarget _ _ := fun m e m' h _ hend => (Emit.convertElement_apt htarget h hend).wide
  constructed hd hctor htype _ := wide_of_irType signed htype (hctor _ hd)
  aims_of_aimsAt _ := trivial
  aims_of_member _ _ _ _ _ _ _ _ := trivial
  stored _ _ _ _ _ := trivial
  spilled _ _ := trivial

end Outlooks

section Bodies

variable {asm : Assembly} {settings : Settings} {n : Nat} {s : EmitState}

/-- As long as a body makes no new value of an enum of a small integer, no integer on the stack has
less than 32 bits, nor does one that arrives at a block. -/
theorem BodyStart.wide_stacks (b : BodyStart asm settings)
    (hctors : ∀ k < n, ∀ instr, b.body.instructions[k]? = some instr →
      dispatch instr.opcode = .action .newObject → ∀ ctor d, instr.operand = .method ctor →
        asm.method ctor = .ok d → ¬ NarrowSig asm (.named d.declaringType))
    (h : b.Visits n s) :
    (∀ e ∈ s.stack.elements, s.session.module.Wide e.type) ∧
      ∀ l ∈ s.leaders, ∀ e ∈ l.incoming.elements, s.session.module.Wide e.type := by
  have hadmits (k : Nat) (instr : Instruction) (t : EmitState) (hk : k < n)
      (hmeets : Outlook.Meets b.frame b.body.instructions b.start k instr t) :
      (wideOutlook s.session (b.signed h) b.function).Admits instr t :=
    ⟨fun _ _ _ _ _ _ => trivial, fun hdispatch ctor hoperand d hd =>
      hctors k hk instr hmeets.1 hdispatch ctor d hoperand hd⟩
  obtain ⟨-, hstack, hleaders⟩ :=
    b.stocked (wideOutlook s.session (b.signed h) b.function) rfl trivial
    (fun _ _ => trivial) hadmits h (Std.Refl.refl _)
  exact ⟨hstack, fun l hl => (hleaders l hl).incoming⟩

end Bodies

section Tints

/-- A body that loads a value of an enum of a small integer, and makes a new one. -/
def tintsBody : MethodBody where
  locals := [.named ⟨3⟩]
  instructions := [
    { opcode := .ldloc0 },
    { opcode := .pop },
    { opcode := .newobj, operand := .method ⟨0⟩ },
    { opcode := .neg },
    { opcode := .ret }]

def tintsMethod : MethodDef where
  name := "Make"
  declaringType := ⟨4⟩
  returnType := .i4
  flags := ⟨MethodFlags.static⟩
  body := some tintsBody

/-- The enum has a constructor. -/
def tints : Assembly :=
  let roots := Assembly.ofName "tints"
  let constructor : MethodDef :=
    { name := ".ctor", declaringType := ⟨3⟩, returnType := .void,
      body := some { instructions := [{ opcode := .ret }] } }
  { roots with
    types := roots.types ++ #[
      { TypeDef.ofKind .enumType "" "Tint" with
        base := some Assembly.enumType, fields := [⟨0⟩], methods := [⟨0⟩] },
      { TypeDef.ofKind .classType "" "C" with base := some Assembly.objectType, methods := [⟨1⟩] }]
    fields := #[⟨"value__", ⟨3⟩, .i1, false⟩]
    methods := #[constructor, tintsMethod] }

def tintsStart : BodyStart tints {} :=
  (BodyStart.first? tints {} ⟨1⟩ "C::Make").get (by decide +kernel)

/-- The value that was loaded is wide. -/
theorem tints_loads_wide :
    (tintsStart.after 1).stack.elements.length = 1 ∧
      ∀ e ∈ (tintsStart.after 1).stack.elements,
      (tintsStart.after 1).session.module.Wide e.type := by
  refine ⟨by decide +kernel, (tintsStart.wide_stacks (fun k hk instr hinstr hdispatch => ?_)
    (tintsStart.visits_after (by decide +kernel))).1⟩
  have hbody : tintsStart.body = tintsBody := by decide +kernel
  rw [hbody] at hinstr
  obtain rfl : k = 0 := Nat.lt_one_iff.mp hk
  cases hinstr
  cases hdispatch

/-- The new value is a small integer on the stack. -/
theorem tints_makes_narrow :
    tints.validate = .ok () ∧ tintsStart.Visits 3 (tintsStart.after 3) ∧
      ∃ e ∈ (tintsStart.after 3).stack.elements,
        (tintsStart.after 3).session.module.classify e.type = .ok (.int 8) :=
  ⟨by decide +kernel, tintsStart.visits_after (by decide +kernel), by decide +kernel⟩

end Tints

end Lowering

end CilSsa
