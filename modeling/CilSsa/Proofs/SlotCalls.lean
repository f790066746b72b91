import CilSsa.Proofs.Methods
import CilSsa.Proofs.Receivers

/-!
Calls through slots, as they are emitted.

The code of a virtual call loads the table from the receiver, a member of it for a slot of a class
and through the table of interface tables for a slot of an interface.  Then it loads the entry for
the slot and calls it.
-/

namespace CilSsa

open Ssa Metadata Lowering

namespace Lowering

section Steps

variable {s s' : Session} {v : ValueId}

end Steps

section Lasting

variable {asm : Assembly} {s s' : Session} {v v' : ValueId} {inst : Inst}

theorem performs_later (h : s.module.Performs v inst) (hphi : inst.isPhi = false)
    (hstatics : s.StaticsSound asm) (hlater : Session.Later asm s s') :
    s'.module.Performs v inst := by
  obtain ⟨type, block, hv⟩ := h
  exact ⟨type, block, hlater.value hv (by simp [Value.inst?, hphi])
    (hstatics.not_isStatic hv (by simp))⟩

theorem recasts_later (h : s.module.Recasts v v') (hstatics : s.StaticsSound asm)
    (hlater : Session.Later asm s s') : s'.module.Recasts v v' := by
  rcases h with rfl | ⟨op, hop, hcode⟩
  · exact .inl rfl
  · exact .inr ⟨op, hop, performs_later hcode rfl hstatics hlater⟩

end Lasting

section Tables

/-- Code that loads the table which a member of an object points to. -/
def LoadsClassTable (m : Module) (receiver : ValueId) (struct : TypeId) (member : Nat)
    (table : ValueId) : Prop :=
  ∃ pointer place, m.Recasts receiver pointer ∧
    m.Performs place (.structGep struct pointer member) ∧ m.Performs table (.load place)

/-- Code that loads the table of an interface: its index selects an entry of the table that an
object points to first. -/
def LoadsInterfaceTable (m : Module) (receiver : ValueId) (index : Nat) (table : ValueId) : Prop :=
  ∃ header tables entries number type type' place found, m.Recasts receiver header ∧
    m.Performs tables (.load header) ∧ m.Recasts tables entries ∧
    m.values[number.index]? = some ⟨type, .constInt index⟩ ∧
    m.Performs place (.gep type' entries number) ∧ m.Performs found (.load place) ∧
    m.Recasts found table

def CallsEntry (m : Module) (table : ValueId) (position : Nat) (args : List ValueId)
    (call : ValueId) : Prop :=
  ∃ struct place function type, m.Performs place (.structGep struct table position) ∧
    m.Performs function (.load place) ∧ m.Performs call (.call (.indirect type function) args)

variable {asm : Assembly} {s s' : Session} {receiver table call : ValueId} {struct : TypeId}
  {member index position : Nat} {args : List ValueId}

theorem LoadsClassTable.later (h : LoadsClassTable s.module receiver struct member table)
    (hstatics : s.StaticsSound asm) (hlater : Session.Later asm s s') :
    LoadsClassTable s'.module receiver struct member table := by
  obtain ⟨pointer, place, hrecast, hplace, htable⟩ := h
  exact ⟨pointer, place, recasts_later hrecast hstatics hlater,
    performs_later hplace rfl hstatics hlater, performs_later htable rfl hstatics hlater⟩

theorem LoadsInterfaceTable.later (h : LoadsInterfaceTable s.module receiver index table)
    (hstatics : s.StaticsSound asm) (hlater : Session.Later asm s s') :
    LoadsInterfaceTable s'.module receiver index table := by
  obtain ⟨header, tables, entries, number, type, type', place, found, hheader, htables, hentries,
    hnumber, hplace, hfound, htable⟩ := h
  exact ⟨header, tables, entries, number, type, type', place, found,
    recasts_later hheader hstatics hlater, performs_later htables rfl hstatics hlater,
    recasts_later hentries hstatics hlater,
    hlater.value hnumber (by simp [Value.inst?]) (hstatics.not_isStatic hnumber (by simp)),
    performs_later hplace rfl hstatics hlater, performs_later hfound rfl hstatics hlater,
    recasts_later htable hstatics hlater⟩

theorem CallsEntry.later (h : CallsEntry s.module table position args call)
    (hstatics : s.StaticsSound asm) (hlater : Session.Later asm s s') :
    CallsEntry s'.module table position args call := by
  obtain ⟨struct, place, function, type, hplace, hfunction, hcall⟩ := h
  exact ⟨struct, place, function, type, performs_later hplace rfl hstatics hlater,
    performs_later hfunction rfl hstatics hlater, performs_later hcall rfl hstatics hlater⟩

variable {owner : TypeDefId} {object : Element} {type : TypeId}

end Tables

section Slots

variable {asm : Assembly} {site : Site} {s s' : EmitState} {slot : MethodId}

/-- Where the object that a method is called on is: on the stack below the other arguments. -/
def ReceiverOn (stack : EvalStack) (callee : MethodDef) (receiver : ValueId) : Prop :=
  ∃ below object above, stack.elements = below ++ object :: above ∧
    above.length + 1 = callee.argCount ∧ object.value = receiver

theorem popOnto_spec {count : Nat} {above args : List Element}
    (h : Emit.popOnto site count above s = .ok args s') : s'.session = s.session ∧ ∃ popped,
      args = popped ++ above ∧ popped.length = count ∧
        s.stack.elements = s'.stack.elements ++ popped := by
  induction count generalizing above s with
  | zero =>
      obtain ⟨rfl, rfl⟩ := pure_eq_ok_iff.mp h
      exact ⟨rfl, [], by simp⟩
  | succ count ih =>
      obtain ⟨e, s₁, hpop, h⟩ := bind_eq_ok_iff.mp h
      obtain ⟨rest, hrest, rfl⟩ := Emit.pop_eq_ok_iff.mp hpop
      obtain ⟨hsession, popped, rfl, hlength, hstack⟩ := ih h
      refine ⟨hsession, popped ++ [e], by simp, by simp [hlength], ?_⟩
      simp only [EvalStack.pop?, Option.map_eq_some_iff, Prod.mk.injEq] at hrest
      obtain ⟨top, htop, rfl, rfl⟩ := hrest
      have hsplit : s.stack.slots = s.stack.slots.dropLast ++ [top] :=
        (List.dropLast_append_getLast? top htop).symm
      rw [← List.append_assoc, ← hstack, EvalStack.elements, hsplit]
      simp [EvalStack.elements]

theorem slotPlace_spec {owner : TypeDefId} {place : TypeId × Nat} {t t' : Session}
    (h : Emit.slotPlace asm owner slot t = .ok place t') : t' = t ∧ ∃ vtable own,
      t.registry.vtables.lookup owner = some vtable ∧ vtable.table? owner = some own ∧
        own.slotIndex? slot = some place.2 := by
  simp only [Emit.slotPlace, bind_eq_ok_iff, Lower.consult_eq_ok_iff] at h
  obtain ⟨vtable, _, ⟨hvtable, rfl⟩, h⟩ := h
  cases hown : vtable.table? owner with
  | none => simp [hown] at h
  | some own =>
      cases hindex : own.slotIndex? slot with
      | none => simp [hown, hindex] at h
      | some index =>
          simp only [hown, hindex, Option.bind_some, Option.map_some] at h
          obtain ⟨rfl, rfl⟩ := pure_eq_ok_iff.mp h
          exact ⟨rfl, vtable, own, Registry.found_eq_ok_iff.mp hvtable, hown, hindex⟩

structure SlotCode (m : Module) (stack : EvalStack) (callee : MethodDef) (table : ValueId)
    (position : Nat) (receiver call : ValueId) : Prop where
  on_stack : ReceiverOn stack callee receiver
  /-- The function comes from an entry of the table, and its first argument is the object. -/
  entry : ∃ args, CallsEntry m table position args call ∧
    (callee.hasThis = true → ∃ this rest, args = this :: rest ∧ m.Recasts receiver this)

theorem SlotCode.later {t t' : Session} {stack : EvalStack} {callee : MethodDef}
    {table receiver call : ValueId} {position : Nat}
    (h : SlotCode t.module stack callee table position receiver call)
    (hstatics : t.StaticsSound asm) (hlater : Session.Later asm t t') :
    SlotCode t'.module stack callee table position receiver call := by
  obtain ⟨args, hentry, hthis⟩ := h.entry
  refine ⟨h.on_stack, args, hentry.later hstatics hlater, fun hhas => ?_⟩
  obtain ⟨this, rest, hargs, hrecasts⟩ := hthis hhas
  exact ⟨this, rest, hargs, recasts_later hrecasts hstatics hlater⟩

end Slots

end Lowering

end CilSsa
