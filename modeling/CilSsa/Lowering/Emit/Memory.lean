import CilSsa.Lowering.Emit.State

/-!
Loads and stores through addresses on the stack.
-/

namespace CilSsa.Lowering.Emit

open CilSsa.Metadata CilSsa.Ssa

def pointerTo (type : TypeId) (e : Element) : Build ValueId := do
  coerce e.value (← Build.pointerType type) false

def valueOf (asm : Assembly) (type : TypeId) (e : Element) : Build ValueId := do
  let signed ← Build.ask (isSigned asm e.sig)
  coerce e.value type signed

/-- What an address of this element points to; without a better answer it is an object. -/
def pointedSig (address : Option Element) : TypeSig :=
  (address.bind fun e => e.sig.element?).getD .object

/-- Replaces the address on top of the stack by the value there. -/
def loadThrough (site : Site) (sig : TypeSig) : Emit Unit := do
  let address ← pop site
  let type ← irType site.asm sig
  let pointer ← lower (pointerTo type address)
  let value ← Build.load type pointer
  push (← lower (toStack site.asm value sig))

def storeThrough (site : Site) (type : TypeId) (value address : Element) : Emit Unit := do
  let stored ← lower (valueOf site.asm type value)
  let pointer ← lower (pointerTo type address)
  Build.store pointer stored site.instr.isVolatile

/-- `ldind` in all its forms. -/
def loadIndirect (site : Site) (sig : Option TypeSig) : Emit Unit := do
  let top := (← get).stack.peek?
  loadThrough site (sig.getD (pointedSig top))

/-- `stind` in all its forms.  References are stored as they are. -/
def storeIndirect (site : Site) (sig : Option TypeSig) : Emit Unit := do
  let value ← pop site
  let address ← pop site
  let type ← match sig with
    | some sig => lower (irType site.asm sig)
    | none => pure value.type
  storeThrough site type value address

/-- `ldobj`. -/
def loadObject (site : Site) : Emit Unit := do
  let sig ← typeOperand site
  loadThrough site sig

/-- `stobj`. -/
def storeObject (site : Site) : Emit Unit := do
  let sig ← typeOperand site
  let value ← pop site
  let address ← pop site
  let type ← irType site.asm sig
  storeThrough site type value address

/-- `initobj`: zeroes the value at an address. -/
def initObject (site : Site) : Emit Unit := do
  let sig ← typeOperand site
  let address ← pop site
  let type ← irType site.asm sig
  let pointer ← lower (pointerTo type address)
  let zero ← Build.constNull type
  Build.store pointer zero site.instr.isVolatile

end CilSsa.Lowering.Emit
