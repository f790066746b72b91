import CilSsa.Lowering.Emit.Memory

/-!
Arrays with one dimension.  An array is a pointer to its first element and does not know its
length.
-/

namespace CilSsa.Lowering.Emit

open CilSsa.Metadata CilSsa.Ssa

def nativeValue (asm : Assembly) (e : Element) : Build ValueId := do
  let signed ← Build.ask (isSigned asm e.sig)
  toNativeInt e.value signed

def elementAddress (asm : Assembly) (type : TypeId) (array index : Element) : Build ValueId := do
  let base ← pointerTo type array
  let index ← nativeValue asm index
  Build.gep type base index

def elementSig (site : Site) (source : ElementSource) (array : Element) : Emit TypeSig :=
  match source with
  | .fixed sig => return sig
  | .token => typeOperand site
  | .reference => return pointedSig (some array)

/-- `newarr`. -/
def newArray (site : Site) : Emit Unit := do
  let sig ← typeOperand site
  let count ← pop site
  let element ← irType site.asm sig
  let count ← lower (nativeValue site.asm count)
  let array ← Build.heapAlloc element (some count)
  let type ← lower (Build.query (·.typeOf array))
  push ⟨array, .array sig, type⟩

/-- `ldelema`. -/
def loadElementAddress (site : Site) : Emit Unit := do
  let sig ← typeOperand site
  let index ← pop site
  let array ← pop site
  let element ← irType site.asm sig
  let address ← lower (elementAddress site.asm element array index)
  let type ← lower (Build.query (·.typeOf address))
  push ⟨address, .byRef sig, type⟩

/-- `ldelem` in all its forms. -/
def loadElement (site : Site) (source : ElementSource) : Emit Unit := do
  let index ← pop site
  let array ← pop site
  let sig ← elementSig site source array
  let element ← irType site.asm sig
  let address ← lower (elementAddress site.asm element array index)
  let value ← Build.load element address
  push (← lower (toStack site.asm value sig))

/-- `stelem` in all its forms.  References are stored as they are. -/
def storeElement (site : Site) (source : ElementSource) : Emit Unit := do
  let value ← pop site
  let index ← pop site
  let array ← pop site
  let element ← match source with
    | .reference => pure value.type
    | _ => do
        let sig ← elementSig site source array
        lower (irType site.asm sig)
  let address ← lower (elementAddress site.asm element array index)
  let stored ← lower (valueOf site.asm element value)
  Build.store address stored site.instr.isVolatile

end CilSsa.Lowering.Emit
