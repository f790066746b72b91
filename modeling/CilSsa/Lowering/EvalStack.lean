import CilSsa.Lowering.Coercion

/-!
The evaluation stack, and how the stacks of several predecessors become the stack of a block.

A body is emitted in one pass, so the predecessors of a block are met one after the other.  With a
single predecessor its values are used as they are.  With more, each slot keeps the first value
until a second one arrives, and from then on it holds a phi at the head of the block.
-/

namespace CilSsa.Lowering

open CilSsa.Metadata CilSsa.Ssa

/-- Where a slot of the stack of a block with several predecessors stands. -/
inductive SlotState where
  /-- No edge has reached it. -/
  | unvisited
  /-- It holds the value of the one predecessor seen so far. -/
  | deferred (source : BlockId)
  /-- It holds a phi. -/
  | phi
deriving DecidableEq, Repr

/-- A slot of an evaluation stack. -/
structure Slot where
  element : Element
  state : SlotState
deriving DecidableEq, Repr

/-- An evaluation stack, the bottom first. -/
structure EvalStack where
  slots : List Slot := []
deriving DecidableEq, Repr

namespace EvalStack

/-- The elements, the bottom first. -/
def elements (s : EvalStack) : List Element := s.slots.map Slot.element

/-- The number of elements. -/
def size (s : EvalStack) : Nat := s.slots.length

/-- A stack with these elements, none of them visited. -/
def ofElements (elements : List Element) : EvalStack := ⟨elements.map (⟨·, .unvisited⟩)⟩

def push (s : EvalStack) (e : Element) : EvalStack := ⟨s.slots ++ [⟨e, .unvisited⟩]⟩

/-- The top and the stack below it. -/
def pop? (s : EvalStack) : Option (Element × EvalStack) :=
  s.slots.getLast?.map fun top => (top.element, ⟨s.slots.dropLast⟩)

/-- The top. -/
def peek? (s : EvalStack) : Option Element := s.slots.getLast?.map Slot.element

/-- A working copy for the code of a block. -/
def snapshot (s : EvalStack) : EvalStack := ofElements s.elements

section Elements

@[simp] theorem elements_push (s : EvalStack) (e : Element) :
    (s.push e).elements = s.elements ++ [e] := by
  simp [push, elements]

@[simp] theorem elements_ofElements (elements : List Element) :
    (ofElements elements).elements = elements := by
  simp [ofElements, EvalStack.elements, Function.comp_def]

@[simp] theorem elements_snapshot (s : EvalStack) : s.snapshot.elements = s.elements :=
  elements_ofElements s.elements

theorem length_elements (s : EvalStack) : s.elements.length = s.size := by
  simp [elements, size]

@[simp] theorem pop?_push (s : EvalStack) (e : Element) : (s.push e).pop? = some (e, s) := by
  simp [push, pop?]

@[simp] theorem peek?_push (s : EvalStack) (e : Element) : (s.push e).peek? = some e := by
  simp [push, peek?]

/-- A top that is taken off was the last element. -/
theorem elements_of_pop? {s rest : EvalStack} {e : Element} (h : s.pop? = some (e, rest)) :
    s.elements = rest.elements ++ [e] := by
  simp only [pop?, Option.map_eq_some_iff, Prod.mk.injEq] at h
  obtain ⟨top, hlast, rfl, rfl⟩ := h
  obtain ⟨below, hslots⟩ := List.getLast?_eq_some_iff.mp hlast
  simp [elements, hslots]

end Elements

/-- Merges the value that `source` brings into a slot of `target`.  The first value is kept as it
is, the second makes a phi of both, and later ones become further entries.  Values of another type
are converted at the end of `source`. -/
def mergeSlot (asm : Assembly) (source target : BlockId) (slot : Slot) (e : Element) :
    Build Slot := do
  match slot.state with
  | .unvisited => return ⟨e, .deferred source⟩
  | .deferred first => do
      let held := slot.element
      let phi ← Build.phi target held.type
      Build.addIncoming phi held.value first
      let signed ← Build.ask (isSigned asm e.sig)
      let value ← coerce e.value held.type signed
      Build.addIncoming phi value source
      return ⟨{ held with value := phi }, .phi⟩
  | .phi => do
      let signed ← Build.ask (isSigned asm e.sig)
      let value ← coerce e.value slot.element.type signed
      Build.addIncoming slot.element.value value source
      return slot

/-- Merges values into slots from the bottom up; values above all slots get slots of their own. -/
def mergeSlots (asm : Assembly) (source target : BlockId) :
    List Slot → List Element → Build (List Slot)
  | slots, [] => return slots
  | [], e :: rest => return (e :: rest).map (⟨·, .deferred source⟩)
  | slot :: slots, e :: rest => do
      let merged ← mergeSlot asm source target slot e
      return merged :: (← mergeSlots asm source target slots rest)

/-- How many values at the bottom of `incoming` lie below everything seen so far. -/
def surplus (s incoming : EvalStack) : Nat := if s.slots.isEmpty then 0 else incoming.size - s.size

/-- Merges the stack at the end of `source` into the stack of `target`, which has `refers`
predecessors.  Runs before the terminator of `source` is added. -/
def merge (asm : Assembly) (s incoming : EvalStack) (source target : BlockId) (refers : Nat) :
    Build EvalStack := do
  if refers ≤ 1 then return ⟨s.slots ++ (ofElements incoming.elements).slots⟩
  else
    let below := s.surplus incoming
    let bottom := (incoming.elements.take below).map (⟨·, .deferred source⟩)
    let merged ← mergeSlots asm source target s.slots (incoming.elements.drop below)
    return ⟨bottom ++ merged⟩

end EvalStack

end CilSsa.Lowering
