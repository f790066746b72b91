import CilSsa.Proofs.DispatchTables
import CilSsa.Proofs.Instructions
import CilSsa.Proofs.StructBodies

/-!
Objects in memory, as far as pointers to dispatch tables go.

A new object holds the pointers that its routine stores, each at the offset of a member.
Code that has the address of the object follows them: to a table, and to an entry of it.
Whether it finds what was stored depends on where the two structs, that of the routine and
that of the code, have the member.
-/

namespace CilSsa

open Ssa Metadata Lowering

namespace Ssa

/-- The bytes of an object that hold pointers: for each the pointer and which byte of it. -/
abbrev Image := Nat → Option (ValueId × Nat)

namespace Image

variable {image : Image} {offset offset' : Nat} {v v' : ValueId}

/-- The object once a pointer is stored at an offset. -/
def store (image : Image) (offset : Nat) (v : ValueId) : Image := fun byte =>
  if offset ≤ byte ∧ byte < offset + pointerSize then some (v, byte - offset) else image byte

/-- Whether a load at an offset finds a pointer: all bytes of it are there. -/
def Holds (image : Image) (offset : Nat) (v : ValueId) : Prop :=
  ∀ byte < pointerSize, image (offset + byte) = some (v, byte)

instance : Decidable (image.Holds offset v) := inferInstanceAs (Decidable (∀ byte < pointerSize, _))

theorem Holds.store (h : image.Holds offset v)
    (hapart : offset' + pointerSize ≤ offset ∨ offset + pointerSize ≤ offset') :
    (image.store offset' v').Holds offset v := by
  intro byte hbyte
  simp only [Image.store]
  rw [if_neg (by omega)]
  exact h byte hbyte

end Image

namespace Module

variable {m : Module} {struct : TypeId} {index index' offset offset' : Nat}

/-- The offset of a member of a struct.  It depends on the members up to this one only. -/
def offset? (m : Module) (struct : TypeId) (index : Nat) : Option Nat :=
  match m.structBody? struct with
  | .ok (some (body, packed)) =>
      match (body.take (index + 1)).mapM m.extentOf with
      | .ok members => (Extent.offsetsFrom 0 (Extent.inStruct packed members))[index]?
      | .error _ => none
  | _ => none

/-- The object that a list of stores to members of a struct makes. -/
def image (m : Module) (struct : TypeId) (stores : List (Nat × ValueId)) : Image :=
  stores.foldl (fun image store =>
    match m.offset? struct store.1 with
    | some offset => image.store offset store.2
    | none => image) fun _ => none

end Module

end Ssa

section Offsets

namespace Ssa.Extent

variable {members : List Extent} {start offset offset' : Nat} {i j : Nat} {e : Extent}

end Ssa.Extent

namespace Ssa.Module

variable {m : Module} {struct struct' : TypeId} {name name' : String} {body body' : List TypeId}
  {packed : Bool} {index index' offset offset' : Nat}

end Ssa.Module

end Offsets

namespace Ssa.Module

section Code

/-- Whether a value is the address that another is, perhaps at another type. -/
def Recasts (m : Module) (v v' : ValueId) : Prop :=
  v' = v ∨ ∃ op, (op = .bitcast ∨ op = .inttoptr) ∧ m.Performs v' (.cast op v)

/-- Where a pointer leads: to a byte of an object, or to an entry of a table. -/
inductive Place where
  | object (offset : Nat)
  | table (table : ValueId) (entry : Nat)

/-- Where the code of a module gets from the address of an object that holds pointers to tables. -/
inductive Leads (m : Module) (image : Image) (receiver : ValueId) : ValueId → Place → Prop where
  | receiver : Leads m image receiver receiver (.object 0)
  | recast {p v : ValueId} {place : Place} (h : Leads m image receiver p place)
      (code : m.Recasts p v) : Leads m image receiver v place
  | member {p v : ValueId} {start index offset : Nat} {struct : TypeId}
      (h : Leads m image receiver p (.object start))
      (code : m.Performs v (.structGep struct p index)) (stands : m.offset? struct index =
        some offset) : Leads m image receiver v (.object (start + offset))
  | slot {p v table : ValueId} {index : Nat} {struct : TypeId}
      (h : Leads m image receiver p (.table table 0))
      (code : m.Performs v (.structGep struct p index)) :
      Leads m image receiver v (.table table index)
  | element {p v table number : ValueId} {index : Nat} {type type' : TypeId}
      (h : Leads m image receiver p (.table table 0)) (code : m.Performs v (.gep type p number))
      (constant : m.values[number.index]? = some ⟨type', .constInt index⟩) :
      Leads m image receiver v (.table table index)
  | held {p v table : ValueId} {offset : Nat} (h : Leads m image receiver p (.object offset))
      (code : m.Performs v (.load p)) (found : image.Holds offset table) :
      Leads m image receiver v (.table table 0)
  | entry {p v table found : ValueId} {index : Nat} {items : List ValueId}
      (h : Leads m image receiver p (.table table index)) (code : m.Performs v (.load p))
      (entries : m.table? table = some items) (item : items[index]? = some found) :
      Leads m image receiver v (.table found 0)

/-- Whether a call goes to the function that it finds in a table of an object. -/
def Calls (m : Module) (image : Image) (receiver call target : ValueId) : Prop :=
  ∃ type function args p table index items,
    m.Performs call (.call (.indirect type function) args) ∧ m.Performs function (.load p) ∧
      m.Leads image receiver p (.table table index) ∧ m.table? table = some items ∧
        items[index]? = some target

end Code

end Ssa.Module

end CilSsa
