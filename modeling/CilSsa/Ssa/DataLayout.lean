import CilSsa.Ssa.Module

/-!
Sizes and alignments of types on a 64-bit target with natural alignment.

Members of a struct stand one after the other, each at the next multiple of its alignment; a packed
struct leaves no gaps.  The size of a struct is a multiple of its alignment.
-/

namespace CilSsa.Ssa

/-- Size and alignment of a type in bytes. -/
structure Extent where
  size : Nat
  align : Nat
deriving DecidableEq, Repr

/-- The bytes of a pointer, and the largest alignment. -/
def pointerSize : Nat := 8

def powerOfTwoAbove (n : Nat) : Nat := if n ≤ 1 then 1 else Nat.pow 2 ((n - 1).log2 + 1)

/-- The smallest multiple of `align` that is at least `n`. -/
def roundUp (n align : Nat) : Nat := (n + align - 1) / align * align

theorem dvd_roundUp (n align : Nat) : align ∣ roundUp n align := Nat.dvd_mul_left _ _

theorem le_roundUp {align : Nat} (n : Nat) (h : 0 < align) : n ≤ roundUp n align := by
  have hmod := Nat.mod_lt (n + align - 1) h
  have hdiv := Nat.div_add_mod (n + align - 1) align
  rw [roundUp, Nat.mul_comm]
  omega

namespace Extent

def scalar (size : Nat) : Extent := ⟨size, max 1 (min size pointerSize)⟩

/-- The same storage without alignment. -/
def unaligned (e : Extent) : Extent := ⟨e.size, 1⟩

/-- Where a member goes that follows storage up to `offset`. -/
def place (offset : Nat) (e : Extent) : Nat := roundUp offset e.align

def offsetsFrom : Nat → List Extent → List Nat
  | _, [] => []
  | offset, e :: rest => e.place offset :: offsetsFrom (e.place offset + e.size) rest

/-- Where the last of the members ends. -/
def endFrom : Nat → List Extent → Nat
  | offset, [] => offset
  | offset, e :: rest => endFrom (e.place offset + e.size) rest

/-- The largest alignment of members. -/
def maxAlign (members : List Extent) : Nat := (members.map Extent.align).foldl max 1

def ofMembers (members : List Extent) : Extent :=
  ⟨roundUp (endFrom 0 members) (maxAlign members), maxAlign members⟩

def inStruct (packed : Bool) (members : List Extent) : List Extent :=
  if packed then members.map unaligned else members

end Extent

namespace Module

variable (m : Module)

/-- The extent of a type.  Types nested in each other are at most as many as there are types. -/
def extentWith : Nat → TypeId → Except Fault Extent
  | 0, _ => .error .endless
  | fuel + 1, id => do
      match ← m.typeData id with
      | .void | .function .. | .struct _ none _ => return ⟨0, 1⟩
      | .int bits => return Extent.scalar (powerOfTwoAbove ((bits + 7) / 8))
      | .float bits => return Extent.scalar (bits / 8)
      | .pointer _ => return Extent.scalar pointerSize
      | .array element length =>
          let e ← extentWith fuel element
          return ⟨e.size * length, e.align⟩
      | .struct _ (some body) packed =>
          let members ← body.mapM (extentWith fuel)
          return Extent.ofMembers (Extent.inStruct packed members)

def extentOf (id : TypeId) : Except Fault Extent := m.extentWith (m.types.size + 1) id

/-- The offsets of the members of a defined struct. -/
def memberOffsets? (id : TypeId) : Except Fault (Option (List Nat)) := do
  match ← m.structBody? id with
  | some (body, packed) =>
      let members ← body.mapM m.extentOf
      return some (Extent.offsetsFrom 0 (Extent.inStruct packed members))
  | none => return none

/-- Sizes are words of this many bits. -/
def sizeBits : Nat := 64

/-- The bytes that a value of a type takes, gaps included. -/
def sizeOf (id : TypeId) : Except Fault Nat := return (← m.extentOf id).size % Nat.pow 2 sizeBits

end Module

end CilSsa.Ssa
