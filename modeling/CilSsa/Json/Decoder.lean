import CilSsa.Json.Basic
import CilSsa.Numeric.Shortest

/-!
Taking documents apart into values.

A decoder is given the number of nesting levels it may still enter.  Arrays, records and variants
with content each enter one level; members that no decoder asks for are never entered and may nest
as they like.

A record is an object in which each known key stands at most once and unknown keys are ignored, or
an array of the members in order.  A variant is its name, or an object with that name as the only
key.
-/

namespace CilSsa.Json

open CilSsa.Numeric

/-- Reads a value from a document within the given nesting levels. -/
abbrev Decoder (α : Type) := Nat → Document → Option α

/-- The levels that a document as a whole has. -/
def nestingLevels : Nat := 128

/-- The levels left inside one more array or object; the last level cannot be entered. -/
def enter : Nat → Option Nat
  | levels + 2 => some (levels + 1)
  | _ => none

namespace Decoder

def text : Decoder String
  | _, .string s => s
  | _, _ => none

/-- A truth value. -/
def bool : Decoder Bool
  | _, .bool b => some b
  | _, _ => none

/-- A natural number below `bound`, written as an integer without a sign. -/
def natBelow (bound : Nat) : Decoder Nat
  | _, .number (.integer false n) => if n < bound then some n else none
  | _, _ => none

/-- An integer of `bits` bits with a sign.  Minus zero is not an integer. -/
def intOfBits (bits : Nat) : Decoder Int
  | _, .number (.integer false n) => if n < Nat.pow 2 (bits - 1) then some n else none
  | _, .number (.integer true n) =>
      if 0 < n ∧ n ≤ Nat.pow 2 (bits - 1) then some (-(n : Int)) else none
  | _, _ => none

/-- The number of the 64-bit format that a literal stands for; a literal beyond the format has
none. -/
def finite? (x : Binary64) : Option Binary64 := if x.isFinite then some x else none

/-- A number of the 64-bit format. -/
def double : Decoder Binary64
  | _, .number (.integer negative n) => finite? (BinaryFormat.double.ofDecimal negative n 0)
  | _, .number (.decimal negative n exponent) =>
      finite? (BinaryFormat.double.ofDecimal negative n exponent)
  | _, _ => none

/-- Whether an integer literal fits a 64-bit word, with a sign if it has one. -/
def fitsWord (negative : Bool) (n : Nat) : Bool :=
  if negative then decide (0 < n ∧ n ≤ Nat.pow 2 63) else decide (n < Nat.pow 2 64)

/-- A number of the 32-bit format.  Integers that fit a word are rounded once, all other literals
by way of the 64-bit format. -/
def single : Decoder Binary64
  | levels, .number (.integer negative n) =>
      if fitsWord negative n then some (BinaryFormat.single.round negative n 1)
      else (double levels (.number (.integer negative n))).map Binary64.toSingle
  | levels, document => (double levels document).map Binary64.toSingle

/-- A value or `null`. -/
def opt {α : Type} (decode : Decoder α) : Decoder (Option α)
  | _, .null => some none
  | levels, document => (decode levels document).map some

/-- An array of values. -/
def list {α : Type} (decode : Decoder α) : Decoder (List α)
  | levels, .array items => do
      let inner ← enter levels
      items.mapM (decode inner)
  | _, _ => none

/-- The members of an object that stand under `key`; two are one too many. -/
def uniqueMember (key : String) (members : List (Option String × Document)) :
    Option (Option Document) :=
  match members.filter (fun (k, _) => k = some key) with
  | [] => some none
  | [(_, value)] => some (some value)
  | _ => none

/-- The members of a record in the order of `keys`, each absent or present once, and the levels
left inside. -/
def record (keys : List String) : Nat → Document → Option (Nat × List (Option Document))
  | levels, .object members => do
      let inner ← enter levels
      if members.all (fun (k, _) => k.isSome) then
        let slots ← keys.mapM (fun key => uniqueMember key members)
        return (inner, slots)
      else none
  | levels, .array items => do
      let inner ← enter levels
      if items.length ≤ keys.length then
        return (inner, items.map some ++ List.replicate (keys.length - items.length) none)
      else none
  | _, _ => none

/-- A member that must be there. -/
def required {α : Type} (decode : Decoder α) (levels : Nat) : Option Document → Option α
  | some document => decode levels document
  | none => none

/-- A member with a value for when it is not there. -/
def orElse {α : Type} (decode : Decoder α) (absent : α) (levels : Nat) :
    Option Document → Option α
  | some document => decode levels document
  | none => some absent

/-- The name of a variant, and its content if it is written with one. -/
def variant : Nat → Document → Option (String × Option (Nat × Document))
  | _, .string (some name) => some (name, none)
  | levels, .object [(some name, content)] => do
      let inner ← enter levels
      return (name, some (inner, content))
  | _, _ => none

/-- The content of a variant that has none of its own: nothing, or `null`. -/
def noContent : Option (Nat × Document) → Bool
  | none => true
  | some (_, .null) => true
  | _ => false

/-- The content of a variant that must have one. -/
def content {α : Type} (decode : Decoder α) : Option (Nat × Document) → Option α
  | some (levels, document) => decode levels document
  | none => none

/-- One of finitely many names. -/
def named {α : Type} (all : List α) (name : α → String) : Decoder α
  | levels, document => do
      let (written, content) ← variant levels document
      if noContent content then all.find? (fun a => name a = written) else none

end Decoder

/-- The document of a floating-point number: its shortest decimal; only finite numbers have one. -/
def Document.float : Binary64 → Document
  | .finite negative mantissa exponent =>
      let d := Decimal.shortest mantissa exponent
      .number (.decimal negative d.digits d.exponent)
  | _ => .null

end CilSsa.Json
