/-!
JSON documents.

A number keeps how it was written: as an integer, or with a fraction or an exponent.  A string may
be written with an escape for half of a surrogate pair and then denotes no text; the document still
reads, and only a use of that string fails.
-/

namespace CilSsa.Json

inductive Number where
  /-- Digits only, after an optional minus sign. -/
  | integer (negative : Bool) (magnitude : Nat)
  /-- With a fraction or an exponent: `digits * 10 ^ exponent`. -/
  | decimal (negative : Bool) (digits : Nat) (exponent : Int)
deriving DecidableEq, Repr

/-- A JSON document.  The text of a string is absent if its escapes do not pair up. -/
inductive Document where
  | null
  | bool (value : Bool)
  | number (value : Number)
  | string (text : Option String)
  | array (items : List Document)
  | object (members : List (Option String × Document))

namespace Document

def text (s : String) : Document := .string (some s)

def nat (n : Nat) : Document := .number (.integer false n)

def int (value : Int) : Document := .number (.integer (decide (value < 0)) value.natAbs)

/-- The document of an optional value. -/
def opt {α : Type} (write : α → Document) : Option α → Document
  | none => .null
  | some a => write a

def list {α : Type} (write : α → Document) (items : List α) : Document :=
  .array (items.map write)

/-- An object with the given members. -/
def record (members : List (String × Document)) : Document :=
  .object (members.map fun (key, value) => (some key, value))

/-- The first member of an object with this key. -/
def member? (key : String) : Document → Option Document
  | .object members => members.lookup (some key)
  | _ => none

end Document

end CilSsa.Json
