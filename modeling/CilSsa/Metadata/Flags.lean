import CilSsa.Text.Hex

/-!
Attribute sets of types and methods, and their text: names in the order of their bits, joined by
bars, and the bits without a name as one hexadecimal number at the end.
-/

namespace CilSsa.Metadata

/-- Attribute sets are words of this many bits. -/
def flagBits : Nat := 32

/-- A set of attributes.  Bits without a name are kept. -/
abbrev FlagWord := BitVec flagBits

namespace FlagWord

/-- The names whose bits are set; `position` is the bit of the first name. -/
def namesFrom (word : FlagWord) : Nat → List String → List String
  | _, [] => []
  | position, name :: rest =>
      if word.getLsbD position then name :: namesFrom word (position + 1) rest
      else namesFrom word (position + 1) rest

/-- The bits beyond the named ones. -/
def unnamed (word : FlagWord) (names : List String) : Nat :=
  word.toNat / Nat.pow 2 names.length * Nat.pow 2 names.length

/-- The text of a set. -/
def render (names : List String) (word : FlagWord) : String :=
  let extra := word.unnamed names
  let pieces := word.namesFrom 0 names
    ++ (if extra = 0 then [] else ["0x" ++ Text.hexDigits extra])
  " | ".intercalate pieces

/-- Characters that may surround a piece. -/
def isSpace (c : Char) : Bool :=
  let n := c.toNat
  (0x9 ≤ n && n ≤ 0xd) || n = 0x20 || n = 0x85 || n = 0xa0 || n = 0x1680
    || (0x2000 ≤ n && n ≤ 0x200a) || n = 0x2028 || n = 0x2029 || n = 0x202f || n = 0x205f
    || n = 0x3000

/-- The characters without the spaces around them. -/
def trim (cs : List Char) : List Char :=
  ((cs.dropWhile isSpace).reverse.dropWhile isSpace).reverse

/-- A number after `0x`, which may have a plus sign. -/
def unsignedHex? : List Char → Option Nat
  | '+' :: cs => Text.hexNumber? cs
  | cs => Text.hexNumber? cs

/-- The bits of one piece: a name, or a hexadecimal number that fits the word. -/
def piece? (names : List String) (cs : List Char) : Option FlagWord :=
  match cs with
  | [] => none
  | '0' :: 'x' :: digits => do
      let n ← unsignedHex? digits
      if n < Nat.pow 2 flagBits then some (BitVec.ofNat flagBits n) else none
  | cs => do
      let position ← names.idxOf? (String.ofList cs)
      return BitVec.twoPow flagBits position

/-- The pieces of a text between bars. -/
def splitBars (cs : List Char) : List (List Char) := cs.splitOn '|'

/-- The set that a text writes. -/
def parse? (names : List String) (text : String) : Option FlagWord :=
  let cs := text.toList
  if (trim cs).isEmpty then some 0
  else do
    let words ← (splitBars cs).mapM (fun piece => piece? names (trim piece))
    return words.foldl (· ||| ·) 0

end FlagWord

structure TypeFlags where
  word : FlagWord := 0
deriving DecidableEq, Repr

namespace TypeFlags

/-- The names of the bits, lowest first. -/
def names : List String := ["VALUE_TYPE", "ENUM", "INTERFACE", "ABSTRACT", "SEALED"]

def valueType : FlagWord := 0x1
def enum : FlagWord := 0x2
def interface : FlagWord := 0x4
def abstract : FlagWord := 0x8

def contains (flags : TypeFlags) (bits : FlagWord) : Bool := flags.word &&& bits == bits

end TypeFlags

structure MethodFlags where
  word : FlagWord := 0
deriving DecidableEq, Repr

namespace MethodFlags

/-- The names of the bits, lowest first. -/
def names : List String := ["STATIC", "VIRTUAL", "ABSTRACT", "NEW_SLOT", "SPECIAL_NAME"]

def static : FlagWord := 0x1
def virtual : FlagWord := 0x2
def abstract : FlagWord := 0x4
def newSlot : FlagWord := 0x8

def contains (flags : MethodFlags) (bits : FlagWord) : Bool := flags.word &&& bits == bits

end MethodFlags

end CilSsa.Metadata
