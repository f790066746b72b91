import CilSsa.Json.Basic
import CilSsa.Text.Hex

/-!
Reading JSON text.

The grammar is the strict one: no leading zeros, no bare fraction points, no trailing commas, no
control characters inside strings, and nothing but blanks after the document.  Every reader takes
the characters still to come and returns what it read with the characters that follow it.
-/

namespace CilSsa.Json

/-- Blanks between tokens. -/
def isBlank (c : Char) : Bool := c = ' ' || c = '\n' || c = '\r' || c = '\t'

/-- The characters after any blanks. -/
def skipBlanks (cs : List Char) : List Char := cs.dropWhile isBlank

def digitValue (c : Char) : Nat := c.toNat - '0'.toNat

/-- The number that a run of decimal digits writes. -/
def digitsValue (cs : List Char) : Nat := cs.foldl (fun n c => 10 * n + digitValue c) 0

/-- What a backslash and one letter stand for. -/
def shortEscape? : Char → Option Nat
  | '"' => some 0x22
  | '\\' => some 0x5c
  | '/' => some 0x2f
  | 'b' => some 0x08
  | 'f' => some 0x0c
  | 'n' => some 0x0a
  | 'r' => some 0x0d
  | 't' => some 0x09
  | _ => none

/-- The code numbers of a string up to its closing quote, in reverse, and what follows the quote.
A surrogate escape contributes the number of its half. -/
def readCodes (codes : List Nat) : List Char → Option (List Nat × List Char)
  | [] => none
  | '"' :: rest => some (codes, rest)
  | '\\' :: 'u' :: a :: b :: c :: d :: rest =>
      match Text.hexNumber? [a, b, c, d] with
      | some unit => readCodes (unit :: codes) rest
      | none => none
  | '\\' :: c :: rest =>
      match shortEscape? c with
      | some code => readCodes (code :: codes) rest
      | none => none
  | c :: rest => if c.toNat < 0x20 ∨ c = '\\' then none else readCodes (c.toNat :: codes) rest

/-- The text of code numbers given in reverse: a low half must follow a high one, and no half may
stand alone. -/
def joinHalves (text : List Char) : List Nat → Option (List Char)
  | [] => some text
  | code :: rest =>
      if 0xDC00 ≤ code ∧ code ≤ 0xDFFF then
        match rest with
        | high :: rest =>
            if 0xD800 ≤ high ∧ high ≤ 0xDBFF then
              joinHalves
                (Char.ofNat (0x10000 + (high - 0xD800) * 0x400 + (code - 0xDC00)) :: text) rest
            else none
        | [] => none
      else if 0xD800 ≤ code ∧ code ≤ 0xDBFF then none
      else joinHalves (Char.ofNat code :: text) rest

/-- The string after its opening quote. -/
def readString (cs : List Char) : Option (Option String × List Char) := do
  let (codes, rest) ← readCodes [] cs
  return ((joinHalves [] codes).map String.ofList, rest)

/-- The fraction digits after the integer part, if there is a point. -/
def readFraction : List Char → Option (Option (List Char) × List Char)
  | '.' :: cs =>
      match cs.takeWhile Char.isDigit with
      | [] => none
      | digits => some (some digits, cs.dropWhile Char.isDigit)
  | cs => some (none, cs)

/-- The digits of an exponent after its sign. -/
def readExponentDigits (negative : Bool) (cs : List Char) : Option (Int × List Char) :=
  match cs.takeWhile Char.isDigit with
  | [] => none
  | digits =>
      let value : Int := digitsValue digits
      some (if negative then -value else value, cs.dropWhile Char.isDigit)

def readExponent : List Char → Option (Option Int × List Char)
  | c :: cs =>
      if c = 'e' ∨ c = 'E' then do
        let (value, rest) ← match cs with
          | '-' :: cs => readExponentDigits true cs
          | '+' :: cs => readExponentDigits false cs
          | cs => readExponentDigits false cs
        return (some value, rest)
      else some (none, c :: cs)
  | [] => some (none, [])

/-- The integer part: a single zero, or digits that do not start with one. -/
def readWhole : List Char → Option (List Char × List Char)
  | '0' :: cs =>
      match cs with
      | c :: _ => if c.isDigit then none else some (['0'], cs)
      | [] => some (['0'], [])
  | cs =>
      match cs.takeWhile Char.isDigit with
      | [] => none
      | digits => some (digits, cs.dropWhile Char.isDigit)

/-- A number after its sign. -/
def readMagnitude (negative : Bool) (cs : List Char) : Option (Number × List Char) := do
  let (whole, cs) ← readWhole cs
  let (fraction, cs) ← readFraction cs
  let (exponent, cs) ← readExponent cs
  match fraction, exponent with
  | none, none => return (.integer negative (digitsValue whole), cs)
  | fraction, exponent =>
      let fraction := fraction.getD []
      let digits := digitsValue (whole ++ fraction)
      return (.decimal negative digits (exponent.getD 0 - fraction.length), cs)

def readNumber : List Char → Option (Number × List Char)
  | '-' :: cs => readMagnitude true cs
  | cs => readMagnitude false cs

/-- The characters after a fixed word. -/
def readWord : List Char → List Char → Option (List Char)
  | [], cs => some cs
  | w :: word, c :: cs => if w = c then readWord word cs else none
  | _ :: _, [] => none

mutual

/-- A document; `fuel` bounds the number of readers entered on the way. -/
def readDocument : Nat → List Char → Option (Document × List Char)
  | 0, _ => none
  | fuel + 1, cs =>
      match skipBlanks cs with
      | 'n' :: rest => do
          let rest ← readWord ['u', 'l', 'l'] rest
          return (.null, rest)
      | 't' :: rest => do
          let rest ← readWord ['r', 'u', 'e'] rest
          return (.bool true, rest)
      | 'f' :: rest => do
          let rest ← readWord ['a', 'l', 's', 'e'] rest
          return (.bool false, rest)
      | '"' :: rest => do
          let (text, rest) ← readString rest
          return (.string text, rest)
      | '[' :: rest =>
          match skipBlanks rest with
          | ']' :: rest => some (.array [], rest)
          | rest => do
              let (items, rest) ← readItems fuel [] rest
              return (.array items, rest)
      | '\x7b' :: rest =>
          match skipBlanks rest with
          | '\x7d' :: rest => some (.object [], rest)
          | rest => do
              let (members, rest) ← readMembers fuel [] rest
              return (.object members, rest)
      | rest => do
          let (value, rest) ← readNumber rest
          return (.number value, rest)

/-- The items of an array from one of them to the closing bracket; `items` holds the earlier ones
in reverse. -/
def readItems : Nat → List Document → List Char → Option (List Document × List Char)
  | 0, _, _ => none
  | fuel + 1, items, cs => do
      let (item, rest) ← readDocument fuel cs
      match skipBlanks rest with
      | ',' :: rest => readItems fuel (item :: items) rest
      | ']' :: rest => some ((item :: items).reverse, rest)
      | _ => none

/-- The members of an object from one of them to the closing brace; `members` holds the earlier
ones in reverse. -/
def readMembers : Nat → List (Option String × Document) → List Char →
    Option (List (Option String × Document) × List Char)
  | 0, _, _ => none
  | fuel + 1, members, cs =>
      match skipBlanks cs with
      | '"' :: rest => do
          let (key, rest) ← readString rest
          match skipBlanks rest with
          | ':' :: rest =>
              let (value, rest) ← readDocument fuel rest
              match skipBlanks rest with
              | ',' :: rest => readMembers fuel ((key, value) :: members) rest
              | '\x7d' :: rest => some (((key, value) :: members).reverse, rest)
              | _ => none
          | _ => none
      | _ => none

end

/-- The document that a text writes, if it writes one. -/
def Document.parse? (text : String) : Option Document := do
  let cs := text.toList
  let (document, rest) ← readDocument (cs.length + 1) cs
  if (skipBlanks rest).isEmpty then some document else none

end CilSsa.Json
