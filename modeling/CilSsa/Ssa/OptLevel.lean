/-!
Optimization levels.
-/

namespace CilSsa.Ssa

/-- How much is done to a function after it is emitted. -/
inductive OptLevel where
  | o0
  | o1
  | o2
  | o3
deriving DecidableEq, Repr

/-- A text that names no level. -/
structure OptLevelError where
  text : String
deriving DecidableEq, Repr

def OptLevelError.message (e : OptLevelError) : String :=
  s!"invalid optimization level `{e.text}` (expected 0, 1, 2 or 3)"

namespace OptLevel

def number : OptLevel → Nat
  | o0 => 0
  | o1 => 1
  | o2 => 2
  | o3 => 3

/-- The text of a level. -/
def render (level : OptLevel) : String := s!"O{level.number}"

/-- The name of the pass pipeline of a level. -/
def pipeline (level : OptLevel) : String := s!"default<{level.render}>"

/-- Whether a level changes anything. -/
def isEnabled : OptLevel → Bool
  | o0 => false
  | o1 | o2 | o3 => true

def ofDigits? : List Char → Option OptLevel
  | ['0'] => some o0
  | ['1'] => some o1
  | ['2'] => some o2
  | ['3'] => some o3
  | _ => none

/-- The digits of a level, which may follow one letter `O`. -/
def digits : List Char → List Char
  | 'O' :: cs => cs
  | 'o' :: cs => cs
  | cs => cs

def parse (text : String) : Except OptLevelError OptLevel :=
  match ofDigits? (digits text.toList) with
  | some level => .ok level
  | none => .error ⟨text⟩

theorem parse_render (level : OptLevel) : parse level.render = .ok level := by
  cases level <;> rfl

end OptLevel

end CilSsa.Ssa
