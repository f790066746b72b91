import CilSsa.Lowering.Layout
import CilSsa.Lowering.Registry
import CilSsa.Ssa.DeadBlocks
import CilSsa.Ssa.DataLayout

/-!
The state of a compilation, and actions on it.

An action that stops leaves the state as changed so far.  Actions on a part of the state, the
module, the registry or the layouts, are actions on the whole.
-/

namespace CilSsa.Lowering

open CilSsa.Metadata CilSsa.Ssa

/-- The knobs of a compilation. -/
structure Settings where
  /-- The name of the module, which is part of the name of the static initializer. -/
  moduleName : String := "module"
  optLevel : OptLevel := .o0
  /-- Whether emitted functions are verified. -/
  verify : Bool := true
deriving DecidableEq, Repr

/-- The state of a compilation. -/
structure Session where
  registry : Registry := {}
  layouts : LayoutCache := {}
  module : Module
deriving DecidableEq, Repr

/-- An action of the compilation. -/
abbrev Lower := EStateM Stop Session

namespace Lower

/-- An action on the module. -/
def build {α : Type} (action : Build α) : Lower α := fun s =>
  match action s.module with
  | .ok a module => .ok a { s with module }
  | .error fault module => .error (.fault fault) { s with module }

/-- An action on the registry. -/
def register {α : Type} (action : Registering α) : Lower α := fun s =>
  match action s.registry with
  | .ok a registry => .ok a { s with registry }
  | .error stop registry => .error stop { s with registry }

def layout {α : Type} (action : Layouts α) : Lower α := fun s =>
  match action s.layouts with
  | .ok a layouts => .ok a { s with layouts }
  | .error stop layouts => .error stop { s with layouts }

/-- A question about ids. -/
def ask {α : Type} (question : Except Fault α) : Lower α := fun s =>
  match question with
  | .ok a => .ok a s
  | .error fault => .error (.fault fault) s

def consult {α : Type} (question : Registry → Except Stop α) : Lower α := fun s =>
  match question s.registry with
  | .ok a => .ok a s
  | .error stop => .error stop s

instance : MonadLift Build Lower := ⟨build⟩

instance : MonadLift Registering Lower := ⟨register⟩

instance : MonadLift Layouts Lower := ⟨layout⟩

instance : MonadLift (Except Fault) Lower := ⟨ask⟩

/-- Stops with a failure. -/
def fail {α : Type} (error : LoweringError) : Lower α := throw (.error error)

/-- Verifies a function if the settings ask for it. -/
def verify (settings : Settings) (f : FunctionId) : Lower Unit := do
  if settings.verify then
    match ← build (Build.query (·.verify f)) with
    | .ok () => return ()
    | .error error => fail (.verification error)

/-- Verifies and optimizes a finished function. -/
def finish (settings : Settings) (f : FunctionId) : Lower Unit := do
  verify settings f
  build (Build.optimize f settings.optLevel)

end Lower

end CilSsa.Lowering
