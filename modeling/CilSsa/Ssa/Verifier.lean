import CilSsa.Ssa.Module

/-!
Verification of one function: no recorded misuse, every block ended, no branch out of the function,
phis at the heads of their blocks, and phi entries from predecessors only.
-/

namespace CilSsa.Ssa

/-- What is wrong with a function. -/
inductive Defect where
  | misuse (cause : Misuse)
  | missingTerminator (block : String)
  | branchOutside (block : String)
  | latePhi (block : String)
  | strayIncoming (block source : String)
deriving DecidableEq, Repr

def Defect.message : Defect → String
  | misuse cause => cause.message
  | missingTerminator block => s!"block `{block}` has no terminator"
  | branchOutside block => s!"block `{block}` branches outside the function"
  | latePhi block => s!"phi after a non-phi instruction in `{block}`"
  | strayIncoming block source =>
      s!"phi in `{block}` has an incoming edge from non-predecessor `{source}`"

/-- A function that is not well formed. -/
structure VerifyError where
  function : String
  defect : Defect
deriving DecidableEq, Repr

def VerifyError.message (e : VerifyError) : String :=
  s!"function `{e.function}` failed verification: {e.defect.message}"

namespace Module

variable (m : Module)

/-- The blocks of a list whose terminators lead to `target`. -/
def predecessors (blocks : List BlockId) (target : BlockId) : Except Fault (List BlockId) :=
  blocks.filterM fun b => return decide (target ∈ (← m.block b).successors)

/-- The first misuse recorded against a function. -/
def misuseOf? (id : FunctionId) : Option Misuse :=
  (m.misuses.toList.find? fun (function, _) => function = some id).map Prod.snd

/-- The end of a block, and where it leads. -/
def terminatorDefect? (owned : List BlockId) (b : BlockId) : Except Fault (Option Defect) := do
  let block ← m.block b
  match block.terminator with
  | none => return some (.missingTerminator block.name)
  | some t =>
      return if t.successors.all (· ∈ owned) then none else some (.branchOutside block.name)

/-- The first entry of a phi that comes from no predecessor. -/
def incomingDefect? (block : String) (preds : List BlockId) :
    List (ValueId × BlockId) → Except Fault (Option Defect)
  | [] => return none
  | (_, source) :: rest => do
      if source ∈ preds then incomingDefect? block preds rest
      else return some (.strayIncoming block (← m.block source).name)

/-- The phis among instructions; `inHead` says whether only phis came before. -/
def phiDefect? (block : String) (preds : List BlockId) :
    Bool → List ValueId → Except Fault (Option Defect)
  | _, [] => return none
  | inHead, v :: rest => do
      match ← m.incoming? v with
      | none => phiDefect? block preds false rest
      | some incoming =>
          if !inHead then return some (.latePhi block)
          else
            match ← m.incomingDefect? block preds incoming with
            | some defect => return some defect
            | none => phiDefect? block preds inHead rest

def blockPhiDefect? (owned : List BlockId) (b : BlockId) : Except Fault (Option Defect) := do
  let block ← m.block b
  m.phiDefect? block.name (← m.predecessors owned b) true block.insts

def defect? (id : FunctionId) : Except Fault (Option Defect) := do
  let f ← m.function id
  match m.misuseOf? id with
  | some misuse => return some (.misuse misuse)
  | none => do
      match ← f.blocks.findSomeM? (m.terminatorDefect? f.blocks) with
      | some defect => return some defect
      | none => f.blocks.findSomeM? (m.blockPhiDefect? f.blocks)

/-- Whether a function is well formed. -/
def verify (id : FunctionId) : Except Fault (Except VerifyError Unit) := do
  match ← m.defect? id with
  | some defect => return .error ⟨(← m.function id).name, defect⟩
  | none => return .ok ()

end Module

end CilSsa.Ssa
