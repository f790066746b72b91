import CilSsa.Lowering.Emit.Compare

/-!
Branches and returns.  Every edge passes the stack on before the branch is emitted.
-/

namespace CilSsa.Lowering.Emit

open CilSsa.Metadata CilSsa.Ssa

/-- Goes to `target` if the condition holds, and on to the next instruction otherwise. -/
def conditional (site : Site) (cond : ValueId) (target : Nat) : Emit Unit := do
  let next := site.index + 1
  let thenBlock ← reconcile site target
  if target = next then Build.br thenBlock
  else
    let elseBlock ← reconcile site next
    Build.condBr cond thenBlock elseBlock

def testZero (e : Element) (onZero : Bool) : Build ValueId := do
  if (← Build.query (·.classify e.type)).isFloat then
    let zero ← Build.constFloat e.type (Numeric.Binary64.zero false)
    Build.fcmp (if onZero then .oeq else .une) e.value zero
  else
    let zero ← Build.constNull e.type
    Build.icmp (if onZero then .eq else .ne) e.value zero

/-- `br`. -/
def branch (site : Site) : Emit Unit := do
  let target ← targetOperand site
  let block ← reconcile site target
  Build.br block

/-- `brtrue` and `brfalse`. -/
def branchIf (site : Site) (onZero : Bool) : Emit Unit := do
  let target ← targetOperand site
  let e ← pop site
  let cond ← lower (testZero e onZero)
  conditional site cond target

/-- `beq`, `bge` and so on. -/
def compareBranch (site : Site) (relation : Relation) (unsigned : Bool) : Emit Unit := do
  let target ← targetOperand site
  let rhs ← pop site
  let lhs ← pop site
  let cond ← lower (compareValues site.asm relation unsigned lhs rhs)
  conditional site cond target

def edge (site : Site) (known : List (Nat × BlockId)) (position : Nat) :
    Emit (List (Nat × BlockId) × BlockId) := do
  match known.lookup position with
  | some block => return (known, block)
  | none => do
      let block ← reconcile site position
      return (known ++ [(position, block)], block)

/-- The cases of a jump table from number `case` on. -/
def switchCases (site : Site) :
    List (Nat × BlockId) → Nat → List Nat → Emit (List (Nat × BlockId) × List (Int × BlockId))
  | known, _, [] => return (known, [])
  | known, case, position :: rest => do
      let (known, block) ← edge site known position
      let (known, cases) ← switchCases site known (case + 1) rest
      return (known, ((case : Int), block) :: cases)

def switch (site : Site) : Emit Unit := do
  match site.instr.operand with
  | .switch positions => do
      let selector ← pop site
      let type ← Build.intType 32
      let signed ← lower (isSigned site.asm selector.sig)
      let value ← lower (coerce selector.value type signed)
      let (known, cases) ← switchCases site [] 0 positions
      let (_, default) ← edge site known (site.index + 1)
      Build.switch value default cases
  | _ => malformed site .jumpTableExpected

def ret (site : Site) : Emit Unit := do
  let sig := site.method.returnType
  if sig = .void then Build.ret none
  else
    let type ← irType site.asm sig
    let e ← pop site
    let signed ← lower (isSigned site.asm e.sig)
    let value ← lower (coerce e.value type signed)
    Build.ret (some value)

end CilSsa.Lowering.Emit
