import CilSsa.Ssa.Build
import CilSsa.Ssa.OptLevel

/-!
Removal of the blocks of a function that control never reaches, and of the phi entries that come
from them.
-/

namespace CilSsa.Ssa

namespace Module

variable (m : Module)

/-- The number of edges of all blocks together. -/
def edgeCount : Nat := m.blocks.foldl (fun n b => n + b.successors.length) 0

/-- Collects the blocks reachable from `pending`.  Each step uses up one pending block, and the
successors of a block are added once. -/
def reachFrom : Nat → List BlockId → List BlockId → Except Fault (List BlockId)
  | 0, seen, _ => .ok seen
  | _ + 1, seen, [] => .ok seen
  | fuel + 1, seen, b :: pending =>
      if b ∈ seen then reachFrom fuel seen pending
      else do
        let block ← m.block b
        reachFrom fuel (b :: seen) (block.successors ++ pending)

def reachable (entry : BlockId) : Except Fault (List BlockId) :=
  m.reachFrom (m.edgeCount + 1) [] [entry]

def standsIn (blocks : List BlockId) (v : ValueId) : Bool :=
  blocks.any fun b =>
    match m.blocks[b.index]? with
    | some block => decide (v ∈ block.insts)
    | none => false

/-- The phi without entries from other blocks; any other value as it is. -/
def pruneIncoming (kept : List BlockId) (v : Value) : Value :=
  match v.kind with
  | .inst block (.phi incoming) =>
      { v with kind := .inst block (.phi (incoming.filter fun (_, source) => source ∈ kept)) }
  | _ => v

def prunedValues (kept : List BlockId) : Array Value :=
  m.values.mapIdx fun index v => if m.standsIn kept ⟨index⟩ then pruneIncoming kept v else v

def keepBlocks (id : FunctionId) (kept : List BlockId) : Module :=
  { m with
    functions := m.functions.modify id.index fun f =>
      { f with blocks := f.blocks.filter (· ∈ kept) }
    values := m.prunedValues kept }

/-- The module without the unreachable blocks of a function; if there are none it stays as it
is. -/
def removeUnreachable (id : FunctionId) : Except Fault Module := do
  let f ← m.function id
  match f.blocks with
  | [] => return m
  | entry :: _ =>
      let kept ← m.reachable entry
      return if f.blocks.all (· ∈ kept) then m else m.keepBlocks id kept

end Module

namespace Build

def optimize (id : FunctionId) (level : OptLevel) : Build Unit := do
  if level.isEnabled then set (← query (·.removeUnreachable id))

end Build

end CilSsa.Ssa
