import CilSsa.Metadata.Instruction

/-!
Basic blocks of an instruction list.

A block starts at the first instruction, at every branch target, and after every instruction that
ends a block.  The number of edges into a block counts the entry of the method, and counts an
instruction once however often it names the block.
-/

namespace CilSsa.Lowering

open CilSsa.Metadata

/-- A list in increasing order with one more number, unless it has it. -/
def insertSorted (n : Nat) : List Nat → List Nat
  | [] => [n]
  | k :: rest => if n < k then n :: k :: rest else if n = k then k :: rest
      else k :: insertSorted n rest

section InsertSorted

@[simp] theorem mem_insertSorted {n k : Nat} {positions : List Nat} :
    k ∈ insertSorted n positions ↔ k = n ∨ k ∈ positions := by
  induction positions with
  | nil => simp [insertSorted]
  | cons first rest ih =>
      rw [insertSorted]
      split
      · simp
      · split
        · rename_i _ heq
          simp [heq]
        · simp [ih, or_left_comm]

theorem pairwise_insertSorted {n : Nat} {positions : List Nat}
    (h : positions.Pairwise (· < ·)) : (insertSorted n positions).Pairwise (· < ·) := by
  induction positions with
  | nil => simp [insertSorted]
  | cons first rest ih =>
      have hrest := List.pairwise_cons.mp h
      rw [insertSorted]
      split
      · rename_i hlt
        refine List.pairwise_cons.mpr ⟨?_, h⟩
        intro k hk
        rcases List.mem_cons.mp hk with rfl | hk
        · exact hlt
        · exact Nat.lt_trans hlt (hrest.1 k hk)
      · split
        · exact h
        · rename_i hnot hne
          refine List.pairwise_cons.mpr ⟨?_, ih hrest.2⟩
          intro k hk
          rcases mem_insertSorted.mp hk with rfl | hk
          · omega
          · exact hrest.1 k hk

/-- Positions put in one after the other stay in increasing order. -/
theorem pairwise_foldl_insertSorted (added : List Nat) {positions : List Nat}
    (h : positions.Pairwise (· < ·)) :
    (added.foldl (fun acc n => insertSorted n acc) positions).Pairwise (· < ·) := by
  induction added generalizing positions with
  | nil => exact h
  | cons n rest ih => exact ih (pairwise_insertSorted h)

theorem mem_foldl_insertSorted {k : Nat} (added : List Nat) {positions : List Nat} :
    k ∈ added.foldl (fun acc n => insertSorted n acc) positions ↔
      k ∈ added ∨ k ∈ positions := by
  induction added generalizing positions with
  | nil => simp
  | cons n rest ih => simp [ih, or_left_comm, or_assoc]

end InsertSorted

def leadersOf (length index : Nat) (instr : Instruction) : List Nat :=
  instr.targets
    ++ (if instr.opcode.flow.endsBlock && index + 1 < length then [index + 1] else [])

/-- The leaders that the instructions from `index` on make. -/
def leadersFrom (length : Nat) : Nat → List Instruction → List Nat
  | _, [] => []
  | index, instr :: rest =>
      leadersOf length index instr ++ leadersFrom length (index + 1) rest

/-- The positions where blocks start, in increasing order. -/
def leaders (instrs : List Instruction) : List Nat :=
  match instrs with
  | [] => []
  | _ => (leadersFrom instrs.length 0 instrs).foldl (fun acc n => insertSorted n acc) [0]

/-- Blocks start at the first instruction and where some instruction says so. -/
theorem mem_leaders_iff {instrs : List Instruction} {k : Nat} (h : instrs ≠ []) :
    k ∈ leaders instrs ↔ k = 0 ∨ k ∈ leadersFrom instrs.length 0 instrs := by
  cases instrs with
  | nil => exact absurd rfl h
  | cons instr rest =>
      rw [leaders, mem_foldl_insertSorted]
      · simp [or_comm]
      · simp

theorem pairwise_leaders (instrs : List Instruction) : (leaders instrs).Pairwise (· < ·) := by
  cases instrs with
  | nil => simp [leaders]
  | cons instr rest =>
      rw [leaders]
      · exact pairwise_foldl_insertSorted _ (by simp)
      · simp

/-- The positions that control may go to after the instruction at `index`, each once. -/
def successors (length index : Nat) (instr : Instruction) : List Nat :=
  let next := if instr.opcode.flow.fallsThrough && index + 1 < length then [index + 1] else []
  (instr.targets ++ next).foldl (fun acc n => if n ∈ acc then acc else acc ++ [n]) []

/-- The instructions from `index` on that lead to `leader`. -/
def edgesFrom (length leader : Nat) : Nat → List Instruction → Nat
  | _, [] => 0
  | index, instr :: rest =>
      (if leader ∈ successors length index instr then 1 else 0)
        + edgesFrom length leader (index + 1) rest

/-- The number of edges into the block at `leader`. -/
def refers (instrs : List Instruction) (leader : Nat) : Nat :=
  (if leader = 0 then 1 else 0) + edgesFrom instrs.length leader 0 instrs

/-- The leaders of a body with the number of edges into each. -/
def analyze (instrs : List Instruction) : List (Nat × Nat) :=
  (leaders instrs).map fun leader => (leader, refers instrs leader)

end CilSsa.Lowering
