import CilSsa.Proofs.Branches

/-!
The number of edges into a leader.

The analysis of a body counts for each leader the instructions that lead to it.  An instruction
adds at most one edge to a leader, and only if it is counted.
-/

namespace CilSsa.Lowering

open CilSsa.Metadata CilSsa.Ssa

variable {instrs : List Instruction} {instr : Instruction} {position i : Nat}

section Flow

/-- What an action does to the flow of control is what its operation says. -/
theorem flow_of_dispatch {opcode : Opcode} {action : Action}
    (h : dispatch opcode = .action action) : opcode.flow = flowOf action :=
  of_dispatch (P := fun op a => op.flow = flowOf a) h (by decide +kernel)

theorem endsBlock_flowOf (action : Action) : (flowOf action).endsBlock = Emit.endsBlock action := by
  cases action <;> rfl

theorem flow_eq_next {flow : Flow} (h : flow.endsBlock = false) : flow = .next := by
  cases flow <;> first | rfl | simp [Flow.endsBlock] at h

theorem mem_foldl_insertOnce {added known : List Nat} :
    position ∈ added.foldl (fun acc k => if k ∈ acc then acc else acc ++ [k]) known ↔
      position ∈ added ∨ position ∈ known := by
  induction added generalizing known with
  | nil => simp
  | cons k rest ih =>
      rw [List.foldl_cons, ih]
      split
      · rename_i hk
        constructor
        · exact fun h => h.imp (List.mem_cons_of_mem k) id
        · rintro (h | h)
          · rcases List.mem_cons.mp h with rfl | h
            · exact .inr hk
            · exact .inl h
          · exact .inr h
      · simp only [List.mem_append, List.mem_cons, List.not_mem_nil, or_false]
        exact ⟨by rintro (h | h | h) <;> simp [h], by rintro ((h | h) | h) <;> simp [h]⟩

theorem mem_successors {length : Nat} :
    position ∈ successors length i instr ↔ position ∈ instr.targets ∨
      (instr.opcode.flow.fallsThrough = true ∧ i + 1 < length ∧ position = i + 1) := by
  rw [successors, mem_foldl_insertOnce]
  simp only [List.mem_append, List.not_mem_nil, or_false]
  refine or_congr Iff.rfl ?_
  split
  · rename_i hnext
    simp only [Bool.and_eq_true, decide_eq_true_eq] at hnext
    simp [hnext]
  · rename_i hnext
    simp only [Bool.and_eq_true, decide_eq_true_eq, not_and] at hnext
    constructor
    · simp
    · rintro ⟨hfalls, hlt, -⟩
      exact absurd hlt (hnext hfalls)

/-- The analysis knows of every way that control goes in a body. -/
theorem mem_successors_of_goesTo {length : Nat}
    (h : position ∈ goesTo length i instr.targets instr.opcode.flow) (hlt : position < length) :
    position ∈ successors length i instr := by
  rw [mem_successors]
  have hnext (hfalls : instr.opcode.flow.fallsThrough = true)
      (h : position ∈ instr.targets ++ [i + 1]) : position ∈ instr.targets ∨
        (instr.opcode.flow.fallsThrough = true ∧ i + 1 < length ∧ position = i + 1) := by
    refine (List.mem_append.mp h).imp id fun h => ?_
    obtain rfl := List.mem_singleton.mp h
    exact ⟨hfalls, hlt, rfl⟩
  cases hflow : instr.opcode.flow with
  | next =>
      rw [hflow, goesTo] at h
      split at h
      · rw [hflow] at hnext
        exact hnext rfl (List.mem_append_right _ h)
      · simp at h
  | branch =>
      rw [hflow, goesTo] at h
      exact .inl h
  | condBranch | switch =>
      rw [hflow, goesTo] at h
      rw [hflow] at hnext
      exact hnext rfl h
  | exit | raise =>
      rw [hflow, goesTo] at h
      simp at h

/-- The positions that control goes to from what stands before position `n`. -/
def follows (instrs : List Instruction) : Nat → List Nat
  | 0 => if 0 < instrs.length then [0] else []
  | i + 1 =>
      match instrs[i]? with
      | some instr => goesTo instrs.length i instr.targets instr.opcode.flow
      | none => []

theorem follows_succ (h : instrs[i]? = some instr) :
    follows instrs (i + 1) = goesTo instrs.length i instr.targets instr.opcode.flow := by
  simp only [follows, h]

end Flow

/-- The edges into a position that the instructions before `i` account for. -/
def arrivals (instrs : List Instruction) (position i : Nat) : Nat :=
  (if position = 0 then 1 else 0) + edgesFrom instrs.length position 0 (instrs.take i)

theorem edgesFrom_concat (length position index : Nat) (before : List Instruction)
    (instr : Instruction) :
    edgesFrom length position index (before ++ [instr]) =
      edgesFrom length position index before +
        if position ∈ successors length (index + before.length) instr then 1 else 0 := by
  induction before generalizing index with
  | nil => simp [edgesFrom]
  | cons first rest ih =>
      rw [List.cons_append, edgesFrom, edgesFrom, ih, List.length_cons]
      have hindex : index + 1 + rest.length = index + (rest.length + 1) := by omega
      rw [hindex]
      omega

theorem arrivals_succ (h : instrs[i]? = some instr) :
    arrivals instrs position (i + 1) = arrivals instrs position i +
      if position ∈ successors instrs.length i instr then 1 else 0 := by
  have hlt := (List.getElem?_eq_some_iff.mp h).1
  rw [arrivals, arrivals, List.take_add_one, h, Option.toList_some, edgesFrom_concat,
    List.length_take, Nat.min_eq_left (Nat.le_of_lt hlt), Nat.zero_add, Nat.add_assoc]

theorem arrivals_length (instrs : List Instruction) (position : Nat) :
    arrivals instrs position instrs.length = refers instrs position := by
  rw [arrivals, List.take_length, refers]

section Leaders

/-- Leaders are where a body starts, where it branches to, and behind the ends of blocks. -/
theorem mem_leadersFrom {length index : Nat} :
    position ∈ leadersFrom length index instrs ↔ ∃ i instr, instrs[i]? = some instr ∧
      position ∈ leadersOf length (index + i) instr := by
  induction instrs generalizing index with
  | nil => simp [leadersFrom]
  | cons first rest ih =>
      rw [leadersFrom, List.mem_append, ih]
      constructor
      · rintro (h | ⟨i, instr, hinstr, h⟩)
        · exact ⟨0, first, rfl, h⟩
        · refine ⟨i + 1, instr, hinstr, ?_⟩
          rwa [Nat.add_assoc, Nat.add_comm 1 i] at h
      · rintro ⟨i, instr, hinstr, h⟩
        cases i with
        | zero =>
            obtain rfl : first = instr := by simpa using hinstr
            exact .inl h
        | succ i =>
            refine .inr ⟨i, instr, by simpa using hinstr, ?_⟩
            rwa [Nat.add_assoc, Nat.add_comm 1 i]

/-- The instruction behind the end of a block is a leader. -/
theorem succ_mem_leaders (h : instrs[i]? = some instr)
    (hends : instr.opcode.flow.endsBlock = true) (hlt : i + 1 < instrs.length) :
    i + 1 ∈ leaders instrs := by
  have hne : instrs ≠ [] := by
    rintro rfl
    simp at h
  rw [mem_leaders_iff hne]
  refine .inr (mem_leadersFrom.mpr ⟨i, instr, h, ?_⟩)
  simp [leadersOf, hends, hlt]

/-- If branches stay in the body, so do the leaders. -/
theorem lt_of_mem_leaders
    (htargets : ∀ instr ∈ instrs, ∀ target ∈ instr.targets, target < instrs.length)
    (h : position ∈ leaders instrs) : position < instrs.length := by
  have hne : instrs ≠ [] := by
    rintro rfl
    simp [leaders] at h
  rcases (mem_leaders_iff hne).mp h with rfl | h
  · exact List.length_pos_iff.mpr hne
  · obtain ⟨i, instr, hinstr, h⟩ := mem_leadersFrom.mp h
    rw [leadersOf, List.mem_append] at h
    rcases h with h | h
    · exact htargets instr (List.mem_of_getElem? hinstr) position h
    · split at h
      · rename_i hnext
        simp only [Bool.and_eq_true, decide_eq_true_eq] at hnext
        obtain rfl := List.mem_singleton.mp h
        have := hnext.2
        omega
      · simp at h

end Leaders

end CilSsa.Lowering
