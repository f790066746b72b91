import CilSsa.Proofs.Edges

/-!
The leaders of a body.  Their blocks stand in the order of the leaders, behind the entry block, so
the block of an instruction is that of the last leader up to it.
-/

namespace CilSsa.Lowering

open CilSsa.Metadata CilSsa.Ssa

/-- Whether the leaders of a body have their blocks, in order. -/
structure Placed (instrs : List Instruction) (entry : BlockId) (leaders : List Leader) : Prop where
  analysis : leaders.map (fun l => (l.index, l.refers)) = analyze instrs
  order : leaders.Pairwise fun l l' => l.index < l'.index ∧ l.block.index < l'.block.index
  first : ∀ l ∈ leaders, entry.index < l.block.index

/-- What does not change about a leader. -/
def Leader.place (l : Leader) : Nat × BlockId × Nat := (l.index, l.block, l.refers)

def withIncoming (position : Nat) (incoming : EvalStack) (leaders : List Leader) : List Leader :=
  leaders.map fun l => if l.index = position then { l with incoming } else l

section Placed

variable {instrs : List Instruction} {entry : BlockId} {leaders : List Leader} {l l' : Leader}

theorem Placed.cases (h : Placed instrs entry leaders) (hl : l ∈ leaders) (hl' : l' ∈ leaders) :
    l = l' ∨ (l.index < l'.index ∧ l.block.index < l'.block.index) ∨
      (l'.index < l.index ∧ l'.block.index < l.block.index) := by
  have horder := h.order
  clear h
  induction leaders with
  | nil => simp at hl
  | cons first rest ih =>
      obtain ⟨hfirst, hrest⟩ := List.pairwise_cons.mp horder
      rcases List.mem_cons.mp hl with rfl | hold
      · rcases List.mem_cons.mp hl' with rfl | hold'
        · exact .inl rfl
        · exact .inr (.inl (hfirst _ hold'))
      · rcases List.mem_cons.mp hl' with rfl | hold'
        · exact .inr (.inr (hfirst _ hold))
        · exact ih hold hold' hrest

/-- There is one leader at a position. -/
theorem Placed.unique (h : Placed instrs entry leaders) (hl : l ∈ leaders) (hl' : l' ∈ leaders)
    (hindex : l.index = l'.index) : l = l' := by
  rcases h.cases hl hl' with heq | hlt | hgt
  · exact heq
  · omega
  · omega

theorem Placed.unique_block (h : Placed instrs entry leaders) (hl : l ∈ leaders)
    (hl' : l' ∈ leaders) (hblock : l.block = l'.block) : l = l' := by
  rcases h.cases hl hl' with heq | ⟨-, hlt⟩ | ⟨-, hgt⟩
  · exact heq
  · rw [hblock] at hlt
    omega
  · rw [hblock] at hgt
    omega

theorem Placed.mem_analyze (h : Placed instrs entry leaders) (hl : l ∈ leaders) :
    l.index ∈ Lowering.leaders instrs ∧ l.refers = refers instrs l.index := by
  have hmem : (l.index, l.refers) ∈ analyze instrs := by
    rw [← h.analysis]
    exact List.mem_map_of_mem (f := fun l : Leader => (l.index, l.refers)) hl
  obtain ⟨position, hposition, heq⟩ := List.mem_map.mp hmem
  obtain ⟨rfl, hrefers⟩ := Prod.mk.inj heq
  exact ⟨hposition, hrefers.symm⟩

theorem Placed.exists_leader (h : Placed instrs entry leaders) {position : Nat}
    (hposition : position ∈ Lowering.leaders instrs) : ∃ l ∈ leaders, l.index = position := by
  have hmem : (position, refers instrs position) ∈ leaders.map fun l => (l.index, l.refers) := by
    rw [h.analysis]
    exact List.mem_map_of_mem (f := fun leader => (leader, refers instrs leader)) hposition
  obtain ⟨l, hl, heq⟩ := List.mem_map.mp hmem
  exact ⟨l, hl, congrArg Prod.fst heq⟩

theorem mem_withIncoming {position : Nat} {incoming : EvalStack} :
    l' ∈ withIncoming position incoming leaders ↔ ∃ l ∈ leaders,
      l' = if l.index = position then { l with incoming } else l := by
  simp only [withIncoming, List.mem_map, eq_comm]

theorem place_ite (l : Leader) (position : Nat) (incoming : EvalStack) :
    (if l.index = position then { l with incoming } else l).place = l.place := by
  split <;> rfl

theorem places_withIncoming (position : Nat) (incoming : EvalStack) (leaders : List Leader) :
    (withIncoming position incoming leaders).map Leader.place = leaders.map Leader.place := by
  rw [withIncoming, List.map_map]
  exact List.map_congr_left fun l _ => place_ite l position incoming

/-- The places are all that counts. -/
theorem Placed.of_places {leaders' : List Leader} (h : Placed instrs entry leaders)
    (hplaces : leaders'.map Leader.place = leaders.map Leader.place) :
    Placed instrs entry leaders' where
  analysis := by
    have hanalysis := congrArg (List.map fun place : Nat × BlockId × Nat => (place.1, place.2.2))
      hplaces
    simpa [List.map_map, Function.comp_def, Leader.place, h.analysis] using hanalysis
  order := by
    let before (p q : Nat × BlockId × Nat) : Prop := p.1 < q.1 ∧ p.2.1.index < q.2.1.index
    have horder : (leaders.map Leader.place).Pairwise before := List.pairwise_map.mpr h.order
    rw [← hplaces] at horder
    exact List.pairwise_map.mp horder
  first := by
    intro l' hl'
    have hmem : l'.place ∈ leaders.map Leader.place := hplaces ▸ List.mem_map_of_mem hl'
    obtain ⟨l, hl, hplace⟩ := List.mem_map.mp hmem
    have hblock : l.block = l'.block := congrArg (·.2.1) hplace
    exact hblock ▸ h.first l hl

theorem leader?_eq_some_iff {s : EmitState} (h : Placed instrs entry s.leaders) {position : Nat} :
    Emit.leader? s position = some l ↔ l ∈ s.leaders ∧ l.index = position := by
  unfold Emit.leader?
  constructor
  · intro hfind
    exact ⟨List.mem_of_find?_eq_some hfind, by simpa using List.find?_some hfind⟩
  · rintro ⟨hl, rfl⟩
    cases hfind : s.leaders.find? fun l' => decide (l'.index = l.index) with
    | none =>
        have hnone := List.find?_eq_none.mp hfind l hl
        simp at hnone
    | some l' =>
        have hl' := List.mem_of_find?_eq_some hfind
        rw [h.unique hl' hl (by simpa using List.find?_some hfind)]

end Placed

/-- Whether a block is the one that the instructions before position `n` end in. -/
inductive At (entry : BlockId) (leaders : List Leader) (n : Nat) : BlockId → Prop where
  | entry (h : ∀ l ∈ leaders, n ≤ l.index) : At entry leaders n entry
  | leader (l : Leader) (hl : l ∈ leaders) (hlt : l.index < n)
      (hlast : ∀ l' ∈ leaders, l'.index < n → l'.index ≤ l.index) : At entry leaders n l.block

section At

variable {instrs : List Instruction} {entry b : BlockId} {leaders : List Leader} {l : Leader}
  {n : Nat}

/-- Leaders that come later have later blocks. -/
theorem At.lt (h : At entry leaders n b) (hplaced : Placed instrs entry leaders)
    (hl : l ∈ leaders) (hn : n ≤ l.index) : b.index < l.block.index := by
  cases h with
  | entry h => exact hplaced.first l hl
  | leader l' hl' hlt hlast =>
      rcases hplaced.cases hl' hl with rfl | ⟨-, hblock⟩ | ⟨hindex, -⟩
      · omega
      · exact hblock
      · omega

/-- Leaders that come earlier have blocks up to this one. -/
theorem At.le (h : At entry leaders n b) (hplaced : Placed instrs entry leaders)
    (hl : l ∈ leaders) (hn : l.index < n) : l.block.index ≤ b.index := by
  cases h with
  | entry h => exact absurd (h l hl) (Nat.not_le.mpr hn)
  | leader l' hl' hlt hlast =>
      rcases hplaced.cases hl' hl with rfl | ⟨hindex, -⟩ | ⟨-, hblock⟩
      · exact Nat.le_refl _
      · have := hlast l hl hn
        omega
      · exact Nat.le_of_lt hblock

theorem At.le_iff (h : At entry leaders n b) (hplaced : Placed instrs entry leaders)
    (hl : l ∈ leaders) : l.block.index ≤ b.index ↔ l.index < n := by
  constructor
  · intro hle
    refine Nat.lt_of_not_le fun hn => ?_
    exact absurd hle (Nat.not_le.mpr (h.lt hplaced hl hn))
  · exact h.le hplaced hl

theorem At.ge_entry (h : At entry leaders n b) (hplaced : Placed instrs entry leaders) :
    entry.index ≤ b.index := by
  cases h with
  | entry h => exact Nat.le_refl _
  | leader l hl hlt hlast => exact Nat.le_of_lt (hplaced.first l hl)

theorem At.of_leader (hl : l ∈ leaders) : At entry leaders (l.index + 1) l.block :=
  .leader l hl (Nat.lt_succ_self _) fun _ _ hlt => Nat.le_of_lt_succ hlt

/-- An instruction that is no leader is in the block of the one before. -/
theorem At.succ (h : At entry leaders n b) (hnone : ∀ l ∈ leaders, l.index ≠ n) :
    At entry leaders (n + 1) b := by
  cases h with
  | entry h =>
      refine .entry fun l hl => ?_
      have := h l hl
      have := hnone l hl
      omega
  | leader l hl hlt hlast =>
      refine .leader l hl (Nat.lt_succ_of_lt hlt) fun l' hl' hlt' => hlast l' hl' ?_
      have := hnone l' hl'
      omega

end At

end CilSsa.Lowering
