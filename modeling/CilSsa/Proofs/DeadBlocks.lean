import Mathlib.Algebra.BigOperators.Fin
import CilSsa.Proofs.Placement
import CilSsa.Proofs.Verification

/-!
The removal of dead blocks.

The blocks that are kept are those that control can reach from the first one.  What is cut from
their phis are entries that no control can come from, so a verified function stays verified, and
nothing is left to remove.
-/

namespace CilSsa.Ssa.Module

variable {m : Module}

/-- Control may come from one block to another, edge by edge. -/
def Reaches (m : Module) : BlockId → BlockId → Prop := Relation.ReflTransGen m.Edge

section Search

/-- The number of edges out of a block. -/
def outdegree (m : Module) (index : Nat) : Nat :=
  (m.blocks[index]?.map fun block => block.successors.length).getD 0

/-- The number of edges out of the blocks that have not been seen. -/
def unseenEdges (m : Module) (seen : List BlockId) : Nat :=
  ∑ i ∈ Finset.range m.blocks.size, if ⟨i⟩ ∈ seen then 0 else m.outdegree i

theorem edgeCount_eq (m : Module) : m.edgeCount = m.unseenEdges [] := by
  have hsum : m.edgeCount = (m.blocks.toList.map fun b => b.successors.length).sum := by
    rw [edgeCount, ← Array.foldl_toList, List.sum_eq_foldl, List.foldl_map]
  have hlist : (m.blocks.toList.map fun b => b.successors.length) =
      List.ofFn fun i : Fin m.blocks.size => m.outdegree i := by
    apply List.ext_getElem
    · simp
    · intro i hi hi'
      simp [outdegree]
  rw [hsum, hlist, List.sum_ofFn, unseenEdges, Finset.sum_range]
  simp

theorem unseenEdges_cons {b : BlockId} {seen : List BlockId} {block : Block} (hb : b ∉ seen)
    (hblock : m.blocks[b.index]? = some block) :
    m.unseenEdges (b :: seen) + block.successors.length = m.unseenEdges seen := by
  have hmem : b.index ∈ Finset.range m.blocks.size :=
    Finset.mem_range.mpr (Array.getElem?_eq_some_iff.mp hblock).1
  rw [unseenEdges, unseenEdges, ← Finset.sum_erase_add _ _ hmem, ← Finset.sum_erase_add _ _ hmem]
  have hothers : ∀ i ∈ (Finset.range m.blocks.size).erase b.index,
      (if (⟨i⟩ : BlockId) ∈ b :: seen then 0 else m.outdegree i) =
        if ⟨i⟩ ∈ seen then 0 else m.outdegree i := by
    intro i hi
    have hne : (⟨i⟩ : BlockId) ≠ b := fun heq => (Finset.mem_erase.mp hi).1 (heq ▸ rfl)
    simp [hne]
  rw [Finset.sum_congr rfl hothers]
  simp [hb, outdegree, hblock]

section Exploring

variable {b : BlockId} {seen rest kept : List BlockId} {block : Block}

/-- The blocks that a search keeps: what is seen and what is pending, and with a block what its
edges lead to, but only what control can come to. -/
structure Explores (m : Module) (seen pending kept : List BlockId) : Prop where
  found : ∀ b, b ∈ seen ∨ b ∈ pending → b ∈ kept
  closed : ∀ b ∈ kept, ∀ c, m.Edge b c → c ∈ kept
  only : ∀ b ∈ kept, b ∈ seen ∨ ∃ p ∈ pending, m.Reaches p b

/-- The edges out of what has been seen lead to what has been seen or is pending. -/
def Frontier (m : Module) (seen pending : List BlockId) : Prop :=
  ∀ b ∈ seen, ∀ c, m.Edge b c → c ∈ seen ∨ c ∈ pending

theorem Explores.done (h : m.Frontier seen []) : m.Explores seen [] seen where
  found := by simp
  closed b hb c hc := by simpa using h b hb c hc
  only b hb := .inl hb

/-- A block that has been seen is not pending any more. -/
theorem Frontier.skip (h : m.Frontier seen (b :: rest)) (hb : b ∈ seen) : m.Frontier seen rest := by
  intro c hc d hd
  rcases h c hc d hd with hd | hd
  · exact .inl hd
  · rcases List.mem_cons.mp hd with rfl | hd
    · exact .inl hb
    · exact .inr hd

theorem Explores.skip (h : m.Explores seen rest kept) (hb : b ∈ seen) :
    m.Explores seen (b :: rest) kept where
  found c hc := by
    refine h.found c (hc.elim .inl fun hc => ?_)
    rcases List.mem_cons.mp hc with rfl | hc
    · exact .inl hb
    · exact .inr hc
  closed := h.closed
  only c hc := by
    rcases h.only c hc with hc | ⟨p, hp, hreaches⟩
    · exact .inl hc
    · exact .inr ⟨p, List.mem_cons_of_mem _ hp, hreaches⟩

/-- What the edges of a new block lead to is pending from now on. -/
theorem Frontier.visit (h : m.Frontier seen (b :: rest))
    (hblock : m.blocks[b.index]? = some block) :
    m.Frontier (b :: seen) (block.successors ++ rest) := by
  intro c hc d hd
  rcases List.mem_cons.mp hc with rfl | hc
  · obtain ⟨block', hblock', hd⟩ := hd
    obtain rfl := Option.some.inj (hblock.symm.trans hblock')
    exact .inr (List.mem_append_left _ hd)
  · rcases h c hc d hd with hd | hd
    · exact .inl (List.mem_cons_of_mem _ hd)
    · rcases List.mem_cons.mp hd with rfl | hd
      · exact .inl List.mem_cons_self
      · exact .inr (List.mem_append_right _ hd)

theorem Explores.visit (h : m.Explores (b :: seen) (block.successors ++ rest) kept)
    (hblock : m.blocks[b.index]? = some block) : m.Explores seen (b :: rest) kept where
  found c hc := by
    refine h.found c ?_
    rcases hc with hc | hc
    · exact .inl (List.mem_cons_of_mem _ hc)
    · rcases List.mem_cons.mp hc with rfl | hc
      · exact .inl List.mem_cons_self
      · exact .inr (List.mem_append_right _ hc)
  closed := h.closed
  only c hc := by
    rcases h.only c hc with hc | ⟨p, hp, hreaches⟩
    · rcases List.mem_cons.mp hc with rfl | hc
      · exact .inr ⟨c, List.mem_cons_self, .refl⟩
      · exact .inl hc
    · rcases List.mem_append.mp hp with hp | hp
      · exact .inr ⟨b, List.mem_cons_self, .head ⟨block, hblock, hp⟩ hreaches⟩
      · exact .inr ⟨p, List.mem_cons_of_mem _ hp, hreaches⟩

/-- With enough fuel, the search comes to its end. -/
theorem reachFrom_spec {fuel : Nat} {pending : List BlockId}
    (h : m.reachFrom fuel seen pending = .ok kept)
    (hfuel : pending.length + m.unseenEdges seen ≤ fuel) (hfrontier : m.Frontier seen pending) :
    m.Explores seen pending kept := by
  induction fuel generalizing seen pending with
  | zero =>
      obtain rfl : pending = [] := List.eq_nil_of_length_eq_zero (by omega)
      obtain rfl := Except.ok.inj h
      exact .done hfrontier
  | succ fuel ih =>
      cases pending with
      | nil =>
          obtain rfl := Except.ok.inj h
          exact .done hfrontier
      | cons b rest =>
          rw [reachFrom] at h
          rw [List.length_cons] at hfuel
          split at h
          · rename_i hb
            exact (ih h (by omega) (hfrontier.skip hb)).skip hb
          · rename_i hb
            simp only [exceptBind_eq_ok_iff, Module.block, Arena.entry_eq_ok_iff] at h
            obtain ⟨block, hblock, h⟩ := h
            have hcount := unseenEdges_cons hb hblock
            exact (ih h (by rw [List.length_append]; omega) (hfrontier.visit hblock)).visit hblock

end Exploring

/-- The search finds exactly the blocks that control can reach. -/
theorem mem_reachable_iff {entry : BlockId} {kept : List BlockId}
    (h : m.reachable entry = .ok kept) (b : BlockId) : b ∈ kept ↔ m.Reaches entry b := by
  obtain ⟨hfound, hedges, honly⟩ := reachFrom_spec h
    (by rw [edgeCount_eq, List.length_singleton]; omega) (by simp [Frontier])
  constructor
  · intro hb
    rcases honly b hb with hb | ⟨p, hp, hreaches⟩
    · simp at hb
    · obtain rfl := List.mem_singleton.mp hp
      exact hreaches
  · intro hreaches
    induction hreaches with
    | refl => exact hfound entry (.inr List.mem_cons_self)
    | tail _ hedge ih => exact hedges _ ih _ hedge

/-- Nothing goes wrong in the search for reachable blocks if every edge leads to a block. -/
theorem exists_reachFrom {blocks : List BlockId} (fuel : Nat) (seen : List BlockId)
    {pending : List BlockId}
    (hblocks : ∀ b ∈ blocks, ∃ block, m.blocks[b.index]? = some block ∧
      ∀ c ∈ block.successors, c ∈ blocks) (hpending : ∀ b ∈ pending, b ∈ blocks) :
    ∃ kept, m.reachFrom fuel seen pending = .ok kept := by
  induction fuel generalizing seen pending with
  | zero => exact ⟨seen, rfl⟩
  | succ fuel ih =>
      cases pending with
      | nil => exact ⟨seen, rfl⟩
      | cons b rest =>
          have hrest : ∀ c ∈ rest, c ∈ blocks := fun c hc => hpending c (List.mem_cons_of_mem _ hc)
          rw [reachFrom]
          split
          · exact ih _ hrest
          · obtain ⟨block, hblock, hsuccessors⟩ := hblocks b (hpending b List.mem_cons_self)
            have hfound : m.block b = .ok block := Arena.entry_eq_ok_iff.mpr hblock
            rw [hfound]
            refine ih _ fun c hc => ?_
            rcases List.mem_append.mp hc with hc | hc
            · exact hsuccessors c hc
            · exact hrest c hc

end Search

section Phis

variable {f : FunctionId} {kept : List BlockId} {v : ValueId} {type : TypeId}
  {place : Option BlockId} {entries : List (ValueId × BlockId)}

/-- The entries of a phi for when control comes from a block. -/
def entriesFrom (m : Module) (p : BlockId) (v : ValueId) : List (ValueId × BlockId) :=
  match m.values[v.index]? with
  | some ⟨_, .inst _ (.phi entries)⟩ => entries.filter fun (_, source) => source = p
  | _ => []

/-- What a removal of blocks makes of a value. -/
def pruned (m : Module) (kept : List BlockId) (v : ValueId) (value : Value) : Value :=
  if m.standsIn kept v then pruneIncoming kept value else value

theorem values_keepBlocks (v : ValueId) :
    (m.keepBlocks f kept).values[v.index]? = m.values[v.index]?.map (m.pruned kept v) := by
  simp only [keepBlocks, prunedValues, Array.getElem?_mapIdx]
  rfl

theorem pruned_of_not_isPhi {value : Value} (hv : m.values[v.index]? = some value)
    (hphi : Build.isPhi m v = false) : m.pruned kept v value = value := by
  rw [pruned]
  split
  · unfold pruneIncoming
    split
    · rename_i hkind
      simp [Build.isPhi, hv, Value.inst?, hkind, Inst.isPhi] at hphi
    · rfl
  · rfl

/-- A phi keeps its entries from the blocks that are kept, if it is in one of them. -/
theorem pruned_phi :
    m.pruned kept v ⟨type, .inst place (.phi entries)⟩ = ⟨type, .inst place (.phi
      (if m.standsIn kept v then
        entries.filter fun (_, source) => source ∈ kept else entries))⟩ := by
  rw [pruned]
  split <;> rfl

theorem standsIn_iff : m.standsIn kept v = true ↔
    ∃ b ∈ kept, ∃ block, m.blocks[b.index]? = some block ∧ v ∈ block.insts := by
  rw [standsIn, List.any_eq_true]
  refine exists_congr fun b => and_congr_right fun _ => ?_
  cases m.blocks[b.index]? <;> simp

theorem isPhi_keepBlocks : Build.isPhi (m.keepBlocks f kept) v = Build.isPhi m v := by
  cases hv : m.values[v.index]? with
  | none => simp [Build.isPhi, values_keepBlocks, hv]
  | some value =>
      cases hphi : Build.isPhi m v with
      | false => simpa [Build.isPhi, values_keepBlocks, hv, pruned_of_not_isPhi hv hphi] using hphi
      | true =>
          obtain ⟨type, place, entries, hvalue⟩ := isPhi_eq_true_iff.mp hphi
          simp [Build.isPhi, values_keepBlocks, hvalue, pruned_phi, Value.inst?, Inst.isPhi]

theorem phi_of_keepBlocks {b : BlockId} {block : Block} (hb : b ∈ kept)
    (hblock : m.blocks[b.index]? = some block) (hv : v ∈ block.insts)
    (h : (m.keepBlocks f kept).values[v.index]? = some ⟨type, .inst place (.phi entries)⟩) :
    ∃ all, m.values[v.index]? = some ⟨type, .inst place (.phi all)⟩ ∧
      entries = all.filter fun (_, source) => source ∈ kept := by
  have hstands : m.standsIn kept v = true := standsIn_iff.mpr ⟨b, hb, block, hblock, hv⟩
  have hphi' : Build.isPhi (m.keepBlocks f kept) v = true :=
    isPhi_eq_true_iff.mpr ⟨type, place, entries, h⟩
  have hphi : Build.isPhi m v = true := isPhi_keepBlocks.symm.trans hphi'
  obtain ⟨type', place', all, hvalue⟩ := isPhi_eq_true_iff.mp hphi
  rw [values_keepBlocks, hvalue, Option.map_some, pruned_phi, if_pos hstands] at h
  simp only [Option.some.injEq, Value.mk.injEq, ValueKind.inst.injEq, Inst.phi.injEq] at h
  obtain ⟨rfl, rfl, rfl⟩ := h
  exact ⟨all, hvalue, rfl⟩

/-- What comes from a kept block comes from it still. -/
theorem entriesFrom_keepBlocks {p : BlockId} (hp : p ∈ kept) (v : ValueId) :
    (m.keepBlocks f kept).entriesFrom p v = m.entriesFrom p v := by
  cases hv : m.values[v.index]? with
  | none => simp [entriesFrom, values_keepBlocks, hv]
  | some value =>
      cases hphi : Build.isPhi m v with
      | false => simp [entriesFrom, values_keepBlocks, hv, pruned_of_not_isPhi hv hphi]
      | true =>
          obtain ⟨type, place, entries, hvalue⟩ := isPhi_eq_true_iff.mp hphi
          simp only [entriesFrom, values_keepBlocks, hvalue, Option.map_some, pruned_phi]
          split
          · rw [List.filter_filter]
            refine List.filter_congr fun e _ => ?_
            by_cases he : e.2 = p <;> simp [he, hp]
          · rfl

end Phis

section Removal

variable {f : FunctionId} {function : Function}

/-- A function whose edges lead to its blocks keeps those that its first one reaches. -/
theorem removeUnreachable_cases (hfunction : m.functions[f.index]? = some function)
    (hblocks : ∀ b ∈ function.blocks, ∃ block, m.blocks[b.index]? = some block ∧
      ∀ c ∈ block.successors, c ∈ function.blocks) :
    ∃ kept, (∀ b, b ∈ kept ↔ ∃ entry ∈ function.blocks.head?, m.Reaches entry b) ∧
      m.removeUnreachable f = .ok
        (if function.blocks.all (· ∈ kept) then m else m.keepBlocks f kept) := by
  have hfound : m.function f = .ok function := Arena.entry_eq_ok_iff.mpr hfunction
  rw [removeUnreachable, hfound]
  cases hlist : function.blocks with
  | nil => exact ⟨[], by simp, by simp [hlist, bind, Except.bind, pure, Except.pure]⟩
  | cons entry rest =>
      have hentry : ∀ b ∈ [entry], b ∈ function.blocks := by simp [hlist]
      obtain ⟨kept, hkept⟩ := exists_reachFrom (m.edgeCount + 1) [] hblocks hentry
      refine ⟨kept, fun b => ?_, ?_⟩
      · simpa using mem_reachable_iff hkept b
      · simp only [hlist, bind, Except.bind, reachable, hkept, pure, Except.pure]

/-- A function whose edges lead to its blocks can be optimized. -/
theorem exists_optimize (level : OptLevel) (hfunction : m.functions[f.index]? = some function)
    (hblocks : ∀ b ∈ function.blocks, ∃ block, m.blocks[b.index]? = some block ∧
      ∀ c ∈ block.successors, c ∈ function.blocks) :
    ∃ m', Build.optimize f level m = .ok () m' := by
  obtain ⟨_, -, hremoved⟩ := removeUnreachable_cases hfunction hblocks
  unfold Build.optimize
  split
  · simp only [bind_eq_ok_iff, Build.query_eq_ok_iff, set_eq_ok_iff]
    exact ⟨_, _, m, ⟨hremoved, rfl⟩, rfl⟩
  · exact ⟨m, rfl⟩

/-- What the removal of its dead blocks makes of a function. -/
structure Trimmed (m : Module) (f : FunctionId) (function : Function) (kept : List BlockId)
    (m' : Module) : Prop where
  /-- The blocks keep their order. -/
  sublist : kept.Sublist function.blocks
  mem_iff : ∀ b, b ∈ kept ↔ ∃ entry ∈ function.blocks.head?, m.Reaches entry b
  found : m'.functions[f.index]? = some { function with blocks := kept }
  others : ∀ g, g ≠ f → m'.functions[g.index]? = m.functions[g.index]?
  /-- Blocks keep their instructions and their ends. -/
  rest : m' = { m with functions := m'.functions, values := m'.values }
  /-- Whenever control comes to a phi, it takes the value that it took before. -/
  entries : ∀ entry ∈ function.blocks.head?, ∀ p, m.Reaches entry p → ∀ v,
    m'.entriesFrom p v = m.entriesFrom p v
  /-- No value changes but the phis of the function. -/
  values : ∀ v : ValueId, (Build.isPhi m v = false ∨ ∃ (b : BlockId) (block : Block),
    m.blocks[b.index]? = some block ∧ v ∈ block.insts ∧ block.function ≠ f) →
      m'.values[v.index]? = m.values[v.index]?
  verified : m'.verify f = .ok (.ok ())
  again : m'.removeUnreachable f = .ok m'

theorem WellFormed.edges (h : m.WellFormed f function) {b : BlockId} (hb : b ∈ function.blocks) :
    ∃ block, m.blocks[b.index]? = some block ∧ ∀ c ∈ block.successors, c ∈ function.blocks := by
  obtain ⟨block, t, hblock, ht, hsuccessors⟩ := h.ended b hb
  exact ⟨block, hblock, by rwa [Block.successors, ht]⟩

/-- A well-formed function stays well-formed with fewer blocks if none of them leads to one that was
taken out. -/
theorem WellFormed.keepBlocks (h : m.WellFormed f function) {kept : List BlockId}
    (hkept : ∀ b ∈ kept, ∀ c, m.Edge b c → c ∈ kept) :
    (m.keepBlocks f kept).WellFormed f
      { function with blocks := function.blocks.filter (· ∈ kept) } where
  found := by simp [Module.keepBlocks, Array.getElem?_modify, h.found]
  clean := h.clean
  ended b hb := by
    obtain ⟨hmem, hb⟩ := List.mem_filter.mp hb
    obtain ⟨block, t, hblock, ht, hsuccessors⟩ := h.ended b hmem
    refine ⟨block, t, hblock, ht, fun c hc => List.mem_filter.mpr ⟨hsuccessors c hc, ?_⟩⟩
    exact decide_eq_true (hkept b (of_decide_eq_true hb) c
      ⟨block, hblock, by rwa [Block.successors, ht]⟩)
  phis b hb block hblock := by
    have hblock : m.blocks[b.index]? = some block := hblock
    obtain ⟨hmem, hb⟩ := List.mem_filter.mp hb
    obtain ⟨hknown, hfirst, hentries⟩ := h.phis b hmem hblock
    refine ⟨fun v hv => ?_, ?_, fun v hv {type place entries} hphi e he => ?_⟩
    · obtain ⟨value, hvalue⟩ := hknown v hv
      exact ⟨m.pruned kept v value, by rw [values_keepBlocks, hvalue]; rfl⟩
    · simpa only [isPhi_keepBlocks] using hfirst
    · obtain ⟨all, hall, rfl⟩ := phi_of_keepBlocks (of_decide_eq_true hb) hblock hv hphi
      obtain ⟨he, hsource⟩ := List.mem_filter.mp he
      obtain ⟨howned, hedge⟩ := hentries v hv hall e he
      exact ⟨List.mem_filter.mpr ⟨howned, hsource⟩, hedge⟩

theorem WellFormed.mem_of_reaches (h : m.WellFormed f function) {b c : BlockId}
    (hb : b ∈ function.blocks) (hreaches : m.Reaches b c) : c ∈ function.blocks := by
  induction hreaches with
  | refl => exact hb
  | tail _ hedge ih =>
      obtain ⟨block, hblock, hsuccessors⟩ := h.edges ih
      obtain ⟨block', hblock', hc⟩ := hedge
      obtain rfl := Option.some.inj (hblock.symm.trans hblock')
      exact hsuccessors _ hc

/-- There is nothing to remove if control can reach every block. -/
theorem WellFormed.removeUnreachable_eq (h : m.WellFormed f function)
    (hall : ∀ b ∈ function.blocks, ∃ entry ∈ function.blocks.head?, m.Reaches entry b) :
    m.removeUnreachable f = .ok m := by
  obtain ⟨kept, hmem, hremoved⟩ := removeUnreachable_cases h.found fun _ => h.edges
  have hkept : function.blocks.all (· ∈ kept) = true :=
    List.all_eq_true.mpr fun b hb => decide_eq_true ((hmem b).mpr (hall b hb))
  rwa [if_pos hkept] at hremoved

/-- Where everything can be reached, nothing changes. -/
theorem WellFormed.trimmed_self (h : m.WellFormed f function)
    (hall : ∀ b ∈ function.blocks, ∃ entry ∈ function.blocks.head?, m.Reaches entry b) :
    m.Trimmed f function function.blocks m where
  sublist := .refl _
  mem_iff b := ⟨hall b, fun ⟨_, hentry, hreaches⟩ =>
    h.mem_of_reaches (List.mem_of_mem_head? hentry) hreaches⟩
  found := h.found
  others _ _ := rfl
  rest := rfl
  entries _ _ _ _ _ := rfl
  values _ _ := rfl
  verified := verify_eq_ok_iff.mpr ⟨function, h⟩
  again := h.removeUnreachable_eq hall

theorem WellFormed.trimmed_keepBlocks (h : m.WellFormed f function) (hplaced : m.WellPlaced)
    {kept : List BlockId}
    (hkept : ∀ b, b ∈ kept ↔ ∃ entry ∈ function.blocks.head?, m.Reaches entry b) :
    m.Trimmed f function (function.blocks.filter (· ∈ kept)) (m.keepBlocks f kept) := by
  have hclosed : ∀ b ∈ kept, ∀ c, m.Edge b c → c ∈ kept := by
    intro b hb c hc
    obtain ⟨entry, hentry, hreaches⟩ := (hkept b).mp hb
    exact (hkept c).mpr ⟨entry, hentry, hreaches.tail hc⟩
  have howned : ∀ b ∈ kept, b ∈ function.blocks := by
    intro b hb
    obtain ⟨entry, hentry, hreaches⟩ := (hkept b).mp hb
    exact h.mem_of_reaches (List.mem_of_mem_head? hentry) hreaches
  have hformed := h.keepBlocks hclosed
  refine ⟨List.filter_sublist, fun b => ?_, hformed.found, fun g hg => ?_, rfl,
    fun entry hentry p hp v => ?_, fun v hv => ?_, verify_eq_ok_iff.mpr ⟨_, hformed⟩,
    hformed.removeUnreachable_eq fun b hb => ?_⟩
  · rw [List.mem_filter, decide_eq_true_eq, ← hkept b]
    exact ⟨And.right, fun hb => ⟨howned b hb, hb⟩⟩
  · have hne : f.index ≠ g.index := by
      cases f
      cases g
      simpa [eq_comm] using hg
    simp [Module.keepBlocks, Array.getElem?_modify, hne]
  · exact entriesFrom_keepBlocks ((hkept p).mpr ⟨entry, hentry, hp⟩) v
  · rw [values_keepBlocks]
    cases hvalue : m.values[v.index]? with
    | none => rfl
    | some value =>
        refine congrArg some ?_
        rcases hv with hphi | ⟨b, block, hblock, hmem, hother⟩
        · exact pruned_of_not_isPhi hvalue hphi
        · refine if_neg fun hstands => hother ?_
          obtain ⟨c, hc, block', hblock', hmem'⟩ := standsIn_iff.mp hstands
          obtain ⟨_, _, hplace⟩ := hplaced.own hblock hmem
          obtain ⟨_, _, hplace'⟩ := hplaced.own hblock' hmem'
          rw [hplace] at hplace'
          cases hplace'
          obtain ⟨block'', hblock'', hfunction⟩ := hplaced.added h.found (howned _ hc)
          rw [hblock] at hblock''
          exact Option.some.inj hblock'' ▸ hfunction
  · obtain ⟨hb, hb'⟩ := List.mem_filter.mp hb
    obtain ⟨entry, hentry, hreaches⟩ := (hkept b).mp (of_decide_eq_true hb')
    obtain ⟨rest, hlist⟩ := List.head?_eq_some_iff.mp hentry
    refine ⟨entry, ?_, hreaches⟩
    have hfirst : entry ∈ kept := (hkept entry).mpr ⟨entry, hentry, .refl⟩
    simp [hlist, hfirst]

/-- The removal of dead blocks keeps the blocks that control can reach, and all that can be seen of
them: a verified function stays verified, other functions stay as they are, and a second removal has
nothing to do. -/
theorem removeUnreachable_spec (hm : m.Reached) (hf : m.verify f = .ok (.ok ())) :
    ∃ function kept m', m.functions[f.index]? = some function ∧
      m.removeUnreachable f = .ok m' ∧ m.Trimmed f function kept m' := by
  obtain ⟨name, commands, hcommands⟩ := hm
  have hplaced : m.WellPlaced :=
    ((Command.runAll_evolves commands).run hcommands).wellPlaced (wellPlaced_new name)
  obtain ⟨function, hformed⟩ := verify_eq_ok_iff.mp hf
  obtain ⟨kept, hkept, hremoved⟩ := removeUnreachable_cases hformed.found fun _ => hformed.edges
  split at hremoved
  · rename_i hall
    refine ⟨function, _, m, hformed.found, hremoved, hformed.trimmed_self fun b hb => ?_⟩
    exact (hkept b).mp (of_decide_eq_true (List.all_eq_true.mp hall b hb))
  · exact ⟨function, _, _, hformed.found, hremoved, hformed.trimmed_keepBlocks hplaced hkept⟩

/-- A function with a block that nothing leads to, and a phi that it is a source of. -/
def detour : List Command :=
  [.intType 32, .functionType ⟨0⟩ [], .addFunction "main" ⟨1⟩ .external, .constInt ⟨0⟩ 1,
    .appendBlock ⟨0⟩ "entry", .appendBlock ⟨0⟩ "detour", .appendBlock ⟨0⟩ "end",
    .positionAtEnd ⟨0⟩, .br ⟨2⟩, .positionAtEnd ⟨1⟩, .br ⟨2⟩, .phi ⟨2⟩ ⟨0⟩,
    .addIncoming ⟨2⟩ ⟨1⟩ ⟨0⟩, .addIncoming ⟨2⟩ ⟨1⟩ ⟨1⟩, .positionAtEnd ⟨2⟩, .ret (some ⟨2⟩)]

/-- What the builder makes of it. -/
def detoured : Module := stateOf (Command.runAll detour { name := "detour" })

theorem detoured_trimmed :
    detoured.Reached ∧ detoured.verify ⟨0⟩ = .ok (.ok ()) ∧ detoured.blocks.size = 3 ∧
      ∃ function kept m', detoured.functions[0]? = some function ∧
        detoured.removeUnreachable ⟨0⟩ = .ok m' ∧ detoured.Trimmed ⟨0⟩ function kept m' := by
  have hreached : detoured.Reached :=
    ⟨"detour", detour, outcome?_eq_some_iff.mp (by decide +kernel)⟩
  have hverified : detoured.verify ⟨0⟩ = .ok (.ok ()) := by decide +kernel
  exact ⟨hreached, hverified, by decide +kernel, removeUnreachable_spec hreached hverified⟩

end Removal

end CilSsa.Ssa.Module
