import CilSsa.Proofs.ControlFlow
import CilSsa.Proofs.DeadBlocks

/-!
The entries of phis.

A phi has one entry for every predecessor of its block: each edge into a leader merges a stack once,
and a slot that has become a phi gets an entry for each of them.  The removal of blocks takes away
the entries that come from them.
-/

namespace CilSsa

open Ssa Metadata Lowering

namespace Ssa.Module

variable {m : Module} {blocks : List BlockId}

/-- Every phi of the blocks has one entry for each of its predecessors among them. -/
def PhisComplete (m : Module) (blocks : List BlockId) : Prop :=
  ∀ b ∈ blocks, ∀ block, m.blocks[b.index]? = some block → ∀ v ∈ block.insts, ∀ type place entries,
    m.values[v.index]? = some ⟨type, .inst place (.phi entries)⟩ →
      (entries.map Prod.snd).Nodup ∧ ∀ p, p ∈ entries.map Prod.snd ↔
        p ∈ blocks ∧ ∃ block', m.blocks[p.index]? = some block' ∧ b ∈ block'.successors

theorem PhisComplete.keepBlocks (h : m.PhisComplete blocks) (f : FunctionId) (kept : List BlockId) :
    (m.keepBlocks f kept).PhisComplete (blocks.filter (· ∈ kept)) := by
  intro b hb block hblock v hv type place entries hvalue
  obtain ⟨hmem, hkept⟩ := List.mem_filter.mp hb
  have hblock' : m.blocks[b.index]? = some block := hblock
  obtain ⟨all, hall, rfl⟩ := phi_of_keepBlocks (of_decide_eq_true hkept) hblock' hv hvalue
  obtain ⟨hnodup, hsources⟩ := h b hmem block hblock' v hv type place all hall
  have hfilter : (all.filter fun entry => entry.2 ∈ kept).map Prod.snd =
      (all.map Prod.snd).filter (· ∈ kept) := by
    rw [List.filter_map]
    rfl
  change ((all.filter fun entry => entry.2 ∈ kept).map Prod.snd).Nodup ∧
    ∀ p, p ∈ (all.filter fun entry => entry.2 ∈ kept).map Prod.snd ↔ _
  rw [hfilter]
  refine ⟨hnodup.filter _, fun p => ?_⟩
  rw [List.mem_filter, List.mem_filter, hsources p]
  exact and_right_comm

end Ssa.Module

namespace Lowering

section Collected

variable {asm : Assembly} {m : Module} {l : Leader} {edges : List Edge}

theorem sources_column {k : Nat} (h : ∀ x ∈ edges, k < x.elements.length) :
    (column k edges).map Prod.fst = edges.map Edge.source := by
  induction edges with
  | nil => rfl
  | cons x rest ih =>
      have hrest := ih fun y hy => h y (List.mem_cons_of_mem _ hy)
      have hx := List.getElem?_eq_getElem (h x List.mem_cons_self)
      simpa [column, List.filterMap_cons, hx] using hrest

theorem Collects.sources {block : Block} {v : ValueId} {type : TypeId} {place : Option BlockId}
    {entries : List (ValueId × BlockId)} (h : Collects asm m l edges) (hlevel : Level edges)
    (hblock : m.blocks[l.block.index]? = some block) (hv : v ∈ block.insts)
    (hphi : m.values[v.index]? = some ⟨type, .inst place (.phi entries)⟩) :
    entries.map Prod.snd = edges.map Edge.source := by
  obtain ⟨block', hblock', hown⟩ := h.own
  obtain rfl : block = block' := Option.some.inj (hblock.symm.trans hblock')
  have hisPhi : Build.isPhi m v = true := by
    simp [Build.isPhi, hphi, Value.inst?, Inst.isPhi]
  obtain ⟨slot, hslot, hstate⟩ := List.mem_filterMap.mp ((hown v hv).2 hisPhi)
  split at hstate
  · rename_i hisSlot
    obtain rfl := Option.some.inj hstate
    have hrefers : 1 < l.refers := by
      refine Nat.lt_of_not_le fun hle => ?_
      rw [h.single hle] at hslot
      obtain ⟨e, -, rfl⟩ := List.mem_map.mp hslot
      simp at hisSlot
    obtain ⟨k, hk⟩ := List.getElem?_of_mem hslot
    have hlt := (List.getElem?_eq_some_iff.mp hk).1
    have hheight : ∀ x ∈ edges, k < x.elements.length :=
      fun x hx => h.height hrefers hlevel x hx ▸ hlt
    rw [← sources_column hheight]
    have hholds := h.holds hrefers hlevel k slot hk
    generalize column k edges = arrivals at hholds
    cases hholds with
    | first source e => simp at hisSlot
    | phi several head value stands =>
        rw [hphi] at value
        simp only [Option.some.injEq, Value.mk.injEq, ValueKind.inst.injEq, Inst.phi.injEq] at value
        obtain ⟨-, -, rfl⟩ := value
        exact sources_of_stands stands
  · simp at hstate

end Collected

namespace BodyRun

variable {asm : Assembly} {d : MethodDef} {name : String} {f : FunctionId} {body : MethodBody}
  {s s' : Session} (run : BodyRun asm d name f body s s')

/-- The blocks that the emission adds to its function. -/
def blocks : List BlockId := run.entry :: run.start.leaders.map Leader.block

variable {run} (htargets : ∀ instr ∈ body.instructions, ∀ target ∈ instr.targets,
  target < body.instructions.length)

theorem mem_blocks {b : BlockId} :
    b ∈ run.blocks ↔ IsBodyBlock run.entry run.start.leaders b := by
  simp [blocks, IsBodyBlock]

include htargets in
/-- The edges of the blocks of a body stay among them. -/
theorem successors_subset {b : BlockId} (hb : b ∈ run.blocks) :
    ∃ block, s'.module.blocks[b.index]? = some block ∧
      ∀ c ∈ block.successors, c ∈ run.blocks := by
  have hends : ∃ n, Ends body.instructions run.start.leaders n b s'.module := by
    rcases mem_blocks.mp hb with rfl | ⟨l, hl, rfl⟩
    · exact ⟨0, ends htargets (zero_mem_leaders_or _) (.entry (by simp))⟩
    · obtain ⟨i, hlast⟩ := exists_lastOf (inside htargets hl)
      exact ⟨i + 1, ends htargets hlast.next (hlast.at run.placed hl)⟩
  obtain ⟨n, block, t, hblock, hend, hleads⟩ := hends
  refine ⟨block, hblock, fun c hc => ?_⟩
  rw [Block.successors, hend] at hc
  obtain ⟨l, hl, hlc, -⟩ := (hleads c).mp hc
  exact mem_blocks.mpr (.inr ⟨l, hl, hlc⟩)

include htargets in
theorem phisComplete (hlevel : ∀ l ∈ run.start.leaders, run.Leveled l) :
    s'.module.PhisComplete run.blocks := by
  obtain ⟨all, -, hfinished, -⟩ := run.exists_finished htargets
  intro b hb block hblock v hv type place entries hphi
  have hisPhi : Build.isPhi s'.module v = true := by
    simp [Build.isPhi, hphi, Value.inst?, Inst.isPhi]
  rcases mem_blocks.mp hb with rfl | ⟨l, hl, rfl⟩
  · obtain ⟨block', hblock', hnone⟩ := hfinished.noPhis
    rw [run.module] at hblock hisPhi
    obtain rfl : block = block' := Option.some.inj (hblock.symm.trans hblock')
    exact absurd ((hnone v hv).2 hisPhi) (by simp)
  · have hmem : l.place ∈ run.final.leaders.map Leader.place := by
      rw [hfinished.places]
      exact List.mem_map_of_mem hl
    obtain ⟨l', hl', hplace⟩ := List.mem_map.mp hmem
    have hindex : l'.index = l.index := congrArg (·.1) hplace
    have hsame : l'.block = l.block := congrArg (·.2.1) hplace
    have hcollects := hfinished.collects l' hl'
    rw [hindex] at hcollects
    rw [run.module] at hblock hphi
    have hsources := hcollects.sources (level hfinished hl (hlevel l hl)) (hsame ▸ hblock) hv hphi
    rw [hsources]
    refine ⟨List.pairwise_map.mpr (hfinished.distinct_sources l.index), fun p => ?_⟩
    rw [List.mem_map, ← edge_iff hfinished hl, Edge, mem_blocks]

end BodyRun

/-- When a body is emitted, and the stacks that meet at a leader have the same height, every phi has
one entry for each predecessor of its block and no others.  This stays so when the function is
optimized. -/
theorem phis_complete {asm : Assembly} {d : MethodDef} {name : String} {f : FunctionId}
    {body : MethodBody} {s s' : Session} (h : emitBody asm d name f body s = .ok () s')
    (htargets : ∀ instr ∈ body.instructions, ∀ target ∈ instr.targets,
      target < body.instructions.length) :
    Nonempty (BodyRun asm d name f body s s') ∧ ∀ run : BodyRun asm d name f body s s',
      (∀ l ∈ run.start.leaders, run.Leveled l) → ∃ function function',
        s.module.functions[f.index]? = some function ∧
        s'.module.functions[f.index]? = some function' ∧
        function'.blocks = function.blocks ++ run.blocks ∧ s'.module.PhisComplete run.blocks ∧
        ∀ level, (function.blocks = [] → ∃ m, Build.optimize f level s'.module = .ok () m) ∧
          ∀ m, Build.optimize f level s'.module = .ok () m → ∃ function'',
            m.functions[f.index]? = some function'' ∧
            m.PhisComplete (run.blocks.filter (· ∈ function''.blocks)) := by
  refine ⟨nonempty_bodyRun h, fun run hlevel => ?_⟩
  obtain ⟨all, -, -, -, -, hadvances⟩ := run.exists_finished htargets
  obtain ⟨⟨function, function₁, hfunction, hfunction₁, hadded⟩, -⟩ :=
    blocks_of_prologue run.prologue
  obtain ⟨function', hfunction', hsame⟩ := hadvances.orderly.blocks hfunction₁
  rw [← run.module] at hfunction'
  have hblocks : function'.blocks = function.blocks ++ run.blocks := hsame.trans hadded
  have hcomplete := BodyRun.phisComplete htargets hlevel
  refine ⟨function, function', hfunction, hfunction', hblocks, hcomplete, fun level =>
    ⟨fun hempty => ?_, fun m hm => ?_⟩⟩
  · rw [hempty, List.nil_append] at hblocks
    refine Module.exists_optimize level hfunction' fun b hb => ?_
    rw [hblocks] at hb ⊢
    exact BodyRun.successors_subset htargets hb
  · have hmem : ∀ b ∈ run.blocks, b ∈ function'.blocks := by
      intro b hb
      rw [hblocks]
      exact List.mem_append_right _ hb
    rcases Build.optimize_cases hm with rfl | ⟨kept, rfl⟩
    · refine ⟨function', hfunction', ?_⟩
      rwa [List.filter_eq_self.mpr fun b hb => decide_eq_true (hmem b hb)]
    · refine ⟨{ function' with blocks := function'.blocks.filter (· ∈ kept) }, ?_, ?_⟩
      · simp [Module.apply, Module.keepBlocks, Array.getElem?_modify, hfunction']
      · have hfilter : run.blocks.filter (· ∈ function'.blocks.filter (· ∈ kept)) =
            run.blocks.filter (· ∈ kept) := by
          refine List.filter_congr fun b hb => ?_
          simp [hmem b hb]
        rw [hfilter]
        exact hcomplete.keepBlocks f kept

theorem counter_height {p : BlockId} {sent : List Element} (h : counterRun.Leaves p sent) :
    sent.length = if p.index = 1 ∨ p.index = 2 then 1 else 0 := by
  obtain ⟨n, t, hn, -, hreaches, rfl, rfl⟩ := h
  have hstate : t = counterAt n := (congrArg stateOf hreaches).symm
  have hleaders : leaders counter.instructions = [0, 1, 6] := by decide
  have hcases : n = 0 ∨ n = 1 ∨ n = 6 ∨ n = 7 := by
    rcases hn with hn | hn
    · rw [hleaders] at hn
      simp only [List.mem_cons, List.not_mem_nil, or_false] at hn
      omega
    · exact .inr (.inr (.inr hn))
  rw [hstate]
  rcases hcases with rfl | rfl | rfl | rfl <;> decide +kernel

/-- The stacks that meet in the counter have the same height. -/
theorem counter_leveled (l : Leader) : counterRun.Leveled l := by
  have hblocks : counterFinal.session.module.blocks.size = 4 := by decide +kernel
  have hheights : ∀ i < (4 : Nat), ∀ block ∈ counterFinal.session.module.blocks[i]?,
      ∀ b ∈ block.successors, (if i = 1 ∨ i = 2 then 1 else 0) = if b.index = 1 then 0 else 1 := by
    decide +kernel
  have hedge {p : BlockId} {sent : List Element} (hp : counterRun.Edge p l.block)
      (hsent : counterRun.Leaves p sent) : sent.length = if l.block.index = 1 then 0 else 1 := by
    obtain ⟨-, block, hblock, hmem⟩ := hp
    have hlt := (Array.getElem?_eq_some_iff.mp hblock).1
    rw [counter_height hsent]
    exact hheights p.index (hblocks ▸ hlt) block hblock l.block hmem
  intro p q sent sent' hp hq hsent hsent'
  rw [hedge hp hsent, hedge hq hsent']

theorem counter_phis_complete :
    emitBody counterFrame.asm counterMethod "C::Count" ⟨0⟩ counter counterSession =
        .ok () counterFinal.session ∧
      (∀ instr ∈ counter.instructions, ∀ target ∈ instr.targets,
        target < counter.instructions.length) ∧
      (∀ l ∈ counterRun.start.leaders, counterRun.Leveled l) ∧
      counterFinal.session.module.PhisComplete counterRun.blocks := by
  have hemit : emitBody counterFrame.asm counterMethod "C::Count" ⟨0⟩ counter counterSession =
      .ok () counterFinal.session := outcome?_eq_some_iff.mp (by decide +kernel)
  have htargets : ∀ instr ∈ counter.instructions, ∀ target ∈ instr.targets,
      target < counter.instructions.length := by decide
  have hlevel : ∀ l ∈ counterRun.start.leaders, counterRun.Leveled l := fun l _ => counter_leveled l
  obtain ⟨_, _, -, -, -, hcomplete, -⟩ := (phis_complete hemit htargets).2 counterRun hlevel
  exact ⟨hemit, htargets, hlevel, hcomplete⟩

end Lowering

end CilSsa
