import Mathlib.Data.Nat.Find
import CilSsa.Proofs.StackMerges

/-!
The control flow of an emitted body.

The blocks of a body are an entry block and one block for each leader.  Each of them ends where the
next one starts, or where the body ends, and it goes on to the blocks of the positions that its last
instruction goes to.
-/

namespace CilSsa

section Names

namespace Text

theorem hexValue?_digitChar {n : Nat} (h : n < 16) : hexValue? n.digitChar = some n := by
  have hall : ∀ k < 16, hexValue? k.digitChar = some k := by decide
  exact hall n h

theorem foldlM_zeros (count : Nat) :
    (List.replicate count '0').foldlM (fun n c => (hexValue? c).map (16 * n + ·)) 0 = some 0 := by
  induction count with
  | zero => rfl
  | succ count ih =>
      rw [List.replicate_succ, List.foldlM_cons]
      exact ih

theorem foldlM_toDigits (n : Nat) :
    (Nat.toDigits 16 n).foldlM (fun n c => (hexValue? c).map (16 * n + ·)) 0 = some n := by
  induction n using Nat.strongRecOn with
  | ind n ih =>
      by_cases hlt : n < 16
      · rw [Nat.toDigits_of_lt_base hlt, List.foldlM_cons, hexValue?_digitChar hlt]
        simp
      · rw [Nat.toDigits_of_base_le (by decide) (Nat.le_of_not_lt hlt), List.foldlM_append,
          ih (n / 16) (by omega)]
        simp only [Option.bind_eq_bind, Option.bind_some, List.foldlM_cons, List.foldlM_nil,
          hexValue?_digitChar (Nat.mod_lt n (by decide))]
        simp [Nat.div_add_mod]

/-- Digits can be read back, however many zeros stand before them. -/
theorem hexNumber?_paddedHex (width n : Nat) : hexNumber? (paddedHex width n).toList = some n := by
  have hdigits : (paddedHex width n).toList =
      List.replicate (width - (hexDigits n).length) '0' ++ Nat.toDigits 16 n := by
    simp [paddedHex, hexDigits]
  rw [hdigits]
  cases hcs : List.replicate (width - (hexDigits n).length) '0' ++ Nat.toDigits 16 n with
  | nil => exact absurd (List.append_eq_nil_iff.mp hcs).2 Nat.toDigits_ne_nil
  | cons c cs =>
      rw [hexNumber?, ← hcs, List.foldlM_append, foldlM_zeros]
      · exact foldlM_toDigits n
      · simp

end Text

namespace Lowering

/-- Blocks at different positions have different names. -/
theorem blockName_injective : Function.Injective blockName := by
  intro i j h
  have hdigits : (Text.paddedHex 4 i).toList = (Text.paddedHex 4 j).toList := by
    have hlist := congrArg String.toList h
    simpa [blockName] using hlist
  have hnumber := congrArg Text.hexNumber? hdigits
  rw [Text.hexNumber?_paddedHex, Text.hexNumber?_paddedHex] at hnumber
  exact Option.some.inj hnumber

theorem blockName_ne_entry (position : Nat) : blockName position ≠ "entry" := by
  intro h
  have hlist := congrArg String.toList h
  simp [blockName] at hlist

end Lowering

end Names

namespace Lowering

open CilSsa.Metadata CilSsa.Ssa

/-- The instruction at position `i` is the last one before the next block. -/
structure LastOf (instrs : List Instruction) (first i : Nat) : Prop where
  le : first ≤ i
  lt : i < instrs.length
  same : ∀ k, first < k → k ≤ i → k ∉ leaders instrs
  next : i + 1 ∈ leaders instrs ∨ i + 1 = instrs.length

theorem exists_lastOf {instrs : List Instruction} {first : Nat} (h : first < instrs.length) :
    ∃ i, LastOf instrs first i := by
  have hsome : ∃ k, first < k ∧ (k ∈ leaders instrs ∨ k = instrs.length) :=
    ⟨instrs.length, h, .inr rfl⟩
  obtain ⟨hlt, hnext⟩ := Nat.find_spec hsome
  have hle : Nat.find hsome ≤ instrs.length := Nat.find_le ⟨h, .inr rfl⟩
  obtain ⟨i, hi⟩ : ∃ i, Nat.find hsome = i + 1 := ⟨Nat.find hsome - 1, by omega⟩
  refine ⟨i, by omega, by omega, fun k hk hki hleader => ?_, hi ▸ hnext⟩
  exact Nat.find_min hsome (by omega) ⟨hk, .inl hleader⟩

section Ends

variable {instrs : List Instruction} {entry b b' : BlockId} {leaders : List Leader} {l : Leader}
  {n i : Nat}

theorem At.unique (h : At entry leaders n b) (h' : At entry leaders n b')
    (hplaced : Placed instrs entry leaders) : b = b' := by
  cases h with
  | entry h =>
      cases h' with
      | entry h' => rfl
      | leader l' hl' hlt' hlast' => exact absurd (h l' hl') (Nat.not_le.mpr hlt')
  | leader l hl hlt hlast =>
      cases h' with
      | entry h' => exact absurd (h' l hl) (Nat.not_le.mpr hlt)
      | leader l' hl' hlt' hlast' =>
          have hindex := Nat.le_antisymm (hlast' l hl hlt) (hlast l' hl' hlt')
          rw [hplaced.unique hl hl' hindex]

/-- Up to its last instruction the emission is in the block of a leader. -/
theorem LastOf.at (h : LastOf instrs l.index i) (hplaced : Placed instrs entry leaders)
    (hl : l ∈ leaders) : At entry leaders (i + 1) l.block := by
  refine .leader l hl (Nat.lt_succ_of_le h.le) fun l' hl' hlt => Nat.le_of_not_lt fun hgt => ?_
  exact h.same l'.index hgt (Nat.le_of_lt_succ hlt) (hplaced.mem_analyze hl').1

end Ends

namespace BodyRun

variable {asm : Assembly} {d : MethodDef} {name : String} {f : FunctionId} {body : MethodBody}
  {s s' : Session} {run : BodyRun asm d name f body s s'}
  (htargets : ∀ instr ∈ body.instructions, ∀ target ∈ instr.targets,
    target < body.instructions.length)

include htargets in
/-- The emission as a whole. -/
theorem exists_finished (run : BodyRun asm d name f body s s') : ∃ all b,
    Finished run.frame body.instructions run.entry run.start.leaders run.Leaves all run.final ∧
      At run.entry run.start.leaders body.instructions.length b ∧
      Ends body.instructions run.start.leaders body.instructions.length b
        run.final.session.module ∧
      Advances [] run.start all run.final := by
  have hinside := fun l (hl : l ∈ run.start.leaders) => inside htargets hl
  obtain ⟨last, hlast, hend⟩ := emission_cases run.emission
  obtain ⟨edges, hbefore, hadvances⟩ :=
    (run.before run.Leaves).run hinside rfl (Nat.zero_le _) (Nat.le_refl _) hlast
  obtain ⟨all, hfinished, hends, hadvances'⟩ := hbefore.finished hinside
    ⟨_, last, .inr rfl, Nat.le_refl _, hlast, rfl, rfl⟩ hend
  exact ⟨all, last.current, hfinished, hbefore.here, hends, hadvances.trans hadvances'⟩

include htargets in
/-- A block has its end once the next one is entered, and at the end of the body. -/
theorem ends {n : Nat} {b : BlockId}
    (hn : n ∈ leaders body.instructions ∨ n = body.instructions.length)
    (hat : At run.entry run.start.leaders n b) :
    Ends body.instructions run.start.leaders n b s'.module := by
  rw [run.module]
  rcases hn with hn | rfl
  · obtain ⟨l, hl, rfl⟩ := run.placed.exists_leader hn
    obtain ⟨l', known, all, t, hpassage⟩ := exists_passage htargets hl
    obtain ⟨b', hat', hends⟩ := hpassage.ended
    rw [hat.unique hat' run.placed]
    exact hends.mono hpassage.advances.evolves
  · obtain ⟨all, b', -, hat', hends, -⟩ := run.exists_finished htargets
    rw [hat.unique hat' run.placed]
    exact hends

end BodyRun

/-- A body starts a block, unless it is empty. -/
theorem zero_mem_leaders_or (instrs : List Instruction) :
    0 ∈ leaders instrs ∨ 0 = instrs.length := by
  by_cases hempty : instrs = []
  · simp [hempty]
  · exact .inl ((mem_leaders_iff hempty).mpr (.inl rfl))

section Graph

/-- The blocks of a body with their graph: `entry` goes to the first block, and the block of a
leader to those of the positions that its last instruction goes to. -/
structure Graph (m : Module) (instrs : List Instruction) (entry : BlockId)
    (blocks : List (Nat × BlockId)) : Prop where
  positions : blocks.map Prod.fst = leaders instrs
  entryName : ∃ block, m.blocks[entry.index]? = some block ∧ block.name = "entry"
  names : ∀ x ∈ blocks, ∃ block, m.blocks[x.2.index]? = some block ∧ block.name = blockName x.1
  start : ∃ block t, m.blocks[entry.index]? = some block ∧ block.terminator = some t ∧
    ∀ b, b ∈ t.successors ↔ (0, b) ∈ blocks
  flow : ∀ x ∈ blocks, ∃ i instr block t, LastOf instrs x.1 i ∧ instrs[i]? = some instr ∧
    m.blocks[x.2.index]? = some block ∧ block.terminator = some t ∧
    ∀ b, b ∈ t.successors ↔
      ∃ position ∈ goesTo instrs.length i instr.targets instr.opcode.flow, (position, b) ∈ blocks

variable {asm : Assembly} {d : MethodDef} {name : String} {f : FunctionId} {body : MethodBody}
  {s s' : Session}

theorem blocks_of_prologue {frame : Frame} {entry : BlockId} {leaders : List Leader}
    (h : prologue asm d name f body s = .ok (frame, entry, leaders) s') :
    (∃ function function', s.module.functions[f.index]? = some function ∧
      s'.module.functions[f.index]? = some function' ∧
      function'.blocks = function.blocks ++ entry :: leaders.map Leader.block) ∧
    (∃ block, s'.module.blocks[entry.index]? = some block ∧ block.name = "entry") ∧
    (∀ l ∈ leaders, ∃ block, s'.module.blocks[l.block.index]? = some block ∧
      block.name = blockName l.index) ∧
    s'.module.misplaced = s.module.misplaced := by
  obtain ⟨⟨function, hfunction⟩, rfl, _, _, _, s₄, s₅, -, -, -, hcode, hleaders⟩ :=
    prologue_cases h
  obtain ⟨-, -, hblocks, hadded⟩ := appendLeaders_spec hleaders
  have hcoded := hcode ⟨s.module.blocks.size⟩ rfl
  have horderly := hcoded.orderly (openAt_new s.module f "entry")
  have hopened : (opened f s).module.functions[f.index]? =
      some { function with blocks := function.blocks ++ [⟨s.module.blocks.size⟩] } := by
    simp [opened, Module.apply, Array.getElem?_modify, hfunction]
  have hentry : (opened f s).module.blocks[s.module.blocks.size]? =
      some { name := "entry", function := f } := by simp [opened, Module.apply]
  refine ⟨?_, ?_, fun l hl => ?_, ?_⟩
  · obtain ⟨function₁, hfunction₁, hsame⟩ := horderly.blocks hopened
    obtain ⟨function₂, hfunction₂, hadds⟩ := appendLeaders_functions hleaders hfunction₁
    exact ⟨function, function₂, hfunction, hfunction₂, by rw [hadds, hsame]; simp⟩
  · obtain ⟨block, hblock, hgrows⟩ := hcoded.evolves.grows (b := ⟨_⟩) hentry
    obtain ⟨block', hblock', hgrows'⟩ := hadded.grows (b := ⟨_⟩) hblock
    exact ⟨block', hblock', hgrows'.name.trans hgrows.name⟩
  · obtain ⟨-, -, block, hblock, hname, -⟩ := hblocks l hl
    exact ⟨block, hblock, hname⟩
  · have hsame : s'.module.misplaced = s₅.module.misplaced := by
      refine hadded.preserves (I := fun m => m.misplaced = s₅.module.misplaced) ?_ rfl
      intro m c hc _ hm
      cases c <;> first | exact hm | exact hc.elim
    exact hsame.trans horderly.misplaced

theorem leadsTo_iff {leaders : List Leader} {passed : List Nat} {successors : List BlockId}
    (h : LeadsTo leaders passed successors) (b : BlockId) :
    b ∈ successors ↔
      ∃ position ∈ passed, (position, b) ∈ leaders.map fun l => (l.index, l.block) := by
  rw [h b]
  constructor
  · rintro ⟨l, hl, rfl, hpassed⟩
    exact ⟨l.index, hpassed, List.mem_map_of_mem (f := fun l : Leader => (l.index, l.block)) hl⟩
  · rintro ⟨position, hpassed, hmem⟩
    obtain ⟨l, hl, heq⟩ := List.mem_map.mp hmem
    obtain ⟨rfl, rfl⟩ := Prod.mk.inj heq
    exact ⟨l, hl, rfl, hpassed⟩

/-- The emission of a body adds its graph to the function and misplaces no code. -/
theorem emitted_graph (h : emitBody asm d name f body s = .ok () s')
    (htargets : ∀ instr ∈ body.instructions, ∀ target ∈ instr.targets,
      target < body.instructions.length) :
    ∃ function function' entry blocks, s.module.functions[f.index]? = some function ∧
      s'.module.functions[f.index]? = some function' ∧
      function'.blocks = function.blocks ++ entry :: blocks.map Prod.snd ∧
      Graph s'.module body.instructions entry blocks ∧
      ("entry" :: (leaders body.instructions).map blockName).Nodup ∧
      s'.module.misplaced = s.module.misplaced := by
  obtain ⟨run⟩ := nonempty_bodyRun h
  obtain ⟨all, -, -, -, -, hadvances⟩ := run.exists_finished htargets
  obtain ⟨⟨function, function₁, hfunction, hfunction₁, hblocks⟩, hentry, hnames, hmisplaced⟩ :=
    blocks_of_prologue run.prologue
  obtain ⟨function', hfunction', hsame⟩ := hadvances.orderly.blocks hfunction₁
  have hkeeps {b : BlockId} {name : String}
      (hb : ∃ block, run.start.session.module.blocks[b.index]? = some block ∧ block.name = name) :
      ∃ block, s'.module.blocks[b.index]? = some block ∧ block.name = name := by
    obtain ⟨block, hblock, rfl⟩ := hb
    obtain ⟨block', hblock', hgrows⟩ := hadvances.evolves.grows hblock
    exact ⟨block', by rw [run.module]; exact hblock', hgrows.name⟩
  let blocks := run.start.leaders.map fun l => (l.index, l.block)
  have hpositions : blocks.map Prod.fst = leaders body.instructions := by
    have hanalysis := congrArg (List.map Prod.fst) run.placed.analysis
    simpa [blocks, analyze, Function.comp_def] using hanalysis
  refine ⟨function, function', run.entry, blocks, hfunction, by rw [run.module]; exact hfunction',
    ?_, ⟨hpositions, hkeeps hentry, fun x hx => ?_, ?_, fun x hx => ?_⟩, ?_, ?_⟩
  · rw [hsame, hblocks]
    simp [blocks]
  · obtain ⟨l, hl, rfl⟩ := List.mem_map.mp hx
    exact hkeeps (hnames l hl)
  · obtain ⟨block, t, hblock, hend, hleads⟩ :=
      BodyRun.ends htargets (zero_mem_leaders_or _) (.entry (by simp))
    refine ⟨block, t, hblock, hend, fun b => ?_⟩
    rw [leadsTo_iff hleads, follows]
    constructor
    · rintro ⟨position, hposition, hmem⟩
      split at hposition
      · rwa [List.mem_singleton.mp hposition] at hmem
      · simp at hposition
    · intro hmem
      obtain ⟨l, hl, heq⟩ := List.mem_map.mp hmem
      have hlt := BodyRun.inside htargets hl
      exact ⟨0, by rw [if_pos (by omega)]; simp, hmem⟩
  · obtain ⟨l, hl, rfl⟩ := List.mem_map.mp hx
    obtain ⟨i, hlast⟩ := exists_lastOf (BodyRun.inside htargets hl)
    obtain ⟨block, t, hblock, hend, hleads⟩ :=
      BodyRun.ends htargets hlast.next (hlast.at run.placed hl)
    have hinstr := List.getElem?_eq_getElem hlast.lt
    refine ⟨i, _, block, t, hlast, hinstr, hblock, hend, fun b => ?_⟩
    rw [leadsTo_iff hleads, follows_succ hinstr]
  · have hnodup : (leaders body.instructions).Nodup :=
      (pairwise_leaders body.instructions).imp Nat.ne_of_lt
    refine List.nodup_cons.mpr ⟨fun hmem => ?_, hnodup.map blockName_injective⟩
    obtain ⟨position, -, heq⟩ := List.mem_map.mp hmem
    exact blockName_ne_entry position heq
  · rw [run.module, hadvances.orderly.misplaced, hmisplaced]

/-- A body with a jump table that names a position twice and the one behind it, a loop of one
instruction, code that is never reached, and an end that control runs into. -/
def crossing : MethodBody where
  instructions := [
    { opcode := .ldcI41 },
    { opcode := .switch, operand := .switch [4, 4, 2] },
    { opcode := .br, operand := .target 2 },
    { opcode := .ret },
    { opcode := .nop }]

def crossingMethod : MethodDef where
  name := "Cross"
  declaringType := ⟨3⟩
  returnType := .void
  flags := ⟨MethodFlags.static⟩
  body := some crossing

/-- A session in which the function of the method is declared. -/
def crossingSession : Session where
  module := {
    name := "A"
    types := #[.void, .function ⟨0⟩ []]
    functions := #[
      { name := "C::Cross", type := ⟨1⟩, linkage := .external, params := [], value := ⟨0⟩ }] }

/-- The session with the body. -/
def crossingFinal : Session :=
  stateOf (emitBody (Assembly.ofName "A") crossingMethod "C::Cross" ⟨0⟩ crossing crossingSession)

theorem crossing_graph :
    emitBody (Assembly.ofName "A") crossingMethod "C::Cross" ⟨0⟩ crossing crossingSession =
        .ok () crossingFinal ∧
      (∀ instr ∈ crossing.instructions, ∀ target ∈ instr.targets,
        target < crossing.instructions.length) ∧
      ∃ function function' entry blocks, crossingSession.module.functions[0]? = some function ∧
        crossingFinal.module.functions[0]? = some function' ∧
        function'.blocks = function.blocks ++ entry :: blocks.map Prod.snd ∧
        Graph crossingFinal.module crossing.instructions entry blocks ∧
        ("entry" :: (leaders crossing.instructions).map blockName).Nodup ∧
        crossingFinal.module.misplaced = crossingSession.module.misplaced := by
  have hemit : emitBody (Assembly.ofName "A") crossingMethod "C::Cross" ⟨0⟩ crossing
      crossingSession = .ok () crossingFinal := outcome?_eq_some_iff.mp (by decide +kernel)
  have htargets : ∀ instr ∈ crossing.instructions, ∀ target ∈ instr.targets,
      target < crossing.instructions.length := by decide
  exact ⟨hemit, htargets, emitted_graph hemit htargets⟩

end Graph

end Lowering

end CilSsa
