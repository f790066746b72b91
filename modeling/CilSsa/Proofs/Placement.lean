import CilSsa.Proofs.Builder
import CilSsa.Ssa.Command

/-!
Where instructions and blocks stand.

An instruction is in the list of the one block that it was built in, phis come before all other
instructions, and a block is in the list of the one function that it was added to, unless it was
taken out.  No request to the builder ends this, whatever it is misused for: each of the changes
that a request is made of keeps it.
-/

namespace CilSsa.Ssa

def Change.AddsTo (b : BlockId) : Change → Prop
  | .addInst place _ _ => place = some b
  | .addPhi b' _ => b' = b
  | _ => False

namespace Module

/-- The order of a module: every instruction and every block has one place. -/
structure WellPlaced (m : Module) : Prop where
  /-- Before a phi there are only phis. -/
  phisFirst : ∀ {b : BlockId} {block : Block}, m.blocks[b.index]? = some block →
    block.insts.Pairwise fun v w => Build.isPhi m w = true → Build.isPhi m v = true
  /-- An instruction that was built in a block is there once. -/
  listed : ∀ {v : ValueId} {type : TypeId} {b : BlockId} {inst : Inst},
    m.values[v.index]? = some ⟨type, .inst (some b) inst⟩ →
      ∃ block, m.blocks[b.index]? = some block ∧ block.insts.count v = 1
  /-- What is in a block is an instruction that was built there. -/
  own : ∀ {b : BlockId} {block : Block} {v : ValueId}, m.blocks[b.index]? = some block →
    v ∈ block.insts → ∃ type inst, m.values[v.index]? = some ⟨type, .inst (some b) inst⟩
  /-- The blocks of a function were added to it. -/
  added : ∀ {f : FunctionId} {function : Function} {b : BlockId},
    m.functions[f.index]? = some function → b ∈ function.blocks →
      ∃ block, m.blocks[b.index]? = some block ∧ block.function = f
  /-- A function has each of its blocks once. -/
  distinct : ∀ {f : FunctionId} {function : Function}, m.functions[f.index]? = some function →
    function.blocks.Nodup

theorem wellPlaced_new (name : String) : ({ name } : Module).WellPlaced where
  phisFirst h := by simp at h
  listed h := by simp at h
  own h := by simp at h
  added h := by simp at h
  distinct h := by simp at h

variable {m : Module} {c : Change}

section Origins

/-- What a change makes of the instructions of a block. -/
inductive Gains (m : Module) (b : BlockId) : Change → List ValueId → List ValueId → Prop
  | same {c : Change} (hc : ¬ c.AddsTo b) (insts : List ValueId) : Gains m b c insts insts
  | inst (type : TypeId) (inst : Inst) (insts : List ValueId) :
      Gains m b (.addInst (some b) type inst) insts (insts ++ [⟨m.values.size⟩])
  | phi (type : TypeId) (insts : List ValueId) :
      Gains m b (.addPhi b type) insts
        (insts.takeWhile (Build.isPhi (m.apply (.addPhi b type))) ++
          ⟨m.values.size⟩ :: insts.dropWhile (Build.isPhi (m.apply (.addPhi b type))))

/-- A block was there before a change, with all but the instruction that the change adds, or it is
new and empty. -/
theorem block_of_apply {b : BlockId} {block' : Block}
    (h : (m.apply c).blocks[b.index]? = some block') :
    (∃ block, m.blocks[b.index]? = some block ∧ block'.function = block.function ∧
      Gains m b c block.insts block'.insts) ∨
      ∃ f name, c = .addBlock f name ∧ b = ⟨m.blocks.size⟩ ∧ block' = { name, function := f } := by
  have hkept (hc : ¬ c.AddsTo b) (h : m.blocks[b.index]? = some block') :
      ∃ block, m.blocks[b.index]? = some block ∧ block'.function = block.function ∧
        Gains m b c block.insts block'.insts :=
    ⟨block', h, rfl, .same hc _⟩
  cases c with
  | addInst place type inst =>
      cases place with
      | none => exact .inl (hkept (by simp [Change.AddsTo]) h)
      | some b' =>
          simp only [apply, Array.getElem?_modify] at h
          split at h
          · rename_i hindex
            obtain rfl := BlockId.eq_of_index hindex
            obtain ⟨block, hblock, rfl⟩ := Option.map_eq_some_iff.mp h
            exact .inl ⟨block, hblock, rfl, .inst type inst _⟩
          · rename_i hindex
            refine .inl (hkept (fun hc => hindex ?_) h)
            exact congrArg BlockId.index (Option.some.inj hc)
  | addPhi b' type =>
      simp only [apply, Array.getElem?_modify] at h
      split at h
      · rename_i hindex
        obtain rfl := BlockId.eq_of_index hindex
        obtain ⟨block, hblock, rfl⟩ := Option.map_eq_some_iff.mp h
        exact .inl ⟨block, hblock, rfl, .phi type _⟩
      · rename_i hindex
        exact .inl (hkept (fun hc => hindex (congrArg BlockId.index hc)) h)
  | terminate b' terminator =>
      simp only [apply, Array.getElem?_modify] at h
      split at h
      · obtain ⟨block, hblock, rfl⟩ := Option.map_eq_some_iff.mp h
        exact .inl ⟨block, hblock, rfl, .same id _⟩
      · exact .inl (hkept id h)
  | addBlock f name =>
      simp only [apply, Array.getElem?_push] at h
      split at h
      · rename_i hindex
        exact .inr ⟨f, name, rfl, BlockId.eq_of_index hindex, (Option.some.inj h).symm⟩
      · exact .inl (hkept id h)
  | _ => exact .inl (hkept id h)

/-- An instruction was there before a change, in the same place, or is the one that the change
adds. -/
theorem inst_of_apply {v : ValueId} {type : TypeId} {place : Option BlockId} {inst' : Inst}
    (hfits : m.Fits c) (h : (m.apply c).values[v.index]? = some ⟨type, .inst place inst'⟩) :
    (∃ inst, m.values[v.index]? = some ⟨type, .inst place inst⟩) ∨
      v = ⟨m.values.size⟩ ∧ ∀ b, place = some b → c.AddsTo b := by
  by_cases hlt : v.index < m.values.size
  · obtain ⟨⟨type', kind'⟩, hv', htype, hkind⟩ :=
      like_apply (c := c) (Array.getElem?_eq_getElem hlt)
    obtain ⟨rfl, rfl⟩ := Value.mk.inj (Option.some.inj (hv'.symm.trans h))
    generalize hold : m.values[v.index] = old at htype hkind
    obtain ⟨oldType, oldKind⟩ := old
    obtain rfl : type' = oldType := htype
    cases hkind with
    | same => exact .inl ⟨inst', by rw [Array.getElem?_eq_getElem hlt, hold]⟩
    | phi block incoming incoming' =>
        exact .inl ⟨.phi incoming, by rw [Array.getElem?_eq_getElem hlt, hold]⟩
  · have hpushed {value : Value} (h : (m.values.push value)[v.index]? =
      some ⟨type, .inst place inst'⟩) :
        v = ⟨m.values.size⟩ ∧ value = ⟨type, .inst place inst'⟩ := by
      have hle := (Array.getElem?_eq_some_iff.mp h).1
      rw [Array.size_push] at hle
      have hindex : v.index = m.values.size := by omega
      exact ⟨ValueId.eq_of_index hindex, by simpa [Array.getElem?_push, hindex] using h⟩
    cases c with
    | addValue value =>
        obtain ⟨-, rfl⟩ := hpushed h
        simp [Fits, Value.inst?] at hfits
    | addInst place' type' inst =>
        cases place' <;>
        · obtain ⟨hv, hvalue⟩ := hpushed h
          cases hvalue
          exact .inr ⟨hv, fun _ => id⟩
    | addPhi b type' =>
        obtain ⟨hv, hvalue⟩ := hpushed h
        cases hvalue
        exact .inr ⟨hv, fun _ => Option.some.inj⟩
    | _ =>
        have hle := (Array.getElem?_eq_some_iff.mp h).1
        simp [apply, keepBlocks, prunedValues] at hle
        exact absurd hle hlt

/-- A function had all its blocks before a change, or the change adds the last one. -/
theorem function_of_apply {f : FunctionId} {function' : Function} (hfits : m.Fits c)
    (h : (m.apply c).functions[f.index]? = some function') :
    function'.blocks = [] ∨ ∃ function, m.functions[f.index]? = some function ∧
      (function'.blocks.Sublist function.blocks ∨
        ∃ name, c = .addBlock f name ∧
        function'.blocks = function.blocks ++ [⟨m.blocks.size⟩]) := by
  have hkept (h : m.functions[f.index]? = some function') : function'.blocks = [] ∨
      ∃ function, m.functions[f.index]? = some function ∧
        (function'.blocks.Sublist function.blocks ∨ ∃ name, c = .addBlock f name ∧
          function'.blocks = function.blocks ++ [⟨m.blocks.size⟩]) :=
    .inr ⟨function', h, .inl (List.Sublist.refl _)⟩
  cases c with
  | addFunction added =>
      simp only [apply, Array.getElem?_push] at h
      split at h
      · obtain rfl := Option.some.inj h
        exact .inl hfits.1
      · exact hkept h
  | setLinkage id linkage =>
      simp only [apply, Array.getElem?_modify] at h
      split at h
      · obtain ⟨function, hfunction, rfl⟩ := Option.map_eq_some_iff.mp h
        exact .inr ⟨function, hfunction, .inl (List.Sublist.refl _)⟩
      · exact hkept h
  | addBlock id name =>
      simp only [apply, Array.getElem?_modify] at h
      split at h
      · rename_i hindex
        obtain ⟨function, hfunction, rfl⟩ := Option.map_eq_some_iff.mp h
        obtain rfl : id = f := by
          cases id
          cases f
          exact congrArg FunctionId.mk hindex
        exact .inr ⟨function, hfunction, .inr ⟨name, rfl, rfl⟩⟩
      · exact hkept h
  | keepBlocks id kept =>
      simp only [apply, keepBlocks, Array.getElem?_modify] at h
      split at h
      · obtain ⟨function, hfunction, rfl⟩ := Option.map_eq_some_iff.mp h
        exact .inr ⟨function, hfunction, .inl List.filter_sublist⟩
      · exact hkept h
  | addInst place type inst => cases place <;> exact hkept h
  | _ => exact hkept h

/-- A block stays as it is or gets a new instruction that was built there. -/
theorem Gains.cases {b : BlockId} {insts insts' : List ValueId} (h : Gains m b c insts insts') :
    ¬ c.AddsTo b ∧ insts' = insts ∨
      (∃ type inst, (m.apply c).values[m.values.size]? = some ⟨type, .inst (some b) inst⟩) ∧
        insts'.Perm (⟨m.values.size⟩ :: insts) := by
  cases h with
  | same hc => exact .inl ⟨hc, rfl⟩
  | inst type inst =>
      exact .inr ⟨⟨type, inst, by simp [apply, pushValue]⟩, List.perm_append_singleton _ _⟩
  | phi type =>
      refine .inr ⟨⟨type, .phi [], by simp [apply, pushValue]⟩, List.perm_middle.trans ?_⟩
      rw [List.takeWhile_append_dropWhile]

end Origins

section Steps

theorem isPhi_apply {v : ValueId} (hfits : m.Fits c) (hlt : v.index < m.values.size) :
    Build.isPhi (m.apply c) v = Build.isPhi m v :=
  Bool.eq_iff_iff.mpr ⟨isPhi_of_apply hlt, (Evolves.one (P := fun _ => True) trivial hfits).isPhi⟩

/-- The new instruction of a block is not among the others. -/
theorem WellPlaced.not_mem (h : m.WellPlaced) {b : BlockId} {block : Block}
    (hblock : m.blocks[b.index]? = some block) : (⟨m.values.size⟩ : ValueId) ∉ block.insts := by
  intro hmem
  obtain ⟨type, inst, hv⟩ := h.own hblock hmem
  simp at hv

theorem WellPlaced.lt (h : m.WellPlaced) {b : BlockId} {block : Block} {v : ValueId}
    (hblock : m.blocks[b.index]? = some block) (hv : v ∈ block.insts) :
    v.index < m.values.size := by
  obtain ⟨type, inst, hvalue⟩ := h.own hblock hv
  exact (Array.getElem?_eq_some_iff.mp hvalue).1

theorem phisFirst_apply (h : m.WellPlaced) (hfits : m.Fits c) {b : BlockId} {block' : Block}
    (hblock' : (m.apply c).blocks[b.index]? = some block') :
    block'.insts.Pairwise fun v w =>
      Build.isPhi (m.apply c) w = true → Build.isPhi (m.apply c) v = true := by
  rcases block_of_apply hblock' with ⟨block, hblock, -, hgains⟩ | ⟨f, name, -, -, rfl⟩
  · have hold : block.insts.Pairwise fun v w =>
        Build.isPhi (m.apply c) w = true → Build.isPhi (m.apply c) v = true := by
      refine (h.phisFirst hblock).imp_of_mem fun {v w} hv hw himp => ?_
      rwa [isPhi_apply hfits (h.lt hblock hv), isPhi_apply hfits (h.lt hblock hw)]
    generalize block'.insts = insts' at hgains
    cases hgains with
    | same => exact hold
    | inst type inst =>
        refine List.pairwise_append.mpr ⟨hold, List.pairwise_singleton _ _, fun v _ w hw hphi => ?_⟩
        obtain rfl := List.mem_singleton.mp hw
        simp [Build.isPhi, apply, pushValue, Value.inst?, hfits.2.1] at hphi
    | phi type =>
        have hnew : Build.isPhi (m.apply (.addPhi b type)) ⟨m.values.size⟩ = true := by
          simp [Build.isPhi, apply, pushValue, Value.inst?, Inst.isPhi]
        refine List.pairwise_append.mpr ⟨hold.sublist (List.takeWhile_sublist _),
          List.pairwise_cons.mpr ⟨fun _ _ _ => hnew, hold.sublist (List.dropWhile_sublist _)⟩,
          fun v hv _ _ _ => ?_⟩
        exact List.all_eq_true.mp List.all_takeWhile v hv
  · exact .nil

theorem own_apply (h : m.WellPlaced) {b : BlockId} {block' : Block} {v : ValueId}
    (hblock' : (m.apply c).blocks[b.index]? = some block') (hv : v ∈ block'.insts) :
    ∃ type inst, (m.apply c).values[v.index]? = some ⟨type, .inst (some b) inst⟩ := by
  rcases block_of_apply hblock' with ⟨block, hblock, -, hgains⟩ | ⟨f, name, -, -, rfl⟩
  · have hold (hv : v ∈ block.insts) :
        ∃ type inst, (m.apply c).values[v.index]? = some ⟨type, .inst (some b) inst⟩ := by
      obtain ⟨type, inst, hvalue⟩ := h.own hblock hv
      obtain ⟨⟨type', kind'⟩, hvalue', -, hkind⟩ := like_apply (c := c) hvalue
      cases hkind with
      | same => exact ⟨type', inst, hvalue'⟩
      | phi place incoming incoming' => exact ⟨type', .phi incoming', hvalue'⟩
    rcases hgains.cases with ⟨-, hsame⟩ | ⟨hnew, hperm⟩
    · exact hold (hsame ▸ hv)
    · rcases List.mem_cons.mp (hperm.mem_iff.mp hv) with rfl | hv
      · exact hnew
      · exact hold hv
  · simp at hv

/-- Instructions are added to blocks that exist. -/
theorem lt_of_addsTo {b : BlockId} (hfits : m.Fits c) (h : c.AddsTo b) :
    b.index < m.blocks.size := by
  cases c with
  | addInst place type inst => exact hfits.2.2.2 b h
  | addPhi b' type =>
      obtain rfl : b' = b := h
      exact hfits
  | _ => exact h.elim

/-- A block that was there is there, with at most one more instruction. -/
theorem gains_apply {b : BlockId} {block : Block} (hfits : m.Fits c)
    (hblock : m.blocks[b.index]? = some block) :
    ∃ block', (m.apply c).blocks[b.index]? = some block' ∧
      Gains m b c block.insts block'.insts := by
  obtain ⟨block', hblock', -⟩ := grows_apply hfits hblock
  rcases block_of_apply hblock' with ⟨block₁, hblock₁, -, hgains⟩ | ⟨f, name, -, rfl, -⟩
  · obtain rfl := Option.some.inj (hblock.symm.trans hblock₁)
    exact ⟨block', hblock', hgains⟩
  · simp at hblock

theorem listed_apply (h : m.WellPlaced) (hfits : m.Fits c) {v : ValueId} {type : TypeId}
    {b : BlockId} {inst' : Inst}
    (hv' : (m.apply c).values[v.index]? = some ⟨type, .inst (some b) inst'⟩) :
    ∃ block', (m.apply c).blocks[b.index]? = some block' ∧ block'.insts.count v = 1 := by
  rcases inst_of_apply hfits hv' with ⟨inst, hv⟩ | ⟨rfl, hadds⟩
  · obtain ⟨block, hblock, hcount⟩ := h.listed hv
    obtain ⟨block', hblock', hgains⟩ := gains_apply hfits hblock
    refine ⟨block', hblock', ?_⟩
    rcases hgains.cases with ⟨-, hsame⟩ | ⟨-, hperm⟩
    · rw [hsame, hcount]
    · have hne : (⟨m.values.size⟩ : ValueId) ≠ v := by
        rintro rfl
        simp at hv
      rw [hperm.count_eq, List.count_cons_of_ne hne, hcount]
  · have hadds := hadds b rfl
    have hblock := Array.getElem?_eq_getElem (lt_of_addsTo hfits hadds)
    obtain ⟨block', hblock', hgains⟩ := gains_apply hfits hblock
    refine ⟨block', hblock', ?_⟩
    have hcount := List.count_eq_zero.mpr (h.not_mem hblock)
    rcases hgains.cases with ⟨hc, -⟩ | ⟨-, hperm⟩
    · exact absurd hadds hc
    · rw [hperm.count_eq, List.count_cons_self, hcount]

theorem added_apply (h : m.WellPlaced) (hfits : m.Fits c) {f : FunctionId} {function' : Function}
    {b : BlockId} (hf' : (m.apply c).functions[f.index]? = some function')
    (hb : b ∈ function'.blocks) :
    ∃ block', (m.apply c).blocks[b.index]? = some block' ∧ block'.function = f := by
  have hold {function : Function} (hf : m.functions[f.index]? = some function)
      (hb : b ∈ function.blocks) :
      ∃ block', (m.apply c).blocks[b.index]? = some block' ∧ block'.function = f := by
    obtain ⟨block, hblock, hfunction⟩ := h.added hf hb
    obtain ⟨block', hblock', hgrows⟩ := grows_apply hfits hblock
    exact ⟨block', hblock', hgrows.function.trans hfunction⟩
  rcases function_of_apply hfits hf' with hnone | ⟨function, hf, hsub | ⟨name, rfl, hadded⟩⟩
  · simp [hnone] at hb
  · exact hold hf (hsub.subset hb)
  · rcases List.mem_append.mp (hadded ▸ hb) with hb | hb
    · exact hold hf hb
    · obtain rfl := List.mem_singleton.mp hb
      exact ⟨{ name, function := f }, by simp [apply], rfl⟩

theorem distinct_apply (h : m.WellPlaced) (hfits : m.Fits c) {f : FunctionId}
    {function' : Function} (hf' : (m.apply c).functions[f.index]? = some function') :
    function'.blocks.Nodup := by
  rcases function_of_apply hfits hf' with hnone | ⟨function, hf, hsub | ⟨name, -, hadded⟩⟩
  · simp [hnone]
  · exact (h.distinct hf).sublist hsub
  · have hnew : (⟨m.blocks.size⟩ : BlockId) ∉ function.blocks := by
      intro hmem
      obtain ⟨block, hblock, -⟩ := h.added hf hmem
      simp at hblock
    rw [hadded]
    exact List.nodup_append.mpr ⟨h.distinct hf, by simp, fun b hb b' hb' heq =>
      hnew (List.mem_singleton.mp hb' ▸ heq ▸ hb)⟩

/-- One change leaves everything in its place. -/
theorem wellPlaced_apply (h : m.WellPlaced) (hfits : m.Fits c) : (m.apply c).WellPlaced where
  phisFirst := phisFirst_apply h hfits
  listed := listed_apply h hfits
  own := own_apply h
  added := added_apply h hfits
  distinct := distinct_apply h hfits

/-- Everything stays in its place. -/
theorem Evolves.wellPlaced {P : Change → Prop} {m' : Module} (hevolves : m.Evolves P m')
    (h : m.WellPlaced) : m'.WellPlaced :=
  hevolves.preserves (I := WellPlaced) (fun _ _ _ hfits h => wellPlaced_apply h hfits) h

end Steps

end Module

namespace Command

section Histories

/-- Every request evolves the module. -/
instance run_evolves (command : Command) : Keeps (Module.Evolves Change.Any) command.run := by
  cases command <;> (simp only [run, nothing, aType, aValue]; infer_instance)

instance runAll_evolves (commands : List Command) :
    Keeps (Module.Evolves Change.Any) (runAll commands) := by
  unfold runAll
  infer_instance

variable {name : String} {before after : List Command} {m m' : Module}

/-- Whatever the builder is asked for, every instruction and every block has its one place.  What is
there stays: the end of a block, and the type of a value. -/
theorem wellPlaced_of_runAll (h : runAll before { name } = .ok () m)
    (h' : runAll after m = .ok () m') :
    m.WellPlaced ∧
      (∀ (b : BlockId) (block : Block) (t : Terminator), m.blocks[b.index]? = some block →
        block.terminator = some t →
          ∃ block', m'.blocks[b.index]? = some block' ∧ block'.terminator = some t) ∧
      ∀ (v : ValueId) (value : Value), m.values[v.index]? = some value →
        ∃ value', m'.values[v.index]? = some value' ∧ value'.type = value.type := by
  have hbefore := (runAll_evolves before).run h
  have hafter := (runAll_evolves after).run h'
  refine ⟨hbefore.wellPlaced (Module.wellPlaced_new name), fun b block t hblock ht => ?_,
    fun v value hvalue => ?_⟩
  · obtain ⟨block', hblock', hgrows⟩ := hafter.grows hblock
    exact ⟨block', hblock', hgrows.terminator t ht⟩
  · obtain ⟨value', hvalue', hlike⟩ := hafter.like hvalue
    exact ⟨value', hvalue', hlike.type⟩

end Histories

/-- Code outside of blocks and after the end of one, phis in an ended block, and a block that is
taken out. -/
def disorder : List Command :=
  [.voidType, .functionType ⟨0⟩ [], .addFunction "main" ⟨1⟩ .external, .intType 32,
    .constInt ⟨3⟩ 1, .binary .add ⟨1⟩ ⟨1⟩, .appendBlock ⟨0⟩ "first", .appendBlock ⟨0⟩ "second",
    .positionAtEnd ⟨0⟩, .binary .add ⟨1⟩ ⟨1⟩, .phi ⟨0⟩ ⟨3⟩, .ret none, .binary .mul ⟨1⟩ ⟨1⟩,
    .phi ⟨0⟩ ⟨3⟩, .br ⟨1⟩, .addIncoming ⟨4⟩ ⟨1⟩ ⟨1⟩, .optimize ⟨0⟩ .o1]

/-- What the builder makes of it. -/
def disordered : Module := stateOf (runAll disorder { name := "disorder" })

theorem disordered_wellPlaced :
    runAll disorder { name := "disorder" } = .ok () disordered ∧
      runAll [.positionAtEnd ⟨0⟩, .unreachable] disordered =
        .ok () (stateOf (runAll [.positionAtEnd ⟨0⟩, .unreachable] disordered)) ∧
      disordered.misuses.size = 3 ∧ disordered.WellPlaced := by
  have h : runAll disorder { name := "disorder" } = .ok () disordered :=
    outcome?_eq_some_iff.mp (by decide +kernel)
  have h' : runAll [.positionAtEnd ⟨0⟩, .unreachable] disordered =
      .ok () (stateOf (runAll [.positionAtEnd ⟨0⟩, .unreachable] disordered)) :=
    outcome?_eq_some_iff.mp (by decide +kernel)
  exact ⟨h, h', by decide +kernel, (wellPlaced_of_runAll h h').1⟩

end Command

end CilSsa.Ssa
