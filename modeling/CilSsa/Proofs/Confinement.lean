import CilSsa.Proofs.DeadBlocks
import CilSsa.Proofs.FailingBodies
import CilSsa.Proofs.OptimizationLevels

/-!
The compilation of a method is confined to the function of the method.

All functions share their blocks, their values and the place where code is added.  Whether it
succeeds or fails, the compilation of a method adds code only to blocks that are new, and it
gives blocks and a linkage only to functions that are new or registered for the method.  So
everything else is as it was.
-/

namespace CilSsa

open Ssa Metadata Lowering

namespace Ssa

theorem FunctionId.eq_of_index {f f' : FunctionId} (h : f.index = f'.index) : f = f' := by
  cases f
  cases f'
  exact congrArg FunctionId.mk h

/-- The block of an instruction. -/
def Value.place? (v : Value) : Option BlockId :=
  match v.kind with
  | .inst place _ => place
  | _ => none

/-- The same value, or a global that starts with another one. -/
def Value.Reset (v v' : Value) : Prop := v' = v ∨ ∃ initial, v' = v.setInitial initial

theorem Value.Reset.trans {v v' v'' : Value} (h : v.Reset v') (h' : v'.Reset v'') :
    v.Reset v'' := by
  have htwice (i i' : ValueId) : (v.setInitial i).setInitial i' = v.setInitial i' := by
    unfold Value.setInitial
    cases hkind : v.kind <;> simp [hkind]
  rcases h with rfl | ⟨initial, rfl⟩
  · exact h'
  · rcases h' with rfl | ⟨initial', rfl⟩
    · exact .inr ⟨initial, rfl⟩
    · exact .inr ⟨initial', htwice initial initial'⟩

/-- Instructions are no globals. -/
theorem Value.Reset.of_inst {v : Value} {type : TypeId} {place : Option BlockId} {inst : Inst}
    (h : v.Reset ⟨type, .inst place inst⟩) : v = ⟨type, .inst place inst⟩ := by
  rcases h with heq | ⟨initial, heq⟩
  · exact heq.symm
  · obtain ⟨type', kind⟩ := v
    cases kind <;> simp_all [Value.setInitial]

namespace Module

/-- Everything but the functions in `own` is as it was, and everything that is there is still
there: blocks with their instructions and ends, phis with their entries, functions with their blocks
and their linkage.  Only globals may start with other values. -/
structure Outside (own : FunctionId → Prop) (m m' : Module) : Prop where
  function : ∀ {g : FunctionId} {function : Function}, m.functions[g.index]? = some function →
    ¬ own g → m'.functions[g.index]? = some function
  block : ∀ {b : BlockId} {block : Block}, m.blocks[b.index]? = some block →
    m'.blocks[b.index]? = some block
  value : ∀ {v : ValueId} {value : Value}, m.values[v.index]? = some value →
    (∀ b block, value.place? = some b → m.blocks[b.index]? = some block → ¬ own block.function) →
      ∃ value', m'.values[v.index]? = some value' ∧ value.Reset value'
  type : ∀ {t : TypeId} {type : IrType}, m.types[t.index]? = some type →
    m'.types[t.index]? = some type
  globals : ∃ added, m'.globals = m.globals ++ added
  misuses : ∃ added, m'.misuses = m.misuses ++ added
  name : m'.name = m.name

end Module

/-- Changes that make types, values and functions. -/
def Change.Declares : Change → Prop
  | .addType _ | .addValue _ | .addFunction _ | .record _ | .listGlobal _ | .countString => True
  | _ => False

instance : Change.Founding Change.Declares where
  addFunction _ := trivial

instance : Change.Additive Change.Declares where
  addType _ _ := trivial
  addArray _ _ := trivial
  addValue _ := trivial
  record _ := trivial
  listGlobal _ := trivial
  countString := trivial

/-- Changes while a method is compiled that started with the module `old`: code for new blocks, and
blocks and linkages for new functions and those in `own`.  Blocks that are `mine` lead to each other
only. -/
def Change.Aside (old : Module) (own : FunctionId → Prop) (mine : BlockId → Prop) :
    Change → Prop
  | .defineStruct .. => False
  | .addInst place _ _ => ∀ b, place = some b → old.blocks.size ≤ b.index
  | .addPhi b _ => old.blocks.size ≤ b.index
  | .addEntry phi _ _ => old.values.size ≤ phi.index
  | .setLinkage g _ | .addBlock g _ => own g ∨ old.functions.size ≤ g.index
  | .terminate b t => old.blocks.size ≤ b.index ∧ ∀ c ∈ t.successors, mine b ∧ mine c
  | .keepBlocks g kept => (own g ∨ old.functions.size ≤ g.index) ∧
      ∀ b ∈ kept, ∀ block, old.blocks[b.index]? = some block → own block.function
  | _ => True

namespace Module

variable {old m m' : Module} {own : FunctionId → Prop} {mine : BlockId → Prop} {c : Change}

section Frames

theorem function_apply_of_aside {g : FunctionId} {function : Function} (hc : c.Aside old own mine)
    (hold : g.index < old.functions.size) (hg : ¬ own g)
    (h : m.functions[g.index]? = some function) :
    (m.apply c).functions[g.index]? = some function := by
  have hother {g' : FunctionId} (hown : own g' ∨ old.functions.size ≤ g'.index) :
      g'.index ≠ g.index := by
    intro heq
    obtain rfl : g' = g := FunctionId.eq_of_index heq
    rcases hown with hown | hnew
    · exact hg hown
    · omega
  cases c with
  | addFunction f =>
      have hlt := (Array.getElem?_eq_some_iff.mp h).1
      simp [apply, Array.getElem?_push, Nat.ne_of_lt hlt, h]
  | setLinkage g' linkage => simp [apply, Array.getElem?_modify, hother hc, h]
  | addBlock g' name => simp [apply, Array.getElem?_modify, hother hc, h]
  | keepBlocks g' kept => simp [apply, Module.keepBlocks, Array.getElem?_modify, hother hc.1, h]
  | addInst place type inst => cases place <;> exact h
  | _ => exact h

theorem block_apply_of_aside {b : BlockId} {block : Block} (hc : c.Aside old own mine)
    (hold : b.index < old.blocks.size) (h : m.blocks[b.index]? = some block) :
    (m.apply c).blocks[b.index]? = some block := by
  have hother {b' : BlockId} (hnew : old.blocks.size ≤ b'.index) : b' ≠ b := by
    rintro rfl
    omega
  refine block_apply ?_ h
  cases c with
  | addInst place type inst =>
      rintro rfl
      exact hother (hc b rfl) rfl
  | addPhi b' type => exact hother hc
  | terminate b' t => exact hother hc.1
  | _ => exact trivial

theorem value_apply_of_aside {v : ValueId} {value value' : Value} (hc : c.Aside old own mine)
    (hplaced : old.WellPlaced) (hm : m.WellPlaced) (hold : old.values[v.index]? = some value)
    (houtside : ∀ b block, value.place? = some b → old.blocks[b.index]? = some block →
      ¬ own block.function)
    (h : m.values[v.index]? = some value') (hreset : value.Reset value') :
    ∃ value'', (m.apply c).values[v.index]? = some value'' ∧ value.Reset value'' := by
  have hlt := (Array.getElem?_eq_some_iff.mp hold).1
  cases c with
  | setInitial global initial =>
      by_cases heq : global.index = v.index
      · refine ⟨value'.setInitial initial, by simp [apply, Array.getElem?_modify, heq, h], ?_⟩
        exact hreset.trans (.inr ⟨initial, rfl⟩)
      · exact ⟨value', value_apply (c := .setInitial global initial) heq h, hreset⟩
  | addEntry phi w source =>
      have hne : phi.index ≠ v.index := by
        have hnew : old.values.size ≤ phi.index := hc
        omega
      exact ⟨value', value_apply (c := .addEntry phi w source) hne h, hreset⟩
  | keepBlocks g kept =>
      refine ⟨m.pruned kept v value', by simp [apply, values_keepBlocks, h], ?_⟩
      rw [pruned]
      split
      · rename_i hstands
        obtain ⟨b, hb, hin⟩ := List.any_eq_true.mp hstands
        cases hblock : m.blocks[b.index]? with
        | none => simp [hblock] at hin
        | some block =>
            simp only [hblock, decide_eq_true_eq] at hin
            obtain ⟨type, inst, hvalue⟩ := hm.own hblock hin
            obtain rfl := Option.some.inj (h.symm.trans hvalue)
            obtain rfl := hreset.of_inst
            obtain ⟨block', hblock', -⟩ := hplaced.listed hold
            exact absurd (hc.2 b hb block' hblock') (houtside b block' rfl hblock')
      · exact hreset
  | _ => exact ⟨value', value_apply trivial h, hreset⟩

theorem type_apply_of_aside {t : TypeId} {type : IrType} (hc : c.Aside old own mine)
    (h : m.types[t.index]? = some type) : (m.apply c).types[t.index]? = some type := by
  have hlt := (Array.getElem?_eq_some_iff.mp h).1
  cases c with
  | addType type' => simp [apply, Array.getElem?_push, Nat.ne_of_lt hlt, h]
  | defineStruct id type' => exact hc.elim
  | addInst place type inst => cases place <;> exact h
  | _ => exact h

theorem globals_apply (c : Change) : ∃ added, (m.apply c).globals = m.globals ++ added := by
  cases c with
  | listGlobal g => exact ⟨#[g], by simp [apply]⟩
  | addInst place type inst => cases place <;> exact ⟨#[], by simp [apply, pushValue]⟩
  | _ => exact ⟨#[], by simp [apply, pushValue, Module.keepBlocks]⟩

theorem misuses_append (c : Change) : ∃ added, (m.apply c).misuses = m.misuses ++ added := by
  cases c with
  | record misuse => exact ⟨#[misuse], by simp [apply]⟩
  | addInst place type inst => cases place <;> exact ⟨#[], by simp [apply, pushValue]⟩
  | _ => exact ⟨#[], by simp [apply, pushValue, Module.keepBlocks]⟩

theorem name_apply (c : Change) : (m.apply c).name = m.name := by
  cases c with
  | addInst place type inst => cases place <;> rfl
  | _ => rfl

/-- Each change leaves alone what is outside. -/
theorem outside_apply (hc : c.Aside old own mine) (hplaced : old.WellPlaced) (hm : m.WellPlaced)
    (h : old.Outside own m) : old.Outside own (m.apply c) where
  function hg hown :=
    function_apply_of_aside hc (Array.getElem?_eq_some_iff.mp hg).1 hown (h.function hg hown)
  block hb := block_apply_of_aside hc (Array.getElem?_eq_some_iff.mp hb).1 (h.block hb)
  value hv houtside := by
    obtain ⟨value', hvalue', hreset⟩ := h.value hv houtside
    exact value_apply_of_aside hc hplaced hm hv houtside hvalue' hreset
  type ht := type_apply_of_aside hc (h.type ht)
  globals := by
    obtain ⟨added, hadded⟩ := h.globals
    obtain ⟨more, hmore⟩ := globals_apply (m := m) c
    exact ⟨added ++ more, by rw [hmore, hadded, Array.append_assoc]⟩
  misuses := by
    obtain ⟨added, hadded⟩ := h.misuses
    obtain ⟨more, hmore⟩ := misuses_append (m := m) c
    exact ⟨added ++ more, by rw [hmore, hadded, Array.append_assoc]⟩
  name := (name_apply c).trans h.name

theorem Outside.refl (own : FunctionId → Prop) (m : Module) : m.Outside own m where
  function h _ := h
  block h := h
  value h _ := ⟨_, h, .inl rfl⟩
  type h := h
  globals := ⟨#[], by simp⟩
  misuses := ⟨#[], by simp⟩
  name := rfl

theorem Evolves.outside (h : old.Evolves (Change.Aside old own mine) m) (hplaced : old.WellPlaced) :
    old.Outside own m := by
  refine (h.preserves (I := fun m => m.WellPlaced ∧ old.Outside own m) ?_
    ⟨hplaced, Outside.refl own old⟩).2
  rintro m c hc hfits ⟨hm, houtside⟩
  exact ⟨wellPlaced_apply hm hfits, outside_apply hc hplaced hm houtside⟩

end Frames

/-- Every block belongs to a function, and control stays in it. -/
structure Separate (m : Module) : Prop where
  owner : ∀ {b : BlockId} {block : Block}, m.blocks[b.index]? = some block →
    block.function.index < m.functions.size
  edges : ∀ {b c : BlockId} {block : Block}, m.blocks[b.index]? = some block →
    c ∈ block.successors →
      ∃ block', m.blocks[c.index]? = some block' ∧ block'.function = block.function

theorem Separate.of_reaches (hm : m.Separate) {b c : BlockId} {block : Block}
    (h : m.Reaches b c) (hb : m.blocks[b.index]? = some block) :
    ∃ block', m.blocks[c.index]? = some block' ∧ block'.function = block.function := by
  induction h with
  | refl => exact ⟨block, hb, rfl⟩
  | tail _ hedge ih =>
      obtain ⟨middle, hmiddle, hsame⟩ := ih
      obtain ⟨block', hblock', hc⟩ := hedge
      obtain rfl := Option.some.inj (hmiddle.symm.trans hblock')
      obtain ⟨last, hlast, hsame'⟩ := hm.edges hmiddle hc
      exact ⟨last, hlast, hsame'.trans hsame⟩

/-- The state of the compilation of a method that started with the module `old` and may have got to
the blocks of function `f` that are `mine`. -/
structure Apart (old : Module) (own : FunctionId → Prop) (f : FunctionId) (mine : BlockId → Prop)
    (m : Module) : Prop where
  evolves : old.Evolves (Change.Aside old own mine) m
  mine : ∀ {b : BlockId}, mine b → ∃ block, m.blocks[b.index]? = some block ∧ block.function = f
  owner : ∀ {b : BlockId} {block : Block}, m.blocks[b.index]? = some block →
    block.function.index < m.functions.size

variable {f : FunctionId}

section Steps

theorem functions_le_apply (c : Change) : m.functions.size ≤ (m.apply c).functions.size := by
  cases c with
  | addInst place type inst => cases place <;> simp [apply, pushValue]
  | _ => simp [Module.apply, pushValue, Module.keepBlocks]

theorem Evolves.functions_le {P : Change → Prop} (h : m.Evolves P m') :
    m.functions.size ≤ m'.functions.size :=
  h.preserves (I := fun m' => m.functions.size ≤ m'.functions.size)
    (fun _ c _ _ hle => Nat.le_trans hle (functions_le_apply c)) (Nat.le_refl _)

theorem mine_apply {c : Change} (hfits : m.Fits c) {b : BlockId}
    (h : ∃ block, m.blocks[b.index]? = some block ∧ block.function = f) :
    ∃ block, (m.apply c).blocks[b.index]? = some block ∧ block.function = f := by
  obtain ⟨block, hblock, rfl⟩ := h
  obtain ⟨block', hblock', hgrows⟩ := grows_apply hfits hblock
  exact ⟨block', hblock', hgrows.function⟩

theorem Apart.apply (h : old.Apart own f mine m) (hc : c.Aside old own mine) (hfits : m.Fits c)
    (hadd : ∀ g name, c = .addBlock g name → g.index < m.functions.size) :
    old.Apart own f mine (m.apply c) where
  evolves := h.evolves.tail ⟨c, hc, hfits, rfl⟩
  mine hb := mine_apply hfits (h.mine hb)
  owner {b block} hb := by
    rcases block_of_apply hb with ⟨block₀, hblock₀, hsame, -⟩ | ⟨g, name, rfl, -, rfl⟩
    · rw [hsame]
      exact Nat.lt_of_lt_of_le (h.owner hblock₀) (functions_le_apply c)
    · exact Nat.lt_of_lt_of_le (hadd g name rfl) (functions_le_apply _)

/-- The blocks that are mine may still be chosen as long as there is no branch. -/
theorem Apart.choose (h : old.Apart own f (fun _ => False) m)
    (hmine : ∀ {b : BlockId}, mine b → ∃ block, m.blocks[b.index]? = some block ∧
      block.function = f) : old.Apart own f mine m where
  evolves := h.evolves.mono fun c hc => by
    cases c with
    | terminate b t => exact ⟨hc.1, fun d hd => (hc.2 d hd).1.elim⟩
    | _ => exact hc
  mine := hmine
  owner := h.owner

theorem ending_of_apply {c : Change} {b : BlockId} {g : FunctionId} {t : Terminator}
    (hfits : m.Fits c) (h : (m.apply c).flow.ending b = some (g, some t)) :
    m.flow.ending b = some (g, some t) ∨ c = .terminate b t := by
  cases c with
  | addFunction function =>
      rw [flow_addFunction hfits.1] at h
      exact .inl h
  | addBlock g' name =>
      rw [flow_addBlock] at h
      by_cases heq : b = ⟨m.blocks.size⟩
      · subst heq
        simp at h
      · exact .inl (by rwa [ControlFlow.ending_withBlock_of_ne heq] at h)
  | terminate b' t' =>
      rw [flow_terminate] at h
      by_cases heq : b = b'
      · subst heq
        rw [ControlFlow.ending_withEnd_self, Option.map_eq_some_iff] at h
        obtain ⟨_, -, heq⟩ := h
        obtain ⟨-, rfl⟩ := Prod.mk.inj heq |>.imp id Option.some.inj
        exact .inr rfl
      · exact .inl (by rwa [ControlFlow.ending_withEnd_of_ne heq] at h)
  | addPhi b' type =>
      rw [flow_addPhi] at h
      exact .inl h
  | addEntry phi value source =>
      rw [flow_addEntry] at h
      exact .inl h
  | keepBlocks g' kept => exact .inl h
  | _ => exact .inl (by rwa [flow_apply rfl hfits] at h)

/-- New blocks lead only to each other. -/
theorem Apart.successors (h : old.Apart own f mine m) {b d : BlockId} {g : FunctionId}
    {t : Terminator} (hnew : old.blocks.size ≤ b.index) (hb : m.flow.ending b = some (g, some t))
    (hd : d ∈ t.successors) : mine b ∧ mine d := by
  refine h.evolves.preserves (I := fun m => ∀ {g : FunctionId} {t : Terminator},
    m.flow.ending b = some (g, some t) → d ∈ t.successors → mine b ∧ mine d) ?_ ?_ hb hd
  · intro m c hc hfits ih g t hb hd
    rcases ending_of_apply hfits hb with hbefore | rfl
    · exact ih hbefore hd
    · exact hc.2 d hd
  · intro g t hb
    obtain ⟨block, hblock, -⟩ := ending_eq_some_iff.mp hb
    have hlt := (Array.getElem?_eq_some_iff.mp hblock).1
    omega

/-- Control stays in its function. -/
theorem Apart.separate (h : old.Apart own f mine m) (hold : old.Separate)
    (hplaced : old.WellPlaced) : m.Separate where
  owner := h.owner
  edges {b d block} hb hd := by
    have houtside := h.evolves.outside hplaced
    by_cases hnew : old.blocks.size ≤ b.index
    · cases hend : block.terminator with
      | none => simp [Block.successors, hend] at hd
      | some t =>
          rw [Block.successors, hend] at hd
          obtain ⟨hmine, hmine'⟩ :=
            h.successors hnew (ending_eq_some_iff.mpr ⟨block, hb, rfl, hend⟩) hd
          obtain ⟨found, hfound, hsame⟩ := h.mine hmine
          obtain rfl := Option.some.inj (hb.symm.trans hfound)
          obtain ⟨target, htarget, hsame'⟩ := h.mine hmine'
          exact ⟨target, htarget, hsame'.trans hsame.symm⟩
    · have hlt : b.index < old.blocks.size := by omega
      obtain ⟨block₀, hblock₀⟩ : ∃ block₀, old.blocks[b.index]? = some block₀ :=
        ⟨_, Array.getElem?_eq_getElem hlt⟩
      obtain rfl := Option.some.inj (hb.symm.trans (houtside.block hblock₀))
      obtain ⟨target, htarget, hsame⟩ := hold.edges hblock₀ hd
      exact ⟨target, houtside.block htarget, hsame⟩

/-- What the removal of dead blocks keeps is what the first block of the function leads to. -/
theorem removeUnreachable_eq_ok (h : m.removeUnreachable f = .ok m') :
    m' = m ∨ ∃ function entry kept, m.functions[f.index]? = some function ∧
      entry ∈ function.blocks ∧ (∀ b, b ∈ kept ↔ m.Reaches entry b) ∧
        m' = m.apply (.keepBlocks f kept) := by
  simp only [removeUnreachable, exceptBind_eq_ok_iff] at h
  obtain ⟨function, hfunction, h⟩ := h
  cases hblocks : function.blocks with
  | nil =>
      simp only [hblocks, exceptPure_eq_ok_iff] at h
      exact .inl h
  | cons entry rest =>
      simp only [hblocks, exceptBind_eq_ok_iff, exceptPure_eq_ok_iff] at h
      obtain ⟨kept, hkept, rfl⟩ := h
      split
      · exact .inl rfl
      · refine .inr ⟨function, entry, kept, Arena.entry_eq_ok_iff.mp hfunction, by simp [hblocks],
          mem_reachable_iff hkept, rfl⟩

/-- The removal of dead blocks concerns the function alone. -/
theorem Apart.optimize {level : OptLevel} {u : Unit} (h : old.Apart own f mine m)
    (hold : old.Separate) (hplaced : old.WellPlaced) (hf : own f ∨ old.functions.size ≤ f.index)
    (hrun : Build.optimize f level m = .ok u m') : old.Apart own f mine m' := by
  unfold Build.optimize at hrun
  split at hrun
  · simp only [bind_eq_ok_iff, Build.query_eq_ok_iff, set_eq_ok_iff] at hrun
    obtain ⟨_, _, ⟨hremoved, rfl⟩, rfl⟩ := hrun
    rcases removeUnreachable_eq_ok hremoved with rfl | ⟨function, entry, kept, hfunction, hentry,
      hkept, rfl⟩
    · exact h
    · refine h.apply ⟨hf, fun b hb block hblock => ?_⟩ trivial (by simp)
      obtain ⟨first, hfirst, rfl⟩ := (h.evolves.wellPlaced hplaced).added hfunction hentry
      obtain ⟨found, hfound, hsame⟩ :=
        (h.separate hold hplaced).of_reaches ((hkept b).mp hb) hfirst
      obtain rfl := Option.some.inj
        ((h.evolves.outside hplaced).block hblock |>.symm.trans hfound)
      rw [hsame]
      rcases hf with hown | hnew
      · exact hown
      · have hlt := hold.owner hblock
        rw [hsame] at hlt
        omega
  · obtain ⟨-, rfl⟩ := pure_eq_ok_iff.mp hrun
    exact h

end Steps

/-- Code of function `f` or of a routine is added to block `b`. -/
structure Filling (old : Module) (own : FunctionId → Prop) (f : FunctionId) (mine : BlockId → Prop)
    (b : BlockId) (m : Module) : Prop where
  apart : old.Apart own f mine m
  position : m.position = some b
  new : old.blocks.size ≤ b.index

section Filling

variable {b : BlockId}

theorem Filling.plain (h : old.Filling own f mine b m)
    (hm : m.Evolves (Change.Plain noAddress) m') : old.Filling own f mine b m' := by
  refine hm.preserves (I := old.Filling own f mine b) (fun m₁ c hc hfits h₁ => ?_) h
  refine ⟨h₁.apart.apply ?_ hfits fun g name heq => ?_, ?_, h₁.new⟩
  · cases c with
    | addInst place type inst =>
        rintro b' rfl
        obtain rfl := Option.some.inj (hfits.1.symm.trans h₁.position)
        exact h₁.new
    | addType | addValue | addFunction | record | listGlobal | countString => exact trivial
    | _ => exact hc.elim
  · subst heq
    exact hc.elim
  · refine Eq.trans ?_ h₁.position
    cases c with
    | addInst place type inst => cases place <;> rfl
    | moveTo b' => exact hc.elim
    | _ => rfl

theorem Apart.append (h : old.Apart own f mine m) {g : FunctionId} {name : String}
    {block : BlockId} (hg : own g ∨ old.functions.size ≤ g.index)
    (hrun : Build.appendBlock g name m = .ok block m') :
    old.Apart own f mine m' ∧ old.blocks.size ≤ block.index ∧ m'.position = m.position := by
  obtain ⟨rfl, rfl, function, hfunction⟩ := Build.appendBlock_eq_ok hrun
  refine ⟨h.apply hg trivial ?_, h.evolves.blocks_le, rfl⟩
  rintro _ _ heq
  obtain ⟨rfl, -⟩ := Change.addBlock.inj heq
  exact (Array.getElem?_eq_some_iff.mp hfunction).1

/-- The emission goes on in a new block. -/
theorem Apart.move (h : old.Apart own f mine m) (hb : old.blocks.size ≤ b.index) :
    old.Filling own f mine b (m.apply (.moveTo b)) where
  apart := h.apply trivial trivial (by simp)
  position := rfl
  new := hb

/-- The current block is ended with a branch to blocks that are mine, if there are any. -/
theorem Filling.ended {t : Terminator} (h : old.Filling own f mine b m)
    (ht : ∀ d ∈ t.successors, mine b ∧ mine d) (hm : m.Evolves (Change.EndsBy t) m') :
    old.Filling own f mine b m' := by
  refine hm.preserves (I := old.Filling own f mine b) (fun m₁ c hc hfits h₁ => ?_) h
  cases c with
  | terminate b' t' =>
      obtain rfl : t' = t := hc
      obtain rfl : b' = b := Option.some.inj (hfits.1.symm.trans h₁.position)
      exact ⟨h₁.apart.apply ⟨h₁.new, ht⟩ hfits (by simp), h₁.position, h₁.new⟩
  | record misuse => exact ⟨h₁.apart.apply trivial hfits (by simp), h₁.position, h₁.new⟩
  | _ => exact hc.elim

end Filling

end Module

end Ssa

namespace Lowering

variable {asm : Assembly} {old : Module} {own : FunctionId → Prop} {f : FunctionId}
  {mine : BlockId → Prop} {b : BlockId} {α : Type}

/-- Code of function `f` or of a routine is added to block `b`. -/
def Session.Filling (old : Module) (own : FunctionId → Prop) (f : FunctionId)
    (mine : BlockId → Prop) (b : BlockId) (s : Session) : Prop :=
  old.Filling own f mine b s.module

/-- A method is being compiled, or its compilation has come to its end. -/
def Session.Aside (old : Module) (own : FunctionId → Prop) (s : Session) : Prop :=
  ∃ f mine, old.Apart own f mine s.module

theorem Session.Filling.aside {s : Session} (h : s.Filling old own f mine b) :
    s.Aside old own :=
  ⟨f, mine, Module.Filling.apart h⟩

section Code

/-- While code is added, every failure is one on the way. -/
instance (question : Registry → Except Stop α) :
    Upholds (Session.Filling old own f mine b) (fun _ => Session.Aside old own)
      (Lower.consult question) :=
  upholds_consult fun hs _ => hs.aside

instance (x : Registering α) :
    Upholds (Session.Filling old own f mine b) (fun _ => Session.Aside old own)
      (Lower.register x) where
  ok hs h := by
    obtain ⟨r, -, rfl⟩ := Lower.register_eq_ok_iff.mp h
    exact hs
  fails {s e s'} hs h := by
    unfold Lower.register at h
    split at h <;> cases h
    exact hs.aside

instance (x : Layouts α) :
    Upholds (Session.Filling old own f mine b) (fun _ => Session.Aside old own)
      (Lower.layout x) where
  ok hs h := by
    obtain ⟨c, -, rfl⟩ := Lower.layout_eq_ok_iff.mp h
    exact hs
  fails {s e s'} hs h := by
    unfold Lower.layout at h
    split at h <;> cases h
    exact hs.aside

instance : Upholding (Change.Plain noAddress) (Session.Filling old own f mine b)
    (fun _ => Session.Aside old own) where
  build hx _ _ _ hs h := hs.plain (hx.run h)
  here hs _ := hs.aside

instance : Naming asm (Change.Plain noAddress) (Session.Filling old own f mine b)
    (fun _ => Session.Aside old own) where
  namedType _ := upholds_namedType fun _ => inferInstance

instance : Emitted asm (Change.Plain noAddress) (Session.Filling old own f mine b)
    (fun _ => Session.Aside old own) where
  declareFunction m := upholds_declareFunction m inferInstance
  staticField f := upholds_staticField f inferInstance
  foldStatic _ := inferInstance
  setInitializer global value := upholds_build fun {s _ m} hs h => by
    rcases Build.setInitializer_cases h with ⟨misuse, rfl, hfits⟩ | ⟨rfl, hfits⟩
    · exact ⟨hs.apart.apply (c := .record misuse) trivial hfits (by simp), hs.position, hs.new⟩
    · exact ⟨hs.apart.apply (c := .setInitial global value) trivial hfits (by simp), hs.position,
        hs.new⟩

/-- A block is added to a function of the compilation. -/
theorem upholds_appendBlock {g : FunctionId} {name : String}
    (hg : own g ∨ old.functions.size ≤ g.index) :
    Upholds (Session.Filling old own f mine b) (fun _ => Session.Aside old own)
      (Lower.build (Build.appendBlock g name)) :=
  upholds_build fun {s _ m} hs h => by
    obtain ⟨hapart, -, hposition⟩ := hs.apart.append hg h
    exact ⟨hapart, hposition.trans hs.position, hs.new⟩

theorem upholds_appendLeader {index refers : Nat} (hf : own f ∨ old.functions.size ≤ f.index) :
    Upholds (Session.Filling old own f mine b) (fun _ => Session.Aside old own)
      (Lower.build (appendLeader f index refers)) := by
  have : Upholds (Session.Filling old own f mine b) (fun _ => Session.Aside old own)
      (Lower.build (Build.appendBlock f (blockName index))) :=
    upholds_appendBlock hf
  simp only [appendLeader, Lower.build_bind]
  infer_instance

/-- The emission goes on in a new block. -/
theorem leads_move {b' : BlockId} (hb : old.blocks.size ≤ b'.index) :
    Leads (Session.Filling old own f mine b) (fun _ => Session.Filling old own f mine b')
      (fun _ => Session.Aside old own) (Lower.build (Build.positionAtEnd b')) where
  ok hs h := by
    obtain ⟨m, hmove, rfl⟩ := Lower.build_eq_ok_iff.mp h
    obtain rfl := Build.positionAtEnd_eq_ok hmove
    exact hs.apart.move hb
  fails _ h := (build_ne_error h).elim

/-- A routine ends with its object. -/
theorem upholds_ret (value : Option ValueId) :
    Upholds (Session.Filling old own f mine b) (fun _ => Session.Aside old own)
      (Lower.build (Build.ret value)) :=
  upholds_build fun hs h => by
    have hret : Keeps (Module.Evolves (Change.EndsBy (.ret value))) (Build.ret value) :=
      inferInstance
    exact hs.ended (by simp [Terminator.successors]) (hret.run h)

instance (struct : TypeId) (object : ValueId) (stores : List (Nat × ValueId)) :
    Keeps (Module.Evolves (Change.Plain noAddress)) (storeTables struct object stores) := by
  unfold storeTables
  infer_instance

/-- The making of an allocation routine is a detour to a new block. -/
instance (ty : TypeDefId) :
    Upholds (Session.Filling old own f mine b) (fun _ => Session.Aside old own)
      (newobjFunction asm ty) := by
  unfold newobjFunction
  refine Upholds.seq inferInstance fun s => ?_
  split
  · infer_instance
  · refine Leads.upholds ?_
    refine Leads.after inferInstance fun _ _ => Leads.after inferInstance fun _ _ =>
      Leads.after inferInstance fun _ _ => Leads.after inferInstance fun _ _ =>
      Leads.after inferInstance fun {s g s'} hs h => ?_
    have hg : own g ∨ old.functions.size ≤ g.index := by
      obtain ⟨m, hadd, rfl⟩ := Lower.build_eq_ok_iff.mp h
      obtain ⟨rfl, -⟩ := Build.addFunction_functions hadd
      exact .inr hs.apart.evolves.functions_le
    refine Leads.after inferInstance fun _ _ => Leads.after inferInstance fun {s t s'} hs h => ?_
    obtain rfl : t = s := (get_eq_ok_iff.mp h).1
    have hsaved : t.module.position = some b := hs.position
    have hback : old.blocks.size ≤ b.index := hs.new
    refine Leads.after (upholds_appendBlock hg) fun {s entry s'} hs h => ?_
    have hentry : old.blocks.size ≤ entry.index := by
      obtain ⟨m, hadd, rfl⟩ := Lower.build_eq_ok_iff.mp h
      exact (hs.apart.append hg hadd).2.1
    refine Leads.seq (leads_move hentry) fun _ => ?_
    have hend (object : ValueId) : Leads (Session.Filling old own f mine entry)
        (fun _ => Session.Filling old own f mine b) (fun _ => Session.Aside old own) (do
          Build.ret (some object)
          if let some block := t.module.position then Build.positionAtEnd block
          return g : Lower FunctionId) := by
      rw [hsaved]
      exact Leads.after (upholds_ret (some object)) fun _ _ => Leads.seq (leads_move hback) fun _ =>
        Leads.pure id
    refine Leads.after inferInstance fun _ _ => Leads.after inferInstance fun _ _ => ?_
    exact Leads.ite (Leads.after inferInstance fun _ _ => Leads.after inferInstance fun _ _ =>
      Leads.after inferInstance fun _ _ => hend _) (hend _)

instance : Answering asm (Change.Plain noAddress) (Session.Filling old own f mine b)
    (fun _ => Session.Aside old own) where
  stop hs := hs.aside
  layout _ := inferInstance
  newobjFunction _ := inferInstance

end Code

section Merges

open EvalStack

variable {m m' : Module} {source target : BlockId}

def PhisFrom (fresh : Nat) (slots : List Slot) : Prop :=
  ∀ slot ∈ slots, slot.state = .phi → fresh ≤ slot.element.value.index

theorem phisFrom_cons {fresh : Nat} {slot : Slot} {slots : List Slot} :
    PhisFrom fresh (slot :: slots) ↔
      (slot.state = .phi → fresh ≤ slot.element.value.index) ∧ PhisFrom fresh slots :=
  List.forall_mem_cons

/-- Slots that hold values hold no phis. -/
theorem phisFrom_map {fresh : Nat} {state : SlotState} (hstate : state ≠ .phi)
    (elements : List Element) :
    PhisFrom fresh (elements.map (⟨·, state⟩)) := by
  intro slot hslot hphi
  obtain ⟨e, -, rfl⟩ := List.mem_map.mp hslot
  exact absurd hphi hstate

theorem filling_addIncoming {phi value : ValueId} {u : Unit} (h : old.Filling own f mine b m)
    (hphi : old.values.size ≤ phi.index)
    (hrun : Build.addIncoming phi value source m = .ok u m') : old.Filling own f mine b m' := by
  have hrecord {m₁ : Module} {misuse : Option FunctionId × Misuse}
      (h₁ : old.Filling own f mine b m₁) (hfits : m₁.Fits (.record misuse)) :
      old.Filling own f mine b (m₁.apply (.record misuse)) :=
    ⟨h₁.apart.apply (c := .record misuse) trivial hfits (by simp), h₁.position, h₁.new⟩
  obtain ⟨m₁, hfirst, hlast⟩ := Build.addIncoming_cases hrun
  have h₁ : old.Filling own f mine b m₁ := by
    rcases hfirst with rfl | ⟨misuse, rfl, hfits⟩
    · exact h
    · exact hrecord h hfits
  rcases hlast with ⟨misuse, rfl, hfits⟩ | ⟨rfl, hfits⟩
  · exact hrecord h₁ hfits
  · exact ⟨h₁.apart.apply (c := .addEntry phi value source) hphi hfits (by simp), h₁.position,
      h₁.new⟩

theorem filling_coerce {value result : ValueId} {type : TypeId} {signed : Bool}
    (h : old.Filling own f mine b m) (hrun : coerce value type signed m = .ok result m') :
    old.Filling own f mine b m' := by
  have hcoerce : Keeps (Module.Evolves (Change.Plain noAddress)) (coerce value type signed) :=
    inferInstance
  exact h.plain (hcoerce.run hrun)

theorem filling_mergeSlot {slot slot' : Slot} {e : Element} (h : old.Filling own f mine b m)
    (htarget : old.blocks.size ≤ target.index)
    (hslot : slot.state = .phi → old.values.size ≤ slot.element.value.index)
    (hrun : mergeSlot asm source target slot e m = .ok slot' m') :
    old.Filling own f mine b m' ∧
      (slot'.state = .phi → old.values.size ≤ slot'.element.value.index) := by
  obtain ⟨held, state⟩ := slot
  cases state with
  | unvisited =>
      obtain ⟨rfl, rfl⟩ := pure_eq_ok_iff.mp hrun
      exact ⟨h, by simp⟩
  | deferred first =>
      obtain ⟨m₁, m₂, signed, value, hadd, -, hcoerce, hadd', rfl, block, hblock⟩ :=
        mergeSlot_deferred hrun
      have hnew : old.values.size ≤ m.values.size := h.apart.evolves.values_le
      have hlt := (Array.getElem?_eq_some_iff.mp hblock).1
      have hphi : old.Filling own f mine b (m.apply (.addPhi target held.type)) :=
        ⟨h.apart.apply htarget hlt (by simp), h.position, h.new⟩
      have hfirst := filling_addIncoming hphi hnew hadd
      exact ⟨filling_addIncoming (filling_coerce hfirst hcoerce) hnew hadd', fun _ => hnew⟩
  | phi =>
      obtain ⟨m₁, signed, value, -, hcoerce, hadd, rfl⟩ := mergeSlot_phi hrun
      exact ⟨filling_addIncoming (filling_coerce h hcoerce) (hslot rfl) hadd, hslot⟩

theorem filling_mergeSlots {slots slots' : List Slot} {elements : List Element}
    (h : old.Filling own f mine b m) (htarget : old.blocks.size ≤ target.index)
    (hphis : PhisFrom old.values.size slots)
    (hrun : mergeSlots asm source target slots elements m = .ok slots' m') :
    old.Filling own f mine b m' ∧ PhisFrom old.values.size slots' := by
  induction slots generalizing elements slots' m with
  | nil =>
      obtain ⟨rfl, rfl⟩ := mergeSlots_nil hrun
      exact ⟨h, phisFrom_map (by simp) elements⟩
  | cons slot slots ih =>
      cases elements with
      | nil =>
          obtain ⟨rfl, rfl⟩ := pure_eq_ok_iff.mp hrun
          exact ⟨h, hphis⟩
      | cons e rest =>
          obtain ⟨hslot, hphis'⟩ := phisFrom_cons.mp hphis
          obtain ⟨slot', m₁, others, hone, hrest, rfl⟩ := mergeSlots_cons hrun
          obtain ⟨h₁, hslot'⟩ := filling_mergeSlot h htarget hslot hone
          obtain ⟨h', hothers⟩ := ih h₁ hphis' hrest
          exact ⟨h', phisFrom_cons.mpr ⟨hslot', hothers⟩⟩

theorem filling_merge {s stack s' : EvalStack} {refers : Nat} (h : old.Filling own f mine b m)
    (htarget : old.blocks.size ≤ target.index) (hphis : PhisFrom old.values.size s.slots)
    (hrun : s.merge asm stack source target refers m = .ok s' m') :
    old.Filling own f mine b m' ∧ PhisFrom old.values.size s'.slots := by
  rcases merge_cases hrun with ⟨-, rfl, rfl⟩ | ⟨-, merged, hmerged, rfl⟩
  · exact ⟨h, List.forall_mem_append.mpr ⟨hphis, phisFrom_map (by simp) stack.elements⟩⟩
  · obtain ⟨h', hmerged'⟩ := filling_mergeSlots h htarget hphis hmerged
    exact ⟨h', List.forall_mem_append.mpr ⟨phisFrom_map (by simp) _, hmerged'⟩⟩

end Merges

section Bodies

/-- The current block and those of the leaders are blocks of the body, and the phis of their stacks
are new. -/
structure Owned (fresh : Nat) (mine : BlockId → Prop) (b : BlockId) (leaders : List Leader) :
    Prop where
  current : mine b
  leaders : ∀ l ∈ leaders, mine l.block ∧ PhisFrom fresh l.incoming.slots

section Emission

variable {frame : Frame} (hmine : ∀ b, mine b → old.blocks.size ≤ b.index)

include hmine

/-- The blocks of the body are new. -/
theorem branching_of_new :
    Emit.Branching frame mine (Session.Filling old own f mine) (Owned old.values.size mine)
      (fun _ => Session.Aside old own) where
  merge {s l position incoming m} hs hl hrun := by
    obtain ⟨hblock, hphis⟩ := hs.blocks.leaders l hl
    obtain ⟨hm, hincoming⟩ := filling_merge hs.session (hmine _ hblock) hphis hrun
    refine ⟨hblock, ⟨hm, hs.blocks.current, fun l' hl' => ?_⟩⟩
    obtain ⟨l₀, hl₀, rfl⟩ := mem_withIncoming.mp hl'
    split
    · exact ⟨(hs.blocks.leaders l₀ hl₀).1, hincoming⟩
    · exact hs.blocks.leaders l₀ hl₀
  ends {t x} hx ht := by
    refine ⟨fun hs h => ?_, fun _ h => (Emit.lower_build_ne_error h).elim⟩
    obtain ⟨_, hrun, rfl⟩ := Emit.lower_eq_ok_iff.mp h
    obtain ⟨m, hbuild, rfl⟩ := Lower.build_eq_ok_iff.mp hrun
    exact ⟨hs.session.ended (fun d hd => ⟨hs.blocks.current, ht d hd⟩) (hx.run hbuild), hs.blocks⟩
  enter {s l} hs hl :=
    ⟨hs.session.apart.move (hmine _ (hs.blocks.leaders l hl).1),
      (hs.blocks.leaders l hl).1, hs.blocks.leaders⟩

theorem upholds_body {body : MethodBody} :
    Upholds
      (EmitState.Upheld (Session.Filling old own f mine) (Owned old.values.size mine))
      (EmitState.Failed fun _ => Session.Aside old own) (emission frame body) := by
  have hbranching : Emit.Branching frame mine (Session.Filling old own f mine)
      (Owned old.values.size mine) (fun _ => Session.Aside old own) :=
    branching_of_new hmine
  refine Emit.upholds_emission fun site hframe _ => ?_
  subst hframe
  exact Emit.upholds_instruction_of_answering

end Emission

end Bodies

section Declared

/-- The compilation of a method that has no code yet. -/
def Session.Beside (old : Module) (own : FunctionId → Prop) (s : Session) : Prop :=
  ∀ f, old.Apart own f (fun _ => False) s.module

theorem Session.Beside.aside {s : Session} (h : s.Beside old own) : s.Aside old own :=
  ⟨⟨0⟩, fun _ => False, h ⟨0⟩⟩

theorem Session.Beside.apply {s : Session} {c : Change} (h : s.Beside old own)
    (hc : c.Aside old own fun _ => False) (hfits : s.module.Fits c)
    (hadd : ∀ g name, c ≠ .addBlock g name) :
    Session.Beside old own { s with module := s.module.apply c } :=
  fun f => (h f).apply hc hfits fun g name heq => absurd heq (hadd g name)

instance (question : Registry → Except Stop α) :
    Upholds (Session.Beside old own) (fun _ => Session.Aside old own) (Lower.consult question) :=
  upholds_consult fun hs _ => hs.aside

instance (x : Registering α) :
    Upholds (Session.Beside old own) (fun _ => Session.Aside old own) (Lower.register x) where
  ok hs h := by
    obtain ⟨r, -, rfl⟩ := Lower.register_eq_ok_iff.mp h
    exact hs
  fails {s e s'} hs h := by
    unfold Lower.register at h
    split at h <;> cases h
    exact hs.aside

instance : Upholding Change.Declares (Session.Beside old own) (fun _ => Session.Aside old own) where
  build {α x} hx {s a m} hs h :=
    (hx.run h).preserves (I := fun m => Session.Beside old own { s with module := m })
      (fun m₁ c hc hfits h₁ => by
        refine Session.Beside.apply h₁ ?_ hfits fun g name heq => ?_
        · cases c <;> first | exact trivial | exact hc.elim
        · subst heq
          exact hc.elim) hs
  here hs _ := hs.aside

instance :
    Naming asm Change.Declares (Session.Beside old own) (fun _ => Session.Aside old own) where
  namedType _ := upholds_namedType fun _ => inferInstance

instance : Requesting asm Change.Declares (Session.Beside old own)
    (fun _ => Session.Aside old own) where
  declareFunction m := upholds_declareFunction m inferInstance
  staticField f := upholds_staticField f inferInstance

/-- The function of a method is registered for it, or new. -/
theorem declareFunction_cases {m : MethodId} {s s' : Session}
    (h : declareFunction asm m s = .ok f s') :
    ∃ name, Names.method asm m = .ok name ∧
      (s.registry.function? name = some f ∨ s.module.functions.size ≤ f.index) := by
  simp only [declareFunction, bind_eq_ok_iff, Lower.liftM_ask, Lower.ask_eq_ok_iff] at h
  obtain ⟨name, t, ⟨hname, rfl⟩, hthen⟩ := h
  have h := getBind_eq_ok_iff.mp (bind_eq_ok_iff.mpr hthen)
  refine ⟨name, hname, ?_⟩
  cases hfound : t.registry.function? name with
  | some function =>
      simp only [hfound] at h
      obtain ⟨rfl, rfl⟩ := pure_eq_ok_iff.mp h
      exact .inl rfl
  | none =>
      simp only [hfound, bind_eq_ok_iff, Lower.ask_eq_ok_iff, Lower.liftM_build,
        Lower.build_eq_ok_iff] at h
      obtain ⟨d, _, ⟨-, rfl⟩, type, t₁, htype, g, _, ⟨m₁, hadd, rfl⟩, _, _, -, hpure⟩ := h
      obtain ⟨rfl, -⟩ := pure_eq_ok_iff.mp hpure
      obtain ⟨rfl, -⟩ := Build.addFunction_functions hadd
      have htyping : Keeps Session.Evolves (functionType asm d) := inferInstance
      exact .inr (Module.Evolves.functions_le (htyping.run htype))

end Declared

section Methods

variable {d : MethodDef} {name : String} {body : MethodBody}

/-- Where a prologue that succeeds leads to. -/
theorem upheld_of_prologue {frame : Frame} {entry : BlockId} {leaders : List Leader}
    {s s' : Session} (hplaced : old.WellPlaced) (hf : own f ∨ old.functions.size ≤ f.index)
    (hs : s.Beside old own) (h : prologue asm d name f body s = .ok (frame, entry, leaders) s') :
    ∃ mine, (∀ b, mine b → old.blocks.size ≤ b.index) ∧
      EmitState.Upheld (Session.Filling old own f mine) (Owned old.values.size mine)
        { session := s', leaders, current := entry } := by
  obtain ⟨⟨function, hfunction⟩, rfl, sigs, args, locals, s₄, s₅, rfl, hargs, hlocals, hcoded,
    hleaders⟩ := prologue_cases h
  have hentry : old.blocks.size ≤ s.module.blocks.size := (hs f).evolves.blocks_le
  have hopened : Session.Filling old own f (fun _ => False) ⟨s.module.blocks.size⟩
      (opened f s) := by
    refine Module.Apart.move ((hs f).apply hf trivial ?_) hentry
    rintro _ _ heq
    obtain ⟨rfl, -⟩ := Change.addBlock.inj heq
    exact (Array.getElem?_eq_some_iff.mp hfunction).1
  have hcoded' := hcoded _ rfl
  have (index refers : Nat) :
      Upholds (Session.Filling old own f (fun _ => False) ⟨s.module.blocks.size⟩)
        (fun _ => Session.Aside old own) (Lower.build (appendLeader f index refers)) :=
    upholds_appendLeader hf
  have hleading : Upholds (Session.Filling old own f (fun _ => False) ⟨s.module.blocks.size⟩)
      (fun _ => Session.Aside old own) ((analyze body.instructions).mapM fun leader =>
        Lower.build (appendLeader f leader.1 leader.2)) := inferInstance
  have hs₄ := (inferInstance : Upholds _ (fun _ => Session.Aside old own) _).ok hopened hargs
  have hs₅ := (inferInstance : Upholds _ (fun _ => Session.Aside old own) _).ok hs₄ hlocals
  have hfilling := hleading.ok hs₅ hleaders
  obtain ⟨-, -, hspec, hadds⟩ := appendLeaders_spec hleaders
  have hplaced' : s'.module.WellPlaced := hfilling.apart.evolves.wellPlaced hplaced
  have hlt : f.index < s₅.module.functions.size := by
    have hle := hcoded'.evolves.functions_le
    have hlt := (Array.getElem?_eq_some_iff.mp hfunction).1
    simp only [opened, Module.apply, Array.size_modify] at hle
    omega
  obtain ⟨function', hfunction', hblocks⟩ :=
    appendLeaders_functions hleaders (Array.getElem?_eq_getElem hlt)
  have hfound : ∃ block, s'.module.blocks[s.module.blocks.size]? = some block ∧
      block.function = f := by
    have hevolves : (opened f s).module.Evolves Change.Any s'.module :=
      hcoded'.evolves.trans (hadds.mono fun _ _ => trivial)
    have hnew : (opened f s).module.blocks[s.module.blocks.size]? =
        some { name := "entry", function := f } := by simp [opened, Module.apply]
    obtain ⟨block, hblock, hgrows⟩ := hevolves.grows (b := ⟨s.module.blocks.size⟩) hnew
    exact ⟨block, hblock, hgrows.function⟩
  refine ⟨fun b => old.blocks.size ≤ b.index ∧ ∃ block, s'.module.blocks[b.index]? = some block ∧
    block.function = f, fun b hb => hb.1, ⟨?_, hfilling.position, hfilling.new⟩,
    ⟨hentry, hfound⟩, fun l hl => ?_⟩
  · exact hfilling.apart.choose fun hb => hb.2
  · obtain ⟨hnew, hincoming, -⟩ := hspec l hl
    refine ⟨⟨?_, hplaced'.added hfunction' ?_⟩, by simp [hincoming, PhisFrom]⟩
    · exact Nat.le_trans hs₅.apart.evolves.blocks_le hnew
    · rw [hblocks]
      exact List.mem_append_right _ (List.mem_map_of_mem hl)

/-- Where a prologue may stop. -/
theorem leads_prologue (hf : own f ∨ old.functions.size ≤ f.index) :
    Leads (Session.Beside old own) (fun _ => Session.Aside old own) (fun _ => Session.Aside old own)
      (prologue asm d name f body) := by
  have hopen : Leads (Session.Beside old own)
      (fun entry s => old.Apart own f (fun _ => False) s.module ∧ old.blocks.size ≤ entry.index)
      (fun _ => Session.Aside old own) (Lower.build (Build.appendBlock f "entry")) := by
    refine ⟨fun hs h => ?_, fun _ h => (build_ne_error h).elim⟩
    obtain ⟨m, happend, rfl⟩ := Lower.build_eq_ok_iff.mp h
    obtain ⟨hapart, hnew, -⟩ := (hs f).append hf happend
    exact ⟨hapart, hnew⟩
  have hmove (entry : BlockId) : Leads
      (fun s : Session => old.Apart own f (fun _ => False) s.module ∧ old.blocks.size ≤ entry.index)
      (fun _ => Session.Filling old own f (fun _ => False) entry) (fun _ => Session.Aside old own)
      (Lower.build (Build.positionAtEnd entry)) := by
    refine ⟨fun hs h => ?_, fun _ h => (build_ne_error h).elim⟩
    obtain ⟨m, hmove, rfl⟩ := Lower.build_eq_ok_iff.mp h
    obtain rfl := Build.positionAtEnd_eq_ok hmove
    exact hs.1.move hs.2
  unfold prologue
  refine hopen.seq fun entry => (hmove entry).seq fun _ => ?_
  have (index refers : Nat) : Upholds (Session.Filling old own f (fun _ => False) entry)
      (fun _ => Session.Aside old own) (Lower.build (appendLeader f index refers)) :=
    upholds_appendLeader hf
  refine Leads.mono (Upholds.leads ?_) fun hs => hs.aside
  infer_instance

/-- A body is emitted in blocks of its own. -/
theorem leads_emitBody (hplaced : old.WellPlaced) (hf : own f ∨ old.functions.size ≤ f.index) :
    Leads (Session.Beside old own) (fun _ s => ∃ mine, old.Apart own f mine s.module)
      (fun _ => Session.Aside old own) (emitBody asm d name f body) := by
  have hprologue : Leads (Session.Beside old own) (fun _ => Session.Aside old own)
      (fun _ => Session.Aside old own) (prologue asm d name f body) :=
    leads_prologue hf
  rw [emitBody_eq]
  refine ⟨fun hs h => ?_, fun hs h => ?_⟩
  · obtain ⟨⟨frame, entry, leaders⟩, t, hfirst, hrun⟩ := bind_eq_ok_iff.mp h
    obtain ⟨mine, hmine, hstart⟩ := upheld_of_prologue hplaced hf hs hfirst
    obtain ⟨final, hemission, rfl⟩ := Emit.run_eq_ok_iff.mp hrun
    exact ⟨mine, ((upholds_body hmine).ok hstart hemission).session.apart⟩
  · rcases bind_eq_error_iff.mp h with hfirst | ⟨⟨frame, entry, leaders⟩, t, hfirst, hrun⟩
    · exact hprologue.fails hs hfirst
    · obtain ⟨mine, hmine, hstart⟩ := upheld_of_prologue hplaced hf hs hfirst
      obtain ⟨final, hemission, rfl⟩ := Emit.run_eq_error_iff.mp hrun
      exact (upholds_body hmine).fails hstart hemission

/-- A function is verified as it is, and optimized on its own. -/
theorem leads_finish {settings : Settings} (hold : old.Separate) (hplaced : old.WellPlaced)
    (hf : own f ∨ old.functions.size ≤ f.index) :
    Leads (fun s => ∃ mine, old.Apart own f mine s.module) (fun _ => Session.Aside old own)
      (fun _ => Session.Aside old own) (Lower.finish settings f) := by
  have hverify : Upholds (fun s : Session => ∃ mine, old.Apart own f mine s.module)
      (fun _ => Session.Aside old own) (Lower.verify settings f) := by
    have hquery : Upholds (fun s : Session => ∃ mine, old.Apart own f mine s.module)
        (fun _ => Session.Aside old own) (Lower.build (Build.query (·.verify f))) :=
      upholds_build fun hs h => by
        obtain ⟨-, rfl⟩ := Build.query_eq_ok_iff.mp h
        exact hs
    have hfail (error : VerifyError) : Upholds (fun s => ∃ mine, old.Apart own f mine s.module)
        (fun _ => Session.Aside old own) (Lower.fail (.verification error) : Lower Unit) := by
      constructor
      · intro s a s' hs h
        cases h
      · intro s e s' hs h
        cases h
        exact ⟨f, hs⟩
    unfold Lower.verify
    split
    · refine Upholds.seq hquery fun result => ?_
      cases result with
      | ok => exact Upholds.pure ()
      | error error => exact hfail error
    · exact Upholds.pure ()
  refine Leads.after hverify fun _ _ => ⟨fun {s _ s'} hs h => ?_, fun _ h =>
    (build_ne_error h).elim⟩
  obtain ⟨mine, hapart⟩ := hs
  obtain ⟨m, hoptimize, rfl⟩ := Lower.build_eq_ok_iff.mp h
  exact ⟨f, mine, hapart.optimize hold hplaced hf hoptimize⟩

variable {settings : Settings}

/-- A linkage is given to a function of the method. -/
theorem upholds_setLinkage {linkage : Linkage} (hf : own f ∨ old.functions.size ≤ f.index) :
    Upholds (Session.Beside old own) (fun _ => Session.Aside old own)
      (Lower.build (Build.setLinkage f linkage)) :=
  upholds_build fun {s _ _} hs h => by
    obtain rfl := Build.setLinkage_eq_ok h
    exact hs.apply (c := .setLinkage f linkage) hf trivial (by simp)

def Session.Registers (asm : Assembly) (m : MethodId) (own : FunctionId → Prop) (s : Session) :
    Prop :=
  ∀ name g, Names.method asm m = .ok name → s.registry.function? name = some g → own g

/-- What is done with the function of a method concerns a function of `own`, or a new one. -/
theorem leads_declare {m : MethodId} {g : FunctionId → Lower α}
    (hg : ∀ f, own f ∨ old.functions.size ≤ f.index → Leads (Session.Beside old own)
      (fun _ => Session.Aside old own) (fun _ => Session.Aside old own) (g f)) :
    Leads (fun s => s.Beside old own ∧ s.Registers asm m own) (fun _ => Session.Aside old own)
      (fun _ => Session.Aside old own) (declareFunction asm m >>= g) := by
  have hdeclare : Upholds (Session.Beside old own) (fun _ => Session.Aside old own)
      (declareFunction asm m) := inferInstance
  have hown {s s' : Session} {f : FunctionId} (hs : s.Beside old own)
      (hregisters : s.Registers asm m own) (h : declareFunction asm m s = .ok f s') :
      own f ∨ old.functions.size ≤ f.index := by
    obtain ⟨name, hname, hfound | hnew⟩ := declareFunction_cases h
    · exact .inl (hregisters name f hname hfound)
    · exact .inr (Nat.le_trans (hs f).evolves.functions_le hnew)
  refine ⟨fun {s a s'} hs h => ?_, fun {s e s'} hs h => ?_⟩
  · obtain ⟨f, t, hfirst, hrest⟩ := bind_eq_ok_iff.mp h
    exact (hg f (hown hs.1 hs.2 hfirst)).ok (hdeclare.ok hs.1 hfirst) hrest
  · rcases bind_eq_error_iff.mp h with hfirst | ⟨f, t, hfirst, hrest⟩
    · exact hdeclare.fails hs.1 hfirst
    · exact (hg f (hown hs.1 hs.2 hfirst)).fails (hdeclare.ok hs.1 hfirst) hrest

theorem leads_compileBody {m : MethodId} (hold : old.Separate) (hplaced : old.WellPlaced) :
    Leads (fun s => s.Beside old own ∧ s.Registers asm m own) (fun _ => Session.Aside old own)
      (fun _ => Session.Aside old own) (compileBody asm settings m d name body) := by
  unfold compileBody
  split
  · constructor
    · intro s a s' hs h
      cases h
    · intro s e s' hs h
      cases h
      exact hs.1.aside
  · refine leads_declare fun f hf => Leads.after (upholds_setLinkage hf) fun _ _ => ?_
    exact Leads.pure fun hs => hs.aside
  · refine leads_declare fun f hf => Leads.after (upholds_setLinkage hf) fun _ _ => ?_
    refine Leads.seq (leads_emitBody hplaced hf) fun _ => ?_
    exact Leads.seq (leads_finish hold hplaced hf) fun _ => Leads.pure id

/-- The compilation of a method, from its start to wherever it ends. -/
theorem leads_compileMethod {m : MethodId} (hold : old.Separate) (hplaced : old.WellPlaced) :
    Leads (fun s => s.Beside old own ∧ s.Registers asm m own) (fun _ => Session.Aside old own)
      (fun _ => Session.Aside old own) (compileMethod asm settings m) := by
  unfold compileMethod
  refine Leads.after inferInstance fun _ _ => Leads.after inferInstance fun _ _ =>
    Leads.after inferInstance fun _ _ => ?_
  refine Leads.ite (Leads.pure fun hs => hs.1.aside) ?_
  split
  · exact leads_compileBody hold hplaced
  · exact leads_declare fun f hf => Leads.pure fun hs => hs.aside

end Methods

section Histories

variable {settings : Settings} {s s' : Session} {m : MethodId}

/-- An action comes to an end with a result or a failure. -/
def Lower.EndsIn (x : Lower α) (s s' : Session) : Prop :=
  (∃ a, x s = .ok a s') ∨ ∃ e, x s = .error (.error e) s'

/-- The states in which methods are compiled: all types are there, and some methods have been
compiled, in any order, whether they could be or not. -/
inductive Reached (asm : Assembly) (settings : Settings) : Session → Prop
  | types {s₁ s : Session}
      (declared : declareTypes asm { module := { name := settings.moduleName } } = .ok () s₁)
      (defined : compileTypes asm s₁ = .ok () s) : Reached asm settings s
  | method {s s' : Session} (m : MethodId) (before : Reached asm settings s)
      (compiled : (compileMethod asm settings m).EndsIn s s') : Reached asm settings s'

def Session.FunctionOf (asm : Assembly) (m : MethodId) (s : Session) (f : FunctionId) : Prop :=
  ∃ name, Names.method asm m = .ok name ∧ s.registry.function? name = some f

theorem aside_of_endsIn (hold : s.module.Separate) (hplaced : s.module.WellPlaced)
    (h : (compileMethod asm settings m).EndsIn s s') :
    s'.Aside s.module (s.FunctionOf asm m) := by
  have hstart : s.Beside s.module (s.FunctionOf asm m) ∧
      s.Registers asm m (s.FunctionOf asm m) := by
    refine ⟨fun f => ⟨.refl, False.elim, hold.owner⟩, fun name g hname hg => ⟨name, hname, hg⟩⟩
  rcases h with ⟨a, h⟩ | ⟨e, h⟩
  · exact (leads_compileMethod hold hplaced).ok hstart h
  · exact (leads_compileMethod hold hplaced).fails hstart h

/-- Blocks and instructions have their places in every state, and control stays in its function. -/
theorem Reached.ordered (h : Reached asm settings s) : s.module.WellPlaced ∧ s.module.Separate := by
  induction h with
  | @types s₁ s declared defined =>
      have hrun := bind_eq_ok_iff (x := declareTypes asm) (f := fun _ => compileTypes asm)
        |>.mpr ⟨(), _, declared, defined⟩
      have hevolves : Keeps Session.Evolves (do
          declareTypes asm
          compileTypes asm : Lower Unit) :=
        Keeps.seq inferInstance fun _ => evolves_of_later asm inferInstance
      have hbodiless : Keeps (Session.On Module.Bodiless) (do
          declareTypes asm
          compileTypes asm : Lower Unit) := inferInstance
      have hplaced := Module.Evolves.wellPlaced (hevolves.run hrun) (Module.wellPlaced_new _)
      have hempty {b : BlockId} {block : Block} : s.module.blocks[b.index]? ≠ some block := by
        have hsize : s.module.blocks.size = 0 := hbodiless.run hrun
        simp [hsize]
      exact ⟨hplaced, ⟨fun hb => (hempty hb).elim, fun hb => (hempty hb).elim⟩⟩
  | method m before compiled ih =>
      obtain ⟨f, mine, hapart⟩ := aside_of_endsIn ih.2 ih.1 compiled
      exact ⟨hapart.evolves.wellPlaced ih.1, hapart.separate ih.2 ih.1⟩

/-- The compilation of a method is confined to its function.  In every state in which methods are
compiled, whether the compilation of the method succeeds or fails, all functions that are there,
other than the one registered for the method, keep their blocks and their linkage, all blocks their
instructions and their ends, and all phis of other functions their entries.  Types stay as they are,
values too, apart from the initial values of globals, and misuse is only added. -/
theorem compileMethod_outside (hs : Reached asm settings s)
    (h : (compileMethod asm settings m).EndsIn s s') :
    s.module.Outside (s.FunctionOf asm m) s'.module := by
  obtain ⟨hplaced, hseparate⟩ := hs.ordered
  obtain ⟨f, mine, hapart⟩ := aside_of_endsIn hseparate hplaced h
  exact hapart.evolves.outside hplaced

/-- A method that makes an object and calls another method. -/
def errands : Assembly :=
  let roots := Assembly.ofName "errands"
  let first : MethodBody := {
    instructions := [{ opcode := .newobj, operand := .method ⟨0⟩ }, { opcode := .pop },
      { opcode := .call, operand := .method ⟨2⟩ }, { opcode := .ret }] }
  let second : MethodBody := {
    instructions := [{ opcode := .br, operand := .target 1 }, { opcode := .ret }] }
  { roots with
    types := roots.types ++ #[
      { TypeDef.ofKind .classType "" "C" with base := some ⟨0⟩, methods := [⟨0⟩, ⟨1⟩, ⟨2⟩] }]
    methods := #[⟨".ctor", ⟨3⟩, [], .void, {}, .publicAccess, none⟩,
      ⟨"First", ⟨3⟩, [], .void, ⟨MethodFlags.static⟩, .publicAccess, some first⟩,
      ⟨"Second", ⟨3⟩, [], .void, ⟨MethodFlags.static⟩, .publicAccess, some second⟩] }

/-- The state when its types are declared, when they are defined, when the first method is compiled,
and when the other one is. -/
def errandsDeclared : Session := stateOf (declareTypes errands { module := { name := "module" } })

def errandsDefined : Session := stateOf (compileTypes errands errandsDeclared)

def errandsFirst : Session := stateOf (compileMethod errands {} ⟨1⟩ errandsDefined)

def errandsSecond : Session := stateOf (compileMethod errands {} ⟨2⟩ errandsFirst)

theorem errands_outside :
    errandsFirst.module.position = some ⟨1⟩ ∧
      errandsFirst.module.functions.toList.map Function.blocks = [[⟨0⟩, ⟨1⟩], [⟨2⟩], [], []] ∧
      errandsFirst.FunctionOf errands ⟨2⟩ ⟨3⟩ ∧
      Reached errands {} errandsFirst ∧
      (compileMethod errands {} ⟨2⟩).EndsIn errandsFirst errandsSecond ∧
      errandsFirst.module.Outside (errandsFirst.FunctionOf errands ⟨2⟩) errandsSecond.module := by
  have hdeclare : declareTypes errands { module := { name := "module" } } =
      .ok () errandsDeclared :=
    outcome?_eq_some_iff.mp (by decide +kernel)
  have hdefine : compileTypes errands errandsDeclared = .ok () errandsDefined :=
    outcome?_eq_some_iff.mp (by decide +kernel)
  have hfirst : compileMethod errands {} ⟨1⟩ errandsDefined = .ok (.compiled ⟨0⟩) errandsFirst :=
    outcome?_eq_some_iff.mp (by decide +kernel)
  have hsecond : compileMethod errands {} ⟨2⟩ errandsFirst = .ok (.compiled ⟨3⟩) errandsSecond :=
    outcome?_eq_some_iff.mp (by decide +kernel)
  have hreached : Reached errands {} errandsFirst :=
    .method ⟨1⟩ (.types hdeclare hdefine) (.inl ⟨_, hfirst⟩)
  exact ⟨by decide +kernel, by decide +kernel, ⟨_, rfl, by decide +kernel⟩, hreached,
    .inl ⟨_, hsecond⟩, compileMethod_outside hreached (.inl ⟨_, hsecond⟩)⟩

end Histories

end Lowering

end CilSsa
