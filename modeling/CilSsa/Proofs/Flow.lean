import CilSsa.Proofs.Emission

/-!
The flow of control in a module, and how it grows while the body of a function is emitted.

Control and phis stay in their functions.  A body adds blocks of its own, which lead to each other
only, and whose phis take values from each other only; everything else that it adds are functions
with a single block.  So whatever control reached before, it reaches now, and no more of it.
-/

namespace CilSsa.Ssa

/-- The flow of control: the function and the end of a block, the block and the entries of a phi,
and the blocks of a function. -/
@[ext]
structure ControlFlow where
  ending : BlockId → Option (FunctionId × Option Terminator)
  phi : ValueId → Option (BlockId × List (ValueId × BlockId))
  list : FunctionId → Option (List BlockId)

namespace ControlFlow

/-- The flow of control with a new block, which is open, at the end of a function. -/
def withBlock (k : ControlFlow) (f : FunctionId) (b : BlockId) : ControlFlow where
  ending c := if c = b then some (f, none) else k.ending c
  phi := k.phi
  list g := if g = f then (k.list f).map (· ++ [b]) else k.list g

def withEnd (k : ControlFlow) (b : BlockId) (t : Terminator) : ControlFlow where
  ending c := if c = b then (k.ending b).map fun e => (e.1, some t) else k.ending c
  phi := k.phi
  list := k.list

variable {k : ControlFlow} {f g : FunctionId} {b c : BlockId} {t : Terminator}

@[simp] theorem ending_withBlock_self : (k.withBlock f b).ending b = some (f, none) := if_pos rfl

theorem ending_withBlock_of_ne (h : c ≠ b) : (k.withBlock f b).ending c = k.ending c := if_neg h

/-- A new block leaves those that there are. -/
theorem ending_withBlock_of_some {e : FunctionId × Option Terminator} (hb : k.ending b = none)
    (hc : k.ending c = some e) : (k.withBlock f b).ending c = some e := by
  have hcb : c ≠ b := by
    rintro rfl
    simp [hb] at hc
  rw [ending_withBlock_of_ne hcb, hc]

theorem ending_withBlock_cases {end_ : Option Terminator}
    (h : (k.withBlock f b).ending c = some (g, end_)) :
    (c = b ∧ g = f ∧ end_ = none) ∨ (c ≠ b ∧ k.ending c = some (g, end_)) := by
  by_cases hcb : c = b
  · subst hcb
    obtain ⟨rfl, rfl⟩ := Prod.mk.inj (Option.some.inj (ending_withBlock_self.symm.trans h))
    exact .inl ⟨rfl, rfl, rfl⟩
  · exact .inr ⟨hcb, (ending_withBlock_of_ne hcb).symm.trans h⟩

@[simp] theorem list_withBlock_self : (k.withBlock f b).list f = (k.list f).map (· ++ [b]) :=
  if_pos rfl

theorem list_withBlock_of_ne (h : g ≠ f) : (k.withBlock f b).list g = k.list g := if_neg h

/-- The list of a function can only get longer, and only that of the function with the new block. -/
theorem exists_list_withBlock {blocks : List BlockId} (h : k.list g = some blocks) :
    ∃ added, (k.withBlock f b).list g = some (blocks ++ added) ∧ (g ≠ f → added = []) := by
  by_cases hgf : g = f
  · subst hgf
    exact ⟨[b], by simp [h], fun hgf => absurd rfl hgf⟩
  · exact ⟨[], by rw [list_withBlock_of_ne hgf, h, List.append_nil], fun _ => rfl⟩

@[simp] theorem ending_withEnd_self :
    (k.withEnd b t).ending b = (k.ending b).map fun e => (e.1, some t) :=
  if_pos rfl

theorem ending_withEnd_of_ne (h : c ≠ b) : (k.withEnd b t).ending c = k.ending c := if_neg h

/-- A block that gets its end stays in its function. -/
theorem exists_ending_withEnd {end_ : Option Terminator} (h : k.ending c = some (g, end_)) :
    ∃ end', (k.withEnd b t).ending c = some (g, end') := by
  by_cases hcb : c = b
  · subst hcb
    exact ⟨some t, by simp [h]⟩
  · exact ⟨end_, by rw [ending_withEnd_of_ne hcb, h]⟩

theorem ending_withEnd_cases {end_ : Option Terminator}
    (h : (k.withEnd b t).ending c = some (g, end_)) :
    (c = b ∧ end_ = some t ∧ ∃ before, k.ending b = some (g, before)) ∨
      (c ≠ b ∧ k.ending c = some (g, end_)) := by
  by_cases hcb : c = b
  · subst hcb
    obtain ⟨⟨g', before⟩, hbefore, heq⟩ :=
      Option.map_eq_some_iff.mp (ending_withEnd_self.symm.trans h)
    obtain ⟨rfl, rfl⟩ := Prod.mk.inj heq
    exact .inl ⟨rfl, rfl, before, hbefore⟩
  · exact .inr ⟨hcb, (ending_withEnd_of_ne hcb).symm.trans h⟩

/-- A block has one end. -/
theorem withEnd_withEnd : (k.withEnd b t).withEnd b t = k.withEnd b t := by
  ext1 <;> try rfl
  funext c
  by_cases hc : c = b
  · subst hc
    cases h : k.ending c <;> simp [h]
  · rw [ending_withEnd_of_ne hc]

end ControlFlow

def Value.phi? (v : Value) : Option (BlockId × List (ValueId × BlockId)) :=
  match v.kind with
  | .inst (some b) (.phi entries) => some (b, entries)
  | _ => none

theorem Value.phi?_addEntry {value : ValueId} {source : BlockId} (v : Value) :
    (v.addEntry value source).phi? = v.phi?.map fun p => (p.1, p.2 ++ [(value, source)]) := by
  obtain ⟨type, kind⟩ := v
  cases kind with
  | inst place inst => cases place <;> cases inst <;> rfl
  | _ => rfl

def Module.flow (m : Module) : ControlFlow where
  ending b := m.blocks[b.index]?.map fun block => (block.function, block.terminator)
  phi v := m.values[v.index]?.bind Value.phi?
  list f := m.functions[f.index]?.map Function.blocks

/-- Whether a change has nothing to do with the flow of control. -/
def Change.isStill : Change → Bool
  | .addFunction _ | .addBlock .. | .terminate .. | .addPhi .. | .addEntry .. | .keepBlocks .. =>
      false
  | _ => true

namespace Module

variable {m : Module} {c : Change} {b : BlockId} {v : ValueId} {g : FunctionId}

section Views

theorem ending_eq_some_iff {f : FunctionId} {t : Option Terminator} :
    m.flow.ending b = some (f, t) ↔
      ∃ block, m.blocks[b.index]? = some block ∧ block.function = f ∧ block.terminator = t := by
  simp [flow]

theorem phi_eq_some_iff {entries : List (ValueId × BlockId)} :
    m.flow.phi v = some (b, entries) ↔
      ∃ type, m.values[v.index]? = some ⟨type, .inst (some b) (.phi entries)⟩ := by
  simp only [flow, Option.bind_eq_some_iff]
  constructor
  · rintro ⟨⟨type, kind⟩, hv, hphi⟩
    unfold Value.phi? at hphi
    split at hphi
    · rename_i hkind
      obtain ⟨rfl, rfl⟩ := Prod.mk.inj (Option.some.inj hphi)
      obtain rfl : kind = _ := hkind
      exact ⟨type, hv⟩
    · cases hphi
  · rintro ⟨type, hv⟩
    exact ⟨_, hv, rfl⟩

theorem list_eq_some_iff {blocks : List BlockId} :
    m.flow.list g = some blocks ↔
      ∃ function, m.functions[g.index]? = some function ∧ function.blocks = blocks := by
  simp [flow]

theorem ending_eq_none_iff : m.flow.ending b = none ↔ m.blocks.size ≤ b.index := by
  simp [flow]

theorem list_eq_none_iff : m.flow.list g = none ↔ m.functions.size ≤ g.index := by
  simp [flow]

end Views

section Changes

theorem phi?_eq_none_of_inst {v : Value} (h : v.inst?.map Inst.isPhi ≠ some true) :
    v.phi? = none := by
  unfold Value.phi?
  split
  · rename_i hkind
    simp [Value.inst?, hkind, Inst.isPhi] at h
  · rfl

theorem push_bind_phi? {values : Array Value} {value : Value} (h : value.phi? = none) (i : Nat) :
    (values.push value)[i]?.bind Value.phi? = values[i]?.bind Value.phi? := by
  rw [Array.getElem?_push]
  split
  · rename_i heq
    subst heq
    simp [h]
  · rfl

/-- Most changes have nothing to do with the flow of control. -/
theorem flow_apply (hc : c.isStill = true) (hfits : m.Fits c) : (m.apply c).flow = m.flow := by
  cases c with
  | addValue value =>
      ext1 <;> try rfl
      funext v
      exact push_bind_phi? (phi?_eq_none_of_inst (by simp [show value.inst? = none from hfits])) _
  | addInst place type inst =>
      have hphi : Value.phi? ⟨type, .inst place inst⟩ = none :=
        phi?_eq_none_of_inst (by simp [Value.inst?, hfits.2.1])
      cases place with
      | none =>
          ext1 <;> try rfl
          funext v
          exact push_bind_phi? hphi _
      | some b =>
          ext1
          · funext b'
            simp only [flow, apply, Array.getElem?_modify]
            split
            · cases m.blocks[b'.index]? <;> rfl
            · rfl
          · funext v
            exact push_bind_phi? hphi _
          · rfl
  | setInitial global value =>
      ext1 <;> try rfl
      funext v
      simp only [flow, apply, Array.getElem?_modify]
      split
      · cases m.values[v.index]? with
        | none => rfl
        | some old =>
            obtain ⟨type, kind⟩ := old
            cases kind <;> rfl
      · rfl
  | setLinkage id linkage =>
      ext1 <;> try rfl
      funext f
      simp only [flow, apply, Array.getElem?_modify]
      split
      · cases m.functions[f.index]? <;> rfl
      · rfl
  | addFunction | addBlock | terminate | addPhi | addEntry | keepBlocks =>
      simp [Change.isStill] at hc
  | _ => rfl

theorem flow_addFunction {function : Function} (h : function.blocks = []) :
    (m.apply (.addFunction function)).flow = { m.flow with
      list := fun g => if g = ⟨m.functions.size⟩ then some [] else m.flow.list g } := by
  ext1 <;> try rfl
  funext g
  simp only [flow, apply, Array.getElem?_push]
  obtain ⟨i⟩ := g
  by_cases hi : i = m.functions.size <;> simp [hi, h]

/-- A new block is open, and the last one of its function. -/
theorem flow_addBlock {f : FunctionId} {name : String} :
    (m.apply (.addBlock f name)).flow = m.flow.withBlock f ⟨m.blocks.size⟩ := by
  ext1
  · funext b
    simp only [flow, ControlFlow.withBlock, apply, Array.getElem?_push]
    obtain ⟨i⟩ := b
    by_cases hi : i = m.blocks.size <;> simp [hi]
  · rfl
  · funext g
    simp only [flow, ControlFlow.withBlock, apply, Array.getElem?_modify]
    obtain ⟨i⟩ := g
    obtain ⟨j⟩ := f
    by_cases hi : i = j
    · subst hi
      cases m.functions[i]? <;> simp
    · simp [hi, Ne.symm hi]

/-- The end of a block. -/
theorem flow_terminate {t : Terminator} :
    (m.apply (.terminate b t)).flow = m.flow.withEnd b t := by
  ext1 <;> try rfl
  funext b'
  simp only [flow, ControlFlow.withEnd, apply, Array.getElem?_modify]
  obtain ⟨i⟩ := b'
  obtain ⟨j⟩ := b
  by_cases hi : i = j
  · subst hi
    cases m.blocks[i]? <;> simp
  · simp [hi, Ne.symm hi]

/-- A new phi has no entries. -/
theorem flow_addPhi {type : TypeId} :
    (m.apply (.addPhi b type)).flow = { m.flow with
      phi := fun v => if v = ⟨m.values.size⟩ then some (b, []) else m.flow.phi v } := by
  ext1
  · funext b'
    simp only [flow, apply, Array.getElem?_modify]
    split
    · cases m.blocks[b'.index]? <;> rfl
    · rfl
  · funext v
    simp only [flow, apply, pushValue, Array.getElem?_push]
    obtain ⟨i⟩ := v
    by_cases hi : i = m.values.size <;> simp [hi, Value.phi?]
  · rfl

theorem flow_addEntry {phi value : ValueId} {source : BlockId} :
    (m.apply (.addEntry phi value source)).flow = { m.flow with
      phi := fun v => if v = phi then (m.flow.phi phi).map fun p => (p.1, p.2 ++ [(value, source)])
        else m.flow.phi v } := by
  ext1 <;> try rfl
  funext v
  simp only [flow, apply, Array.getElem?_modify]
  obtain ⟨i⟩ := v
  obtain ⟨j⟩ := phi
  by_cases hi : i = j
  · subst hi
    cases m.values[i]? with
    | none => simp
    | some old => simp [Value.phi?_addEntry]
  · simp [hi, Ne.symm hi]

end Changes

end Module

/-- Control and phis stay in their functions, which have all their blocks. -/
structure ControlFlow.Whole (k : ControlFlow) : Prop where
  listed : ∀ {g blocks b}, k.list g = some blocks → b ∈ blocks → ∃ t, k.ending b = some (g, t)
  owned : ∀ {b g t}, k.ending b = some (g, t) → ∃ blocks, k.list g = some blocks ∧ b ∈ blocks
  edges : ∀ {b g t c}, k.ending b = some (g, some t) → c ∈ t.successors →
    ∃ t', k.ending c = some (g, t')
  entries : ∀ {v b es e}, k.phi v = some (b, es) → e ∈ es →
    ∃ g t t', k.ending b = some (g, t) ∧ k.ending e.2 = some (g, t')

namespace ControlFlow.Whole

variable {k : ControlFlow} {g : FunctionId} {b : BlockId} {t : Option Terminator}
  {blocks : List BlockId}

/-- A function has all its blocks. -/
theorem mem_list (hk : k.Whole) (hlist : k.list g = some blocks) (hb : k.ending b = some (g, t)) :
    b ∈ blocks := by
  obtain ⟨blocks', hlist', hmem⟩ := hk.owned hb
  obtain rfl := Option.some.inj (hlist.symm.trans hlist')
  exact hmem

/-- A phi takes values from blocks of its function. -/
theorem source {v : ValueId} {es : List (ValueId × BlockId)} {e : ValueId × BlockId} (hk : k.Whole)
    (hv : k.phi v = some (b, es)) (he : e ∈ es) (hb : k.ending b = some (g, t)) :
    ∃ t', k.ending e.2 = some (g, t') := by
  obtain ⟨g', t₁, t₂, hb', hsource⟩ := hk.entries hv he
  obtain ⟨rfl, -⟩ := Prod.mk.inj (Option.some.inj (hb.symm.trans hb'))
  exact ⟨t₂, hsource⟩

end ControlFlow.Whole

/-- How the flow of control grows while code is added to a block: there are more functions, each
with at most one block, which control does not leave for another one. -/
structure ControlFlow.Extends (k k' : ControlFlow) : Prop where
  ending : ∀ {b e}, k.ending b = some e → k'.ending b = some e
  phi : k'.phi = k.phi
  list : ∀ {g blocks}, k.list g = some blocks → k'.list g = some blocks
  single : ∀ {g blocks}, k.list g = none → k'.list g = some blocks → blocks.length ≤ 1
  routine : ∀ {b g t}, k.ending b = none → k'.ending b = some (g, t) → k.list g = none ∧
    (∃ blocks, k'.list g = some blocks ∧ b ∈ blocks) ∧ ∃ end_, t = some end_ ∧ end_.successors = []

namespace ControlFlow.Extends

variable {k k' k'' : ControlFlow}

theorem refl (k : ControlFlow) : k.Extends k where
  ending h := h
  phi := rfl
  list h := h
  single hnone hsome := by simp [hnone] at hsome
  routine hnone hsome := by simp [hnone] at hsome

theorem list_eq_none {g : FunctionId} (h : k.Extends k') (hg : k'.list g = none) :
    k.list g = none := by
  cases hlist : k.list g with
  | none => rfl
  | some blocks => simp [h.list hlist] at hg

theorem trans (h : k.Extends k') (h' : k'.Extends k'') : k.Extends k'' where
  ending he := h'.ending (h.ending he)
  phi := h'.phi.trans h.phi
  list hg := h'.list (h.list hg)
  single {g blocks} hnone hsome := by
    cases hlist : k'.list g with
    | none => exact h'.single hlist hsome
    | some before =>
        obtain rfl := Option.some.inj ((h'.list hlist).symm.trans hsome)
        exact h.single hnone hlist
  routine {b g t} hnone hsome := by
    cases hending : k'.ending b with
    | none =>
        obtain ⟨hg, hrest⟩ := h'.routine hending hsome
        exact ⟨h.list_eq_none hg, hrest⟩
    | some e =>
        obtain rfl := Option.some.inj ((h'.ending hending).symm.trans hsome)
        obtain ⟨hg, ⟨blocks, hlist, hb⟩, hend⟩ := h.routine hnone hending
        exact ⟨hg, ⟨blocks, h'.list hlist, hb⟩, hend⟩

/-- The way through the block of a new function, up to its end. -/
theorem throughBlock {before : ControlFlow} {f : FunctionId} {b : BlockId} {t : Terminator}
    (h : before.Extends k) (hf : before.list f = none) (hlist : k.list f = some [])
    (hb : k.ending b = none) (h' : (k.withBlock f b).Extends k') (ht : t.successors = []) :
    before.Extends (k'.withEnd b t) := by
  have hblock : k'.ending b = some (f, none) := h'.ending ending_withBlock_self
  have hblocks : k'.list f = some [b] := h'.list (by simp [hlist])
  have hkept {c : BlockId} {e : FunctionId × Option Terminator} (hc : k.ending c = some e) :
      k'.ending c = some e := h'.ending (ending_withBlock_of_some hb hc)
  have hlists {g : FunctionId} {blocks : List BlockId} (hgf : g ≠ f) (hg : k.list g = some blocks) :
      k'.list g = some blocks := h'.list (by rw [list_withBlock_of_ne hgf, hg])
  exact {
    ending := fun {c e} he => by
      have hcb : c ≠ b := by
        rintro rfl
        simp [h.ending he] at hb
      rw [ending_withEnd_of_ne hcb]
      exact hkept (h.ending he)
    phi := h'.phi.trans h.phi
    list := fun {g blocks} hg => by
      have hgf : g ≠ f := by
        rintro rfl
        simp [hf] at hg
      exact hlists hgf (h.list hg)
    single := fun {g blocks} hnone hsome => by
      by_cases hgf : g = f
      · subst hgf
        obtain rfl := Option.some.inj (hblocks.symm.trans hsome)
        simp
      · cases hk : k.list g with
        | none => exact h'.single (by rw [list_withBlock_of_ne hgf, hk]) hsome
        | some found =>
            obtain rfl := Option.some.inj ((hlists hgf hk).symm.trans hsome)
            exact h.single hnone hk
    routine := fun {c g t'} hnone hsome => by
      obtain ⟨rfl, rfl, _, hbefore⟩ | ⟨hcb, hc⟩ := ending_withEnd_cases hsome
      · obtain ⟨rfl, -⟩ := Prod.mk.inj (Option.some.inj (hblock.symm.trans hbefore))
        exact ⟨hf, ⟨[c], hblocks, by simp⟩, t, rfl, ht⟩
      · cases hk : k.ending c with
        | none =>
            obtain ⟨hg, hrest⟩ := h'.routine (by rw [ending_withBlock_of_ne hcb, hk]) hc
            have hgf : g ≠ f := by
              rintro rfl
              simp [hlist] at hg
            rw [list_withBlock_of_ne hgf] at hg
            exact ⟨h.list_eq_none hg, hrest⟩
        | some e =>
            obtain rfl := Option.some.inj ((hkept hk).symm.trans hc)
            obtain ⟨hg, ⟨blocks, hlist', hmem⟩, hend⟩ := h.routine hnone hk
            have hgf : g ≠ f := by
              rintro rfl
              obtain rfl := Option.some.inj (hlist.symm.trans hlist')
              simp at hmem
            exact ⟨hg, ⟨blocks, hlists hgf hlist', hmem⟩, hend⟩ }

end ControlFlow.Extends

/-- What the emission of a body of function `f` adds to the flow of control `old`: blocks that are
`mine`, and functions with at most one block. -/
structure ControlFlow.Growth (old : ControlFlow) (f : FunctionId) (mine : BlockId → Prop)
    (k : ControlFlow) : Prop where
  ending : ∀ {b e}, old.ending b = some e → k.ending b = some e
  phi : ∀ {v p}, old.phi v = some p → k.phi v = some p
  list : ∀ {g blocks}, old.list g = some blocks → ∃ added, k.list g = some (blocks ++ added) ∧
    (g ≠ f → added = [])
  single : ∀ {g blocks}, old.list g = none → k.list g = some blocks → g ≠ f → blocks.length ≤ 1
  owned : ∀ {b g t}, old.ending b = none → k.ending b = some (g, t) →
    ∃ blocks, k.list g = some blocks ∧ b ∈ blocks
  edges : ∀ {b g t c}, old.ending b = none → k.ending b = some (g, some t) → c ∈ t.successors →
    old.ending c = none ∧ ∃ t', k.ending c = some (g, t')
  closed : ∀ {b g}, old.ending b = none → k.ending b = some (g, none) → g = f
  entries : ∀ {v b es}, old.phi v = none → k.phi v = some (b, es) → mine b ∧ ∀ e ∈ es, mine e.2
  mine : ∀ {b}, mine b → old.ending b = none ∧ ∃ t, k.ending b = some (f, t)

namespace ControlFlow.Growth

variable {old k k' : ControlFlow} {f : FunctionId} {mine : BlockId → Prop}

theorem refl (old : ControlFlow) (f : FunctionId) : Growth old f (fun _ => False) old where
  ending h := h
  phi h := h
  list h := ⟨[], by simpa using h, fun _ => rfl⟩
  single hnone hsome := by simp [hnone] at hsome
  owned hnone hsome := by simp [hnone] at hsome
  edges hnone hsome := by simp [hnone] at hsome
  closed hnone hsome := by simp [hnone] at hsome
  entries hnone hsome := by simp [hnone] at hsome
  mine h := h.elim

theorem whole (h : Growth old f mine k) (hold : old.Whole)
    (hlisted : ∀ {g blocks b}, k.list g = some blocks → b ∈ blocks →
      ∃ t, k.ending b = some (g, t)) :
    k.Whole where
  listed := hlisted
  owned {b g t} hb := by
    cases hnone : old.ending b with
    | none => exact h.owned hnone hb
    | some e =>
        obtain rfl : e = (g, t) := Option.some.inj ((h.ending hnone).symm.trans hb)
        obtain ⟨blocks, hlist, hmem⟩ := hold.owned hnone
        obtain ⟨added, hlist', -⟩ := h.list hlist
        exact ⟨_, hlist', List.mem_append_left _ hmem⟩
  edges {b g t c} hb hc := by
    cases hnone : old.ending b with
    | none => exact (h.edges hnone hb hc).2
    | some e =>
        obtain rfl : e = (g, some t) := Option.some.inj ((h.ending hnone).symm.trans hb)
        obtain ⟨t', ht'⟩ := hold.edges hnone hc
        exact ⟨t', h.ending ht'⟩
  entries {v b es e} hv he := by
    cases hnone : old.phi v with
    | none =>
        obtain ⟨hb, hes⟩ := h.entries hnone hv
        obtain ⟨-, t, ht⟩ := h.mine hb
        obtain ⟨-, t', ht'⟩ := h.mine (hes e he)
        exact ⟨f, t, t', ht, ht'⟩
    | some p =>
        obtain rfl : p = (b, es) := Option.some.inj ((h.phi hnone).symm.trans hv)
        obtain ⟨g, t, t', hb, he⟩ := hold.entries hnone he
        exact ⟨g, t, t', h.ending hb, h.ending he⟩

/-- The function of the body has blocks. -/
theorem list_of_mine {b : BlockId} (h : Growth old f mine k) (hb : mine b) :
    ∃ blocks, k.list f = some blocks := by
  obtain ⟨hnone, t, ht⟩ := h.mine hb
  obtain ⟨blocks, hlist, -⟩ := h.owned hnone ht
  exact ⟨blocks, hlist⟩

theorem phi_eq_none {v : ValueId} (h : Growth old f mine k) (hv : k.phi v = none) :
    old.phi v = none := by
  cases hold : old.phi v with
  | none => rfl
  | some p => simp [h.phi hold] at hv

/-- Code that is added to a block is part of the growth. -/
theorem extends_ (h : Growth old f mine k) (hk : k.Extends k') : Growth old f mine k' where
  ending he := hk.ending (h.ending he)
  phi hp := (congrFun hk.phi _).trans (h.phi hp)
  list hg := by
    obtain ⟨added, hadded, hother⟩ := h.list hg
    exact ⟨added, hk.list hadded, hother⟩
  single {g blocks} hnone hsome hg := by
    cases hlist : k.list g with
    | none => exact hk.single hlist hsome
    | some before =>
        obtain rfl := Option.some.inj ((hk.list hlist).symm.trans hsome)
        exact h.single hnone hlist hg
  owned {b g t} hnone hsome := by
    cases hending : k.ending b with
    | none => exact (hk.routine hending hsome).2.1
    | some e =>
        obtain rfl := Option.some.inj ((hk.ending hending).symm.trans hsome)
        obtain ⟨blocks, hlist, hb⟩ := h.owned hnone hending
        exact ⟨blocks, hk.list hlist, hb⟩
  edges {b g t c} hnone hsome hc := by
    cases hending : k.ending b with
    | none =>
        obtain ⟨-, -, _, ht, hleaves⟩ := hk.routine hending hsome
        obtain rfl := Option.some.inj ht
        simp [hleaves] at hc
    | some e =>
        obtain rfl := Option.some.inj ((hk.ending hending).symm.trans hsome)
        obtain ⟨hnone', t', ht'⟩ := h.edges hnone hending hc
        exact ⟨hnone', t', hk.ending ht'⟩
  closed {b g} hnone hsome := by
    cases hending : k.ending b with
    | none =>
        obtain ⟨-, -, _, ht, -⟩ := hk.routine hending hsome
        cases ht
    | some e =>
        obtain rfl := Option.some.inj ((hk.ending hending).symm.trans hsome)
        exact h.closed hnone hending
  entries hnone hsome := h.entries hnone ((congrFun hk.phi _).symm.trans hsome)
  mine hb := by
    obtain ⟨hnone, t, ht⟩ := h.mine hb
    exact ⟨hnone, t, hk.ending ht⟩

/-- Phis of the blocks of the body, with entries from them. -/
theorem withPhi {phi : ValueId → Option (BlockId × List (ValueId × BlockId))}
    (h : Growth old f mine k) (hold : ∀ {v p}, old.phi v = some p → phi v = some p)
    (hnew : ∀ {v b es}, old.phi v = none → phi v = some (b, es) → mine b ∧ ∀ e ∈ es, mine e.2) :
    Growth old f mine { k with phi } :=
  { h with phi := hold, entries := hnew }

/-- A block of the body gets its end. -/
theorem withEnd {b : BlockId} {t : Terminator} (h : Growth old f mine k) (hb : mine b)
    (ht : ∀ c ∈ t.successors, mine c) : Growth old f mine (k.withEnd b t) := by
  obtain ⟨hbnone, t₀, hbegin⟩ := h.mine hb
  have hfunction {g : FunctionId} {before : Option Terminator}
      (hbefore : k.ending b = some (g, before)) : f = g :=
    (Prod.mk.inj (Option.some.inj (hbegin.symm.trans hbefore))).1
  refine { h with ending := ?_, owned := ?_, edges := ?_, closed := ?_, mine := ?_ }
  · intro c e he
    have hcb : c ≠ b := by
      rintro rfl
      simp [hbnone] at he
    rw [ending_withEnd_of_ne hcb, h.ending he]
  · intro c g t' hnone hsome
    obtain ⟨rfl, -, before, hbefore⟩ | ⟨-, hc⟩ := ending_withEnd_cases hsome
    · exact h.owned hbnone hbefore
    · exact h.owned hnone hc
  · intro c g t' d hnone hsome hd
    obtain ⟨rfl, hend, before, hbefore⟩ | ⟨-, hc⟩ := ending_withEnd_cases hsome
    · obtain rfl := Option.some.inj hend
      obtain rfl := hfunction hbefore
      obtain ⟨hdnone, t'', hd'⟩ := h.mine (ht d hd)
      exact ⟨hdnone, exists_ending_withEnd hd'⟩
    · obtain ⟨hdnone, t'', hd'⟩ := h.edges hnone hc hd
      exact ⟨hdnone, exists_ending_withEnd hd'⟩
  · intro c g hnone hsome
    obtain ⟨-, hend, -⟩ | ⟨-, hc⟩ := ending_withEnd_cases hsome
    · cases hend
    · exact h.closed hnone hc
  · intro c hc
    obtain ⟨hcnone, t'', hc'⟩ := h.mine hc
    exact ⟨hcnone, exists_ending_withEnd hc'⟩

/-- The body gets one more block. -/
theorem withBlock {b : BlockId} {blocks : List BlockId} (h : Growth old f mine k)
    (hb : k.ending b = none) (hf : k.list f = some blocks) :
    Growth old f (fun c => mine c ∨ c = b) (k.withBlock f b) where
  ending he := ending_withBlock_of_some hb (h.ending he)
  phi := h.phi
  list {g before} hg := by
    obtain ⟨added, hadded, hother⟩ := h.list hg
    obtain ⟨more, hmore, hother'⟩ := exists_list_withBlock (f := f) (b := b) hadded
    refine ⟨added ++ more, by rw [hmore, List.append_assoc], fun hgf => ?_⟩
    rw [hother hgf, hother' hgf, List.append_nil]
  single hnone hsome hg := h.single hnone ((list_withBlock_of_ne hg).symm.trans hsome) hg
  owned {c g t} hnone hsome := by
    obtain ⟨rfl, rfl, -⟩ | ⟨-, hc⟩ := ending_withBlock_cases hsome
    · exact ⟨blocks ++ [c], by simp [hf], by simp⟩
    · obtain ⟨before, hbefore, hmem⟩ := h.owned hnone hc
      obtain ⟨added, hadded, -⟩ := exists_list_withBlock (f := f) (b := b) hbefore
      exact ⟨_, hadded, List.mem_append_left _ hmem⟩
  edges {c g t d} hnone hsome hd := by
    obtain ⟨-, -, hopen⟩ | ⟨-, hc⟩ := ending_withBlock_cases hsome
    · cases hopen
    · obtain ⟨hdnone, t', ht'⟩ := h.edges hnone hc hd
      exact ⟨hdnone, t', ending_withBlock_of_some hb ht'⟩
  closed {c g} hnone hsome := by
    obtain ⟨-, hgf, -⟩ | ⟨-, hc⟩ := ending_withBlock_cases hsome
    · exact hgf
    · exact h.closed hnone hc
  entries hnone hsome := by
    obtain ⟨hmine, hes⟩ := h.entries hnone hsome
    exact ⟨.inl hmine, fun e he => .inl (hes e he)⟩
  mine {c} hc := by
    rcases hc with hmine | rfl
    · obtain ⟨hnone, t, ht⟩ := h.mine hmine
      exact ⟨hnone, t, ending_withBlock_of_some hb ht⟩
    · refine ⟨?_, none, ending_withBlock_self⟩
      cases hold : old.ending c with
      | none => rfl
      | some e => simp [h.ending hold] at hb

end ControlFlow.Growth

/-- Changes in the course of the emission of a body, as long as it goes on with its block. -/
def Change.GrowsIn (old : ControlFlow) (mine : BlockId → Prop) : Change → Prop
  | .addPhi b _ => mine b
  | .addEntry phi _ source => old.phi phi = none ∧ mine source
  | .terminate b t => mine b ∧ ∀ c ∈ t.successors, mine c
  | .addBlock .. | .keepBlocks .. | .moveTo _ => False
  | _ => True

namespace Module

variable {m m' : Module} {c : Change} {old : ControlFlow} {f : FunctionId} {mine : BlockId → Prop}

section New

theorem phi_new : m.flow.phi ⟨m.values.size⟩ = none := by
  simp [flow]

theorem ending_new : m.flow.ending ⟨m.blocks.size⟩ = none := by
  simp [flow]

theorem list_new : m.flow.list ⟨m.functions.size⟩ = none := by
  simp [flow]

end New

theorem extends_addFunction {function : Function} (h : function.blocks = []) :
    m.flow.Extends (m.apply (.addFunction function)).flow := by
  rw [flow_addFunction h]
  refine ⟨id, rfl, fun {g blocks} hg => ?_, fun {g blocks} hnone hsome => ?_,
    fun hnone hsome => by simp [hnone] at hsome⟩
  · have hne : g ≠ ⟨m.functions.size⟩ := by
      rintro rfl
      simp [list_new] at hg
    simpa [hne] using hg
  · by_cases hg : g = ⟨m.functions.size⟩
    · simp only [hg, if_true, Option.some.injEq] at hsome
      simp [← hsome]
    · simp [hg, hnone] at hsome

/-- What straight-line code adds extends the flow of control. -/
theorem extends_apply {spared : ValueId → Prop} (hc : c.Plain spared) (hfits : m.Fits c) :
    m.flow.Extends (m.apply c).flow := by
  cases c with
  | addFunction function => exact extends_addFunction hfits.1
  | addType | addValue | addInst | record | listGlobal | countString =>
      rw [flow_apply rfl hfits]
      exact .refl _
  | _ => exact hc.elim

/-- Each change in the course of the emission of a body is part of its growth. -/
theorem growth_apply (h : old.Growth f mine m.flow) (hc : c.GrowsIn old mine) (hfits : m.Fits c) :
    old.Growth f mine (m.apply c).flow := by
  cases c with
  | addFunction function => exact h.extends_ (extends_addFunction hfits.1)
  | addPhi b type =>
      rw [flow_addPhi]
      refine h.withPhi (fun {v p} hp => ?_) fun {v b' es} hnone hsome => ?_
      · have hne : v ≠ ⟨m.values.size⟩ := by
          rintro rfl
          simp [h.phi_eq_none phi_new] at hp
        simpa [hne] using h.phi hp
      · by_cases hv : v = ⟨m.values.size⟩
        · simp only [hv, if_true, Option.some.injEq, Prod.mk.injEq] at hsome
          obtain ⟨rfl, rfl⟩ := hsome
          exact ⟨hc, by simp⟩
        · simp only [if_neg hv] at hsome
          exact h.entries hnone hsome
  | addEntry phi value source =>
      rw [flow_addEntry]
      refine h.withPhi (fun {v p} hp => ?_) fun {v b es} hnone hsome => ?_
      · have hne : v ≠ phi := by
          rintro rfl
          simp [hc.1] at hp
        simpa [hne] using h.phi hp
      · by_cases hv : v = phi
        · simp only [hv, if_true, Option.map_eq_some_iff, Prod.mk.injEq] at hsome
          obtain ⟨⟨b', es'⟩, hphi, rfl, rfl⟩ := hsome
          obtain ⟨hmine, hes⟩ := h.entries hc.1 hphi
          exact ⟨hmine, List.forall_mem_append.mpr ⟨hes, by simpa using hc.2⟩⟩
        · simp only [if_neg hv] at hsome
          exact h.entries hnone hsome
  | terminate b t =>
      rw [flow_terminate]
      exact h.withEnd hc.1 hc.2
  | addBlock | keepBlocks | moveTo => exact hc.elim
  | _ =>
      rw [flow_apply rfl hfits]
      exact h

end Module

end CilSsa.Ssa
