import CilSsa.Proofs.LiveBlocks

/-!
Verification of a module with fewer blocks.

A function is found to have the same defect with fewer blocks, or none, as long as the blocks that
are left out are in order, and control does not get to them from others.
-/

namespace CilSsa.Ssa.Module

variable {m : Module} {keep : BlockId → Bool} {f : FunctionId} {blocks : List BlockId}

/-- Blocks of a function that can be left out of its verification. -/
structure Dispensable (m : Module) (keep : BlockId → Bool) (blocks : List BlockId) : Prop where
  found : ∀ b ∈ blocks, ∃ block, m.blocks[b.index]? = some block
  own : ∀ {b : BlockId} {block : Block} {v : ValueId}, m.blocks[b.index]? = some block →
    v ∈ block.insts → ∃ type inst, m.values[v.index]? = some ⟨type, .inst (some b) inst⟩
  /-- Control stays in what is kept. -/
  stays : ∀ b ∈ blocks, keep b = true → ∀ c, m.Edge b c → keep c = true
  ended : ∀ b ∈ blocks, keep b = false → m.EndsWithin blocks b
  phis : ∀ b ∈ blocks, keep b = false → ∀ {block}, m.blocks[b.index]? = some block →
    m.PhisFit (fun p => p ∈ blocks ∧ m.Edge p b) block.insts
  /-- Phis get nothing from what is left out but from predecessors. -/
  entries : ∀ {v : ValueId} {type : TypeId} {b : BlockId} {entries : List (ValueId × BlockId)},
    b ∈ blocks → keep b = true → m.values[v.index]? = some ⟨type, .inst (some b) (.phi entries)⟩ →
      ∀ e ∈ entries, keep e.2 = false → e.2 ∈ blocks ∧ m.Edge e.2 b

/-- A search that finds nothing among some items can leave them out. -/
theorem findSomeM?_filter {ε α β : Type} {p : α → Bool} {search search' : α → Except ε (Option β)}
    {items : List α} (hsame : ∀ a ∈ items, p a = true → search' a = search a)
    (hnone : ∀ a ∈ items, p a = false → search a = .ok none) :
    (items.filter p).findSomeM? search' = items.findSomeM? search := by
  induction items with
  | nil => rfl
  | cons a rest ih =>
      obtain ⟨hfirst, hsame⟩ := List.forall_mem_cons.mp hsame
      obtain ⟨hfirst', hnone⟩ := List.forall_mem_cons.mp hnone
      cases hp : p a with
      | true =>
          rw [List.filter_cons_of_pos hp, List.findSomeM?_cons, List.findSomeM?_cons, hfirst hp,
            ih hsame hnone]
      | false =>
          rw [List.filter_cons_of_neg (by simp [hp]), List.findSomeM?_cons, hfirst' hp,
            ih hsame hnone]
          rfl

section Blocks

variable {b : BlockId}

/-- The end of a block that is kept. -/
theorem terminatorDefect?_thin (hstays : ∀ c, m.Edge b c → keep c = true) :
    (m.thin keep).terminatorDefect? (blocks.filter keep) b = m.terminatorDefect? blocks b := by
  rw [terminatorDefect?, terminatorDefect?]
  change (m.block b >>= _) = (m.block b >>= _)
  cases hblock : m.block b with
  | error fault => rfl
  | ok block =>
      have hfound := Arena.entry_eq_ok_iff.mp hblock
      simp only [bind, Except.bind]
      cases ht : block.terminator with
      | none => rfl
      | some t =>
          have hall :
              t.successors.all (· ∈ blocks.filter keep) = t.successors.all (· ∈ blocks) := by
            have hkeep (c : BlockId) (hc : c ∈ t.successors) : keep c = true :=
              hstays c ⟨block, hfound, by rwa [Block.successors, ht]⟩
            rw [Bool.eq_iff_iff, List.all_eq_true, List.all_eq_true]
            refine forall₂_congr fun c hc => ?_
            simp [hkeep c hc]
          simp only [hall]

variable {name : String} {preds preds' : List BlockId}

theorem incomingDefect?_thin {entries : List (ValueId × BlockId)}
    (hsame : ∀ e ∈ entries, keep e.2 = true → (e.2 ∈ preds' ↔ e.2 ∈ preds))
    (hdropped : ∀ e ∈ entries, keep e.2 = false → e.2 ∈ preds) :
    (m.thin keep).incomingDefect? name preds' (entries.filter fun e => keep e.2) =
      m.incomingDefect? name preds entries := by
  induction entries with
  | nil => rfl
  | cons e rest ih =>
      obtain ⟨v, source⟩ := e
      obtain ⟨hfirst, hsame⟩ := List.forall_mem_cons.mp hsame
      obtain ⟨hfirst', hdropped⟩ := List.forall_mem_cons.mp hdropped
      cases hkeep : keep source with
      | true =>
          have hfilter : ((v, source) :: rest).filter (fun e => keep e.2) =
              (v, source) :: rest.filter fun e => keep e.2 := by simp [hkeep]
          rw [hfilter, incomingDefect?, incomingDefect?, ih hsame hdropped]
          simp only [hfirst hkeep]
          rfl
      | false =>
          have hfilter : ((v, source) :: rest).filter (fun e => keep e.2) =
              rest.filter fun e => keep e.2 := by simp [hkeep]
          rw [hfilter, ih hsame hdropped, incomingDefect?, if_pos (hfirst' hkeep)]

/-- The phis of a block that is kept. -/
theorem phiDefect?_thin (hb : keep b = true) {inHead : Bool} {insts : List ValueId}
    (hown : ∀ v ∈ insts, ∃ type inst, m.values[v.index]? = some ⟨type, .inst (some b) inst⟩)
    (hentries : ∀ v ∈ insts, ∀ {type entries},
      m.values[v.index]? = some ⟨type, .inst (some b) (.phi entries)⟩ → ∀ e ∈ entries,
        (keep e.2 = true → (e.2 ∈ preds' ↔ e.2 ∈ preds)) ∧ (keep e.2 = false → e.2 ∈ preds)) :
    (m.thin keep).phiDefect? name preds' inHead insts = m.phiDefect? name preds inHead insts := by
  induction insts generalizing inHead with
  | nil => rfl
  | cons v rest ih =>
      obtain ⟨⟨type, inst, hv⟩, hown⟩ := List.forall_mem_cons.mp hown
      obtain ⟨hfirst, hentries⟩ := List.forall_mem_cons.mp hentries
      have hrest (inHead : Bool) : (m.thin keep).phiDefect? name preds' inHead rest =
          m.phiDefect? name preds inHead rest := ih hown hentries
      have hthin : (m.thin keep).values[v.index]? =
          some (Value.thin keep ⟨type, .inst (some b) inst⟩) := by
        simp [thin, hv]
      rw [phiDefect?, phiDefect?]
      cases inst with
      | phi entries =>
          simp only [Value.thin, hb, if_true] at hthin
          have hdefect : (m.thin keep).incomingDefect? name preds'
              (entries.filter fun e => keep e.2) = m.incomingDefect? name preds entries :=
            incomingDefect?_thin (fun e he => (hfirst hv e he).1) fun e he => (hfirst hv e he).2
          rw [incoming?_of_phi hthin, incoming?_of_phi hv]
          simp only [bind, Except.bind, hrest]
          rw [hdefect]
      | _ =>
          have hnot : Build.isPhi m v = false := by
            simp [Build.isPhi, hv, Value.inst?, Inst.isPhi]
          rw [incoming?_of_not_isPhi hthin ((isPhi_thin v).trans hnot),
            incoming?_of_not_isPhi hv hnot]
          simp only [bind, Except.bind, hrest]

theorem blockPhiDefect?_thin (h : m.Dispensable keep blocks) (hmem : b ∈ blocks)
    (hb : keep b = true) :
    (m.thin keep).blockPhiDefect? (blocks.filter keep) b = m.blockPhiDefect? blocks b := by
  obtain ⟨block, hblock⟩ := h.found b hmem
  obtain ⟨preds, hpreds⟩ : ∃ preds, m.predecessors blocks b = .ok preds :=
    exists_predecessors h.found
  obtain ⟨preds', hpreds'⟩ :
      ∃ preds', (m.thin keep).predecessors (blocks.filter keep) b = .ok preds' :=
    exists_predecessors fun c hc => h.found c (List.mem_filter.mp hc).1
  have hfound : m.block b = .ok block := Arena.entry_eq_ok_iff.mpr hblock
  have hfound' : (m.thin keep).block b = .ok block := hfound
  rw [blockPhiDefect?, blockPhiDefect?, hfound, hfound']
  simp only [bind, Except.bind, hpreds, hpreds']
  refine phiDefect?_thin hb (fun v hv => h.own hblock hv)
    fun v hv {type entries} hphi e he => ⟨?_, ?_⟩
  · intro hkeep
    rw [mem_predecessors hpreds, mem_predecessors hpreds', List.mem_filter, and_iff_left hkeep]
    rfl
  · intro hkeep
    rw [mem_predecessors hpreds]
    exact h.entries hmem hb hphi e he hkeep

end Blocks

theorem defect?_thin {function : Function} (hf : m.functions[f.index]? = some function)
    (h : m.Dispensable keep function.blocks) : (m.thin keep).defect? f = m.defect? f := by
  have hfound : m.function f = .ok function := Arena.entry_eq_ok_iff.mpr hf
  have hmisuse : (m.thin keep).misuseOf? f = m.misuseOf? f := rfl
  have hthin : Function.thin keep <$> (Except.ok function : Except Fault Function) =
      .ok (function.thin keep) := rfl
  rw [defect?, defect?, function_thin, hfound, hmisuse, hthin]
  simp only [bind, Except.bind]
  cases m.misuseOf? f with
  | some misuse => rfl
  | none =>
      simp only
      have hends : (function.thin keep).blocks.findSomeM?
          ((m.thin keep).terminatorDefect? (function.thin keep).blocks) =
            function.blocks.findSomeM? (m.terminatorDefect? function.blocks) :=
        findSomeM?_filter (fun b hb hkeep => terminatorDefect?_thin (h.stays b hb hkeep))
          fun b hb hkeep => terminatorDefect?_eq_none_iff.mpr (h.ended b hb hkeep)
      have hphis : (function.thin keep).blocks.findSomeM?
          ((m.thin keep).blockPhiDefect? (function.thin keep).blocks) =
            function.blocks.findSomeM? (m.blockPhiDefect? function.blocks) :=
        findSomeM?_filter (fun b hb hkeep => blockPhiDefect?_thin h hb hkeep)
          fun b hb hkeep => (blockPhiDefect?_eq_none_iff h.found hb).mpr (h.phis b hb hkeep)
      rw [hends, hphis]

/-- Verification comes to the same result with fewer blocks. -/
theorem verify_thin {function : Function} (hf : m.functions[f.index]? = some function)
    (h : m.Dispensable keep function.blocks) : (m.thin keep).verify f = m.verify f := by
  rw [verify, verify, defect?_thin hf h, function_thin]
  have hfound : m.function f = .ok function := Arena.entry_eq_ok_iff.mpr hf
  rw [hfound]
  rfl

end CilSsa.Ssa.Module

namespace CilSsa.Ssa

/-- Whether every block is ended, and phis take values from predecessors only. -/
structure ControlFlow.Checked (k : ControlFlow) : Prop where
  closed : ∀ {b g}, k.ending b ≠ some (g, none)
  entries : ∀ {v b es e}, k.phi v = some (b, es) → e ∈ es → k.Edge e.2 b

/-- Code that is added to a block changes nothing of this. -/
theorem ControlFlow.Checked.extends_ {k k' : ControlFlow} (h : k.Checked) (hk : k.Extends k') :
    k'.Checked where
  closed {b g} hb := by
    cases hending : k.ending b with
    | none =>
        obtain ⟨-, -, _, ht, -⟩ := hk.routine hending hb
        cases ht
    | some e =>
        obtain rfl := Option.some.inj ((hk.ending hending).symm.trans hb)
        exact h.closed hending
  entries hv he := by
    rw [hk.phi] at hv
    obtain ⟨g, t, hend, hmem⟩ := h.entries hv he
    exact ⟨g, t, hk.ending hend, hmem⟩

namespace Module

section Growth

variable {m : Module} {old : ControlFlow} {f : FunctionId} {mine : BlockId → Prop}
  {function : Function}

/-- A function with a body that was verified has ended blocks, and phis with entries from
predecessors, as all others before it. -/
theorem checked_of_verify (h : old.Growth f mine m.flow) (hold : old.Checked)
    (hplaced : m.WellPlaced) (hf : m.WellFormed f function) : m.flow.Checked := by
  have hlist : m.flow.list f = some function.blocks :=
    list_eq_some_iff.mpr ⟨function, hf.found, rfl⟩
  have howned {b : BlockId} {t : Option Terminator} (hnone : old.ending b = none)
      (hb : m.flow.ending b = some (f, t)) : b ∈ function.blocks := by
    obtain ⟨blocks, hblocks, hmem⟩ := h.owned hnone hb
    obtain rfl := Option.some.inj (hlist.symm.trans hblocks)
    exact hmem
  refine ⟨fun {b g} hb => ?_, fun {v b es e} hv he => ?_⟩
  · cases hending : old.ending b with
    | none =>
        obtain rfl := h.closed hending hb
        obtain ⟨block, t, hblock, ht, -⟩ := hf.ended b (howned hending hb)
        rw [ending_eq_some_iff.mpr ⟨block, hblock, rfl, ht⟩] at hb
        cases hb
    | some e =>
        obtain rfl := Option.some.inj ((h.ending hending).symm.trans hb)
        exact hold.closed hending
  · cases hphi : old.phi v with
    | none =>
        obtain ⟨hnone, t, hb⟩ := h.mine (h.entries hphi hv).1
        obtain ⟨type, hvalue⟩ := phi_eq_some_iff.mp hv
        obtain ⟨block, hblock, hcount⟩ := hplaced.listed hvalue
        have hmem : v ∈ block.insts := List.count_pos_iff.mp (by omega)
        rw [edge_flow]
        exact ((hf.phis b (howned hnone hb) hblock).entries v hmem hvalue e he).2
    | some p =>
        obtain rfl := Option.some.inj ((h.phi hphi).symm.trans hv)
        obtain ⟨g, t, hend, hmem⟩ := hold.entries hphi he
        exact ⟨g, t, h.ending hend, hmem⟩

theorem exists_ending_of_left {keep : BlockId → Bool} {b : BlockId}
    (hkeep : ∀ b, keep b = true ↔ old.Kept b) (hb : keep b = false) :
    ∃ e, old.ending b = some e := by
  refine Option.ne_none_iff_exists'.mp fun hnone => ?_
  simp [(hkeep b).mpr (.inr hnone)] at hb

theorem edge_of_growth (h : old.Growth f mine m.flow) {b c : BlockId} (hbc : old.Edge b c) :
    m.Edge b c := by
  obtain ⟨g, t, hend, hc⟩ := hbc
  rw [← edge_flow]
  exact ⟨g, t, h.ending hend, hc⟩

/-- An entry that is left out, or is one of a phi that is, comes from a predecessor. -/
theorem entry_of_left (h : old.Growth f mine m.flow) (hm : m.flow.Whole) (hchecked : old.Checked)
    {keep : BlockId → Bool} (hkeep : ∀ b, keep b = true ↔ old.Kept b) {blocks : List BlockId}
    (hlist : m.flow.list f = some blocks) {v : ValueId} {b : BlockId}
    {entries : List (ValueId × BlockId)} {e : ValueId × BlockId} (hb : b ∈ blocks)
    (hv : m.flow.phi v = some (b, entries)) (he : e ∈ entries)
    (hleft : keep b = false ∨ keep e.2 = false) : e.2 ∈ blocks ∧ m.Edge e.2 b := by
  obtain ⟨t, hb'⟩ := hm.listed hlist hb
  obtain ⟨t', hsource⟩ := hm.source hv he hb'
  refine ⟨hm.mem_list hlist hsource, ?_⟩
  cases hphi : old.phi v with
  | none =>
      obtain ⟨hmine, hall⟩ := h.entries hphi hv
      rcases hleft with hleft | hleft
      · obtain ⟨_, hsome⟩ := exists_ending_of_left hkeep hleft
        simp [(h.mine hmine).1] at hsome
      · obtain ⟨_, hsome⟩ := exists_ending_of_left hkeep hleft
        simp [(h.mine (hall e he)).1] at hsome
  | some p =>
      obtain rfl := Option.some.inj ((h.phi hphi).symm.trans hv)
      exact edge_of_growth h (hchecked.entries hphi he)

/-- The dead blocks from before a body was added can be left out when its function is verified. -/
theorem dispensable_of_growth (h : old.Growth f mine m.flow) (hold : old.Whole)
    (hchecked : old.Checked) (hplaced : m.WellPlaced) {keep : BlockId → Bool}
    (hkeep : ∀ b, keep b = true ↔ old.Kept b) (hf : m.functions[f.index]? = some function) :
    m.Dispensable keep function.blocks := by
  have hm : m.flow.Whole := whole_of_growth h hold hplaced
  have hlist : m.flow.list f = some function.blocks := list_eq_some_iff.mpr ⟨function, hf, rfl⟩
  refine ⟨fun b hb => ?_, hplaced.own, fun b _ hb c hbc => ?_, fun b hb hleft => ?_,
    fun b hb hleft {block} hblock => ⟨fun v hv => ?_, hplaced.phisFirst hblock,
      fun v hv {type place entries} hphi e he => ?_⟩,
    fun {v type b entries} hb _ hphi e he hleft => ?_⟩
  · obtain ⟨t, ht⟩ := hm.listed hlist hb
    obtain ⟨block, hblock, -⟩ := ending_eq_some_iff.mp ht
    exact ⟨block, hblock⟩
  · rw [← edge_flow] at hbc
    exact (hkeep c).mpr (h.kept_edge hold ((hkeep b).mp hb) hbc)
  · obtain ⟨t, ht⟩ := hm.listed hlist hb
    obtain ⟨e, hending⟩ := exists_ending_of_left hkeep hleft
    obtain rfl := Option.some.inj ((h.ending hending).symm.trans ht)
    obtain ⟨end_, rfl⟩ : ∃ end_, t = some end_ := by
      refine Option.ne_none_iff_exists'.mp fun hnone => ?_
      subst hnone
      exact hchecked.closed hending
    obtain ⟨block, hblock, -, hend⟩ := ending_eq_some_iff.mp ht
    refine ⟨block, end_, hblock, hend, fun c hc => ?_⟩
    obtain ⟨t', ht'⟩ := hm.edges ht hc
    exact hm.mem_list hlist ht'
  · obtain ⟨type, inst, hvalue⟩ := hplaced.own hblock hv
    exact ⟨_, hvalue⟩
  · obtain ⟨type', inst, hvalue⟩ := hplaced.own hblock hv
    rw [hphi] at hvalue
    cases hvalue
    exact entry_of_left h hm hchecked hkeep hlist hb (phi_eq_some_iff.mpr ⟨_, hphi⟩) he (.inl hleft)
  · exact entry_of_left h hm hchecked hkeep hlist hb (phi_eq_some_iff.mpr ⟨_, hphi⟩) he (.inr hleft)

end Growth

end Module

end CilSsa.Ssa
