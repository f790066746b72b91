import CilSsa.Proofs.DeadBlocks
import CilSsa.Proofs.Flow
import CilSsa.Proofs.Thinning

/-!
Live blocks: those that control reaches from the first block of their function.

What a body adds does not make a dead block live, nor a live one dead.  So the removal of the dead
blocks of its function leaves a module in which all functions have their live blocks only, if that
was so before the body was added.
-/

namespace CilSsa.Ssa

namespace ControlFlow

def Edge (k : ControlFlow) (b c : BlockId) : Prop :=
  ∃ g t, k.ending b = some (g, some t) ∧ c ∈ t.successors

def Reaches (k : ControlFlow) : BlockId → BlockId → Prop := Relation.ReflTransGen k.Edge

/-- Control gets to a block from the first one of its function. -/
def Live (k : ControlFlow) (b : BlockId) : Prop :=
  ∃ g t entry rest, k.ending b = some (g, t) ∧ k.list g = some (entry :: rest) ∧ k.Reaches entry b

/-- Blocks that are live, and those that are still to come. -/
def Kept (k : ControlFlow) (b : BlockId) : Prop := k.Live b ∨ k.ending b = none

section Growth

variable {old k : ControlFlow} {f g : FunctionId} {mine : BlockId → Prop} {b c : BlockId}
  {t : Option Terminator}

/-- Control stays in its function. -/
theorem Whole.ending_of_reaches (hk : k.Whole) (hb : k.ending b = some (g, t))
    (h : k.Reaches b c) : ∃ t', k.ending c = some (g, t') := by
  induction h with
  | refl => exact ⟨t, hb⟩
  | tail _ hedge ih =>
      obtain ⟨t', ht'⟩ := ih
      obtain ⟨g', t'', hend, hc⟩ := hedge
      obtain ⟨rfl, -⟩ := Prod.mk.inj (Option.some.inj (ht'.symm.trans hend))
      exact hk.edges hend hc

/-- The first block of a function is live. -/
theorem Whole.live_entry {rest : List BlockId} (hk : k.Whole) (hg : k.list g = some (b :: rest)) :
    k.Live b := by
  obtain ⟨t, ht⟩ := hk.listed hg List.mem_cons_self
  exact ⟨g, t, b, rest, ht, hg, .refl⟩

/-- Control gets from live blocks to live blocks. -/
theorem Whole.live_edge (hk : k.Whole) (hb : k.Live b) (h : k.Edge b c) : k.Live c := by
  obtain ⟨g, t, entry, rest, hending, hlist, hreaches⟩ := hb
  obtain ⟨t', ht'⟩ := hk.ending_of_reaches hending (.single h)
  exact ⟨g, t', entry, rest, ht', hlist, hreaches.tail h⟩

namespace Growth

variable (h : Growth old f mine k)

include h

theorem edge_iff {e : FunctionId × Option Terminator} (hb : old.ending b = some e) :
    k.Edge b c ↔ old.Edge b c := by
  rw [Edge, Edge, h.ending hb, hb]

/-- From an old block control gets where it got before. -/
theorem reaches_iff (hold : old.Whole) (hb : old.ending b = some (g, t)) :
    k.Reaches b c ↔ old.Reaches b c := by
  constructor
  · intro hreaches
    induction hreaches with
    | refl => exact .refl
    | tail _ hedge ih =>
        obtain ⟨t', ht'⟩ := hold.ending_of_reaches hb ih
        exact ih.tail ((h.edge_iff ht').mp hedge)
  · intro hreaches
    induction hreaches with
    | refl => exact .refl
    | tail hbefore hedge ih =>
        obtain ⟨t', ht'⟩ := hold.ending_of_reaches hb hbefore
        exact ih.tail ((h.edge_iff ht').mpr hedge)

theorem live_iff (hold : old.Whole) (hb : old.ending b = some (g, t)) : k.Live b ↔ old.Live b := by
  obtain ⟨blocks, hlist, hmem⟩ := hold.owned hb
  obtain ⟨added, hadded, -⟩ := h.list hlist
  cases blocks with
  | nil => simp at hmem
  | cons entry rest =>
      obtain ⟨t', ht'⟩ := hold.listed hlist List.mem_cons_self
      constructor
      · rintro ⟨g', t'', entry', rest', hending, hlist', hreaches⟩
        obtain ⟨rfl, -⟩ := Prod.mk.inj (Option.some.inj ((h.ending hb).symm.trans hending))
        obtain ⟨rfl, -⟩ := List.cons.inj (Option.some.inj (hadded.symm.trans hlist'))
        exact ⟨g, t, entry, rest, hb, hlist, (h.reaches_iff hold ht').mp hreaches⟩
      · rintro ⟨g', t'', entry', rest', hending, hlist', hreaches⟩
        obtain ⟨rfl, -⟩ := Prod.mk.inj (Option.some.inj (hb.symm.trans hending))
        obtain ⟨rfl, -⟩ := List.cons.inj (Option.some.inj (hlist.symm.trans hlist'))
        exact ⟨g, t, entry, rest ++ added, h.ending hb, hadded,
          (h.reaches_iff hold ht').mpr hreaches⟩

/-- What was kept before the growth are all live blocks, and maybe others. -/
theorem kept_of_live (hold : old.Whole) (hb : k.Live b) : old.Kept b := by
  cases hending : old.ending b with
  | none => exact .inr hending
  | some e => exact .inl ((h.live_iff hold hending).mp hb)

/-- Control gets from what was kept to what was kept. -/
theorem kept_edge (hold : old.Whole) (hb : old.Kept b) (hedge : k.Edge b c) : old.Kept c := by
  rcases hb with hlive | hnone
  · have ⟨_, _, _, _, hending, _⟩ := hlive
    exact .inl (hold.live_edge hlive ((h.edge_iff hending).mp hedge))
  · obtain ⟨g, t, hend, hc⟩ := hedge
    exact .inr (h.edges hnone hend hc).1

/-- In other functions than that of the body, the live blocks were kept. -/
theorem kept_iff_of_ne (hold : old.Whole) (hk : k.Whole) (hb : k.ending b = some (g, t))
    (hg : g ≠ f) : old.Kept b ↔ k.Live b := by
  refine ⟨?_, h.kept_of_live hold⟩
  rintro (hlive | hnone)
  · have ⟨_, _, _, _, hending, _⟩ := hlive
    exact (h.live_iff hold hending).mpr hlive
  · obtain ⟨blocks, hlist, hmem⟩ := h.owned hnone hb
    have hnew : old.list g = none := by
      cases hbefore : old.list g with
      | none => rfl
      | some before =>
          obtain ⟨added, hadded, hother⟩ := h.list hbefore
          rw [hother hg, List.append_nil] at hadded
          obtain rfl := Option.some.inj (hadded.symm.trans hlist)
          obtain ⟨t', ht'⟩ := hold.listed hbefore hmem
          simp [hnone] at ht'
    obtain ⟨b', rfl⟩ : ∃ b', blocks = [b'] := by
      have hone := h.single hnew hlist hg
      match blocks, hmem, hone with
      | [b'], _, _ => exact ⟨b', rfl⟩
    obtain rfl := List.mem_singleton.mp hmem
    exact hk.live_entry hlist

theorem kept_of_entry {v : ValueId} {entries : List (ValueId × BlockId)} (hold : old.Whole)
    (hv : k.phi v = some (b, entries)) (hb : old.Kept b) (hdead : ¬ k.Live b) :
    ∀ e ∈ entries, old.Kept e.2 := by
  intro e he
  cases hphi : old.phi v with
  | none => exact .inr (h.mine ((h.entries hphi hv).2 e he)).1
  | some p =>
      obtain rfl := Option.some.inj ((h.phi hphi).symm.trans hv)
      obtain ⟨g, t, t', hending, -⟩ := hold.entries hphi he
      refine absurd ((h.live_iff hold hending).mpr (hb.resolve_right fun hnone => ?_)) hdead
      simp [hnone] at hending

end Growth

end Growth

end ControlFlow

namespace Module

variable {m : Module} {b : BlockId}

/-- Whether a block is one that control reaches from the first block of its function. -/
def isLive (m : Module) (b : BlockId) : Bool :=
  match m.blocks[b.index]? with
  | none => false
  | some block =>
      match m.functions[block.function.index]?.map Function.blocks with
      | some (entry :: _) =>
          match m.reachable entry with
          | .ok live => decide (b ∈ live)
          | .error _ => false
      | _ => false

/-- The module with the live blocks of its functions only, and without phi entries from others. -/
def trim (m : Module) : Module := m.thin m.isLive

/-- Whether a block is live or still to come. -/
def isKept (m : Module) (b : BlockId) : Bool := m.isLive b || decide (m.blocks.size ≤ b.index)

section Live

theorem edge_flow : m.flow.Edge = m.Edge := by
  funext b c
  simp only [ControlFlow.Edge, Edge, Block.successors, eq_iff_iff]
  constructor
  · rintro ⟨g, t, hend, hc⟩
    obtain ⟨block, hblock, -, ht⟩ := ending_eq_some_iff.mp hend
    exact ⟨block, hblock, by rwa [ht]⟩
  · rintro ⟨block, hblock, hc⟩
    cases ht : block.terminator with
    | none => simp [ht] at hc
    | some t =>
        exact ⟨block.function, t, ending_eq_some_iff.mpr ⟨block, hblock, rfl, ht⟩,
          by rwa [ht] at hc⟩

theorem reaches_flow : m.flow.Reaches = m.Reaches := by
  rw [ControlFlow.Reaches, Reaches, edge_flow]

/-- The first block of a function with its blocks can be searched. -/
theorem exists_reachable {g : FunctionId} {entry : BlockId} {rest : List BlockId}
    (hm : m.flow.Whole) (hg : m.flow.list g = some (entry :: rest)) :
    ∃ live, m.reachable entry = .ok live := by
  refine exists_reachFrom _ [] (fun b (hb : b ∈ entry :: rest) => ?_) (by simp)
  obtain ⟨t, ht⟩ := hm.listed hg hb
  obtain ⟨block, hblock, -, rfl⟩ := ending_eq_some_iff.mp ht
  refine ⟨block, hblock, fun c hc => ?_⟩
  have hedge : m.flow.Edge b c := by
    rw [edge_flow]
    exact ⟨block, hblock, hc⟩
  obtain ⟨t', ht'⟩ := hm.ending_of_reaches ht (.single hedge)
  exact hm.mem_list hg ht'

theorem isLive_iff (hm : m.flow.Whole) : m.isLive b = true ↔ m.flow.Live b := by
  constructor
  · intro h
    unfold isLive at h
    split at h
    · cases h
    · rename_i block hblock
      split at h
      · rename_i entry rest hlist
        split at h
        · rename_i live hreachable
          refine ⟨block.function, block.terminator, entry, rest,
            ending_eq_some_iff.mpr ⟨block, hblock, rfl, rfl⟩, hlist, ?_⟩
          rw [reaches_flow]
          exact (mem_reachable_iff hreachable b).mp (of_decide_eq_true h)
        · cases h
      · cases h
  · rintro ⟨g, t, entry, rest, hending, hlist, hreaches⟩
    obtain ⟨live, hreachable⟩ := exists_reachable hm hlist
    obtain ⟨block, hblock, rfl, -⟩ := ending_eq_some_iff.mp hending
    have hfound : m.functions[block.function.index]?.map Function.blocks = some (entry :: rest) :=
      hlist
    rw [reaches_flow] at hreaches
    simp [isLive, hblock, hfound, hreachable, mem_reachable_iff hreachable b, hreaches]

end Live

section Thinning

variable {keep keep' : BlockId → Bool}

/-- A value is the phi of a block, or stays as it is. -/
theorem thin_cases_of_value {v : ValueId} {value : Value} (hv : m.values[v.index]? = some value) :
    (∃ type b entries, value = ⟨type, .inst (some b) (.phi entries)⟩ ∧
      m.flow.phi v = some (b, entries)) ∨
      (∀ type b entries, value ≠ ⟨type, .inst (some b) (.phi entries)⟩) ∧
        ∀ keep, value.thin keep = value := by
  obtain ⟨type, kind⟩ := value
  cases kind with
  | inst place inst =>
      cases place with
      | none => exact .inr ⟨by simp, fun _ => rfl⟩
      | some b =>
          cases inst with
          | phi entries => exact .inl ⟨type, b, entries, rfl, phi_eq_some_iff.mpr ⟨type, hv⟩⟩
          | _ => exact .inr ⟨by simp, fun _ => rfl⟩
  | _ => exact .inr ⟨by simp, fun _ => rfl⟩

theorem isKept_iff (hm : m.flow.Whole) (b : BlockId) : m.isKept b = true ↔ m.flow.Kept b := by
  rw [isKept, Bool.or_eq_true, decide_eq_true_eq, isLive_iff hm, ← ending_eq_none_iff]
  rfl

theorem keeping_isKept : m.Keeping m.isKept := fun b hb => by simp [isKept, hb]

/-- Only blocks that exist matter to a thinner module. -/
theorem thin_congr (hm : m.flow.Whole)
    (h : ∀ {b e}, m.flow.ending b = some e → keep b = keep' b) : m.thin keep = m.thin keep' := by
  have hfunctions :
      m.functions.map (Function.thin keep) = m.functions.map (Function.thin keep') := by
    refine Array.ext_getElem? fun i => ?_
    simp only [Array.getElem?_map]
    cases hfunction : m.functions[i]? with
    | none => rfl
    | some function =>
        have hlist : m.flow.list ⟨i⟩ = some function.blocks :=
          list_eq_some_iff.mpr ⟨function, hfunction, rfl⟩
        have hblocks : function.blocks.filter keep = function.blocks.filter keep' :=
          List.filter_congr fun b hb => h (hm.listed hlist hb).choose_spec
        simp [Function.thin, hblocks]
  have hvalues : m.values.map (Value.thin keep) = m.values.map (Value.thin keep') := by
    refine Array.ext_getElem? fun i => ?_
    simp only [Array.getElem?_map]
    cases hvalue : m.values[i]? with
    | none => rfl
    | some value =>
        refine congrArg some ?_
        obtain ⟨type, b, entries, rfl, hphi⟩ | ⟨-, hsame⟩ := thin_cases_of_value (v := ⟨i⟩) hvalue
        · cases entries with
          | nil => simp [Value.thin]
          | cons first rest =>
              obtain ⟨g, t, -, hb, -⟩ := hm.entries hphi List.mem_cons_self
              have hentries : (first :: rest).filter (fun e => keep e.2) =
                  (first :: rest).filter fun e => keep' e.2 := by
                refine List.filter_congr fun e he => ?_
                obtain ⟨_, _, _, _, he'⟩ := hm.entries hphi he
                exact h he'
              simp only [Value.thin, h hb, hentries]
        · rw [hsame, hsame]
  rw [thin, thin, hfunctions, hvalues]

theorem thin_isKept (hm : m.flow.Whole) : m.thin m.isKept = m.trim := by
  refine thin_congr hm fun {b e} hb => ?_
  obtain ⟨block, hblock, -⟩ := ending_eq_some_iff.mp hb
  have hlt := (Array.getElem?_eq_some_iff.mp hblock).1
  simp [isKept, Nat.not_le.mpr hlt]

end Thinning

section Removal

theorem listed_of_wellPlaced (hplaced : m.WellPlaced) {g : FunctionId} {blocks : List BlockId}
    (hg : m.flow.list g = some blocks) (hb : b ∈ blocks) : ∃ t, m.flow.ending b = some (g, t) := by
  obtain ⟨function, hfunction, rfl⟩ := list_eq_some_iff.mp hg
  obtain ⟨block, hblock, hsame⟩ := hplaced.added hfunction hb
  exact ⟨block.terminator, ending_eq_some_iff.mpr ⟨block, hblock, hsame, rfl⟩⟩

variable {old : ControlFlow} {f : FunctionId} {mine : BlockId → Prop} {keep : BlockId → Bool}

theorem whole_of_growth (h : old.Growth f mine m.flow) (hold : old.Whole) (hplaced : m.WellPlaced) :
    m.flow.Whole :=
  h.whole hold (listed_of_wellPlaced hplaced)

/-- The blocks that a search finds from the first one of a function are its live ones. -/
theorem live_iff_of_head {blocks : List BlockId} {b : BlockId} {t : Option Terminator}
    (hf : m.flow.list f = some blocks) (hb : m.flow.ending b = some (f, t)) :
    m.flow.Live b ↔ ∃ entry ∈ blocks.head?, m.Reaches entry b := by
  rw [← reaches_flow]
  constructor
  · rintro ⟨g, t', entry, rest, hending, hlist, hreaches⟩
    obtain ⟨rfl, -⟩ := Prod.mk.inj (Option.some.inj (hb.symm.trans hending))
    obtain rfl := Option.some.inj (hf.symm.trans hlist)
    exact ⟨entry, rfl, hreaches⟩
  · rintro ⟨entry, hentry, hreaches⟩
    obtain ⟨rest, rfl⟩ := List.head?_eq_some_iff.mp hentry
    exact ⟨f, t, entry, rest, hb, hf, hreaches⟩

theorem standsIn_iff_of_phi (hplaced : m.WellPlaced) {kept : List BlockId} {v : ValueId}
    {type : TypeId} {inst : Inst} (hv : m.values[v.index]? = some ⟨type, .inst (some b) inst⟩) :
    m.standsIn kept v = true ↔ b ∈ kept := by
  rw [standsIn_iff]
  constructor
  · rintro ⟨c, hc, block, hblock, hmem⟩
    obtain ⟨type', inst', hvalue⟩ := hplaced.own hblock hmem
    rw [hv] at hvalue
    cases hvalue
    exact hc
  · intro hb
    obtain ⟨block, hblock, hcount⟩ := hplaced.listed hv
    exact ⟨b, hb, block, hblock, List.count_pos_iff.mp (by omega)⟩

variable (h : old.Growth f mine m.flow) (hold : old.Whole) (hm : m.flow.Whole)
  (hkeep : ∀ b, keep b = true ↔ old.Kept b)

include h hold hm hkeep

theorem kept_of_isLive {b : BlockId} (hb : m.isLive b = true) : keep b = true :=
  (hkeep b).mpr (h.kept_of_live hold ((isLive_iff hm).mp hb))

/-- In other functions than that of the body, these are all. -/
theorem keep_eq_isLive {b : BlockId} {g : FunctionId} {t : Option Terminator}
    (hb : m.flow.ending b = some (g, t)) (hg : g ≠ f) : keep b = m.isLive b := by
  rw [Bool.eq_iff_iff, hkeep, isLive_iff hm]
  exact h.kept_iff_of_ne hold hm hb hg

/-- Where the body's function has no dead blocks among those that were kept, nothing is left to be
removed. -/
theorem thin_eq_trim
    (hf : ∀ {b t}, m.flow.ending b = some (f, t) → old.Kept b → m.flow.Live b) :
    m.thin keep = m.trim := by
  refine thin_congr hm fun {b e} hb => ?_
  obtain ⟨g, t⟩ := e
  by_cases hg : g = f
  · subst hg
    rw [Bool.eq_iff_iff, hkeep, isLive_iff hm]
    exact ⟨hf hb, h.kept_of_live hold⟩
  · exact keep_eq_isLive h hold hm hkeep hb hg

/-- A function keeps its first block. -/
theorem head?_filter_kept {blocks : List BlockId} (hf : m.flow.list f = some blocks) :
    (blocks.filter keep).head? = blocks.head? := by
  cases blocks with
  | nil => rfl
  | cons entry rest =>
      have hentry : keep entry = true :=
        kept_of_isLive h hold hm hkeep ((isLive_iff hm).mpr (hm.live_entry hf))
      simp [hentry]

section Filters

variable {kept : List BlockId} {α : Type} {items : List α} {place : α → BlockId}

/-- The search goes on in what was kept, and finds what is live. -/
theorem filter_kept
    (hkept : ∀ {b t}, m.flow.ending b = some (f, t) → (b ∈ kept ↔ m.flow.Live b))
    (hitems : ∀ a ∈ items, ∃ t, m.flow.ending (place a) = some (f, t)) :
    (items.filter fun a => keep (place a)).filter (place · ∈ kept) =
      items.filter fun a => m.isLive (place a) := by
  rw [List.filter_filter]
  refine List.filter_congr fun a ha => ?_
  obtain ⟨t, ht⟩ := hitems a ha
  rw [Bool.eq_iff_iff, Bool.and_eq_true, decide_eq_true_eq, hkept ht, ← isLive_iff hm]
  exact and_iff_left_of_imp (kept_of_isLive h hold hm hkeep)

theorem filter_kept_of_ne {g : FunctionId} (hg : g ≠ f)
    (hitems : ∀ a ∈ items, ∃ t, m.flow.ending (place a) = some (g, t)) :
    (items.filter fun a => keep (place a)) = items.filter fun a => m.isLive (place a) := by
  refine List.filter_congr fun a ha => ?_
  obtain ⟨t, ht⟩ := hitems a ha
  exact keep_eq_isLive h hold hm hkeep ht hg

end Filters

section Search

variable {kept : List BlockId}
  (hkept : ∀ {b t}, m.flow.ending b = some (f, t) → (b ∈ kept ↔ m.flow.Live b))

include hkept

/-- What a removal leaves of the functions are their live blocks. -/
theorem functions_keepBlocks_thin :
    ((m.thin keep).keepBlocks f kept).functions = m.trim.functions := by
  refine Array.ext_getElem? fun i => ?_
  simp only [keepBlocks, trim, thin, Array.getElem?_modify, Array.getElem?_map]
  cases hfunction : m.functions[i]? with
  | none => simp
  | some function =>
      have hlist : m.flow.list ⟨i⟩ = some function.blocks :=
        list_eq_some_iff.mpr ⟨function, hfunction, rfl⟩
      split
      · rename_i hi
        subst hi
        have hfilter : (function.blocks.filter keep).filter (· ∈ kept) =
            function.blocks.filter m.isLive :=
          filter_kept h hold hm hkeep hkept fun b hb => hm.listed hlist hb
        simp [Function.thin, hfilter]
      · rename_i hi
        have hne : (⟨i⟩ : FunctionId) ≠ f := by
          rintro rfl
          exact hi rfl
        have hfilter : function.blocks.filter keep = function.blocks.filter m.isLive :=
          filter_kept_of_ne h hold hm hkeep hne fun b hb => hm.listed hlist hb
        simp [Function.thin, hfilter]

variable (hplaced : m.WellPlaced) (hown : ∀ b ∈ kept, ∃ t, m.flow.ending b = some (f, t))

include hplaced hown

theorem pruned_thin_phi {v : ValueId} {type : TypeId} {b : BlockId}
    {entries : List (ValueId × BlockId)}
    (hv : m.values[v.index]? = some ⟨type, .inst (some b) (.phi entries)⟩) :
    (m.thin keep).pruned kept v (Value.thin keep ⟨type, .inst (some b) (.phi entries)⟩) =
      Value.thin m.isLive ⟨type, .inst (some b) (.phi entries)⟩ := by
  have hphi : m.flow.phi v = some (b, entries) := phi_eq_some_iff.mpr ⟨type, hv⟩
  have hstands : (m.thin keep).standsIn kept v = true ↔ b ∈ kept := standsIn_iff_of_phi hplaced hv
  rw [Value.thin, Value.thin, pruned_phi]
  refine congrArg (fun entries => Value.mk type (.inst (some b) (.phi entries))) ?_
  obtain ⟨block, hblock, -⟩ := hplaced.listed hv
  have hb : m.flow.ending b = some (block.function, block.terminator) :=
    ending_eq_some_iff.mpr ⟨block, hblock, rfl, rfl⟩
  have hsource (e : ValueId × BlockId) (he : e ∈ entries) :
      ∃ t, m.flow.ending e.2 = some (block.function, t) := hm.source hphi he hb
  by_cases hg : block.function = f
  · rw [hg] at hb hsource
    cases hlive : m.isLive b with
    | true =>
        have hbkept : b ∈ kept := (hkept hb).mpr ((isLive_iff hm).mp hlive)
        rw [if_pos (hstands.mpr hbkept), if_pos (kept_of_isLive h hold hm hkeep hlive), if_pos rfl]
        exact filter_kept h hold hm hkeep hkept hsource
    | false =>
        have hdead : ¬ m.flow.Live b := fun hb' => by simp [(isLive_iff hm).mpr hb'] at hlive
        rw [if_neg (fun hb' => hdead ((hkept hb).mp (hstands.mp hb'))), if_neg Bool.false_ne_true]
        split
        · rename_i hbkept
          refine List.filter_eq_self.mpr fun e he => (hkeep _).mpr ?_
          exact h.kept_of_entry hold hphi ((hkeep b).mp hbkept) hdead e he
        · rfl
  · have hother : ¬ b ∈ kept := by
      intro hbkept
      obtain ⟨t, ht⟩ := hown b hbkept
      exact hg (Prod.mk.inj (Option.some.inj (hb.symm.trans ht))).1
    rw [if_neg (fun hb' => hother (hstands.mp hb')), keep_eq_isLive h hold hm hkeep hb hg,
      filter_kept_of_ne h hold hm hkeep hg hsource]

/-- What a removal keeps of a value is what the live blocks need of it. -/
theorem pruned_thin {v : ValueId} {value : Value} (hv : m.values[v.index]? = some value) :
    (m.thin keep).pruned kept v (value.thin keep) = value.thin m.isLive := by
  obtain ⟨type, b, entries, rfl, -⟩ | ⟨hnot, hsame⟩ := thin_cases_of_value hv
  · exact pruned_thin_phi h hold hm hkeep hkept hplaced hown hv
  · rw [hsame, hsame, pruned]
    split
    · rename_i hstands
      obtain ⟨b, -, block, hblock, hmem⟩ := standsIn_iff.mp hstands
      obtain ⟨type, inst, hvalue⟩ := hplaced.own hblock hmem
      obtain rfl := Option.some.inj (hv.symm.trans hvalue)
      cases inst with
      | phi entries => exact absurd rfl (hnot type b entries)
      | _ => rfl
    · rfl

theorem keepBlocks_thin : (m.thin keep).keepBlocks f kept = m.trim := by
  have hfunctions := functions_keepBlocks_thin h hold hm hkeep hkept
  have hvalues : ((m.thin keep).keepBlocks f kept).values = m.trim.values := by
    refine Array.ext_getElem? fun i => ?_
    rw [values_keepBlocks (m := m.thin keep) ⟨i⟩]
    simp only [trim, thin, Array.getElem?_map]
    cases hvalue : m.values[i]? with
    | none => rfl
    | some value =>
        exact congrArg some (pruned_thin (v := ⟨i⟩) h hold hm hkeep hkept hplaced hown hvalue)
  have hsplit : (m.thin keep).keepBlocks f kept = { m with
      functions := ((m.thin keep).keepBlocks f kept).functions
      values := ((m.thin keep).keepBlocks f kept).values } := rfl
  rw [hsplit, hfunctions, hvalues]
  rfl

end Search

omit hm

/-- The removal of the dead blocks of the function of a body leaves live blocks only, if so it was
before the body was added. -/
theorem removeUnreachable_thin (hplaced : m.WellPlaced) {function : Function}
    (hf : m.functions[f.index]? = some function) :
    (m.thin keep).removeUnreachable f = .ok m.trim := by
  have hm : m.flow.Whole := whole_of_growth h hold hplaced
  have hlist : m.flow.list f = some function.blocks := list_eq_some_iff.mpr ⟨function, hf, rfl⟩
  have hfound : (m.thin keep).functions[f.index]? = some (function.thin keep) := by
    simp [thin, hf]
  have hblocks : ∀ b ∈ (function.thin keep).blocks, ∃ block,
      (m.thin keep).blocks[b.index]? = some block ∧
        ∀ c ∈ block.successors, c ∈ (function.thin keep).blocks := by
    intro b hb
    obtain ⟨hmem, hb⟩ := List.mem_filter.mp hb
    obtain ⟨t, ht⟩ := hm.listed hlist hmem
    obtain ⟨block, hblock, -, rfl⟩ := ending_eq_some_iff.mp ht
    refine ⟨block, hblock, fun c hc => ?_⟩
    have hedge : m.flow.Edge b c := by
      rw [edge_flow]
      exact ⟨block, hblock, hc⟩
    obtain ⟨t', ht'⟩ := hm.ending_of_reaches ht (.single hedge)
    exact List.mem_filter.mpr ⟨hm.mem_list hlist ht',
      (hkeep c).mpr (h.kept_edge hold ((hkeep b).mp hb) hedge)⟩
  obtain ⟨kept, hmem, hremoved⟩ := removeUnreachable_cases hfound hblocks
  have hkept {b : BlockId} {t : Option Terminator} (hb : m.flow.ending b = some (f, t)) :
      b ∈ kept ↔ m.flow.Live b := by
    rw [hmem, live_iff_of_head hlist hb, ← head?_filter_kept h hold hm hkeep hlist]
    rfl
  rw [hremoved]
  refine congrArg Except.ok ?_
  split
  · rename_i hall
    refine thin_eq_trim h hold hm hkeep fun {b t} hb hbkept => ?_
    exact (hkept hb).mp (of_decide_eq_true (List.all_eq_true.mp hall b
      (List.mem_filter.mpr ⟨hm.mem_list hlist hb, (hkeep b).mpr hbkept⟩)))
  · refine keepBlocks_thin h hold hm hkeep hkept hplaced fun b hb => ?_
    obtain ⟨entry, hentry, hreaches⟩ := (hmem b).mp hb
    obtain ⟨t, ht⟩ := hm.listed hlist (List.mem_filter.mp (List.mem_of_mem_head? hentry)).1
    exact hm.ending_of_reaches ht (by rw [reaches_flow]; exact hreaches)

end Removal

end Module

end CilSsa.Ssa
